import InlineCache.Proofs.Codegen.Restore
import InlineCache.Proofs.X64.Layout

/-!
# Leaving a stub

A stub is left by a return or through a bailout. Both drop what was pushed first. `Finishes` says
when the end of a run on the machine is the end of the run on virtual registers. The bailouts stand
behind the body, each behind its label (`bailouts_ensures`); whichever a guard jumps to, the inputs
that came in registers are back in them when the next stub is entered.
-/

namespace InlineCache

open X64

/-! ## Dropping the stack -/

/-- The code that drops what was pushed. -/
def Snippet.discard (depth : Nat) : Code :=
  if 0 < depth then dropStack depth else []

/-- No operand has a place any more. -/
def Allocator.discarded (a : Allocator) : Allocator :=
  { a with places := a.places.map fun _ => .uninitialized, depth := 0 }

namespace Snippet

theorem length_discard (depth : Nat) : (discard depth).length ≤ 1 := by
  rw [discard]
  split <;> simp [dropStack]

theorem straight_discard (depth : Nat) : Straight (discard depth) := by
  rw [discard]
  split
  · exact straight_cons rfl straight_nil
  · exact straight_nil

theorem exec_discard {area : UInt64 → Bool} {m : Machine} {top : UInt64} {depth : Nat}
    (hsp : m.reg .rsp = Memory.slot top depth) (hlt : depth < 2 ^ 31) :
    ∃ m', exec area (discard depth) m = .fall m' ∧ m'.reg .rsp = top ∧ m'.mem = m.mem ∧
      ∀ s, s ≠ .rsp → m'.reg s = m.reg s := by
  rw [discard]
  split
  · refine ⟨_, exec_dropStack _, ?_, rfl, fun s hs => ?_⟩
    · have hdisp := Memory.slot_add_disp top (Nat.zero_le depth) hlt
      rw [Nat.sub_zero, Memory.slot_zero] at hdisp
      rw [Machine.reg_setReg, if_pos rfl, Machine.address, hsp, hdisp]
    · rw [Machine.reg_setReg, if_neg hs.symm]
      rfl
  · next hzero =>
      have hdepth : depth = 0 := by omega
      refine ⟨m, rfl, ?_, rfl, fun _ _ => rfl⟩
      rw [hsp, hdepth, Memory.slot_zero]

end Snippet

namespace Gen

variable {s : Codegen}

theorem discardStack_eq :
    discardStack s = .ok () (s.write (Snippet.discard s.alloc.depth) s.alloc.discarded) := by
  have hbranch : discardStack s = (if 0 < s.alloc.depth then do
      code (Snippet.dropStack s.alloc.depth)
      setDepth 0
    else return () : Gen Unit) { s with alloc :=
      { s.alloc with places := s.alloc.places.map fun _ => .uninitialized } } := rfl
  rw [hbranch, Snippet.discard]
  split
  · rfl
  · next hzero =>
      have hdepth : s.alloc.depth = 0 := by omega
      rw [Codegen.write_nil, Allocator.discarded, ← hdepth]
      rfl

/-- The code of a return. -/
theorem return_eq :
    return_ s = .ok () (s.write (Snippet.discard s.alloc.depth ++ [.ret]) s.alloc.discarded) := by
  rw [return_, bind_of_ok discardStack_eq, code_eq, Codegen.write_write]
  rfl

end Gen

/-! ## The end of a run -/

/-- The machine ended as the stub did. Inputs that came in registers are handed on in them, the
stack is as it was, and so is memory outside the stub's part of it. -/
def Finishes (env : Env) (done : Bool) (origins : List Place) (x : StubExit) (e : Exit) : Prop :=
  match x with
  | .returned w => ∃ m, e = .returned m ∧ (done = true → m.reg outputRegister = w) ∧
      m.reg .rsp = env.sp ∧ ∀ {a}, env.area a = false → m.mem a = env.mem a
  | .left operands stub code => ∃ m, e = .left code m ∧ m.reg stubRegister = stub ∧
      (∀ {i r}, origins[i]? = some (.valueReg r) → m.reg r = operands i) ∧
      m.reg .rsp = env.sp ∧ ∀ {a}, env.area a = false → m.mem a = env.mem a
  | .wild => e = .wild

theorem Finishes.return_ {env : Env} {done : Bool} {a : Allocator} {σ : VirtualState} {m : Machine}
    (h : Running env done a σ m) (hlt : a.depth < 2 ^ 31) (origins : List Place) :
    Finishes env done origins (.returned σ.result)
      (exec env.area (Snippet.discard a.depth ++ [.ret]) m) := by
  obtain ⟨m', hx, hsp, hmem, hregs⟩ := @Snippet.exec_discard env.area _ _ _ h.realizes.sp hlt
  refine ⟨m', by rw [exec_append_of_fall hx, exec_ret], fun hd => ?_, hsp, fun ha => ?_⟩
  · rw [hregs _ (by decide), h.result hd]
  · rw [hmem, h.realizes.mem ha]

/-- Entering the next stub, with all inputs back. -/
theorem Finishes.leave {env : Env} {σ : VirtualState} {m : Machine} {depth : Nat}
    {origins : List Place} (hsp : m.reg .rsp = Memory.slot env.sp depth) (hlt : depth < 2 ^ 31)
    (hstub : m.reg stubRegister = env.stub) (horigins : .valueReg stubRegister ∉ origins)
    (hrsp : .valueReg .rsp ∉ origins)
    (hback : ∀ {i r}, origins[i]? = some (.valueReg r) → m.reg r = (σ.contents i).word)
    (hmem : ∀ {a}, env.area a = false → m.mem a = env.mem a) (done : Bool) :
    Finishes env done origins (Virtual.exit env (.error .failed σ))
      (exec env.area (Snippet.discard depth ++ Snippet.enterNext) m) := by
  obtain ⟨m₁, hx₁, hsp₁, hmem₁, hregs₁⟩ := @Snippet.exec_discard env.area _ _ _ hsp hlt
  have hstub₁ : m₁.reg .rdx = env.stub := (hregs₁ .rdx (by decide)).trans hstub
  have hread : ∀ {a}, (Span.mk a 8).avoids env.area = true → m₁.mem.read64 a = env.mem.read64 a :=
    fun ha => Memory.read64_of_avoids (fun x hx => by rw [hmem₁]; exact hmem hx) ha
  have hmem₂ : ∀ w, (m₁.setReg .rdx w).mem = m₁.mem := fun _ => rfl
  rw [exec_append_of_fall hx₁, Snippet.enterNext, exec_follow, Machine.address, hstub₁,
    Virtual.exit_failed, Env.linked]
  cases hnext : (Span.mk (env.stub + Layout.stubNext.toInt64.toUInt64) 8).avoids env.area with
  | false => rfl
  | true =>
      rw [if_pos rfl, hread hnext, exec_jmpStub, Machine.address, Machine.reg_setReg, if_pos rfl,
        hmem₂, Bool.true_and]
      change Finishes env done origins _ (if (Span.mk (env.nextStub + _) 8).avoids env.area then
        .left (m₁.mem.read64 (env.nextStub + _)) (m₁.setReg .rdx env.nextStub) else .wild)
      cases hcode : (Span.mk (env.nextStub + Layout.stubCode.toInt64.toUInt64) 8).avoids env.area with
      | false => rfl
      | true =>
          rw [if_pos rfl, if_pos rfl, hread hcode]
          refine ⟨_, rfl, by rw [stubRegister, Machine.reg_setReg, if_pos rfl],
            fun {i r} ho => ?_, ?_, fun ha => by rw [hmem₂, hmem₁]; exact hmem ha⟩
          · have hr := List.mem_of_getElem? ho
            have hstub : Register.rdx ≠ r := fun h => horigins (by rw [stubRegister, h]; exact hr)
            rw [Machine.reg_setReg, if_neg hstub, hregs₁ r fun h => hrsp (h ▸ hr), hback ho]
          · rw [Machine.reg_setReg, if_neg (by decide), hsp₁]

/-! ## The bailouts of a program -/

/-- The bailout is for `n` inputs, all of which have a place. -/
structure Bailout.Sound (n : Nat) (b : Bailout) : Prop where
  length : b.inputs.length = n
  arranged : Arranged b.place b.depth
  placed : ∀ i < n, b.place i ≠ .uninitialized

/-- What the code of a bailout comes to. -/
structure Bailout.Leaves (origins : List Place) (b : Bailout) (c : Snippet.Code) : Prop where
  length : c.length ≤ 5 * b.inputs.length + 3
  straight : Straight c
  runs : ∀ {env σ m}, env.room < 2 ^ 31 → b.depth + 8 * (b.inputs.length - 1) ≤ env.room →
    b.Running env σ m → ∀ done, ∃ e, exec env.area c m = e ∧
      Finishes env done origins (Virtual.exit env (.error .failed σ)) e

theorem Bailout.Restores.leaves {origins : List Place} {b : Bailout} {c : Snippet.Code}
    {depth : Nat} (hos : Origins origins) (hlen : origins.length ≤ b.inputs.length)
    (h : Restores origins b.inputs b.depth c depth) :
    b.Leaves origins (c ++ (Snippet.discard depth ++ Snippet.enterNext)) where
  length := by
    have h₁ := h.length
    have h₂ := Snippet.length_discard depth
    simp only [List.length_append, Snippet.enterNext, List.length_cons, List.length_nil]
    omega
  straight := h.straight.append ((Snippet.straight_discard depth).append
    (straight_cons rfl (straight_cons rfl straight_nil)))
  runs {env σ m} hroom hdepth hrun done := by
    have hle := h.depth_le
    obtain ⟨k, -, hruns⟩ := h.runs
    obtain ⟨m', hx, hsp, hmem, hback, hregs⟩ := hruns hroom hdepth hrun.realizes
    refine ⟨_, rfl, ?_⟩
    rw [exec_append_of_fall hx]
    refine Finishes.leave hsp (by omega) ?_ hos.stub (fun h => (hos.register_ne h).1 rfl)
      (fun {i r} ho => hback ?_ ho) (fun hx => ?_) done
    · rw [hregs stubRegister (by decide) hos.stub, hrun.stub]
    · exact Nat.lt_of_lt_of_le (List.getElem?_eq_some_iff.mp ho).1 hlen
    · rw [hmem (.inr (Memory.below_mono hdepth hx)), hrun.realizes.mem hx]

/-- The items of bailouts: each is its label and its code. -/
inductive Bailouts (origins : List Place) : List Bailout → List Item → Prop where
  | nil : Bailouts origins [] []
  | cons {b : Bailout} {bs : List Bailout} {c : Snippet.Code} {tail : List Item} :
      b.Leaves origins c → Bailouts origins bs tail →
      Bailouts origins (b :: bs) (.bind b.label :: (c.map Item.instr ++ tail))

theorem Gen.emit_ensures {α : Type} {E : EmitError → Prop} {e : Emit α} {s : Codegen}
    {Q : α → Assembly → Prop} (h : Ensures (fun e _ => E e) e s.asm Q) :
    Ensures (fun e _ => E e) (Gen.emit e) s fun a s' => ∃ asm, s' = { s with asm } ∧ Q a asm := by
  unfold Ensures at h ⊢
  rw [Gen.emit, EStateM.run]
  cases hx : e s.asm with
  | ok a asm =>
      rw [hx] at h
      exact ⟨asm, rfl, h⟩
  | error e asm =>
      rw [hx] at h
      exact h

theorem Compile.leave_eq (depth : Nat) (s : Codegen) :
    leave depth s = .ok () (s.write (Snippet.discard depth ++ Snippet.enterNext)
      ({ s.alloc with depth } : Allocator).discarded) := by
  show (do Gen.discardStack; Gen.code Snippet.enterNext : Gen Unit)
    { s with alloc := { s.alloc with depth } } = _
  rw [bind_of_ok Gen.discardStack_eq, Gen.code_eq, Codegen.write_write]
  rfl

/-- The bailouts can be written, unless the stack is too deep. -/
theorem Compile.bailouts_ensures {n depth : Nat} {bs : List Bailout}
    (hbs : ∀ b ∈ bs, b.Sound n ∧ b.depth ≤ depth) {s : Codegen} (hn : s.alloc.origins.size = n)
    (hos : Bailout.Origins s.alloc.origins.toList) :
    Ensures (fun e _ => e = .stackDepth ∧ 2 ^ 32 ≤ depth + 8 * (n - 1)) (bailouts bs) s
      fun _ s' => ∃ tail, s'.asm.items.toList = s.asm.items.toList ++ tail ∧
        Bailouts s.alloc.origins.toList bs tail := by
  induction bs generalizing s with
  | nil => exact Ensures.pure ⟨[], (List.append_nil _).symm, .nil⟩
  | cons b bs ih =>
      obtain ⟨hsound, hdepth⟩ := hbs b (by simp)
      have hlen : s.alloc.origins.toList.length = b.inputs.length := by
        rw [hsound.length, ← hn, Array.length_toList]
      have hemit : Ensures (fun e _ => e = .stackDepth ∧ 2 ^ 32 ≤ depth + 8 * (n - 1))
          (b.emit s.alloc.origins.toList) s.asm fun depth' asm' => ∃ c,
            asm' = (s.asm.push (.bind b.label)).append c ∧
              Bailout.Restores s.alloc.origins.toList b.inputs b.depth c depth' := by
        refine Ensures.bind_ok (t := s.asm.push (.bind b.label)) (a := ()) rfl
          ((Bailout.restoreAll_ensures hos.toSources (Nat.le_of_eq hlen.symm) hsound.arranged
            (fun i hi => hsound.placed i (hsound.length ▸ hi)) 0 _).mono (fun e _ he => ?_)
            fun _ _ h => h)
        have := he.2
        rw [hsound.length] at this
        exact ⟨he.1, by omega⟩
      refine Ensures.bind_ok (t := s) (a := s.alloc) rfl
        (Ensures.bind ((Gen.emit_ensures hemit).mono (fun _ _ h => h) ?_))
      rintro depth' _ ⟨_, rfl, c, rfl, hrest⟩
      refine Ensures.bind_ok (leave_eq depth' _) ?_
      have hrest' := ih (fun b' hb' => hbs b' (by simp [hb'])) (s := ({ s with
        asm := (s.asm.push (.bind b.label)).append c } : Codegen).write
          (Snippet.discard depth' ++ Snippet.enterNext)
          ({ s.alloc with depth := depth' } : Allocator).discarded) hn hos
      refine hrest'.mono (fun _ _ h => h) ?_
      rintro _ s' ⟨tail, hitems, htail⟩
      refine ⟨_, ?_, .cons (hrest.leaves hos (Nat.le_of_eq hlen)) htail⟩
      rw [hitems]
      simp [Codegen.write, Assembly.append, Assembly.push]

namespace Bailouts

variable {origins : List Place} {bs : List Bailout} {tail : List Item}

theorem target? (h : Bailouts origins bs tail) {i : Instr Label} (hi : .instr i ∈ tail) :
    i.target? = none := by
  induction h with
  | nil => cases hi
  | cons hc _ ih =>
      simp only [List.mem_cons, reduceCtorEq, false_or, List.mem_append, List.mem_map,
        Item.instr.injEq, exists_eq_right] at hi
      obtain hi | hi := hi
      · exact hc.straight i hi
      · exact ih hi

theorem bindings (h : Bailouts origins bs tail) (start : Nat) :
    (Item.bindings start tail).map Prod.fst = bs.map Bailout.label := by
  induction h generalizing start with
  | nil => rfl
  | cons _ _ ih =>
      rw [Item.bindings, Item.bindings_append, Item.bindings_map_instr, List.nil_append,
        List.map_cons, List.map_cons, ih]

/-- The code of a bailout is found behind its label. -/
theorem after? (h : Bailouts origins bs tail) (hnodup : (bs.map Bailout.label).Nodup)
    {b : Bailout} (hb : b ∈ bs) :
    ∃ c rest, Item.after? b.label tail = some (c.map Item.instr ++ rest) ∧ b.Leaves origins c := by
  induction h with
  | nil => cases hb
  | @cons b' bs c tail hc _ ih =>
      rw [List.map_cons, List.nodup_cons] at hnodup
      obtain rfl | hb := List.mem_cons.mp hb
      · exact ⟨c, tail, if_pos rfl, hc⟩
      · have hne : b'.label ≠ b.label := fun h => hnodup.1 (h ▸ List.mem_map_of_mem hb)
        obtain ⟨c', rest, hafter, hleaves⟩ := ih hnodup.2 hb
        refine ⟨c', rest, ?_, hleaves⟩
        rw [Item.after?, if_neg hne, Item.after?_map_instr, hafter]

theorem totalSize_le (h : Bailouts origins bs tail) {n : Nat} (hn : ∀ b ∈ bs, b.inputs.length ≤ n) :
    Item.totalSize tail ≤ bs.length * (10 * (5 * n + 3)) := by
  induction h with
  | nil => exact Nat.zero_le _
  | @cons b bs c tail hc _ ih =>
      have hlen := hc.length
      have hb := hn b (by simp)
      have hrest := ih fun b' hb' => hn b' (by simp [hb'])
      have hcode := Item.totalSize_map_instr_le c
      rw [Item.totalSize, Item.size, Item.totalSize_append, List.length_cons, Nat.add_one_mul]
      omega

end Bailouts
end InlineCache
