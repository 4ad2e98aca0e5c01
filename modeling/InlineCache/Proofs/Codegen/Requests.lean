import InlineCache.Proofs.Codegen.Entry
import InlineCache.Proofs.Codegen.Handing

/-!
# What the allocator is asked for

Every operation of the allocator keeps the registers shared out: using an operand in whatever form,
defining one, letting an input arrive. Each operation has one lemma. It says that the operation
returns with code that climbs with the allocator and with the registers it claims or fills, that
the code leaves every operand where the allocator has it (`Allocator.Brings`), and that running out
of registers on the way loses nothing.
-/

namespace InlineCache

open X64

/-! ## Conversions -/

theorem Snippet.plain_move {src dest : Register} (hdest : dest ≠ .rsp) :
    Plain (Snippet.move dest src) := by
  rw [Snippet.move]
  split <;> simp [Instr.isPlain, Instr.dest?, hdest]

/-- Taking a payload out of its box does not touch the stack. -/
theorem Snippet.unbox_eq {dest : Register} (hdest : dest ≠ .rsp) (src : Register) (t : ValueType) :
    (∃ c, Snippet.unbox src dest t = .ok c ∧ Plain c) ∨
      Snippet.unbox src dest t = .error (.cannotUnbox t) := by
  unfold Snippet.unbox
  split
  · refine .inl ⟨_, rfl, (plain_move hdest).append ?_⟩
    simp [Instr.isPlain, Instr.dest?, hdest]
  · split
    · exact .inl ⟨_, rfl, by simp [Instr.isPlain, Instr.dest?, hdest]⟩
    · exact .inl ⟨_, rfl, by simp [Instr.isPlain, Instr.dest?, hdest]⟩
    · exact .inr rfl

theorem Snippet.tag_eq {dest : Register} (hdest : dest ≠ .rsp) (payload : Register)
    (t : ValueType) :
    (∃ c, Snippet.tag t payload dest = .ok c ∧ Plain c) ∨
      Snippet.tag t payload dest = .error (.cannotBox t) := by
  have hscratch : scratchRegister ≠ .rsp := by decide
  unfold Snippet.tag
  split
  · exact .inl ⟨_, rfl, by simp [Instr.isPlain, Instr.dest?, hdest, hscratch]⟩
  · exact .inl ⟨_, rfl, by simp [Instr.isPlain, Instr.dest?, hdest, hscratch]⟩
  · split
    · refine .inl ⟨_, rfl, (plain_move hdest).append ?_⟩
      simp [Instr.isPlain, Instr.dest?, hdest, hscratch]
    · exact .inr rfl

theorem Snippet.isBoxable_of_unbox {src dest : Register} {t : ValueType} {c : Snippet.Code}
    (h : Snippet.unbox src dest t = .ok c) : t.isBoxable = true := by
  cases t <;> first | rfl | cases h

theorem Snippet.isBoxable_of_tag {payload dest : Register} {t : ValueType} {c : Snippet.Code}
    (h : Snippet.tag t payload dest = .ok c) : t.isBoxable = true := by
  cases t <;> first | rfl | cases h

/-- A step that only writes plain code, or fails with something that is no answer. If it does not
fail, `P` holds, and the code does `g` to the word in a register. -/
def Writes (P : Prop) (step : Gen Unit) (g : UInt64 → UInt64) (r : Register) : Prop :=
  ∀ s : Codegen, Ensures (fun e _ => ∀ k, e ≠ .outOfRegisters k) step s fun _ s' =>
    P ∧ ∃ c, s' = s.write c s.alloc ∧ Plain c ∧ Snippet.Computes g r r [r, scratchRegister] c

namespace Writes

variable {P P' : Prop} {r : Register} {t : ValueType} {g g' : UInt64 → UInt64}

theorem pure : Writes True (Pure.pure ()) (fun w => w) r := fun s =>
  Ensures.pure ⟨trivial, [], (Codegen.write_nil s s.alloc).symm, plain_nil,
    fun _ m => ⟨m, rfl, rfl, Machine.AgreeExcept.refl _ m⟩⟩

theorem code {c : Snippet.Code} (hc : Plain c) (hP : P)
    (hg : Snippet.Computes g r r [r, scratchRegister] c) : Writes P (Gen.code c) g r := fun s =>
  Ensures.of_ok (Gen.code_eq c s) ⟨hP, c, rfl, hc, hg⟩

theorem bind {step step' : Gen Unit} (h : Writes P step g r) (h' : Writes P' step' g' r) :
    Writes (P ∧ P') (do step; step') (fun w => g' (g w)) r := by
  intro s
  refine Ensures.bind ((h s).mono (fun _ _ he => he) ?_)
  rintro _ _ ⟨hP, c, rfl, hc, hg⟩
  refine (h' _).mono (fun _ _ he => he) ?_
  rintro _ _ ⟨hP', c', rfl, hc', hg'⟩
  exact ⟨⟨hP, hP'⟩, c ++ c', Codegen.write_write _ _ _ _ _, hc.append hc', hg.comp hg'⟩

theorem weaken {step : Gen Unit} (h : Writes P step g r) : Writes True step g r := fun s =>
  (h s).mono (fun _ _ he => he) fun _ _ hx => ⟨trivial, hx.2⟩

theorem unbox (hr : r ≠ .rsp) :
    Writes (t.isBoxable = true) (Gen.code? (Snippet.unbox r r t)) t.unbox r := by
  intro s
  obtain ⟨c, hc, hplain⟩ | hc := Snippet.unbox_eq hr r t
  · have ht := Snippet.isBoxable_of_unbox hc
    obtain ⟨c', hc', -, hg⟩ := Snippet.unbox_of_isBoxable ht r r
    rw [hc] at hc' ⊢
    cases hc'
    exact Writes.code hplain ht (hg.mono (by simp)) s
  · rw [hc]
    exact Ensures.of_error rfl fun k he => by cases he

theorem tag (hr : r ≠ .rsp ∧ r ≠ scratchRegister) :
    Writes (t.isBoxable = true) (Gen.code? (Snippet.tag t r r)) t.box r := by
  intro s
  obtain ⟨c, hc, hplain⟩ | hc := Snippet.tag_eq hr.1 r t
  · have ht := Snippet.isBoxable_of_tag hc
    obtain ⟨c', hc', -, hg⟩ := Snippet.tag_of_isBoxable ht hr.2
    rw [hc] at hc' ⊢
    cases hc'
    exact Writes.code hplain ht hg s
  · rw [hc]
    exact Ensures.of_error rfl fun k he => by cases he

theorem retype {known : ValueType} (hr : r ≠ .rsp ∧ r ≠ scratchRegister) :
    Writes True (Gen.retype r known t)
      (fun w => if known = t then w else t.unbox (known.box w)) r := by
  rw [Gen.retype]
  by_cases h : known = t
  · simp only [ne_eq, h, not_true_eq_false, if_false, if_true]
    exact Writes.pure
  · simp only [ne_eq, h, not_false_eq_true, if_true, if_false]
    exact ((Writes.tag hr).bind (Writes.unbox hr.1)).weaken

end Writes

/-! ## Values of operands -/

namespace Content

/-- The operand is this value: boxed, or its payload with the type known, or a constant. -/
def Holds (v : Value) : Content → Prop
  | .boxed w => w = v.bits
  | .payload t w => v.Unboxes t ∧ w = v.payload
  | .constant u => u = v

/-- The value is boxed afterwards. -/
def Boxes (c c' : Content) : Prop :=
  ∀ v : Value, c.Holds v → c' = .boxed v.bits

/-- A value of type `t` is unboxed afterwards. -/
def Unboxes (t : ValueType) (c c' : Content) : Prop :=
  ∀ v : Value, v.Unboxes t → c.Holds v → c' = .payload t v.payload

theorem boxes_boxed (w : UInt64) : (boxed w).Boxes (.boxed w) :=
  fun _ hv => congrArg boxed hv

theorem boxes_payload {t : ValueType} (ht : t.isBoxable = true) (w : UInt64) :
    (payload t w).Boxes (.boxed (t.box w)) := by
  rintro v ⟨hv, rfl⟩
  rw [ValueType.box_payload ht hv]

theorem boxes_constant (u : Value) : (constant u).Boxes (.boxed u.bits) :=
  fun _ hv => congrArg (boxed ·.bits) hv

theorem unboxes_boxed {t : ValueType} (ht : t.isBoxable = true) (w : UInt64) :
    (boxed w).Unboxes t (.payload t (t.unbox w)) := by
  rintro v hv rfl
  rw [ValueType.unbox_bits ht hv]

theorem unboxes_payload (known t : ValueType) (w : UInt64) : (payload known w).Unboxes t
    (.payload t (if known = t then w else t.unbox (known.box w))) := by
  rintro v hv ⟨hknown, rfl⟩
  rw [if_pos (hknown.1.symm.trans hv.1)]

theorem unboxes_constant (u : Value) (t : ValueType) :
    (constant u).Unboxes t (.payload t (Gen.constantPayload u t)) := by
  rintro v hv rfl
  refine congrArg (payload t) ?_
  cases ht : t.isBoxable with
  | true => rw [Gen.constantPayload_eq ht, ValueType.unbox_bits ht hv]
  | false => cases t <;> first | rfl | cases ht

end Content

/-! ## Operands in registers -/

namespace Allocator

/-- An operand was brought to a register, and `R` relates what it was and what it is there. The
other operands are what they were, as far as they still have places, and so are all registers but
the one of the operand, the scratch register and the stack pointer. -/
structure Brings (a : Allocator) (i : Nat) (R : Content → Content → Prop) (c : Snippet.Code)
    (r : Register) (a' : Allocator) : Prop where
  register : (a'.place i).register? = some r
  usable : r ≠ .rsp
  source : (a.place i).register? = some r ∨ a.Freeable r
  runs : ∀ {env contents m}, env.room < 2 ^ 31 → a'.maxDepth ≤ env.room →
    Realizes env a.place a.depth contents m → ∃ m' w, exec env.area c m = .fall m' ∧
      R (contents i) w ∧ Realizes env a'.place a'.depth (setAt contents i w) m' ∧
      ∀ q, q ≠ .rsp → q ≠ scratchRegister → (q = r → a'.place i = a.place i) →
        m'.reg q = m.reg q

section
variable {a a' : Allocator} {c c' : Snippet.Code} {e : Engine} {claimed : RegisterSet} {i : Nat}
  {r : Register} {p : Place} {R : Content → Content → Prop} {g : UInt64 → UInt64}

theorem Partitioned.brings_refl (h : a.Partitioned e claimed)
    (hi : (a.place i).register? = some r)
    (hR : ∀ w, R ((a.place i).form w) ((a.place i).form w)) :
    a.Brings i R [] r (a.reserve r) where
  register := hi
  usable := (h.usable (h.held hi).1).1
  source := .inl hi
  runs {env contents m} _ _ hreal := by
    have hcontent := hreal.holds (Place.content?_of_register? hi)
    refine ⟨m, contents i, rfl, ?_, ?_, fun _ _ _ _ => rfl⟩
    · rw [hcontent]
      exact hR _
    · rw [setAt_eq_self]
      exact hreal

/-- The operand is converted in its register. -/
theorem Partitioned.brings_inPlace (h : a.Partitioned e claimed)
    (hi : (a.place i).register? = some r) (hp : p.register? = some r) (hne : p ≠ a.place i)
    (hc : Snippet.Computes g r r [r, scratchRegister] c)
    (hR : ∀ w, R ((a.place i).form w) (p.form (g w))) :
    a.Brings i R c r ((a.setPlace i p).reserve r) := by
  have hlt := lt_size_of_register? hi
  have hplace : ((a.setPlace i p).reserve r).place = setAt a.place i p := place_setPlace hlt p
  have hr := h.usable (h.held hi).1
  refine ⟨by rw [hplace, setAt_self, hp], hr.1, .inl hi, fun {env contents m} _ _ hreal => ?_⟩
  have hcontent := hreal.holds (Place.content?_of_register? hi)
  obtain ⟨m', hx, hw, ha⟩ := hc env.area m
  -- While the operand is converted, it has no place.
  have hforget : Realizes env (setAt a.place i .uninitialized) a.depth contents m := by
    refine hreal.forget fun j => ?_
    by_cases hj : j = i
    · exact .inr (by rw [hj, setAt_self])
    · exact .inl (setAt_of_ne _ _ hj)
  have hagree := hforget.agree ha (by simp [hr.1.symm]; decide) fun j q hq => by
    obtain ⟨-, hq⟩ | ⟨hj, hq⟩ := setAt_cases Place.register? hq
    · cases hq
    · have hqr : q ≠ r := fun he => hj (h.register hq (he ▸ hi))
      simp [hqr, (h.usable (h.held hq).1).2.2]
  have hset := hagree.setAt (i := i) (Place.content?_of_register? hp)
  rw [setAt_setAt] at hset
  refine ⟨m', _, hx, ?_, hplace ▸ hset, fun q _ hscratch hq => ha.reg q ?_⟩
  · rw [hcontent, hw]
    exact hR _
  · have hqr : q ≠ r := fun he => hne (by rw [← hq he, hplace, setAt_self])
    simp [hqr, hscratch]

/-- The operand is not in a register. One was handed out, and code leaves the operand there. -/
theorem Hands.brings (h : a.Hands e c claimed r a') {depth : Nat}
    (hlt : i < a'.places.size) (hout : (a.place i).register? = none) (hp : p.register? = some r)
    (hload : ∀ {env contents m₀ m}, env.room < 2 ^ 31 → a'.maxDepth ≤ env.room →
      Realizes env a.place a.depth contents m₀ → Realizes env a'.place a'.depth contents m →
      (∀ {x}, Memory.below env.sp a.depth x = true → m.mem x = m₀.mem x) →
      ∃ m', exec env.area c' m = .fall m' ∧ R (contents i) (p.form (m'.reg r)) ∧
        Realizes env a'.place depth contents m' ∧
        ∀ q, q ∉ [.rsp, r, scratchRegister] → m'.reg q = m.reg q) :
    a.Brings i R (c ++ c') r (a'.move i p depth) := by
  have hplace := place_move hlt p depth
  have hreg : ((a'.move i p depth).place i).register? = some r := by rw [hplace, setAt_self, hp]
  refine ⟨hreg, h.usable.1, .inr h.source, fun {env contents m} hroom hmax hreal => ?_⟩
  obtain ⟨m₁, hx₁, hreal₁, hregs₁, hmem₁⟩ := h.runs hroom hmax hreal
  obtain ⟨m₂, hx₂, hR, hreal₂, hregs₂⟩ := hload hroom hmax hreal hreal₁ hmem₁
  refine ⟨m₂, _, by rw [exec_append_of_fall hx₁, hx₂], hR, ?_, fun q hsp hscratch hq => ?_⟩
  · rw [hplace]
    exact hreal₂.setAt (Place.content?_of_register? hp)
  · have hqr : q ≠ r := fun he => by
      rw [hq he, hout] at hreg
      cases hreg
    rw [hregs₂ q (by simp [hsp, hqr, hscratch]), hregs₁ q hsp]

theorem Hands.brings_slot (h : a.Hands e c claimed r a') (hlt : i < a'.places.size) {o : Nat}
    (hi : (a.place i).slot? = some o) (h8 : 8 ≤ o) (ho : o ≤ a.depth) (hp : p.register? = some r)
    (hc : Snippet.Computes g r r [r, scratchRegister] c')
    (hR : ∀ w, R ((a.place i).form w) (p.form (g w))) :
    a.Brings i R (c ++ (Emit.reloadCode r o a'.depth ++ c')) r
      (a'.move i p (Emit.reloadDepth o a'.depth)) := by
  have hout : (a.place i).register? = none := by
    cases hq : a.place i <;> rw [hq] at hi <;> first | rfl | cases hi
  have hfree : ∀ j, (a'.place j).register? ≠ some r :=
    (h.partitioned.claimed_of_contains (by simp)).notHeld
  refine h.brings hlt hout hp fun {env contents m₀ m} hroom hmax hreal₀ hreal hmem => ?_
  have hdepth := h.partitioned.depth_le
  have hdeeper := h.deeper
  obtain ⟨m₁, hx₁, hr₁, hmem₁, hreal₁, hregs₁⟩ := hreal.reload h8 (Nat.le_trans ho hdeeper)
    (by omega) h.usable.1 hfree fun hj => (h.partitioned.usable (h.partitioned.held hj).1).1
  obtain ⟨m₂, hx₂, hr₂, ha₂⟩ := hc env.area m₁
  refine ⟨m₂, by rw [exec_append_of_fall hx₁, hx₂], ?_, ?_, fun q hq => ?_⟩
  · rw [hreal₀.holds (Place.content?_of_slot? hi), hr₂, hr₁,
      Memory.read64_slot_congr hmem h8 ho (by omega)]
    exact hR _
  · refine hreal₁.agree ha₂ (by simp [h.usable.1.symm]; decide) fun j q hq => ?_
    have hqr : q ≠ r := fun he => hfree j (he ▸ hq)
    simp [hqr, (h.partitioned.usable (h.partitioned.held hq).1).2.2]
  · simp only [List.mem_cons, List.not_mem_nil, or_false, not_or] at hq
    rw [ha₂.reg q (by simp [hq]), hregs₁ q hq.1 hq.2.1]

theorem Hands.brings_constant (h : a.Hands e c claimed r a') (hlt : i < a'.places.size) {v : Value}
    (hi : a.place i = .constant v) {w : UInt64} (hp : p.register? = some r)
    (hR : R (.constant v) (p.form w)) :
    a.Brings i R (c ++ [.movImm r w]) r (a'.move i p a'.depth) := by
  have hfree := (h.partitioned.claimed_of_contains (r := r) (by simp)).notHeld
  refine h.brings hlt (by rw [hi]; rfl) hp fun {env contents m₀ m} _ _ hreal₀ hreal _ => ?_
  have hagree := (Machine.AgreeExcept.refl [r] m).setReg (List.mem_singleton_self r) w
  refine ⟨_, exec_movImm r w, ?_, hreal.agree hagree (by simp [h.usable.1.symm]) ?_, ?_⟩
  · rw [hreal₀.holds (by rw [hi]; rfl), Machine.reg_setReg, if_pos rfl]
    exact hR
  · intro j q hq hqr
    rw [List.mem_singleton] at hqr
    exact hfree j (hqr ▸ hq)
  · intro q hq
    simp only [List.mem_cons, not_or] at hq
    exact hagree.reg q (by simp [hq.2.1])

theorem Hands.brings_new (h : a.Hands e c claimed r a') (hlt : i < a'.places.size)
    (hi : a.place i = .uninitialized) (hp : p.register? = some r) :
    a.Brings i (fun _ _ => True) c r (a'.move i p a'.depth) := by
  have hnew : a.Brings i (fun _ _ => True) (c ++ []) r (a'.move i p a'.depth) :=
    h.brings hlt (by rw [hi]; rfl) hp fun {env contents m₀ m} _ _ _ hreal _ =>
      ⟨m, rfl, trivial, hreal, fun _ _ => rfl⟩
  rwa [List.append_nil] at hnew

end
end Allocator

/-! ## Using operands -/

namespace Gen

variable {s : Codegen} {e : Engine} {claimed : RegisterSet} {i : Nat} {r : Register}
  {R : Content → Content → Prop} {g : UInt64 → UInt64}

theorem place_error (hi : ¬ i < s.alloc.places.size) :
    Gen.place i s = .error (.noOperand i) s := by
  rw [Gen.place, bind_of_ok (show Gen.allocator s = .ok s.alloc s from rfl),
    Array.getElem?_eq_none (Nat.le_of_not_lt hi)]
  rfl

/-- The operand was brought to a register, and the registers are shared out behind that. -/
def Brought (e : Engine) (claimed : RegisterSet) (s : Codegen) (i : Nat)
    (R : Content → Content → Prop) (r : Register) (s' : Codegen) : Prop :=
  ∃ c a, s' = s.write c a ∧ s.alloc.Keeps e c claimed a ∧ s.alloc.Brings i R c r a

theorem convert_keeps (h : s.alloc.Partitioned e claimed)
    (hi : (s.alloc.place i).register? = some r) {p : Place} (hp : p.register? = some r)
    (hslot : p.slot? = none) (hne : p ≠ s.alloc.place i) {c : Snippet.Code} (hc : Plain c)
    (hg : Snippet.Computes g r r [r, scratchRegister] c)
    (hR : ∀ w, R ((s.alloc.place i).form w) (p.form (g w))) :
    Brought e claimed s i R r (s.write c ((s.alloc.setPlace i p).reserve r)) := by
  have hsize := Allocator.lt_size_of_register? hi
  have hconvert := h.convert hsize (hp.trans hi.symm) hslot
  exact ⟨c, _, rfl, ⟨hconvert.of_eq rfl rfl rfl rfl rfl,
    ⟨rfl, rfl, rfl, rfl, Allocator.size_setPlace _ _, rfl, Nat.le_refl _⟩,
    Allocator.Climbs.of_plain hc h.depth_le rfl rfl⟩, h.brings_inPlace hi hp hne hg hR⟩

theorem reserve_keeps (h : s.alloc.Partitioned e claimed)
    (hi : (s.alloc.place i).register? = some r)
    (hR : ∀ w, R ((s.alloc.place i).form w) ((s.alloc.place i).form w)) :
    Brought e claimed s i R r { s with alloc := s.alloc.reserve r } :=
  ⟨[], _, (Codegen.write_nil _ _).symm, ⟨h.of_eq rfl rfl rfl rfl rfl,
    ⟨rfl, rfl, rfl, rfl, rfl, rfl, Nat.le_refl _⟩,
    Allocator.Climbs.of_plain plain_nil h.depth_le rfl rfl⟩, h.brings_refl hi hR⟩

theorem fromStack_keeps (h : s.alloc.Partitioned e claimed) {o : Nat}
    (hi : (s.alloc.place i).slot? = some o) {p : Register → Place}
    (hp : ∀ r, (p r).register? = some r) (hslot : ∀ r, (p r).slot? = none)
    {step : Register → Gen Unit} {P : Prop}
    (hstep : ∀ r, r ≠ .rsp ∧ r ≠ scratchRegister → Writes P (step r) g r)
    (hR : P → ∀ r w, R ((s.alloc.place i).form w) ((p r).form (g w))) :
    Ensures (Refused e claimed)
      (do let r ← allocate
          reload r o
          step r
          setPlace i (p r)
          return r) s (Brought e claimed s i R) := by
  have hout : (s.alloc.place i).register? = none := by
    cases hq : s.alloc.place i <;> rw [hq] at hi <;> first | rfl | cases hi
  have hsize : i < s.alloc.places.size := Allocator.lt_size_of_place_ne fun he => by
    rw [he] at hi
    cases hi
  obtain ⟨hpos, hdvd, hdepth⟩ := h.slot hi
  refine Ensures.bind ((allocate_keeps h).mono (fun _ _ he => he) ?_)
  rintro r _ ⟨c, a, rfl, hhands⟩
  obtain ⟨hle, -⟩ := hhands.slot hi
  have hpart := hhands.partitioned
  have hlt : i < a.places.size := by
    rw [hhands.continues.size]
    exact hsize
  refine Ensures.bind_ok (reload_eq (s := s.write c a) (by omega) hle) (Ensures.bind
    ((hstep r hhands.usable _).mono (fun _ _ he => refused_of_ne he) ?_))
  rintro _ _ ⟨hP, c', rfl, hc', hg⟩
  refine Ensures.bind_ok (setPlace_eq hlt _) (Ensures.pure ?_)
  have hfill := hhands.fill_from_slot hi hlt hout (hp r) (hslot r)
  have hreload := hpart.climbs_reload hhands.usable.1 hpos hdvd hle
  refine ⟨_, _, by rw [Codegen.write_write, Codegen.write_write]; rfl,
    hhands.toKeeps.trans ⟨hfill, Allocator.continues_move, hreload.trans
      (Allocator.Climbs.of_plain hc' ?_ rfl rfl)⟩,
    hhands.brings_slot hlt hi (by omega) hdepth (hp r) hg (hR hP r)⟩
  exact Nat.le_trans (Emit.reloadDepth_le _ _) hpart.depth_le

theorem fill_keeps {c c' : Snippet.Code} {a : Allocator} (hhands : s.alloc.Hands e c claimed r a)
    (hsize : i < s.alloc.places.size) (hout : (s.alloc.place i).register? = none) {p : Place}
    (hp : p.register? = some r) (hslot : p.slot? = none) (hc' : Plain c') :
    s.alloc.Keeps e (c ++ c') claimed (a.move i p a.depth) := by
  have hpart := hhands.partitioned
  have hlt : i < a.places.size := by
    rw [hhands.continues.size]
    exact hsize
  have hfill := hpart.fill hlt (hhands.out hout) hp hslot (by simp) hpart.aligned (Nat.le_refl _)
    fun j o _ ho => (hpart.slot ho).2.2
  rw [RegisterSet.erase_insert hhands.fresh] at hfill
  exact hhands.toKeeps.trans ⟨hfill, Allocator.continues_move,
    Allocator.Climbs.of_plain hc' hpart.depth_le rfl rfl⟩

theorem fromConstant_keeps (h : s.alloc.Partitioned e claimed) {v : Value}
    (hi : s.alloc.place i = .constant v) (w : UInt64) {p : Register → Place}
    (hp : ∀ r, (p r).register? = some r) (hslot : ∀ r, (p r).slot? = none)
    (hR : ∀ r, R (.constant v) ((p r).form w)) :
    Ensures (Refused e claimed)
      (do let r ← allocate
          code [.movImm r w]
          setPlace i (p r)
          return r) s (Brought e claimed s i R) := by
  have hsize : i < s.alloc.places.size := Allocator.lt_size_of_place_ne fun he => by
    rw [he] at hi
    cases hi
  refine Ensures.bind ((allocate_keeps h).mono (fun _ _ he => he) ?_)
  rintro r _ ⟨c, a, rfl, hhands⟩
  have hlt : i < a.places.size := by
    rw [hhands.continues.size]
    exact hsize
  refine Ensures.bind_ok (t := s.write (c ++ [.movImm r w]) a)
    (by rw [← Codegen.write_write s c _ a]; rfl)
    (Ensures.bind_ok (setPlace_eq hlt _) (Ensures.pure ?_))
  refine ⟨_, _, rfl, fill_keeps hhands hsize (by rw [hi]; rfl) (hp r) (hslot r) ?_,
    hhands.brings_constant hlt hi (hp r) (hR r)⟩
  simp [Instr.isPlain, Instr.dest?, hhands.usable.1]

theorem useValue_keeps (h : s.alloc.Partitioned e claimed) (i : Nat) :
    Ensures (Refused e claimed) (useValue i) s (Brought e claimed s i Content.Boxes) := by
  by_cases hsize : i < s.alloc.places.size
  swap
  · exact Ensures.bind (Ensures.of_error (place_error hsize)
      (refused_of_ne fun k he => by cases he))
  refine Ensures.bind_ok (place_eq hsize) ?_
  cases hp : s.alloc.place i with
  | valueReg r =>
      exact Ensures.of_ok rfl (reserve_keeps h (i := i) (by rw [hp]; rfl) fun w => by
        rw [hp]
        exact Content.boxes_boxed w)
  | payloadReg r t =>
      have hi : (s.alloc.place i).register? = some r := by rw [hp]; rfl
      have hr := h.usable (h.held hi).1
      refine Ensures.bind ((Writes.tag ⟨hr.1, hr.2.2⟩ s).mono (fun _ _ he => refused_of_ne he) ?_)
      rintro _ _ ⟨ht, c, rfl, hc, hg⟩
      refine Ensures.bind_ok rfl (Ensures.bind_ok
        (setPlace_eq (s := s.write c (s.alloc.reserve r)) hsize _) (Ensures.pure ?_))
      exact convert_keeps h hi (p := .valueReg r) rfl rfl (by rw [hp]; intro he; cases he) hc hg
        fun w => by
          rw [hp]
          exact Content.boxes_payload ht w
  | valueStack o =>
      exact fromStack_keeps h (o := o) (by rw [hp]; rfl) (fun r => rfl) (fun r => rfl)
        (fun r _ => Writes.pure) fun _ r w => by
          rw [hp]
          exact Content.boxes_boxed w
  | payloadStack o t =>
      exact fromStack_keeps h (o := o) (by rw [hp]; rfl) (fun r => rfl) (fun r => rfl)
        (fun r hr => Writes.tag hr) fun ht r w => by
          rw [hp]
          exact Content.boxes_payload ht w
  | constant v =>
      exact fromConstant_keeps h hp _ (fun r => rfl) (fun r => rfl) fun r =>
        Content.boxes_constant v
  | uninitialized => exact Ensures.of_error rfl (refused_of_ne fun k he => by cases he)

theorem usePayload_keeps (h : s.alloc.Partitioned e claimed) (i : Nat) (t : ValueType) :
    Ensures (Refused e claimed) (usePayload i t) s
      (Brought e claimed s i (Content.Unboxes t)) := by
  by_cases hsize : i < s.alloc.places.size
  swap
  · exact Ensures.bind (Ensures.of_error (place_error hsize)
      (refused_of_ne fun k he => by cases he))
  refine Ensures.bind_ok (place_eq hsize) ?_
  cases hp : s.alloc.place i with
  | valueReg r =>
      have hi : (s.alloc.place i).register? = some r := by rw [hp]; rfl
      have hr := (h.usable (h.held hi).1).1
      refine Ensures.bind ((Writes.unbox hr s).mono (fun _ _ he => refused_of_ne he) ?_)
      rintro _ _ ⟨ht, c, rfl, hc, hg⟩
      refine Ensures.bind_ok rfl (Ensures.bind_ok
        (setPlace_eq (s := s.write c (s.alloc.reserve r)) hsize _) (Ensures.pure ?_))
      exact convert_keeps h hi (p := .payloadReg r t) rfl rfl (by rw [hp]; intro he; cases he) hc
        hg fun w => by
          rw [hp]
          exact Content.unboxes_boxed ht w
  | payloadReg r known =>
      have hi : (s.alloc.place i).register? = some r := by rw [hp]; rfl
      have hr := h.usable (h.held hi).1
      by_cases hkt : known = t
      · subst hkt
        refine Ensures.of_ok (a := r) (t := { s with alloc := s.alloc.reserve r }) ?_
          (reserve_keeps h hi fun w => ?_)
        · simp only [retype, ne_eq, not_true_eq_false, if_false]
          rfl
        · have hw := Content.unboxes_payload known known w
          rw [if_pos rfl] at hw
          rw [hp]
          exact hw
      · refine Ensures.bind ((Writes.retype ⟨hr.1, hr.2.2⟩ s).mono
          (fun _ _ he => refused_of_ne he) ?_)
        rintro _ _ ⟨-, c, rfl, hc, hg⟩
        rw [if_pos hkt]
        refine Ensures.bind_ok (setPlace_eq (s := s.write c s.alloc) hsize _) (Ensures.bind_ok rfl
          (Ensures.pure ?_))
        exact convert_keeps h hi (p := .payloadReg r t) rfl rfl
          (by rw [hp]; intro he; cases he; exact hkt rfl) hc hg fun w => by
            rw [hp]
            exact Content.unboxes_payload known t w
  | valueStack o =>
      exact fromStack_keeps h (o := o) (by rw [hp]; rfl) (fun r => rfl) (fun r => rfl)
        (fun r hr => Writes.unbox hr.1) fun ht r w => by
          rw [hp]
          exact Content.unboxes_boxed ht w
  | payloadStack o known =>
      exact fromStack_keeps h (o := o) (by rw [hp]; rfl) (fun r => rfl) (fun r => rfl)
        (fun r hr => Writes.retype hr) fun _ r w => by
          rw [hp]
          exact Content.unboxes_payload known t w
  | constant v =>
      exact fromConstant_keeps h hp _ (fun r => rfl) (fun r => rfl) fun r =>
        Content.unboxes_constant v t
  | uninitialized => exact Ensures.of_error rfl (refused_of_ne fun k he => by cases he)

/-! ## Defining operands -/

theorem defineAt_keeps (h : s.alloc.Partitioned e claimed) (i : Nat) {p : Register → Place}
    (hp : ∀ r, (p r).register? = some r) (hslot : ∀ r, (p r).slot? = none) :
    Ensures (Refused e claimed) (defineAt i p) s fun r s' =>
      s.alloc.place i = .uninitialized ∧ Brought e claimed s i (fun _ _ => True) r s' := by
  by_cases hsize : i < s.alloc.places.size
  swap
  · exact Ensures.bind (Ensures.of_error (place_error hsize)
      (refused_of_ne fun k he => by cases he))
  refine Ensures.bind_ok (place_eq hsize) ?_
  by_cases hi : s.alloc.place i = .uninitialized
  swap
  · rw [if_pos hi]
    exact Ensures.bind (Ensures.of_error rfl (refused_of_ne fun k he => by cases he))
  rw [if_neg (not_not.mpr hi)]
  refine Ensures.bind ((allocate_keeps h).mono (fun _ _ he => he) ?_)
  rintro r _ ⟨c, a, rfl, hhands⟩
  have hlt : i < a.places.size := by
    rw [hhands.continues.size]
    exact hsize
  refine Ensures.bind_ok (setPlace_eq (s := s.write c a) hlt _) (Ensures.pure ⟨hi, ?_⟩)
  have hkeeps := fill_keeps hhands hsize (by rw [hi]; rfl) (hp r) (hslot r) plain_nil
  rw [List.append_nil] at hkeeps
  exact ⟨c, _, rfl, hkeeps, hhands.brings_new hlt hi (hp r)⟩

theorem setConstant_keeps (h : s.alloc.Partitioned e claimed)
    (hi : s.alloc.place i = .uninitialized) (v : Value) :
    Ensures (Refused e claimed) (setPlace i (.constant v)) s fun _ s' =>
      ∃ a, s' = s.write [] a ∧ s.alloc.Keeps e [] claimed a := by
  by_cases hsize : i < s.alloc.places.size
  · refine Ensures.of_ok (setPlace_eq hsize _) ⟨_, (Codegen.write_nil _ _).symm,
      h.convert hsize (by rw [hi]; rfl) rfl,
      ⟨rfl, rfl, rfl, rfl, Allocator.size_setPlace _ _, rfl, Nat.le_refl _⟩,
      Allocator.Climbs.of_plain plain_nil h.depth_le rfl rfl⟩
  · have hfail : setPlace i (.constant v) s = .error (.noOperand i) s := by
      show (if i < s.alloc.places.size then _ else throw (.noOperand i) : Gen Unit) s = _
      rw [if_neg hsize]
      rfl
    exact Ensures.of_error hfail (refused_of_ne fun k he => by cases he)

end Gen

/-! ## Arrivals -/

namespace Allocator

/-- Some inputs have arrived, and the registers of the others are free. -/
structure Receives (e : Engine) (arrived : List Nat) (a : Allocator) : Prop where
  partitioned : a.Partitioned e .empty
  fresh : ∀ {i}, i ∉ arrived → a.place i = .uninitialized
  free : ∀ {i r}, i ∉ arrived → inputRegisters[i]? = some r → a.available.contains r = true

theorem receives_new (p : Program) (e : Engine) : (new p e).Receives e [] := by
  have hplace : ∀ i, (new p e).place i = .uninitialized := by
    intro i
    simp only [place, new, Array.getD_eq_getD_getElem?, Array.getElem?_replicate]
    split <;> rfl
  have hnone : ∀ {i r}, ((new p e).place i).register? ≠ some r := by
    intro i r hi
    rw [hplace] at hi
    cases hi
  have hslot : ∀ {i o}, ((new p e).place i).slot? ≠ some o := by
    intro i o hi
    rw [hplace] at hi
    cases hi
  refine ⟨⟨rfl, fun hr => ⟨hr, RegisterSet.contains_empty _⟩, fun hi => absurd hi hnone,
    fun hr => ?_, fun hr => .inl hr, fun hi => absurd hi hnone, fun hi => absurd hi hslot,
    fun hi => absurd hi hslot, Nat.dvd_zero 8, Nat.le_refl 0, Nat.two_pow_pos 32⟩,
    fun _ => hplace _, fun {i r} _ hr => ?_⟩
  · rw [RegisterSet.contains_empty] at hr
    cases hr
  · have hmem : r ∈ inputRegisters := List.mem_of_getElem? hr
    refine allocatable_of_mem e ?_
    revert hmem
    cases r <;> decide

theorem Receives.mono {e : Engine} {arrived arrived' : List Nat} {a : Allocator}
    (h : a.Receives e arrived) (hsub : arrived ⊆ arrived') : a.Receives e arrived' where
  partitioned := h.partitioned
  fresh hi := h.fresh fun hmem => hi (hsub hmem)
  free hi := h.free fun hmem => hi (hsub hmem)

/-- An input arrives in its own register, or is a constant. -/
theorem Receives.arrive {e : Engine} {arrived : List Nat} {a : Allocator} {i : Nat} {q : Place}
    (h : a.Receives e arrived) (hi : i ∉ arrived) (hsize : i < a.places.size)
    (hq : (∃ v, q = .constant v) ∨ ∃ r, inputRegisters[i]? = some r ∧ q = .valueReg r) :
    (a.arrive i q).Receives e (i :: arrived) := by
  have hfresh := h.fresh hi
  have hplace : (a.arrive i q).place = setAt a.place i q := place_setIfInBounds hsize q
  refine ⟨?_, fun {j} hj => ?_, fun {j s} hj hs => ?_⟩
  · obtain ⟨v, rfl⟩ | ⟨r, hr, rfl⟩ := hq
    · exact (h.partitioned.convert hsize (by rw [hfresh]; rfl) rfl).of_eq rfl rfl rfl rfl rfl
    · have htake := h.partitioned.take (h.free hi hr)
      have hfill := htake.fill hsize (show (a.place i).register? = none by rw [hfresh]; rfl)
        (p := .valueReg r) rfl rfl (by simp) htake.aligned (Nat.le_refl _)
        fun j o _ ho => (htake.slot ho).2.2
      rw [RegisterSet.erase_insert (RegisterSet.contains_empty r)] at hfill
      exact hfill.of_eq rfl rfl rfl rfl rfl
  · rw [List.mem_cons, not_or] at hj
    rw [hplace, setAt_of_ne _ _ hj.1]
    exact h.fresh hj.2
  · rw [List.mem_cons, not_or] at hj
    obtain ⟨v, rfl⟩ | ⟨r, hr, rfl⟩ := hq
    · exact h.free hj.2 hs
    · have hne : r ≠ s := fun he => by
        have hlt := (List.getElem?_eq_some_iff.mp hs).1
        exact hj.1 ((List.getElem?_inj hlt (by decide)).mp (hs.trans (he ▸ hr.symm)))
      simp [Allocator.arrive, Place.register?, h.free hj.2 hs, hne]

end Allocator

theorem Inputs.arrives_of_getD {inputs : Inputs} {i : Nat}
    (h : (∃ v, inputs.places.getD i .uninitialized = .constant v) ∨
      ∃ r, inputs.places.getD i .uninitialized = .valueReg r) :
    (∃ v, inputs.places.getD i .uninitialized = .constant v) ∨
      ∃ r, inputRegisters[i]? = some r ∧ inputs.places.getD i .uninitialized = .valueReg r := by
  rw [List.getD_eq_getElem?_getD] at h ⊢
  cases hq : inputs.places[i]? with
  | none =>
      rw [hq] at h
      obtain ⟨v, hv⟩ | ⟨r, hr⟩ := h
      · cases hv
      · cases hr
  | some q =>
      obtain ⟨v, -, rfl⟩ | ⟨r, -, hr, rfl⟩ := Inputs.places_eq hq
      · exact .inl ⟨v, rfl⟩
      · exact .inr ⟨r, hr, rfl⟩

theorem Gen.initInput_of_ok {s s' : Codegen} {i : Nat} {q : Place}
    (h : initInput i q s = .ok () s') :
    ((∃ v, q = .constant v) ∨ ∃ r, q = .valueReg r) ∧ i < s.alloc.origins.size ∧
      i < s.alloc.places.size ∧ s' = { s with alloc := s.alloc.arrive i q } := by
  have hq : (∃ v, q = .constant v) ∨ ∃ r, q = .valueReg r := by
    cases q with
    | constant v => exact .inl ⟨v, rfl⟩
    | valueReg r => exact .inr ⟨r, rfl⟩
    | _ => cases h
  have hsizes : i < s.alloc.origins.size ∧ i < s.alloc.places.size := by
    obtain ⟨v, rfl⟩ | ⟨r, rfl⟩ := hq
    all_goals
      change (if i < s.alloc.origins.size then _ else _ : Gen Unit) _ = _ at h
      split at h
      · next ho =>
          change (if i < s.alloc.places.size then _ else _ : Gen Unit) _ = _ at h
          split at h
          · next hi => exact ⟨ho, hi⟩
          · cases h
      · cases h
  rw [initInput_eq hq hsizes.1 hsizes.2] at h
  cases h
  exact ⟨hq, hsizes.1, hsizes.2, rfl⟩

end InlineCache
