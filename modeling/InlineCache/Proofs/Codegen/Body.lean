import InlineCache.Proofs.Codegen.Bailouts
import InlineCache.Proofs.Codegen.Entry
import InlineCache.Proofs.Codegen.Instruction
import InlineCache.Proofs.Program.Built
import InlineCache.Proofs.Program.Shape

/-!
# The code of a program

The instructions of a program are read and compiled one after the other. `Body` says what the code
of the instructions that are left does: it returns if they succeed, jumps to a bailout if one of
them fails, and is wild if one of them is wild. The code of one instruction goes in front of such
code (`Body.cons`), and the code of the return is such code (`body_return`). A program whose shape
is wrong is refused where it goes wrong first, and the only other way to fail is a stack of more
than 4 GiB (`instructions_ensures`).
-/

namespace InlineCache

open X64

/-! ## The code of the instructions that are left -/

/-- A body of code ended as the virtual registers say. -/
def Ends (env : Env) (done : Bool) (bs : Array Bailout)
    (result : EStateM.Result Stop VirtualState Unit) (e : Exit) : Prop :=
  match result with
  | .ok () s => Finishes env done [] (.returned s.result) e
  | .error .failed s => ∃ b ∈ bs, ∃ m, e = .jump b.label m ∧ b.Running env s m
  | .error .wild _ => e = .wild

/-- The code `c` of the last `n` instructions of a program, which leads to the allocator `a` and
notes the bailouts `bs`, does what `v` does to the virtual registers and returns. -/
structure Body (v : Env → Virtual Unit) (n : Nat) (done done' : Bool) (s : Codegen)
    (c : Snippet.Code) (a : Allocator) (bs : Array Bailout) : Prop where
  origins : a.origins = s.alloc.origins
  deeper : s.alloc.maxDepth ≤ a.maxDepth
  shallow : a.maxDepth ≤ 32 * (s.alloc.instruction + n)
  length : c.length ≤ 32 * n
  targets : ∀ {i l}, i ∈ c → i.target? = some l → ∃ b ∈ bs, b.label = l
  grows : ∃ new : List Bailout, bs.toList = s.bailouts.toList ++ new ∧ new.length ≤ n ∧
    ∀ b ∈ new, b.Sound s.alloc.numInputs ∧ b.depth ≤ a.maxDepth ∧
      b.depth ≤ 32 * (s.alloc.instruction + n)
  label : ∀ {i : Nat} {b : Bailout}, bs[i]? = some b → b.label = i
  runs : ∀ {env σ m}, env.room < 2 ^ 31 → a.maxDepth ≤ env.room → Running env done s.alloc σ m →
    Ends env done' bs (v env σ) (exec env.area c m)

/-- A bailout that was made for a state of the allocator can be left through. -/
theorem Bailout.Shows.sound {b : Bailout} {a : Allocator} (hb : b.Shows a) {d : Nat}
    {taken : List Register} (h : a.Sound d taken) : b.Sound a.numInputs where
  length := by
    have hle := Nat.le_trans h.numInputs_le h.le_size
    rw [hb.inputs, Allocator.inputs, List.length_take, Array.length_toList]
    exact Nat.min_eq_left hle
  arranged := by
    rw [hb.depth]
    exact h.arranged.forget hb.place_eq_or
  placed i hi := by
    rw [hb.place, if_pos hi]
    refine h.placed (Nat.lt_of_lt_of_le hi h.numInputs_le) ?_
    rw [Allocator.isDead, decide_eq_false (by omega), Bool.false_and]

theorem Running.next {env : Env} {done : Bool} {a : Allocator} {σ : VirtualState} {m : Machine}
    (h : Running env done a σ m) : Running env done a.nextInstruction σ m :=
  ⟨h.realizes, h.stub, h.result⟩

section
variable {v v' : Env → Virtual Unit} {n : Nat} {done done' done'' : Bool} {s : Codegen}
  {c c' : Snippet.Code} {a a' : Allocator} {bs bs' : Array Bailout}

/-- Code of one instruction in front of the code of the instructions that follow. -/
theorem Body.cons (h : Translates v done done' s c a bs)
    (h' : Body v' n done' done'' ((s.write c a.nextInstruction).note bs) c' a' bs') :
    Body (fun env => v env >>= fun _ => v' env) (n + 1) done done'' s (c ++ c') a' bs' := by
  have hcont := h.continues
  obtain ⟨a₁, k, d, taken, hnotes, hinv, htaken, hcont₁⟩ := h.notes
  obtain ⟨new, hbs, hnew, hshows⟩ := hnotes.grows
  obtain ⟨new', hbs', hnew', hsound'⟩ := h'.grows
  have hk : k = s.alloc.instruction := by
    rw [← hinv.instruction, ← hcont₁.instruction, hcont.instruction]
  have hsub : ∀ b ∈ bs, b ∈ bs' := fun b hb => by
    rw [← Array.mem_toList_iff, hbs']
    exact List.mem_append_left _ (Array.mem_toList_iff.mpr hb)
  have hdeeper : a.maxDepth ≤ a'.maxDepth := h'.deeper
  constructor
  · exact h'.origins.trans hcont.origins
  · exact Nat.le_trans hcont.deeper hdeeper
  · have hshallow := h'.shallow
    have hinst : (a.nextInstruction).instruction = s.alloc.instruction + 1 :=
      congrArg (· + 1) hcont.instruction
    rw [Codegen.alloc_note, Codegen.alloc_write, hinst] at hshallow
    omega
  · have hlen := h.length
    have hlen' := h'.length
    rw [List.length_append]
    omega
  · intro i l hi hl
    obtain hi | hi := List.mem_append.mp hi
    · obtain ⟨b, hb, hlabel⟩ := h.targets hi hl
      exact ⟨b, hsub b hb, hlabel⟩
    · exact h'.targets hi hl
  · refine ⟨new ++ new', ?_, ?_, fun b hb => ?_⟩
    · rw [hbs', ← List.append_assoc, ← hbs]
      rfl
    · rw [List.length_append]
      omega
    · obtain hb | hb := List.mem_append.mp hb
      · have hsound := (hshows b hb).sound hinv.sound
        have hdepth := hinv.sound.depth_le
        have hshallow := hinv.shallow
        have hdeep := hcont₁.deeper
        rw [← hcont₁.numInputs, hcont.numInputs] at hsound
        refine ⟨hsound, ?_, ?_⟩ <;> rw [(hshows b hb).depth] <;> omega
      · obtain ⟨hsound, hdepth, hshallow⟩ := hsound' b hb
        have hinst : (a.nextInstruction).instruction = s.alloc.instruction + 1 :=
          congrArg (· + 1) hcont.instruction
        refine ⟨?_, hdepth, ?_⟩
        · rw [← hcont.numInputs]
          exact hsound
        · rw [Codegen.alloc_note, Codegen.alloc_write, hinst] at hshallow
          omega
  · exact h'.label
  · intro env σ m hroom hmax hrun
    have hsim := h.runs hroom (Nat.le_trans hdeeper hmax) hrun
    cases hv : v env σ with
    | ok u σ₁ =>
        rw [hv] at hsim
        obtain ⟨m₁, hx, hrun₁⟩ := hsim
        rw [exec_append_of_fall hx, bind_of_ok hv]
        exact h'.runs hroom hmax hrun₁.next
    | error why σ₁ =>
        rw [hv] at hsim
        rw [bind_of_error hv, exec_append]
        cases why with
        | failed =>
            obtain ⟨b, hb, m₁, hx, hrun₁⟩ := hsim
            rw [hx]
            exact ⟨b, hsub b hb, m₁, rfl, hrun₁⟩
        | wild =>
            rw [show exec env.area c m = .wild from hsim]
            rfl

theorem body_return (hlab : s.Labelled) (hdepth : s.alloc.depth ≤ s.alloc.maxDepth)
    (hshallow : s.alloc.maxDepth ≤ 32 * (s.alloc.instruction + 1)) :
    Body (fun _ => pure ()) 1 done done s (Snippet.discard s.alloc.depth ++ [.ret])
      s.alloc.discarded.nextInstruction s.bailouts where
  origins := rfl
  deeper := Nat.le_refl _
  shallow := hshallow
  length := by
    have := Snippet.length_discard s.alloc.depth
    rw [List.length_append, List.length_singleton]
    omega
  targets {i l} hi hl := by
    obtain hi | hi := List.mem_append.mp hi
    · rw [Snippet.straight_discard _ i hi] at hl
      cases hl
    · rw [List.mem_singleton.mp hi] at hl
      cases hl
  grows := ⟨[], (List.append_nil _).symm, Nat.zero_le _, fun _ hb => absurd hb List.not_mem_nil⟩
  label := hlab.label
  runs {env σ m} hroom hmax hrun := by
    have hmax' : s.alloc.maxDepth ≤ env.room := hmax
    exact Finishes.return_ hrun (by omega) []

end

/-! ## Reading instructions -/

namespace Compile

theorem gen_eq {α : Type} {g : Gen α} {s s' : Codegen} {a : α} (h : g s = .ok a s') :
    gen g s = .ok a s' := by
  rw [gen, h]

theorem gen_ensures {α : Type} {E : CompileError → Codegen → Prop} {g : Gen α} {s : Codegen}
    {Q : α → Codegen → Prop} (h : Ensures (fun e s' => E (.emit e) s') g s Q) :
    Ensures E (gen g) s Q := by
  unfold Ensures at h ⊢
  rw [gen]
  cases hg : g s with
  | ok a s' =>
      rw [hg] at h
      exact h
  | error e s' =>
      rw [hg] at h
      exact h

theorem read_eq {α : Type} {r : Read α} {c c' : Cursor} {a : α} (h : r c = .ok a c')
    (s : Codegen) : read r c s = .ok (a, c') s := by
  rw [read, EStateM.run, h]
  rfl

variable {p : Program} {field : Nat → Int32} {limit offset : Nat} {rest : List UInt8}
  {i : Instruction} {done : Bool} {s : Codegen}

theorem instructions_nil [ClassTable] (returned : Bool) :
    instructions p field limit ⟨offset, []⟩ returned done s = .ok returned s := by
  cases limit <;> rfl

theorem instructions_afterReturn [ClassTable] :
    instructions p field (limit + 1) ⟨offset, i.bytes ++ rest⟩ true done s =
      .error (.malformed ⟨offset, .afterReturn⟩) s :=
  rfl

theorem instructions_secondResult [ClassTable] (h : (i.isResult && done) = true) :
    instructions p field (limit + 1) ⟨offset, i.bytes ++ rest⟩ false done s =
      .error (.malformed ⟨offset, .secondResult⟩) s := by
  change (i.op.isResult && done) = true at h
  rw [instructions]
  refine (bind_of_ok (read_eq (Cursor.op_cons i.op) s)).trans ?_
  dsimp only
  rw [if_pos h]
  rfl

/-- After its opcode the arguments of an instruction are read. -/
theorem instructions_opcode [ClassTable] (hres : (i.isResult && done) = false) :
    instructions p field (limit + 1) ⟨offset, i.bytes ++ rest⟩ false done s =
      (read (Args.read (checkArg p s.alloc) i.op.schema)
          ⟨offset + 1, Args.bytes i.op.schema i.args ++ rest⟩ >>= fun r => do
        gen (Gen.instruction field i.op r.1)
        gen (Gen.modifyAllocator Allocator.nextInstruction)
        instructions p field limit r.2 i.isReturn (done || i.isResult) : Compile Bool) s := by
  change (i.op.isResult && done) = false at hres
  rw [instructions]
  refine (bind_of_ok (read_eq (Cursor.op_cons i.op) s)).trans ?_
  dsimp only
  rw [if_neg (by rw [hres]; decide)]
  rfl

theorem instructions_cons [ClassTable] (hi : i.Encodable)
    (hcheck : Args.All (fun k a => ∀ o, checkArg p s.alloc k o a = .ok ()) i.op.schema i.args)
    (hres : (i.isResult && done) = false) :
    instructions p field (limit + 1) ⟨offset, i.bytes ++ rest⟩ false done s =
      (do
        gen (Gen.instruction field i.op i.args)
        gen (Gen.modifyAllocator Allocator.nextInstruction)
        instructions p field limit ⟨offset + i.bytes.length, rest⟩ i.isReturn
          (done || i.isResult) : Compile Bool) s := by
  rw [instructions_opcode hres,
    bind_of_ok (read_eq (Args.read_bytes hi hcheck (offset + 1) rest) s), Instruction.bytes,
    List.length_cons, Nat.add_assoc, Nat.add_comm 1]

end Compile

/-! ## The whole loop -/

/-- The first instructions of a program have been compiled. -/
structure Progress (p : Program) (before : List Instruction) (done : Bool) (s : Codegen) :
    Prop where
  inv : s.alloc.Inv before.length (p.numInputs + Instruction.numDefs before)
    (initiallyTaken done) done
  labelled : s.Labelled
  lastUsed : s.alloc.lastUsed = p.lastUsed
  numInputs : s.alloc.numInputs = p.numInputs
  size : s.alloc.places.size = p.numOperands

namespace Progress

variable {p : Program} {before after : List Instruction} {i : Instruction} {done : Bool}
  {s : Codegen}

theorem numDefs_le (hp : p.Represents (before ++ i :: after)) :
    p.numInputs + Instruction.numDefs before + i.op.schema.count .define ≤ p.numOperands := by
  have h := hp.operands
  rw [Instruction.numDefs_append, Instruction.numDefs_cons, Op.numDefs] at h
  omega

theorem usable (hp : p.Represents (before ++ i :: after)) (h : Progress p before done s) :
    Args.All (s.alloc.Usable (p.numInputs + Instruction.numDefs before)) i.op.schema i.args := by
  have hdefs := numDefs_le hp
  refine (hp.fits rfl).mono_of_mem fun kind hkind a ha => ?_
  cases kind with
  | use =>
      refine ⟨ha.1, ?_⟩
      have hread : ¬ p.lastUsed.getD a.index 0 < before.length := Nat.not_lt.mpr ha.2
      rw [Allocator.isDead, h.lastUsed, h.inv.instruction, decide_eq_false hread, Bool.and_false]
  | define =>
      have hpos := List.count_pos_iff.mpr hkind
      rw [Allocator.Usable, h.size]
      exact ⟨ha, by omega⟩
  | _ => trivial

theorem checked (hp : p.Represents (before ++ i :: after)) (h : Progress p before done s) :
    Args.All (fun k a => ∀ o, Compile.checkArg p s.alloc k o a = .ok ()) i.op.schema i.args := by
  have hdefs := numDefs_le hp
  refine (hp.fits rfl).mono_of_mem fun kind hkind a ha o => ?_
  cases kind with
  | use =>
      have hlt := ha.1
      rw [Compile.checkArg, if_pos (by omega)]
  | define =>
      have hpos := List.count_pos_iff.mpr hkind
      have hd : a.index = p.numInputs + Instruction.numDefs before := ha
      have hfresh : s.alloc.places.getD a.index .uninitialized = .uninitialized :=
        h.inv.sound.fresh (Nat.le_of_eq hd.symm)
      rw [Compile.checkArg, if_neg (by omega), if_neg (by rw [hfresh]; simp; omega)]
  | field t =>
      obtain ⟨f, hf, ht⟩ := ha
      rw [Compile.checkArg]
      simp only [hf, ht, if_pos]
  | _ => rfl

theorem step (h : Progress p before done s) {v : Env → Virtual Unit} {done' : Bool}
    {c : Snippet.Code} {a : Allocator} {bs : Array Bailout}
    (ht : Translates v done done' s c a bs)
    (hinv : a.nextInstruction.Inv (before.length + 1)
      (p.numInputs + Instruction.numDefs before + i.op.numDefs) (initiallyTaken done') done') :
    Progress p (before ++ [i]) done' ((s.write c a.nextInstruction).note bs) where
  inv := by
    have hdefs : p.numInputs + Instruction.numDefs (before ++ [i]) =
        p.numInputs + Instruction.numDefs before + i.op.numDefs := by
      rw [Instruction.numDefs_append, Instruction.numDefs_cons, Nat.add_assoc]
      rfl
    rw [List.length_append, List.length_singleton, hdefs]
    exact hinv
  labelled := by
    obtain ⟨a₁, k, d, taken, hnotes, -⟩ := ht.notes
    exact ⟨rfl, hnotes.label⟩
  lastUsed := ht.continues.lastUsed.trans h.lastUsed
  numInputs := ht.continues.numInputs.trans h.numInputs
  size := ht.continues.size.trans h.size

theorem ensures [ClassTable] (hp : p.Represents (before ++ i :: after))
    (h : Progress p before done s) (hres : (i.isResult && done) = false)
    (hret : ¬ i.isReturn = true) (field : Nat → Int32) :
    Ensures (Overflow before.length) (Gen.instruction field i.op i.args) s fun _ s' =>
      ∃ c a bs, s' = (s.write c a).note bs ∧
        Translates (fun env => Virtual.instruction env field i.op i.args) done
          (done || i.isResult) s c a bs ∧
        Progress p (before ++ [i]) (done || i.isResult)
          ((s.write c a.nextInstruction).note bs) := by
  refine Ensures.mono (Gen.instruction_ensures h.inv h.labelled field i.op i.args (h.usable hp) hres
    fun heq => hret (by simp [Instruction.isReturn, heq])) (fun _ _ herr => herr) ?_
  rintro _ _ ⟨c, a, bs, rfl, ht, hinv⟩
  exact ⟨c, a, bs, rfl, ht, h.step ht hinv⟩

end Progress

namespace Compile

/-- Instructions are refused for a fault of their shape, or because the stack would need more than
4 GiB after so many instructions. -/
def Refuses (n : Nat) (fault : Option Malformed) (e : CompileError) (_ : Codegen) : Prop :=
  (∃ f, e = .malformed f ∧ fault = some f) ∨ e = .emit .stackDepth ∧ 2 ^ 32 ≤ 32 * n

/-- What compiling the instructions that are left comes to: their code, or the finding that there
is no return at their end. -/
def Accepts [ClassTable] (field : Nat → Int32) (offset : Nat) (done : Bool) (is : List Instruction)
    (s : Codegen) : (returned : Bool) → Codegen → Prop
  | true, s' => Instruction.fault? offset false done is = none ∧ ∃ c a bs,
      s' = (s.write c a).note bs ∧ Body (fun env => Virtual.instructions env field is) is.length
        done (done || is.any Instruction.isResult) s c a bs
  | false, _ => Instruction.fault? offset false done is =
      some ⟨offset + (is.flatMap Instruction.bytes).length, .noReturn⟩

variable {p : Program} {field : Nat → Int32} {before is : List Instruction} {done : Bool}
  {s : Codegen} {limit : Nat}

theorem return_ensures [ClassTable] {i : Instruction} (hp : p.Represents (before ++ i :: is))
    (h : Progress p before done s) (hret : i.isReturn = true) (hlimit : is.length ≤ limit)
    (offset : Nat) :
    Ensures (Refuses (before.length + (is.length + 1)) (Instruction.fault? offset false done (i :: is)))
      (instructions p field (limit + 1) ⟨offset, (i :: is).flatMap Instruction.bytes⟩ false done) s
      (Accepts field offset done (i :: is) s) := by
  have hchecked := h.checked hp
  have hencodable := hp.encodable i (by simp)
  obtain ⟨op, args⟩ := i
  obtain rfl : op = .returnFromIC := by simpa [Instruction.isReturn] using hret
  have hfault : Instruction.fault? offset false done (⟨.returnFromIC, args⟩ :: is) =
      Instruction.fault? (offset + (Instruction.bytes ⟨.returnFromIC, args⟩).length) true
        (done || false) is := rfl
  have hreturn : gen (Gen.instruction field .returnFromIC args) s =
      .ok () (s.write (Snippet.discard s.alloc.depth ++ [.ret]) s.alloc.discarded) := by
    rw [gen, show Gen.instruction field .returnFromIC args = Gen.return_ from rfl, Gen.return_eq]
  rw [List.flatMap_cons]
  refine Ensures.congr (instructions_cons hencodable hchecked rfl)
    (Ensures.bind_ok hreturn (Ensures.bind_ok rfl ?_))
  cases is with
  | nil =>
      refine Ensures.of_ok (instructions_nil true) ⟨hfault, Snippet.discard s.alloc.depth ++ [.ret],
        s.alloc.discarded.nextInstruction, s.bailouts, ?_, ?_⟩
      · exact (Codegen.note_bailouts (h.labelled.write _ _)).symm
      · rw [show (done || [(⟨.returnFromIC, args⟩ : Instruction)].any Instruction.isResult) = done
          from Bool.or_false done]
        refine body_return h.labelled h.inv.sound.depth_le ?_
        have hshallow := h.inv.shallow
        have htaken := length_initiallyTaken done
        rw [h.inv.instruction]
        omega
  | cons j is =>
      obtain _ | limit := limit
      · simp at hlimit
      · exact Ensures.of_error instructions_afterReturn (.inl ⟨_, rfl, hfault⟩)

theorem instructions_ensures [ClassTable] (hp : p.Represents (before ++ is))
    (h : Progress p before done s) (hlimit : is.length ≤ limit) (offset : Nat) :
    Ensures (Refuses (before.length + is.length) (Instruction.fault? offset false done is))
      (instructions p field limit ⟨offset, is.flatMap Instruction.bytes⟩ false done) s
      (Accepts field offset done is s) := by
  induction is generalizing before done s limit offset with
  | nil => exact Ensures.of_ok (instructions_nil false) rfl
  | cons i is ih =>
      obtain _ | limit := limit
      · simp at hlimit
      have hlimit' : is.length ≤ limit := by simpa using hlimit
      by_cases hret : i.isReturn = true
      · exact return_ensures hp h hret hlimit' offset
      cases hres : i.isResult && done with
      | true =>
          refine Ensures.of_error (instructions_secondResult hres) (.inl ⟨_, rfl, ?_⟩)
          rw [Instruction.fault?, if_neg Bool.false_ne_true, if_pos hres]
      | false =>
          have hfault : Instruction.fault? offset false done (i :: is) =
              Instruction.fault? (offset + i.bytes.length) false (done || i.isResult) is := by
            rw [Instruction.fault?, if_neg Bool.false_ne_true, hres, if_neg Bool.false_ne_true,
              Bool.not_eq_true _ |>.mp hret]
          rw [List.flatMap_cons]
          refine Ensures.congr (instructions_cons (hp.encodable i (by simp)) (h.checked hp) hres)
            (Ensures.bind (gen_ensures ((h.ensures hp hres hret field).mono ?_ ?_)))
          · rintro e _ ⟨rfl, hdeep⟩
            rw [List.length_cons]
            exact .inr ⟨rfl, by omega⟩
          rintro _ _ ⟨c, a, bs, rfl, ht, hstep⟩
          refine Ensures.bind_ok rfl ?_
          rw [List.append_cons] at hp
          rw [Bool.not_eq_true _ |>.mp hret]
          refine (ih hp hstep hlimit' (offset + i.bytes.length)).mono ?_ ?_
          · rintro e _ (⟨f, rfl, hf⟩ | ⟨rfl, hdeep⟩)
            · exact .inl ⟨f, rfl, hfault.trans hf⟩
            · rw [List.length_append, List.length_singleton] at hdeep
              rw [List.length_cons]
              exact .inr ⟨rfl, by omega⟩
          · rintro returned s' haccepts
            cases returned with
            | false =>
                refine hfault.trans (haccepts.trans ?_)
                rw [List.flatMap_cons, List.length_append, Nat.add_assoc]
            | true =>
                obtain ⟨hnone, c', a', bs', rfl, hbody⟩ := haccepts
                refine ⟨hfault.trans hnone, c ++ c', a', bs', ?_, ?_⟩
                · rw [Codegen.write_note, Codegen.write_write]
                  rfl
                · rw [List.any_cons, ← Bool.or_assoc]
                  exact Body.cons ht hbody

end Compile

end InlineCache
