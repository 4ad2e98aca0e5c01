import InlineCache.Proofs.Program.Regular

/-!
# Programs that repeat a guard

Some sizes are words of 32 bits, and only programs of hundreds of millions of instructions show it.
The programs here are that long and still simple: an instruction, a guard any number of times, and a
return of `undefined`. The guards of `Program.classGuards` test the class of an object. Those of
`Program.constantGuards` test a constant, so their outcome is known.
-/

namespace InlineCache

namespace Instruction

/-- An instruction, a guard `n` times, and a return of `undefined`. -/
def repeating (first guard : Instruction) (n : Nat) : List Instruction :=
  first :: (List.replicate n guard ++ [⟨.loadUndefinedResult, ()⟩, ⟨.returnFromIC, ()⟩])

variable {first guard : Instruction}

theorem length_flatMap_repeating (first guard : Instruction) (n : Nat) :
    ((repeating first guard n).flatMap bytes).length =
      first.bytes.length + n * guard.bytes.length + 2 := by
  rw [repeating, List.flatMap_cons, List.flatMap_append, List.length_append, List.length_append,
    List.length_flatMap, List.map_replicate, List.sum_replicate_nat, Nat.add_assoc]
  rfl

theorem encodable_repeating (hfirst : first.Encodable) (hguard : guard.Encodable) (n : Nat) :
    ∀ i ∈ repeating first guard n, i.Encodable := by
  intro i hi
  rcases List.mem_cons.mp hi with rfl | hi
  · exact hfirst
  · rcases List.mem_append.mp hi with hi | hi
    · rw [List.eq_of_mem_replicate hi]
      exact hguard
    · simp only [List.mem_cons, List.not_mem_nil, or_false] at hi
      rcases hi with rfl | rfl <;> trivial

theorem countP_isResult_repeating (hfirst : first.isResult = false)
    (hguard : guard.isResult = false) (n : Nat) :
    (repeating first guard n).countP isResult = 1 := by
  rw [repeating, List.countP_cons_of_neg (by rw [hfirst]; decide), List.countP_append,
    List.countP_replicate, if_neg (by rw [hguard]; decide), Nat.zero_add]
  rfl

theorem wellFormed_repeating (hfirst : first.isReturn = false ∧ first.isResult = false)
    (hguard : guard.isReturn = false ∧ guard.isResult = false) (n : Nat) :
    WellFormed (repeating first guard n) where
  return_ := by
    refine ⟨first :: (List.replicate n guard ++ [⟨.loadUndefinedResult, ()⟩]),
      ⟨.returnFromIC, ()⟩, ?_, rfl, fun i hi => ?_⟩
    · rw [repeating, List.cons_append, List.append_assoc]
      rfl
    · rcases List.mem_cons.mp hi with rfl | hi
      · exact hfirst.1
      · rcases List.mem_append.mp hi with hi | hi
        · rw [List.eq_of_mem_replicate hi]
          exact hguard.1
        · rw [List.mem_singleton.mp hi]
          rfl
  result := Nat.le_of_eq (countP_isResult_repeating hfirst.2 hguard.2 n)

/-- Guards that settle nothing can be repeated. -/
theorem WellTypedFrom.replicate {settled : List (OperandId × ValueType)} {is : List Instruction}
    (hguard : ∀ u ∈ typedUses guard.op guard.args, u ∈ settled)
    (hsettles : settledTypes guard.op guard.args = []) (h : WellTypedFrom settled is) (n : Nat) :
    WellTypedFrom settled (List.replicate n guard ++ is) := by
  induction n with
  | zero => exact h
  | succ n ih =>
      rw [List.replicate_succ, List.cons_append]
      refine ⟨hguard, ?_⟩
      rw [hsettles]
      exact ih

end Instruction

namespace Eval

variable {c : Context} {first guard : Instruction} {s : EvalState}

end Eval

/-! ## Building them -/

namespace Program

/-- The program so far, before its return. -/
def opening (first guard : Instruction) (n : Nat) (lastUsed : Array Nat) : Program where
  kind := .getProp
  code := ((first :: List.replicate n guard).flatMap Instruction.bytes).toArray
  lastUsed := lastUsed
  fields := #[]
  numInstructions := n + 1

/-- The whole program, with some fields that no instruction names. -/
def repeating (first guard : Instruction) (n : Nat) (lastUsed : Array Nat) (fields : Array Field) :
    Program where
  kind := .getProp
  code := ((Instruction.repeating first guard n).flatMap Instruction.bytes).toArray
  lastUsed := lastUsed
  fields := fields
  numInstructions := n + 3

theorem opening_succ (first guard : Instruction) (n : Nat) (lastUsed : Array Nat) :
    opening first guard (n + 1) lastUsed =
      { opening first guard n lastUsed with
        code := (opening first guard n lastUsed).code ++ guard.bytes.toArray
        numInstructions := n + 2 } := by
  have hcode : (opening first guard (n + 1) lastUsed).code =
      (opening first guard n lastUsed).code ++ guard.bytes.toArray := by
    refine Array.ext' ?_
    rw [opening, opening, List.replicate_succ', ← List.cons_append, List.flatMap_append,
      Array.toList_append, List.flatMap_singleton]
  rw [← hcode]
  rfl

theorem repeating_eq (first guard : Instruction) (n : Nat) (lastUsed : Array Nat) :
    repeating first guard n lastUsed #[] =
      { opening first guard n lastUsed with
        code := ((opening first guard n lastUsed).code.push Op.loadUndefinedResult.byte).push
          Op.returnFromIC.byte
        numInstructions := n + 3 } := by
  have hcode : (repeating first guard n lastUsed #[]).code =
      ((opening first guard n lastUsed).code.push Op.loadUndefinedResult.byte).push
        Op.returnFromIC.byte := by
    refine Array.ext' ?_
    rw [repeating, opening, Instruction.repeating, ← List.cons_append, List.flatMap_append,
      Array.toList_push, Array.toList_push, List.append_assoc]
    rfl
  rw [← hcode]
  rfl

section
variable {first guard : Instruction} {open_ again : BuildStep} {uses : Nat → Array Nat}

theorem build_replicate
    (hagain : ∀ n, again.run (opening first guard n (uses n)) =
      .ok () (opening first guard (n + 1) (uses (n + 1)))) (k n : Nat) :
    build (List.replicate n again) (opening first guard k (uses k)) =
      .ok () (opening first guard (k + n) (uses (k + n))) := by
  induction n generalizing k with
  | zero => rfl
  | succ n ih =>
      rw [List.replicate_succ, build, bind_of_ok (hagain k), ih (k + 1), Nat.add_right_comm,
        Nat.add_assoc]

/-- The steps that make the program. -/
def repeatingSteps (open_ again : BuildStep) (n : Nat) : List BuildStep :=
  open_ :: (List.replicate n again ++ [.emit .loadUndefinedResult [], .emit .returnFromIC []])

theorem isEmit_of_mem_repeatingSteps (hopen : open_.isEmit = true) (hagain : again.isEmit = true)
    (n : Nat) : ∀ s ∈ repeatingSteps open_ again n, s.isEmit = true := by
  intro s hs
  rcases List.mem_cons.mp hs with rfl | hs
  · exact hopen
  · rcases List.mem_append.mp hs with hs | hs
    · rw [List.eq_of_mem_replicate hs]
      exact hagain
    · simp only [List.mem_cons, List.not_mem_nil, or_false] at hs
      rcases hs with rfl | rfl <;> rfl

theorem build_repeatingSteps
    (hopen : open_.run (.empty .getProp) = .ok () (opening first guard 0 (uses 0)))
    (hagain : ∀ n, again.run (opening first guard n (uses n)) =
      .ok () (opening first guard (n + 1) (uses (n + 1)))) (n : Nat) :
    build (repeatingSteps open_ again n) (.empty .getProp) =
      .ok () (repeating first guard n (uses n) #[]) := by
  have hguards := build_replicate hagain 0 n
  rw [Nat.zero_add] at hguards
  have hclose : build [.emit .loadUndefinedResult [], .emit .returnFromIC []]
      (opening first guard n (uses n)) = .ok () (repeating first guard n (uses n) #[]) := by
    rw [repeating_eq]
    rfl
  rw [repeatingSteps, build, bind_of_ok hopen, build_append.mpr ⟨_, hguards, hclose⟩]

end

theorem Built.represents {p : Program} {is : List Instruction} (h : p.Built)
    (hcode : p.code.toList = is.flatMap Instruction.bytes) (his : ∀ i ∈ is, i.Encodable) :
    p.Represents is := by
  obtain ⟨is', hp⟩ := h.exists_represents
  have hdecode := hp.decode
  rw [hcode, Instruction.decode_flatMap his] at hdecode
  cases hdecode
  exact hp

/-! ## Guards for a class -/

/-- Tests `n` times that an object is an array. -/
def classGuards (n : Nat) : Program :=
  repeating ⟨.guardIsObject, ⟨0⟩, ()⟩ ⟨.guardClass, ⟨0⟩, .array, ()⟩ n #[n] #[]

theorem build_classGuards (n : Nat) :
    build (repeatingSteps (.emit .guardIsObject [.operand ⟨0⟩])
      (.emit .guardClass [.operand ⟨0⟩, .classKind .array]) n) (.empty .getProp) =
        .ok () (classGuards n) := by
  have hagain : ∀ n, (BuildStep.emit .guardClass [.operand ⟨0⟩, .classKind .array]).run
      (opening ⟨.guardIsObject, ⟨0⟩, ()⟩ ⟨.guardClass, ⟨0⟩, .array, ()⟩ n #[n]) =
        .ok () (opening ⟨.guardIsObject, ⟨0⟩, ()⟩ ⟨.guardClass, ⟨0⟩, .array, ()⟩ (n + 1)
          #[n + 1]) := by
    intro n
    rw [opening_succ]
    rfl
  exact build_repeatingSteps rfl hagain n

theorem represents_classGuards (n : Nat) : (classGuards n).Represents
    (Instruction.repeating ⟨.guardIsObject, ⟨0⟩, ()⟩ ⟨.guardClass, ⟨0⟩, .array, ()⟩ n) := by
  have hbuilt := Built.build (.empty .getProp) (build_classGuards n)
  refine hbuilt.represents List.toList_toArray (Instruction.encodable_repeating ?_ ?_ n)
  · exact ⟨(by decide : 0 < 256), trivial⟩
  · exact ⟨(by decide : 0 < 256), trivial, trivial⟩

theorem regular_classGuards (n : Nat) : (classGuards n).Regular where
  steps := ⟨_, isEmit_of_mem_repeatingSteps rfl rfl n, build_classGuards n⟩
  complete := by
    refine ⟨_, (represents_classGuards n).decode,
      Instruction.wellFormed_repeating ⟨rfl, rfl⟩ ⟨rfl, rfl⟩ n,
      ⟨by simp [Instruction.typedUses], ?_⟩,
      Instruction.countP_isResult_repeating rfl rfl n⟩
    refine Instruction.WellTypedFrom.replicate ?_ rfl ?_ n
    · simp [Instruction.typedUses, Instruction.settledTypes]
    · simp [Instruction.WellTypedFrom, Instruction.typedUses]

section
variable {c : Eval.Context} {v : Value}

end

/-! ## Guards for a constant -/

/-- Tests `n` times that nine is an integer. -/
def constantGuards (n : Nat) (fields : Array Field) : Program :=
  repeating ⟨.loadInt32Constant, ⟨1⟩, 9, ()⟩ ⟨.guardIsInt32, ⟨1⟩, ()⟩ n #[0, n] fields

theorem built_constantGuards (n : Nat) (fields : Array Field) :
    (constantGuards n fields).Built := by
  have hagain : ∀ n, (BuildStep.emit .guardIsInt32 [.operand ⟨1⟩]).run
      (opening ⟨.loadInt32Constant, ⟨1⟩, 9, ()⟩ ⟨.guardIsInt32, ⟨1⟩, ()⟩ n #[0, n]) =
        .ok () (opening ⟨.loadInt32Constant, ⟨1⟩, 9, ()⟩ ⟨.guardIsInt32, ⟨1⟩, ()⟩ (n + 1)
          #[0, n + 1]) := by
    intro n
    rw [opening_succ]
    rfl
  have hbuild := @build_repeatingSteps _ _ (.emit .loadInt32Constant [.int32 9]) _ _ rfl hagain n
  have hfields := (Built.build (.empty .getProp) hbuild).append_fields fields.toList
  rwa [repeating, Array.empty_append, Array.toArray_toList] at hfields

theorem size_code_constantGuards (n : Nat) (fields : Array Field) :
    (constantGuards n fields).code.size = 2 * n + 8 := by
  rw [constantGuards, repeating, List.size_toArray, Instruction.length_flatMap_repeating]
  change 6 + n * 2 + 2 = 2 * n + 8
  omega

end Program
end InlineCache
