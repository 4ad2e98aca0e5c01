import InlineCache.Proofs.Program.History

/-!
# Last uses

A program keeps one number for each operand, and appending an instruction overwrites it. For a
program that was built the number tells all there is to know about later uses: behind the
definition of an operand, it is dead at an instruction exactly if neither this instruction nor one
after it reads the operand (`Represents.isDead?_eq`).

One direction is part of what it means to be a list of instructions, since an instruction that reads
an operand notes its own number. For the other, a number in the table has one of three reasons: it
is the zero of an input, its instruction reads the operand, or its instruction defines it
(`Represents.reason`).
-/

namespace InlineCache

namespace Args

theorem size_note (n : Nat) {ks : List ArgKind} (as : Args ks) (table : Array Nat) :
    (note n ks as table).size = table.size + ks.count .define := by
  induction ks generalizing table with
  | nil => rfl
  | cons k ks ih =>
      rw [note, ih, List.count_cons]
      cases k with
      | use => simp [ArgKind.note]
      | define =>
          rw [ArgKind.note, Array.size_push, if_pos (beq_self_eq_true _)]
          omega
      | _ => rfl

theorem of_getElem?_note {n m x : Nat} {ks : List ArgKind} {as : Args ks} {table : Array Nat}
    (h : (note n ks as table)[x]? = some m) :
    table[x]? = some m ∨ m = n ∧ (⟨x⟩ ∈ collect ArgKind.used? ks as ∨ table.size ≤ x) := by
  induction ks generalizing table with
  | nil => exact .inl h
  | cons k ks ih =>
      obtain hold | ⟨hm, hnew⟩ := ih h
      · cases k with
        | use =>
            by_cases hx : x = as.1.index
            · have hlt := (Array.getElem?_eq_some_iff.mp hold).1
              subst hx
              rw [ArgKind.note, Array.size_setIfInBounds] at hlt
              rw [ArgKind.note, Array.getElem?_setIfInBounds_self_of_lt hlt] at hold
              exact .inr ⟨(Option.some.inj hold).symm, .inl (by simp [collect, ArgKind.used?])⟩
            · rw [ArgKind.note, Array.getElem?_setIfInBounds_ne (Ne.symm hx)] at hold
              exact .inl hold
        | define =>
            rw [ArgKind.note, Array.getElem?_push] at hold
            split at hold
            · next hx => exact .inr ⟨(Option.some.inj hold).symm, .inr (Nat.le_of_eq hx.symm)⟩
            · exact .inl hold
        | _ => exact .inl hold
      · refine .inr ⟨hm, hnew.imp (fun hmem => ?_) fun hsize => ?_⟩
        · exact List.mem_append_right _ hmem
        · refine Nat.le_trans ?_ hsize
          cases k <;> simp [ArgKind.note]

end Args

namespace Instruction

theorem numDefs_take_le (c : Nat) (is : List Instruction) : numDefs (is.take c) ≤ numDefs is := by
  have hsum := numDefs_append (is.take c) (is.drop c)
  rw [List.take_append_drop] at hsum
  omega

/-- A number in the table was there before, or its instruction reads the operand, or the operand is
new with its instruction. -/
theorem of_getElem?_noteAll {n m x : Nat} {is : List Instruction} {table : Array Nat}
    (h : (noteAll n is table)[x]? = some m) :
    table[x]? = some m ∨ ∃ before i after, is = before ++ i :: after ∧ m = n + before.length ∧
      (⟨x⟩ ∈ i.usedIds ∨ table.size + numDefs before ≤ x) := by
  induction is generalizing n table with
  | nil => exact .inl h
  | cons i is ih =>
      obtain hold | ⟨before, j, after, rfl, hm, hreason⟩ := ih h
      · obtain hold | ⟨hm, hreason⟩ := Args.of_getElem?_note hold
        · exact .inl hold
        · exact .inr ⟨[], i, is, rfl, hm, hreason⟩
      · refine .inr ⟨i :: before, j, after, rfl, ?_, hreason.imp_right fun hsize => ?_⟩
        · rw [hm, List.length_cons]
          omega
        · rw [Args.size_note] at hsize
          rw [numDefs_cons, Op.numDefs]
          omega

end Instruction

namespace Program.Represents

variable {p : Program} {is : List Instruction}

theorem reason (h : p.Represents is) {x m : Nat} (hm : p.lastUsed[x]? = some m) :
    x < p.numInputs ∧ m = 0 ∨ ∃ before i after, is = before ++ i :: after ∧ m = before.length ∧
      (⟨x⟩ ∈ i.usedIds ∨ p.numInputs + Instruction.numDefs before ≤ x) := by
  rw [h.lastUsed] at hm
  obtain hold | ⟨before, i, after, hsplit, hm, hreason⟩ := Instruction.of_getElem?_noteAll hm
  · obtain ⟨hlt, hzero⟩ := Array.getElem?_eq_some_iff.mp hold
    rw [Array.getElem_replicate] at hzero
    exact .inl ⟨by simpa using hlt, hzero.symm⟩
  · rw [Nat.zero_add] at hm
    rw [Array.size_replicate] at hreason
    exact .inr ⟨before, i, after, hsplit, hm, hreason⟩

/-- An operand that is read from instruction `c` on is not read last before. -/
theorem le_lastUsed (h : p.Represents is) {c : Nat} {x : OperandId}
    (hx : x ∈ (is.drop c).flatMap Instruction.usedIds) : c ≤ p.lastUsed.getD x.index 0 := by
  obtain ⟨i, hi, hread⟩ := List.mem_flatMap.mp hx
  obtain ⟨front, after, hsplit⟩ := List.append_of_mem hi
  have hlong : c < is.length := Nat.lt_of_not_le fun hle => by
    rw [List.drop_eq_nil_of_le hle] at hi
    cases hi
  have hcut : is = (is.take c ++ front) ++ i :: after := by
    rw [List.append_assoc, ← hsplit, List.take_append_drop]
  have hle : (is.take c ++ front).length ≤ p.lastUsed.getD x.index 0 := by
    refine (h.fits hcut).of_mem_collect (Q := fun x => _ ≤ p.lastUsed.getD x.index 0) ?_ hread
    intro k a b hfits hb
    cases k with
    | use =>
        cases hb
        exact hfits.2
    | _ => cases hb
  rw [List.length_append, List.length_take] at hle
  omega

theorem index_lt (h : p.Represents is) {before rest : List Instruction}
    (hsplit : is = before ++ rest) {x : OperandId}
    (hx : x.index < p.numInputs ∨ x ∈ before.flatMap Instruction.definedIds) :
    x.index < p.numInputs + Instruction.numDefs before := by
  rw [h.definedIds_before hsplit] at hx
  obtain hinput | hdefined := hx
  · omega
  · obtain ⟨n, hn, rfl⟩ := List.mem_map.mp hdefined
    exact (List.mem_range'_1.mp hn).2

/-- An operand is dead at an instruction behind its definition if no instruction reads it from there
on. -/
theorem isDead?_eq (h : p.Represents is) {x : OperandId} {c : Nat}
    (hx : x.index < p.numInputs ∧ 0 < c ∨ x ∈ (is.take c).flatMap Instruction.definedIds) :
    p.isDead? x c = some (decide (x ∉ (is.drop c).flatMap Instruction.usedIds)) := by
  have hcut : is = is.take c ++ is.drop c := (List.take_append_drop c is).symm
  have hknown := h.index_lt hcut (hx.imp_left And.left)
  have hc : 0 < c := hx.elim And.right fun hdefined => Nat.pos_of_ne_zero fun hzero => by
    rw [hzero] at hdefined
    cases hdefined
  have hsize : x.index < p.lastUsed.size := by
    have hoperands := h.operands
    have hdefs := Instruction.numDefs_take_le c is
    rw [numOperands] at hoperands
    omega
  obtain ⟨m, hm⟩ : ∃ m, p.lastUsed[x.index]? = some m := ⟨_, Array.getElem?_eq_getElem hsize⟩
  rw [isDead?, lastUsed?, hm, Option.map_some, Option.some.injEq, decide_eq_decide]
  constructor
  · intro hlt hused
    have hle := h.le_lastUsed hused
    rw [Array.getD_eq_getD_getElem?, hm, Option.getD_some] at hle
    omega
  · intro hunused
    refine Nat.lt_of_not_le fun hle => ?_
    obtain ⟨-, rfl⟩ | ⟨before, i, after, rfl, rfl, hread | hnew⟩ := h.reason hm
    · omega
    · refine hunused ?_
      rw [List.drop_append_of_le_length hle, List.flatMap_append, List.flatMap_cons]
      exact List.mem_append_right _ (List.mem_append_left _ hread)
    · rw [List.take_append_of_le_length hle] at hknown
      have hdefs := Instruction.numDefs_take_le c before
      omega

end Program.Represents
end InlineCache
