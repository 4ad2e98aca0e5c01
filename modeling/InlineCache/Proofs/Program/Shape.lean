import InlineCache.Proofs.Program.Encoding

/-!
# The shape of programs

A program ends with a return, has no other return and at most one result (`WellFormed`). What is
wrong with a program that has another shape shows at one of its instructions, or at its end
(`Violation`), and a reader who goes from front to back stops where it shows first. `fault?` is
that reader. It finds nothing exactly in programs that are well formed, and otherwise the first
violation.
-/

namespace InlineCache.Instruction

def isReturn (i : Instruction) : Bool :=
  i.op == .returnFromIC

def isResult (i : Instruction) : Bool :=
  i.op.isResult

/-- One return, at the end, and at most one result. -/
structure WellFormed (is : List Instruction) : Prop where
  return_ : ∃ body last, is = body ++ [last] ∧ last.isReturn = true ∧
    ∀ i ∈ body, i.isReturn = false
  result : is.countP isResult ≤ 1

/-- What is wrong at the start of the instructions `rest`, which come after `before`. -/
inductive Violation (before : List Instruction) : (rest : List Instruction) → Malformation → Prop
  where
  | afterReturn {i : Instruction} {after : List Instruction} :
      (∃ j ∈ before, j.isReturn = true) → Violation before (i :: after) .afterReturn
  | secondResult {i : Instruction} {after : List Instruction} :
      i.isResult = true → (∃ j ∈ before, j.isResult = true) →
      Violation before (i :: after) .secondResult
  | noReturn : (∀ j, before.getLast? = some j → j.isReturn = false) →
      Violation before [] .noReturn

/-- What is wrong first, with the number of bytes in front of it. An instruction behind a return
is wrong for that reason, whatever it is. -/
def FirstViolation (is : List Instruction) (f : Malformed) : Prop :=
  ∃ before rest, is = before ++ rest ∧ f.offset = (before.flatMap bytes).length ∧
    Violation before rest f.what ∧
    (f.what ≠ .afterReturn → ¬ Violation before rest .afterReturn) ∧
    ∀ before' rest' what, is = before' ++ rest' → before'.length < before.length →
      ¬ Violation before' rest' what

/-- The first fault of instructions that start at an offset. `returned` says whether a return came
before them, `hasResult` whether a result did. -/
def fault? (offset : Nat) (returned hasResult : Bool) : List Instruction → Option Malformed
  | [] => if returned then none else some ⟨offset, .noReturn⟩
  | i :: is =>
    if returned then some ⟨offset, .afterReturn⟩
    else if i.isResult && hasResult then some ⟨offset, .secondResult⟩
    else fault? (offset + i.bytes.length) i.isReturn (hasResult || i.isResult) is

theorem WellFormed.not_violation {before rest : List Instruction} (h : WellFormed (before ++ rest))
    {what : Malformation} : ¬ Violation before rest what := by
  obtain ⟨⟨body, last, hsplit, hlast, hbody⟩, hresult⟩ := h
  intro hv
  cases hv with
  | @afterReturn i after hj =>
      obtain ⟨j, hj, hret⟩ := hj
      -- There is something behind `before`, so `before` is part of the body.
      obtain ⟨front, hfront⟩ : ∃ front, before ++ front = body := by
        obtain ⟨front, x, hx⟩ := (List.eq_nil_or_concat (i :: after)).resolve_left (by simp)
        refine ⟨front, ?_⟩
        rw [hx, List.concat_eq_append, ← List.append_assoc] at hsplit
        exact (List.append_inj' hsplit rfl).1
      have := hbody j (hfront ▸ List.mem_append_left _ hj)
      rw [hret] at this
      cases this
  | @secondResult i after hi hj =>
      have hpos : 0 < before.countP isResult := List.countP_pos_iff.mpr hj
      rw [List.countP_append, List.countP_cons_of_pos hi] at hresult
      omega
  | noReturn hno =>
      rw [List.append_nil] at hsplit
      have := hno last (by rw [hsplit, List.getLast?_concat])
      rw [hlast] at this
      cases this

/-- What the reader knows about the instructions that it has read. -/
structure Passed (before : List Instruction) (returned hasResult : Bool) : Prop where
  returned_iff : returned = true ↔ ∃ j ∈ before, j.isReturn = true
  hasResult_iff : hasResult = true ↔ ∃ j ∈ before, j.isResult = true
  results : before.countP isResult ≤ 1
  clean : ∀ before' rest what, before = before' ++ rest → before' ≠ before → ∀ after,
    ¬ Violation before' (rest ++ after) what

theorem passed_nil : Passed [] false false where
  returned_iff := by simp
  hasResult_iff := by simp
  results := by simp
  clean before' rest _ h hne := absurd (List.append_eq_nil_iff.mp h.symm).1 hne

section
variable {before rest : List Instruction} {returned hasResult : Bool}

theorem Passed.step (h : Passed before false hasResult) {i : Instruction}
    (hi : (i.isResult && hasResult) = false) :
    Passed (before ++ [i]) i.isReturn (hasResult || i.isResult) where
  returned_iff := by
    have hno : ¬ ∃ j ∈ before, j.isReturn = true := fun hj => nomatch h.returned_iff.mpr hj
    simp only [List.mem_append, List.mem_singleton]
    refine ⟨fun hret => ⟨i, .inr rfl, hret⟩, ?_⟩
    rintro ⟨j, hj | rfl, hret⟩
    · exact absurd ⟨j, hj, hret⟩ hno
    · exact hret
  hasResult_iff := by
    rw [Bool.or_eq_true, h.hasResult_iff]
    simp only [List.mem_append, List.mem_singleton]
    constructor
    · rintro (⟨j, hj, hres⟩ | hres)
      · exact ⟨j, .inl hj, hres⟩
      · exact ⟨i, .inr rfl, hres⟩
    · rintro ⟨j, hj | rfl, hres⟩
      · exact .inl ⟨j, hj, hres⟩
      · exact .inr hres
  results := by
    rw [List.countP_append, List.countP_singleton]
    cases hres : i.isResult with
    | false => simpa using h.results
    | true =>
        -- A result comes after no other.
        rw [hres, Bool.true_and] at hi
        have hzero : before.countP isResult = 0 := by
          rw [List.countP_eq_zero]
          intro j hj hjr
          rw [hi] at h
          exact nomatch h.hasResult_iff.mpr ⟨j, hj, hjr⟩
        simp [hzero]
  clean before' rest what hsplit hne after hv := by
    obtain rfl | ⟨front, x, rfl⟩ := List.eq_nil_or_concat rest
    · exact hne (by rw [hsplit, List.append_nil])
    · rw [List.concat_eq_append] at hsplit hv
      rw [← List.append_assoc] at hsplit
      obtain ⟨hbefore, hx⟩ := List.append_inj' hsplit rfl
      cases hx
      by_cases heq : before' = before
      · obtain rfl : front = [] := by simpa [heq] using hbefore
        rw [heq] at hv
        cases hv with
        | afterReturn hj => exact nomatch h.returned_iff.mpr hj
        | secondResult hres hj =>
            rw [hres, h.hasResult_iff.mpr hj] at hi
            cases hi
      · rw [List.append_assoc] at hv
        exact h.clean before' front what hbefore heq _ hv

/-- What is wrong here is wrong first. -/
theorem Passed.firstViolation (h : Passed before returned hasResult) {what : Malformation}
    (hv : Violation before rest what)
    (hfirst : what ≠ .afterReturn → ¬ Violation before rest .afterReturn) :
    FirstViolation (before ++ rest) ⟨(before.flatMap bytes).length, what⟩ := by
  refine ⟨before, rest, rfl, rfl, hv, hfirst, fun before' rest' what' hsplit hlt hv' => ?_⟩
  obtain ⟨mid, rfl⟩ : before' <+: before := List.prefix_of_prefix_length_le
    (hsplit ▸ List.prefix_append before' rest') (List.prefix_append before rest)
    (Nat.le_of_lt hlt)
  rw [List.append_assoc] at hsplit
  have hrest := List.append_cancel_left hsplit
  refine h.clean before' mid what' rfl (fun heq => ?_) rest (hrest ▸ hv')
  rw [← heq] at hlt
  exact Nat.lt_irrefl _ hlt

theorem Passed.wellFormed (h : Passed before true hasResult) : WellFormed before := by
  refine ⟨?_, h.results⟩
  obtain rfl | ⟨body, last, rfl⟩ := List.eq_nil_or_concat before
  · obtain ⟨j, hj, -⟩ := h.returned_iff.mp rfl
    cases hj
  · rw [List.concat_eq_append] at h ⊢
    have hbody : ∀ i ∈ body, i.isReturn = false := fun i hi => by
      rw [← Bool.not_eq_true]
      intro hret
      exact h.clean body [last] .afterReturn rfl (by simp) [] (.afterReturn ⟨i, hi, hret⟩)
    refine ⟨body, last, rfl, ?_, hbody⟩
    obtain ⟨j, hj, hret⟩ := h.returned_iff.mp rfl
    obtain hj | hj := List.mem_append.mp hj
    · rw [hbody j hj] at hret
      cases hret
    · rw [← List.mem_singleton.mp hj]
      exact hret

/-- The reader finds the first violation, if there is one. -/
theorem Passed.fault? (h : Passed before returned hasResult) :
    (fault? (before.flatMap bytes).length returned hasResult rest = none →
      WellFormed (before ++ rest)) ∧
    ∀ f, Instruction.fault? (before.flatMap bytes).length returned hasResult rest = some f →
      FirstViolation (before ++ rest) f := by
  induction rest generalizing before returned hasResult with
  | nil =>
      rw [Instruction.fault?, List.append_nil]
      cases returned with
      | true => exact ⟨fun _ => h.wellFormed, nofun⟩
      | false =>
          refine ⟨nofun, fun f hf => ?_⟩
          cases hf
          have hlast : ∀ j, before.getLast? = some j → j.isReturn = false := fun j hj => by
            rw [← Bool.not_eq_true]
            exact fun hret => nomatch h.returned_iff.mpr ⟨j, List.mem_of_getLast? hj, hret⟩
          have hfirst := h.firstViolation (.noReturn hlast) fun _ hv => nomatch hv
          rw [List.append_nil] at hfirst
          exact hfirst
  | cons i rest ih =>
      rw [Instruction.fault?]
      cases returned with
      | true =>
          refine ⟨nofun, fun f hf => ?_⟩
          cases hf
          exact h.firstViolation (.afterReturn (h.returned_iff.mp rfl)) fun hne => absurd rfl hne
      | false =>
          have hno : ¬ Violation before (i :: rest) .afterReturn := fun hv => by
            cases hv with
            | afterReturn hj => exact nomatch h.returned_iff.mpr hj
          cases hres : i.isResult && hasResult with
          | true =>
              refine ⟨nofun, fun f hf => ?_⟩
              cases hf
              rw [Bool.and_eq_true] at hres
              exact h.firstViolation (.secondResult hres.1 (h.hasResult_iff.mp hres.2)) fun _ => hno
          | false =>
              have := ih (h.step hres)
              rw [List.flatMap_append, List.length_append, List.flatMap_singleton,
                List.append_assoc] at this
              exact this

end

theorem fault?_eq_none_iff {is : List Instruction} :
    fault? 0 false false is = none ↔ WellFormed is := by
  refine ⟨passed_nil.fault?.1, fun h => ?_⟩
  cases hf : fault? 0 false false is with
  | none => rfl
  | some f =>
      obtain ⟨before, rest, rfl, -, hv, -⟩ := passed_nil.fault?.2 f hf
      exact absurd hv h.not_violation

theorem firstViolation_of_fault? {is : List Instruction} {f : Malformed}
    (h : fault? 0 false false is = some f) : FirstViolation is f :=
  passed_nil.fault?.2 f h

end InlineCache.Instruction
