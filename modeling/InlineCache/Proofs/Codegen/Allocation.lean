import InlineCache.Proofs.Codegen.Preservation

/-!
# What asking for a register comes to

A register that is free is handed out at once. If there is none, dead operands give theirs up, and
only if they have none, an operand is pushed. `allocate_contract` says for each of the three stages
which register is handed out, which operands move and what code is written, and that the request is
refused exactly if no stage finds a register.

The argument rests on two facts about the instruction that is being compiled. It reads its operands
itself, so none of them is dead and gives up a register that is in use; and while it has not given a
register back, none of its registers is free.
-/

namespace InlineCache

open X64

/-! ## The highest register -/

theorem X64.RegisterSet.code_le_of_highest? {rs : RegisterSet} {r t : Register}
    (h : rs.highest? = some r) (ht : rs.contains t = true) : t.code ≤ r.code := by
  obtain ⟨-, front, back, hsplit, hfront⟩ := List.find?_eq_some_iff_append.mp h
  have hsorted : Register.all.reverse.Pairwise fun x y => y.code < x.code := by decide
  have hmem : t ∈ Register.all.reverse := List.mem_reverse.mpr t.mem_all
  rw [hsplit] at hsorted hmem
  obtain hmem | hmem := List.mem_append.mp hmem
  · have := hfront t hmem
    rw [ht] at this
    cases this
  · obtain rfl | hmem := List.mem_cons.mp hmem
    · exact Fin.le_refl _
    · have hback := (List.pairwise_cons.mp (List.pairwise_append.mp hsorted).2.1).1 t hmem
      exact Fin.le_of_lt hback

namespace Allocator

variable {a : Allocator}

/-! ## Dead operands -/

theorem place_reclaim {i : Nat} (h : a.isDead i = true) :
    (a.reclaim i).place i = .uninitialized := by
  rw [reclaim, if_pos h]
  rw [show a.places.getD i .uninitialized = a.place i from rfl]
  split
  · next hnone => exact hnone
  · next hne =>
      have hself : (a.setPlace i .uninitialized).place i = .uninitialized := by
        rw [place_setPlace (lt_size_of_place_ne hne), setAt_self]
      dsimp only
      split <;> exact hself

theorem place_reclaimDead {i : Nat} (h : a.isDead i = true) :
    a.reclaimDead.place i = .uninitialized := by
  have hmany : ∀ (indices : List Nat) (a : Allocator), a.isDead i = true →
      i ∈ indices ∨ a.place i = .uninitialized →
      (indices.foldl reclaim a).place i = .uninitialized := by
    intro indices
    induction indices with
    | nil => exact fun a _ hi => hi.resolve_left List.not_mem_nil
    | cons j indices ih =>
        intro a hdead hi
        have hyields := yields_reclaim a j
        refine ih _ ((hyields.isDead i).trans hdead) ?_
        by_cases hj : i = j
        · exact .inr (hj ▸ place_reclaim (hj ▸ hdead))
        · refine hi.imp (fun hmem => (List.mem_cons.mp hmem).resolve_left hj) fun hnone => ?_
          obtain he | he := hyields.place_eq_or i
          · exact he.trans hnone
          · exact he
  refine hmany _ a h ?_
  by_cases hi : i < a.places.size
  · exact .inl (List.mem_range.mpr hi)
  · exact .inr (place_of_size_le (Nat.le_of_not_lt hi))

theorem register?_reclaimDead {i : Nat}
    (h : ∀ i r, a.isDead i = true → (a.place i).register? ≠ some r) :
    (a.reclaimDead.place i).register? = (a.place i).register? := by
  cases hdead : a.isDead i with
  | true =>
      rw [place_reclaimDead hdead]
      exact (Option.eq_none_iff_forall_ne_some.mpr fun r => h i r hdead).symm
  | false => rw [(yields_reclaimDead a).place_of_not_dead hdead]

theorem victim?_le {i j : Nat} {r : Register} (h : a.victim? = some i)
    (hj : (a.place j).register? = some r) (hr : a.current.contains r = false) : i ≤ j := by
  obtain ⟨_, _, hleast⟩ := Array.findIdx?_eq_some_iff_getElem.mp h
  refine Nat.le_of_not_lt fun hlt => ?_
  have hplace := getElem?_places (lt_size_of_register? hj)
  rw [Array.getElem?_eq_getElem (lt_size_of_register? hj)] at hplace
  refine hleast j hlt ?_
  rw [Option.some.inj hplace, hj]
  simp [hr]

/-! ## The stages -/

/-- No stage finds a register: none is free, no dead operand is in one, and the current instruction
uses every register that an operand is in. -/
structure Exhausted (a : Allocator) : Prop where
  noneFree : a.available.isEmpty = true
  noneDead : ∀ i r, a.isDead i = true → (a.place i).register? ≠ some r
  allUsed : ∀ i r, (a.place i).register? = some r → a.current.contains r = true

/-- Only the last stage finds a register. -/
structure MustPush (a : Allocator) : Prop where
  noneFree : a.available.isEmpty = true
  noneDead : ∀ i r, a.isDead i = true → (a.place i).register? ≠ some r
  unused : ∃ i r, (a.place i).register? = some r ∧ a.current.contains r = false

theorem MustPush.not_exhausted (h : a.MustPush) : ¬ a.Exhausted := by
  obtain ⟨i, r, hi, hr⟩ := h.unused
  intro hex
  rw [hex.allUsed i r hi] at hr
  cases hr

/-- The operand is in the register, boxed or not, and moves to the top of the stack as it is. -/
inductive Pushes (a : Allocator) (i : Nat) (r : Register) (a' : Allocator) : Prop where
  | value : a.place i = .valueReg r → a'.place i = .valueStack a'.depth → Pushes a i r a'
  | payload {t : ValueType} : a.place i = .payloadReg r t →
      a'.place i = .payloadStack a'.depth t → Pushes a i r a'

/-- How a register is handed out, and what is written for it. -/
structure Serves (a : Allocator) (e : Engine) (r : Register) (c : Snippet.Code) (a' : Allocator) :
    Prop where
  allocatable : e.allocatable.contains r = true
  unused : a.current.contains r = false
  unheld : ∀ i, (a'.place i).register? ≠ some r
  /-- If registers are free, it is the highest of them, and nothing moves. -/
  free : a.available.isEmpty = false → c = [] ∧ a'.places = a.places ∧
    a.available.contains r = true ∧ ∀ t, a.available.contains t = true → t.code ≤ r.code
  /-- If dead operands are in registers, it is one of these. -/
  dead : a.available.isEmpty = true →
    (∃ i t, a.isDead i = true ∧ (a.place i).register? = some t) →
    c = [] ∧ ∃ i, a.isDead i = true ∧ (a.place i).register? = some r
  /-- If an operand must be pushed, it is the first that the current instruction does not use. -/
  push : a.MustPush → c = [.push r] ∧ a'.depth = a.depth + 8 ∧ ∃ i, a.Pushes i r a' ∧
    (∀ j t, (a.place j).register? = some t → a.current.contains t = false → i ≤ j) ∧
    ∀ j, j ≠ i → a.isDead j = false → a'.place j = a.place j
  stays : ¬ a.MustPush → ∀ j, a.isDead j = false → a'.place j = a.place j

theorem pushes_of_place {a' : Allocator} {i : Nat} {r : Register}
    (hr : (a.place i).register? = some r) (h : a'.place i = (a.place i).pushed a'.depth) :
    a.Pushes i r a' := by
  cases hp : a.place i with
  | valueReg t =>
      rw [hp] at hr h
      cases hr
      exact .value hp h
  | payloadReg t ty =>
      rw [hp] at hr h
      cases hr
      exact .payload hp h
  | _ =>
      rw [hp] at hr
      cases hr

theorem Partitioned.unheld_take {e : Engine} {claimed : RegisterSet} {r : Register}
    (h : a.Partitioned e claimed) (hr : a.available.contains r = true) (i : Nat) :
    ((a.take r).place i).register? ≠ some r := by
  intro hi
  rw [(h.held hi).2.1] at hr
  cases hr

end Allocator

namespace Gen

variable {s : Codegen} {e : Engine} {claimed : RegisterSet}

theorem allocate_eq (s : Codegen) : allocate s = (do makeRoom; takeHighest : Gen Register)
    (s.write [] (if s.alloc.available.isEmpty then s.alloc.reclaimDead else s.alloc)) := by
  rw [Codegen.write_nil]
  rfl

theorem makeRoom_of_free (h : s.alloc.available.isEmpty = false) : makeRoom s = .ok () s := by
  rw [makeRoom, bind_of_ok (show allocator s = .ok s.alloc s from rfl), if_neg (by simp [h])]
  rfl

theorem makeRoom_of_no_victim (h : s.alloc.victim? = none) : makeRoom s = .ok () s := by
  rw [makeRoom, bind_of_ok (show allocator s = .ok s.alloc s from rfl), h]
  split <;> rfl

theorem makeRoom_of_victim (hempty : s.alloc.available.isEmpty = true) {i : Nat}
    (h : s.alloc.victim? = some i) : makeRoom s = spill i s := by
  rw [makeRoom, bind_of_ok (show allocator s = .ok s.alloc s from rfl), if_pos hempty, h]

theorem makeRoom_takeHighest {a : Allocator} (h : a.available.isEmpty = false) :
    ∃ r, a.available.highest? = some r ∧
      (do makeRoom; takeHighest : Gen Register) (s.write [] a) = .ok r (s.write [] (a.take r)) := by
  have hroom := @makeRoom_of_free (s.write [] a) h
  obtain ⟨r, htake, -⟩ := RegisterSet.exists_takeHighest? h
  refine ⟨r, ?_, ?_⟩
  · obtain ⟨t, ht, heq⟩ := Option.map_eq_some_iff.mp htake
    cases heq
    exact ht
  · rw [bind_of_ok hroom, takeHighest,
      bind_of_ok (show allocator (s.write [] a) = .ok a (s.write [] a) from rfl), htake]
    rfl

theorem allocate_of_free (h : s.alloc.Partitioned e claimed)
    (hkept : ∀ r, s.alloc.current.contains r = true → s.alloc.available.contains r = false)
    (hfree : s.alloc.available.isEmpty = false) :
    ∃ r, allocate s = .ok r (s.write [] (s.alloc.take r)) ∧
      s.alloc.Serves e r [] (s.alloc.take r) := by
  obtain ⟨r, hr, htake⟩ := makeRoom_takeHighest (s := s) hfree
  have hcontains := RegisterSet.contains_of_highest? hr
  refine ⟨r, by rw [allocate_eq, if_neg (by simp [hfree]), htake], ?_⟩
  exact {
    allocatable := h.engine ▸ (h.free hcontains).1
    unused := by
      rw [← Bool.not_eq_true]
      intro hcur
      rw [hkept r hcur] at hcontains
      cases hcontains
    unheld := h.unheld_take hcontains
    free := fun _ => ⟨rfl, rfl, hcontains, fun t => RegisterSet.code_le_of_highest? hr⟩
    dead := fun hempty => absurd (hempty.symm.trans hfree) (by decide)
    push := fun hmust => absurd (hmust.noneFree.symm.trans hfree) (by decide)
    stays := fun _ _ _ => rfl }

theorem allocate_of_dead (h : s.alloc.Partitioned e claimed)
    (hlive : ∀ i r, (s.alloc.place i).register? = some r → s.alloc.current.contains r = true →
      s.alloc.isDead i = false)
    (hempty : s.alloc.available.isEmpty = true) {i : Nat} {t : Register}
    (hdead : s.alloc.isDead i = true) (hi : (s.alloc.place i).register? = some t) :
    ∃ r, allocate s = .ok r (s.write [] (s.alloc.reclaimDead.take r)) ∧
      s.alloc.Serves e r [] (s.alloc.reclaimDead.take r) := by
  have hyields := s.alloc.yields_reclaimDead
  have hpart := h.yields hyields
  have hfree : s.alloc.reclaimDead.available.isEmpty = false := by
    rw [← Bool.not_eq_true]
    intro hnone
    have ht := (hyields.available t).mpr (.inr ⟨i, hi, Allocator.place_reclaimDead hdead⟩)
    rw [RegisterSet.contains_of_isEmpty hnone] at ht
    cases ht
  obtain ⟨r, hr, htake⟩ := makeRoom_takeHighest (s := s) hfree
  have hcontains := RegisterSet.contains_of_highest? hr
  -- Nothing was free before, so it is the register of an operand that gave it up.
  obtain ⟨j, hj, hgone⟩ := ((hyields.available r).mp hcontains).resolve_left (by
    rw [RegisterSet.contains_of_isEmpty hempty]
    decide)
  have hjdead : s.alloc.isDead j = true := by
    rw [← Bool.not_eq_false]
    intro hlivej
    rw [← hyields.place_of_not_dead hlivej, hgone] at hj
    cases hj
  refine ⟨r, by rw [allocate_eq, if_pos hempty, htake], ?_⟩
  exact {
    allocatable := hpart.engine ▸ (hpart.free hcontains).1
    unused := by
      rw [← Bool.not_eq_true]
      intro hcur
      rw [hlive j r hj hcur] at hjdead
      cases hjdead
    unheld := hpart.unheld_take hcontains
    free := fun hsome => absurd (hempty.symm.trans hsome) (by decide)
    dead := fun _ _ => ⟨rfl, j, hjdead, hj⟩
    push := fun hmust => absurd hi (hmust.noneDead i t hdead)
    stays := fun _ k hk => hyields.place_of_not_dead hk }

/-- When an operand is pushed while nothing is free, its register is the one that is taken. -/
theorem takeHighest_spilled {i : Nat} {r : Register} (hr : (s.alloc.place i).register? = some r)
    (hall : s.alloc.allocatable.contains r = true) (hfree : s.alloc.available.isEmpty = true)
    (hlt : s.alloc.depth + 8 < 2 ^ 32) :
    (do spill i; takeHighest : Gen Register) s =
      .ok r (s.write [.push r] ((s.alloc.spilled i r).take r)) := by
  have hinsert : (s.alloc.spilled i r).available = s.alloc.available.insert r := rfl
  have hsome : (s.alloc.spilled i r).available.isEmpty = false := by
    rw [← Bool.not_eq_true]
    intro hnone
    have := RegisterSet.contains_of_isEmpty (r := r) hnone
    simp [hinsert] at this
  obtain ⟨t, htake, ht⟩ := takeHighest_eq (s := s.write [.push r] (s.alloc.spilled i r)) hsome
  have htr : t = r := by
    rw [Codegen.alloc_write, hinsert, RegisterSet.contains_insert,
      RegisterSet.contains_of_isEmpty hfree] at ht
    simpa [eq_comm] using ht
  rw [bind_of_ok (spill_eq hr hall hlt), htake, htr]
  rfl

section
variable (hempty : s.alloc.available.isEmpty = true)
  (hnone : ∀ i r, s.alloc.isDead i = true → (s.alloc.place i).register? ≠ some r)
include hempty hnone

theorem isEmpty_reclaimDead : s.alloc.reclaimDead.available.isEmpty = true := by
  rw [← Bool.not_eq_false]
  intro hfree
  obtain ⟨r, hr⟩ := RegisterSet.exists_contains hfree
  obtain hav | ⟨i, hi, hgone⟩ := (s.alloc.yields_reclaimDead.available r).mp hr
  · rw [RegisterSet.contains_of_isEmpty hempty] at hav
    cases hav
  · rw [← Allocator.register?_reclaimDead hnone, hgone] at hi
    cases hi

theorem allocate_of_no_victim (hi : s.alloc.reclaimDead.victim? = none) :
    allocate s = .error (.outOfRegisters s.alloc.instruction)
      (s.write [] s.alloc.reclaimDead) := by
  have hempty' := isEmpty_reclaimDead hempty hnone
  have hroom := @makeRoom_of_no_victim (s.write [] s.alloc.reclaimDead) hi
  have hsame : s.alloc.reclaimDead.instruction = s.alloc.instruction := by
    rw [s.alloc.yields_reclaimDead.frame]
  rw [allocate_eq, if_pos hempty, bind_of_ok hroom, takeHighest_error hempty',
    Codegen.alloc_write, hsame]

theorem allocate_eq_spill {i : Nat} (hi : s.alloc.reclaimDead.victim? = some i) :
    allocate s = (do spill i; takeHighest : Gen Register) (s.write [] s.alloc.reclaimDead) := by
  have hroom := @makeRoom_of_victim (s.write [] s.alloc.reclaimDead)
    (isEmpty_reclaimDead hempty hnone) i hi
  rw [allocate_eq, if_pos hempty]
  cases hspill : spill i (s.write [] s.alloc.reclaimDead) with
  | ok u s' => rw [bind_of_ok (hroom.trans hspill), bind_of_ok hspill]
  | error err s' => rw [bind_of_error (hroom.trans hspill), bind_of_error hspill]

theorem mustPush_of_victim? {i : Nat} (hi : s.alloc.reclaimDead.victim? = some i) :
    s.alloc.MustPush := by
  obtain ⟨r, hr, hcur⟩ := Allocator.register?_of_victim? hi
  rw [show s.alloc.reclaimDead.current = s.alloc.current by
    rw [s.alloc.yields_reclaimDead.frame]] at hcur
  exact ⟨hempty, hnone, i, r, s.alloc.yields_reclaimDead.register? hr, hcur⟩

theorem allocate_of_victim (h : s.alloc.Partitioned e claimed) {i : Nat}
    (hi : s.alloc.reclaimDead.victim? = some i) (hlt : s.alloc.depth + 8 < 2 ^ 32) :
    ∃ r a, allocate s = .ok r (s.write [.push r] a) ∧ s.alloc.Serves e r [.push r] a := by
  have hyields := s.alloc.yields_reclaimDead
  have hpart := h.yields hyields
  obtain ⟨r, hr, hcur⟩ := Allocator.register?_of_victim? hi
  have hcurrent : s.alloc.reclaimDead.current = s.alloc.current := by rw [hyields.frame]
  have hdepth : s.alloc.reclaimDead.depth = s.alloc.depth := by rw [hyields.frame]
  rw [hcurrent] at hcur
  have hheld := hyields.register? hr
  rw [← hdepth] at hlt
  have hspilled := hpart.spilled hr hlt
  have hfree : (s.alloc.reclaimDead.spilled i r).available.contains r = true := by
    simp [Allocator.spilled]
  have hplace := Allocator.place_spilled hr
  have hsame : s.alloc.reclaimDead.place i = s.alloc.place i :=
    (hyields.place_eq_or i).resolve_right fun hgone => by
      rw [hgone] at hr
      cases hr
  refine ⟨r, (s.alloc.reclaimDead.spilled i r).take r, ?_, ?_⟩
  · have htake := takeHighest_spilled (s := s.write [] s.alloc.reclaimDead) hr (hpart.held hr).1
      (isEmpty_reclaimDead hempty hnone) hlt
    rw [allocate_eq_spill hempty hnone hi, htake, Codegen.write_write]
    rfl
  · exact {
      allocatable := hspilled.engine ▸ (hspilled.free hfree).1
      unused := hcur
      unheld := hspilled.unheld_take hfree
      free := fun hsome => absurd (hempty.symm.trans hsome) (by decide)
      dead := by
        rintro - ⟨j, t, hdead, hj⟩
        exact absurd hj (hnone j t hdead)
      push := fun _ => by
        refine ⟨rfl, congrArg (· + 8) hdepth, i, ?_, fun j t hj ht => ?_, fun j hji hj => ?_⟩
        · refine Allocator.pushes_of_place hheld ?_
          show (s.alloc.reclaimDead.spilled i r).place i = _
          rw [hplace, setAt_self, hsame]
          rfl
        · refine Allocator.victim?_le hi ?_ (hcurrent.symm ▸ ht)
          rw [Allocator.register?_reclaimDead hnone, hj]
        · show (s.alloc.reclaimDead.spilled i r).place j = _
          rw [hplace, setAt_of_ne _ _ hji, hyields.place_of_not_dead hj]
      stays := fun hmust => absurd (mustPush_of_victim? hempty hnone hi) hmust }

/-- The last stage fails if the stack has no room for the operand. -/
theorem allocate_of_deep {i : Nat} (hi : s.alloc.reclaimDead.victim? = some i)
    (hdeep : ¬ s.alloc.depth + 8 < 2 ^ 32) : ∃ s', allocate s = .error .stackDepth s' := by
  obtain ⟨r, hr, -⟩ := Allocator.register?_of_victim? hi
  have hdepth : s.alloc.reclaimDead.depth = s.alloc.depth := by
    rw [s.alloc.yields_reclaimDead.frame]
  rw [← hdepth] at hdeep
  obtain ⟨s', hs'⟩ := spill_error (s := s.write [] s.alloc.reclaimDead) hr hdeep
  exact ⟨s', by rw [allocate_eq_spill hempty hnone hi, bind_of_error hs']⟩

theorem victim?_reclaimDead_eq_none_iff :
    s.alloc.reclaimDead.victim? = none ↔ s.alloc.Exhausted := by
  have hcurrent : s.alloc.reclaimDead.current = s.alloc.current := by
    rw [s.alloc.yields_reclaimDead.frame]
  constructor
  · intro hi
    refine ⟨hempty, hnone, fun j r hj => ?_⟩
    rw [← Bool.not_eq_false, ← hcurrent]
    intro hr
    rw [← Allocator.register?_reclaimDead hnone] at hj
    obtain ⟨i, hsome⟩ := Allocator.exists_victim? hj hr
    rw [hi] at hsome
    cases hsome
  · intro hex
    cases hi : s.alloc.reclaimDead.victim? with
    | none => rfl
    | some i => exact absurd hex (mustPush_of_victim? hempty hnone hi).not_exhausted

end

/-- The three ways a request for a register can end. -/
inductive Answered (s : Codegen) (e : Engine) :
    EStateM.Result EmitError Codegen Register → Prop where
  | refused {k : Nat} {s' : Codegen} : s.alloc.Exhausted →
      Answered s e (.error (.outOfRegisters k) s')
  | deep {s' : Codegen} : s.alloc.MustPush → ¬ s.alloc.depth + 8 < 2 ^ 32 →
      Answered s e (.error .stackDepth s')
  | served {r : Register} {c : Snippet.Code} {a : Allocator} : ¬ s.alloc.Exhausted →
      (s.alloc.MustPush → s.alloc.depth + 8 < 2 ^ 32) → s.alloc.Serves e r c a →
      Answered s e (.ok r (s.write c a))

theorem answered_allocate (h : s.alloc.Partitioned e claimed)
    (hlive : ∀ i r, (s.alloc.place i).register? = some r → s.alloc.current.contains r = true →
      s.alloc.isDead i = false)
    (hkept : ∀ r, s.alloc.current.contains r = true → s.alloc.available.contains r = false) :
    Answered s e (allocate s) := by
  cases hempty : s.alloc.available.isEmpty with
  | false =>
      obtain ⟨r, hok, hserves⟩ := allocate_of_free h hkept hempty
      rw [hok]
      exact .served (fun hex => absurd (hex.noneFree.symm.trans hempty) (by decide))
        (fun hmust => absurd (hmust.noneFree.symm.trans hempty) (by decide)) hserves
  | true =>
      by_cases hdead : ∃ i t, s.alloc.isDead i = true ∧ (s.alloc.place i).register? = some t
      · obtain ⟨i, t, hi, ht⟩ := hdead
        obtain ⟨r, hok, hserves⟩ := allocate_of_dead h hlive hempty hi ht
        rw [hok]
        exact .served (fun hex => hex.noneDead i t hi ht) (fun hmust => absurd ht
          (hmust.noneDead i t hi)) hserves
      · have hnone : ∀ i r, s.alloc.isDead i = true → (s.alloc.place i).register? ≠ some r :=
          fun i r hi hr => hdead ⟨i, r, hi, hr⟩
        have hvictim := victim?_reclaimDead_eq_none_iff hempty hnone
        cases hv : s.alloc.reclaimDead.victim? with
        | none =>
            rw [allocate_of_no_victim hempty hnone hv]
            exact .refused (hvictim.mp hv)
        | some i =>
            have hfound : ¬ s.alloc.Exhausted := fun hex => by
              rw [hvictim.mpr hex] at hv
              cases hv
            by_cases hlt : s.alloc.depth + 8 < 2 ^ 32
            · obtain ⟨r, a, hok, hserves⟩ := allocate_of_victim hempty hnone h hv hlt
              rw [hok]
              exact .served hfound (fun _ => hlt) hserves
            · obtain ⟨s', herr⟩ := allocate_of_deep hempty hnone hv hlt
              rw [herr]
              exact .deep (mustPush_of_victim? hempty hnone hv) hlt

/-- A register is refused exactly if no stage finds one. Otherwise it comes from the first stage
that finds one, and from the last stage only if the stack has room for what is pushed. -/
theorem allocate_contract (h : s.alloc.Partitioned e claimed)
    (hlive : ∀ i r, (s.alloc.place i).register? = some r → s.alloc.current.contains r = true →
      s.alloc.isDead i = false)
    (hkept : ∀ r, s.alloc.current.contains r = true → s.alloc.available.contains r = false) :
    ((∃ k s', allocate s = .error (.outOfRegisters k) s') ↔ s.alloc.Exhausted) ∧
    (s.alloc.MustPush → ¬ s.alloc.depth + 8 < 2 ^ 32 →
      ∃ s', allocate s = .error .stackDepth s') ∧
    (¬ s.alloc.Exhausted → (s.alloc.MustPush → s.alloc.depth + 8 < 2 ^ 32) →
      ∃ r c a, allocate s = .ok r (s.write c a) ∧ s.alloc.Serves e r c a) := by
  have hans := answered_allocate h hlive hkept
  generalize allocate s = x at hans
  cases hans with
  | refused hex =>
      exact ⟨⟨fun _ => hex, fun _ => ⟨_, _, rfl⟩⟩,
        fun hmust => absurd hex hmust.not_exhausted, fun hfound => absurd hex hfound⟩
  | deep hmust hdeep =>
      refine ⟨⟨?_, fun hex => absurd hex hmust.not_exhausted⟩, fun _ _ => ⟨_, rfl⟩,
        fun _ hroom => absurd (hroom hmust) hdeep⟩
      rintro ⟨k, s', herr⟩
      cases herr
  | served hfound hroom hserves =>
      refine ⟨⟨?_, fun hex => absurd hex hfound⟩, fun hmust hdeep => absurd (hroom hmust) hdeep,
        fun _ _ => ⟨_, _, _, rfl, hserves⟩⟩
      rintro ⟨k, s', herr⟩
      cases herr

/-- Two inputs are on the stack and a register is claimed. The current instruction has asked for
operand 2, so that there is one operand left to push. -/
def oneToPush : List Request :=
  Session.crowded ++ [.nextInstruction, .usePayload 2 .object]

theorem exists_oneToPush :
    ∃ s₀ s, Session.start? Session.fiveOperands .ionSharedIC {} (.registers 2 (by decide)) [1, 0] =
        some s₀ ∧ s₀.requests oneToPush = some s ∧ s.alloc.MustPush ∧
      (∀ i r, (s.alloc.place i).register? = some r → s.alloc.isDead i = false) ∧
      (∀ r, s.alloc.current.contains r = true → s.alloc.available.contains r = false) ∧
      s.alloc.depth = 16 := by
  have hrun : ((Session.start? Session.fiveOperands .ionSharedIC {} (.registers 2 (by decide))
      [1, 0]).bind fun s₀ => (s₀.requests oneToPush).filter fun s =>
        s.alloc.places.size = 5 ∧ (∀ i < 5, s.alloc.isDead i = false) ∧
        (∀ r ∈ Register.all, s.alloc.current.contains r = true →
          s.alloc.available.contains r = false) ∧
        s.alloc.available.isEmpty = true ∧ (s.alloc.place 3).register? = some .rsi ∧
        s.alloc.current.contains .rsi = false ∧ s.alloc.depth = 16).isSome = true := by
    decide +kernel
  obtain ⟨s, hs⟩ := Option.isSome_iff_exists.mp hrun
  obtain ⟨s₀, hstart, hs⟩ := Option.bind_eq_some_iff.mp hs
  obtain ⟨hreq, hfacts⟩ := Option.filter_eq_some_iff.mp hs
  rw [decide_eq_true_eq] at hfacts
  obtain ⟨hsize, hdead, hkept, hempty, hrsi, hunused, hdepth⟩ := hfacts
  have hlive : ∀ i r, (s.alloc.place i).register? = some r → s.alloc.isDead i = false :=
    fun i r hi => hdead i (hsize ▸ Allocator.lt_size_of_register? hi)
  exact ⟨s₀, s, hstart, hreq,
    ⟨hempty, fun i r hi hr => by simp [hlive i r hr] at hi, 3, .rsi, hrsi, hunused⟩, hlive,
    fun r => hkept r r.mem_all, hdepth⟩

theorem allocate_contract_oneToPush :
    ∃ s₀ s r c a,
      Session.start? Session.fiveOperands .ionSharedIC {} (.registers 2 (by decide)) [1, 0] =
        some s₀ ∧
      s₀.requests oneToPush = some s ∧ s.alloc.MustPush ∧
      allocate s.codegen = .ok r (s.codegen.write c a) ∧
      s.alloc.Serves .ionSharedIC r c a ∧ c = [.push r] ∧ a.depth = 24 := by
  obtain ⟨s₀, s, hstart, hreq, hmust, hlive, hkept, hdepth⟩ := exists_oneToPush
  obtain ⟨-, -, hserved⟩ := allocate_contract
    ((Session.sound_of_start? hstart).requests hreq).partitioned (fun i r hi _ => hlive i r hi)
    hkept
  obtain ⟨r, c, a, hok, hserves⟩ := hserved hmust.not_exhausted fun _ =>
    hdepth ▸ (by decide : 16 + 8 < 2 ^ 32)
  obtain ⟨hpush, hdeeper, -⟩ := hserves.push hmust
  exact ⟨s₀, s, r, c, a, hstart, hreq, hmust, hok, hserves, hpush,
    hdeeper.trans (congrArg (· + 8) hdepth)⟩

/-- The same operands on a stack that is almost full: operand 3 could be pushed, but its slot would
need an offset of 33 bits. -/
theorem allocate_stackFull :
    ∃ s claimed, s.alloc.Partitioned .ionSharedIC claimed ∧
      (∀ i r, (s.alloc.place i).register? = some r → s.alloc.isDead i = false) ∧
      (∀ r, s.alloc.current.contains r = true → s.alloc.available.contains r = false) ∧
      ¬ s.alloc.Exhausted ∧ ∃ s', allocate s = .error .stackDepth s' := by
  obtain ⟨s₀, s, hstart, hreq, hmust, hlive, hkept, hdepth⟩ := exists_oneToPush
  have hpart := ((Session.sound_of_start? hstart).requests hreq).partitioned
  let full : Codegen := { s.codegen with alloc := { s.alloc with
    depth := 2 ^ 32 - 8, maxDepth := 2 ^ 32 - 8 } }
  have hfull : full.alloc.Partitioned .ionSharedIC s.claimed :=
    hpart.deepen (by rw [hdepth]; decide) (by decide) (by decide)
  have hmust' : full.alloc.MustPush := ⟨hmust.noneFree, hmust.noneDead, hmust.unused⟩
  refine ⟨full, s.claimed, hfull, hlive, hkept, hmust'.not_exhausted, ?_⟩
  have hans := answered_allocate hfull (fun i r hi _ => hlive i r hi) hkept
  generalize allocate full = x at hans
  cases hans with
  | refused hex => exact absurd hex hmust'.not_exhausted
  | deep _ _ => exact ⟨_, rfl⟩
  | served _ hroom _ => exact absurd (hroom hmust') (show ¬ 2 ^ 32 - 8 + 8 < 2 ^ 32 by decide)

end Gen
end InlineCache
