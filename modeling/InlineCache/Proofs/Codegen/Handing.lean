import InlineCache.Proofs.Codegen.Partition

/-!
# Handing registers out

A register is free, or it becomes free: dead operands give theirs up, and if that is not enough, an
operand is pushed that the current instruction does not use. `Allocator.Clears` says what this
comes to, for the allocator and for the machine that runs the code: the registers stay shared out,
every operand that still has a place is found there, and no register changes but the stack pointer.
`Allocator.Hands` is the same with a register handed out at the end. An operation that runs out of
registers on the way loses nothing (`Refused`).
-/

namespace InlineCache

open X64

/-! ## Sets of registers -/

theorem X64.RegisterSet.erase_insert {rs : RegisterSet} {r : Register}
    (h : rs.contains r = false) : (rs.insert r).erase r = rs := by
  have hbits : ((rs.insert r).erase r).bits = rs.bits := by
    refine BitVec.eq_of_getLsbD_eq fun i hi => ?_
    have hs : ((rs.insert r).erase r).contains (.ofCode ⟨i, hi⟩) =
        rs.contains (.ofCode ⟨i, hi⟩) := by
      by_cases hr : r = .ofCode ⟨i, hi⟩
      · simp [← hr, h]
      · simp [hr]
    simpa [RegisterSet.contains] using hs
  exact congrArg RegisterSet.mk hbits

/-! ## Making room -/

namespace Allocator

/-- The register is free, or may become free: the operand in it is dead or not used by the current
instruction. -/
def Freeable (a : Allocator) (r : Register) : Prop :=
  a.available.contains r = true ∨
    ∃ i, (a.place i).register? = some r ∧ (a.isDead i = true ∨ a.current.contains r = false)

/-- Registers became free. Operands move at most to the stack or lose their places, and the slots
of operands are theirs alone. -/
structure Clears (a : Allocator) (e : Engine) (c : Snippet.Code) (claimed : RegisterSet)
    (a' : Allocator) : Prop extends a.Keeps e c claimed a' where
  stays : ∀ {i r}, (a'.place i).register? = some r → (a.place i).register? = some r
  slot : ∀ {i o}, (a.place i).slot? = some o →
    o ≤ a'.depth ∧ ∀ j, j ≠ i → (a'.place j).slot? ≠ some o
  deeper : a.depth ≤ a'.depth
  used : ∀ {r}, a.current.contains r = true → a'.current.contains r = true
  freed : ∀ {r}, a'.available.contains r = true → a.Freeable r
  runs : ∀ {env contents m}, env.room < 2 ^ 31 → a'.maxDepth ≤ env.room →
    Realizes env a.place a.depth contents m → ∃ m', exec env.area c m = .fall m' ∧
      Realizes env a'.place a'.depth contents m' ∧ (∀ r, r ≠ .rsp → m'.reg r = m.reg r) ∧
      ∀ {x}, Memory.below env.sp a.depth x = true → m'.mem x = m.mem x

section
variable {a a' : Allocator} {c : Snippet.Code} {e : Engine} {claimed : RegisterSet} {i : Nat}
  {r : Register}

theorem Partitioned.clears_yields (h : a.Partitioned e claimed) (hy : a.Yields a') :
    a.Clears e [] claimed a' where
  partitioned := h.yields hy
  continues := hy.continues
  climbs := Climbs.of_plain plain_nil h.depth_le
    (by rw [hy.frame]) (by rw [hy.frame])
  stays := hy.register?
  slot {i o} hi := by
    refine ⟨?_, fun j hj hs => hj ?_⟩
    · rw [hy.frame]
      exact (h.slot hi).2.2
    · obtain he | he := hy.place_eq_or j <;> rw [he] at hs
      · exact h.apart hs hi
      · cases hs
  deeper := Nat.le_of_eq (by rw [hy.frame])
  used hr := by
    rw [hy.frame]
    exact hr
  freed {r} hr := by
    refine ((hy.available r).mp hr).imp_right fun ⟨i, hi, hgone⟩ => ⟨i, hi, .inl ?_⟩
    obtain he | ⟨hdead, -⟩ := hy.place i
    · rw [← he, hgone] at hi
      cases hi
    · exact hdead
  runs {env contents m} _ _ hreal := by
    have hdepth : a'.depth = a.depth := by rw [hy.frame]
    exact ⟨m, rfl, hdepth ▸ hreal.forget hy.place_eq_or, fun _ _ => rfl, fun _ => rfl⟩

theorem Clears.out (h : a.Clears e c claimed a') (hi : (a.place i).register? = none) :
    (a'.place i).register? = none := by
  refine Option.eq_none_iff_forall_ne_some.mpr fun q hq => ?_
  have hheld := h.stays hq
  rw [hi] at hheld
  cases hheld

/-- One operand more is pushed. -/
theorem Clears.spilled (h : a.Clears e c claimed a') (hi : (a'.place i).register? = some r)
    (hr : a.Freeable r) (hlt : a'.depth + 8 < 2 ^ 32) :
    a.Clears e (c ++ [.push r]) claimed (a'.spilled i r) where
  toKeeps := h.toKeeps.trans
    ⟨h.partitioned.spilled hi hlt, continues_spilled, climbs_spilled i r⟩
  stays hj := h.stays (register?_spilled hi hj).2
  slot {j o} hj := by
    obtain ⟨hle, hother⟩ := h.slot hj
    refine ⟨Nat.le_trans hle (Nat.le_add_right _ 8), fun k hk hs => ?_⟩
    obtain ⟨-, ho⟩ | ⟨-, hs⟩ := slot?_spilled hi hs
    · omega
    · exact hother k hk hs
  deeper := Nat.le_trans h.deeper (Nat.le_add_right _ 8)
  used := h.used
  freed {s} hs := by
    simp only [Allocator.spilled, RegisterSet.contains_insert, Bool.or_eq_true,
      decide_eq_true_eq] at hs
    obtain hs | rfl := hs
    · exact h.freed hs
    · exact hr
  runs {env contents m} hroom hmax hreal := by
    obtain ⟨m₁, hx₁, hreal₁, hregs₁, hmem₁⟩ :=
      h.runs hroom (Nat.le_trans (Nat.le_max_left _ _) hmax) hreal
    obtain ⟨m₂, hx₂, hreal₂, hregs₂, hmem₂⟩ := hreal₁.push hi
      (fun hj => (h.partitioned.usable (h.partitioned.held hj).1).1)
      (fun hj => (h.partitioned.slot hj).2.2) (Nat.le_trans (Nat.le_max_right _ _) hmax) hroom
    refine ⟨m₂, by rw [exec_append_of_fall hx₁, hx₂], ?_, fun q hq => ?_, fun hx => ?_⟩
    · rw [place_spilled hi]
      exact hreal₂
    · rw [hregs₂ q hq, hregs₁ q hq]
    · rw [hmem₂ (.inl (Memory.below_of_le h.deeper hx)), hmem₁ hx]

/-- The register was made free and claimed. -/
structure Hands (a : Allocator) (e : Engine) (c : Snippet.Code) (claimed : RegisterSet)
    (r : Register) (a' : Allocator) : Prop extends a.Clears e c (claimed.insert r) a' where
  fresh : claimed.contains r = false
  usable : r ≠ .rsp ∧ r ≠ scratchRegister
  source : a.Freeable r

theorem Clears.hands (h : a.Clears e c claimed a') (hr : a'.available.contains r = true) :
    a.Hands e c claimed r (a'.take r) where
  partitioned := h.partitioned.take hr
  continues := h.continues.trans continues_take
  climbs := ⟨h.climbs.levels, h.climbs.depth, h.climbs.peak⟩
  stays := h.stays
  slot := h.slot
  deeper := h.deeper
  used hs := by simp [Allocator.take, h.used hs]
  freed {s} hs := by
    simp only [Allocator.take, RegisterSet.contains_erase, Bool.and_eq_true] at hs
    exact h.freed hs.1
  runs := h.runs
  fresh := (h.partitioned.free hr).2
  usable := by
    have hne := h.partitioned.usable (h.partitioned.free hr).1
    exact ⟨hne.1, hne.2.2⟩
  source := h.freed hr

/-- The operand moves from its slot into the register. If the slot is on top, it is popped, and no
other slot was above it. -/
theorem Hands.fill_from_slot (h : a.Hands e c claimed r a') {p : Place} {o : Nat}
    (hi : (a.place i).slot? = some o) (hsize : i < a'.places.size)
    (hout : (a.place i).register? = none) (hreg : p.register? = some r) (hslot : p.slot? = none) :
    (a'.move i p (Emit.reloadDepth o a'.depth)).Partitioned e claimed := by
  have haligned := h.partitioned.aligned
  have hdvd : 8 ∣ Emit.reloadDepth o a'.depth := by
    rw [Emit.reloadDepth]
    split <;> omega
  have hslots : ∀ j o', j ≠ i → (a'.place j).slot? = some o' →
      o' ≤ Emit.reloadDepth o a'.depth := by
    intro j o' hj ho'
    have hne : o' ≠ o := fun he => (h.slot hi).2 j hj (he ▸ ho')
    have hslot' := h.partitioned.slot ho'
    rw [Emit.reloadDepth]
    split <;> omega
  have hmoved := h.partitioned.fill hsize (h.out hout) hreg hslot (by simp) hdvd
    (Emit.reloadDepth_le _ _) hslots
  rwa [RegisterSet.erase_insert h.fresh] at hmoved

end
end Allocator

/-! ## The operations -/

/-- An operation that runs out of registers leaves them shared out. Whatever else it fails with is
no answer. -/
def Refused (e : Engine) (claimed : RegisterSet) (err : EmitError) (s : Codegen) : Prop :=
  (∃ k, err = .outOfRegisters k) → s.alloc.Partitioned e claimed

theorem refused_of_ne {e : Engine} {claimed : RegisterSet} {err : EmitError} {s : Codegen}
    (h : ∀ k, err ≠ .outOfRegisters k) : Refused e claimed err s := by
  rintro ⟨k, he⟩
  exact absurd he (h k)

namespace Gen

variable {s : Codegen} {e : Engine} {claimed : RegisterSet} {i : Nat} {r : Register}

theorem spill_keeps {c : Snippet.Code} {a : Allocator} (h : s.alloc.Clears e c claimed a)
    (hi : (a.place i).register? = some r) (hr : a.current.contains r = false) :
    Ensures (Refused e claimed) (spill i) (s.write c a) fun _ s' =>
      ∃ c' a', s' = s.write c' a' ∧ s.alloc.Clears e c' claimed a' ∧
        a'.available.contains r = true := by
  have hfree : s.alloc.Freeable r := by
    refine .inr ⟨i, h.stays hi, .inr ?_⟩
    rw [← Bool.not_eq_true]
    intro hcur
    rw [h.used hcur] at hr
    cases hr
  by_cases hlt : a.depth + 8 < 2 ^ 32
  · refine Ensures.of_ok (spill_eq hi (h.partitioned.held hi).1 hlt)
      ⟨_, _, Codegen.write_write _ _ _ _ _, h.spilled hi hfree hlt, ?_⟩
    simp [Allocator.spilled]
  · obtain ⟨s', hs'⟩ := spill_error (s := s.write c a) hi hlt
    exact Ensures.of_error hs' (refused_of_ne fun k he => by cases he)

/-- Some register is free, or none can be freed. -/
theorem makeRoom_keeps {c : Snippet.Code} {a : Allocator} (h : s.alloc.Clears e c claimed a) :
    Ensures (Refused e claimed) makeRoom (s.write c a) fun _ s' =>
      ∃ c' a', s' = s.write c' a' ∧ s.alloc.Clears e c' claimed a' := by
  rw [makeRoom]
  refine Ensures.bind_ok (show allocator (s.write c a) = .ok a (s.write c a) from rfl) ?_
  split
  · split
    · next i hi =>
        obtain ⟨r, hr, hcur⟩ := Allocator.register?_of_victim? hi
        refine (spill_keeps h hr hcur).mono (fun _ _ he => he) ?_
        rintro _ _ ⟨c', a', rfl, hclears, -⟩
        exact ⟨c', a', rfl, hclears⟩
    · exact Ensures.pure ⟨c, a, rfl, h⟩
  · exact Ensures.pure ⟨c, a, rfl, h⟩

theorem takeHighest_error (h : s.alloc.available.isEmpty = true) :
    takeHighest s = .error (.outOfRegisters s.alloc.instruction) s := by
  have hnone : s.alloc.available.takeHighest? = none := by
    rw [RegisterSet.takeHighest?, RegisterSet.highest?, Option.map_eq_none_iff,
      List.find?_eq_none]
    intro q _
    rw [RegisterSet.contains_of_isEmpty h]
    decide
  rw [takeHighest, bind_of_ok (show allocator s = .ok s.alloc s from rfl), hnone]
  rfl

theorem allocate_keeps (h : s.alloc.Partitioned e claimed) :
    Ensures (Refused e claimed) allocate s fun r s' =>
      ∃ c a, s' = s.write c a ∧ s.alloc.Hands e c claimed r a := by
  obtain ⟨a, ha, hyields⟩ : ∃ a, (if s.alloc.available.isEmpty then s.alloc.reclaimDead
      else s.alloc) = a ∧ s.alloc.Yields a :=
    ⟨_, rfl, (Allocator.yields_reclaimDead _).ite (.refl _)⟩
  refine Ensures.bind_ok (t := s.write [] a) (by rw [← ha, Codegen.write_nil]; rfl)
    (Ensures.bind ((makeRoom_keeps (h.clears_yields hyields)).mono (fun _ _ he => he) ?_))
  rintro _ _ ⟨c, a', rfl, hclears⟩
  cases hempty : a'.available.isEmpty with
  | true =>
      exact Ensures.of_error (takeHighest_error (s := s.write c a') hempty)
        fun _ => hclears.partitioned
  | false =>
      obtain ⟨r, htake, hr⟩ := takeHighest_eq (s := s.write c a') hempty
      exact Ensures.of_ok htake ⟨c, _, rfl, hclears.hands hr⟩

theorem allocateFixed_keeps (h : s.alloc.Partitioned e claimed) (r : Register) :
    Ensures (Refused e claimed) (allocateFixed r) s fun _ s' =>
      ∃ c a, s' = s.write c a ∧ s.alloc.Hands e c claimed r a := by
  obtain ⟨a, ha, hyields⟩ : ∃ a, (if s.alloc.available.contains r then s.alloc
      else s.alloc.reclaimDead) = a ∧ s.alloc.Yields a :=
    ⟨_, rfl, (Allocator.Yields.refl _).ite (Allocator.yields_reclaimDead _)⟩
  have hclears := h.clears_yields hyields
  refine Ensures.bind_ok (t := s.write [] a) (by rw [← ha, Codegen.write_nil]; rfl)
    (Ensures.bind ?_)
  have htake : ∀ {c a'}, s.alloc.Clears e c claimed a' → a'.available.contains r = true →
      Ensures (Refused e claimed) (modifyAllocator fun a =>
        { a with available := a.available.erase r, current := a.current.insert r })
        (s.write c a') fun _ s' => ∃ c a, s' = s.write c a ∧ s.alloc.Hands e c claimed r a := by
    intro c a' hclears hfree
    exact Ensures.of_ok rfl ⟨c, _, rfl, hclears.hands hfree⟩
  rw [vacate]
  refine Ensures.bind_ok (show allocator _ = .ok a (s.write [] a) from rfl) ?_
  split
  · next hfree => exact Ensures.pure (htake hclears hfree)
  · split
    · exact Ensures.of_error rfl (refused_of_ne fun k he => by cases he)
    · next hcur =>
      split
      · next i hi =>
          refine (spill_keeps hclears (Allocator.register?_of_occupant? hi)
            (Bool.not_eq_true _ ▸ hcur)).mono (fun _ _ he => he) ?_
          rintro _ _ ⟨c, a', rfl, hclears', hfree⟩
          exact htake hclears' hfree
      · exact Ensures.of_error rfl (refused_of_ne fun k he => by cases he)

theorem release_keeps (h : s.alloc.Partitioned e claimed) (hr : claimed.contains r = true) :
    Ensures (Refused e claimed) (release r) s fun _ s' =>
      ∃ a, s' = s.write [] a ∧ s.alloc.Keeps e [] (claimed.erase r) a := by
  refine Ensures.of_ok (release_eq (h.claimed_of_contains hr))
    ⟨_, (Codegen.write_nil _ _).symm, h.release hr, ⟨rfl, rfl, rfl, rfl, rfl, rfl, Nat.le_refl _⟩,
      Allocator.Climbs.of_plain plain_nil h.depth_le rfl rfl⟩

end Gen

end InlineCache
