import InlineCache.Proofs.Codegen.Operands
import InlineCache.Proofs.X64.Levels

/-!
# The registers and the stack, shared out

Every register that the allocator may hand out is free, or held by one operand, or claimed: handed
out for something that is not an operand. Every operand on the stack has a slot of its own below
the depth that the allocator knows. `Allocator.Partitioned` says this for the set of registers that
are claimed, and the operations of the allocator keep it, whatever they are asked for. Nothing is
assumed of the types of operands, of when they are read last, or of how many registers an
instruction takes; an operation that runs out of registers keeps it as well.

The code that the operations write keeps in step with the allocator: behind it the stack is as deep
as the allocator knows, and the greatest depth in it is remembered (`Climbs`).
-/

namespace InlineCache

open X64

theorem Emit.leads_reload {r : Register} (hr : r ≠ .rsp) {o depth : Nat} (hpos : 0 < o)
    (hdvd : 8 ∣ o) (hle : o ≤ depth) (haligned : 8 ∣ depth) (hlt : depth < 2 ^ 32) :
    Leads depth (reloadCode r o depth) (reloadDepth o depth) depth := by
  have hdest : some r ≠ some Register.rsp := fun he => hr (Option.some.inj he)
  rw [reloadCode, reloadDepth]
  by_cases ho : o = depth
  · rw [if_pos ho, if_pos ho]
    refine ⟨⟨⟨hdest, ?_⟩, trivial⟩, rfl, ?_⟩
    · show 8 ≤ depth
      omega
    · show max depth (depth - 8) ≤ depth
      omega
  · rw [if_neg ho, if_neg ho]
    have hdisp : (depth - o).toUInt32.toInt32.toUInt32.toNat = depth - o := by
      show (UInt32.ofNat (depth - o)).toNat = depth - o
      rw [UInt32.toNat_ofNat', Nat.mod_eq_of_lt (by omega)]
    refine ⟨⟨⟨hdest, fun _ => ?_⟩, trivial⟩, rfl, ?_⟩
    · rw [hdisp]
      omega
    · show max depth depth ≤ depth
      omega

theorem setAt_cases {α β : Type} (f : α → Option β) {g : Nat → α} {i j : Nat} {a : α} {b : β}
    (h : f (setAt g i a j) = some b) : j = i ∧ f a = some b ∨ j ≠ i ∧ f (g j) = some b := by
  by_cases hji : j = i
  · rw [hji, setAt_self] at h
    exact .inl ⟨hji, h⟩
  · rw [setAt_of_ne _ _ hji] at h
    exact .inr ⟨hji, h⟩

namespace Allocator

section
variable {a : Allocator} {i j : Nat} {r s : Register}

theorem register?_spilled (hi : (a.place i).register? = some r)
    (hj : ((a.spilled i r).place j).register? = some s) :
    j ≠ i ∧ (a.place j).register? = some s := by
  rw [place_spilled hi] at hj
  obtain ⟨-, hj⟩ | hj := setAt_cases Place.register? hj
  · rw [Place.register?_pushed] at hj
    cases hj
  · exact hj

theorem slot?_spilled (hi : (a.place i).register? = some r) {o : Nat}
    (hj : ((a.spilled i r).place j).slot? = some o) :
    j = i ∧ o = a.depth + 8 ∨ j ≠ i ∧ (a.place j).slot? = some o := by
  rw [place_spilled hi] at hj
  obtain ⟨hji, hj⟩ | hj := setAt_cases Place.slot? hj
  · rw [Place.slot?_pushed hi] at hj
    exact .inl ⟨hji, (Option.some.inj hj).symm⟩
  · exact .inr hj

theorem slot?_setPlace {p : Place} (hi : i < a.places.size) (hslot : p.slot? = none) {o : Nat}
    (hj : ((a.setPlace i p).place j).slot? = some o) : j ≠ i ∧ (a.place j).slot? = some o := by
  rw [place_setPlace hi] at hj
  obtain ⟨-, hj⟩ | hj := setAt_cases Place.slot? hj
  · rw [hslot] at hj
    cases hj
  · exact hj

end

/-- The registers are free, held or claimed, and the slots of operands are apart. -/
structure Partitioned (e : Engine) (claimed : RegisterSet) (a : Allocator) : Prop where
  engine : a.allocatable = e.allocatable
  free : ∀ {r}, a.available.contains r = true →
    a.allocatable.contains r = true ∧ claimed.contains r = false
  held : ∀ {i r}, (a.place i).register? = some r →
    a.allocatable.contains r = true ∧ a.available.contains r = false ∧ claimed.contains r = false
  claim : ∀ {r}, claimed.contains r = true → a.allocatable.contains r = true
  covered : ∀ {r}, a.allocatable.contains r = true →
    a.available.contains r = true ∨ (∃ i, (a.place i).register? = some r) ∨
      claimed.contains r = true
  register : ∀ {i j r}, (a.place i).register? = some r → (a.place j).register? = some r → i = j
  slot : ∀ {i o}, (a.place i).slot? = some o → 0 < o ∧ 8 ∣ o ∧ o ≤ a.depth
  apart : ∀ {i j o}, (a.place i).slot? = some o → (a.place j).slot? = some o → i = j
  aligned : 8 ∣ a.depth
  depth_le : a.depth ≤ a.maxDepth
  bounded : a.depth < 2 ^ 32

namespace Partitioned

variable {e : Engine} {claimed : RegisterSet} {a a' : Allocator} {i : Nat} {r : Register}

theorem usable (h : a.Partitioned e claimed) (hr : a.allocatable.contains r = true) :
    r ≠ .rsp ∧ r ≠ stubRegister ∧ r ≠ scratchRegister := by
  exact usable_of_allocatable (h.engine ▸ hr)

/-- Only the places, the free registers and the depth matter. -/
theorem of_eq (h : a.Partitioned e claimed) (hall : a'.allocatable = a.allocatable)
    (hav : a'.available = a.available) (hplace : a'.place = a.place) (hdepth : a'.depth = a.depth)
    (hmax : a'.maxDepth = a.maxDepth) : a'.Partitioned e claimed where
  engine := hall.trans h.engine
  free hr := by
    rw [hav] at hr
    rw [hall]
    exact h.free hr
  held hi := by
    rw [hplace] at hi
    rw [hall, hav]
    exact h.held hi
  claim hr := hall ▸ h.claim hr
  covered hr := by
    rw [hall] at hr
    rw [hav, hplace]
    exact h.covered hr
  register hi hj := by
    rw [hplace] at hi hj
    exact h.register hi hj
  slot hi := by
    rw [hplace] at hi
    rw [hdepth]
    exact h.slot hi
  apart hi hj := by
    rw [hplace] at hi hj
    exact h.apart hi hj
  aligned := hdepth ▸ h.aligned
  depth_le := by
    rw [hdepth, hmax]
    exact h.depth_le
  bounded := hdepth ▸ h.bounded

theorem deepen (h : a.Partitioned e claimed) {depth : Nat} (hle : a.depth ≤ depth)
    (haligned : 8 ∣ depth) (hlt : depth < 2 ^ 32) :
    ({ a with depth, maxDepth := depth } : Allocator).Partitioned e claimed where
  engine := h.engine
  free := h.free
  held := h.held
  claim := h.claim
  covered := h.covered
  register := h.register
  slot hi := ⟨(h.slot hi).1, (h.slot hi).2.1, Nat.le_trans (h.slot hi).2.2 hle⟩
  apart := h.apart
  aligned := haligned
  depth_le := Nat.le_refl _
  bounded := hlt

theorem yields (h : a.Partitioned e claimed) (hy : a.Yields a') : a'.Partitioned e claimed := by
  have hall := hy.continues.allocatable
  have hdepth : a'.depth = a.depth ∧ a'.maxDepth = a.maxDepth := by
    rw [hy.frame]
    exact ⟨rfl, rfl⟩
  have hslot : ∀ {i o}, (a'.place i).slot? = some o → (a.place i).slot? = some o := by
    intro i o hi
    obtain he | he := hy.place_eq_or i <;> rw [he] at hi
    · exact hi
    · cases hi
  refine ⟨hall.trans h.engine, fun {r} hr => ?_, fun {i r} hi => ?_, fun hr => hall ▸ h.claim hr,
    fun {r} hr => ?_, fun hi hj => h.register (hy.register? hi) (hy.register? hj),
    fun hi => hdepth.1 ▸ h.slot (hslot hi), fun hi hj => h.apart (hslot hi) (hslot hj),
    hdepth.1 ▸ h.aligned, by rw [hdepth.1, hdepth.2]; exact h.depth_le, hdepth.1 ▸ h.bounded⟩
  · rw [hall]
    obtain hr | ⟨i, hi, -⟩ := (hy.available r).mp hr
    · exact h.free hr
    · exact ⟨(h.held hi).1, (h.held hi).2.2⟩
  · obtain ⟨hra, hrf, hrc⟩ := h.held (hy.register? hi)
    refine ⟨hall ▸ hra, ?_, hrc⟩
    rw [← Bool.not_eq_true, hy.available, not_or]
    refine ⟨by rw [hrf]; decide, ?_⟩
    rintro ⟨j, hj, hn⟩
    rw [h.register hj (hy.register? hi)] at hn
    rw [hn] at hi
    cases hi
  · rw [hy.available]
    obtain hr | ⟨i, hi⟩ | hr := h.covered (hall ▸ hr)
    · exact .inl (.inl hr)
    · obtain he | he := hy.place_eq_or i
      · exact .inr (.inl ⟨i, he.symm ▸ hi⟩)
      · exact .inl (.inr ⟨i, hi, he⟩)
    · exact .inr (.inr hr)

/-- The operand in a register is pushed. Its slot is deeper than all the others. -/
theorem spilled (h : a.Partitioned e claimed) (hi : (a.place i).register? = some r)
    (hlt : a.depth + 8 < 2 ^ 32) : (a.spilled i r).Partitioned e claimed where
  engine := h.engine
  free {s} hs := by
    simp only [Allocator.spilled, RegisterSet.contains_insert, Bool.or_eq_true,
      decide_eq_true_eq] at hs
    obtain hs | rfl := hs
    · exact h.free hs
    · exact ⟨(h.held hi).1, (h.held hi).2.2⟩
  held {j s} hj := by
    obtain ⟨hji, hj⟩ := register?_spilled hi hj
    have hne : r ≠ s := fun he => hji (h.register hj (he ▸ hi))
    exact ⟨(h.held hj).1, by simp [Allocator.spilled, (h.held hj).2.1, hne], (h.held hj).2.2⟩
  claim := h.claim
  covered {s} hs := by
    by_cases hrs : r = s
    · exact .inl (by simp [Allocator.spilled, hrs])
    · obtain hs | ⟨j, hj⟩ | hs := h.covered hs
      · exact .inl (by simp [Allocator.spilled, hs])
      · have hji : j ≠ i := fun he => hrs (Option.some.inj (hi.symm.trans (he ▸ hj)))
        exact .inr (.inl ⟨j, by rw [place_spilled hi, setAt_of_ne _ _ hji]; exact hj⟩)
      · exact .inr (.inr hs)
  register hj hk := h.register (register?_spilled hi hj).2 (register?_spilled hi hk).2
  slot {j o} hj := by
    show 0 < o ∧ 8 ∣ o ∧ o ≤ a.depth + 8
    have haligned := h.aligned
    obtain ⟨-, rfl⟩ | ⟨-, hj⟩ := slot?_spilled hi hj
    · omega
    · have := h.slot hj
      omega
  apart {j k o} hj hk := by
    obtain ⟨hji, ho⟩ | ⟨-, hj⟩ := slot?_spilled hi hj <;>
      obtain ⟨hki, ho'⟩ | ⟨-, hk⟩ := slot?_spilled hi hk
    · rw [hji, hki]
    · have := (h.slot hk).2.2
      omega
    · have := (h.slot hj).2.2
      omega
    · exact h.apart hj hk
  aligned := (Nat.dvd_add_right h.aligned).mpr (Nat.dvd_refl 8)
  depth_le := Nat.le_max_right _ _
  bounded := hlt

theorem take (h : a.Partitioned e claimed) (hr : a.available.contains r = true) :
    (a.take r).Partitioned e (claimed.insert r) where
  engine := h.engine
  free {s} hs := by
    simp only [Allocator.take, RegisterSet.contains_erase, Bool.and_eq_true, Bool.not_eq_true',
      decide_eq_false_iff_not] at hs
    exact ⟨(h.free hs.1).1, by simp [(h.free hs.1).2, hs.2]⟩
  held {j s} hj := by
    have hne : r ≠ s := fun he => by
      rw [he, (h.held hj).2.1] at hr
      cases hr
    exact ⟨(h.held hj).1, by simp [Allocator.take, (h.held hj).2.1],
      by simp [(h.held hj).2.2, hne]⟩
  claim {s} hs := by
    rw [RegisterSet.contains_insert, Bool.or_eq_true, decide_eq_true_eq] at hs
    obtain hs | rfl := hs
    · exact h.claim hs
    · exact (h.free hr).1
  covered {s} hs := by
    by_cases hrs : r = s
    · exact .inr (.inr (by simp [hrs]))
    · obtain hs | hs | hs := h.covered hs
      · exact .inl (by simp [Allocator.take, hs, hrs])
      · exact .inr (.inl hs)
      · exact .inr (.inr (by simp [hs]))
  register := h.register
  slot := h.slot
  apart := h.apart
  aligned := h.aligned
  depth_le := h.depth_le
  bounded := h.bounded

theorem release (h : a.Partitioned e claimed) (hr : claimed.contains r = true) :
    (a.free r).Partitioned e (claimed.erase r) where
  engine := h.engine
  free {s} hs := by
    simp only [Allocator.free, RegisterSet.contains_insert, Bool.or_eq_true,
      decide_eq_true_eq] at hs
    obtain hs | rfl := hs
    · exact ⟨(h.free hs).1, by simp [(h.free hs).2]⟩
    · exact ⟨h.claim hr, by simp⟩
  held {j s} hj := by
    have hne : r ≠ s := fun he => by
      rw [he, (h.held hj).2.2] at hr
      cases hr
    exact ⟨(h.held hj).1, by simp [Allocator.free, (h.held hj).2.1, hne],
      by simp [(h.held hj).2.2]⟩
  claim {s} hs := by
    rw [RegisterSet.contains_erase, Bool.and_eq_true] at hs
    exact h.claim hs.1
  covered {s} hs := by
    by_cases hrs : r = s
    · exact .inl (by simp [Allocator.free, hrs])
    · obtain hs | hs | hs := h.covered hs
      · exact .inl (by simp [Allocator.free, hs])
      · exact .inr (.inl hs)
      · exact .inr (.inr (by simp [hs, hrs]))
  register := h.register
  slot := h.slot
  apart := h.apart
  aligned := h.aligned
  depth_le := h.depth_le
  bounded := h.bounded

/-- An operand changes its form: it stays in its register, or had no place and becomes a
constant. -/
theorem convert (h : a.Partitioned e claimed) {p : Place} (hi : i < a.places.size)
    (hreg : p.register? = (a.place i).register?) (hslot : p.slot? = none) :
    (a.setPlace i p).Partitioned e claimed := by
  have hplace := place_setPlace hi p
  have hr : ∀ j, ((a.setPlace i p).place j).register? = (a.place j).register? := by
    intro j
    rw [hplace]
    by_cases hji : j = i
    · rw [hji, setAt_self, hreg]
    · rw [setAt_of_ne _ _ hji]
  refine ⟨h.engine, h.free, fun {j s} hj => h.held (hr j ▸ hj), h.claim, fun {s} hall => ?_,
    fun {j k s} hj hk => h.register (hr j ▸ hj) (hr k ▸ hk),
    fun hj => h.slot (slot?_setPlace hi hslot hj).2,
    fun hj hk => h.apart (slot?_setPlace hi hslot hj).2 (slot?_setPlace hi hslot hk).2, h.aligned,
    h.depth_le, h.bounded⟩
  obtain hav | ⟨j, hj⟩ | hc := h.covered hall
  · exact .inl hav
  · exact .inr (.inl ⟨j, (hr j).trans hj⟩)
  · exact .inr (.inr hc)

theorem claimed_of_contains (h : a.Partitioned e claimed) (hr : claimed.contains r = true) :
    a.Claimed r where
  notFree := by
    rw [← Bool.not_eq_true]
    intro hav
    rw [(h.free hav).2] at hr
    cases hr
  notHeld i hi := by
    rw [(h.held hi).2.2] at hr
    cases hr

theorem register?_move (h : a.Partitioned e claimed) {p : Place} {depth j : Nat} {s : Register}
    (hi : i < a.places.size) (hreg : p.register? = some r) (hr : claimed.contains r = true)
    (hj : ((a.move i p depth).place j).register? = some s) :
    j = i ∧ s = r ∨ (a.place j).register? = some s ∧ r ≠ s := by
  rw [place_move hi] at hj
  obtain ⟨hji, hj⟩ | ⟨-, hj⟩ := setAt_cases Place.register? hj
  · rw [hreg] at hj
    exact .inl ⟨hji, (Option.some.inj hj).symm⟩
  · exact .inr ⟨hj, fun he => (h.claimed_of_contains hr).notHeld j (he ▸ hj)⟩

/-- An operand that is not in a register moves into a claimed one, and the stack may get lower. -/
theorem fill (h : a.Partitioned e claimed) {p : Place} {depth : Nat} (hi : i < a.places.size)
    (hout : (a.place i).register? = none) (hreg : p.register? = some r) (hslot : p.slot? = none)
    (hr : claimed.contains r = true) (haligned : 8 ∣ depth) (hdepth : depth ≤ a.depth)
    (hslots : ∀ j o, j ≠ i → (a.place j).slot? = some o → o ≤ depth) :
    (a.move i p depth).Partitioned e (claimed.erase r) where
  engine := h.engine
  free {s} hav := ⟨(h.free hav).1, by simp [(h.free hav).2]⟩
  held {j s} hj := by
    obtain ⟨-, rfl⟩ | ⟨hj, -⟩ := h.register?_move hi hreg hr hj
    · exact ⟨h.claim hr, (h.claimed_of_contains hr).notFree, by simp⟩
    · exact ⟨(h.held hj).1, (h.held hj).2.1, by simp [(h.held hj).2.2]⟩
  claim {s} hc := by
    rw [RegisterSet.contains_erase, Bool.and_eq_true] at hc
    exact h.claim hc.1
  covered {s} hall := by
    by_cases hrs : r = s
    · exact .inr (.inl ⟨i, by rw [place_move hi, setAt_self, hreg, hrs]⟩)
    · obtain hav | ⟨j, hj⟩ | hc := h.covered hall
      · exact .inl hav
      · have hji : j ≠ i := fun he => by
          rw [he, hout] at hj
          cases hj
        exact .inr (.inl ⟨j, by rw [place_move hi, setAt_of_ne _ _ hji]; exact hj⟩)
      · exact .inr (.inr (by simp [hc, hrs]))
  register {j k s} hj hk := by
    obtain ⟨hji, hs⟩ | ⟨hj, hne⟩ := h.register?_move hi hreg hr hj <;>
      obtain ⟨hki, hs'⟩ | ⟨hk, hne'⟩ := h.register?_move hi hreg hr hk
    · rw [hji, hki]
    · exact absurd hs.symm hne'
    · exact absurd hs'.symm hne
    · exact h.register hj hk
  slot {j o} hj := by
    obtain ⟨hji, hj⟩ := slot?_setPlace hi hslot hj
    exact ⟨(h.slot hj).1, (h.slot hj).2.1, hslots j o hji hj⟩
  apart hj hk := h.apart (slot?_setPlace hi hslot hj).2 (slot?_setPlace hi hslot hk).2
  aligned := haligned
  depth_le := Nat.le_trans hdepth h.depth_le
  bounded := Nat.lt_of_le_of_lt hdepth h.bounded

end Partitioned

/-! ## Code in step with the allocator -/

/-- The code leads from the depth that one allocator knows to the depth that the other one knows,
and the greatest depth on the way is remembered. It does not branch. -/
structure Climbs (a : Allocator) (c : Snippet.Code) (a' : Allocator) : Prop where
  levels : Levels (fun _ _ => False) a.depth c
  depth : depthBehind a.depth c = a'.depth
  peak : max a.maxDepth (X64.peak a.depth c) = a'.maxDepth

/-- Code was written, and the registers are shared out behind it. -/
structure Keeps (a : Allocator) (e : Engine) (c : Snippet.Code) (claimed : RegisterSet)
    (a' : Allocator) : Prop where
  partitioned : a'.Partitioned e claimed
  continues : a.Continues a'
  climbs : a.Climbs c a'

section
variable {a a' a'' : Allocator} {c c' : Snippet.Code} {e : Engine}
  {claimed claimed' : RegisterSet}

theorem Climbs.trans (h : a.Climbs c a') (h' : a'.Climbs c' a'') : a.Climbs (c ++ c') a'' where
  levels := levels_append.mpr ⟨h.levels, h.depth ▸ h'.levels⟩
  depth := by rw [depthBehind_append, h.depth, h'.depth]
  peak := by rw [peak_append, ← Nat.max_assoc, h.peak, h.depth, h'.peak]

theorem Climbs.of_plain (hc : Plain c) (hle : a.depth ≤ a.maxDepth)
    (hdepth : a'.depth = a.depth) (hmax : a'.maxDepth = a.maxDepth) : a.Climbs c a' := by
  obtain ⟨hlevels, hbehind, hpeak⟩ := hc.flat.levels
  exact ⟨hlevels, hbehind.trans hdepth.symm, by rw [hpeak, hmax, Nat.max_eq_left hle]⟩

theorem climbs_spilled (i : Nat) (r : Register) : a.Climbs [.push r] (a.spilled i r) where
  levels := ⟨⟨fun h => (by cases h), trivial⟩, trivial⟩
  depth := rfl
  peak := by
    show max a.maxDepth (max a.depth (a.depth + 8)) = max a.maxDepth (a.depth + 8)
    rw [Nat.max_eq_right (Nat.le_add_right a.depth 8)]

theorem Partitioned.climbs_reload (h : a.Partitioned e claimed) {r : Register} (hr : r ≠ .rsp)
    {o : Nat} (hpos : 0 < o) (hdvd : 8 ∣ o) (hle : o ≤ a.depth) :
    a.Climbs (Emit.reloadCode r o a.depth) { a with depth := Emit.reloadDepth o a.depth } := by
  have hleads := Emit.leads_reload hr hpos hdvd hle h.aligned h.bounded
  have hpeak : X64.peak a.depth (Emit.reloadCode r o a.depth) ≤ a.maxDepth :=
    Nat.le_trans hleads.below h.depth_le
  exact ⟨hleads.levels, hleads.behind, Nat.max_eq_left hpeak⟩

theorem Keeps.trans (h : a.Keeps e c claimed a') (h' : a'.Keeps e c' claimed' a'') :
    a.Keeps e (c ++ c') claimed' a'' :=
  ⟨h'.partitioned, h.continues.trans h'.continues, h.climbs.trans h'.climbs⟩

end

end Allocator
end InlineCache
