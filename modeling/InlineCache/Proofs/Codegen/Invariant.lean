import InlineCache.Proofs.Codegen.Realizes
import Mathlib.Data.List.Perm.Subperm

/-!
# The allocator's invariant

What holds of the allocator while a program is compiled. `Allocator.Sound` is the part that every
step keeps: operands do not overlap, no operand is in a register that is free, every register is
free, held by an operand or taken by the current instruction, and every operand that a later
instruction reads has a place. It is stated for the number of operands defined so far and for the
registers that the current instruction has taken.

The lemmas go through the few ways in which the allocator changes: dead operands give their places
up, an operand is pushed, a register is taken or given back, an operand moves into a register that
was taken for it.
-/

namespace InlineCache

open X64

namespace Allocator

/-- Where an operand is. -/
def place (a : Allocator) (i : Nat) : Place :=
  a.places.getD i .uninitialized

/-- The register is neither free nor held by an operand. -/
structure Claimed (a : Allocator) (r : Register) : Prop where
  notFree : a.available.contains r = false
  notHeld : ∀ i, (a.place i).register? ≠ some r

/-- What every step of allocation keeps, with `d` operands defined and the registers `taken`. -/
structure Sound (d : Nat) (taken : List Register) (a : Allocator) : Prop where
  arranged : Arranged a.place a.depth
  engine : ∃ e : Engine, a.allocatable = e.allocatable
  free : ∀ {r}, a.available.contains r = true → a.allocatable.contains r = true
  held : ∀ {i r}, (a.place i).register? = some r →
    a.allocatable.contains r = true ∧ a.available.contains r = false
  current : ∀ {r}, a.current.contains r = true → r ∈ taken
  covered : ∀ {r}, a.allocatable.contains r = true →
    a.available.contains r = true ∨ (∃ i, (a.place i).register? = some r) ∨ r ∈ taken
  placed : ∀ {i}, i < d → a.isDead i = false → a.place i ≠ .uninitialized
  fresh : ∀ {i}, d ≤ i → a.place i = .uninitialized
  numInputs_le : a.numInputs ≤ d
  le_size : d ≤ a.places.size
  depth_le : a.depth ≤ a.maxDepth

/-- The allocator works on the same program and the same instruction, and remembers the greatest
depth. -/
structure Continues (a a' : Allocator) : Prop where
  allocatable : a'.allocatable = a.allocatable
  numInputs : a'.numInputs = a.numInputs
  lastUsed : a'.lastUsed = a.lastUsed
  origins : a'.origins = a.origins
  size : a'.places.size = a.places.size
  instruction : a'.instruction = a.instruction
  deeper : a.maxDepth ≤ a'.maxDepth

namespace Continues

variable {a a' a'' : Allocator}

theorem refl (a : Allocator) : Continues a a :=
  ⟨rfl, rfl, rfl, rfl, rfl, rfl, Nat.le_refl _⟩

theorem trans (h : Continues a a') (h' : Continues a' a'') : Continues a a'' where
  allocatable := h'.allocatable.trans h.allocatable
  numInputs := h'.numInputs.trans h.numInputs
  lastUsed := h'.lastUsed.trans h.lastUsed
  origins := h'.origins.trans h.origins
  size := h'.size.trans h.size
  instruction := h'.instruction.trans h.instruction
  deeper := Nat.le_trans h.deeper h'.deeper

theorem isDead (h : Continues a a') (i : Nat) : a'.isDead i = a.isDead i := by
  rw [Allocator.isDead, Allocator.isDead, h.numInputs, h.lastUsed, h.instruction]

end Continues

/-! ## Registers of the engines -/

theorem usable_of_allocatable {e : Engine} {r : Register} (h : e.allocatable.contains r = true) :
    r ≠ .rsp ∧ r ≠ stubRegister ∧ r ≠ scratchRegister := by
  revert h
  cases e <;> cases r <;> decide

theorem allocatable_of_mem (e : Engine) {r : Register} (h : r ∈ [.rax, .rcx, .rsi, .rdi]) :
    e.allocatable.contains r = true := by
  revert h
  cases e <;> cases r <;> decide

/-- Three registers are not all that an engine has. -/
theorem exists_not_mem {taken : List Register} (h : taken.length ≤ 3) :
    ∃ r ∈ ([.rax, .rcx, .rsi, .rdi] : List Register), r ∉ taken := by
  by_contra hall
  have hsub : ([.rax, .rcx, .rsi, .rdi] : List Register) ⊆ taken := fun r hr =>
    Classical.byContradiction fun hn => hall ⟨r, hr, hn⟩
  have := (List.Nodup.subperm (by decide) hsub).length_le
  simp only [List.length_cons, List.length_nil] at this
  omega

/-! ## Places -/

section
variable {a : Allocator}

theorem place_of_size_le {i : Nat} (h : a.places.size ≤ i) : a.place i = .uninitialized := by
  simp [place, Array.getD_eq_getD_getElem?, h]

theorem lt_size_of_place_ne {i : Nat} (h : a.place i ≠ .uninitialized) : i < a.places.size :=
  Nat.lt_of_not_le fun hle => h (place_of_size_le hle)

theorem lt_size_of_register? {i : Nat} {r : Register} (h : (a.place i).register? = some r) :
    i < a.places.size :=
  lt_size_of_place_ne fun he => by rw [he] at h; cases h

theorem getElem?_places {i : Nat} (h : i < a.places.size) : a.places[i]? = some (a.place i) := by
  simp [place, Array.getD_eq_getD_getElem?, h]

theorem place_setIfInBounds {i : Nat} (h : i < a.places.size) (p : Place) :
    (fun j => (a.places.setIfInBounds i p).getD j .uninitialized) = setAt a.place i p := by
  funext j
  by_cases hj : j = i
  · subst hj
    simp [Array.getD_eq_getD_getElem?, h]
  · rw [setAt_of_ne _ _ hj]
    simp [place, Array.getD_eq_getD_getElem?, Ne.symm hj]

theorem place_setPlace {i : Nat} (h : i < a.places.size) (p : Place) :
    (a.setPlace i p).place = setAt a.place i p :=
  place_setIfInBounds h p

theorem size_setPlace (i : Nat) (p : Place) : (a.setPlace i p).places.size = a.places.size :=
  Array.size_setIfInBounds

end

/-! ## Dead operands -/

/-- Some dead operands have given their places up, and nothing else has changed. -/
structure Yields (a a' : Allocator) : Prop where
  frame : a' = { a with places := a'.places, available := a'.available }
  size : a'.places.size = a.places.size
  place : ∀ i, a'.place i = a.place i ∨ a.isDead i = true ∧ a'.place i = .uninitialized
  available : ∀ r, a'.available.contains r = true ↔ a.available.contains r = true ∨
    ∃ i, (a.place i).register? = some r ∧ a'.place i = .uninitialized

namespace Yields

variable {a a' a'' : Allocator}

theorem refl (a : Allocator) : Yields a a where
  frame := rfl
  size := rfl
  place _ := .inl rfl
  available r := by
    refine ⟨.inl, fun h => h.resolve_right fun ⟨i, hi, hn⟩ => ?_⟩
    rw [hn] at hi
    cases hi

theorem isDead (h : Yields a a') (i : Nat) : a'.isDead i = a.isDead i := by
  rw [h.frame]
  rfl

theorem trans (h : Yields a a') (h' : Yields a' a'') : Yields a a'' where
  frame := by rw [h'.frame, h.frame]
  size := h'.size.trans h.size
  place i := by
    obtain h₂ | ⟨hd, h₂⟩ := h'.place i
    · rw [h₂]
      exact h.place i
    · exact .inr ⟨(h.isDead i).symm.trans hd, h₂⟩
  available r := by
    rw [h'.available, h.available]
    constructor
    · rintro ((hr | ⟨i, hi, hn⟩) | ⟨i, hi, hn⟩)
      · exact .inl hr
      · refine .inr ⟨i, hi, ?_⟩
        obtain h₂ | ⟨_, h₂⟩ := h'.place i
        · rw [h₂, hn]
        · exact h₂
      · obtain h₁ | ⟨_, h₁⟩ := h.place i
        · exact .inr ⟨i, h₁ ▸ hi, hn⟩
        · rw [h₁] at hi
          cases hi
    · rintro (hr | ⟨i, hi, hn⟩)
      · exact .inl (.inl hr)
      · obtain h₁ | ⟨_, h₁⟩ := h.place i
        · exact .inr ⟨i, h₁.symm ▸ hi, hn⟩
        · exact .inl (.inr ⟨i, hi, h₁⟩)

theorem continues (h : Yields a a') : Continues a a' := by
  refine ⟨?_, ?_, ?_, ?_, h.size, ?_, Nat.le_of_eq ?_⟩ <;> rw [h.frame]

/-- What an operand that is read again loses: nothing. -/
theorem place_of_not_dead (h : Yields a a') {i : Nat} (hi : a.isDead i = false) :
    a'.place i = a.place i := by
  obtain he | ⟨hd, _⟩ := h.place i
  · exact he
  · rw [hi] at hd
    cases hd

theorem place_eq_or (h : Yields a a') (i : Nat) :
    a'.place i = a.place i ∨ a'.place i = .uninitialized :=
  (h.place i).imp_right And.right

/-- An operand that still is in a register is where it was. -/
theorem register? (h : Yields a a') {i : Nat} {r : Register}
    (hi : (a'.place i).register? = some r) : (a.place i).register? = some r := by
  obtain he | he := h.place_eq_or i <;> rw [he] at hi
  · exact hi
  · cases hi

theorem claimed (h : Yields a a') {r : Register} (hr : a.Claimed r) : a'.Claimed r where
  notFree := by
    rw [← Bool.not_eq_true, h.available, not_or]
    exact ⟨by rw [hr.notFree]; decide, fun ⟨i, hi, _⟩ => hr.notHeld i hi⟩
  notHeld i hi := hr.notHeld i (h.register? hi)

theorem sound (h : Yields a a') {d : Nat} {taken : List Register} (hs : a.Sound d taken) :
    a'.Sound d taken := by
  have hdepth : a'.depth = a.depth ∧ a'.maxDepth = a.maxDepth := by
    rw [h.frame]
    exact ⟨rfl, rfl⟩
  have halloc := h.continues.allocatable
  have hcurrent : a'.current = a.current := by rw [h.frame]
  constructor
  · rw [hdepth.1]
    exact hs.arranged.forget h.place_eq_or
  · rw [halloc]
    exact hs.engine
  · intro r hr
    rw [halloc]
    obtain hr | ⟨i, hi, _⟩ := (h.available r).mp hr
    · exact hs.free hr
    · exact (hs.held hi).1
  · intro i r hi
    refine ⟨halloc ▸ (hs.held (h.register? hi)).1, ?_⟩
    rw [← Bool.not_eq_true, h.available, not_or]
    refine ⟨by rw [(hs.held (h.register? hi)).2]; decide, fun ⟨j, hj, hn⟩ => ?_⟩
    rw [hs.arranged.register hj (h.register? hi)] at hn
    rw [hn] at hi
    cases hi
  · intro r hr
    exact hs.current (hcurrent ▸ hr)
  · intro r hr
    rw [h.available]
    obtain hr | ⟨i, hi⟩ | hr := hs.covered (halloc ▸ hr)
    · exact .inl (.inl hr)
    · obtain he | he := h.place_eq_or i
      · exact .inr (.inl ⟨i, he.symm ▸ hi⟩)
      · exact .inl (.inr ⟨i, hi, he⟩)
    · exact .inr (.inr hr)
  · intro i hi hd
    rw [h.isDead] at hd
    rw [h.place_of_not_dead hd]
    exact hs.placed hi hd
  · intro i hi
    obtain he | he := h.place_eq_or i
    · exact he.trans (hs.fresh hi)
    · exact he
  · rw [h.continues.numInputs]
    exact hs.numInputs_le
  · rw [h.size]
    exact hs.le_size
  · rw [hdepth.1, hdepth.2]
    exact hs.depth_le

end Yields

theorem yields_reclaim (a : Allocator) (i : Nat) : a.Yields (a.reclaim i) := by
  rw [reclaim]
  by_cases hd : a.isDead i = true
  · rw [if_pos hd]
    rw [show a.places.getD i .uninitialized = a.place i from rfl]
    -- The register of the operand, if it is in one, becomes free.
    have hset : ∀ (hi : i < a.places.size) (available : RegisterSet),
        (∀ r, available.contains r = true ↔ a.available.contains r = true ∨
          (a.place i).register? = some r) →
        a.Yields { a.setPlace i .uninitialized with available } := by
      intro hi available hav
      have hplace : ({ a.setPlace i .uninitialized with available } : Allocator).place =
          setAt a.place i .uninitialized := place_setPlace hi _
      refine ⟨rfl, size_setPlace _ _, fun j => ?_, fun r => ?_⟩
      · rw [hplace]
        by_cases hj : j = i
        · exact .inr ⟨hj ▸ hd, by rw [hj, setAt_self]⟩
        · exact .inl (setAt_of_ne _ _ hj)
      · rw [hplace, hav r]
        refine or_congr_right ⟨fun hr => ⟨i, hr, setAt_self _ _ _⟩, fun ⟨j, hj, hn⟩ => ?_⟩
        by_cases hji : j = i
        · exact hji ▸ hj
        · rw [setAt_of_ne _ _ hji] at hn
          rw [hn] at hj
          cases hj
    split
    · exact Yields.refl a
    · next hne =>
        have hi : i < a.places.size := lt_size_of_place_ne hne
        dsimp only
        split
        · next r hr => exact hset hi _ fun s => by simp [setPlace, hr]
        · next hr => exact hset hi _ fun s => by simp [hr]
  · rw [if_neg hd]
    exact Yields.refl a

theorem yields_reclaimDead (a : Allocator) : a.Yields a.reclaimDead := by
  rw [reclaimDead]
  generalize List.range a.places.size = indices
  induction indices generalizing a with
  | nil => exact Yields.refl a
  | cons i indices ih => exact (yields_reclaim a i).trans (ih _)

theorem Yields.ite {a b c : Allocator} {p : Prop} [Decidable p] (hb : a.Yields b)
    (hc : a.Yields c) : a.Yields (if p then b else c) := by
  split
  · exact hb
  · exact hc

/-! ## Registers change hands -/

/-- A word was pushed. -/
def pushed (a : Allocator) : Allocator :=
  { a with depth := a.depth + 8, maxDepth := max a.maxDepth (a.depth + 8) }

/-- The operand in a register is pushed, and the register is free. -/
def spilled (a : Allocator) (i : Nat) (r : Register) : Allocator :=
  { a.pushed with
    places := a.places.setIfInBounds i ((a.place i).pushed (a.depth + 8))
    available := a.available.insert r }

/-- A free register is taken for the current instruction. -/
def take (a : Allocator) (r : Register) : Allocator :=
  { a with available := a.available.erase r, current := a.current.insert r }

/-- A register is given back. -/
def free (a : Allocator) (r : Register) : Allocator :=
  { a with available := a.available.insert r }

/-- An operand moves, and the stack has another depth. -/
def move (a : Allocator) (i : Nat) (p : Place) (depth : Nat) : Allocator :=
  { a.setPlace i p with depth }

section
variable {a : Allocator} {d : Nat} {taken : List Register} {i : Nat} {r : Register}

theorem place_spilled (hi : (a.place i).register? = some r) :
    (a.spilled i r).place = setAt a.place i ((a.place i).pushed (a.depth + 8)) :=
  place_setIfInBounds (lt_size_of_register? hi) _

theorem continues_spilled : Continues a (a.spilled i r) :=
  ⟨rfl, rfl, rfl, rfl, Array.size_setIfInBounds, rfl, Nat.le_max_left _ _⟩

theorem claimed_spilled (hi : (a.place i).register? = some r) {s : Register} (hs : a.Claimed s) :
    (a.spilled i r).Claimed s where
  notFree := by
    have hne : r ≠ s := fun h => hs.notHeld i (h ▸ hi)
    simp [spilled, hs.notFree, hne]
  notHeld j := by
    rw [place_spilled hi]
    by_cases hj : j = i
    · rw [hj, setAt_self, Place.register?_pushed]
      exact nofun
    · rw [setAt_of_ne _ _ hj]
      exact hs.notHeld j

theorem Sound.spilled (hs : a.Sound d taken) (hi : (a.place i).register? = some r) :
    (a.spilled i r).Sound d taken := by
  have hplace := place_spilled hi
  have hother : ∀ {j s}, ((a.spilled i r).place j).register? = some s →
      (a.place j).register? = some s ∧ j ≠ i := by
    intro j s hj
    rw [hplace] at hj
    by_cases hji : j = i
    · rw [hji, setAt_self, Place.register?_pushed] at hj
      cases hj
    · rw [setAt_of_ne _ _ hji] at hj
      exact ⟨hj, hji⟩
  constructor
  · rw [hplace]
    exact hs.arranged.push hi
  · exact hs.engine
  · intro s hfree
    simp only [Allocator.spilled, RegisterSet.contains_insert, Bool.or_eq_true,
      decide_eq_true_eq] at hfree
    obtain hfree | rfl := hfree
    · exact hs.free hfree
    · exact (hs.held hi).1
  · intro j s hj
    obtain ⟨hj, hji⟩ := hother hj
    have hne : r ≠ s := fun h => hji (hs.arranged.register hj (h ▸ hi))
    exact ⟨(hs.held hj).1, by simp [Allocator.spilled, (hs.held hj).2, hne]⟩
  · exact hs.current
  · intro s hall
    by_cases hrs : r = s
    · exact .inl (by simp [Allocator.spilled, hrs])
    · obtain hfree | ⟨j, hj⟩ | htaken := hs.covered hall
      · exact .inl (by simp [Allocator.spilled, hfree])
      · have hji : j ≠ i := fun h => hrs (Option.some.inj (hi.symm.trans (h ▸ hj)))
        exact .inr (.inl ⟨j, by rw [hplace, setAt_of_ne _ _ hji]; exact hj⟩)
      · exact .inr (.inr htaken)
  · intro j hj hdead
    rw [hplace]
    by_cases hji : j = i
    · rw [hji, setAt_self]
      intro h
      have := Place.slot?_pushed (o := a.depth + 8) hi
      rw [h] at this
      cases this
    · rw [setAt_of_ne _ _ hji]
      exact hs.placed hj hdead
  · intro j hj
    have hji : j ≠ i := fun h => by
      rw [← h, hs.fresh hj] at hi
      cases hi
    rw [hplace, setAt_of_ne _ _ hji]
    exact hs.fresh hj
  · exact hs.numInputs_le
  · rw [continues_spilled.size]
    exact hs.le_size
  · exact Nat.le_max_right _ _

theorem continues_take : Continues a (a.take r) :=
  ⟨rfl, rfl, rfl, rfl, rfl, rfl, Nat.le_refl _⟩

theorem Sound.take (hs : a.Sound d taken) : (a.take r).Sound d (r :: taken) where
  arranged := hs.arranged
  engine := hs.engine
  free {s} hfree := hs.free (by
    simp only [Allocator.take, RegisterSet.contains_erase, Bool.and_eq_true] at hfree
    exact hfree.1)
  held {j s} hj := ⟨(hs.held hj).1, by simp [Allocator.take, (hs.held hj).2]⟩
  current {s} hcur := by
    simp only [Allocator.take, RegisterSet.contains_insert, Bool.or_eq_true,
      decide_eq_true_eq] at hcur
    obtain hcur | rfl := hcur
    · exact List.mem_cons_of_mem _ (hs.current hcur)
    · exact List.mem_cons_self
  covered {s} hall := by
    by_cases hrs : r = s
    · exact .inr (.inr (hrs ▸ List.mem_cons_self))
    · obtain hfree | hheld | htaken := hs.covered hall
      · exact .inl (by simp [Allocator.take, hfree, hrs])
      · exact .inr (.inl hheld)
      · exact .inr (.inr (List.mem_cons_of_mem _ htaken))
  placed := hs.placed
  fresh := hs.fresh
  numInputs_le := hs.numInputs_le
  le_size := hs.le_size
  depth_le := hs.depth_le

theorem claimed_take (hfree : ∀ j, (a.place j).register? ≠ some r) : (a.take r).Claimed r where
  notFree := by simp [take]
  notHeld := hfree

theorem Claimed.take {s : Register} (hs : a.Claimed s) : (a.take r).Claimed s where
  notFree := by simp [Allocator.take, hs.notFree]
  notHeld := hs.notHeld

theorem Sound.reserve (hs : a.Sound d taken) : (a.reserve r).Sound d (r :: taken) where
  arranged := hs.arranged
  engine := hs.engine
  free := hs.free
  held := hs.held
  current {s} hcur := by
    simp only [Allocator.reserve, RegisterSet.contains_insert, Bool.or_eq_true,
      decide_eq_true_eq] at hcur
    obtain hcur | rfl := hcur
    · exact List.mem_cons_of_mem _ (hs.current hcur)
    · exact List.mem_cons_self
  covered hall := (hs.covered hall).imp_right fun h => h.imp_right (List.mem_cons_of_mem _)
  placed := hs.placed
  fresh := hs.fresh
  numInputs_le := hs.numInputs_le
  le_size := hs.le_size
  depth_le := hs.depth_le

theorem Sound.release (hs : a.Sound d taken) (hr : a.Claimed r)
    (hall : a.allocatable.contains r = true) : (a.free r).Sound d taken where
  arranged := hs.arranged
  engine := hs.engine
  free {s} hfree := by
    simp only [Allocator.free, RegisterSet.contains_insert, Bool.or_eq_true,
      decide_eq_true_eq] at hfree
    obtain hfree | rfl := hfree
    · exact hs.free hfree
    · exact hall
  held {j s} hj := by
    have hne : r ≠ s := fun h => hr.notHeld j (h ▸ hj)
    exact ⟨(hs.held hj).1, by simp [Allocator.free, (hs.held hj).2, hne]⟩
  current := hs.current
  covered {s} hs' := (hs.covered hs').imp_left fun h => by simp [Allocator.free, h]
  placed := hs.placed
  fresh := hs.fresh
  numInputs_le := hs.numInputs_le
  le_size := hs.le_size
  depth_le := hs.depth_le

theorem place_move (hi : i < a.places.size) (p : Place) (depth : Nat) :
    (a.move i p depth).place = setAt a.place i p :=
  place_setPlace hi p

theorem continues_move {p : Place} {depth : Nat} : Continues a (a.move i p depth) :=
  ⟨rfl, rfl, rfl, rfl, size_setPlace _ _, rfl, Nat.le_refl _⟩

/-- An operand that is defined already, or the next one, moves into a register that is claimed for
it or becomes a constant. -/
theorem Sound.move (hs : a.Sound d taken) {d' : Nat} {p : Place} {depth : Nat}
    (hd : d ≤ d') (hd' : d' ≤ a.places.size) (hi : i < d')
    (hnew : ∀ j, d ≤ j → j < d' → j = i)
    (hp : p ≠ .uninitialized) (hslot : p.slot? = none)
    (hreg : ∀ s, p.register? = some s → (a.place i).register? = some s ∨
      a.Claimed s ∧ a.allocatable.contains s = true)
    (hold : ∀ s, (a.place i).register? = some s → p.register? = some s)
    (hbox : ∀ t, p.payloadType? = some t → t.isBoxable = true)
    (hdepth : depth ≤ a.depth)
    (hslots : ∀ j o, j ≠ i → (a.place j).slot? = some o → o ≤ depth) :
    (a.move i p depth).Sound d' taken := by
  have hplace := place_move (Nat.lt_of_lt_of_le hi hd') p depth
  obtain ⟨e, he⟩ := hs.engine
  -- The register of the new place is fine: allocatable, not free, and no other operand is in it.
  have hgood : ∀ s, p.register? = some s → a.allocatable.contains s = true ∧
      a.available.contains s = false ∧ ∀ j, j ≠ i → (a.place j).register? ≠ some s := by
    intro s hps
    obtain hi' | ⟨hclaimed, hall⟩ := hreg s hps
    · exact ⟨(hs.held hi').1, (hs.held hi').2, fun j hj hjs => hj (hs.arranged.register hjs hi')⟩
    · exact ⟨hall, hclaimed.notFree, fun j _ => hclaimed.notHeld j⟩
  constructor
  · rw [hplace]
    refine hs.arranged.setAt (fun s hps => ⟨?_, (hgood s hps).2.2⟩) (fun o ho => ?_) hbox hslots
    · have := usable_of_allocatable (he ▸ (hgood s hps).1)
      exact ⟨this.1, this.2.2⟩
    · rw [hslot] at ho
      cases ho
  · exact hs.engine
  · exact hs.free
  · intro j s hj
    rw [hplace] at hj
    by_cases hji : j = i
    · rw [hji, setAt_self] at hj
      exact ⟨(hgood s hj).1, (hgood s hj).2.1⟩
    · rw [setAt_of_ne _ _ hji] at hj
      exact hs.held hj
  · exact hs.current
  · intro s hall
    refine (hs.covered hall).imp_right fun h => h.imp_left fun ⟨j, hj⟩ => ?_
    by_cases hji : j = i
    · exact ⟨i, by rw [hplace, setAt_self]; exact hold s (hji ▸ hj)⟩
    · exact ⟨j, by rw [hplace, setAt_of_ne _ _ hji]; exact hj⟩
  · intro j hj hdead
    rw [hplace]
    by_cases hji : j = i
    · rw [hji, setAt_self]
      exact hp
    · rw [setAt_of_ne _ _ hji]
      exact hs.placed (Nat.lt_of_not_le fun hle => hji (hnew j hle hj)) hdead
  · intro j hj
    rw [hplace, setAt_of_ne _ _ (by omega)]
    exact hs.fresh (by omega)
  · exact Nat.le_trans hs.numInputs_le hd
  · rw [continues_move.size]
    exact hd'
  · exact Nat.le_trans hdepth hs.depth_le

theorem Claimed.move {s : Register} (hs : a.Claimed s) {p : Place} {depth : Nat}
    (hi : i < a.places.size) (hp : p.register? ≠ some s) : (a.move i p depth).Claimed s where
  notFree := hs.notFree
  notHeld j := by
    rw [place_move hi]
    by_cases hj : j = i
    · rw [hj, setAt_self]
      exact hp
    · rw [setAt_of_ne _ _ hj]
      exact hs.notHeld j

/-- The next instruction starts, once every register taken by this one is accounted for. -/
theorem Sound.next (hs : a.Sound d taken) {taken' : List Register}
    (h : ∀ s ∈ taken, a.available.contains s = true ∨ (∃ j, (a.place j).register? = some s) ∨
      s ∈ taken') : a.nextInstruction.Sound d taken' where
  arranged := hs.arranged
  engine := hs.engine
  free := hs.free
  held := hs.held
  current hcur := by simp [nextInstruction] at hcur
  covered {s} hall := by
    obtain hfree | hheld | htaken := hs.covered hall
    · exact .inl hfree
    · exact .inr (.inl hheld)
    · exact h s htaken
  placed {j} hj hdead := hs.placed hj (by
    change (decide (a.numInputs ≤ j) && decide (a.lastUsed.getD j 0 < a.instruction + 1)) = false
      at hdead
    simp only [isDead, Bool.and_eq_false_iff, decide_eq_false_iff_not] at hdead ⊢
    omega)
  fresh := hs.fresh
  numInputs_le := hs.numInputs_le
  le_size := hs.le_size
  depth_le := hs.depth_le

end

end Allocator
end InlineCache
