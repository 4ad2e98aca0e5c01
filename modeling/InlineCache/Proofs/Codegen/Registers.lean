import InlineCache.Proofs.Codegen.Invariant
import InlineCache.Proofs.Ensures

/-!
# Getting registers

What the allocator does to hand out a register, said for the machine as well: the code that it
emits changes the virtual registers as a function says, and the machine keeps realizing them.
`Advance` is that statement, and it composes.

A register can always be had. An instruction takes at most four registers, the result among them,
and every engine has at least four; so when none is free and no dead operand gives one up, some
register is held by an operand that the instruction does not use, and that operand is pushed. The
only failure left is a stack of more than 4 GiB.
-/

namespace InlineCache

open X64

/-! ## Writing code -/

/-- The state after code was written and the allocator changed. -/
def Codegen.write (s : Codegen) (c : Snippet.Code) (a : Allocator) : Codegen :=
  { s with asm := s.asm.append c, alloc := a }

namespace Codegen

variable (s : Codegen) (c c' : Snippet.Code) (a a' : Allocator)

theorem write_nil : s.write [] a = { s with alloc := a } := by
  simp [write, Assembly.append]

@[simp]
theorem alloc_write : (s.write c a).alloc = a := rfl

@[simp]
theorem write_write : (s.write c a).write c' a' = s.write (c ++ c') a' := by
  simp [write, Assembly.append]

end Codegen

/-! ## The machine along the way -/

/-- The machine realizes the virtual registers, knows its stub, and has the result in the output
register if there is one. -/
structure Running (env : Env) (done : Bool) (a : Allocator) (s : VirtualState) (m : Machine) :
    Prop where
  realizes : Realizes env a.place a.depth s.contents m
  stub : m.reg stubRegister = env.stub
  result : done = true → m.reg outputRegister = s.result

/-- Registers that are claimed for something else, and the scratch register, may be overwritten. -/
theorem Running.agree {env : Env} {done : Bool} {a : Allocator} {s : VirtualState}
    {m m' : Machine} {rs : List Register} (h : Running env done a s m)
    (ha : Machine.AgreeExcept rs m m') (hsp : .rsp ∉ rs) (hstub : stubRegister ∉ rs)
    (hout : done = true → outputRegister ∉ rs)
    (hrs : ∀ i r, (a.place i).register? = some r → r ∉ rs) : Running env done a s m' where
  realizes := h.realizes.agree ha hsp hrs
  stub := (ha.reg _ hstub).trans h.stub
  result hd := (ha.reg _ (hout hd)).trans (h.result hd)

/-- The code leads from one allocator to the other, and does `f` to the virtual registers. -/
structure Advance (done : Bool) (a : Allocator) (c : Snippet.Code) (a' : Allocator)
    (f : VirtualState → VirtualState) : Prop where
  continues : a.Continues a'
  straight : Straight c
  runs : ∀ {env s m}, env.room < 2 ^ 31 → a'.maxDepth ≤ env.room → Running env done a s m →
    ∃ m', exec env.area c m = .fall m' ∧ Running env done a' (f s) m'

namespace Advance

variable {done : Bool} {a a' a'' : Allocator} {c c' : Snippet.Code}
  {f g : VirtualState → VirtualState}

theorem trans (h : Advance done a c a' f) (h' : Advance done a' c' a'' g) :
    Advance done a (c ++ c') a'' fun s => g (f s) where
  continues := h.continues.trans h'.continues
  straight := h.straight.append h'.straight
  runs hroom hmax hrun := by
    obtain ⟨m₁, hx₁, h₁⟩ := h.runs hroom (Nat.le_trans h'.continues.deeper hmax) hrun
    obtain ⟨m₂, hx₂, h₂⟩ := h'.runs hroom hmax h₁
    exact ⟨m₂, by rw [exec_append_of_fall hx₁, hx₂], h₂⟩

/-- No code is needed if operands at most lose their places. -/
theorem of_forget (hcont : a.Continues a') (hdepth : a'.depth = a.depth)
    (hplace : ∀ i, a'.place i = a.place i ∨ a'.place i = .uninitialized) :
    Advance done a [] a' fun s => s where
  continues := hcont
  straight := straight_nil
  runs _ _ hrun :=
    ⟨_, rfl, ⟨hdepth ▸ hrun.realizes.forget hplace, hrun.stub, hrun.result⟩⟩

theorem refl (done : Bool) (a : Allocator) : Advance done a [] a fun s => s :=
  of_forget (Allocator.Continues.refl a) rfl fun _ => .inl rfl

end Advance

/-- What holds of the allocator within instruction `k`. `done` says whether the result has been
written. -/
structure Allocator.Inv (k d : Nat) (taken : List Register) (done : Bool) (a : Allocator) :
    Prop where
  sound : a.Sound d taken
  instruction : a.instruction = k
  shallow : a.maxDepth ≤ 32 * k + 8 * taken.length
  result : done = true → a.Claimed outputRegister

/-- The stack would need more than 4 GiB, after so many instructions. -/
def Overflow (k : Nat) (e : EmitError) (_ : Codegen) : Prop :=
  e = .stackDepth ∧ 2 ^ 32 ≤ 32 * (k + 1)

/-! ## Pushing an operand -/

theorem Advance.spilled {done : Bool} {a : Allocator} {d : Nat} {taken : List Register}
    (hs : a.Sound d taken) {i : Nat} {r : Register} (hi : (a.place i).register? = some r) :
    Advance done a [.push r] (a.spilled i r) fun s => s where
  continues := Allocator.continues_spilled
  straight := straight_cons rfl straight_nil
  runs {env s m} hroom hmax hrun := by
    have hdepth : a.depth + 8 ≤ env.room := Nat.le_trans (Nat.le_max_right _ _) hmax
    obtain ⟨m', hx, hreal, hregs, -⟩ := hrun.realizes.push hi (fun hj => (hs.arranged.usable hj).1)
      (fun hj => (hs.arranged.slot hj).2) hdepth hroom
    refine ⟨m', hx, ?_, ?_, fun hdone => ?_⟩
    · rw [Allocator.place_spilled hi]
      exact hreal
    · rw [hregs _ (by decide)]
      exact hrun.stub
    · rw [hregs _ (by decide)]
      exact hrun.result hdone

namespace Gen

variable {s : Codegen} {k d : Nat} {taken : List Register} {done : Bool}

theorem code_eq (c : Snippet.Code) (s : Codegen) : code c s = .ok () (s.write c s.alloc) := rfl

theorem place_eq {i : Nat} (hi : i < s.alloc.places.size) :
    Gen.place i s = .ok (s.alloc.place i) s := by
  rw [Gen.place, bind_of_ok (show Gen.allocator s = .ok s.alloc s from rfl),
    Allocator.getElem?_places hi]
  rfl

theorem setPlace_eq {i : Nat} (hi : i < s.alloc.places.size) (p : Place) :
    Gen.setPlace i p s = .ok () { s with alloc := s.alloc.setPlace i p } := by
  show (if i < s.alloc.places.size then Gen.modifyAllocator (·.setPlace i p)
    else throw (.noOperand i) : Gen Unit) s = _
  rw [if_pos hi]
  rfl

theorem push_eq {r : Register} (h : s.alloc.depth + 8 < 2 ^ 32) :
    Gen.push r s = .ok () (s.write [.push r] s.alloc.pushed) := by
  have hp : Emit.pushed s.alloc.depth = pure (s.alloc.depth + 8) := if_pos h
  show (Gen.emit (Emit.pushed s.alloc.depth) >>= _ : Gen Unit) { s with asm := _ } = _
  rw [hp]
  rfl

theorem push_error {r : Register} (h : ¬ s.alloc.depth + 8 < 2 ^ 32) :
    ∃ s', Gen.push r s = .error .stackDepth s' := by
  have hp : Emit.pushed s.alloc.depth = throw .stackDepth := if_neg h
  refine ⟨{ s with asm := s.asm.append [.push r] }, ?_⟩
  show (Gen.emit (Emit.pushed s.alloc.depth) >>= _ : Gen Unit) { s with asm := _ } = _
  rw [hp]
  rfl

theorem spill_eq {i : Nat} {r : Register} (hi : (s.alloc.place i).register? = some r)
    (hall : s.alloc.allocatable.contains r = true) (h : s.alloc.depth + 8 < 2 ^ 32) :
    Gen.spill i s = .ok () (s.write [.push r] (s.alloc.spilled i r)) := by
  have hlt := Allocator.lt_size_of_register? hi
  -- Boxed or not, the operand is found on the stack where the push left it.
  have hrest : (do
      Gen.setPlace i ((s.alloc.place i).pushed (s.alloc.depth + 8))
      Gen.modifyAllocator fun a =>
        if a.allocatable.contains r then { a with available := a.available.insert r } else a
      : Gen Unit) (s.write [.push r] s.alloc.pushed) = .ok () (s.write [.push r] (s.alloc.spilled i r)) := by
    rw [bind_of_ok (setPlace_eq (s := s.write [.push r] s.alloc.pushed) hlt _)]
    show EStateM.Result.ok () _ = _
    simp [Codegen.write, Allocator.spilled, Allocator.pushed, Allocator.setPlace, hall]
  unfold Gen.spill
  rw [bind_of_ok (place_eq hlt)]
  cases hp : s.alloc.place i with
  | payloadReg r' t =>
      rw [hp] at hi hrest
      cases hi
      exact (bind_of_ok (push_eq h)).trans hrest
  | valueReg r' =>
      rw [hp] at hi hrest
      cases hi
      exact (bind_of_ok (push_eq h)).trans hrest
  | _ =>
      rw [hp] at hi
      cases hi

theorem spill_error {i : Nat} {r : Register} (hi : (s.alloc.place i).register? = some r)
    (h : ¬ s.alloc.depth + 8 < 2 ^ 32) : ∃ s', Gen.spill i s = .error .stackDepth s' := by
  obtain ⟨s', hs'⟩ := push_error (s := s) (r := r) h
  refine ⟨s', ?_⟩
  unfold Gen.spill
  rw [bind_of_ok (place_eq (Allocator.lt_size_of_register? hi))]
  cases hp : s.alloc.place i with
  | payloadReg r' t =>
      rw [hp] at hi
      cases hi
      exact bind_of_error hs'
  | valueReg r' =>
      rw [hp] at hi
      cases hi
      exact bind_of_error hs'
  | _ =>
      rw [hp] at hi
      cases hi

end Gen

/-! ## Sets of registers -/

namespace X64.RegisterSet

variable {rs : RegisterSet}

theorem contains_of_isEmpty (h : rs.isEmpty = true) (r : Register) : rs.contains r = false := by
  rw [isEmpty, beq_iff_eq] at h
  rw [contains, h]
  simp

theorem exists_contains (h : rs.isEmpty = false) : ∃ r, rs.contains r = true := by
  rw [isEmpty, beq_eq_false_iff_ne] at h
  by_contra hnone
  refine h (BitVec.eq_of_getLsbD_eq fun i hi => ?_)
  have hr : rs.contains (.ofCode ⟨i, hi⟩) = false := by
    rw [← Bool.not_eq_true]
    exact fun hc => hnone ⟨_, hc⟩
  rw [contains, Register.code_ofCode] at hr
  rw [hr]
  simp

theorem contains_of_highest? {r : Register} (h : rs.highest? = some r) : rs.contains r = true :=
  List.find?_some h

theorem exists_takeHighest? (h : rs.isEmpty = false) :
    ∃ r, rs.takeHighest? = some (r, rs.erase r) ∧ rs.contains r = true := by
  obtain ⟨s, hs⟩ := exists_contains h
  cases hr : rs.highest? with
  | none =>
      have := List.find?_eq_none.mp hr s (List.mem_reverse.mpr s.mem_all)
      rw [hs] at this
      exact absurd rfl this
  | some r => exact ⟨r, by rw [takeHighest?, hr]; rfl, contains_of_highest? hr⟩

end X64.RegisterSet

namespace Allocator

variable {a : Allocator}

theorem of_findIdx? {p : Place → Bool} {i : Nat} (h : a.places.findIdx? p = some i) :
    p (a.place i) = true := by
  obtain ⟨hi, hp, -⟩ := Array.findIdx?_eq_some_iff_getElem.mp h
  have hget := getElem?_places hi
  rw [Array.getElem?_eq_getElem hi] at hget
  exact Option.some.inj hget ▸ hp

theorem exists_findIdx? {p : Place → Bool} {i : Nat} (hi : i < a.places.size)
    (h : p (a.place i) = true) : ∃ j, a.places.findIdx? p = some j := by
  cases hj : a.places.findIdx? p with
  | some j => exact ⟨j, rfl⟩
  | none =>
      have := Array.findIdx?_eq_none_iff.mp hj (a.place i) (Array.mem_of_getElem? (getElem?_places hi))
      rw [h] at this
      cases this

theorem register?_of_victim? {i : Nat} (h : a.victim? = some i) :
    ∃ r, (a.place i).register? = some r ∧ a.current.contains r = false := by
  have hp := of_findIdx? h
  cases hr : (a.place i).register? with
  | none =>
      rw [hr] at hp
      cases hp
  | some r => exact ⟨r, rfl, by simpa [hr] using hp⟩

theorem exists_victim? {i : Nat} {r : Register} (hi : (a.place i).register? = some r)
    (hr : a.current.contains r = false) : ∃ j, a.victim? = some j :=
  exists_findIdx? (lt_size_of_register? hi) (by simp [hi, hr])

theorem register?_of_occupant? {i : Nat} {r : Register} (h : a.occupant? r = some i) :
    (a.place i).register? = some r := by
  simpa using of_findIdx? h

theorem exists_occupant? {i : Nat} {r : Register} (hi : (a.place i).register? = some r) :
    ∃ j, a.occupant? r = some j :=
  exists_findIdx? (lt_size_of_register? hi) (by simp [hi])

/-! ## Making a register free -/

/-- The operand stays where it is while registers are freed: it is read again, and it is not in a
register that the current instruction does not use. -/
def Pinned (a : Allocator) (i : Nat) : Prop :=
  a.isDead i = false ∧ ∀ r, (a.place i).register? = some r → a.current.contains r = true

/-- Some registers became free, perhaps at the cost of a push. -/
structure Frees (done : Bool) (a : Allocator) (c : Snippet.Code) (a' : Allocator) : Prop where
  advance : Advance done a c a' fun s => s
  length : c.length ≤ 1
  depth : a'.maxDepth ≤ max a.maxDepth (a.depth + 8)
  current : a'.current = a.current
  sound : ∀ {d taken}, a.Sound d taken → a'.Sound d taken
  claimed : ∀ {r}, a.Claimed r → a'.Claimed r
  pinned : ∀ {i}, a.Pinned i → a'.place i = a.place i

theorem Yields.frees {done : Bool} {a' : Allocator} (h : a.Yields a') : Frees done a [] a' where
  advance := Advance.of_forget h.continues (by rw [h.frame]) h.place_eq_or
  length := Nat.zero_le 1
  depth := by rw [h.frame]; exact Nat.le_max_left _ _
  current := by rw [h.frame]
  sound hs := h.sound hs
  claimed hr := h.claimed hr
  pinned hi := h.place_of_not_dead hi.1

theorem Yields.frees_spilled {done : Bool} {a' : Allocator} (h : a.Yields a') {d : Nat}
    {taken : List Register} (hs : a.Sound d taken) {i : Nat} {r : Register}
    (hi : (a'.place i).register? = some r) (hr : a.current.contains r = false) :
    Frees done a [.push r] (a'.spilled i r) where
  advance := (h.frees.advance).trans (Advance.spilled (h.sound hs) hi)
  length := Nat.le_refl 1
  depth := by
    have hdepth : a'.depth = a.depth ∧ a'.maxDepth = a.maxDepth := by
      rw [h.frame]
      exact ⟨rfl, rfl⟩
    refine Nat.le_of_eq ?_
    show max a'.maxDepth (a'.depth + 8) = _
    rw [hdepth.1, hdepth.2]
  current := (h.frees : Frees done a [] a').current
  sound hs' := (h.sound hs').spilled hi
  claimed hr' := claimed_spilled hi (h.claimed hr')
  pinned {j} hj := by
    have hji : j ≠ i := by
      rintro rfl
      rw [h.place_of_not_dead hj.1] at hi
      rw [hj.2 r hi] at hr
      cases hr
    rw [place_spilled hi, setAt_of_ne _ _ hji]
    exact h.place_of_not_dead hj.1

/-- The register was made free and taken. -/
structure Allocates (done : Bool) (a : Allocator) (r : Register) (c : Snippet.Code)
    (a' : Allocator) : Prop where
  advance : Advance done a c a' fun s => s
  length : c.length ≤ 1
  current : a'.current = a.current.insert r
  claimed : a'.Claimed r
  allocatable : a'.allocatable.contains r = true
  others : ∀ {s}, a.Claimed s → a'.Claimed s ∧ s ≠ r
  pinned : ∀ {i}, a.Pinned i → a'.place i = a.place i

theorem Frees.allocates {done : Bool} {a' : Allocator} {c : Snippet.Code} (h : Frees done a c a')
    {d : Nat} {taken : List Register} (hs : a.Sound d taken) {r : Register}
    (hr : a'.available.contains r = true) : Allocates done a r c (a'.take r) where
  advance := by
    have := h.advance.trans (@Advance.of_forget done a' (a'.take r) continues_take rfl
      fun _ => .inl rfl)
    rwa [List.append_nil] at this
  length := h.length
  current := by rw [take, h.current]
  claimed := claimed_take fun j hj => by
    rw [((h.sound hs).held hj).2] at hr
    cases hr
  allocatable := (h.sound hs).free hr
  others hs' := by
    refine ⟨(h.claimed hs').take, fun hsr => ?_⟩
    rw [← hsr, (h.claimed hs').notFree] at hr
    cases hr
  pinned hi := h.pinned hi

theorem Allocates.isPinned {done : Bool} {a' : Allocator} {r : Register} {c : Snippet.Code}
    (h : Allocates done a r c a') {i : Nat} (hi : a.Pinned i) : a'.Pinned i := by
  refine ⟨by rw [h.advance.continues.isDead]; exact hi.1, fun q hq => ?_⟩
  rw [h.pinned hi] at hq
  simp [h.current, hi.2 q hq]

theorem Frees.inv {k d : Nat} {taken : List Register} {done : Bool} {a' : Allocator}
    {c : Snippet.Code} (h : Frees done a c a') (hinv : a.Inv k d taken done) {r : Register} :
    (a'.take r).Inv k d (r :: taken) done where
  sound := (h.sound hinv.sound).take
  instruction := h.advance.continues.instruction.trans hinv.instruction
  shallow := by
    have hd := h.depth
    have hk := hinv.shallow
    have hle := hinv.sound.depth_le
    rw [List.length_cons]
    show a'.maxDepth ≤ _
    omega
  result hdone := (h.claimed (hinv.result hdone)).take

end Allocator

/-! ## Handing registers out -/

namespace Gen

variable {s : Codegen} {k d : Nat} {taken : List Register} {done : Bool}

theorem takeHighest_eq (h : s.alloc.available.isEmpty = false) :
    ∃ r, takeHighest s = .ok r { s with alloc := s.alloc.take r } ∧
      s.alloc.available.contains r = true := by
  obtain ⟨r, hr, hc⟩ := RegisterSet.exists_takeHighest? h
  refine ⟨r, ?_, hc⟩
  rw [takeHighest, bind_of_ok (show allocator s = .ok s.alloc s from rfl), hr]
  rfl

end Gen

namespace Allocator

/-- With few registers taken, there is one free or one to be freed. -/
theorem Sound.exists_victim? {a : Allocator} {d : Nat} {taken : List Register}
    (hs : a.Sound d taken) (hlen : taken.length ≤ 3) (hfree : a.available.isEmpty = true) :
    ∃ i, a.victim? = some i := by
  obtain ⟨r, hr, hnot⟩ := exists_not_mem hlen
  obtain ⟨e, he⟩ := hs.engine
  obtain hc | ⟨i, hi⟩ | htaken := hs.covered (he ▸ allocatable_of_mem e hr)
  · rw [RegisterSet.contains_of_isEmpty hfree] at hc
    cases hc
  · refine Allocator.exists_victim? hi ?_
    rw [← Bool.not_eq_true]
    exact fun hcur => hnot (hs.current hcur)
  · exact absurd htaken hnot

end Allocator

namespace Gen

variable {s : Codegen} {k d : Nat} {taken : List Register} {done : Bool}

/-- Pushing an operand succeeds, or the stack is too deep. -/
theorem spill_ensures {a : Allocator} (hs : s.alloc.Sound d taken) {i : Nat} {r : Register}
    (hi : (s.alloc.place i).register? = some r) (hdepth : s.alloc.depth = a.depth)
    (hinv : a.Inv k d taken done) (hlen : taken.length ≤ 3) :
    Ensures (Overflow k) (spill i) s fun _ s' => s' = s.write [.push r] (s.alloc.spilled i r) := by
  by_cases hlt : s.alloc.depth + 8 < 2 ^ 32
  · exact Ensures.of_ok (spill_eq hi (hs.held hi).1 hlt) rfl
  · obtain ⟨s', hs'⟩ := spill_error hi hlt
    refine Ensures.of_error hs' ⟨rfl, ?_⟩
    have := hinv.shallow
    have := hinv.sound.depth_le
    omega

/-- Freeing registers, and then taking one of them. -/
theorem allocate_ensures (hinv : s.alloc.Inv k d taken done) (hlen : taken.length ≤ 3) :
    Ensures (Overflow k) allocate s fun r s' => ∃ c a, s' = s.write c a ∧
      s.alloc.Allocates done r c a ∧ a.Inv k d (r :: taken) done := by
  -- Dead operands are reclaimed if nothing is free.
  obtain ⟨a, ha, hyields⟩ : ∃ a, (if s.alloc.available.isEmpty then s.alloc.reclaimDead
      else s.alloc) = a ∧ s.alloc.Yields a :=
    ⟨_, rfl, (Allocator.yields_reclaimDead _).ite (.refl _)⟩
  have hsound := hyields.sound hinv.sound
  have hcurrent : a.current = s.alloc.current := by rw [hyields.frame]
  have hdepth : a.depth = s.alloc.depth := by rw [hyields.frame]
  -- Whatever was freed, a register is taken.
  have htake : ∀ {c a'}, Allocator.Frees done s.alloc c a' → a'.available.isEmpty = false →
      Ensures (Overflow k) takeHighest (s.write c a') fun r s' => ∃ c a, s' = s.write c a ∧
        s.alloc.Allocates done r c a ∧ a.Inv k d (r :: taken) done := by
    intro c a' hfrees hne
    obtain ⟨r, htake, hr⟩ := takeHighest_eq (s := s.write c a') hne
    exact Ensures.of_ok htake
      ⟨c, _, rfl, hfrees.allocates hinv.sound hr, hfrees.inv hinv⟩
  refine Ensures.bind_ok (t := { s with alloc := a }) (by rw [← ha]; rfl) (Ensures.bind ?_)
  rw [makeRoom]
  refine Ensures.bind_ok (t := { s with alloc := a }) (show allocator _ = .ok a _ from rfl) ?_
  split
  · next hempty =>
      obtain ⟨i, hi⟩ := hsound.exists_victim? hlen hempty
      obtain ⟨r, hr, hcur⟩ := Allocator.register?_of_victim? hi
      rw [hi]
      refine (spill_ensures (s := { s with alloc := a }) hsound hr hdepth hinv hlen).mono
        (fun _ _ h => h) ?_
      rintro _ s' rfl
      refine htake (hyields.frees_spilled hinv.sound hr (hcurrent ▸ hcur)) ?_
      rw [← Bool.not_eq_true]
      intro hempty'
      have := RegisterSet.contains_of_isEmpty hempty' r
      simp [Allocator.spilled] at this
  · next hne =>
      refine Ensures.pure ?_
      rw [← Codegen.write_nil]
      exact htake hyields.frees (by simpa using hne)

/-- A register that the current instruction does not use yet can be had by name. -/
theorem allocateFixed_ensures (hinv : s.alloc.Inv k d taken done) (hlen : taken.length ≤ 3)
    {r : Register} (hall : s.alloc.allocatable.contains r = true) (hr : r ∉ taken) :
    Ensures (Overflow k) (allocateFixed r) s fun _ s' => ∃ c a, s' = s.write c a ∧
      s.alloc.Allocates done r c a ∧ a.Inv k d (r :: taken) done := by
  obtain ⟨a, ha, hyields⟩ : ∃ a, (if s.alloc.available.contains r then s.alloc
      else s.alloc.reclaimDead) = a ∧ s.alloc.Yields a :=
    ⟨_, rfl, (Allocator.Yields.refl _).ite (Allocator.yields_reclaimDead _)⟩
  have hsound := hyields.sound hinv.sound
  have hcurrent : a.current = s.alloc.current := by rw [hyields.frame]
  have hdepth : a.depth = s.alloc.depth := by rw [hyields.frame]
  have hnot : s.alloc.current.contains r = false := by
    rw [← Bool.not_eq_true]
    exact fun hcur => hr (hinv.sound.current hcur)
  have htake : ∀ {c a'}, Allocator.Frees done s.alloc c a' → a'.available.contains r = true →
      Ensures (Overflow k) (modifyAllocator fun a =>
        { a with available := a.available.erase r, current := a.current.insert r })
        (s.write c a') fun _ s' => ∃ c a, s' = s.write c a ∧
          s.alloc.Allocates done r c a ∧ a.Inv k d (r :: taken) done := by
    intro c a' hfrees hfree
    exact Ensures.of_ok rfl
      ⟨c, _, rfl, hfrees.allocates hinv.sound hfree, hfrees.inv hinv⟩
  refine Ensures.bind_ok (t := { s with alloc := a }) (by rw [← ha]; rfl) (Ensures.bind ?_)
  rw [vacate]
  refine Ensures.bind_ok (t := { s with alloc := a }) (show allocator _ = .ok a _ from rfl) ?_
  split
  · next hfree =>
      refine Ensures.pure ?_
      rw [← Codegen.write_nil]
      exact htake hyields.frees hfree
  · next hfree =>
      rw [hcurrent, hnot]
      obtain ⟨i, hi⟩ : ∃ i, a.occupant? r = some i := by
        obtain hc | ⟨j, hj⟩ | htaken := hsound.covered (hyields.continues.allocatable ▸ hall)
        · exact absurd hc hfree
        · exact Allocator.exists_occupant? hj
        · exact absurd htaken hr
      rw [hi]
      have hreg := Allocator.register?_of_occupant? hi
      refine (spill_ensures (s := { s with alloc := a }) hsound hreg hdepth hinv hlen).mono
        (fun _ _ h => h) ?_
      rintro _ s' rfl
      exact htake (hyields.frees_spilled hinv.sound hreg hnot) (by simp [Allocator.spilled])

theorem release_eq {r : Register} (h : s.alloc.Claimed r) :
    release r s = .ok () { s with alloc := s.alloc.free r } := by
  show (if s.alloc.available.contains r then _ else modifyAllocator _ : Gen Unit) s = _
  rw [h.notFree]
  rfl

end Gen
end InlineCache
