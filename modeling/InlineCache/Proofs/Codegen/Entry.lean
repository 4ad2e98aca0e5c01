import InlineCache.Codegen.Compile
import InlineCache.Proofs.Codegen.Restore

/-!
# Entering a stub

Before the first instruction is compiled, every input is put where it arrives: boxed in its own
register, or nowhere because it is a constant. One input after the other arrives, and after the
last one the allocator's invariant holds (`Arrived.inv`). A machine that enters the stub
(`Enters`) realizes the virtual registers that the inputs start in.
-/

namespace InlineCache

open X64

/-! ## Inputs -/

namespace Inputs

/-- What the virtual registers contain when the stub is entered with these words in the registers
of the inputs. -/
def contents (inputs : Inputs) (words : Nat → UInt64) (i : Nat) : Content :=
  match inputs.sources[i]? with
  | some (.constant v) => .constant v
  | _ => .boxed (words i)

theorem length_places (inputs : Inputs) : inputs.places.length = inputs.sources.length := by
  have := inputs.length_le
  rw [places, List.length_zipWith]
  omega

/-- An input is a constant or arrives in its own register. -/
theorem places_eq {inputs : Inputs} {i : Nat} {p : Place} (h : inputs.places[i]? = some p) :
    (∃ v, inputs.sources[i]? = some (.constant v) ∧ p = .constant v) ∨
      ∃ r, inputs.sources[i]? = some .register ∧ inputRegisters[i]? = some r ∧ p = .valueReg r := by
  rw [places, List.getElem?_zipWith] at h
  split at h
  · next r source hr hsource =>
      cases h
      cases source with
      | register => exact .inr ⟨r, hsource, hr, rfl⟩
      | constant v => exact .inl ⟨v, hsource, rfl⟩
  · cases h

theorem origins_places (inputs : Inputs) : Bailout.Origins inputs.places where
  origin {o} ho := by
    obtain ⟨i, hi⟩ := List.getElem?_of_mem ho
    obtain ⟨v, -, hv⟩ | ⟨r, -, hr, hp⟩ := places_eq hi
    · exact .inl ⟨v, hv⟩
    · refine .inr ⟨r, hp, ?_⟩
      have hmem : r ∈ inputRegisters := List.mem_of_getElem? hr
      revert hmem
      cases r <;> decide
  apart := by
    rw [List.pairwise_iff_getElem]
    intro i j hi hj hij r hpi hpj
    obtain ⟨v, -, hv⟩ | ⟨q, -, hq, hp⟩ := places_eq (List.getElem?_eq_getElem hi)
    · rw [hpi] at hv
      cases hv
    · obtain ⟨v, -, hv⟩ | ⟨q', -, hq', hp'⟩ := places_eq (List.getElem?_eq_getElem hj)
      · rw [hpj] at hv
        cases hv
      · rw [hpi] at hp
        rw [hpj] at hp'
        cases hp
        cases hp'
        have hlt := (List.getElem?_eq_some_iff.mp hq).1
        have := (List.getElem?_inj hlt (by decide)).mp (hq.trans hq'.symm)
        omega
  stub hmem := by
    obtain ⟨i, hi⟩ := List.getElem?_of_mem hmem
    obtain ⟨v, -, hv⟩ | ⟨r, -, hr, hp⟩ := places_eq hi
    · cases hv
    · cases hp
      exact absurd (List.mem_of_getElem? hr) (by decide)

theorem allocatable_places (inputs : Inputs) (e : Engine) {r : Register}
    (h : .valueReg r ∈ inputs.places) : e.allocatable.contains r = true := by
  obtain ⟨i, hi⟩ := List.getElem?_of_mem h
  obtain ⟨v, -, hv⟩ | ⟨q, -, hq, hp⟩ := places_eq hi
  · cases hv
  · cases hp
    have hmem : r ∈ inputRegisters := List.mem_of_getElem? hq
    refine Allocator.allocatable_of_mem e ?_
    revert hmem
    cases r <;> decide

end Inputs

/-- No two inputs arrive in the same register. -/
theorem Bailout.Sources.eq_of_register {ps : List Place} (h : Sources ps) {i j : Nat}
    {r : Register} (hi : ps[i]? = some (.valueReg r)) (hj : ps[j]? = some (.valueReg r)) :
    i = j := by
  obtain ⟨hilt, hi⟩ := List.getElem?_eq_some_iff.mp hi
  obtain ⟨hjlt, hj⟩ := List.getElem?_eq_some_iff.mp hj
  have happart := List.pairwise_iff_getElem.mp h.apart
  obtain hlt | heq | hgt := Nat.lt_trichotomy i j
  · exact absurd hj (happart i j hilt hjlt hlt r hi)
  · exact heq
  · exact absurd hi (happart j i hjlt hilt hgt r hj)

/-! ## The allocator -/

namespace Allocator

/-- An input arrives. -/
def arrive (a : Allocator) (i : Nat) (p : Place) : Allocator :=
  { a with
    available := match p.register? with
      | some r => a.available.erase r
      | none => a.available
    origins := a.origins.setIfInBounds i p
    places := a.places.setIfInBounds i p }

/-- The inputs have arrived in these places, and nothing else has happened. -/
structure Arrived (p : Program) (e : Engine) (ps : List Place) (a : Allocator) : Prop where
  frame : a = { new p e with
    available := a.available, origins := a.origins, places := a.places }
  origins : a.origins.toList = ps ++ List.replicate (p.numInputs - ps.length) .uninitialized
  place : a.place = placeAt ps
  size : a.places.size = p.numOperands
  available : ∀ r, a.available.contains r = true ↔
    e.allocatable.contains r = true ∧ .valueReg r ∉ ps

theorem arrived_new (p : Program) (e : Engine) : Arrived p e [] (new p e) where
  frame := rfl
  origins := by simp [new]
  place := by
    funext i
    simp only [place, new, placeAt, Array.getD_eq_getD_getElem?, Array.getElem?_replicate]
    split <;> rfl
  size := by simp [new]
  available r := by simp [new]

section
variable {p : Program} {e : Engine} {ps : List Place} {a : Allocator}

theorem Arrived.arrive (h : Arrived p e ps a) {q : Place} (hin : p.numInputs ≤ p.numOperands)
    (hlt : ps.length < p.numInputs) (hq : (∃ v, q = .constant v) ∨ ∃ r, q = .valueReg r) :
    Arrived p e (ps ++ [q]) (a.arrive ps.length q) where
  frame := by
    rw [Allocator.arrive, h.frame]
  origins := by
    obtain ⟨k, hk⟩ : ∃ k, p.numInputs - ps.length = k + 1 := ⟨p.numInputs - ps.length - 1, by omega⟩
    have hk' : p.numInputs - (ps ++ [q]).length = k := by simp; omega
    rw [Allocator.arrive, Array.toList_setIfInBounds, h.origins, hk, hk', List.replicate_succ]
    simp
  place := by
    have hsize : ps.length < a.places.size := by rw [h.size]; omega
    refine (place_setIfInBounds hsize q).trans ?_
    rw [h.place]
    funext i
    by_cases hi : i = ps.length
    · rw [hi, setAt_self]
      simp [placeAt]
    · rw [setAt_of_ne _ _ hi]
      obtain hlt | hge := Nat.lt_or_gt_of_ne hi
      · simp [placeAt, List.getD_eq_getElem?_getD, List.getElem?_append_left hlt]
      · rw [placeAt, placeAt, List.getD_eq_getElem?_getD, List.getD_eq_getElem?_getD,
          List.getElem?_eq_none (Nat.le_of_lt hge),
          List.getElem?_eq_none (by rw [List.length_append]; exact hge)]
  size := by
    rw [Allocator.arrive, Array.size_setIfInBounds, h.size]
  available r := by
    obtain ⟨v, rfl⟩ | ⟨s, rfl⟩ := hq
    · simp [Allocator.arrive, Place.register?, h.available r]
    · simp [Allocator.arrive, Place.register?, h.available r, and_assoc, @eq_comm _ r s]

/-- After the last input the allocator is ready for the first instruction. -/
theorem Arrived.inv (h : Arrived p e ps a) (hin : p.numInputs ≤ p.numOperands)
    (hlen : ps.length = p.numInputs) (hos : Bailout.Origins ps)
    (hall : ∀ {r}, .valueReg r ∈ ps → e.allocatable.contains r = true) :
    a.Inv 0 p.numInputs [] false := by
  have hplace : ∀ {i q}, ps[i]? = some q → a.place i = q := by
    intro i q hi
    rw [h.place, placeAt, List.getD_eq_getElem?_getD, hi]
    rfl
  -- An operand with a place is an input.
  have hinput : ∀ {i}, a.place i ≠ .uninitialized → ps[i]? = some (a.place i) ∧
      ((∃ v, a.place i = .constant v) ∨ ∃ r, a.place i = .valueReg r) := by
    intro i hne
    rw [h.place] at hne ⊢
    have hi := List.getElem?_eq_getElem (lt_length_of_placeAt hne)
    rw [← h.place, hplace hi]
    refine ⟨hi, ?_⟩
    obtain hconst | ⟨r, hr, -⟩ := hos.origin (List.mem_of_getElem? hi)
    · exact .inl hconst
    · exact .inr ⟨r, hr⟩
  have hreg : ∀ {i r}, (a.place i).register? = some r → ps[i]? = some (.valueReg r) := by
    intro i r hi
    obtain ⟨hp, ⟨v, hv⟩ | ⟨q, hq⟩⟩ := hinput (i := i) fun he => by rw [he] at hi; cases hi
    · rw [hv] at hi
      cases hi
    · rw [hq] at hi hp
      cases hi
      exact hp
  have hslot : ∀ {i o}, (a.place i).slot? ≠ some o := by
    intro i o hi
    obtain ⟨-, ⟨v, hv⟩ | ⟨q, hq⟩⟩ := hinput (i := i) fun he => by rw [he] at hi; cases hi
    · rw [hv] at hi
      cases hi
    · rw [hq] at hi
      cases hi
  have hpayload : ∀ {i t}, (a.place i).payloadType? ≠ some t := by
    intro i t hi
    obtain ⟨-, ⟨v, hv⟩ | ⟨q, hq⟩⟩ := hinput (i := i) fun he => by rw [he] at hi; cases hi
    · rw [hv] at hi
      cases hi
    · rw [hq] at hi
      cases hi
  have hframe := h.frame
  constructor
  · constructor
    · refine ⟨fun hi hj => hos.eq_of_register (hreg hi) (hreg hj), fun hi => ?_,
        fun hi => absurd hi hslot, fun hi => absurd hi hslot, fun hi => absurd hi hpayload⟩
      exact hos.register_ne (List.mem_of_getElem? (hreg hi))
    · exact ⟨e, by rw [hframe]; rfl⟩
    · intro r hr
      rw [hframe]
      exact ((h.available r).mp hr).1
    · intro i r hi
      have hmem := List.mem_of_getElem? (hreg hi)
      refine ⟨by rw [hframe]; exact hall hmem, ?_⟩
      rw [← Bool.not_eq_true, h.available]
      exact fun hr => hr.2 hmem
    · intro r hr
      rw [hframe] at hr
      simp [new] at hr
    · intro r hr
      rw [hframe] at hr
      by_cases hmem : .valueReg r ∈ ps
      · obtain ⟨i, hi⟩ := List.getElem?_of_mem hmem
        exact .inr (.inl ⟨i, by rw [hplace hi]; rfl⟩)
      · exact .inl ((h.available r).mpr ⟨hr, hmem⟩)
    · intro i hi _ hun
      have hq := List.getElem?_eq_getElem (hlen ▸ hi)
      rw [hplace hq] at hun
      obtain ⟨v, hv⟩ | ⟨r, hr, -⟩ := hos.origin (List.mem_of_getElem? hq)
      · cases hun.symm.trans hv
      · cases hun.symm.trans hr
    · intro i hi
      by_contra hne
      have := lt_length_of_placeAt (h.place ▸ hne)
      omega
    · rw [hframe]
      exact Nat.le_refl _
    · rw [h.size]
      exact hin
    · rw [hframe]
      exact Nat.le_refl _
  · rw [hframe]
    rfl
  · rw [hframe]
    exact Nat.le_refl 0
  · intro h
    cases h

end

end Allocator

theorem Gen.initInput_eq {s : Codegen} {i : Nat} {q : Place}
    (hq : (∃ v, q = .constant v) ∨ ∃ r, q = .valueReg r) (ho : i < s.alloc.origins.size)
    (hi : i < s.alloc.places.size) :
    initInput i q s = .ok () { s with alloc := s.alloc.arrive i q } := by
  obtain ⟨v, rfl⟩ | ⟨r, rfl⟩ := hq
  · show (if i < s.alloc.origins.size then _ else _ : Gen Unit) s = _
    rw [if_pos ho]
    show (if i < s.alloc.places.size then _ else _ : Gen Unit) _ = _
    rw [if_pos hi]
    rfl
  · show (if i < s.alloc.origins.size then _ else _ : Gen Unit)
      { s with alloc := { s.alloc with available := s.alloc.available.erase r } } = _
    rw [if_pos ho]
    show (if i < s.alloc.places.size then _ else _ : Gen Unit) _ = _
    rw [if_pos hi]
    rfl

theorem Compile.initInputs_eq {p : Program} {e : Engine} (hin : p.numInputs ≤ p.numOperands)
    {ps qs : List Place} {s : Codegen} (h : Allocator.Arrived p e ps s.alloc)
    (hqs : ∀ q ∈ qs, (∃ v, q = .constant v) ∨ ∃ r, q = .valueReg r)
    (hlen : ps.length + qs.length = p.numInputs) :
    ∃ a, initInputs ps.length qs s = .ok () { s with alloc := a } ∧
      Allocator.Arrived p e (ps ++ qs) a := by
  induction qs generalizing ps s with
  | nil => exact ⟨s.alloc, rfl, by rw [List.append_nil]; exact h⟩
  | cons q qs ih =>
      rw [List.length_cons] at hlen
      have hsize : s.alloc.origins.size = p.numInputs := by
        rw [← Array.length_toList, h.origins, List.length_append, List.length_replicate]
        omega
      have hq := hqs q (by simp)
      have hstep := Gen.initInput_eq (s := s) (i := ps.length) hq (by omega) (by rw [h.size]; omega)
      obtain ⟨a, ha, harrived⟩ := ih (s := { s with alloc := s.alloc.arrive ps.length q })
        (h.arrive hin (by omega) hq) (fun q' hq' => hqs q' (by simp [hq']))
        (by rw [List.length_append, List.length_singleton]; omega)
      refine ⟨a, ?_, by rw [List.append_cons]; exact harrived⟩
      rw [initInputs, bind_of_ok hstep]
      rw [List.length_append, List.length_singleton] at ha
      exact ha

/-! ## The machine -/

/-- The machine enters a stub with these words in the registers of the inputs. Other stubs may
have left something in the part of the stack that this one may use. -/
structure Enters (env : Env) (inputs : Inputs) (words : Nat → UInt64) (m : Machine) : Prop where
  sp : m.reg .rsp = env.sp
  stub : m.reg stubRegister = env.stub
  mem : ∀ {a}, env.area a = false → m.mem a = env.mem a
  words : ∀ {i r}, inputs.sources[i]? = some .register → inputRegisters[i]? = some r →
    m.reg r = words i

theorem Enters.running {env : Env} {inputs : Inputs} {words : Nat → UInt64} {m : Machine}
    (h : Enters env inputs words m) {p : Program} {e : Engine} {a : Allocator}
    (ha : a.Arrived p e inputs.places) (result : UInt64) :
    Running env false a ⟨inputs.contents words, result⟩ m where
  realizes := by
    refine ⟨?_, fun {i c} hc => ?_, h.mem⟩
    · rw [h.sp, ha.frame]
      exact (Memory.slot_zero _).symm
    · rw [ha.place] at hc
      cases hp : inputs.places[i]? with
      | none =>
          rw [placeAt, List.getD_eq_getElem?_getD, hp] at hc
          cases hc
      | some q =>
          rw [placeAt, List.getD_eq_getElem?_getD, hp] at hc
          obtain ⟨v, hv, rfl⟩ | ⟨r, hsource, hr, rfl⟩ := Inputs.places_eq hp
          · cases hc
            show inputs.contents words i = _
            rw [Inputs.contents, hv]
          · cases hc
            show inputs.contents words i = _
            rw [Inputs.contents, hsource, h.words hsource hr]
  stub := h.stub
  result := nofun

end InlineCache
