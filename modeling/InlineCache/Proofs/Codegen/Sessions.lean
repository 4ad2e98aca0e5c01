import InlineCache.Proofs.Codegen.Requests

/-!
# Sessions with the allocator

A session starts with the inputs, each in its own register or as a constant, and goes on with
requests in any order: operands are used and defined, registers are handed out and taken back, and
the next instruction begins. It remembers which registers were handed out for something that is not
an operand and not taken back. A request may be refused because there is no register left; the
session goes on after that. Whatever was requested, every register that can be handed out has one
owner, and operands on the stack do not share slots (`Session.unique_owner`).

What the callers of the allocator promise is said by `Session.allows`: a register is given back
once, within the instruction that got it, and only an operand without a place becomes a constant.
-/

namespace InlineCache

open X64

/-! ## Requests -/

inductive Request where
  | useValue (i : Nat)
  | usePayload (i : Nat) (t : ValueType)
  | definePayload (i : Nat) (t : ValueType)
  | defineValue (i : Nat)
  | allocate
  | allocateFixed (r : Register)
  | release (r : Register)
  | setConstant (i : Nat) (v : Value)
  | nextInstruction

namespace Request

/-- Asks the allocator. Returns the register it answers with, if it does. -/
def run : Request → Gen (Option Register)
  | .useValue i => do return some (← Gen.useValue i)
  | .usePayload i t => do return some (← Gen.usePayload i t)
  | .definePayload i t => do return some (← Gen.definePayload i t)
  | .defineValue i => do return some (← Gen.defineValue i)
  | .allocate => do return some (← Gen.allocate)
  | .allocateFixed r => do
    Gen.allocateFixed r
    return some r
  | .release r => do
    Gen.release r
    return none
  | .setConstant i v => do
    Gen.setPlace i (.constant v)
    return none
  | .nextInstruction => do
    Gen.modifyAllocator Allocator.nextInstruction
    return none

end Request

/-! ## Sessions -/

/-- The allocator, and the registers that it handed out. -/
structure Session where
  codegen : Codegen
  /-- Handed out for something that is not an operand, and not taken back. -/
  claimed : RegisterSet
  /-- Those among them that may be given back by the current instruction. -/
  scratch : RegisterSet

namespace Session

def alloc (s : Session) : Allocator :=
  s.codegen.alloc

/-- Whether the callers of the allocator make a request. -/
def allows (s : Session) : Request → Bool
  | .release r => s.scratch.contains r
  | .setConstant i _ => decide (s.alloc.place i = .uninitialized)
  | _ => true

def answered (s : Session) (codegen : Codegen) : Request → Option Register → Session
  | .allocate, some r =>
    { codegen, claimed := s.claimed.insert r, scratch := s.scratch.insert r }
  | .allocateFixed _, some r => { s with codegen, claimed := s.claimed.insert r }
  | .release r, _ => { codegen, claimed := s.claimed.erase r, scratch := s.scratch.erase r }
  | .nextInstruction, _ => { s with codegen, scratch := .empty }
  | _, _ => { s with codegen }

/-- Makes a request. Running out of registers is an answer, other failures are not. -/
def request (s : Session) (q : Request) : Option Session :=
  if s.allows q then
    match q.run s.codegen with
    | .ok r codegen => some (s.answered codegen q r)
    | .error (.outOfRegisters _) codegen => some { s with codegen }
    | .error _ _ => none
  else none

def requests : Session → List Request → Option Session
  | s, [] => some s
  | s, q :: qs => (s.request q).bind fun s' => s'.requests qs

/-- The inputs arrive one after the other. -/
def arrivals (inputs : Inputs) : List Nat → Gen Unit
  | [] => return ()
  | i :: is => do
    Gen.initInput i (inputs.places.getD i .uninitialized)
    arrivals inputs is

/-- The session after the inputs have arrived in some order, each of them once. -/
def start? (p : Program) (e : Engine) (o : Options) (inputs : Inputs) (order : List Nat) :
    Option Session :=
  if order.Perm (List.range p.numInputs) then
    match arrivals inputs order (.start p e o) with
    | .ok _ codegen => some { codegen, claimed := .empty, scratch := .empty }
    | .error _ _ => none
  else none

end Session

/-! ## What a session keeps -/

namespace Session

/-- Every register that may be given back is claimed, and the registers are shared out. -/
structure Sound (e : Engine) (s : Session) : Prop where
  partitioned : s.alloc.Partitioned e s.claimed
  scratch : ∀ {r}, s.scratch.contains r = true → s.claimed.contains r = true

section
variable {p : Program} {e : Engine} {o : Options} {inputs : Inputs} {order : List Nat}
  {s s' : Session} {q : Request}

theorem receives_arrivals {arrived : List Nat} {c c' : Codegen} (h : c.alloc.Receives e arrived)
    (hnodup : (order ++ arrived).Nodup) (hrun : arrivals inputs order c = .ok () c') :
    ∃ arrived', c'.alloc.Receives e arrived' := by
  induction order generalizing arrived c with
  | nil =>
      cases hrun
      exact ⟨arrived, h⟩
  | cons i order ih =>
      obtain ⟨_, c₁, hstep, hrest⟩ := exists_of_bind_ok hrun
      obtain ⟨hq, -, hsize, rfl⟩ := Gen.initInput_of_ok hstep
      rw [List.cons_append, List.nodup_cons, List.mem_append, not_or] at hnodup
      obtain ⟨⟨hiorder, hiarrived⟩, hnodup⟩ := hnodup
      have harrive := h.arrive hiarrived hsize (Inputs.arrives_of_getD hq)
      refine ih harrive ?_ hrest
      exact (List.perm_middle.nodup_iff).mpr (List.nodup_cons.mpr
        ⟨fun hmem => (List.mem_append.mp hmem).elim hiorder hiarrived, hnodup⟩)

theorem sound_of_start? (h : start? p e o inputs order = some s) : s.Sound e := by
  rw [start?] at h
  split at h
  · next hperm =>
      split at h
      · next codegen hrun =>
          cases h
          have hnodup : (order ++ []).Nodup := by
            rw [List.append_nil]
            exact hperm.nodup_iff.mpr List.nodup_range
          obtain ⟨arrived, hreceives⟩ :=
            receives_arrivals (Allocator.receives_new p e) hnodup hrun
          exact ⟨hreceives.partitioned, fun hr => hr⟩
      · cases h
  · cases h

theorem Sound.run_ensures (h : s.Sound e) (hq : s.allows q = true) :
    Ensures (Refused e s.claimed) q.run s.codegen fun r codegen =>
      (s.answered codegen q r).Sound e := by
  -- An operand that is used or defined gets its register without a claim.
  have hbrought : ∀ {x : Gen Register} {Q : Register → Codegen → Prop},
      Ensures (Refused e s.claimed) x s.codegen Q →
      (∀ {r codegen}, Q r codegen → ∃ i R, Gen.Brought e s.claimed s.codegen i R r codegen) →
      Ensures (Refused e s.claimed) (do return some (← x)) s.codegen
        fun (_ : Option Register) codegen => Sound e { s with codegen } := by
    intro x Q hx hQ
    refine Ensures.bind (hx.mono (fun _ _ he => he) fun r codegen hr => ?_)
    obtain ⟨i, R, c, a, rfl, hkeeps, -⟩ := hQ hr
    exact Ensures.pure ⟨hkeeps.partitioned, h.scratch⟩
  cases q with
  | useValue i =>
      exact hbrought (Gen.useValue_keeps h.partitioned i) fun hx => ⟨_, _, hx⟩
  | usePayload i t =>
      exact hbrought (Gen.usePayload_keeps h.partitioned i t) fun hx => ⟨_, _, hx⟩
  | definePayload i t =>
      exact hbrought (Gen.defineAt_keeps h.partitioned i (fun _ => rfl) fun _ => rfl)
        fun hx => ⟨_, _, hx.2⟩
  | defineValue i =>
      exact hbrought (Gen.defineAt_keeps h.partitioned i (fun _ => rfl) fun _ => rfl)
        fun hx => ⟨_, _, hx.2⟩
  | allocate =>
      refine Ensures.bind ((Gen.allocate_keeps h.partitioned).mono (fun _ _ he => he) ?_)
      rintro r _ ⟨c, a, rfl, hhands⟩
      refine Ensures.pure ⟨hhands.partitioned, fun {t} ht => ?_⟩
      simp only [answered, RegisterSet.contains_insert, Bool.or_eq_true] at ht ⊢
      exact ht.imp_left h.scratch
  | allocateFixed r =>
      refine Ensures.bind ((Gen.allocateFixed_keeps h.partitioned r).mono (fun _ _ he => he) ?_)
      rintro _ _ ⟨c, a, rfl, hhands⟩
      refine Ensures.pure ⟨hhands.partitioned, fun {t} ht => ?_⟩
      simp only [answered, RegisterSet.contains_insert, Bool.or_eq_true] at ht ⊢
      exact .inl (h.scratch ht)
  | release r =>
      refine Ensures.bind ((Gen.release_keeps h.partitioned (h.scratch hq)).mono
        (fun _ _ he => he) ?_)
      rintro _ _ ⟨a, rfl, hkeeps⟩
      refine Ensures.pure ⟨hkeeps.partitioned, fun {t} ht => ?_⟩
      simp only [answered, RegisterSet.contains_erase, Bool.and_eq_true] at ht ⊢
      exact ht.imp_left h.scratch
  | setConstant i v =>
      refine Ensures.bind ((Gen.setConstant_keeps h.partitioned (of_decide_eq_true hq) v).mono
        (fun _ _ he => he) ?_)
      rintro _ _ ⟨a, rfl, hkeeps⟩
      exact Ensures.pure ⟨hkeeps.partitioned, h.scratch⟩
  | nextInstruction =>
      refine Ensures.of_ok rfl ⟨h.partitioned.of_eq rfl rfl rfl rfl rfl, fun {t} ht => ?_⟩
      rw [answered, RegisterSet.contains_empty] at ht
      cases ht

theorem Sound.request (h : s.Sound e) (hs : s.request q = some s') : s'.Sound e := by
  rw [Session.request] at hs
  split at hs
  · next hq =>
      have hrun := h.run_ensures hq
      split at hs
      · next r codegen hok =>
          cases hs
          exact hrun.of_eq_ok hok
      · next k codegen herr =>
          cases hs
          exact ⟨hrun.of_eq_error herr ⟨k, rfl⟩, h.scratch⟩
      · cases hs
  · cases hs

theorem Sound.requests {qs : List Request} (h : s.Sound e) (hs : s.requests qs = some s') :
    s'.Sound e := by
  induction qs generalizing s with
  | nil =>
      cases hs
      exact h
  | cons q qs ih =>
      obtain ⟨s₁, h₁, hrest⟩ := Option.bind_eq_some_iff.mp hs
      exact ih (h.request h₁) hrest

end

/-! ## Owners -/

inductive Owner where
  | free
  | operand (i : Nat)
  | claim

def Owns (s : Session) (r : Register) : Owner → Prop
  | .free => s.alloc.available.contains r = true
  | .operand i => (s.alloc.place i).register? = some r
  | .claim => s.claimed.contains r = true

section
variable {p : Program} {e : Engine} {o : Options} {inputs : Inputs} {order : List Nat}
  {s s' : Session} {r : Register} {w w' : Owner}

theorem Sound.allocatable (h : s.Sound e) (hw : s.Owns r w) : e.allocatable.contains r = true := by
  rw [← h.partitioned.engine]
  cases w with
  | free => exact (h.partitioned.free hw).1
  | operand i => exact (h.partitioned.held hw).1
  | claim => exact h.partitioned.claim hw

theorem Sound.owner_eq (h : s.Sound e) (hw : s.Owns r w) (hw' : s.Owns r w') : w = w' := by
  have hfree : ∀ {x}, s.Owns r .free → s.Owns r x → x = .free := by
    intro x hr hx
    cases x with
    | free => rfl
    | operand i => exact absurd hr (by rw [Owns, (h.partitioned.held hx).2.1]; decide)
    | claim => exact absurd hx (by rw [Owns, (h.partitioned.free hr).2]; decide)
  cases w with
  | free => exact (hfree hw hw').symm
  | operand i =>
      cases w' with
      | free => exact hfree hw' hw
      | operand j => rw [h.partitioned.register hw hw']
      | claim => exact absurd hw' (by rw [Owns, (h.partitioned.held hw).2.2]; decide)
  | claim =>
      cases w' with
      | free => exact hfree hw' hw
      | operand j => exact absurd hw (by rw [Owns, (h.partitioned.held hw').2.2]; decide)
      | claim => rfl

theorem Sound.exists_owner (h : s.Sound e) (hr : e.allocatable.contains r = true) :
    ∃ w, s.Owns r w := by
  obtain hfree | ⟨i, hi⟩ | hclaim := h.partitioned.covered (h.partitioned.engine ▸ hr)
  · exact ⟨.free, hfree⟩
  · exact ⟨.operand i, hi⟩
  · exact ⟨.claim, hclaim⟩

/-- After any requests, every register that can be handed out is free, or held by one operand, or
claimed; operands are in no other register, and in particular not in the stub register, the stack
pointer or the scratch register; and operands on the stack are in different words below the depth
that the allocator knows. -/
theorem unique_owner {qs : List Request} (hstart : start? p e o inputs order = some s)
    (hrun : s.requests qs = some s') :
    (∀ r, e.allocatable.contains r = true → ∃! w, s'.Owns r w) ∧
    (∀ i j r, (s'.alloc.place i).register? = some r → (s'.alloc.place j).register? = some r →
      i = j) ∧
    (∀ i r, (s'.alloc.place i).register? = some r →
      e.allocatable.contains r = true ∧ r ≠ .rdx ∧ r ≠ .rsp ∧ r ≠ .r11) ∧
    (∀ i o, (s'.alloc.place i).slot? = some o → 0 < o ∧ 8 ∣ o ∧ o ≤ s'.alloc.depth) ∧
    (∀ i j o, (s'.alloc.place i).slot? = some o → (s'.alloc.place j).slot? = some o → i = j) ∧
    8 ∣ s'.alloc.depth ∧ s'.alloc.depth ≤ s'.alloc.maxDepth := by
  have h := (sound_of_start? hstart).requests hrun
  refine ⟨fun r hr => ?_, fun i j r => h.partitioned.register, fun i r hi => ?_,
    fun i o => h.partitioned.slot, fun i j o => h.partitioned.apart, h.partitioned.aligned,
    h.partitioned.depth_le⟩
  · obtain ⟨w, hw⟩ := h.exists_owner hr
    exact ⟨w, hw, fun w' hw' => h.owner_eq hw' hw⟩
  · have hall := h.allocatable (w := .operand i) hi
    have := Allocator.usable_of_allocatable hall
    exact ⟨hall, this.2.1, this.1, this.2.2⟩

end

def fiveOperands : Program :=
  { Program.empty .getElem with lastUsed := #[9, 9, 9, 9, 9] }

/-- Requests with few registers: an input is pushed and brought back, a register is given back, and
in the end both inputs are on the stack. -/
def crowded : List Request :=
  [.definePayload 2 .object, .allocate, .useValue 0, .defineValue 3, .release .rax,
    .nextInstruction, .useValue 1, .setConstant 4 (.ofInt32 7), .nextInstruction,
    .allocateFixed .rax, .usePayload 2 .object, .usePayload 4 .int32]

theorem unique_owner_crowded :
    ∃ s s', start? fiveOperands .ionSharedIC {} (.registers 2 (by decide)) [1, 0] = some s ∧
      s.requests crowded = some s' ∧ s'.alloc.place 0 = .valueStack 16 ∧
      s'.alloc.place 1 = .valueStack 8 ∧
      ∀ r, Engine.ionSharedIC.allocatable.contains r = true → ∃! w, s'.Owns r w := by
  have hrun : ((start? fiveOperands .ionSharedIC {} (.registers 2 (by decide)) [1, 0]).bind
      fun s => (s.requests crowded).filter fun s' =>
        s'.alloc.place 0 = .valueStack 16 ∧ s'.alloc.place 1 = .valueStack 8).isSome = true := by
    decide +kernel
  obtain ⟨s', hs'⟩ := Option.isSome_iff_exists.mp hrun
  obtain ⟨s, hs, hfilter⟩ := Option.bind_eq_some_iff.mp hs'
  obtain ⟨hreq, hplaces⟩ := Option.filter_eq_some_iff.mp hfilter
  rw [decide_eq_true_eq] at hplaces
  exact ⟨s, s', hs, hreq, hplaces.1, hplaces.2, (unique_owner hs hreq).1⟩

end Session
end InlineCache
