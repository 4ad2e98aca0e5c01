import InlineCache.Proofs.Codegen.StackRoom
import InlineCache.Proofs.Codegen.Unwatched

/-!
# Engines and options do not matter

What a stub computes does not depend on the engine it was compiled for or on the options
(`run_sameOutcome`), even if the program uses operands that it has not guarded. The two pieces of
code may differ in every instruction. They agree because each does what the program does to the
virtual registers, and there the configuration does not occur.
-/

namespace InlineCache

open X64

/-! ## Runs on a machine -/

/-- Where a stub runs that a machine enters. -/
def Env.entered (m : Machine) (room : Nat) : Env where
  mem := m.mem
  stub := m.reg stubRegister
  sp := m.reg .rsp
  room := room

/-- The words in the registers of the inputs. -/
def inputWord (m : Machine) (i : Nat) : UInt64 :=
  m.reg (inputRegisters.getD i .rdi)

theorem enters_entered (inputs : Inputs) (m : Machine) (room : Nat) :
    Enters (.entered m room) inputs (inputWord m) m where
  sp := rfl
  stub := rfl
  mem _ := rfl
  words {i r} _ hr := by rw [inputWord, List.getD_eq_getElem?_getD, hr]; rfl

/-- How a stub of these instructions ends when a machine enters it. -/
def StubExit.entered [ClassTable] (p : Program) (is : List Instruction) (inputs : Inputs)
    (m : Machine) : StubExit :=
  Virtual.exit (.entered m 0) (Virtual.instructions (.entered m 0) (Compile.displacement p) is
    ⟨inputs.contents (inputWord m), 0⟩)

namespace StubCode

/-- The bytes of stack that the stub uses: what its body pushes, and a word that a bailout may
push. -/
def room (code : StubCode) : Nat :=
  code.stackBytes + 8

theorem room_lt_of_compile [ClassTable] {p : Program} (hp : p.Built) {e : Engine} {inputs : Inputs}
    {o : Options} {code : StubCode} (hc : compile p e inputs o = .ok code) :
    code.room < 2 ^ 31 := by
  have hlt := stackBytes_lt_of_compile hp hc
  rw [room]
  omega

/-- The part of the stack that the stub uses when a machine enters it. -/
def area (code : StubCode) (m : Machine) : UInt64 → Bool :=
  Memory.below (m.reg .rsp) code.room

/-- A run that does not read the part of the stack that the stub uses ends as the program does. -/
theorem Correct.finishes_of_enters [ClassTable] {p : Program} {is : List Instruction}
    {code : StubCode} (h : code.Correct p is) (hroom : code.room < 2 ^ 31) {m : Machine}
    {words : Nat → UInt64} (henters : Enters (.entered m code.room) code.inputs words m)
    (hwatch : watch (code.area m) code.bytes m ≠ .wild) :
    Finishes (.entered m code.room) (is.any Instruction.isResult) code.inputs.places
      (Virtual.exit (.entered m 0) (Virtual.instructions (.entered m 0) (Compile.displacement p) is
        ⟨code.inputs.contents words, 0⟩)) (run code.bytes m).exit := by
  have hfinish := h hroom (Nat.le_refl _) henters
  have hrun := watch_eq.resolve_left hwatch
  change Finishes _ _ _ _ (watch (code.area m) code.bytes m) at hfinish
  rw [Virtual.exit_of_ne_wild fun hwild => hwatch (by rw [hwild] at hfinish; exact hfinish),
    hrun] at hfinish
  exact hfinish

theorem Correct.finishes [ClassTable] {p : Program} {is : List Instruction} {code : StubCode}
    (h : code.Correct p is) (hroom : code.room < 2 ^ 31) {m : Machine}
    (hwatch : watch (code.area m) code.bytes m ≠ .wild) :
    Finishes (.entered m code.room) (is.any Instruction.isResult) code.inputs.places
      (.entered p is code.inputs m) (run code.bytes m).exit :=
  h.finishes_of_enters hroom (enters_entered code.inputs m code.room) hwatch

end StubCode

/-! ## An example -/

/-- Enters a stub at 0x3000 with an object at 0x2000, whose shape is the one that `slotLoad`
guards and whose first fixed slot holds 7. -/
def Program.slotLoadEntry : Machine :=
  let mem := ((Memory.zero.write64 0x2008 0x1000).write64 0x2020 (Value.ofInt32 7).bits).write64
    0x3018 0x1000
  let m : Machine := { regs := Vector.replicate 16 0, mem := mem.write64 0x3020 32, flags := none }
  ((m.setReg .rdi (Value.boxed .object 0x2000).bits).setReg stubRegister 0x3000).setReg .rsp 0x9000

/-- Whether a program compiles to code that runs on a machine and leaves its own stack alone. -/
def Program.runsTame [ClassTable] (p : Program) (e : Engine) (inputs : Inputs) (o : Options)
    (m : Machine) : Bool :=
  match compile p e inputs o with
  | .error _ => false
  | .ok code =>
      match watch (code.area m) code.bytes m with
      | .wild => false
      | _ => true

theorem Program.exists_compile_of_runsTame [ClassTable] {p : Program} {e : Engine} {inputs : Inputs}
    {o : Options} {m : Machine} (h : p.runsTame e inputs o m = true) :
    ∃ code, compile p e inputs o = .ok code ∧ watch (code.area m) code.bytes m ≠ .wild := by
  rw [runsTame] at h
  cases hc : compile p e inputs o with
  | error err =>
      rw [hc] at h
      cases h
  | ok code =>
      rw [hc] at h
      refine ⟨code, rfl, fun hwild => ?_⟩
      dsimp only at h
      rw [hwild] at h
      cases h

theorem Program.exists_compile_slotLoad (e : Engine) (o : Options) :
    ∃ code, compile .slotLoad e (.registers 1 (by decide)) o = .ok code ∧
      watch (code.area slotLoadEntry) code.bytes slotLoadEntry ≠ .wild := by
  refine exists_compile_of_runsTame ?_
  obtain ⟨share, table⟩ := o
  cases e <;> cases share <;> cases table <;> decide +kernel

/-! ## Runs that come to the same -/

/-- Both runs returned the same word, or both went on to the same stub with the same words in the
registers of the inputs. -/
inductive SameOutcome (inputs : Inputs) : Outcome → Outcome → Prop where
  | returned {m m' : Machine} : m.reg outputRegister = m'.reg outputRegister →
      SameOutcome inputs (.returned m) (.returned m')
  | left {target : UInt64} {m m' : Machine} : m.reg stubRegister = m'.reg stubRegister →
      (∀ (i : Nat) (r : Register), inputs.sources[i]? = some .register →
        inputRegisters[i]? = some r → m.reg r = m'.reg r) →
      SameOutcome inputs (.left target m) (.left target m')

/-- Runs that end as the same program does come to the same, as far as both have the inputs in
registers. -/
theorem Finishes.sameOutcome_of_subset {env env' : Env} {inputs inputs' : Inputs} {x : StubExit}
    {o o' : Outcome} (h : Finishes env true inputs.places x o.exit)
    (h' : Finishes env' true inputs'.places x o'.exit)
    (hsub : ∀ {i : Nat}, inputs.sources[i]? = some .register →
      inputs'.sources[i]? = some .register) : SameOutcome inputs o o' := by
  have hplace : ∀ {inputs : Inputs} {i : Nat} {r : Register}, inputs.sources[i]? = some .register →
      inputRegisters[i]? = some r → inputs.places[i]? = some (.valueReg r) := by
    intro inputs i r hsource hr
    rw [Inputs.places, List.getElem?_zipWith, hr, hsource]
    rfl
  cases x with
  | returned w =>
      obtain ⟨m, hm, hw, -⟩ := h
      obtain ⟨m', hm', hw', -⟩ := h'
      rw [Outcome.eq_returned hm, Outcome.eq_returned hm']
      exact .returned ((hw rfl).trans (hw' rfl).symm)
  | left operands stub code =>
      obtain ⟨m, hm, hstub, hback, -⟩ := h
      obtain ⟨m', hm', hstub', hback', -⟩ := h'
      rw [Outcome.eq_left hm, Outcome.eq_left hm']
      refine .left (hstub.trans hstub'.symm) fun i r hsource hr => ?_
      rw [hback (hplace hsource hr), hback' (hplace (hsub hsource) hr)]
  | wild =>
      change o.exit = .wild at h
      cases o <;> cases h

theorem Finishes.sameOutcome {env env' : Env} {inputs : Inputs} {x : StubExit} {o o' : Outcome}
    (h : Finishes env true inputs.places x o.exit)
    (h' : Finishes env' true inputs.places x o'.exit) : SameOutcome inputs o o' :=
  h.sameOutcome_of_subset h' id

theorem run_sameOutcome [ClassTable] {p : Program} (hp : p.Built) {inputs : Inputs} {e e' : Engine}
    {o o' : Options} {code code' : StubCode} (hc : compile p e inputs o = .ok code)
    (hc' : compile p e' inputs o' = .ok code')
    (hres : ∃ is, Instruction.decode p.code.toList = .ok is ∧ ∃ i ∈ is, i.isResult = true)
    {m : Machine} (hwatch : watch (code.area m) code.bytes m ≠ .wild)
    (hwatch' : watch (code'.area m) code'.bytes m ≠ .wild) :
    SameOutcome inputs (run code.bytes m) (run code'.bytes m) := by
  obtain ⟨is, his⟩ := hp.exists_represents
  obtain ⟨-, -, hinputs, hcorrect⟩ := correct_of_compile his hc
  obtain ⟨-, -, hinputs', hcorrect'⟩ := correct_of_compile his hc'
  obtain ⟨is', hdecode, hres⟩ := hres
  cases his.decode.symm.trans hdecode
  have hany : is.any Instruction.isResult = true := List.any_eq_true.mpr hres
  have h := hcorrect.finishes (StubCode.room_lt_of_compile hp hc) hwatch
  have h' := hcorrect'.finishes (StubCode.room_lt_of_compile hp hc') hwatch'
  rw [hinputs, hany] at h
  rw [hinputs', hany] at h'
  exact h.sameOutcome h'

theorem run_sameOutcome_slotLoad :
    ∃ code code', compile .slotLoad .baseline (.registers 1 (by decide)) {} = .ok code ∧
      compile .slotLoad .ionSharedIC (.registers 1 (by decide)) ⟨false, true⟩ = .ok code' ∧
      SameOutcome (.registers 1 (by decide)) (run code.bytes Program.slotLoadEntry)
        (run code'.bytes Program.slotLoadEntry) := by
  obtain ⟨code, hc, hwatch⟩ := Program.exists_compile_slotLoad .baseline {}
  obtain ⟨code', hc', hwatch'⟩ := Program.exists_compile_slotLoad .ionSharedIC ⟨false, true⟩
  have hres : ∃ is, Instruction.decode Program.slotLoad.code.toList = .ok is ∧
      ∃ i ∈ is, i.isResult = true := ⟨_, rfl, by decide⟩
  exact ⟨code, code', hc, hc', run_sameOutcome Program.built_slotLoad hc hc' hres hwatch hwatch'⟩

end InlineCache
