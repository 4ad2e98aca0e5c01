import InlineCache.Proofs.Codegen.Meaning

/-!
# Constant inputs

An input that is known when the stub is compiled has no register. Guards on it are decided then,
its payload is computed then, and no bailout restores it. The stub still comes to the same as one
that takes the input in a register and is called with the word (`run_constant_inputs`), even if the
program uses the input at a type that it does not have.

On virtual registers this is a comparison of two runs of the same instructions. A register that
holds a constant on the one side holds its word on the other (`Content.Agrees`), and after a guard
on the class of an array it may be a payload here and a boxed word there.
-/

namespace InlineCache

open X64

/-! ## Contents that agree -/

namespace Content

/-- The same, or else what is known of a word when the other side has the word itself. -/
inductive Agrees : Content → Content → Prop where
  | refl (c : Content) : Agrees c c
  | shows_ {c : Content} {v : Value} : c.Shows v → (∀ w, c ≠ .payload .int32 w) →
      Agrees c (.boxed v.bits)

variable {c c' : Content}

theorem Agrees.word (h : c.Agrees c') : c.word = c'.word := by
  cases h with
  | refl => rfl
  | shows_ hv hno => exact hv.word (.inr hno)

theorem Agrees.payloadAs (h : c.Agrees c') {t : ValueType} (ht : t.IsUnboxed) :
    c.payloadAs t = c'.payloadAs t := by
  cases h with
  | refl => rfl
  | @shows_ v hv hno =>
      cases c with
      | boxed w => exact congrArg t.unbox hv
      | payload known w =>
          have hword : known.box w = v.bits := hv.word (.inr hno)
          obtain ⟨-, -, rfl⟩ := hv
          by_cases hknown : known = t
          · subst hknown
            exact if_pos rfl
          · exact (if_neg hknown).trans (congrArg t.unbox hword)
      | constant u =>
          obtain rfl : u = v := hv
          exact Gen.constantPayload_eq (ValueType.isBoxable_of_isPointer_or ht) u

/-- A type that is known on one side is known on the other, or is the type of the word there. -/
theorem Agrees.of_known (h : c.Agrees c') {t : ValueType} (ht : c.knownType? = some t) :
    c' = c ∨ ∃ v : Value, v.type = t ∧ c' = .boxed v.bits := by
  cases h with
  | refl => exact .inl rfl
  | @shows_ v hv _ => exact .inr ⟨v, hv.type ht, rfl⟩

theorem Agrees.of_unknown (h : c.Agrees c') (ht : c.knownType? = none) : c' = c := by
  cases h with
  | refl => rfl
  | shows_ hv _ =>
      cases c with
      | boxed w => exact congrArg Content.boxed (Eq.symm hv)
      | payload t w => cases ht
      | constant u => cases ht

theorem agrees_object {v : Value} (hv : v.type = .object) :
    (Content.payload .object (ValueType.object.unbox v.bits)).Agrees (.boxed v.bits) :=
  .shows_ ⟨.inl rfl, hv, rfl⟩ fun _ h => by cases h

end Content

/-- Every virtual register agrees, and the results are the same. -/
structure VirtualState.Agrees (σ σ' : VirtualState) : Prop where
  contents : ∀ i, (σ.contents i).Agrees (σ'.contents i)
  result : σ.result = σ'.result

namespace VirtualState.Agrees

variable {σ σ' : VirtualState} {x : OperandId} {c c' : Content}

theorem set (h : σ.Agrees σ') (hc : c.Agrees c') : (σ.set x c).Agrees (σ'.set x c') where
  contents i := by
    by_cases hi : i = x.index
    · subst hi
      rw [contents_set_self, contents_set_self]
      exact hc
    · rw [contents_set_of_ne _ _ hi, contents_set_of_ne _ _ hi]
      exact h.contents i
  result := h.result

theorem set_right (h : σ.Agrees σ') (hc : (σ.contents x.index).Agrees c') :
    σ.Agrees (σ'.set x c') := by
  have hself : σ.set x (σ.contents x.index) = σ :=
    congrArg (VirtualState.mk · σ.result) (setAt_eq_self σ.contents x.index)
  exact hself ▸ h.set hc

end VirtualState.Agrees

/-! ## Computations that agree -/

namespace Virtual

/-- Both return the same, or both stop for the same reason, and they leave states that agree. -/
inductive SameEnd {α : Type} : EStateM.Result Stop VirtualState α →
    EStateM.Result Stop VirtualState α → Prop where
  | ok {a : α} {σ σ' : VirtualState} : σ.Agrees σ' → SameEnd (.ok a σ) (.ok a σ')
  | error {why : Stop} {σ σ' : VirtualState} : σ.Agrees σ' →
      SameEnd (.error why σ) (.error why σ')

/-- From states that agree both come to the same. -/
def Agree {α : Type} (x y : Virtual α) : Prop :=
  ∀ σ σ' : VirtualState, σ.Agrees σ' → SameEnd (x σ) (y σ')

namespace SameEnd

theorem bind {α β : Type} {x y : Virtual α} {f g : α → Virtual β} {σ σ' : VirtualState}
    (h : SameEnd (x σ) (y σ')) (hfg : ∀ a, Agree (f a) (g a)) :
    SameEnd ((x >>= f) σ) ((y >>= g) σ') := by
  cases hx : x σ with
  | ok a τ =>
      cases hy : y σ' with
      | ok b τ' =>
          rw [hx, hy] at h
          rw [bind_of_ok hx, bind_of_ok hy]
          cases h with
          | ok hτ => exact hfg a _ _ hτ
      | error why τ' =>
          rw [hx, hy] at h
          cases h
  | error why τ =>
      cases hy : y σ' with
      | ok b τ' =>
          rw [hx, hy] at h
          cases h
      | error why' τ' =>
          rw [hx, hy] at h
          rw [bind_of_error hx, bind_of_error hy]
          cases h with
          | error hτ => exact .error hτ

end SameEnd

section
variable {α β : Type}

theorem Agree.bind {x y : Virtual α} {f g : α → Virtual β} (h : Agree x y)
    (hfg : ∀ a, Agree (f a) (g a)) : Agree (x >>= f) (y >>= g) :=
  fun σ σ' hσ => (h σ σ' hσ).bind hfg

theorem agree_pure (a : α) : Agree (pure a : Virtual α) (pure a) :=
  fun _ _ hσ => .ok hσ

theorem agree_stop (why : Stop) : Agree (stop why : Virtual α) (stop why) :=
  fun _ _ hσ => .error hσ

end

theorem agree_require (ok : Bool) : Agree (require ok) (require ok) := by
  cases ok with
  | true => exact agree_pure ()
  | false => exact agree_stop .failed

theorem agree_define (x : OperandId) {c c' : Content} (hc : c.Agrees c') :
    Agree (define x c) (define x c') :=
  fun _ _ hσ => .ok (hσ.set hc)

theorem agree_setResult (w : UInt64) : Agree (setResult w) (setResult w) :=
  fun _ _ hσ => .ok ⟨hσ.contents, rfl⟩

theorem agree_useValue (x : OperandId) : Agree (useValue x) (useValue x) := by
  intro σ σ' hσ
  rw [useValue_eq (hσ.contents x.index).word, useValue_eq rfl]
  exact .ok (hσ.set (.refl _))

theorem agree_usePayload (x : OperandId) {t : ValueType} (ht : t.IsUnboxed) :
    Agree (usePayload x t) (usePayload x t) := by
  intro σ σ' hσ
  rw [usePayload_eq ((hσ.contents x.index).payloadAs ht), usePayload_eq rfl]
  exact .ok (hσ.set (.refl _))

/-! ## Memory -/

section
variable (env : Env)

theorem agree_read64 (a : UInt64) : Agree (read64 env a) (read64 env a) := by
  rw [read64]
  split
  · exact agree_pure _
  · exact agree_stop _

theorem agree_read32 (a : UInt64) : Agree (read32 env a) (read32 env a) := by
  rw [read32]
  split
  · exact agree_pure _
  · exact agree_stop _

theorem agree_requireClass [ClassTable] (object : UInt64) (c : ClassKind) :
    Agree (requireClass env object c) (requireClass env object c) :=
  (agree_read64 env _).bind fun _ => (agree_read64 env _).bind fun _ => agree_require _

/-! ## Guards -/

/-- A guard that tests the type if it is known and the word if it is not. -/
theorem agree_guard {x : OperandId} {guard : Virtual Unit} (ofWord : Value → Bool)
    (ofType : ValueType → Bool) (htest : ∀ v : Value, ofWord v = ofType v.type)
    (hknown : ∀ {σ t}, (σ.contents x.index).knownType? = some t →
      guard σ = require (ofType t) σ)
    (hunknown : ∀ {σ}, (σ.contents x.index).knownType? = none →
      guard σ = (useValue x >>= fun w => require (ofWord ⟨w⟩)) σ) : Agree guard guard := by
  intro σ σ' hσ
  have hx := hσ.contents x.index
  cases ht : (σ.contents x.index).knownType? with
  | none =>
      rw [hunknown ht, hunknown (hx.of_unknown ht ▸ ht)]
      exact (agree_useValue x).bind (fun _ => agree_require _) σ σ' hσ
  | some t =>
      rw [hknown ht]
      obtain heq | ⟨v, rfl, hv⟩ := hx.of_known ht
      · rw [hknown (heq.symm ▸ ht)]
        exact agree_require _ _ _ hσ
      · rw [hunknown (hv.symm ▸ rfl), bind_of_ok (useValue_eq (w := v.bits) (hv.symm ▸ rfl)), htest]
        exact agree_require _ _ _ (hσ.set_right (hv ▸ hx))

theorem agree_guardType (x : OperandId) {t : ValueType} (ht : t.IsUnboxed) :
    Agree (guardType x t) (guardType x t) := by
  refine agree_guard (x := x) (·.hasTag t) (· == t) (Value.hasTag_eq ht) (fun hknown => ?_)
    (fun hunknown => ?_)
  · rw [guardType, bind_of_ok (content_eq x _)]
    simp only [hknown]
  · rw [guardType, bind_of_ok (content_eq x _)]
    simp only [hunknown]

theorem agree_guardNumber (x : OperandId) : Agree (guardNumber x) (guardNumber x) := by
  refine agree_guard (x := x) (·.isNumber) (fun t => t == .int32 || t == .double)
    Value.isNumber_eq (fun hknown => ?_) (fun hunknown => ?_)
  · rw [guardNumber, bind_of_ok (content_eq x _)]
    simp only [hknown]
  · rw [guardNumber, bind_of_ok (content_eq x _)]
    simp only [hunknown]

theorem guardArray_of_unknown [ClassTable] {σ : VirtualState} {x : OperandId}
    (h : (σ.contents x.index).knownType? = none) : guardArray env x σ = (do
      let w ← useValue x
      require (Value.hasTag ⟨w⟩ .object)
      requireClass env (ValueType.object.unbox w) .array : Virtual Unit) σ := by
  rw [guardArray, bind_of_ok (content_eq x σ)]
  simp only [h]

theorem guardArray_of_object [ClassTable] {σ : VirtualState} {x : OperandId}
    (h : (σ.contents x.index).knownType? = some .object) : guardArray env x σ = (do
      let object ← usePayload x .object
      requireClass env object .array : Virtual Unit) σ := by
  rw [guardArray, bind_of_ok (content_eq x σ)]
  simp only [h]

theorem guardArray_of_other [ClassTable] {σ : VirtualState} {x : OperandId} {t : ValueType}
    (h : (σ.contents x.index).knownType? = some t) (ht : t ≠ .object) :
    guardArray env x σ = .error .failed σ := by
  rw [guardArray, bind_of_ok (content_eq x σ)]
  cases t <;> first | exact absurd rfl ht | (simp only [h]; rfl)

/-- The guard on the class of an array unboxes an operand of known type in place, but leaves a boxed
one as it is. -/
theorem agree_guardArray [ClassTable] (x : OperandId) :
    Agree (guardArray env x) (guardArray env x) := by
  intro σ σ' hσ
  have hx := hσ.contents x.index
  cases hknown : (σ.contents x.index).knownType? with
  | none =>
      rw [guardArray_of_unknown env hknown,
        guardArray_of_unknown env (hx.of_unknown hknown ▸ hknown)]
      exact (agree_useValue x).bind (fun _ => (agree_require _).bind fun _ =>
        agree_requireClass env _ _) σ σ' hσ
  | some t =>
      obtain heq | ⟨v, rfl, hv⟩ := hx.of_known hknown
      · have hknown' := heq.symm ▸ hknown
        by_cases ht : t = .object
        · subst ht
          rw [guardArray_of_object env hknown, guardArray_of_object env hknown']
          exact (agree_usePayload x (.inl rfl)).bind (fun _ => agree_requireClass env _ _) σ σ' hσ
        · rw [guardArray_of_other env hknown ht, guardArray_of_other env hknown' ht]
          exact .error hσ
      · have huse : useValue x σ' = .ok v.bits (σ'.set x (.boxed v.bits)) :=
          useValue_eq (hv.symm ▸ rfl)
        have hunknown : (σ'.contents x.index).knownType? = none := hv.symm ▸ rfl
        rw [guardArray_of_unknown env hunknown, bind_of_ok huse, Value.hasTag_eq (.inl rfl)]
        by_cases ht : v.type = .object
        · have hpayload : usePayload x .object σ = .ok (ValueType.object.unbox v.bits)
              (σ.set x (.payload .object (ValueType.object.unbox v.bits))) := by
            refine usePayload_eq ?_
            rw [hx.payloadAs (.inl rfl), hv]
            rfl
          rw [guardArray_of_object env (ht ▸ hknown), bind_of_ok hpayload, ht]
          exact agree_requireClass env _ _ _ _ (hσ.set (Content.agrees_object ht))
        · rw [guardArray_of_other env hknown ht, beq_false_of_ne ht]
          exact .error (hσ.set_right (hv ▸ hx))

/-! ## Instructions -/

theorem agree_slot (x : OperandId) (disp : Int32) (dynamic : Bool) :
    Agree (slot env x disp dynamic) (slot env x disp dynamic) := by
  refine (agree_usePayload x (.inl rfl)).bind fun _ => (agree_read64 env _).bind fun _ => ?_
  cases dynamic with
  | true => exact (agree_read64 env _).bind fun _ => agree_read64 env _
  | false => exact agree_read64 env _

theorem agree_guardHeader (x : OperandId) (header disp : Int32) :
    Agree (guardHeader env x header disp) (guardHeader env x header disp) :=
  (agree_usePayload x (.inl rfl)).bind fun _ => (agree_read64 env _).bind fun _ =>
    (agree_read64 env _).bind fun _ => agree_require _

theorem agree_guardSpecific (x : OperandId) {t : ValueType} (ht : t.IsUnboxed) (disp : Int32) :
    Agree (guardSpecific env x t disp) (guardSpecific env x t disp) :=
  (agree_usePayload x ht).bind fun _ => (agree_read64 env _).bind fun _ => agree_require _

theorem agree_loadProto (x y : OperandId) : Agree (loadProto env x y) (loadProto env x y) :=
  (agree_usePayload x (.inl rfl)).bind fun _ => (agree_read64 env _).bind fun _ =>
    (agree_read64 env _).bind fun _ => agree_define y (.refl _)

theorem agree_arrayLengthResult (x : OperandId) :
    Agree (arrayLengthResult env x) (arrayLengthResult env x) :=
  (agree_usePayload x (.inl rfl)).bind fun _ => (agree_read64 env _).bind fun _ =>
    (agree_read32 env _).bind fun _ => (agree_require _).bind fun _ => agree_setResult _

theorem agree_arithResult (x y : OperandId) (op : Arith) :
    Agree (arithResult x y op) (arithResult x y op) :=
  (agree_usePayload x (.inr rfl)).bind fun _ => (agree_usePayload y (.inr rfl)).bind fun _ =>
    (agree_require _).bind fun _ => agree_setResult _

theorem agree_instruction [ClassTable] (disp : Nat → Int32) (op : Op) (args : Args op.schema) :
    Agree (instruction env disp op args) (instruction env disp op args) := by
  cases op with
  | guardIsObject => exact agree_guardType _ (.inl rfl)
  | guardIsString => exact agree_guardType _ (.inl rfl)
  | guardIsSymbol => exact agree_guardType _ (.inl rfl)
  | guardIsInt32 => exact agree_guardType _ (.inr rfl)
  | guardIsNumber => exact agree_guardNumber _
  | guardIsArray => exact agree_guardArray env _
  | guardShape => exact agree_guardHeader env _ _ _
  | guardGroup => exact agree_guardHeader env _ _ _
  | guardClass =>
      exact (agree_usePayload _ (.inl rfl)).bind fun _ => agree_requireClass env _ _
  | guardSpecificObject => exact agree_guardSpecific env _ (.inl rfl) _
  | guardSpecificAtom => exact agree_guardSpecific env _ (.inl rfl) _
  | guardSpecificSymbol => exact agree_guardSpecific env _ (.inl rfl) _
  | guardSpecificId => exact agree_guardSpecific env _ (.inl rfl) _
  | loadObject => exact (agree_read64 env _).bind fun _ => agree_define _ (.refl _)
  | loadProto => exact agree_loadProto env _ _
  | loadFixedSlot => exact (agree_slot env _ _ _).bind fun _ => agree_define _ (.refl _)
  | loadDynamicSlot => exact (agree_slot env _ _ _).bind fun _ => agree_define _ (.refl _)
  | loadInt32Constant => exact agree_define _ (.refl _)
  | loadFixedSlotResult => exact (agree_slot env _ _ _).bind fun _ => agree_setResult _
  | loadDynamicSlotResult => exact (agree_slot env _ _ _).bind fun _ => agree_setResult _
  | loadInt32ArrayLengthResult => exact agree_arrayLengthResult env _
  | loadStringLengthResult =>
      exact (agree_usePayload _ (.inl rfl)).bind fun _ => (agree_read32 env _).bind fun _ =>
        agree_setResult _
  | loadUndefinedResult => exact agree_setResult _
  | loadBooleanResult => exact agree_setResult _
  | loadValueResult => exact (agree_read64 env _).bind fun _ => agree_setResult _
  | loadDoubleResult => exact (agree_read64 env _).bind fun _ => agree_setResult _
  | loadOperandResult => exact (agree_useValue _).bind fun _ => agree_setResult _
  | int32AddResult => exact agree_arithResult _ _ _
  | int32SubResult => exact agree_arithResult _ _ _
  | returnFromIC => exact agree_pure ()

theorem agree_instructions [ClassTable] (disp : Nat → Int32) (is : List Instruction) :
    Agree (instructions env disp is) (instructions env disp is) := by
  induction is with
  | nil => exact agree_pure ()
  | cons i is ih => exact (agree_instruction env disp i.op i.args).bind fun _ => ih

end

/-- Runs that come to the same end in the same way, and hand on the same words. -/
theorem SameEnd.exit_eq {env : Env} {r r' : EStateM.Result Stop VirtualState Unit}
    (h : SameEnd r r') : exit env r = exit env r' := by
  cases h with
  | ok hσ => exact congrArg StubExit.returned hσ.result
  | @error why σ σ' hσ =>
      cases why with
      | wild => rfl
      | failed =>
          have hwords : (fun i => (σ.contents i).word) = fun i => (σ'.contents i).word :=
            funext fun i => (hσ.contents i).word
          rw [exit_failed, exit_failed, hwords]

end Virtual

/-! ## Calls with the same words -/

/-- Both machines enter a stub with the same memory and the same words. The first need not have the
constants in registers. -/
structure Inputs.SameCall (inputs : Inputs) (m m' : Machine) : Prop where
  mem : m.mem = m'.mem
  sp : m.reg .rsp = m'.reg .rsp
  stub : m.reg stubRegister = m'.reg stubRegister
  register : ∀ {i : Nat} {r : Register}, inputs.sources[i]? = some .register →
    inputRegisters[i]? = some r → m.reg r = m'.reg r
  constant : ∀ {i : Nat} {r : Register} {v : Value}, inputs.sources[i]? = some (.constant v) →
    inputRegisters[i]? = some r → m'.reg r = v.bits

namespace Inputs.SameCall

variable {inputs : Inputs} {m m' : Machine}

theorem entered_eq (h : inputs.SameCall m m') (room : Nat) :
    Env.entered m room = Env.entered m' room := by
  rw [Env.entered, Env.entered, h.mem, h.sp, h.stub]

/-- The words of the second call are those of the first as far as it has them in registers. -/
theorem enters (h : inputs.SameCall m m') (room : Nat) :
    Enters (.entered m room) inputs (inputWord m') m where
  sp := rfl
  stub := rfl
  mem _ := rfl
  words {i r} hi hr := by
    rw [h.register hi hr, inputWord, List.getD_eq_getElem?_getD, hr]
    rfl

theorem agrees (h : inputs.SameCall m m') {n : Nat} (hn : n ≤ 2) : VirtualState.Agrees
    ⟨inputs.contents (inputWord m'), 0⟩ ⟨(Inputs.registers n hn).contents (inputWord m'), 0⟩ where
  contents i := by
    have hregisters : (Inputs.registers n hn).contents (inputWord m') i =
        .boxed (inputWord m' i) := by
      rw [Inputs.contents, Inputs.registers, List.getElem?_replicate]
      by_cases hi : i < n
      · rw [if_pos hi]
      · rw [if_neg hi]
    dsimp only
    rw [hregisters, Inputs.contents]
    split
    · next v hv =>
        have hlt : i < inputRegisters.length :=
          Nat.lt_of_lt_of_le (List.getElem?_eq_some_iff.mp hv).1 inputs.length_le
        have hword : inputWord m' i = v.bits := by
          rw [inputWord, List.getD_eq_getElem?_getD, List.getElem?_eq_getElem hlt]
          exact h.constant hv (List.getElem?_eq_getElem hlt)
        rw [hword]
        exact .shows_ rfl fun _ hw => by cases hw
    · exact .refl _
  result := rfl

end Inputs.SameCall

theorem run_constant_inputs [ClassTable] {p : Program} (hp : p.Built) {inputs : Inputs}
    {e e' : Engine} {o o' : Options} {code code' : StubCode} (hc : compile p e inputs o = .ok code)
    (hc' : compile p e' (.registers p.numInputs p.kind.numInputs_le_two) o' = .ok code')
    (hres : ∃ is, Instruction.decode p.code.toList = .ok is ∧ ∃ i ∈ is, i.isResult = true)
    {m m' : Machine} (hcall : inputs.SameCall m m') (hwatch : watch (code.area m) code.bytes m ≠ .wild)
    (hwatch' : watch (code'.area m') code'.bytes m' ≠ .wild) :
    SameOutcome inputs (run code.bytes m) (run code'.bytes m') := by
  obtain ⟨is, his⟩ := hp.exists_represents
  obtain ⟨hlength, -, hinputs, hcorrect⟩ := correct_of_compile his hc
  obtain ⟨-, -, hinputs', hcorrect'⟩ := correct_of_compile his hc'
  obtain ⟨is', hdecode, hres⟩ := hres
  cases his.decode.symm.trans hdecode
  have hany : is.any Instruction.isResult = true := List.any_eq_true.mpr hres
  have hroom := StubCode.room_lt_of_compile hp hc
  have hroom' := StubCode.room_lt_of_compile hp hc'
  have h := hcorrect.finishes_of_enters hroom (hinputs.symm ▸ hcall.enters _) hwatch
  have h' := hcorrect'.finishes_of_enters hroom' (enters_entered _ m' _) hwatch'
  rw [hinputs, hany, hcall.entered_eq 0] at h
  rw [hinputs', hany] at h'
  have hagree := Virtual.agree_instructions (.entered m' 0) (Compile.displacement p) is _ _
    (hcall.agrees p.kind.numInputs_le_two)
  rw [hagree.exit_eq] at h
  refine h.sameOutcome_of_subset h' fun {i} hi => ?_
  have hlt : i < p.numInputs := hlength ▸ (List.getElem?_eq_some_iff.mp hi).1
  change (List.replicate p.numInputs InputSource.register)[i]? = _
  rw [List.getElem?_replicate, if_pos hlt]

/-- The object of `slotLoadEntry` as a constant. -/
def Inputs.slotLoadConstant : Inputs where
  sources := [.constant (.boxed .object 0x2000)]
  length_le := by decide

theorem run_constant_inputs_slotLoad :
    ∃ code code', compile .slotLoad .baseline .slotLoadConstant {} = .ok code ∧
      compile .slotLoad .ionSharedIC (.registers 1 (by decide)) {} = .ok code' ∧
      SameOutcome .slotLoadConstant (run code.bytes (Program.slotLoadEntry.setReg .rdi 0))
        (run code'.bytes Program.slotLoadEntry) := by
  have htame : Program.slotLoad.runsTame .baseline .slotLoadConstant {}
      (Program.slotLoadEntry.setReg .rdi 0) = true := by decide +kernel
  obtain ⟨code, hc, hwatch⟩ := Program.exists_compile_of_runsTame htame
  obtain ⟨code', hc', hwatch'⟩ := Program.exists_compile_slotLoad .ionSharedIC {}
  have hres : ∃ is, Instruction.decode Program.slotLoad.code.toList = .ok is ∧
      ∃ i ∈ is, i.isResult = true := ⟨_, rfl, by decide⟩
  have hcall : Inputs.slotLoadConstant.SameCall (Program.slotLoadEntry.setReg .rdi 0)
      Program.slotLoadEntry := by
    refine ⟨rfl, rfl, rfl, fun {i r} hi => ?_, fun {i r v} hi hr => ?_⟩
    · rcases i with _ | i <;> cases hi
    · rcases i with _ | i
      · cases hi
        cases hr
        rfl
      · cases hi
  exact ⟨code, code', hc, hc',
    run_constant_inputs Program.built_slotLoad hc hc' hres hcall hwatch hwatch'⟩

end InlineCache
