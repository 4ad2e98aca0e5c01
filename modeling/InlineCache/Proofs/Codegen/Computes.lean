import InlineCache.Proofs.Codegen.Meaning
import InlineCache.Proofs.Stub.Data

/-!
# Stubs compute what their programs mean

A run goes from instruction to instruction, and `Reached` holds between any two: the virtual
registers show the values, the types that were settled hold, and there is a result if an
instruction had one. With that each instruction finds what it takes for granted, so that the whole
program does to virtual registers what it does to values (`Reached.instructions_sim`).

`run_eval` says what that means for machine code. A stub returns the value of its program. If the
program has none, the stub goes on to the next one, with the inputs where they were.
-/

namespace InlineCache

open X64

/-! ## Instructions one after the other -/

/-- The fields of the program stand in the data of the stub, and the stub can read them. -/
structure Env.Serves (env : Env) (p : Program) : Prop where
  data : env.mem.Holds (env.stub + Layout.stubData.toUInt64) p.dataBytes
  readable : ∀ index < p.fields.size, index < 256 →
    (Span.ofOffset env.stub (Compile.displacement p index) 8).avoids env.area = true

/-- The instructions `before` have run. -/
structure Reached (p : Program) (before : List Instruction) (s : EvalState) (σ : VirtualState) :
    Prop where
  shows_ : Matches (p.numInputs + Instruction.numDefs before) s σ
  settled : ∀ j ∈ before, ∀ {x t}, (x, t) ∈ Instruction.settledTypes j.op j.args →
    x.index < p.numInputs + Instruction.numDefs before ∧ (s.operands x.index).type = t
  result : s.result.isSome = before.any Instruction.isResult

/-- The operands whose types an operation settles exist after it. -/
theorem lt_of_settled {env : Env} {disp : Nat → Int32} {field : Nat → UInt64} {d : Nat} {op : Op}
    {args : Args op.schema} (hargs : Args.All (ArgKind.Ready env disp field d) op.schema args)
    {x : OperandId} {t : ValueType} (hx : (x, t) ∈ Instruction.settledTypes op args) :
    x.index < d + op.numDefs := by
  have hdef : ∀ {y : OperandId}, y.index = d → y.index < d + 1 := fun h =>
    h ▸ Nat.lt_succ_self _
  cases op with
  | guardIsObject => cases List.mem_singleton.mp hx; exact hargs.1
  | guardIsString => cases List.mem_singleton.mp hx; exact hargs.1
  | guardIsSymbol => cases List.mem_singleton.mp hx; exact hargs.1
  | guardIsInt32 => cases List.mem_singleton.mp hx; exact hargs.1
  | guardIsArray => cases List.mem_singleton.mp hx; exact hargs.1
  | loadObject => cases List.mem_singleton.mp hx; exact hdef hargs.1
  | loadProto => cases List.mem_singleton.mp hx; exact hdef hargs.2.1
  | loadInt32Constant => cases List.mem_singleton.mp hx; exact hdef hargs.1
  | _ => cases hx

section
variable {p : Program} {env : Env} {before after : List Instruction} {i : Instruction}
  {s s' : EvalState} {σ σ' : VirtualState}

theorem ready_of_represents (hp : p.Represents (before ++ i :: after)) (henv : env.Serves p) :
    Args.All (ArgKind.Ready env (Compile.displacement p) p.fieldWord
      (p.numInputs + Instruction.numDefs before)) i.op.schema i.args := by
  refine ((hp.fits rfl).and (hp.encodable i (by simp))).mono fun k a ha => ?_
  cases k with
  | use => exact ha.1.1
  | define => exact ha.1
  | field t =>
      obtain ⟨⟨f, hf, -⟩, hbyte⟩ := ha
      refine ⟨henv.readable a (Array.getElem?_eq_some_iff.mp hf).1 hbyte, ?_⟩
      rw [Compile.read64_displacement hf hbyte henv.data, Program.fieldWord, hf]
      rfl
  | _ => trivial

namespace Reached

/-- No result comes before a result. -/
theorem result_eq_none (h : Reached p before s σ)
    (hone : (before ++ i :: after).countP Instruction.isResult ≤ 1) (hi : i.isResult = true) :
    s.result = none := by
  rw [List.countP_append, List.countP_cons_of_pos hi] at hone
  have hnone : before.countP Instruction.isResult = 0 := by omega
  have hany : before.any Instruction.isResult = false :=
    List.any_eq_false.mpr (List.countP_eq_zero.mp hnone)
  exact Option.isNone_iff_eq_none.mp (Option.not_isSome _ ▸ by rw [h.result, hany]; rfl)

theorem instruction_sim [ClassTable] (h : Reached p before s σ)
    (hp : p.Represents (before ++ i :: after)) (henv : env.Serves p)
    (hwt : Instruction.WellTyped (before ++ i :: after))
    (hone : (before ++ i :: after).countP Instruction.isResult ≤ 1)
    (hreads : (Eval.reads ⟨env.mem, p.fieldWord⟩ s i.op i.args).all (·.avoids env.area) = true)
    (hfit : (Eval.loadedPointer? ⟨env.mem, p.fieldWord⟩ s i.op i.args).all
      (· < 0x800000000000) = true) :
    Sim (p.numInputs + Instruction.numDefs before)
      (p.numInputs + Instruction.numDefs before + i.op.numDefs)
      (Virtual.instruction env (Compile.displacement p) i.op i.args)
      (Eval.instruction ⟨env.mem, p.fieldWord⟩ i.op i.args) σ s := by
  refine InlineCache.instruction_sim h.shows_ i.op i.args (ready_of_represents hp henv)
    (fun hu => ?_) (List.all_eq_true.mp hreads) hfit (h.result_eq_none hone)
  obtain ⟨j, hj, hsettled⟩ := hwt.exists_settled hu
  exact (h.settled j hj hsettled).2

/-- One more instruction has run. -/
theorem next [ClassTable] (h : Reached p before s σ) (hp : p.Represents (before ++ i :: after))
    (henv : env.Serves p)
    (hfit : (Eval.loadedPointer? ⟨env.mem, p.fieldWord⟩ s i.op i.args).all
      (· < 0x800000000000) = true)
    (hs : Eval.instruction ⟨env.mem, p.fieldWord⟩ i.op i.args s = some ((), s'))
    (hm : Matches (p.numInputs + Instruction.numDefs before + i.op.numDefs) s' σ')
    (hkeep : ∀ k < p.numInputs + Instruction.numDefs before, s'.operands k = s.operands k) :
    Reached p (before ++ [i]) s' σ' := by
  have hdefs : p.numInputs + Instruction.numDefs (before ++ [i]) =
      p.numInputs + Instruction.numDefs before + i.op.numDefs := by
    rw [Instruction.numDefs_append, Instruction.numDefs_cons, Nat.add_assoc]
    rfl
  refine ⟨hdefs ▸ hm, fun j hj x t hx => ?_, ?_⟩
  · rw [hdefs]
    obtain hj | hj := List.mem_append.mp hj
    · obtain ⟨hlt, htype⟩ := h.settled j hj hx
      exact ⟨by omega, by rw [hkeep _ hlt]; exact htype⟩
    · cases List.mem_singleton.mp hj
      exact ⟨lt_of_settled (ready_of_represents hp henv) hx, Eval.type_of_settled hs hfit hx⟩
  · rw [Eval.Yields.instruction _ _ _ _ _ _ hs, h.result, List.any_append, List.any_cons,
      List.any_nil, Bool.or_false]
    rfl

/-- The rest of a program does to virtual registers what it does to values. -/
theorem instructions_sim [ClassTable] {is : List Instruction} (h : Reached p before s σ)
    (hp : p.Represents (before ++ is)) (henv : env.Serves p)
    (hwt : Instruction.WellTyped (before ++ is))
    (hone : (before ++ is).countP Instruction.isResult ≤ 1)
    (hreads : Eval.readsAvoid ⟨env.mem, p.fieldWord⟩ env.area is s = true)
    (hfit : Eval.pointersFit ⟨env.mem, p.fieldWord⟩ is s = true) :
    Sim (p.numInputs + Instruction.numDefs before)
      (p.numInputs + Instruction.numDefs (before ++ is))
      (Virtual.instructions env (Compile.displacement p) is)
      (Eval.instructions ⟨env.mem, p.fieldWord⟩ is) σ s := by
  induction is generalizing before s σ with
  | nil =>
      rw [List.append_nil]
      exact .of_ok rfl rfl h.shows_ fun _ _ => rfl
  | cons i is ih =>
      have hfits := Eval.throughout_head hfit
      refine .bind (h.instruction_sim hp henv hwt hone (Eval.throughout_head hreads) hfits)
        (Nat.le_add_right _ _) fun {σ' s'} hs hm hkeep => ?_
      have hnext := h.next hp henv hfits hs hm hkeep
      have hsplit : before ++ i :: is = before ++ [i] ++ is := by simp
      have hsim := ih hnext (hsplit ▸ hp) (hsplit ▸ hwt) (hsplit ▸ hone)
        (Eval.throughout_tail hreads hs) (Eval.throughout_tail hfit hs)
      rw [Instruction.numDefs_append, Instruction.numDefs_cons, ← Nat.add_assoc] at hsim
      rw [hsplit]
      exact hsim

end Reached
end

/-! ## Whole programs -/

namespace Inputs

/-- The inputs of a stub that is entered with these words in their registers. -/
def values (inputs : Inputs) (words : Nat → UInt64) : List Value :=
  inputs.sources.mapIdx fun i source =>
    match source with
    | .register => ⟨words i⟩
    | .constant v => v

theorem getD_values {inputs : Inputs} {words : Nat → UInt64} {i : Nat}
    (h : inputs.sources[i]? = some .register) :
    (inputs.values words).getD i .undefined = ⟨words i⟩ := by
  rw [values, List.getD_eq_getElem?_getD, List.getElem?_mapIdx, h]
  rfl

theorem shows_contents {inputs : Inputs} {words : Nat → UInt64} {i : Nat}
    (h : i < inputs.sources.length) :
    (inputs.contents words i).Shows ((inputs.values words).getD i .undefined) := by
  rw [values, List.getD_eq_getElem?_getD, List.getElem?_mapIdx, contents,
    List.getElem?_eq_getElem h]
  cases inputs.sources[i] <;> rfl

end Inputs

theorem reached_start {p : Program} {inputs : Inputs} (hin : inputs.sources.length = p.numInputs)
    (words : Nat → UInt64) (w : UInt64) :
    Reached p [] (.start (inputs.values words)) ⟨inputs.contents words, w⟩ where
  shows_ := by
    refine ⟨fun {i} hi => inputs.shows_contents (hin ▸ hi), fun _ {i} hi w hc => ?_, nofun⟩
    have hc : inputs.contents words i = .payload .int32 w := hc
    rw [Inputs.contents] at hc
    split at hc <;> cases hc
  settled := nofun
  result := rfl

/-- A stub ends with the value of its program, or else with its inputs as they were. -/
theorem exit_eval [ClassTable] {p : Program} {is : List Instruction} (hp : p.Represents is)
    (hwt : Instruction.WellTyped is) (hone : is.countP Instruction.isResult = 1) {inputs : Inputs}
    (hin : inputs.sources.length = p.numInputs) {words : Nat → UInt64}
    (hcanon : ∀ i, inputs.sources[i]? = some .register → Value.Canonical ⟨words i⟩) {env : Env}
    (henv : env.Serves p)
    (hreads : Eval.readsAvoid ⟨env.mem, p.fieldWord⟩ env.area is
      (.start (inputs.values words)) = true)
    (hfit : Eval.pointersFit ⟨env.mem, p.fieldWord⟩ is (.start (inputs.values words)) = true) :
    match Eval.result? ⟨env.mem, p.fieldWord⟩ (inputs.values words) is with
    | some v => Virtual.exit env (Virtual.instructions env (Compile.displacement p) is
        ⟨inputs.contents words, 0⟩) = .returned v.bits
    | none => ∃ operands, Virtual.exit env (Virtual.instructions env (Compile.displacement p) is
        ⟨inputs.contents words, 0⟩) =
          (if env.linked then .left operands env.nextStub env.nextCode else .wild) ∧
        ∀ i, inputs.sources[i]? = some .register → operands i = words i := by
  have hsim := (reached_start hin words 0).instructions_sim hp henv hwt (Nat.le_of_eq hone)
    hreads hfit
  rw [Eval.result?_eq]
  cases hrun : Eval.instructions ⟨env.mem, p.fieldWord⟩ is (.start (inputs.values words)) with
  | none =>
      obtain ⟨σ, hσ, hshown⟩ := hsim.failed hrun
      refine ⟨fun i => (σ.contents i).word, by rw [hσ, Virtual.exit_failed], fun i hi => ?_⟩
      have hlt : i < p.numInputs := hin ▸ (List.getElem?_eq_some_iff.mp hi).1
      have hword := hshown i hlt
      have hvalue : (EvalState.start (inputs.values words)).operands i = ⟨words i⟩ :=
        inputs.getD_values hi
      rw [hvalue] at hword
      exact hword.word (.inl (hcanon i hi))
  | some r =>
      obtain ⟨σ, hσ, hm, -⟩ := hsim.ok hrun
      have hany : is.any Instruction.isResult = true :=
        List.any_eq_true.mpr (List.countP_pos_iff.mp (by omega))
      have hsome : r.2.result.isSome = true :=
        (Eval.Yields.instructions _ is _ _ _ hrun).trans hany
      obtain ⟨v, hv⟩ := Option.isSome_iff_exists.mp hsome
      show match r.2.result with
        | some v => _
        | none => _
      rw [hv]
      show Virtual.exit env _ = .returned v.bits
      rw [hσ, Virtual.exit, hm.result hv]

/-! ## Machine code -/

/-- The machine `m'` enters the stub behind the one that `m` entered. Its stack and its inputs are
those of `m`. -/
structure HandsOn (inputs : Inputs) (m m' : Machine) : Prop where
  stub : m'.reg stubRegister = (Env.entered m 0).nextStub
  sp : m'.reg .rsp = m.reg .rsp
  input : ∀ (i : Nat) (r : Register), inputs.sources[i]? = some .register →
    inputRegisters[i]? = some r → m'.reg r = m.reg r

theorem run_eval [ClassTable] {p : Program} (hp : p.Built) {is : List Instruction}
    (his : Instruction.decode p.code.toList = .ok is) (hwt : Instruction.WellTyped is)
    (hone : is.countP Instruction.isResult = 1) {e : Engine} {inputs : Inputs} {o : Options}
    {code : StubCode} (hc : compile p e inputs o = .ok code) {m : Machine}
    (hdata : m.mem.Holds (m.reg stubRegister + Layout.stubData.toUInt64) p.dataBytes)
    (hcanon : ∀ i, inputs.sources[i]? = some .register → Value.Canonical ⟨inputWord m i⟩)
    (hfit : Eval.pointersFit ⟨m.mem, p.fieldWord⟩ is (.start (inputs.values (inputWord m))) = true)
    (hwatch : watch (code.area m) code.bytes m ≠ .wild) :
    match p.eval? m.mem (inputs.values (inputWord m)) with
    | some v => ∃ m', run code.bytes m = .returned m' ∧ m'.reg outputRegister = v.bits
    | none => ∃ m', run code.bytes m = .left (Env.entered m 0).nextCode m' ∧
        HandsOn inputs m m' := by
  obtain ⟨is', hrep⟩ := hp.exists_represents
  cases hrep.decode.symm.trans his
  obtain ⟨hin, -, rfl, hcorrect⟩ := correct_of_compile hrep hc
  have henv : (Env.entered m 0).Serves p :=
    ⟨hdata, fun _ _ _ => (Env.entered m 0).avoids_unwatched _⟩
  have hreads : Eval.readsAvoid ⟨m.mem, p.fieldWord⟩ (Env.entered m 0).area is
      (.start (code.inputs.values (inputWord m))) = true :=
    Eval.throughout_of_forall
      (fun _ _ _ => List.all_eq_true.mpr fun _ _ => (Env.entered m 0).avoids_unwatched _) _ _
  have hexit := exit_eval hrep hwt hone hin hcanon henv hreads hfit
  have hfinish := hcorrect.finishes (StubCode.room_lt_of_compile hp hc) hwatch
  have hany : is.any Instruction.isResult = true :=
    List.any_eq_true.mpr (List.countP_pos_iff.mp (by omega))
  rw [hany, StubExit.entered] at hfinish
  rw [Program.eval?, his]
  change match Eval.result? ⟨m.mem, p.fieldWord⟩ (code.inputs.values (inputWord m)) is with
    | some v => _
    | none => _
  change match Eval.result? ⟨m.mem, p.fieldWord⟩ (code.inputs.values (inputWord m)) is with
    | some v => _
    | none => _ at hexit
  cases hvalue : Eval.result? ⟨m.mem, p.fieldWord⟩ (code.inputs.values (inputWord m)) is with
  | some v =>
      rw [hvalue] at hexit
      rw [hexit] at hfinish
      obtain ⟨m', hm', hout, -⟩ := hfinish
      exact ⟨m', Outcome.eq_returned hm', hout rfl⟩
  | none =>
      rw [hvalue] at hexit
      obtain ⟨operands, hexit, hback⟩ := hexit
      have hlinked : (Env.entered m 0).linked = true := (Env.entered m 0).linked_unwatched
      rw [hexit, if_pos hlinked] at hfinish
      obtain ⟨m', hm', hstub, hinputs, hsp, -⟩ := hfinish
      refine ⟨m', Outcome.eq_left hm', hstub, hsp, fun i r hsource hr => ?_⟩
      have hplace : code.inputs.places[i]? = some (.valueReg r) := by
        rw [Inputs.places, List.getElem?_zipWith, hr, hsource]
        rfl
      rw [hinputs hplace, hback i hsource, inputWord, List.getD_eq_getElem?_getD, hr]
      rfl

theorem run_eval_slotLoad :
    ∃ code m', compile .slotLoad .ionSharedIC (.registers 1 (by decide)) {} = .ok code ∧
      run code.bytes Program.slotLoadEntry = .returned m' ∧
      m'.reg outputRegister = (Value.ofInt32 7).bits := by
  obtain ⟨code, hc, hwatch⟩ := Program.exists_compile_slotLoad .ionSharedIC {}
  have hcanon : ∀ i, (Inputs.registers 1 (by decide)).sources[i]? = some .register →
      Value.Canonical ⟨inputWord Program.slotLoadEntry i⟩ := by
    rintro (_ | i) hi
    · decide +kernel
    · cases hi
  have heval : Program.slotLoad.eval? Program.slotLoadEntry.mem
      ((Inputs.registers 1 (by decide)).values (inputWord Program.slotLoadEntry)) =
        some (.ofInt32 7) := by decide +kernel
  have h := run_eval Program.built_slotLoad rfl (by decide) (by decide) hc (by decide +kernel)
    hcanon (by decide +kernel) hwatch
  rw [heval] at h
  obtain ⟨m', hrun, hout⟩ := h
  exact ⟨code, m', hc, hrun, hout⟩

end InlineCache
