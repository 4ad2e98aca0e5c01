import InlineCache.Proofs.Codegen.Body

/-!
# Compiled programs

The bytes of a compiled program do what its instructions do to the virtual registers
(`StubCode.Correct`). This puts the parts together: the inputs arrive, the body runs, a guard that
fails jumps to its bailout, which puts the inputs back and enters the next stub, and the bytes run
as the items that were laid out.

Compiling succeeds for every program that was built and has the right shape, as long as it has less
than four million instructions (`compile_ensures`). Beyond that the stack of a stub or a branch
over its code may be too large for 32 bits.
-/

namespace InlineCache

open X64

/-- The code does what the instructions do, wherever the stub runs. -/
def StubCode.Correct [ClassTable] (p : Program) (is : List Instruction) (code : StubCode) : Prop :=
  ∀ {env words m}, env.room < 2 ^ 31 → code.stackBytes + 8 ≤ env.room →
    Enters env code.inputs words m →
    Finishes env (is.any Instruction.isResult) code.inputs.places
      (Virtual.exit env (Virtual.instructions env (Compile.displacement p) is
        ⟨code.inputs.contents words, 0⟩))
      (watch env.area code.bytes m)

/-! ## Items of a program -/

/-- The items of a whole program: its body, which notes the bailouts `bs`, and their code. -/
structure Assembled [ClassTable] (p : Program) (is : List Instruction) (inputs : Inputs)
    (depth : Nat) (c : Snippet.Code) (bs : List Bailout) (tail : List Item) : Prop where
  length : c.length ≤ 32 * is.length
  few : bs.length ≤ is.length
  targets : ∀ {i l}, i ∈ c → i.target? = some l → ∃ b ∈ bs, b.label = l
  labels : (bs.map Bailout.label).Nodup
  bailouts : Bailouts inputs.places bs tail
  sound : ∀ b ∈ bs, b.inputs.length ≤ 2 ∧ b.depth ≤ depth
  runs : ∀ {env words m}, env.room < 2 ^ 31 → depth ≤ env.room → Enters env inputs words m →
    Ends env (is.any Instruction.isResult) bs.toArray
      (Virtual.instructions env (Compile.displacement p) is ⟨inputs.contents words, 0⟩)
      (exec env.area c m)

theorem Finishes.cases {env : Env} {done : Bool} {origins : List Place} {x : StubExit} {e : Exit}
    (h : Finishes env done origins x e) :
    e = .wild ∨ (∃ m, e = .returned m) ∨ ∃ target m, e = .left target m := by
  cases x with
  | returned w =>
      obtain ⟨m, he, -⟩ := h
      exact .inr (.inl ⟨m, he⟩)
  | left operands stub code =>
      obtain ⟨m, he, -⟩ := h
      exact .inr (.inr ⟨code, m, he⟩)
  | wild => exact .inl h

namespace Assembled

variable {p : Program} {is : List Instruction} {inputs : Inputs} {depth : Nat}
  {c : Snippet.Code} {bs : List Bailout} {tail : List Item}

theorem exists_runs [ClassTable] (h : Assembled p is inputs depth c bs tail) {env : Env}
    {words : Nat → UInt64} {m : Machine} (hroom : env.room < 2 ^ 31) (hdepth : depth + 8 ≤ env.room)
    (hm : Enters env inputs words m) :
    ∃ e, Runs env.area (c.map Item.instr ++ tail) m e ∧
      Finishes env (is.any Instruction.isResult) inputs.places
        (Virtual.exit env (Virtual.instructions env (Compile.displacement p) is
          ⟨inputs.contents words, 0⟩)) e := by
  have hends := h.runs hroom (by omega) hm
  cases hv : Virtual.instructions env (Compile.displacement p) is ⟨inputs.contents words, 0⟩ with
  | ok u σ =>
      rw [hv] at hends
      have hfinish : Finishes env (is.any Instruction.isResult) inputs.places
        (.returned σ.result) (exec env.area c m) := hends
      exact ⟨_, Runs.of_end rfl hfinish.cases, hfinish⟩
  | error why σ =>
      rw [hv] at hends
      cases why with
      | wild =>
          have hwild : exec env.area c m = .wild := hends
          exact ⟨.wild, Runs.of_end hwild (.inl rfl), rfl⟩
      | failed =>
          obtain ⟨b, hb, m', hx, hrun⟩ := hends
          have hb' : b ∈ bs := by simpa using hb
          obtain ⟨c', rest, hafter, hleaves⟩ := h.bailouts.after? h.labels hb'
          obtain ⟨hlen, hshallow⟩ := h.sound b hb'
          obtain ⟨e, he, hfinish⟩ := hleaves.runs hroom (by omega) hrun
            (is.any Instruction.isResult)
          exact ⟨e, Runs.of_jump hx hafter (Runs.of_end he hfinish.cases), hfinish⟩

theorem exists_finish [ClassTable] (h : Assembled p is inputs depth c bs tail) {asm : Assembly}
    (hitems : asm.items.toList = c.map Item.instr ++ tail) (hfew : is.length < 2 ^ 22) :
    ∃ bytes, asm.finish = .ok bytes := by
  have hbindings : (Item.bindings 0 asm.items.toList).map Prod.fst = bs.map Bailout.label := by
    rw [hitems, Item.bindings_append, Item.bindings_map_instr, List.nil_append,
      h.bailouts.bindings]
  refine Assembly.exists_finish (by rw [hbindings]; exact h.labels) (fun i l hi hl => ?_) ?_
  · rw [hitems] at hi ⊢
    simp only [List.mem_append, List.mem_map, Item.instr.injEq, exists_eq_right] at hi
    refine List.mem_append_right _ ?_
    obtain hi | hi := hi
    · obtain ⟨b, hb, rfl⟩ := h.targets hi hl
      obtain ⟨_, _, hafter, -⟩ := h.bailouts.after? h.labels hb
      obtain ⟨mid, rfl⟩ := Item.eq_append_of_after? hafter
      exact List.mem_append_right _ List.mem_cons_self
    · rw [h.bailouts.target? hi] at hl
      cases hl
  · have hbody := Item.totalSize_map_instr_le c
    have htail := h.bailouts.totalSize_le fun b hb => (h.sound b hb).1
    have hlen := h.length
    have hbs := h.few
    rw [Assembly.size, hitems, Item.totalSize_append]
    omega

end Assembled

/-! ## Compiling -/

namespace Compile

variable {p : Program} {is : List Instruction} {inputs : Inputs}

theorem initInputs_start (hp : p.Represents is) (hin : inputs.sources.length = p.numInputs)
    (e : Engine) (o : Options) :
    ∃ a, initInputs 0 inputs.places (.start p e o) = .ok () { Codegen.start p e o with alloc := a } ∧
      a.Arrived p e inputs.places ∧ Progress p [] false { Codegen.start p e o with alloc := a } := by
  have hle : p.numInputs ≤ p.numOperands := by
    have := hp.operands
    omega
  have hlen : inputs.places.length = p.numInputs := inputs.length_places.trans hin
  have hos := inputs.origins_places
  obtain ⟨a, ha, harrived⟩ := initInputs_eq (s := .start p e o) hle (Allocator.arrived_new p e)
    (fun q hq => (hos.origin hq).imp_right fun ⟨r, hr, _⟩ => ⟨r, hr⟩)
    (by rw [List.length_nil, Nat.zero_add]; exact hlen)
  refine ⟨a, ha, harrived, ?_, ⟨rfl, ?_⟩, ?_, ?_, harrived.size⟩
  · exact harrived.inv hle hlen hos (inputs.allocatable_places e)
  · intro i b hb
    simp [Codegen.start] at hb
  · show a.lastUsed = _
    rw [harrived.frame]
    rfl
  · show a.numInputs = _
    rw [harrived.frame]
    rfl

theorem nodup_labels {bs : Array Bailout}
    (h : ∀ {i : Nat} {b : Bailout}, bs[i]? = some b → b.label = i) :
    (bs.toList.map Bailout.label).Nodup := by
  have hrange : bs.toList.map Bailout.label = List.range bs.size := by
    refine List.ext_getElem (by simp) fun i hi hi' => ?_
    rw [List.getElem_map, List.getElem_range]
    exact h (by simp at hi'; simp [hi'])
  rw [hrange]
  exact List.nodup_range

section
variable [ClassTable] {e : Engine} {o : Options} {a₀ a : Allocator} {c : Snippet.Code}
  {bs : Array Bailout}
  (hbody : Body (fun env => Virtual.instructions env (displacement p) is) is.length false
    (is.any Instruction.isResult) { Codegen.start p e o with alloc := a₀ } c a bs)
  (harrived : a₀.Arrived p e inputs.places)
include hbody harrived

theorem bailouts_sound : bs.size ≤ is.length ∧ a.maxDepth ≤ 32 * is.length ∧
    ∀ b ∈ bs.toList, b.Sound p.numInputs ∧ b.depth ≤ a.maxDepth := by
  obtain ⟨new, hbs, hnew, hsound⟩ := hbody.grows
  have hbs : bs.toList = new := by simpa [Codegen.start] using hbs
  have hframe : a₀.instruction = 0 ∧ a₀.numInputs = p.numInputs := by
    rw [harrived.frame]
    exact ⟨rfl, rfl⟩
  have hshallow := hbody.shallow
  change a.maxDepth ≤ 32 * (a₀.instruction + is.length) at hshallow
  rw [hframe.1, Nat.zero_add] at hshallow
  rw [hframe.2] at hsound
  rw [← Array.length_toList, hbs]
  exact ⟨hnew, hshallow, fun b hb => ⟨(hsound b hb).1, (hsound b hb).2.1⟩⟩

theorem origins_eq (hin : inputs.sources.length = p.numInputs) :
    a.origins.toList = inputs.places := by
  rw [hbody.origins, harrived.origins, inputs.length_places, hin, Nat.sub_self]
  exact List.append_nil _

theorem assembled {tail : List Item} (htail : Bailouts inputs.places bs.toList tail) :
    Assembled p is inputs a.maxDepth c bs.toList tail := by
  obtain ⟨hfew, -, hsound⟩ := bailouts_sound hbody harrived
  refine ⟨hbody.length, by rw [Array.length_toList]; exact hfew, fun hi hl => ?_,
    nodup_labels hbody.label, htail, fun b hb => ?_, fun hroom hdepth hm => ?_⟩
  · obtain ⟨b, hb, hlabel⟩ := hbody.targets hi hl
    exact ⟨b, Array.mem_toList_iff.mpr hb, hlabel⟩
  · obtain ⟨hb, hdepth⟩ := hsound b hb
    rw [hb.length]
    exact ⟨p.kind.numInputs_le_two, hdepth⟩
  · rw [Array.toArray_toList]
    exact hbody.runs hroom hdepth (hm.running harrived 0)

end

theorem program_ensures [ClassTable] (hp : p.Represents is)
    (hin : inputs.sources.length = p.numInputs) (e : Engine) (o : Options) :
    Ensures (fun err _ => (∃ f, err = .malformed f ∧ Instruction.fault? 0 false false is = some f) ∨
        err = .emit .stackDepth ∧ 2 ^ 32 ≤ 32 * is.length + 8)
      (program p inputs) (.start p e o) fun depth s =>
        Instruction.fault? 0 false false is = none ∧ ∃ c bs tail,
          s.asm.items.toList = c.map Item.instr ++ tail ∧
            Assembled p is inputs depth c bs tail := by
  obtain ⟨a₀, hinit, harrived, hprogress⟩ := initInputs_start hp hin e o
  have hlimit : is.length ≤ p.code.size := by
    rw [← Array.length_toList, hp.code]
    exact Instruction.length_le_flatMap is
  have hbody : Ensures _ (instructions p (displacement p) _ _ _ _) _ _ :=
    instructions_ensures hp hprogress hlimit 0
  rw [← hp.code] at hbody
  refine Ensures.bind_ok (gen_eq hinit) (Ensures.bind (hbody.mono ?_ ?_))
  · rintro _ _ (⟨f, rfl, hf⟩ | ⟨rfl, hdeep⟩)
    · exact .inl ⟨f, rfl, hf⟩
    · rw [List.length_nil] at hdeep
      exact .inr ⟨rfl, by omega⟩
  rintro returned s haccepts
  cases returned with
  | false =>
      refine Ensures.of_error rfl (.inl ⟨_, rfl, ?_⟩)
      rw [haccepts, Nat.zero_add, ← hp.code, Array.length_toList]
  | true =>
      obtain ⟨hnone, c, a, bs, rfl, hbody⟩ := haccepts
      obtain ⟨-, hshallow, hsound⟩ := bailouts_sound hbody harrived
      have horigins := origins_eq hbody harrived hin
      have hinputs := p.kind.numInputs_le_two
      have hsound' : ∀ b ∈ bs.toList, b.Sound p.numInputs ∧ b.depth ≤ 32 * is.length :=
        fun b hb => ⟨(hsound b hb).1, Nat.le_trans (hsound b hb).2 hshallow⟩
      refine Ensures.bind_ok (a := (Codegen.write _ c a).note bs) rfl
        (Ensures.bind (gen_ensures (Ensures.mono (bailouts_ensures hsound' ?_ ?_) ?_ ?_)))
      · show a.origins.size = _
        rw [← Array.length_toList, horigins, inputs.length_places, hin]
      · show Bailout.Origins a.origins.toList
        rw [horigins]
        exact inputs.origins_places
      · rintro _ _ ⟨rfl, hdeep⟩
        exact .inr ⟨rfl, by rw [Program.numInputs] at hdeep; omega⟩
      · rintro _ s' ⟨tail, hitems, htail⟩
        refine Ensures.pure ⟨hnone, c, bs.toList, tail, ?_, ?_⟩
        · rw [hitems]
          simp [Codegen.write, Codegen.note, Codegen.start, Assembly.append]
        · exact assembled hbody harrived (horigins ▸ htail)

end Compile

/-- What compiling a program comes to. Only programs with millions of instructions can be too
large. -/
theorem compile_ensures [ClassTable] {p : Program} {is : List Instruction} (hp : p.Represents is)
    {inputs : Inputs} (hin : inputs.sources.length = p.numInputs) (e : Engine) (o : Options) :
    match compile p e inputs o with
    | .ok code => Instruction.fault? 0 false false is = none ∧ code.inputs = inputs ∧
        code.Correct p is
    | .error err =>
        (∃ f, err = .malformed f ∧ Instruction.fault? 0 false false is = some f) ∨
          2 ^ 22 ≤ is.length ∧ (err = .emit .stackDepth ∨ ∃ l, err = .labels l) := by
  have h := Compile.program_ensures hp hin e o
  rw [compile, if_neg (by simpa using hin)]
  unfold Ensures at h
  rw [EStateM.run]
  cases hprogram : Compile.program p inputs (.start p e o) with
  | error err s =>
      rw [hprogram] at h
      obtain hf | ⟨rfl, hdeep⟩ := h
      · exact .inl hf
      · exact .inr ⟨by omega, .inl rfl⟩
  | ok depth s =>
      rw [hprogram] at h
      obtain ⟨hnone, c, bs, tail, hitems, hassembled⟩ := h
      dsimp only
      cases hfinish : s.asm.finish with
      | ok bytes =>
          refine ⟨hnone, rfl, fun hroom hdepth hm => ?_⟩
          obtain ⟨e, hruns, hfinishes⟩ := hassembled.exists_runs hroom hdepth hm
          rw [← hitems] at hruns
          rw [watch_of_runs hfinish hruns]
          exact hfinishes
      | error l =>
          refine .inr ⟨?_, .inr ⟨l, rfl⟩⟩
          by_contra hfew
          obtain ⟨bytes, hbytes⟩ := hassembled.exists_finish hitems (by omega)
          cases hbytes.symm.trans hfinish

/-- What is known of a program that compiled. -/
theorem correct_of_compile [ClassTable] {p : Program} {is : List Instruction} (hp : p.Represents is)
    {inputs : Inputs} {e : Engine} {o : Options} {code : StubCode}
    (hc : compile p e inputs o = .ok code) :
    inputs.sources.length = p.numInputs ∧ Instruction.WellFormed is ∧ code.inputs = inputs ∧
      code.Correct p is := by
  have hin : inputs.sources.length = p.numInputs := by
    by_contra hn
    rw [compile, if_pos hn] at hc
    cases hc
  have h := compile_ensures hp hin e o
  rw [hc] at h
  exact ⟨hin, Instruction.fault?_eq_none_iff.mp h.1, h.2⟩

end InlineCache
