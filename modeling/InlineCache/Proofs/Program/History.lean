import InlineCache.Program.Builder
import InlineCache.Proofs.Program.Built

/-!
# Reading a program back

A program is the outcome of a list of steps: instructions that were appended and fields that were
added by hand, in any order. If every step succeeds, the bytes of the program tell the instructions
again, with the arguments that the caller supplied (`decode_build`). Only the numbers of operands
and fields are new, and they are what the order of the steps makes them.

The bytes carry field indices and not fields, so the arguments are compared through
`Instruction.supplied`, which looks the indices up in the finished program.
-/

namespace InlineCache

/-- One step of building a program. All functions that append an instruction are `emit` steps. -/
inductive BuildStep where
  | emit (op : Op) (args : List Arg)
  | addField (f : Field)

namespace BuildStep

def run : BuildStep → Build Unit
  | .emit op args => Program.append op args
  | .addField f => do
    let _ ← Program.addField f
    return ()

/-- The instruction that a step appends, and its arguments. -/
def call? : BuildStep → Option (Op × List Arg)
  | .emit op args => some (op, args)
  | .addField _ => none

end BuildStep

namespace Program

/-- Takes steps one after the other. -/
def build : List BuildStep → Build Unit
  | [] => return ()
  | s :: ss => do
    s.run
    build ss

theorem Built.build {ss : List BuildStep} {p p' : Program} (h : p.Built)
    (hb : Program.build ss p = .ok () p') : p'.Built := by
  induction ss generalizing p with
  | nil =>
      cases hb
      exact h
  | cons s ss ih =>
      obtain ⟨⟨⟩, p₁, hs, hb⟩ := exists_of_bind_ok hb
      refine ih ?_ hb
      cases s with
      | emit op args =>
          obtain ⟨defined, p₂, he, hend⟩ := exists_of_bind_ok hs
          cases hend
          exact h.emit he
      | addField f =>
          obtain ⟨index, p₂, ha, hend⟩ := exists_of_bind_ok hs
          cases hend
          exact h.addField ha

/-- The program that steps make, if they succeed. -/
def ofSteps? (kind : CacheKind) (ss : List BuildStep) : Option Program :=
  match build ss (.empty kind) with
  | .ok _ p => some p
  | .error _ _ => none

theorem built_of_ofSteps? {kind : CacheKind} {ss : List BuildStep} {p : Program}
    (h : ofSteps? kind ss = some p) : p.Built := by
  rw [ofSteps?] at h
  split at h
  · next hb =>
      cases h
      exact Built.build (.empty kind) hb
  · cases h

/-- The program is these instructions, and they came from these calls. -/
structure Records (p : Program) (calls : List (Op × List Arg)) (is : List Instruction) : Prop where
  represents : p.Represents is
  calls : is.map (fun i => (i.op, i.supplied p.fields)) = calls

theorem records_empty (kind : CacheKind) : (empty kind).Records [] [] :=
  ⟨represents_empty kind, rfl⟩

/-- What was supplied to the instructions so far stays as it was. -/
theorem Represents.map_supplied {p p' : Program} {is : List Instruction} (h : p.Represents is)
    (hg : Grows p p') : is.map (fun i => (i.op, i.supplied p'.fields)) =
      is.map fun i => (i.op, i.supplied p.fields) := by
  refine List.map_congr_left fun i hi => ?_
  obtain ⟨before, after, hsplit⟩ := List.append_of_mem hi
  rw [Instruction.supplied, Instruction.supplied, hg.supplied (h.fits hsplit)]

namespace Records

variable {p p' : Program} {calls : List (Op × List Arg)} {is : List Instruction}

theorem emit {op : Op} {args : List Arg} {defined : Option OperandId} (h : p.Records calls is)
    (he : Program.emit op args p = .ok defined p') :
    ∃ as : Args op.schema, p'.Records (calls ++ [(op, args)]) (is ++ [⟨op, as⟩]) := by
  obtain ⟨as, p₁, hw, rfl, -⟩ := emit_writes h.represents.few h.represents.lastUsed_le he
  have hgrows : Grows p { p₁ with numInstructions := p₁.numInstructions + 1 } :=
    ⟨hw.grows.kind, hw.grows.lastUsed, hw.grows.fields⟩
  have hnew : Instruction.supplied p₁.fields ⟨op, as⟩ = args := hw.supplied
  refine ⟨as, h.represents.append hw, ?_⟩
  rw [List.map_append, h.represents.map_supplied hgrows, h.calls, List.map_singleton, hnew]

theorem addField {f : Field} {index : Nat} (h : p.Records calls is)
    (ha : Program.addField f p = .ok index p') : p'.Records calls is :=
  ⟨h.represents.addField ha, by rw [h.represents.map_supplied (grows_addField ha), h.calls]⟩

/-- One step more. -/
theorem step {s : BuildStep} (h : p.Records calls is) (hs : s.run p = .ok () p') :
    ∃ js, p'.Records (calls ++ s.call?.toList) (is ++ js) := by
  cases s with
  | emit op args =>
      obtain ⟨defined, p₁, he, hend⟩ := exists_of_bind_ok hs
      cases hend
      obtain ⟨as, h'⟩ := h.emit he
      exact ⟨_, h'⟩
  | addField f =>
      obtain ⟨index, p₁, ha, hend⟩ := exists_of_bind_ok hs
      cases hend
      exact ⟨[], by simpa [BuildStep.call?] using h.addField ha⟩

/-- All steps. -/
theorem build {ss : List BuildStep} (h : p.Records calls is)
    (hb : Program.build ss p = .ok () p') :
    ∃ js, p'.Records (calls ++ ss.filterMap BuildStep.call?) (is ++ js) := by
  induction ss generalizing p calls is with
  | nil =>
      cases hb
      exact ⟨[], by simpa using h⟩
  | cons s ss ih =>
      obtain ⟨⟨⟩, p₁, hs, hb⟩ := exists_of_bind_ok hb
      obtain ⟨js, h₁⟩ := h.step hs
      obtain ⟨js', h₂⟩ := ih h₁ hb
      refine ⟨js ++ js', ?_⟩
      rw [List.filterMap_cons]
      cases hcall : s.call? <;> simpa [hcall] using h₂

end Records

theorem exists_records {kind : CacheKind} {ss : List BuildStep} {p : Program}
    (h : build ss (empty kind) = .ok () p) :
    ∃ is, p.Records (ss.filterMap BuildStep.call?) is := by
  obtain ⟨is, his⟩ := (records_empty kind).build h
  exact ⟨is, by simpa using his⟩

/-! ## Operands -/

/-- An instruction defines the next operand, if it defines one. -/
theorem collect_defined {p : Program} {k d : Nat} {ks : List ArgKind} {as : Args ks}
    (horder : Orderly ks) (hfits : Args.All (ArgKind.Fits p k d) ks as) :
    Args.collect ArgKind.defined? ks as =
      (List.range' d (ks.count .define)).map OperandId.mk := by
  induction ks with
  | nil => rfl
  | cons kind ks ih =>
      have htail := ih (List.pairwise_cons.mp horder).2 hfits.2
      rw [Args.collect, htail]
      cases kind with
      | define =>
          have hno : ks.count .define = 0 := by
            refine List.count_eq_zero.mpr fun hmem => ?_
            exact ((List.pairwise_cons.mp horder).1 _ hmem rfl).2 rfl
          have hy : as.1 = ⟨d⟩ := congrArg OperandId.mk hfits.1
          rw [List.count_cons_self, hno, ArgKind.defined?, hy]
          rfl
      | _ => simp [ArgKind.defined?]

/-- What follows defines the next operands. -/
theorem Represents.definedIds_after {p : Program} {is before rest : List Instruction}
    (h : p.Represents is) (hsplit : is = before ++ rest) :
    rest.flatMap Instruction.definedIds =
      (List.range' (p.numInputs + Instruction.numDefs before)
        (Instruction.numDefs rest)).map OperandId.mk := by
  induction rest generalizing before with
  | nil => rfl
  | cons i rest ih =>
      have hi := collect_defined (orderly_schema i.op) (h.fits hsplit)
      have hnext := @ih (before ++ [i]) (by rw [hsplit]; simp)
      rw [Instruction.numDefs_append, Instruction.numDefs_cons, ← Nat.add_assoc] at hnext
      rw [List.flatMap_cons, hnext, Instruction.numDefs_cons, ← List.range'_append_1,
        List.map_append]
      exact congrArg (· ++ _) hi

/-- Operands are numbered in the order of their definitions. -/
theorem Represents.definedIds {p : Program} {is : List Instruction} (h : p.Represents is) :
    is.flatMap Instruction.definedIds =
      (List.range' p.numInputs (Instruction.numDefs is)).map OperandId.mk :=
  h.definedIds_after (List.nil_append is).symm

theorem Represents.definedIds_before {p : Program} {is before rest : List Instruction}
    (h : p.Represents is) (hsplit : is = before ++ rest) :
    before.flatMap Instruction.definedIds =
      (List.range' p.numInputs (Instruction.numDefs before)).map OperandId.mk := by
  have hall := h.definedIds
  rw [hsplit, List.flatMap_append, Instruction.numDefs_append, ← List.range'_append_1,
    List.map_append, h.definedIds_after hsplit] at hall
  exact List.append_cancel_right hall

end Program

namespace Instruction

/-- Reading takes all bytes. -/
theorem readMany_start {p : Program} {is : List Instruction} (h : p.Represents is) :
    readMany p.code.size (.start p.code.toList) = .ok is ⟨p.code.size, []⟩ := by
  have hlen : (is.flatMap bytes).length = p.code.size := by rw [← h.code, Array.length_toList]
  have hread := readMany_flatMap h.encodable 0 (length_le_flatMap is)
  rw [hlen, Nat.zero_add, ← h.code] at hread
  exact hread

theorem decode_build :
    (∀ {kind : CacheKind} {ss : List BuildStep} {p : Program},
      Program.build ss (.empty kind) = .ok () p →
      ∃ is, readMany p.code.size (.start p.code.toList) = .ok is ⟨p.code.size, []⟩ ∧
        is.length = p.numInstructions ∧
        is.map (fun i => (i.op, i.supplied p.fields)) = ss.filterMap BuildStep.call? ∧
        is.flatMap definedIds = (List.range' p.numInputs (numDefs is)).map OperandId.mk ∧
        (is.flatMap fieldIndices).Pairwise (· < ·)) ∧
    ∀ {bs : List UInt8} {is : List Instruction}, decode bs = .ok is →
      is.flatMap bytes = bs ∧ ∀ {bs'}, decode bs' = .ok is → bs' = bs := by
  refine ⟨fun {kind ss p} h => ?_, fun {bs is} h => ?_⟩
  · obtain ⟨is, his⟩ := Program.exists_records h
    exact ⟨is, readMany_start his.represents, his.represents.count.symm, his.calls,
      his.represents.definedIds, his.represents.indices⟩
  · have hbytes := flatMap_of_decode h
    exact ⟨hbytes, fun h' => (flatMap_of_decode h').symm.trans hbytes⟩

/-- A field that no instruction names comes first, so the object is field 1. -/
def sumSteps : List BuildStep :=
  [.addField ⟨.rawWord, 8⟩, .emit .loadInt32Constant [.int32 (-7)],
    .emit .loadObject [.field ⟨.object, 0x2000⟩],
    .emit .int32AddResult [.operand ⟨0⟩, .operand ⟨2⟩], .emit .returnFromIC []]

theorem decode_build_sumSteps :
    ∃ p is, Program.build sumSteps (.empty .binaryArith) = .ok () p ∧
      readMany p.code.size (.start p.code.toList) = .ok is ⟨13, []⟩ ∧
      is.map (fun i => (i.op, i.supplied p.fields)) =
        [(.loadInt32Constant, [.int32 (-7)]), (.loadObject, [.field ⟨.object, 0x2000⟩]),
          (.int32AddResult, [.operand ⟨0⟩, .operand ⟨2⟩]), (.returnFromIC, [])] ∧
      decode p.code.toList = .ok is ∧ is.flatMap bytes = p.code.toList := by
  have hbuild : Program.build sumSteps (.empty .binaryArith) = .ok () _ := rfl
  obtain ⟨is, hread, -, hcalls, -⟩ := decode_build.1 hbuild
  cases hread
  refine ⟨_, _, hbuild, rfl, hcalls, rfl, ?_⟩
  exact (decode_build.2 rfl).1

end Instruction
end InlineCache
