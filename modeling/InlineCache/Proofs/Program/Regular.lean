import InlineCache.Proofs.Program.Reorder
import InlineCache.Proofs.Program.Shape
import InlineCache.Proofs.Program.Typing
import InlineCache.Proofs.Stub.Block
import Mathlib.Data.List.Perm.Subperm

/-!
# Complete programs

A program is regular if it can run as a stub: typed instructions were appended to it and nothing
else, one of them gives the result, and the last one returns. Each field of a regular program
belongs to the instruction that it was added for, so the instructions tell the types of the fields
(`Regular.fieldTypes_eq`) and there are at most 256 of them.
-/

namespace InlineCache

def ArgKind.fieldType? : ArgKind → Option FieldType
  | .field t => some t
  | _ => none

namespace Instruction

/-- The types of the fields that an instruction names. -/
def fieldTypes (i : Instruction) : List FieldType :=
  i.op.schema.filterMap ArgKind.fieldType?

end Instruction

theorem Args.map_type_supplied {p : Program} {k d : Nat} {ks : List ArgKind} {as : Args ks}
    (h : Args.All (ArgKind.Fits p k d) ks as) :
    ((Args.collect (ArgKind.supplied? p.fields) ks as).filterMap Arg.field?).map Field.type =
      ks.filterMap ArgKind.fieldType? := by
  induction ks with
  | nil => rfl
  | cons kind ks ih =>
      have htail := ih h.2
      rw [Args.collect, List.filterMap_append, List.map_append, htail]
      cases kind with
      | field t =>
          obtain ⟨f, hf, rfl⟩ := h.1
          rw [ArgKind.supplied?, hf]
          rfl
      | _ => rfl

theorem Args.length_fieldIndices {ks : List ArgKind} (as : Args ks) :
    (Args.collect ArgKind.fieldIndex? ks as).length = (ks.filterMap ArgKind.fieldType?).length := by
  induction ks with
  | nil => rfl
  | cons kind ks ih =>
      have htail := ih as.2
      rw [Args.collect, List.length_append, htail]
      cases kind with
      | field t => exact Nat.add_comm _ _
      | _ => exact Nat.zero_add _

namespace Program

/-- A program that can run as a stub. -/
structure Regular (p : Program) : Prop where
  steps : ∃ ss : List BuildStep, (∀ s ∈ ss, s.isEmit = true) ∧ build ss (.empty p.kind) = .ok () p
  complete : ∃ is, Instruction.decode p.code.toList = .ok is ∧ Instruction.WellFormed is ∧
    Instruction.WellTyped is ∧ is.countP Instruction.isResult = 1

namespace Regular

variable {p : Program}

theorem built (h : p.Regular) : p.Built := by
  obtain ⟨ss, -, hb⟩ := h.steps
  exact Built.build (.empty p.kind) hb

theorem exists_represents (h : p.Regular) :
    ∃ is, p.Represents is ∧ Instruction.WellFormed is ∧ Instruction.WellTyped is ∧
      is.countP Instruction.isResult = 1 := by
  obtain ⟨is, hdecode, hrest⟩ := h.complete
  obtain ⟨is', his⟩ := h.built.exists_represents
  cases his.decode.symm.trans hdecode
  exact ⟨is, his, hrest⟩

/-- The fields are those that the instructions name. -/
theorem fieldTypes_eq (h : p.Regular) {is : List Instruction} (hp : p.Represents is) :
    p.fieldTypes = is.flatMap Instruction.fieldTypes := by
  obtain ⟨ss, hemit, hb⟩ := h.steps
  obtain ⟨is', hrecords⟩ := exists_records hb
  obtain rfl := hp.unique hrecords.represents rfl
  have hfields : p.fields.toList = ss.flatMap BuildStep.fields := by
    rw [fields_build hb, empty, Array.empty_append, List.toList_toArray]
  have hcalls : ∀ {ss : List BuildStep}, (∀ s ∈ ss, s.isEmit = true) →
      ss.flatMap BuildStep.fields =
        (ss.filterMap BuildStep.call?).flatMap fun call => call.2.filterMap Arg.field? := by
    intro ss hemit
    induction ss with
    | nil => rfl
    | cons s ss ih =>
        have htail := ih fun s hs => hemit s (List.mem_cons_of_mem _ hs)
        cases s with
        | emit op args => exact congrArg (args.filterMap Arg.field? ++ ·) htail
        | addField f => cases hemit _ List.mem_cons_self
  rw [Program.fieldTypes, hfields, hcalls hemit, ← hrecords.calls, List.flatMap_map,
    List.map_flatMap]
  refine List.flatMap_congr fun i hi => ?_
  obtain ⟨before, after, hsplit⟩ := List.append_of_mem hi
  exact Args.map_type_supplied (hp.fits hsplit)

theorem size_fields_le (h : p.Regular) : p.fields.size ≤ 256 := by
  obtain ⟨is, hp, -⟩ := h.exists_represents
  have hlength : p.fields.size = (is.flatMap Instruction.fieldIndices).length := by
    rw [← length_fieldTypes, h.fieldTypes_eq hp, List.length_flatMap, List.length_flatMap]
    exact congrArg List.sum (List.map_congr_left fun i _ => (Args.length_fieldIndices i.args).symm)
  have hbyte : ∀ index ∈ is.flatMap Instruction.fieldIndices, index ∈ List.range 256 := by
    intro index hindex
    obtain ⟨i, hi, hindex⟩ := List.mem_flatMap.mp hindex
    refine List.mem_range.mpr (Args.All.of_mem_collect (Q := (· < 256)) (hp.encodable i hi) ?_
      hindex)
    intro k a index hk hindex
    cases k <;> cases hindex
    exact hk
  have hnodup : (is.flatMap Instruction.fieldIndices).Nodup :=
    hp.indices.imp fun hlt => Nat.ne_of_lt hlt
  rw [hlength]
  exact Nat.le_trans (hnodup.subperm hbyte).length_le (Nat.le_of_eq List.length_range)

end Regular
end Program
end InlineCache
