import InlineCache.Listing.Printer
import InlineCache.Proofs.Listing.Layout
import InlineCache.Proofs.Program.History

/-!
# Reading listings back

What the printer writes of a program is the usual layout of the tree that says the same
(`toList_listing`), and that tree can be written (`wellFormed_tree`), so the grammar reads it back
(`parse?_listing`).
-/

namespace InlineCache

open Listing Parser

/-! ## Trees of programs -/

/-- An argument as it is written. -/
def ArgKind.tree : (k : ArgKind) → k.Decoded → TreeArg
  | .use, x => .operand x.index
  | .define, x => .operand x.index
  | .classKind, c => .name c.name
  | .bool, b => .bool b
  | .int32, i => .int i.toInt
  | .field _, index => .field index

/-- The arguments that are written behind the operation. -/
def Args.explicit : (ks : List ArgKind) → Args ks → List ((k : ArgKind) × k.Decoded)
  | [], _ => []
  | k :: ks, (a, as) => if k = .define then explicit ks as else ⟨k, a⟩ :: explicit ks as

namespace Instruction

def explicit (i : Instruction) : List ((k : ArgKind) × k.Decoded) :=
  Args.explicit i.op.schema i.args

def tree (i : Instruction) : TreeLine where
  defined := i.definedIds.head?.map OperandId.index
  op := i.op.name
  args := i.explicit.map fun x => x.1.tree x.2

end Instruction

def Field.tree (f : Field) (index : Nat) : TreeField :=
  ⟨index, f.type.name, f.word⟩

/-- The tree of a program with these instructions. -/
def Program.tree (p : Program) (is : List Instruction) : Tree where
  kind := p.kind.name
  inputs := List.range p.numInputs
  lines := is.map Instruction.tree
  fields := p.fields.toList.zipIdx.map fun x => x.1.tree x.2

/-! ## Names -/

theorem isName_names : ("fields" :: (Op.all.map Op.name ++ CacheKind.all.map CacheKind.name ++
    FieldTag.all.map FieldTag.name ++ ClassKind.all.map ClassKind.name)).all isName = true := by
  decide +kernel

theorem Op.isName_name (op : Op) : isName op.name = true ∧ op.name ≠ "fields" := by
  have hmem : op ∈ Op.all := by cases op <;> decide
  refine ⟨List.all_eq_true.mp isName_names _ ?_, by cases op <;> decide⟩
  simp [List.mem_map_of_mem hmem]

theorem CacheKind.isName_name (k : CacheKind) : isName k.name = true := by
  have hmem : k ∈ CacheKind.all := by cases k <;> decide
  refine List.all_eq_true.mp isName_names _ ?_
  simp [List.mem_map_of_mem hmem]

theorem FieldType.isName_name (t : FieldType) : isName t.name = true := by
  have hmem : FieldTag.type t ∈ FieldTag.all := by cases t <;> decide
  refine List.all_eq_true.mp isName_names _ ?_
  simp [FieldType.name, List.mem_map_of_mem hmem]

theorem ClassKind.isName_name (c : ClassKind) : isName c.name = true := by
  have hmem : c ∈ ClassKind.all := by cases c <;> decide
  refine List.all_eq_true.mp isName_names _ ?_
  simp [List.mem_map_of_mem hmem]

theorem Args.definedTexts_eq (ks : List ArgKind) (as : Args ks) :
    definedTexts ks as = (collect ArgKind.defined? ks as).map OperandId.text := by
  induction ks with
  | nil => rfl
  | cons k ks ih =>
      cases k with
      | define => exact congrArg (as.1.text :: ·) (ih as.2)
      | _ => exact ih as.2

theorem Args.explicitTexts_eq (ks : List ArgKind) (as : Args ks) :
    explicitTexts ks as = (explicit ks as).map fun x => x.1.argText x.2 := by
  induction ks with
  | nil => rfl
  | cons k ks ih =>
      rw [explicitTexts, explicit]
      split
      · exact ih as.2
      · exact congrArg (k.argText as.1 :: ·) (ih as.2)

theorem Args.All.explicit {P : (k : ArgKind) → k.Decoded → Prop} {ks : List ArgKind}
    {as : Args ks} (h : All P ks as) : ∀ x ∈ Args.explicit ks as, x.1 ≠ .define ∧ P x.1 x.2 := by
  induction ks with
  | nil =>
      intro x hx
      cases hx
  | cons k ks ih =>
      intro x hx
      rw [Args.explicit] at hx
      split at hx
      · exact ih h.2 x hx
      · next hk =>
          rcases List.mem_cons.mp hx with rfl | hx
          · exact ⟨hk, h.1⟩
          · exact ih h.2 x hx

theorem Args.length_collect_defined (ks : List ArgKind) (as : Args ks) :
    (collect ArgKind.defined? ks as).length = ks.count .define := by
  induction ks with
  | nil => rfl
  | cons k ks ih =>
      rw [collect, List.length_append, ih]
      cases k <;> simp [ArgKind.defined?, Nat.add_comm]

namespace Instruction

theorem Encodable.defined {i : Instruction} (h : i.Encodable) {y : OperandId}
    (hy : y ∈ i.definedIds) : y.index < 256 := by
  refine Args.All.of_mem_collect (Q := fun y : OperandId => y.index < 256) h
    (fun k a y hk hy => ?_) hy
  cases k <;> cases hy
  exact hk

/-- An instruction defines at most one operand. -/
theorem definedIds_cases (i : Instruction) :
    i.definedIds = [] ∨ ∃ y, i.definedIds = [y] := by
  have hlength : i.definedIds.length ≤ 1 := by
    rw [definedIds, Args.length_collect_defined]
    cases i.op <;> decide
  rcases hids : i.definedIds with _ | ⟨y, _ | ⟨z, rest⟩⟩
  · exact .inl rfl
  · exact .inr ⟨y, rfl⟩
  · rw [hids] at hlength
    simp at hlength

end Instruction

/-! ## Trees that can be written -/

theorem ArgKind.wellFormed_tree {k : ArgKind} {a : k.Decoded} (h : k.Encodable a) :
    (k.tree a).WellFormed := by
  cases k with
  | use | define => exact Nat.lt_trans h (by decide)
  | classKind => exact ⟨a.isName_name, by cases a <;> decide, by cases a <;> decide⟩
  | bool => exact trivial
  | int32 =>
      have hlo := a.le_toInt
      have hhi := a.toInt_lt
      exact ⟨by omega, by omega⟩
  | field _ => exact Nat.lt_trans h (by omega)

theorem Instruction.wellFormed_tree {i : Instruction} (h : i.Encodable) : i.tree.WellFormed where
  defined := by
    intro x hx
    obtain ⟨y, hy, rfl⟩ := Option.map_eq_some_iff.mp hx
    exact Nat.lt_trans (h.defined (List.mem_of_mem_head? hy)) (by decide)
  isName_op := i.op.isName_name.1
  op_ne := i.op.isName_name.2
  args := by
    intro t ht
    obtain ⟨x, hx, rfl⟩ := List.mem_map.mp ht
    exact ArgKind.wellFormed_tree (h.explicit x hx).2

theorem Program.wellFormed_tree {p : Program} {is : List Instruction} (h : ∀ i ∈ is, i.Encodable)
    (hfields : p.fields.size ≤ 256) : (p.tree is).WellFormed where
  isName_kind := p.kind.isName_name
  inputs := by
    intro x hx
    have hle : p.kind.numInputs ≤ 2 := by cases p.kind <;> decide
    have hlt : x < p.kind.numInputs := List.mem_range.mp hx
    omega
  lines := by
    intro l hl
    obtain ⟨i, hi, rfl⟩ := List.mem_map.mp hl
    exact Instruction.wellFormed_tree (h i hi)
  fields := by
    intro f hf
    obtain ⟨⟨g, index⟩, hmem, rfl⟩ := List.mem_map.mp hf
    have hindex := (List.mem_zipIdx' hmem).1
    rw [Array.length_toList] at hindex
    exact ⟨Nat.lt_of_lt_of_le hindex (Nat.le_trans hfields (by decide)), g.type.isName_name⟩

/-! ## Printed lines -/

theorem ArgKind.toList_argText (k : ArgKind) (a : k.Decoded) :
    (k.argText a).toList = (k.tree a).layout := by
  cases k with
  | use | define | field => exact String.toList_append
  | classKind | bool | int32 => rfl

namespace Instruction

theorem toList_line (i : Instruction) :
    i.line.toList = [' ', ' '] ++ (i.tree.layout ++ ['\n']) := by
  have hdefined : (if (i.definedIds.map OperandId.text).isEmpty then ""
      else ", ".intercalate (i.definedIds.map OperandId.text) ++ " = ").toList =
        i.tree.defined.elim [] fun x => '%' :: ((Text.decimal x).toList ++ [' ', '=', ' ']) := by
    rw [tree]
    rcases i.definedIds_cases with hids | ⟨y, hids⟩ <;> rw [hids]
    · rfl
    · simp [String.toList_append, OperandId.text]
  have hargs : (if (i.explicit.map fun x => x.1.argText x.2).isEmpty then ""
      else " " ++ ", ".intercalate (i.explicit.map fun x => x.1.argText x.2)).toList =
        if i.tree.args.isEmpty then []
        else ' ' :: [',', ' '].intercalate (i.tree.args.map TreeArg.layout) := by
    rw [tree]
    cases i.explicit with
    | nil => rfl
    | cons x xs =>
        rw [if_neg (by simp), if_neg (by simp), String.toList_append, String.toList_intercalate,
          List.map_map, List.map_map]
        simp only [Function.comp_def, ArgKind.toList_argText]
        rfl
  rw [line, Args.definedTexts_eq, Args.explicitTexts_eq]
  simp only [String.toList_append]
  rw [show Args.collect ArgKind.defined? i.op.schema i.args = i.definedIds from rfl,
    show Args.explicit i.op.schema i.args = i.explicit from rfl, hdefined, hargs, TreeLine.layout]
  simp [tree]

end Instruction

theorem Field.toList_line (index : Nat) (f : Field) :
    (f.line index).toList = [' ', ' '] ++ ((f.tree index).layout ++ ['\n']) := by
  simp [line, tree, TreeField.layout, String.toList_append]

/-! ## Programs -/

/-- A line end before every line and one behind the last. -/
theorem cons_flatMap_append {α : Type} (c : Char) (text : α → List Char) (xs : List α)
    (rest : List Char) :
    c :: (xs.flatMap (fun x => text x ++ [c]) ++ rest) =
      xs.flatMap (fun x => c :: text x) ++ c :: rest := by
  induction xs with
  | nil => rfl
  | cons x xs ih =>
      calc c :: ((x :: xs).flatMap (fun x => text x ++ [c]) ++ rest)
          = c :: (text x ++ (c :: (xs.flatMap (fun x => text x ++ [c]) ++ rest))) := by simp
        _ = (x :: xs).flatMap (fun x => c :: text x) ++ c :: rest := by simp [ih]

namespace Program

theorem toList_fieldLines (p : Program) (is : List Instruction) :
    '\n' :: p.fieldLines.toList = (if (p.tree is).fields.isEmpty then []
      else '\n' :: (['f', 'i', 'e', 'l', 'd', 's', ':'] ++
        (p.tree is).fields.flatMap fun f => indented f.layout)) ++ ['\n'] := by
  cases hempty : p.fields.isEmpty with
  | true =>
      have hnone : (p.tree is).fields.isEmpty = true := by
        rw [tree, Array.isEmpty_iff.mp hempty]
        rfl
      rw [fieldLines, if_pos hempty, if_pos hnone]
      rfl
  | false =>
      have hsome : (p.tree is).fields.isEmpty = false := by
        simpa [tree] using hempty
      have hlines : '\n' :: (String.join (p.fields.toList.mapIdx Field.line)).toList =
          ((p.tree is).fields.flatMap fun f => indented f.layout) ++ ['\n'] := by
        have hcons := cons_flatMap_append '\n' (fun x : Field × Nat =>
          [' ', ' '] ++ (x.1.tree x.2).layout) p.fields.toList.zipIdx []
        rw [String.toList_join, List.mapIdx_eq_zipIdx_map, List.flatMap_map, tree, List.flatMap_map]
        simp only [Field.toList_line, ← List.append_assoc]
        rw [List.append_nil] at hcons
        exact hcons
      rw [fieldLines, if_neg (by simp [hempty]), if_neg (by simp [hsome]), String.toList_append,
        List.cons_append, List.append_assoc, ← hlines]
      rfl

theorem toList_listing (p : Program) (is : List Instruction) :
    (p.header ++ String.join (is.map Instruction.line) ++ p.fieldLines).toList =
      (p.tree is).layout := by
  have hheader : p.header.toList = (p.kind.name.toList ++ '(' :: ([',', ' '].intercalate
      ((List.range p.numInputs).map fun x => '%' :: (Text.decimal x).toList) ++ [')'])) ++
        ['\n'] := by
    rw [header]
    simp [String.toList_append, String.toList_intercalate, OperandId.text, Function.comp_def]
  have hlines : '\n' :: ((is.flatMap fun i => i.line.toList) ++ p.fieldLines.toList) =
      ((p.tree is).lines.flatMap fun l => indented l.layout) ++ '\n' :: p.fieldLines.toList := by
    have hcons := cons_flatMap_append '\n' (fun i : Instruction => [' ', ' '] ++ i.tree.layout) is
      p.fieldLines.toList
    rw [tree, List.flatMap_map]
    simp only [Instruction.toList_line, ← List.append_assoc]
    exact hcons
  rw [Tree.layout, ← toList_fieldLines, ← hlines, String.toList_append, String.toList_append,
    hheader, String.toList_join, List.flatMap_map, List.append_assoc, List.append_assoc]
  rfl

/-- The listing of a program is read as the program's tree. -/
theorem parse?_listing {p : Program} {is : List Instruction} (h : p.Represents is)
    (hfields : p.fields.size ≤ 256) :
    ∃ text, p.listing = .ok text ∧ Tree.parse? text = some (p.tree is) := by
  refine ⟨_, by rw [listing, h.decode]; rfl, ?_⟩
  refine parse?_of_renders (wellFormed_tree h.encodable hfields) ?_
  rw [toList_listing]
  exact (p.tree is).renders_layout

end Program
end InlineCache
