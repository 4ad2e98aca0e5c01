import InlineCache.Proofs.Listing.Declared
import InlineCache.Proofs.Listing.Parsed

/-!
# Resolving the tree of a program

The tree of a program resolves to the program that the same steps make when the fields that were
added by hand come last (`resolve_tree`). The lines are followed one by one beside the steps: each
line supplies the arguments that its step supplied, because the declarations say what the fields of
the program say, and it defines the operand that its step defined.
-/

namespace InlineCache

namespace Listing

/-! ## Arguments -/

namespace TreeLine

section
variable {p q : Program} {ds : Declarations} {k d : Nat}
  (hds : ∀ {index : Nat} {f : Field}, p.fields[index]? = some f → ds.lookup index = some f)
  (hd : d ≤ q.numOperands)
include hds hd

theorem resolveArg_tree {kind : ArgKind} {a : kind.Decoded} (hfits : kind.Fits p k d a)
    (hkind : kind ≠ .define) :
    ∃ b, resolveArg q ds kind (kind.tree a) = .ok b ∧ kind.supplied? p.fields a = some b := by
  cases kind with
  | use => exact ⟨_, if_pos (Nat.lt_of_lt_of_le hfits.1 hd), rfl⟩
  | define => exact absurd rfl hkind
  | classKind =>
      refine ⟨.classKind a, ?_, rfl⟩
      rw [ArgKind.tree, resolveArg, ClassKind.ofName?_name]
  | bool => exact ⟨_, rfl, rfl⟩
  | int32 =>
      refine ⟨.int32 a, ?_, rfl⟩
      rw [ArgKind.tree, resolveArg, if_pos ⟨a.le_toInt, a.toInt_lt⟩, Int32.ofInt_toInt]
  | field t =>
      obtain ⟨f, hf, -⟩ := hfits
      refine ⟨.field f, ?_, ?_⟩
      · rw [ArgKind.tree, resolveArg, hds hf]
      · rw [ArgKind.supplied?, hf]
        rfl

/-- A line supplies what was supplied to the instruction. -/
theorem resolveArgs_tree {ks : List ArgKind} {as : Args ks}
    (hfits : Args.All (ArgKind.Fits p k d) ks as) :
    resolveArgs q ds (ks.filter (· != .define)) ((Args.explicit ks as).map fun x => x.1.tree x.2) =
      .ok (Args.collect (ArgKind.supplied? p.fields) ks as) := by
  induction ks with
  | nil => rfl
  | cons kind ks ih =>
      have hrest := ih hfits.2
      by_cases hkind : kind = .define
      · subst hkind
        exact hrest
      · obtain ⟨b, hb, hsupplied⟩ := resolveArg_tree hds hd hfits.1 hkind
        rw [List.filter_cons_of_pos (by simpa using hkind), Args.explicit, if_neg hkind,
          List.map_cons, resolveArgs, hb, hrest, Args.collect, hsupplied]
        rfl

end

theorem length_explicit (ks : List ArgKind) (as : Args ks) :
    (ks.filter (· != .define)).length = (Args.explicit ks as).length := by
  induction ks with
  | nil => rfl
  | cons kind ks ih =>
      by_cases hkind : kind = .define
      · subst hkind
        exact ih as.2
      · rw [List.filter_cons_of_pos (by simpa using hkind), Args.explicit, if_neg hkind,
          List.length_cons, List.length_cons, ih as.2]

/-- A line uses the fields that the instruction names. -/
theorem usedFields_tree (i : Instruction) : i.tree.usedFields = i.fieldIndices := by
  have hargs : ∀ (ks : List ArgKind) (as : Args ks),
      usedFields ⟨none, "", (Args.explicit ks as).map fun x => x.1.tree x.2⟩ =
        Args.collect ArgKind.fieldIndex? ks as := by
    intro ks as
    induction ks with
    | nil => rfl
    | cons kind ks ih =>
        cases kind with
        | field t => exact congrArg (as.1 :: ·) (ih as.2)
        | _ => exact ih as.2
  exact hargs i.op.schema i.args

/-! ## Lines -/

/-- A line appends what its step appended. -/
theorem resolve_tree_line {p q q' : Program} {js : List Instruction} {ds : Declarations} {k : Nat}
    {i : Instruction} {defined : Option OperandId}
    (hds : ∀ {index : Nat} {f : Field}, p.fields[index]? = some f → ds.lookup index = some f)
    (hfits : Args.All (ArgKind.Fits p k q.numOperands) i.op.schema i.args) (hq : q.Represents js)
    (hemit : Program.emit i.op (i.supplied p.fields) q = .ok defined q')
    (hfields : q'.fields.size ≤ 256) : i.tree.resolve i.op ds q = .ok q' := by
  obtain ⟨as, q₁, hw, rfl, hdefined⟩ := Program.emit_writes hq.few hq.lastUsed_le hemit
  have hargs : resolveArgs q ds i.op.explicitArgs i.tree.args = .ok (i.supplied p.fields) :=
    resolveArgs_tree hds (Nat.le_refl _) hfits
  have hcount : i.op.explicitArgs.length = i.tree.args.length :=
    (length_explicit _ _).trans (List.length_map _).symm
  have hcheck := Program.checkArgs_of_emit hemit
  have hoperands : ¬ (0 < i.op.numDefs ∧ 255 < q.numOperands) := by
    rintro ⟨hdef, hmany⟩
    have hsize : q₁.lastUsed.size = q.numOperands + i.op.numDefs := hw.operands
    have hfew := hw.few
    omega
  have hroom : ¬ 256 < q.fields.size + (i.supplied p.fields).countP isField := by
    have hsize : q₁.fields.size = q.fields.size + _ := hw.size_fields
    rw [countP_isField, ← hsize]
    exact Nat.not_lt_of_le hfields
  have hsame : Instruction.definedIds ⟨i.op, as⟩ = i.definedIds :=
    (Program.collect_defined (Program.orderly_schema i.op) hw.fits).trans
      (Program.collect_defined (Program.orderly_schema i.op) hfits).symm
  have hdefinition : checkDefinition i.op i.tree.defined defined = .ok () := by
    rw [hdefined, hsame, Instruction.tree]
    rcases i.definedIds_cases with hids | ⟨y, hids⟩ <;> rw [hids]
    · rfl
    · exact if_pos rfl
  rw [resolve, if_neg (by simpa using hcount), hargs]
  simp only [bind, Except.bind, hcheck, Except.mapError, if_neg hoperands, if_neg hroom,
    EStateM.run, hemit, hdefinition]
  rfl

end TreeLine

namespace Tree

/-- The lines append what the steps appended. -/
theorem resolveLines_tree {p q q' : Program} {ds : Declarations} {number : Nat}
    {before is js : List Instruction}
    (hds : ∀ {index : Nat} {f : Field}, p.fields[index]? = some f → ds.lookup index = some f)
    (hp : p.Represents (before ++ is)) (hq : q.Represents js) (hkind : q.kind = p.kind)
    (hdefs : Instruction.numDefs js = Instruction.numDefs before)
    (hbuild : Program.build (is.map fun i => .emit i.op (i.supplied p.fields)) q = .ok () q')
    (hfields : q'.fields.size ≤ 256) :
    resolveLines ds number (is.map Instruction.tree) q = .ok q' := by
  induction is generalizing q before js number with
  | nil =>
      cases hbuild
      rfl
  | cons i is ih =>
      obtain ⟨⟨⟩, q₁, hstep, hrest⟩ := exists_of_bind_ok hbuild
      obtain ⟨defined, q₂, hemit, hend⟩ := exists_of_bind_ok hstep
      cases hend
      have hoperands : q.numOperands = p.numInputs + Instruction.numDefs before := by
        rw [hq.operands, hdefs, Program.numInputs, Program.numInputs, hkind]
      have hfits := hp.fits rfl
      rw [← hoperands] at hfits
      obtain ⟨as, q₂, hw, hq₁, -⟩ := Program.emit_writes hq.few hq.lastUsed_le hemit
      have hline : i.tree.resolve i.op ds q = .ok q₁ :=
        TreeLine.resolve_tree_line hds hfits hq hemit
          (Nat.le_trans (Program.size_fields_build hrest) hfields)
      have hnext := @ih q₁ (number + 1) (before ++ [i]) (js ++ [⟨i.op, as⟩]) (by simpa using hp)
        (hq₁ ▸ hq.append hw) (by rw [hq₁]; exact hw.grows.kind.trans hkind)
        (by simp [hdefs, Instruction.numDefs]) hrest
      rw [List.map_cons, resolveLines]
      have hname : Op.ofName? i.tree.op = some i.op := i.op.ofName?_name
      simp only [hname, hline]
      exact hnext

/-- The tree of a program resolves to what the reordered steps make. -/
theorem resolve_tree {kind : CacheKind} {ss : List BuildStep} {p r : Program}
    {is : List Instruction} (hbuild : Program.build ss (.empty kind) = .ok () p)
    (hp : p.Records (ss.filterMap BuildStep.call?) is)
    (hr : Program.build (Program.reordered ss) (.empty kind) = .ok () r)
    (hfields : r.fields.size ≤ 256) : (p.tree is).resolve = .ok r := by
  obtain ⟨js, hjs, hkind, hleft⟩ := (Program.represents_empty kind).leftOver_build hbuild
  obtain rfl := hp.represents.unique hjs rfl
  obtain ⟨q, hemits, hadds⟩ := Program.build_append.mp hr
  rw [← Program.map_call?, ← hp.calls, List.map_map] at hemits
  rw [Program.build_addFields (by simp) q] at hadds
  cases hadds
  have hds := @Declarations.add_ofFields [] p.fields.toList 0 (by simp)
  have hlines : resolveLines (Declarations.ofFields p.fields.toList 0 ++ []) 0
      (is.map Instruction.tree) (.empty kind) = .ok q := by
    refine @resolveLines_tree p (.empty kind) q _ 0 [] is [] (fun hf => ?_) hp.represents
      (Program.represents_empty kind) hkind.symm rfl hemits ?_
    · rw [List.append_nil]
      exact Declarations.lookup_ofFields (by simpa using hf)
    · refine Nat.le_trans ?_ hfields
      rw [Array.size_append]
      exact Nat.le_add_right _ _
  have hrest : (Declarations.ofFields p.fields.toList 0 ++ []).unused
      ((is.map Instruction.tree).flatMap TreeLine.usedFields) =
        (ss.filter fun s => !s.isEmit).flatMap BuildStep.fields := by
    rw [List.append_nil, Declarations.unused_ofFields, List.flatMap_map]
    simp only [TreeLine.usedFields_tree]
    exact hleft
  refine resolve_eq_ok_iff.mpr ⟨kind, _, q, ?_, ?_, hds, hlines, ?_, ?_⟩
  · rw [← show p.kind = kind from hkind]
    exact p.kind.ofName?_name
  · rw [← show p.kind = kind from hkind]
    rfl
  · rw [Array.size_append] at hfields
    exact (congrArg (q.fields.size + ·.length) hrest).trans_le hfields
  · rw [show (p.tree is).lines = is.map Instruction.tree from rfl, hrest]

end Tree
end Listing
end InlineCache
