import InlineCache.Proofs.Listing.Resolving

/-!
# What a listing resolves to

A listing that is accepted tells the program (`Tree.Describes`): its lines are the instructions, up
to the numbers of their fields, which count the references; the fields are the declared ones, first
for each reference its own and then those that no line names, by increasing number. The lines are
followed one by one (`Appended`), each beside the step that appends it.

It follows that the order of the declarations does not matter (`Tree.resolve_perm`) and that the
fields that come without an instruction come last, so the listing of the program parses to the same
program again (`exists_parse_listing`).
-/

namespace InlineCache

open Listing

/-! ## Arguments -/

namespace Listing

/-- The argument without the number of its field. -/
def TreeArg.anonymous : TreeArg → TreeArg
  | .field _ => .field 0
  | a => a

/-- The line without the numbers of its fields. -/
def TreeLine.anonymous (l : TreeLine) : TreeLine :=
  { l with args := l.args.map TreeArg.anonymous }

/-- The numbers of the fields that lines name, in order, each as often as it is named. -/
def Tree.references (t : Tree) : List Nat :=
  t.lines.flatMap TreeLine.usedFields

end Listing

/-- The argument as it is written, without the number of its field. -/
def Arg.tree : Arg → TreeArg
  | .operand x => .operand x.index
  | .classKind c => .name c.name
  | .bool b => .bool b
  | .int32 i => .int i.toInt
  | .field _ => .field 0

theorem Args.anonymous_explicit {p : Program} {k d : Nat} {ks : List ArgKind} {as : Args ks}
    (hfits : Args.All (ArgKind.Fits p k d) ks as) :
    ((Args.explicit ks as).map fun x => x.1.tree x.2).map TreeArg.anonymous =
      (Args.collect (ArgKind.supplied? p.fields) ks as).map Arg.tree := by
  induction ks with
  | nil => rfl
  | cons kind ks ih =>
      have hrest := ih hfits.2
      have hhead := hfits.1
      cases kind with
      | define => exact hrest
      | field t =>
          obtain ⟨f, hf, -⟩ := hhead
          rw [Args.collect, ArgKind.supplied?, hf]
          exact congrArg (_ :: ·) hrest
      | _ => exact congrArg (_ :: ·) hrest

namespace Listing

namespace TreeLine

variable {p : Program} {ds : Declarations} {as : List TreeArg} {bs : List Arg}

theorem tree_of_resolves (h : List.Forall₂ (Resolves p ds) as bs) :
    as.map TreeArg.anonymous = bs.map Arg.tree := by
  induction h with
  | nil => rfl
  | cons hab _ ih =>
      rw [List.map_cons, List.map_cons, ih]
      cases hab <;> rfl

/-- The fields of a line are the declared ones. -/
theorem fields_of_resolves {l : TreeLine} (h : List.Forall₂ (Resolves p ds) l.args bs) :
    List.Forall₂ (fun n f => ds.lookup n = some f) l.usedFields (bs.filterMap Arg.field?) := by
  rw [usedFields]
  generalize l.args = as at h ⊢
  induction h with
  | nil => exact .nil
  | cons hab _ ih =>
      cases hab with
      | field hf => exact .cons hf ih
      | _ => exact ih

theorem defined_of_checkDefinition {op : Op} {written : Option Nat} {defined : Option OperandId}
    (h : checkDefinition op written defined = .ok ()) :
    written = defined.map OperandId.index := by
  cases written with
  | none =>
      cases defined with
      | none => rfl
      | some got => cases h
  | some want =>
      cases defined with
      | none => cases h
      | some got =>
          rw [checkDefinition] at h
          split at h
          · next heq => rw [← heq, Option.map_some]
          · cases h

end TreeLine

/-! ## Lines -/

/-- The lines were appended to a program of instructions `is`, as instructions `js` and by the
steps `ss`. -/
structure Appended (ds : Declarations) (ls : List TreeLine) (p p' : Program)
    (is js : List Instruction) (ss : List BuildStep) : Prop where
  represents : p'.Represents (is ++ js)
  kind : p'.kind = p.kind
  build : Program.build ss p = .ok () p'
  emits : ∀ s ∈ ss, s.isEmit = true
  lines : js.map (fun i => i.tree.anonymous) = ls.map TreeLine.anonymous
  fields : List.Forall₂ (fun n f => ds.lookup n = some f) (ls.flatMap TreeLine.usedFields)
    (ss.flatMap BuildStep.fields)
  indices : js.flatMap Instruction.fieldIndices =
    List.range' p.fields.size (ss.flatMap BuildStep.fields).length

theorem Appended.append {ds : Declarations} {ls ls' : List TreeLine} {p p₁ p' : Program}
    {is js js' : List Instruction} {ss ss' : List BuildStep} (h : Appended ds ls p p₁ is js ss)
    (h' : Appended ds ls' p₁ p' (is ++ js) js' ss') :
    Appended ds (ls ++ ls') p p' is (js ++ js') (ss ++ ss') where
  represents := by
    rw [← List.append_assoc]
    exact h'.represents
  kind := h'.kind.trans h.kind
  build := Program.build_append.mpr ⟨p₁, h.build, h'.build⟩
  emits s hs := (List.mem_append.mp hs).elim (h.emits s) (h'.emits s)
  lines := by rw [List.map_append, List.map_append, h.lines, h'.lines]
  fields := by
    rw [List.flatMap_append, List.flatMap_append]
    exact List.rel_append h.fields h'.fields
  indices := by
    have hsize : p₁.fields.size = p.fields.size + (ss.flatMap BuildStep.fields).length := by
      rw [Program.fields_build h.build, Array.size_append]
      rfl
    rw [List.flatMap_append, List.flatMap_append, h.indices, h'.indices, hsize,
      List.length_append, List.range'_append_1]

/-- A line is appended as the instruction that it says. -/
theorem TreeLine.appended {l : TreeLine} {op : Op} {ds : Declarations} {p p' : Program}
    {is : List Instruction} (hp : p.Represents is) (hop : Op.ofName? l.op = some op)
    (h : l.resolve op ds p = .ok p') : ∃ i s, Appended ds [l] p p' is [i] [s] := by
  obtain ⟨args, defined, hlen, hargs, -, hemit, hdefinition⟩ := of_resolve_ok h
  obtain ⟨as, p₁, hw, rfl, hdefined⟩ := Program.emit_writes hp.few hp.lastUsed_le hemit
  have hresolves := resolves_of_resolveArgs hlen hargs
  have hfields : [BuildStep.emit op args].flatMap BuildStep.fields = args.filterMap Arg.field? :=
    List.append_nil _
  refine ⟨⟨op, as⟩, .emit op args, hp.append hw, hw.grows.kind, ?_, by simp [BuildStep.isEmit],
    ?_, ?_, ?_⟩
  · exact (bind_of_ok (show BuildStep.run (.emit op args) p = .ok () _ from bind_of_ok hemit)).trans
      rfl
  · have hwritten := defined_of_checkDefinition hdefinition
    have hhead : defined = (Instruction.definedIds ⟨op, as⟩).head? := by
      rw [hdefined]
      rcases Instruction.definedIds_cases ⟨op, as⟩ with hids | ⟨y, hids⟩ <;> rw [hids] <;> rfl
    have htree : ((Args.explicit op.schema as).map fun x => x.1.tree x.2).map TreeArg.anonymous =
        l.args.map TreeArg.anonymous := by
      rw [Args.anonymous_explicit hw.fits, hw.supplied, tree_of_resolves hresolves]
    rw [List.map_singleton, List.map_singleton, anonymous, anonymous, Instruction.tree,
      Instruction.explicit, htree, ← hhead, ← hwritten, Op.name_of_ofName? hop]
  · rw [hfields, List.flatMap_singleton]
    exact fields_of_resolves hresolves
  · rw [hfields, List.flatMap_singleton]
    exact hw.indices

theorem Tree.appended {ls : List TreeLine} {ds : Declarations} {number : Nat} {p p' : Program}
    {is : List Instruction} (hp : p.Represents is) (h : resolveLines ds number ls p = .ok p') :
    ∃ js ss, Appended ds ls p p' is js ss := by
  induction ls generalizing number p is with
  | nil =>
      cases h
      refine ⟨[], [], ?_, rfl, rfl, by simp, rfl, .nil, rfl⟩
      rw [List.append_nil]
      exact hp
  | cons l ls ih =>
      rw [resolveLines] at h
      split at h
      · cases h
      next op hop =>
      obtain ⟨p₁, hline, hrest⟩ := exists_of_except_bind h
      obtain ⟨i, s, hfirst⟩ := TreeLine.appended hp hop (of_mapError_ok hline)
      obtain ⟨js, ss, hlater⟩ := ih hfirst.represents hrest
      exact ⟨_, _, hfirst.append hlater⟩

/-! ## The order of declarations -/

section
variable {ds ds' : Declarations} (h : ∀ n, ds'.lookup n = ds.lookup n)
include h

theorem TreeLine.resolveArgs_congr (p : Program) (ks : List ArgKind) (as : List TreeArg) :
    resolveArgs p ds' ks as = resolveArgs p ds ks as := by
  induction ks generalizing as with
  | nil => rfl
  | cons k ks ih =>
      obtain _ | ⟨a, as⟩ := as
      · rfl
      have hhead : resolveArg p ds' k a = resolveArg p ds k a := by
        cases k <;> cases a <;> first | rfl | rw [resolveArg, resolveArg, h]
      rw [resolveArgs, resolveArgs, hhead, ih]

/-- Lines see declarations only by looking fields up. -/
theorem Tree.resolveLines_congr (number : Nat) (ls : List TreeLine) (p : Program) :
    resolveLines ds' number ls p = resolveLines ds number ls p := by
  induction ls generalizing number p with
  | nil => rfl
  | cons l ls ih =>
      have hline : ∀ op, l.resolve op ds' p = l.resolve op ds p := by
        intro op
        rw [TreeLine.resolve, TreeLine.resolve]
        simp only [TreeLine.resolveArgs_congr h]
      rw [resolveLines, resolveLines]
      simp only [hline, ih]

end

theorem Tree.resolve_perm {t : Tree} {p : Program} {fs : List TreeField}
    (hperm : fs.Perm t.fields) (h : t.resolve = .ok p) :
    ({ t with fields := fs } : Tree).resolve = .ok p := by
  obtain ⟨kind, ds, p₁, hkind, hinputs, hds, hlines, hroom, rfl⟩ := resolve_eq_ok_iff.mp h
  obtain ⟨ds', hds', hsame⟩ := Declarations.add_perm hperm hds
  have hnodup := (Declarations.of_add_nil hds).1
  have hunused := Declarations.unused_perm hnodup hsame
  refine resolve_eq_ok_iff.mpr ⟨kind, ds', p₁, hkind, hinputs, hds', ?_, ?_, ?_⟩
  · rw [resolveLines_congr (Declarations.lookup_perm hnodup hsame)]
    exact hlines
  · rw [hunused]
    exact hroom
  · rw [hunused]

/-! ## Programs -/

/-- The program is what the listing says. The lines name the fields anew, in order; the fields that
no line names follow, by increasing number. -/
structure Tree.Describes (t : Tree) (p : Program) (is : List Instruction) (rest : List Nat) :
    Prop where
  kind : t.kind = p.kind.name
  inputs : t.inputs = List.range p.numInputs
  decode : Instruction.decode p.code.toList = .ok is
  lines : is.map (fun i => i.tree.anonymous) = t.lines.map TreeLine.anonymous
  references : is.flatMap Instruction.fieldIndices = List.range t.references.length
  declaredOnce : (t.fields.map TreeField.index).Nodup
  fields : List.Forall₂ (fun n f => f.tree n ∈ t.fields) (t.references ++ rest) p.fields.toList
  sorted : rest.Pairwise (· < ·)
  unreferenced : ∀ n, n ∈ rest ↔ n ∈ t.fields.map TreeField.index ∧ n ∉ t.references
  operand_le : ∀ i ∈ is, ∀ x ∈ i.usedIds ++ i.definedIds, x.index ≤ 255
  field_le : ∀ index < p.fields.size, index ≤ 255
  used : ∀ {before i after}, is = before ++ i :: after → ∀ x ∈ i.usedIds,
    x.index < p.numInputs ∨ x ∈ before.flatMap Instruction.definedIds

end Listing

namespace Program.Represents

variable {p : Program} {is : List Instruction}

theorem addFields (h : p.Represents is) (fs : List Field) :
    Represents { p with fields := p.fields ++ fs.toArray } is := by
  induction fs generalizing p with
  | nil => simpa using h
  | cons f fs ih =>
      have hnext := @ih { p with fields := p.fields.push f } (h.addField rfl)
      rwa [List.push_append_toArray] at hnext

/-- An operand that is read was there before. -/
theorem lt_of_mem_usedIds (h : p.Represents is) {before after : List Instruction} {i : Instruction}
    (hsplit : is = before ++ i :: after) {x : OperandId} (hx : x ∈ i.usedIds) :
    x.index < p.numInputs + Instruction.numDefs before := by
  refine (h.fits hsplit).of_mem_collect (Q := fun x => x.index < _) ?_ hx
  intro k a b hfits hb
  cases k with
  | use =>
      cases hb
      exact hfits.1
  | _ => cases hb

theorem used (h : p.Represents is) {before after : List Instruction} {i : Instruction}
    (hsplit : is = before ++ i :: after) {x : OperandId} (hx : x ∈ i.usedIds) :
    x.index < p.numInputs ∨ x ∈ before.flatMap Instruction.definedIds := by
  have hlt := h.lt_of_mem_usedIds hsplit hx
  by_cases hinput : x.index < p.numInputs
  · exact .inl hinput
  · refine .inr ?_
    rw [h.definedIds_before hsplit]
    exact List.mem_map.mpr ⟨x.index, List.mem_range'_1.mpr ⟨Nat.le_of_not_lt hinput, hlt⟩, rfl⟩

theorem operand_le (h : p.Represents is) {i : Instruction} (hi : i ∈ is) {x : OperandId}
    (hx : x ∈ i.usedIds ++ i.definedIds) : x.index ≤ 255 := by
  obtain ⟨before, after, hsplit⟩ := List.append_of_mem hi
  have hfew := h.few
  have hoperands := h.operands
  rw [hsplit, Instruction.numDefs_append, Instruction.numDefs_cons] at hoperands
  obtain hx | hx := List.mem_append.mp hx
  · have hlt := h.lt_of_mem_usedIds hsplit hx
    omega
  · rw [Instruction.definedIds, collect_defined (orderly_schema i.op) (h.fits hsplit)] at hx
    obtain ⟨n, hn, rfl⟩ := List.mem_map.mp hx
    have hlt := (List.mem_range'_1.mp hn).2
    change n < _ + i.op.numDefs at hlt
    show n ≤ 255
    omega

end Program.Represents

namespace Listing

/-- Instructions first, then fields. -/
theorem late_append {ss : List BuildStep} (h : ∀ s ∈ ss, s.isEmit = true) (fs : List Field) :
    Program.Late (ss ++ fs.map BuildStep.addField) := by
  refine List.pairwise_append.mpr ⟨?_, ?_, fun s hs t _ hadd => ?_⟩
  · refine List.pairwise_of_forall_mem_list fun s hs t _ hadd => ?_
    rw [h s hs] at hadd
    cases hadd
  · refine List.pairwise_map.mpr (List.pairwise_of_forall fun f g _ hemit => ?_)
    cases hemit
  · rw [h s hs] at hadd
    cases hadd

namespace Declarations

variable {ds : Declarations} {t : Tree} (h : add [] t.fields = .ok ds)
include h

theorem tree_mem {n : Nat} {f : Field} (hmem : (n, f) ∈ ds) : f.tree n ∈ t.fields :=
  (of_add_nil h).2.mem_iff.mp (List.mem_map.mpr ⟨(n, f), hmem, rfl⟩)

theorem perm_index : (ds.map Prod.fst).Perm (t.fields.map TreeField.index) := by
  have hperm := (of_add_nil h).2.map TreeField.index
  rw [List.map_map] at hperm
  exact hperm

end Declarations

/-- A listing that is resolved describes the program. -/
theorem Tree.describes_of_resolve {t : Tree} {p : Program} (h : t.resolve = .ok p) :
    ∃ is rest, t.Describes p is rest := by
  obtain ⟨kind, ds, p₁, hkind, hinputs, hds, hlines, hroom, rfl⟩ := resolve_eq_ok_iff.mp h
  obtain ⟨is, ss, happended⟩ := appended (Program.represents_empty kind) hlines
  have hnodup := (Declarations.of_add_nil hds).1
  obtain ⟨sorted, hperm, hsorted⟩ := Declarations.exists_sorted hnodup t.references
  have hunused : ds.unused t.references = sorted.map Prod.snd :=
    Declarations.unused_eq hperm hsorted
  have hmem : ∀ d ∈ sorted, d ∈ ds := fun d hd => (List.mem_filter.mp (hperm.mem_iff.mp hd)).1
  have hfields : p₁.fields.toList = ss.flatMap BuildStep.fields := by
    rw [Program.fields_build happended.build]
    simp [Program.empty]
  have hrepresents := happended.represents.addFields (ds.unused t.references)
  rw [List.nil_append] at hrepresents
  refine ⟨is, sorted.map Prod.fst, ?_, ?_, hrepresents.decode, happended.lines, ?_, ?_, ?_, ?_, ?_,
    fun i hi x hx => hrepresents.operand_le hi hx, fun index hindex => ?_,
    fun hsplit x hx => hrepresents.used hsplit hx⟩
  · exact (CacheKind.name_of_ofName? hkind).symm.trans (congrArg CacheKind.name happended.kind.symm)
  · exact hinputs.trans (congrArg (fun k => List.range k.numInputs) happended.kind.symm)
  · rw [happended.indices, references, happended.fields.length_eq, List.range_eq_range']
    rfl
  · exact (Declarations.perm_index hds).nodup_iff.mp hnodup
  · have hrest : List.Forall₂ (fun n f => f.tree n ∈ t.fields) (sorted.map Prod.fst)
        (sorted.map Prod.snd) := by
      rw [List.forall₂_map_left_iff, List.forall₂_map_right_iff, List.forall₂_same]
      exact fun d hd => Declarations.tree_mem hds (hmem d hd)
    have hlist : (p₁.fields ++ (ds.unused t.references).toArray).toList =
        ss.flatMap BuildStep.fields ++ sorted.map Prod.snd := by
      rw [Array.toList_append, hfields, hunused]
    have hnamed := happended.fields.imp fun n f hf =>
      Declarations.tree_mem hds ((Declarations.lookup_eq_some_iff hnodup).mp hf)
    exact hlist ▸ List.rel_append hnamed hrest
  · exact List.pairwise_map.mpr hsorted
  · intro n
    rw [← (Declarations.perm_index hds).mem_iff, (hperm.map Prod.fst).mem_iff]
    simp [List.mem_map, List.mem_filter]
  · change index < (p₁.fields ++ (ds.unused t.references).toArray).size at hindex
    rw [Array.size_append] at hindex
    exact Nat.le_of_lt_succ (Nat.lt_of_lt_of_le hindex hroom)

/-- The program of a listing can be built by appending instructions and then fields. -/
theorem Tree.exists_build {t : Tree} {p : Program} (h : t.resolve = .ok p) :
    p.fields.size ≤ 256 ∧
      ∃ kind ss, Program.Late ss ∧ Program.build ss (.empty kind) = .ok () p := by
  obtain ⟨kind, ds, p₁, -, -, -, hlines, hroom, rfl⟩ := resolve_eq_ok_iff.mp h
  obtain ⟨is, ss, happended⟩ := appended (Program.represents_empty kind) hlines
  refine ⟨?_, kind, _, late_append happended.emits (ds.unused t.references),
    Program.build_append.mpr ⟨p₁, happended.build, ?_⟩⟩
  · rw [Array.size_append]
    exact hroom
  · rw [Program.build_addFields (by simp [BuildStep.isEmit])]
    simp [List.flatMap_map, BuildStep.fields, references]

/-- The listing of a program that was parsed parses to the program. -/
theorem exists_parse_listing {text : String} {p : Program} (h : parse text = .ok p) :
    ∃ text', p.listing = .ok text' ∧ parse text' = .ok p := by
  rw [parse] at h
  split at h
  · cases h
  next t _ =>
  obtain ⟨hfields, kind, ss, hlate, hbuild⟩ := Tree.exists_build (of_mapError_ok h)
  obtain ⟨is, hrecords⟩ := Program.exists_records hbuild
  obtain ⟨text', hlisting, htree⟩ := Program.parse?_listing hrecords.represents hfields
  refine ⟨text', hlisting, ?_⟩
  have hresolve := Tree.resolve_tree hbuild hrecords (Program.build_reordered_eq hlate hbuild)
    hfields
  rw [parse, htree]
  simp only [hresolve]
  rfl

/-- Reading a text never comes to an instruction that a program refuses. A text that is accepted
describes the program, so:
- the same declarations in another order give the same program;
- the listing of the program gives the program again. -/
theorem parse_describes (text : String) :
    (∀ line err, parse text ≠ .error (.resolve (.line line (.build err)))) ∧
    ∀ p, parse text = .ok p → ∃ t is rest, Tree.parse? text = some t ∧ t.Describes p is rest ∧
      (∀ fs text', fs.Perm t.fields → Tree.parse? text' = some { t with fields := fs } →
        parse text' = .ok p) ∧
      ∃ text', p.listing = .ok text' ∧ parse text' = .ok p := by
  refine ⟨fun line err => parse_ne_build, fun p h => ?_⟩
  have hlisting := exists_parse_listing h
  rw [parse] at h
  split at h
  · cases h
  next t ht =>
  have hresolve := of_mapError_ok h
  obtain ⟨is, rest, hdescribes⟩ := Tree.describes_of_resolve hresolve
  refine ⟨t, is, rest, ht, hdescribes, fun fs text' hperm ht' => ?_, hlisting⟩
  rw [parse, ht']
  simp only [Tree.resolve_perm hperm hresolve]
  rfl

/-- Names one shape twice and may declare other fields. -/
def twoShapes (declarations : String) : String :=
  "GetProp(%0)\nGuardShape %0, #7\nGuardShape %0, #7\nReturnFromIC\nfields:" ++ declarations

def Tree.twoShapes (fields : List TreeField) : Tree where
  kind := "GetProp"
  inputs := [0]
  lines := [⟨none, "GuardShape", [.operand 0, .field 7]⟩,
    ⟨none, "GuardShape", [.operand 0, .field 7]⟩, ⟨none, "ReturnFromIC", []⟩]
  fields := fields

/-- The field that no line names comes last, wherever it is declared. -/
theorem parse_describes_twoShapes :
    ∃ p is rest, parse (twoShapes "\n#5 Id 0x8\n#7 Shape 0x10") = .ok p ∧
      parse (twoShapes "\n#7 Shape 0x10\n#5 Id 0x8") = .ok p ∧
      p.fields = #[⟨.shape, 0x10⟩, ⟨.shape, 0x10⟩, ⟨.id, 8⟩] ∧
      (Tree.twoShapes [⟨5, "Id", 8⟩, ⟨7, "Shape", 0x10⟩]).Describes p is rest ∧
      ∃ text, p.listing = .ok text ∧ parse text = .ok p := by
  have htree : Tree.parse? (twoShapes "\n#5 Id 0x8\n#7 Shape 0x10") =
      some (.twoShapes [⟨5, "Id", 8⟩, ⟨7, "Shape", 0x10⟩]) := by
    decide +kernel
  have htree' : Tree.parse? (twoShapes "\n#7 Shape 0x10\n#5 Id 0x8") =
      some (.twoShapes [⟨7, "Shape", 0x10⟩, ⟨5, "Id", 8⟩]) := by
    decide +kernel
  have hfields : (Tree.twoShapes [⟨5, "Id", 8⟩, ⟨7, "Shape", 0x10⟩]).resolve.toOption.any
      (fun p => p.fields = #[⟨.shape, 0x10⟩, ⟨.shape, 0x10⟩, ⟨.id, 8⟩]) = true := by
    decide +kernel
  cases hresolve : (Tree.twoShapes [⟨5, "Id", 8⟩, ⟨7, "Shape", 0x10⟩]).resolve with
  | error err =>
      rw [hresolve] at hfields
      cases hfields
  | ok p =>
      rw [hresolve] at hfields
      have hparse : parse (twoShapes "\n#5 Id 0x8\n#7 Shape 0x10") = .ok p := by
        rw [parse, htree]
        simp only [hresolve]
        rfl
      obtain ⟨t, is, rest, ht, hdescribes, hperm, hlisting⟩ := (parse_describes _).2 p hparse
      cases htree.symm.trans ht
      exact ⟨p, is, rest, hparse, hperm _ _ (by decide) htree', of_decide_eq_true hfields,
        hdescribes, hlisting⟩

end Listing
end InlineCache
