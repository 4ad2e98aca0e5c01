import InlineCache.Proofs.Listing.Resolving

/-!
# Listings and programs

The listing of a program parses to the same instructions (`parse_listing`). Parsing numbers the
fields anew, by use and not by the time they were added, so a field may move; what an instruction
supplies does not change. Fields that were added by hand and came last stay where they are, and
then the listing parses to the very same program.
-/

namespace InlineCache.Program

/-- The same instructions define the same operands, whatever fields they name. -/
theorem Represents.map_definedIds {p q : Program} {is js : List Instruction}
    (hp : p.Represents is) (hq : q.Represents js) (hkind : q.kind = p.kind)
    (hops : js.map Instruction.op = is.map Instruction.op) :
    js.map Instruction.definedIds = is.map Instruction.definedIds := by
  have hrest : ∀ {before rest before' rest' : List Instruction}, is = before ++ rest →
      js = before' ++ rest' → Instruction.numDefs before' = Instruction.numDefs before →
      rest'.map Instruction.op = rest.map Instruction.op →
      rest'.map Instruction.definedIds = rest.map Instruction.definedIds := by
    intro before rest before' rest' his hjs hdefs hops'
    induction rest generalizing before before' rest' with
    | nil =>
        rw [List.map_eq_nil_iff.mp hops']
    | cons i rest ih =>
        obtain _ | ⟨j, rest'⟩ := rest'
        · cases hops'
        obtain ⟨hop, htail⟩ := List.cons.inj hops'
        have hi := collect_defined (orderly_schema i.op) (hp.fits his)
        have hj := collect_defined (orderly_schema j.op) (hq.fits hjs)
        have hhead : j.definedIds = i.definedIds := by
          refine hj.trans (Eq.trans ?_ hi.symm)
          rw [hop, hdefs, numInputs, numInputs, hkind]
        rw [List.map_cons, List.map_cons, hhead]
        refine congrArg (_ :: ·) (@ih (before ++ [i]) (before' ++ [j]) rest' ?_ ?_ ?_ htail)
        · simpa using his
        · simpa using hjs
        · simp [hdefs, hop, Instruction.numDefs]
  exact hrest (List.nil_append is).symm (List.nil_append js).symm rfl hops

/-- A program is recovered from its listing up to the numbers of its fields, and exactly if no
field of an instruction was added after one that was added by hand. -/
theorem parse_listing {kind : CacheKind} {ss : List BuildStep} {p : Program}
    (hbuild : build ss (empty kind) = .ok () p) (hfields : p.fields.size ≤ 256) :
    ∃ text q is js, p.listing = .ok text ∧ Listing.parse text = .ok q ∧
      Instruction.decode p.code.toList = .ok is ∧ Instruction.decode q.code.toList = .ok js ∧
      js.map (fun j => (j.op, j.supplied q.fields, j.definedIds)) =
        is.map (fun i => (i.op, i.supplied p.fields, i.definedIds)) ∧
      q.kind = p.kind ∧ q.numInstructions = p.numInstructions ∧ q.lastUsed = p.lastUsed ∧
      q.fields.toList.Perm p.fields.toList ∧
      (Late ss → q = p ∧ q.listing = .ok text) := by
  obtain ⟨is, hp⟩ := exists_records hbuild
  obtain ⟨code, hr⟩ := exists_build_reordered hbuild
  obtain ⟨js, hq⟩ := exists_records hr
  rw [filterMap_reordered] at hq
  have hperm : ((reordered ss).flatMap BuildStep.fields).Perm p.fields.toList := by
    rw [fields_build hbuild, empty, Array.empty_append, List.toList_toArray]
    exact (List.filter_append_perm BuildStep.isEmit ss).flatMap_right _
  have hsize : ((reordered ss).flatMap BuildStep.fields).length ≤ 256 := by
    rw [hperm.length_eq]
    exact hfields
  obtain ⟨text, htext, htree⟩ := parse?_listing hp.represents hfields
  have hparse : Listing.parse text =
      .ok (p.swap ((reordered ss).flatMap BuildStep.fields).toArray code) := by
    rw [Listing.parse, htree]
    exact congrArg (Except.mapError Listing.ParseError.resolve)
      (Listing.Tree.resolve_tree hbuild hp hr hsize)
  have hdefined := hp.represents.map_definedIds hq.represents rfl (by
    have hops := congrArg (List.map Prod.fst) (hq.calls.trans hp.calls.symm)
    rw [List.map_map, List.map_map] at hops
    exact hops)
  have hsame := congrArg₂ (fun cs ds => (List.zip cs ds).map fun x => (x.1.1, x.1.2, x.2))
    (hq.calls.trans hp.calls.symm) hdefined
  simp only [List.zip_map', List.map_map] at hsame
  refine ⟨text, _, is, js, htext, hparse, hp.represents.decode, hq.represents.decode, hsame, rfl,
    rfl, rfl, hperm, fun hlate => ?_⟩
  have hsame := (build_reordered_eq hlate hbuild).symm.trans hr
  injection hsame with _ hsame
  rw [← hsame]
  exact ⟨rfl, htext⟩

/-- The field that no instruction names comes first, so it moves, unless it is added last. -/
theorem parse_listing_sumSteps :
    (∃ p text q, build Instruction.sumSteps (empty .binaryArith) = .ok () p ∧
      p.listing = .ok text ∧ Listing.parse text = .ok q ∧ q.lastUsed = p.lastUsed ∧
      q.fields.toList.Perm [⟨.rawWord, 8⟩, ⟨.object, 0x2000⟩]) ∧
    ∃ p text, build (reordered Instruction.sumSteps) (empty .binaryArith) = .ok () p ∧
      p.listing = .ok text ∧ Listing.parse text = .ok p := by
  obtain ⟨p, hbuild, hfields⟩ : ∃ p, build Instruction.sumSteps (empty .binaryArith) = .ok () p ∧
      p.fields = #[⟨.rawWord, 8⟩, ⟨.object, 0x2000⟩] := ⟨_, rfl, rfl⟩
  obtain ⟨p', hbuild', hfields'⟩ : ∃ p, build (reordered Instruction.sumSteps)
      (empty .binaryArith) = .ok () p ∧ p.fields = #[⟨.object, 0x2000⟩, ⟨.rawWord, 8⟩] :=
    ⟨_, rfl, rfl⟩
  have hlate : Late (reordered Instruction.sumSteps) := by
    unfold Late
    decide
  obtain ⟨text, q, -, -, htext, hparse, -, -, -, -, -, hlast, hperm, -⟩ :=
    parse_listing hbuild (by rw [hfields]; decide)
  obtain ⟨text', q', -, -, htext', hparse', -, -, -, -, -, -, -, hexact⟩ :=
    parse_listing hbuild' (by rw [hfields']; decide)
  rw [hfields] at hperm
  rw [(hexact hlate).1] at hparse'
  exact ⟨⟨p, text, q, hbuild, htext, hparse, hlast, hperm⟩, p', text', hbuild', htext', hparse'⟩

end InlineCache.Program
