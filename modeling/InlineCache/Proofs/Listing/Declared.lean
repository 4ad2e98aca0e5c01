import InlineCache.Listing.Resolve
import InlineCache.Proofs.Listing.Reading
import InlineCache.Proofs.Program.Reorder
import Mathlib.Data.List.Nodup
import Mathlib.Data.List.Perm.Basic
import Mathlib.Data.Set.List

/-!
# Declared fields

Declarations are accepted if every one is the tree of a field and no number is declared twice
(`add_eq_ok_iff`). Then looking up a number finds the field that is declared under it, and the
fields that no line names come out by increasing number. None of this depends on the order of the
declarations.
-/

namespace InlineCache

/-! ## Names -/

theorem CacheKind.ofName?_name (k : CacheKind) : ofName? k.name = some k := by
  cases k <;> rfl

theorem CacheKind.name_of_ofName? {s : String} {k : CacheKind} (h : ofName? s = some k) :
    k.name = s := by
  rw [ofName?] at h
  simpa using List.find?_some h

theorem Op.ofName?_name (op : Op) : ofName? op.name = some op := by
  cases op <;> rfl

theorem Op.name_of_ofName? {s : String} {op : Op} (h : ofName? s = some op) : op.name = s := by
  rw [ofName?] at h
  simpa using List.find?_some h

theorem ClassKind.ofName?_name (c : ClassKind) : ofName? c.name = some c := by
  cases c <;> rfl

theorem ClassKind.name_of_ofName? {s : String} {c : ClassKind} (h : ofName? s = some c) :
    c.name = s := by
  rw [ofName?] at h
  simpa using List.find?_some h

theorem FieldTag.ofName?_name (t : FieldType) : ofName? t.name = some (.type t) := by
  cases t <;> rfl

theorem FieldTag.name_of_ofName? {s : String} {t : FieldTag} (h : ofName? s = some t) :
    t.name = s := by
  rw [ofName?] at h
  simpa using List.find?_some h

/-- The tree of a field tells its number, type and word. -/
theorem Field.tree_injective :
    Function.Injective fun d : Nat × Field => d.2.tree d.1 := by
  rintro ⟨n, ⟨t, w⟩⟩ ⟨n', ⟨t', w'⟩⟩ h
  injection h with hn ht hw
  have htype := (FieldTag.ofName?_name t).symm.trans ((congrArg FieldTag.ofName? ht).trans
    (FieldTag.ofName?_name t'))
  cases htype
  cases hn
  cases hw
  rfl

namespace Listing.Declarations

/-! ## Adding declarations -/

theorem add_cons {ds ds' : Declarations} {f : TreeField} {fs : List TreeField} :
    add ds (f :: fs) = .ok ds' ↔ ∃ d : Nat × Field, f = d.2.tree d.1 ∧ ds.lookup d.1 = none ∧
      add (d :: ds) fs = .ok ds' := by
  constructor
  · intro h
    rw [add] at h
    split at h
    · cases h
    · cases h
    · next t ht =>
        split at h
        · cases h
        · next hnew =>
            refine ⟨(f.index, ⟨t, f.word⟩), ?_, Option.not_isSome_iff_eq_none.mp hnew, h⟩
            have hname : t.name = f.type := FieldTag.name_of_ofName? ht
            rw [Field.tree, hname]
  · rintro ⟨d, rfl, hnew, h⟩
    rw [add]
    simp only [Field.tree, FieldTag.ofName?_name, hnew, Option.isSome_none, Bool.false_eq_true,
      if_false]
    exact h

/-- What it takes for declarations to be accepted. -/
theorem add_eq_ok_iff {ds ds' : Declarations} {fs : List TreeField} :
    add ds fs = .ok ds' ↔ ∃ new : Declarations, fs = new.map (fun d => d.2.tree d.1) ∧
      (new.map Prod.fst).Nodup ∧ (∀ d ∈ new, ds.lookup d.1 = none) ∧ ds' = new.reverse ++ ds := by
  induction fs generalizing ds with
  | nil =>
      constructor
      · intro h
        cases h
        exact ⟨[], rfl, .nil, by simp, rfl⟩
      · rintro ⟨new, hnew, -, -, rfl⟩
        rw [List.map_eq_nil_iff.mp hnew.symm]
        rfl
  | cons f fs ih =>
      rw [add_cons]
      constructor
      · rintro ⟨d, rfl, hd, h⟩
        obtain ⟨new, rfl, hnodup, hnew, rfl⟩ := ih.mp h
        have hother : ∀ d' ∈ new, d'.1 ≠ d.1 ∧ ds.lookup d'.1 = none := by
          intro d' hd'
          have hnone := hnew d' hd'
          rw [List.lookup_cons] at hnone
          split at hnone
          · cases hnone
          · next hne => exact ⟨by simpa using hne, hnone⟩
        refine ⟨d :: new, rfl, ?_, ?_, by simp⟩
        · rw [List.map_cons, List.nodup_cons]
          refine ⟨fun hmem => ?_, hnodup⟩
          obtain ⟨d', hd', heq⟩ := List.mem_map.mp hmem
          exact (hother d' hd').1 heq
        · exact List.forall_mem_cons.mpr ⟨hd, fun d' hd' => (hother d' hd').2⟩
      · rintro ⟨new, hfs, hnodup, hnew, rfl⟩
        obtain ⟨d, new, rfl, rfl, rfl⟩ := List.map_eq_cons_iff.mp hfs.symm
        rw [List.map_cons, List.nodup_cons] at hnodup
        refine ⟨d, rfl, hnew d List.mem_cons_self, ih.mpr ⟨new, rfl, hnodup.2, ?_, by simp⟩⟩
        intro d' hd'
        have hne : d'.1 ≠ d.1 := fun heq => hnodup.1 (heq ▸ List.mem_map_of_mem hd')
        rw [List.lookup_cons, beq_false_of_ne hne]
        exact hnew d' (List.mem_cons_of_mem d hd')

/-- The declarations of a listing, and what they say. -/
theorem of_add_nil {ds : Declarations} {fs : List TreeField} (h : add [] fs = .ok ds) :
    (ds.map Prod.fst).Nodup ∧ (ds.map fun d => d.2.tree d.1).Perm fs := by
  obtain ⟨new, rfl, hnodup, -, rfl⟩ := add_eq_ok_iff.mp h
  rw [List.append_nil, List.map_reverse, List.map_reverse, List.nodup_reverse]
  exact ⟨hnodup, List.reverse_perm _⟩

/-- Declarations are accepted in any order. -/
theorem add_perm {ds : Declarations} {fs fs' : List TreeField} (hperm : fs'.Perm fs)
    (h : add [] fs = .ok ds) : ∃ ds', add [] fs' = .ok ds' ∧ ds'.Perm ds := by
  obtain ⟨new, rfl, hnodup, -, rfl⟩ := add_eq_ok_iff.mp h
  obtain ⟨new', rfl⟩ : fs' ∈ Set.range (List.map fun d : Nat × Field => d.2.tree d.1) := by
    rw [Set.range_list_map]
    intro f hf
    obtain ⟨d, -, hd⟩ := List.mem_map.mp (hperm.mem_iff.mp hf)
    exact ⟨d, hd⟩
  have hnew := (List.map_perm_map_iff Field.tree_injective).mp hperm
  refine ⟨new'.reverse ++ [], add_eq_ok_iff.mpr ⟨new', rfl, ?_, by simp, rfl⟩, ?_⟩
  · exact (hnew.map Prod.fst).nodup_iff.mpr hnodup
  · rw [List.append_nil, List.append_nil]
    exact (List.reverse_perm new').trans (hnew.trans (List.reverse_perm new).symm)

/-! ## Looking fields up -/

section
variable {ds ds' : Declarations} (hnodup : (ds.map Prod.fst).Nodup)
include hnodup

theorem lookup_eq_some_iff {n : Nat} {f : Field} : ds.lookup n = some f ↔ (n, f) ∈ ds := by
  constructor
  · intro h
    obtain ⟨front, back, rfl, -⟩ := List.lookup_eq_some_iff.mp h
    simp
  · intro h
    cases hlookup : ds.lookup n with
    | none =>
        have hne := List.lookup_eq_none_iff.mp hlookup _ h
        simp at hne
    | some g =>
        obtain ⟨front, back, hsplit, -⟩ := List.lookup_eq_some_iff.mp hlookup
        have hg : (n, g) ∈ ds := by
          rw [hsplit]
          simp
        cases List.inj_on_of_nodup_map hnodup h hg rfl
        rfl

theorem lookup_perm (hperm : ds'.Perm ds) (n : Nat) : ds'.lookup n = ds.lookup n := by
  have hnodup' : (ds'.map Prod.fst).Nodup := (hperm.map Prod.fst).nodup_iff.mpr hnodup
  refine Option.ext fun f => ?_
  rw [lookup_eq_some_iff hnodup', lookup_eq_some_iff hnodup, hperm.mem_iff]

end

/-! ## Fields that no line names -/

theorem pairwise_mergeSort (ds : Declarations) :
    (ds.mergeSort fun a b => a.1 ≤ b.1).Pairwise fun a b => decide (a.1 ≤ b.1) = true := by
  refine List.pairwise_mergeSort ?_ ?_ _
  · intro a b c hab hbc
    simp only [decide_eq_true_eq] at hab hbc ⊢
    omega
  · intro a b
    simp only [Bool.or_eq_true, decide_eq_true_eq]
    omega

/-- There is one order by number. -/
theorem unused_eq {ds sorted : Declarations} {used : List Nat}
    (hperm : sorted.Perm (ds.filter fun d => !used.contains d.1))
    (hsorted : sorted.Pairwise fun a b => a.1 < b.1) : ds.unused used = sorted.map Prod.snd := by
  have hnodup : (sorted.map Prod.fst).Nodup := List.pairwise_map.mpr (hsorted.imp Nat.ne_of_lt)
  have hmerge : (ds.filter fun d => !used.contains d.1).mergeSort (fun a b => a.1 ≤ b.1) =
      sorted := by
    refine List.Perm.eq_of_pairwise ?_ (pairwise_mergeSort _)
      (hsorted.imp fun hlt => by simpa using Nat.le_of_lt hlt)
      ((List.mergeSort_perm _ _).trans hperm.symm)
    intro a b ha hb hab hba
    have ha' := hperm.mem_iff.mpr (List.mem_mergeSort.mp ha)
    exact List.inj_on_of_nodup_map hnodup ha' hb
      (Nat.le_antisymm (of_decide_eq_true hab) (of_decide_eq_true hba))
  rw [unused, hmerge]

theorem exists_sorted {ds : Declarations} (hnodup : (ds.map Prod.fst).Nodup) (used : List Nat) :
    ∃ sorted : Declarations, sorted.Perm (ds.filter fun d => !used.contains d.1) ∧
      sorted.Pairwise fun a b => a.1 < b.1 := by
  refine ⟨(ds.filter fun d => !used.contains d.1).mergeSort fun a b => a.1 ≤ b.1,
    List.mergeSort_perm _ _, ?_⟩
  have hne : ((ds.filter fun d => !used.contains d.1).mergeSort
      fun a b => a.1 ≤ b.1).Pairwise fun a b => a.1 ≠ b.1 := by
    rw [← List.pairwise_map]
    exact ((List.mergeSort_perm _ _).map Prod.fst).nodup_iff.mpr
      (hnodup.sublist (List.filter_sublist.map Prod.fst))
  exact ((pairwise_mergeSort _).and hne).imp fun h => Nat.lt_of_le_of_ne (of_decide_eq_true h.1) h.2

theorem unused_perm {ds ds' : Declarations} (hnodup : (ds.map Prod.fst).Nodup)
    (hperm : ds'.Perm ds) (used : List Nat) : ds'.unused used = ds.unused used := by
  obtain ⟨sorted, hsorted, hlt⟩ := exists_sorted hnodup used
  rw [unused_eq hsorted hlt, unused_eq (hsorted.trans (hperm.filter _).symm) hlt]

/-! ## The declarations of a program -/

/-- The declarations of fields that are numbered from `k`, the last one first. -/
def ofFields (fs : List Field) (k : Nat) : Declarations :=
  ((fs.zipIdx k).map fun x => (x.2, x.1)).reverse

theorem add_ofFields {ds : Declarations} {fs : List Field} {k : Nat}
    (hds : ∀ d ∈ ds, d.1 < k) :
    add ds ((fs.zipIdx k).map fun x => x.1.tree x.2) = .ok (ofFields fs k ++ ds) := by
  induction fs generalizing ds k with
  | nil => rfl
  | cons f fs ih =>
      have hnew : ds.lookup k = none := by
        refine List.lookup_eq_none_iff.mpr fun d hd => ?_
        simpa using Nat.ne_of_gt (hds d hd)
      have hrest := @ih ((k, f) :: ds) (k + 1) (by
        intro d hd
        rcases List.mem_cons.mp hd with rfl | hd
        · exact Nat.lt_succ_self k
        · exact Nat.lt_succ_of_lt (hds d hd))
      rw [List.zipIdx_cons, List.map_cons, add]
      simp only [Field.tree, FieldTag.ofName?_name, hnew, Option.isSome_none, Bool.false_eq_true,
        if_false]
      refine hrest.trans (congrArg Except.ok ?_)
      simp [ofFields]

theorem nodup_ofFields (fs : List Field) (k : Nat) : ((ofFields fs k).map Prod.fst).Nodup := by
  simp [ofFields, Function.comp_def, List.nodup_range']

/-- Every field is found under its number. -/
theorem lookup_ofFields {fs : List Field} {index : Nat} {f : Field} (h : fs[index]? = some f) :
    (ofFields fs 0).lookup index = some f := by
  refine (lookup_eq_some_iff (nodup_ofFields fs 0)).mpr (List.mem_reverse.mpr ?_)
  exact List.mem_map.mpr ⟨(f, index), List.mk_mem_zipIdx_iff_getElem?.mpr h, rfl⟩

/-- Fields are declared once, so their order by number is the only sorted one. -/
theorem unused_ofFields (fs : List Field) (used : List Nat) :
    (ofFields fs 0).unused used = Program.leftOver fs used := by
  have hsorted : ((fs.zipIdx.map fun x => (x.2, x.1)).filter fun d => !used.contains d.1).Pairwise
      fun a b => a.1 < b.1 := by
    refine List.Pairwise.filter _ (List.pairwise_map.mpr ?_)
    have hrange : (fs.zipIdx.map Prod.snd).Pairwise (· < ·) := by
      rw [List.zipIdx_map_snd]
      exact List.pairwise_lt_range'
    exact List.pairwise_map.mp hrange
  have hperm : ((fs.zipIdx.map fun x => (x.2, x.1)).filter fun d => !used.contains d.1).Perm
      ((ofFields fs 0).filter fun d => !used.contains d.1) :=
    (List.reverse_perm _).symm.filter _
  rw [unused_eq hperm hsorted, Program.leftOver, List.filter_map, List.map_map]
  rfl

end Listing.Declarations
end InlineCache
