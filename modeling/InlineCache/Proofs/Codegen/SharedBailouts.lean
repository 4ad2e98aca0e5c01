import InlineCache.Proofs.Codegen.FailurePaths
import InlineCache.Proofs.Program.History
import Mathlib.Data.List.Destutter

/-!
# Sharing bailouts

A guard whose snapshot is that of the guard before it may use the same bailout. Two compilations
of one program, one that shares bailouts and one that does not, add the same pieces one by one
(`Codegen.Twins`). The one has for each run of equal snapshots a single bailout, and its branches go
to the run of the snapshot to which the other's go. Nothing else differs (`compile_shares`): the
list of snapshots of the one is that of the other with runs of equal neighbours collapsed.
-/

namespace InlineCache

open X64

/-! ## Runs of equal neighbours -/

section
variable {α : Type} [DecidableEq α]

/-- The list with each run of equal neighbours collapsed to one. -/
def collapse (l : List α) : List α :=
  l.destutter (· ≠ ·)

/-- The number of the run that an element is in. -/
def runOf (l : List α) (i : Nat) : Nat :=
  (collapse (l.take (i + 1))).length - 1

theorem destutter'_concat (a : α) (l : List α) (x : α) :
    (l ++ [x]).destutter' (· ≠ ·) a =
      if (a :: l).getLast? = some x then l.destutter' (· ≠ ·) a
      else l.destutter' (· ≠ ·) a ++ [x] := by
  induction l generalizing a with
  | nil => by_cases h : a = x <;> simp [h]
  | cons b l ih =>
      by_cases h : a = b
      · subst h
        rw [List.cons_append, List.destutter'_cons_neg _ (not_not.mpr rfl),
          List.destutter'_cons_neg _ (not_not.mpr rfl), ih, List.getLast?_cons_cons]
      · rw [List.cons_append, List.destutter'_cons_pos _ h, List.destutter'_cons_pos _ h, ih,
          List.getLast?_cons_cons]
        split <;> rfl

theorem collapse_concat (l : List α) (x : α) :
    collapse (l ++ [x]) = if l.getLast? = some x then collapse l else collapse l ++ [x] := by
  cases l with
  | nil => rfl
  | cons a l => exact destutter'_concat a l x

theorem getLast?_collapse (l : List α) : (collapse l).getLast? = l.getLast? := by
  induction l using List.reverseRecOn with
  | nil => rfl
  | append_singleton l x ih =>
      rw [collapse_concat]
      split
      · next h => rw [ih, h, List.getLast?_concat]
      · rw [List.getLast?_concat, List.getLast?_concat]

theorem collapse_prefix (l m : List α) : collapse l <+: collapse (l ++ m) := by
  induction m using List.reverseRecOn with
  | nil => simp
  | append_singleton m x ih =>
      rw [← List.append_assoc, collapse_concat]
      split
      · exact ih
      · exact ih.trans (List.prefix_append _ _)

theorem mem_collapse {l : List α} {x : α} : x ∈ collapse l ↔ x ∈ l := by
  induction l using List.reverseRecOn with
  | nil => rfl
  | append_singleton l y ih =>
      rw [collapse_concat]
      split
      · next h =>
          rw [ih, List.mem_append, List.mem_singleton]
          refine ⟨.inl, fun hx => hx.elim id ?_⟩
          rintro rfl
          exact List.mem_of_getLast? h
      · rw [List.mem_append, List.mem_append, ih]

variable {l : List α} {i : Nat}

theorem take_collapse (hi : i < l.length) :
    (collapse l).take (runOf l i + 1) = collapse (l.take (i + 1)) := by
  have hprefix := collapse_prefix (l.take (i + 1)) (l.drop (i + 1))
  rw [List.take_append_drop] at hprefix
  have hlast : (collapse (l.take (i + 1))).getLast? = some l[i] := by
    rw [getLast?_collapse, List.take_succ_eq_append_getElem hi, List.getLast?_concat]
  have hpos : 0 < (collapse (l.take (i + 1))).length :=
    List.length_pos_of_mem (List.mem_of_getLast? hlast)
  rw [runOf, Nat.sub_add_cancel hpos, ← List.prefix_iff_eq_take.mp hprefix]

/-- An element is what its run is collapsed to. -/
theorem getElem?_collapse (hi : i < l.length) : (collapse l)[runOf l i]? = some l[i] := by
  rw [← List.getElem?_take_of_lt (Nat.lt_succ_self (runOf l i)), take_collapse hi, runOf,
    ← List.getLast?_eq_getElem?, getLast?_collapse, List.take_succ_eq_append_getElem hi,
    List.getLast?_concat]

theorem collapse_sublist (l : List α) : (collapse l).Sublist l :=
  List.destutter_sublist _ l

/-- In front of a run there is no more than in front of its elements. -/
theorem take_runOf_sublist (hi : i < l.length) :
    ((collapse l).take (runOf l i)).Sublist (l.take i) := by
  have htake : (collapse l).take (runOf l i) = (collapse (l.take i ++ [l[i]])).dropLast := by
    rw [← List.take_succ_eq_append_getElem hi, List.dropLast_eq_take]
    change _ = (collapse (l.take (i + 1))).take (runOf l i)
    rw [← take_collapse hi, List.take_take, Nat.min_eq_left (Nat.le_succ _)]
  rw [htake, collapse_concat]
  split
  · exact (List.dropLast_sublist _).trans (collapse_sublist _)
  · rw [List.dropLast_concat]
    exact collapse_sublist _

theorem runOf_append (hi : i < l.length) (m : List α) : runOf (l ++ m) i = runOf l i := by
  rw [runOf, runOf, List.take_append_of_le_length hi]

theorem runOf_concat (l : List α) (x : α) :
    runOf (l ++ [x]) l.length = (collapse (l ++ [x])).length - 1 := by
  rw [runOf, List.take_of_length_le (by simp)]

end

/-! ## The body -/

namespace Codegen

variable {s : Codegen} {y : Snapshot}

theorem length_snapshots (s : Codegen) : s.snapshots.length = s.bailouts.size := by
  rw [snapshots, List.length_map, Array.length_toList]

theorem snapshots_write (s : Codegen) (c : Snippet.Code) (a : Allocator) :
    (s.write c a).snapshots = s.snapshots := rfl

theorem snapshots_record (s : Codegen) (y : Snapshot) :
    (s.record y).snapshots = if s.reuses y then s.snapshots else s.snapshots ++ [y] := by
  rw [record]
  split
  · rfl
  · simp [snapshots, note, Bailout.snapshot]

theorem share_record (s : Codegen) (y : Snapshot) : (s.record y).share = s.share := by
  rw [record]
  split <;> rfl

end Codegen

/-- The code of pieces, with `n` for the label of the first bailout that is not noted yet, if no
bailouts are shared. -/
def Piece.body : (n : Label) → List Piece → Snippet.Code
  | _, [] => []
  | n, x :: xs => Snippet.aim n x.code ++ body (n + x.snapshot?.toList.length) xs

/-- The states after the same pieces, `s` without sharing and `t` with it. -/
structure Codegen.Twins (c : Snippet.Code) (s t : Codegen) : Prop where
  off : s.share = false
  on : t.share = true
  labelled : s.Labelled ∧ t.Labelled
  snapshots : t.snapshots = collapse s.snapshots
  items : s.asm.items.toList = c.map Item.instr
  relabelled : t.asm.items.toList = (c.map (Instr.relabel (runOf s.snapshots))).map Item.instr
  target : ∀ i ∈ c, ∀ l, i.target? = some l → l < s.snapshots.length

namespace Codegen.Twins

variable {c : Snippet.Code} {s t : Codegen} {x : Piece}

/-- Code without branches is written to both. -/
theorem write (h : Twins c s t) {c' : Snippet.Code} (hc' : Snippet.branches c' = false)
    (a a' : Allocator) : Twins (c ++ c') (s.write c' a) (t.write c' a') where
  off := h.off
  on := h.on
  labelled := ⟨h.labelled.1.write _ _, h.labelled.2.write _ _⟩
  snapshots := h.snapshots
  items := by simp [Codegen.write, Assembly.append, h.items]
  relabelled := by
    have hsame : c'.map (Instr.relabel (runOf s.snapshots)) = c' :=
      (List.map_congr_left fun i hi => Instr.relabel_of_target?
        (Snippet.branches_eq_false.mp hc' i hi)).trans (List.map_id c')
    have hitems : (t.write c' a').asm.items.toList =
        t.asm.items.toList ++ c'.map Item.instr := by simp [Codegen.write, Assembly.append]
    rw [hitems, h.relabelled, snapshots_write, List.map_append, hsame, List.map_append]
  target i hi l hl := by
    obtain hi | hi := List.mem_append.mp hi
    · exact h.target i hi l hl
    · rw [Snippet.branches_eq_false.mp hc' i hi] at hl
      cases hl

/-- Without sharing a guard gets a new label. -/
theorem labelFor_off (h : Twins c s t) (y : Snapshot) :
    s.labelFor y = s.snapshots.length ∧ (s.record y).snapshots = s.snapshots ++ [y] := by
  have hfresh : s.reuses y = false := by rw [reuses, h.off, Bool.false_and]
  rw [labelFor, snapshots_record, hfresh, length_snapshots]
  exact ⟨rfl, rfl⟩

/-- With sharing it gets the label of its run. -/
theorem labelFor_on (h : Twins c s t) (y : Snapshot) :
    t.labelFor y = runOf (s.snapshots ++ [y]) s.snapshots.length ∧
      (t.record y).snapshots = collapse (s.snapshots ++ [y]) := by
  have hreuses : t.reuses y = decide (s.snapshots.getLast? = some y) := by
    rw [reuses, h.on, Bool.true_and, h.snapshots, getLast?_collapse]
    exact Bool.eq_iff_iff.mpr (by rw [beq_iff_eq, decide_eq_true_eq])
  rw [labelFor, snapshots_record, hreuses, runOf_concat, collapse_concat, ← length_snapshots,
    h.snapshots]
  simp only [decide_eq_true_eq, and_true]
  split
  · rfl
  · rw [List.length_append]
    rfl

/-- A guard is written to both, with branches to its label. -/
theorem guard (h : Twins c s t) (c' : Snippet.Code) (y : Snapshot) :
    Twins (c ++ Snippet.aim s.snapshots.length c')
      ((s.record y).write (Snippet.aim (s.labelFor y) c') s.alloc)
      ((t.record y).write (Snippet.aim (t.labelFor y) c') t.alloc) ∧
    (s.record y).snapshots = s.snapshots ++ [y] := by
  obtain ⟨hlabel, hsnap⟩ := h.labelFor_off y
  obtain ⟨hlabel', hsnap'⟩ := h.labelFor_on y
  refine ⟨⟨(share_record s y).trans h.off, (share_record t y).trans h.on,
    ⟨(h.labelled.1.record y).write _ _, (h.labelled.2.record y).write _ _⟩,
    hsnap'.trans (congrArg collapse hsnap.symm), ?_, ?_, fun i hi l hl => ?_⟩, hsnap⟩
  · simp [Codegen.write, Assembly.append, items_record, h.items, hlabel]
  · have hold : c.map (Instr.relabel (runOf s.snapshots)) =
        c.map (Instr.relabel (runOf (s.snapshots ++ [y]))) :=
      List.map_congr_left fun i hi => Instr.relabel_congr fun l hl =>
        (runOf_append (h.target i hi l hl) _).symm
    have hitems : ((t.record y).write (Snippet.aim (t.labelFor y) c') t.alloc).asm.items.toList =
        t.asm.items.toList ++ (Snippet.aim (t.labelFor y) c').map Item.instr := by
      simp [Codegen.write, Assembly.append, items_record]
    rw [hitems, h.relabelled, hold, hlabel', ← Snippet.map_relabel_aim, ← List.map_append,
      ← List.map_append]
    exact congrArg (fun S => ((c ++ Snippet.aim s.snapshots.length c').map
      (Instr.relabel (runOf S))).map Item.instr) hsnap.symm
  · change l < (s.record y).snapshots.length
    rw [hsnap, List.length_append]
    obtain hi | hi := List.mem_append.mp hi
    · exact Nat.lt_of_lt_of_le (h.target i hi l hl) (Nat.le_add_right _ _)
    · rw [Snippet.target_of_mem_aim hi hl]
      exact Nat.lt_succ_self _

theorem add (h : Twins c s t) (hx : x.Fits) :
    Twins (c ++ Snippet.aim s.snapshots.length x.code) (s.add x) (t.add x) ∧
      (s.add x).snapshots = s.snapshots ++ x.snapshot?.toList := by
  have hbranches := hx.branches
  rw [Codegen.add, Codegen.add]
  cases hy : x.snapshot? with
  | none =>
      rw [hy] at hbranches
      rw [Snippet.aim_of_straight hbranches]
      exact ⟨h.write hbranches _ _, (List.append_nil _).symm⟩
  | some y => exact h.guard x.code y

theorem addAll {xs : List Piece} (h : Twins c s t) (hxs : ∀ x ∈ xs, x.Fits) :
    Twins (c ++ Piece.body s.snapshots.length xs) (s.addAll xs) (t.addAll xs) ∧
      (s.addAll xs).snapshots = s.snapshots ++ xs.filterMap Piece.snapshot? := by
  induction xs generalizing c s t with
  | nil =>
      rw [Piece.body, List.append_nil]
      exact ⟨h, (List.append_nil _).symm⟩
  | cons x xs ih =>
      obtain ⟨hadd, hsnap⟩ := h.add (hxs x List.mem_cons_self)
      obtain ⟨hrest, hsnaps⟩ := ih hadd fun x' hx' => hxs x' (List.mem_cons_of_mem x hx')
      rw [hsnap, List.length_append, List.append_assoc] at hrest
      refine ⟨hrest, hsnaps.trans ?_⟩
      rw [hsnap, List.append_assoc]
      cases hy : x.snapshot? <;> simp [hy]

end Codegen.Twins

/-! ## Sections with shared failure paths -/

namespace Sections

variable {x y : Sections}

/-- The failure paths of `x` are those of `y` with neighbours of one snapshot collapsed, and the
bodies differ in the names of labels only: a branch goes to the run of the path to which it goes in
`y`, and that has the same snapshot. -/
structure Shares (x y : Sections) : Prop where
  snapshots : x.snapshots = collapse y.snapshots
  body : x.body = y.body.map (Instr.relabel (runOf y.snapshots))
  path : ∀ b ∈ y.bailouts, ∃ b' ∈ x.bailouts,
    b'.label = runOf y.snapshots b.label ∧ b'.snapshot = b.snapshot

theorem Numbered.shares (hx : x.Numbered) (hy : y.Numbered)
    (hsnapshots : x.snapshots = collapse y.snapshots)
    (hbody : x.body = y.body.map (Instr.relabel (runOf y.snapshots))) : x.Shares y := by
  refine ⟨hsnapshots, hbody, fun b hb => ?_⟩
  obtain ⟨hget, hlt⟩ := hy.label_of_mem hb
  rw [← length_snapshots] at hlt
  have hsnap : y.snapshots[b.label]? = some b.snapshot := by
    rw [snapshots, List.getElem?_map, hget]
    rfl
  have hrun := getElem?_collapse hlt
  rw [← hsnapshots, (List.getElem?_eq_some_iff.mp hsnap).2, snapshots, List.getElem?_map] at hrun
  obtain ⟨b', hb', hsame⟩ := Option.map_eq_some_iff.mp hrun
  rw [bailouts, List.getElem?_map] at hb'
  obtain ⟨q, hq, rfl⟩ := Option.map_eq_some_iff.mp hb'
  exact ⟨q.1, List.mem_map_of_mem (List.mem_of_getElem? hq), hx.label hq, hsame⟩

end Sections

/-! ## Compiling with and without sharing -/

namespace Codegen

variable {p : Program} {e : Engine}

theorem twins_start (p : Program) (e : Engine) (o : Options) :
    Twins [] (.start p e { o with shareBailouts := false })
      (.start p e { o with shareBailouts := true }) where
  off := rfl
  on := rfl
  labelled := ⟨(written_start p e _).labelled, (written_start p e _).labelled⟩
  snapshots := rfl
  items := rfl
  relabelled := rfl
  target i hi := by cases hi

/-- The state behind the last instruction of a program that is compiled to these pieces. -/
def ofPieces (p : Program) (e : Engine) (o : Options) (xs : List Piece) (alloc : Allocator) :
    Codegen :=
  { (start p e o).addAll xs with alloc }

section
variable {xs : List Piece} (p : Program) (e : Engine) (o : Options) (hxs : ∀ x ∈ xs, x.Fits)
  (alloc : Allocator)

include hxs

theorem twins_ofPieces :
    Twins (Piece.body 0 xs) (ofPieces p e { o with shareBailouts := false } xs alloc)
      (ofPieces p e { o with shareBailouts := true } xs alloc) ∧
    (ofPieces p e { o with shareBailouts := false } xs alloc).snapshots =
      xs.filterMap Piece.snapshot? := by
  obtain ⟨h, hsnapshots⟩ := (twins_start p e o).addAll hxs
  exact ⟨⟨h.off, h.on, ⟨⟨h.labelled.1.numLabels, h.labelled.1.label⟩,
    h.labelled.2.numLabels, h.labelled.2.label⟩, h.snapshots, h.items, h.relabelled, h.target⟩,
    hsnapshots⟩

/-- With and without sharing, the same snapshots occur. -/
theorem mem_snapshots_ofPieces (share : Bool) {y : Snapshot} :
    y ∈ (ofPieces p e { o with shareBailouts := share } xs alloc).snapshots ↔
      y ∈ xs.filterMap Piece.snapshot? := by
  obtain ⟨htwins, hoff⟩ := twins_ofPieces p e o hxs alloc
  cases share with
  | false => rw [hoff]
  | true => rw [htwins.snapshots, mem_collapse, hoff]

end

end Codegen

namespace Compile

variable {p : Program} {e : Engine} {inputs : Inputs} {o : Options}

/-- Inputs arrive in the same way whatever was compiled before. -/
theorem initInputs_arrive {index : Nat} {ps : List Place} {s s' : Codegen}
    (h : initInputs index ps s = .ok () s') :
    ∃ alloc, ∀ t : Codegen, t.alloc = s.alloc →
      initInputs index ps t = .ok () { t with alloc } := by
  induction ps generalizing index s with
  | nil =>
      refine ⟨s.alloc, fun t ht => ?_⟩
      rw [← ht]
      rfl
  | cons q ps ih =>
      obtain ⟨_, s₁, hinit, hrest⟩ := exists_of_bind_ok h
      obtain ⟨hq, horigin, hplace, rfl⟩ := Gen.initInput_of_ok hinit
      obtain ⟨alloc, hall⟩ := ih hrest
      refine ⟨alloc, fun t ht => ?_⟩
      rw [← ht] at horigin hplace hall
      rw [initInputs, bind_of_ok (Gen.initInput_eq hq horigin hplace)]
      exact hall { t with alloc := t.alloc.arrive index q } rfl

/-- A program is compiled to the same pieces with and without sharing. -/
theorem upTo_pieces [ClassTable] {s : Codegen}
    (h : upTo p inputs p.code.size (.start p e o) = .ok true s) :
    ∃ xs alloc, Instruction.decode p.code.toList = .ok (xs.map Piece.instruction) ∧
      (∀ x ∈ xs, x.Fits ∧ x.Frugal) ∧ ∀ share,
        upTo p inputs p.code.size (.start p e { o with shareBailouts := share }) =
          .ok true (.ofPieces p e { o with shareBailouts := share } xs alloc) := by
  obtain ⟨_, s₀, hinit, hrun⟩ := exists_of_bind_ok h
  obtain ⟨a, harrive⟩ := initInputs_arrive (of_gen_ok hinit)
  have hsame := (harrive _ rfl).symm.trans (of_gen_ok hinit)
  cases hsame
  have hlabelled : ∀ o, ({ Codegen.start p e o with alloc := a } : Codegen).Labelled := fun o =>
    ⟨(Codegen.written_start p e o).labelled.numLabels,
      (Codegen.written_start p e o).labelled.label⟩
  obtain ⟨xs, alloc, c, hread, hfits, hall⟩ := instructions_pieces (hlabelled o) hrun
  refine ⟨xs, alloc, ?_, hfits, fun share => ?_⟩
  · rw [← Array.length_toList] at hread
    rw [Instruction.decode, EStateM.run, hread]
  · have hinit' := gen_eq (harrive (.start p e { o with shareBailouts := share }) rfl)
    have hrun' := hall { Codegen.start p e { o with shareBailouts := share } with alloc := a }
      (hlabelled _) rfl
    rw [Codegen.addAll_withAlloc] at hrun'
    exact (bind_of_ok hinit').trans hrun'

end Compile

namespace Codegen

variable {s t : Codegen} {c : Snippet.Code}

/-- The sections of the code, if the body is `c`. -/
def sections (s : Codegen) (c : Snippet.Code) : Sections where
  body := c
  paths := s.bailouts.toList.map (Compile.pathItems s.alloc.origins.toList)

theorem bailouts_sections (s : Codegen) (c : Snippet.Code) :
    (s.sections c).bailouts = s.bailouts.toList := by
  rw [Sections.bailouts, sections, List.map_map]
  exact List.map_id _

theorem snapshots_sections (s : Codegen) (c : Snippet.Code) :
    (s.sections c).snapshots = s.snapshots := by
  rw [Sections.snapshots, bailouts_sections, snapshots]

theorem Labelled.numbered (h : s.Labelled)
    (htarget : ∀ i ∈ c, ∀ l, i.target? = some l → l < s.snapshots.length) :
    (s.sections c).Numbered where
  label {l q} hq := by
    rw [sections, List.getElem?_map] at hq
    obtain ⟨b, hb, rfl⟩ := Option.map_eq_some_iff.mp hq
    rw [Array.getElem?_toList] at hb
    exact h.label hb
  straight q hq := by
    obtain ⟨b, -, rfl⟩ := List.mem_map.mp hq
    rw [Compile.pathItems]
    cases hpath : b.snapshot.path? s.alloc.origins.toList with
    | none => rfl
    | some c' => exact Snapshot.branches_path? hpath
  target i hi l hl := by
    rw [← Sections.length_snapshots, snapshots_sections]
    exact htarget i hi l hl

/-- How far a failure path is from the body depends on the snapshots in front of it. -/
theorem offset_sections (s : Codegen) (c : Snippet.Code) (l : Label) :
    (s.sections c).offset l = Item.totalSize (c.map Item.instr) +
      Item.totalSize ((s.snapshots.take l).flatMap fun y =>
        ((y.path? s.alloc.origins.toList).getD []).map Item.instr) := by
  rw [Sections.offset, sections, snapshots, ← List.map_take, ← List.map_take]
  congr 1
  induction s.bailouts.toList.take l with
  | nil => rfl
  | cons b bs ih =>
      rw [List.map_cons, List.map_cons, List.flatMap_cons, List.flatMap_cons, Item.totalSize_append,
        Item.totalSize_append, ih, Bailout.items, Item.totalSize, Item.size, Nat.zero_add]
      rfl

namespace Twins

variable (h : Twins c s t)

include h

theorem numbered : (s.sections c).Numbered ∧
    (t.sections (c.map (Instr.relabel (runOf s.snapshots)))).Numbered := by
  refine ⟨h.labelled.1.numbered h.target, h.labelled.2.numbered fun i hi l hl => ?_⟩
  obtain ⟨j, hj, rfl⟩ := List.mem_map.mp hi
  rw [Instr.target?_relabel] at hl
  obtain ⟨k, hk, rfl⟩ := Option.map_eq_some_iff.mp hl
  rw [h.snapshots]
  exact (List.getElem?_eq_some_iff.mp (getElem?_collapse (h.target j hj k hk))).1

theorem shares :
    (t.sections (c.map (Instr.relabel (runOf s.snapshots)))).Shares (s.sections c) :=
  h.numbered.2.shares h.numbered.1
    (by rw [snapshots_sections, snapshots_sections, h.snapshots])
    (by rw [snapshots_sections]; rfl)

/-- Sharing brings failure paths no farther from the branches to them. -/
theorem exists_finish (halloc : s.alloc = t.alloc)
    (hfinish : ∃ bytes, (s.sections c).assembly.finish = .ok bytes) :
    ∃ bytes, (t.sections (c.map (Instr.relabel (runOf s.snapshots)))).assembly.finish =
      .ok bytes := by
  refine h.numbered.1.exists_finish h.numbered.2 rfl (fun l hl => ?_) hfinish
  rw [← Sections.length_snapshots, snapshots_sections] at hl
  rw [offset_sections, offset_sections, Item.totalSize_map_relabel, h.snapshots, halloc]
  exact Nat.add_le_add_left (Item.totalSize_flatMap_le (take_runOf_sublist hl) _) _

end Twins
end Codegen

/-- The stub code that the sections make, if they can be laid out. -/
def Sections.stubCode (x : Sections) (inputs : Inputs) (stackBytes : Nat) :
    Except CompileError StubCode :=
  match x.assembly.finish with
  | .error err => .error (.labels err)
  | .ok bytes => .ok { bytes, bailouts := x.bailouts, stackBytes, inputs }

theorem Sections.bailouts_of_any {x : Sections} {inputs : Inputs} {stackBytes : Nat}
    {r : Except CompileError StubCode} {f : List Bailout → Bool}
    (hr : r = x.stubCode inputs stackBytes)
    (h : r.toOption.any (fun code => f code.bailouts) = true) : f x.bailouts = true := by
  rw [hr, stubCode] at h
  cases hfinish : x.assembly.finish with
  | error err =>
      rw [hfinish] at h
      cases h
  | ok bytes =>
      rw [hfinish] at h
      exact h

/-- A program is compiled to the sections that follow from the state behind its last
instruction. -/
theorem Compile.compile_of_upTo [ClassTable] {p : Program} {e : Engine} {inputs : Inputs}
    {o : Options} {s : Codegen} {c : Snippet.Code} (hinputs : inputs.sources.length = p.numInputs)
    (h : upTo p inputs p.code.size (.start p e o) = .ok true s) (hs : s.Labelled)
    (hitems : s.asm.items.toList = c.map Item.instr)
    (hpaths : ∀ y ∈ s.snapshots, (y.path? s.alloc.origins.toList).isSome = true) :
    compile p e inputs o = (s.sections c).stubCode inputs s.alloc.maxDepth := by
  have hsome : ∀ b ∈ s.bailouts.toList,
      (b.snapshot.path? s.alloc.origins.toList).isSome = true := fun b hb =>
    hpaths _ (List.mem_map_of_mem hb)
  obtain ⟨s', hbailouts⟩ := exists_bailouts hsome
  obtain ⟨-, hsame, hlabels, hcode⟩ := bailouts_of_ok hbailouts
  have hasm : s'.asm = (s.sections c).assembly := by
    have hnum : s'.asm.numLabels = (s.sections c).paths.length := by
      rw [hlabels, hs.numLabels, ← Sections.length_snapshots, Codegen.snapshots_sections,
        Codegen.length_snapshots]
    have hlist : s'.asm.items = (s.sections c).items.toArray := by
      rw [← s'.asm.items.toArray_toList, hcode, hitems]
      rfl
    rw [Sections.assembly, ← hnum, ← hlist]
  have hprogram : program p inputs (.start p e o) = .ok s.alloc.maxDepth s' := by
    obtain ⟨_, s₀, hinit, hrun⟩ := exists_of_bind_ok h
    rw [program, bind_of_ok hinit, bind_of_ok hrun]
    exact bind_of_ok (gen_eq hbailouts)
  rw [compile, if_neg (not_not.mpr hinputs), EStateM.run, Sections.stubCode, ← hasm,
    Codegen.bailouts_sections, ← hsame]
  cases hfinish : s'.asm.finish <;> simp only [hprogram, hfinish]

/-- A program that compiles makes stub code of a body and failure paths, with sharing and without
it, and the stack of both is as deep:
- without sharing the body is a piece of code for each instruction, and each piece that can fail has
  a failure path of its own, in the order of the instructions;
- with sharing neighbours of one snapshot have one failure path, and the branches go to it;
- with either, every failure path has its label once and every branch of the body goes to one;
- if the code can be laid out without sharing, then also with it. -/
theorem compile_shares [ClassTable] {p : Program} {e : Engine} {inputs : Inputs} {o : Options}
    {code : StubCode} (h : compile p e inputs o = .ok code) :
    ∃ (off on : Sections) (xs : List Piece),
      compile p e inputs { o with shareBailouts := false } = off.stubCode inputs code.stackBytes ∧
      compile p e inputs { o with shareBailouts := true } = on.stubCode inputs code.stackBytes ∧
      ((∃ bytes, off.assembly.finish = .ok bytes) → ∃ bytes, on.assembly.finish = .ok bytes) ∧
      Instruction.decode p.code.toList = .ok (xs.map Piece.instruction) ∧ (∀ x ∈ xs, x.Fits) ∧
      off.body = Piece.body 0 xs ∧ off.snapshots = xs.filterMap Piece.snapshot? ∧
      on.Shares off ∧ off.Closed ∧ on.Closed := by
  have hinputs : inputs.sources.length = p.numInputs := by
    by_contra hne
    rw [compile, if_pos hne] at h
    cases h
  obtain ⟨s₁, s₂, h₁, h₂, -, -, hstack⟩ := Compile.exists_of_compile h
  obtain ⟨xs, alloc, hdecode, hpieces, hall⟩ := Compile.upTo_pieces h₁
  have hfits : ∀ x ∈ xs, x.Fits := fun x hx => (hpieces x hx).1
  obtain ⟨htwins, hsnapshots⟩ := Codegen.twins_ofPieces p e o hfits alloc
  have hs₁ := h₁.symm.trans (hall o.shareBailouts)
  injection hs₁ with _ hs₁
  obtain ⟨hsome, -⟩ := Compile.bailouts_of_ok (Compile.of_gen_ok h₂)
  rw [show s₁.alloc = alloc by rw [hs₁]; rfl] at hsome hstack
  -- The snapshots of one setting are those of the other, so all have failure paths.
  have hpaths : ∀ share, ∀ y ∈
      (Codegen.ofPieces p e { o with shareBailouts := share } xs alloc).snapshots,
      (y.path? alloc.origins.toList).isSome = true := by
    intro share y hy
    rw [Codegen.mem_snapshots_ofPieces p e o hfits,
      ← Codegen.mem_snapshots_ofPieces p e o hfits alloc o.shareBailouts] at hy
    change y ∈ (Codegen.ofPieces p e o xs alloc).snapshots at hy
    rw [← hs₁] at hy
    obtain ⟨b, hb, rfl⟩ := List.mem_map.mp hy
    exact hsome b hb
  rw [hstack]
  exact ⟨_, _, xs,
    Compile.compile_of_upTo hinputs (hall false) htwins.labelled.1 htwins.items (hpaths false),
    Compile.compile_of_upTo hinputs (hall true) htwins.labelled.2 htwins.relabelled (hpaths true),
    htwins.exists_finish rfl, hdecode, hfits, rfl,
    (Codegen.snapshots_sections _ _).trans hsnapshots, htwins.shares, htwins.numbered.1.closed,
    htwins.numbered.2.closed⟩

/-- A program with more operands than one engine has registers: both inputs are pushed and brought
back before the last guards. -/
def Program.threeObjects : Program where
  kind := .getElem
  code := #[Op.loadObject.byte, 2, 0, Op.loadObject.byte, 3, 1, Op.loadObject.byte, 4, 2,
    Op.guardIsObject.byte, 1, Op.guardIsObject.byte, 0, Op.guardShape.byte, 2, 3,
    Op.guardShape.byte, 3, 4, Op.guardShape.byte, 4, 5, Op.loadUndefinedResult.byte,
    Op.returnFromIC.byte]
  lastUsed := #[4, 3, 5, 6, 7]
  fields := #[⟨.object, 0x1000⟩, ⟨.object, 0x2000⟩, ⟨.object, 0x3000⟩, ⟨.shape, 0x4000⟩,
    ⟨.shape, 0x5000⟩, ⟨.shape, 0x6000⟩]
  numInstructions := 10

theorem Program.built_threeObjects : threeObjects.Built := by
  have hsteps : ofSteps? .getElem [.emit .loadObject [.field ⟨.object, 0x1000⟩],
      .emit .loadObject [.field ⟨.object, 0x2000⟩], .emit .loadObject [.field ⟨.object, 0x3000⟩],
      .emit .guardIsObject [.operand ⟨1⟩], .emit .guardIsObject [.operand ⟨0⟩],
      .emit .guardShape [.operand ⟨2⟩, .field ⟨.shape, 0x4000⟩],
      .emit .guardShape [.operand ⟨3⟩, .field ⟨.shape, 0x5000⟩],
      .emit .guardShape [.operand ⟨4⟩, .field ⟨.shape, 0x6000⟩],
      .emit .loadUndefinedResult [], .emit .returnFromIC []] = some threeObjects := by
    decide +kernel
  exact built_of_ofSteps? hsteps

theorem exists_compile_threeObjects :
    ∃ code, compile .threeObjects .ionSharedIC (.registers 2 (by decide)) {} = .ok code ∧
      code.bailouts.map Bailout.depth = [8, 16, 24] ∧ code.stackBytes = 24 := by
  have hcompile : (compile .threeObjects .ionSharedIC (.registers 2 (by decide)) {}).toOption.any
      (fun code => code.bailouts.map Bailout.depth = [8, 16, 24] ∧ code.stackBytes = 24) =
        true := by
    decide +kernel
  cases hc : compile .threeObjects .ionSharedIC (.registers 2 (by decide)) {} with
  | error err =>
      rw [hc] at hcompile
      cases hcompile
  | ok code =>
      rw [hc] at hcompile
      exact ⟨code, rfl, of_decide_eq_true hcompile⟩

/-- The last three of five guards have one snapshot. -/
theorem compile_shares_threeObjects :
    ∃ off on : Sections, off.bailouts.map Bailout.depth = [8, 16, 24, 24, 24] ∧
      on.bailouts.map Bailout.depth = [8, 16, 24] ∧ on.Shares off ∧ off.Closed ∧ on.Closed := by
  have hoff : (compile .threeObjects .ionSharedIC (.registers 2 (by decide))
      { shareBailouts := false }).toOption.any
      (fun code => code.bailouts.map Bailout.depth = [8, 16, 24, 24, 24]) = true := by
    decide +kernel
  obtain ⟨code, hc, hbailouts, -⟩ := exists_compile_threeObjects
  have hon : (compile .threeObjects .ionSharedIC (.registers 2 (by decide)) {}).toOption.any
      (fun code => code.bailouts.map Bailout.depth = [8, 16, 24]) = true := by
    rw [hc]
    exact decide_eq_true hbailouts
  obtain ⟨off, on, xs, hcompile, hcompile', -, -, -, -, -, hshares, hclosed, hclosed'⟩ :=
    compile_shares hc
  have hdepths := Sections.bailouts_of_any
    (f := fun bs => bs.map Bailout.depth = [8, 16, 24, 24, 24]) hcompile hoff
  have hdepths' := Sections.bailouts_of_any
    (f := fun bs => bs.map Bailout.depth = [8, 16, 24]) hcompile' hon
  exact ⟨off, on, of_decide_eq_true hdepths, of_decide_eq_true hdepths', hshares, hclosed,
    hclosed'⟩

end InlineCache
