import InlineCache.Proofs.Codegen.Pieces
import InlineCache.Proofs.Codegen.Sections
import Mathlib.Data.List.Nodup

/-!
# Failure paths and their layout

The code of a bailout depends on its snapshot and on where the inputs came from (`Snapshot.path?`),
not on the code in front of it. Behind the body of a program stand the failure paths in the order
of their labels. Such code can be laid out if and only if no failure path is too far from the
branches to it (`Sections.Numbered.exists_finish_iff`).
-/

namespace InlineCache

open X64

/-! ## Failure paths -/

/-- The instruction that an item is. -/
def X64.Item.instr? : Item → Option (Instr Label)
  | .instr i => some i
  | .bind _ => none

namespace Bailout

theorem evict_blind (r : Register) (depth : Nat) (ps : List Place) :
    (evict r depth ps).Blind := by
  induction ps generalizing depth with
  | nil => exact .pure _
  | cons p ps ih =>
      rw [evict]
      split
      · refine (Emit.Blind.code rfl).bind fun _ => (Emit.Blind.pushed depth).bind fun depth' => ?_
        exact (ih depth').bind fun _ => .pure _
      · exact (ih depth).bind fun _ => .pure _

theorem restore_blind (index : Nat) (dest : Register) (depth : Nat) (p : Place) :
    (restore index dest depth p).Blind := by
  cases p with
  | valueReg r =>
      have hmove := Snippet.branches_of_quiet (Snippet.quiet_move dest r)
      exact (Emit.Blind.code hmove).bind fun _ => .pure _
  | payloadReg r t =>
      exact (Emit.Blind.code? fun _ => Snippet.quiet_tag).bind fun _ => .pure _
  | valueStack o => exact .reload _ _ _
  | payloadStack o t =>
      exact (Emit.Blind.reload _ _ _).bind fun _ =>
        (Emit.Blind.code? fun _ => Snippet.quiet_tag).bind fun _ => .pure _
  | constant v => exact (Emit.Blind.code rfl).bind fun _ => .pure _
  | uninitialized => exact .throw _

theorem restoreAll_blind (os ps : List Place) (index depth : Nat) :
    (restoreAll os ps index depth).Blind := by
  induction os generalizing ps index depth with
  | nil =>
      cases ps with
      | nil => exact .pure _
      | cons p ps => exact .throw _
  | cons o os ih =>
      cases ps with
      | nil => exact .pure _
      | cons p ps =>
          cases o with
          | constant v => exact ih ps (index + 1) depth
          | valueReg dest =>
              exact (evict_blind dest depth ps).bind fun moved =>
                (restore_blind index dest moved.2 p).bind fun depth' =>
                  ih moved.1 (index + 1) depth'
          | _ => exact .throw _

end Bailout

/-- The code that a bailout with this snapshot has behind its label, if inputs came from `origins`
and can be put back. -/
def Snapshot.path? (origins : List Place) (y : Snapshot) : Option Snippet.Code :=
  match Bailout.restoreAll origins y.inputs 0 y.depth {} with
  | .ok depth asm => some (asm.items.toList.filterMap Item.instr? ++
      (Snippet.discard depth ++ Snippet.enterNext))
  | .error _ _ => none

theorem Snapshot.path?_of_ok {origins : List Place} {y : Snapshot} {asm asm' : Assembly}
    {depth : Nat} (h : Bailout.restoreAll origins y.inputs 0 y.depth asm = .ok depth asm') :
    ∃ c, asm' = asm.append c ∧ Snippet.branches c = false ∧
      y.path? origins = some (c ++ (Snippet.discard depth ++ Snippet.enterNext)) := by
  obtain ⟨c, hc, hall⟩ := Bailout.restoreAll_blind origins y.inputs 0 y.depth _ _ _ h
  have hasm := h.symm.trans (hall asm)
  cases hasm
  refine ⟨c, rfl, hc, ?_⟩
  rw [path?, hall {}]
  simp [Assembly.append, List.filterMap_map, Function.comp_def, Item.instr?]

/-- Whether a snapshot has a failure path does not depend on what was written before. -/
theorem Snapshot.exists_of_path? {origins : List Place} {y : Snapshot} {c : Snippet.Code}
    (h : y.path? origins = some c) (asm : Assembly) :
    ∃ depth asm', Bailout.restoreAll origins y.inputs 0 y.depth asm = .ok depth asm' := by
  rw [path?] at h
  cases hrun : Bailout.restoreAll origins y.inputs 0 y.depth {} with
  | error err asm' =>
      rw [hrun] at h
      cases h
  | ok depth asm' =>
      obtain ⟨c', -, hall⟩ := Bailout.restoreAll_blind origins y.inputs 0 y.depth _ _ _ hrun
      exact ⟨depth, _, hall asm⟩

theorem Snapshot.branches_path? {origins : List Place} {y : Snapshot} {c : Snippet.Code}
    (h : y.path? origins = some c) : Snippet.branches c = false := by
  obtain ⟨depth, asm, hrun⟩ := exists_of_path? h {}
  obtain ⟨c', -, hc', hpath⟩ := path?_of_ok hrun
  cases h.symm.trans hpath
  rw [Snippet.branches_append, hc', Snippet.branches_append,
    Snippet.branches_eq_false.mpr (Snippet.straight_discard _)]
  rfl

namespace Compile

/-- The code of one bailout. -/
def path (b : Bailout) : Gen Unit := do
  let origins := (← Gen.allocator).origins.toList
  let depth ← Gen.emit (b.emit origins)
  leave depth

theorem bailouts_cons (b : Bailout) (bs : List Bailout) :
    bailouts (b :: bs) = (path b >>= fun _ => bailouts bs) := by
  rw [bailouts, path]
  simp only [bind_assoc]

variable {b : Bailout} {bs : List Bailout} {s s' : Codegen}

theorem path_of_ok (h : path b s = .ok () s') :
    ∃ c a, b.snapshot.path? s.alloc.origins.toList = some c ∧ a.origins = s.alloc.origins ∧
      s' = { s with asm := (s.asm.push (.bind b.label)).append c, alloc := a } := by
  change (Gen.emit (b.emit s.alloc.origins.toList) >>= leave) s = _ at h
  obtain ⟨depth, s₁, hemit, hleave⟩ := exists_of_bind_ok h
  rw [Gen.emit, EStateM.run] at hemit
  cases hrun : b.emit s.alloc.origins.toList s.asm with
  | error err asm =>
      rw [hrun] at hemit
      cases hemit
  | ok depth' asm =>
      rw [hrun] at hemit
      cases hemit
      change Bailout.restoreAll _ b.inputs 0 b.depth (s.asm.push (.bind b.label)) = _ at hrun
      obtain ⟨c, rfl, -, hpath⟩ := Snapshot.path?_of_ok (y := b.snapshot) hrun
      rw [leave_eq] at hleave
      cases hleave
      refine ⟨_, ({ s.alloc with depth } : Allocator).discarded, hpath, rfl, ?_⟩
      rw [← Assembly.append_append]
      rfl

theorem exists_path (h : (b.snapshot.path? s.alloc.origins.toList).isSome = true) :
    ∃ s', path b s = .ok () s' := by
  obtain ⟨c, hc⟩ := Option.isSome_iff_exists.mp h
  obtain ⟨depth, asm, hrun⟩ := Snapshot.exists_of_path? hc (s.asm.push (.bind b.label))
  have hemit : Gen.emit (b.emit s.alloc.origins.toList) s = .ok depth { s with asm } := by
    rw [Gen.emit, EStateM.run, show b.emit s.alloc.origins.toList s.asm = .ok depth asm from hrun]
  exact ⟨_, (bind_of_ok hemit).trans (leave_eq depth _)⟩

/-- What stands behind the body for a bailout. -/
def pathItems (origins : List Place) (b : Bailout) : Bailout × Snippet.Code :=
  (b, (b.snapshot.path? origins).getD [])

/-- The failure paths of a list of bailouts, each as its snapshot says. -/
theorem bailouts_of_ok (h : bailouts bs s = .ok () s') :
    (∀ b ∈ bs, (b.snapshot.path? s.alloc.origins.toList).isSome = true) ∧
    s'.bailouts = s.bailouts ∧ s'.asm.numLabels = s.asm.numLabels ∧
    s'.asm.items.toList = s.asm.items.toList ++
      (bs.map (pathItems s.alloc.origins.toList)).flatMap fun q => q.1.items q.2 := by
  induction bs generalizing s with
  | nil =>
      cases h
      simp
  | cons b bs ih =>
      rw [bailouts_cons] at h
      obtain ⟨_, s₁, hpath, hrest⟩ := exists_of_bind_ok h
      obtain ⟨c, a, hc, horigins, rfl⟩ := path_of_ok hpath
      obtain ⟨hpaths, hbailouts, hlabels, hitems⟩ := ih hrest
      rw [show ({ s with asm := (s.asm.push (.bind b.label)).append c, alloc := a } :
        Codegen).alloc.origins = s.alloc.origins from horigins] at hpaths hitems
      refine ⟨List.forall_mem_cons.mpr ⟨by rw [hc]; rfl, hpaths⟩, hbailouts, hlabels,
        hitems.trans ?_⟩
      simp [Assembly.append, Assembly.push, Bailout.items, pathItems, hc]

theorem exists_bailouts
    (h : ∀ b ∈ bs, (b.snapshot.path? s.alloc.origins.toList).isSome = true) :
    ∃ s', bailouts bs s = .ok () s' := by
  induction bs generalizing s with
  | nil => exact ⟨s, rfl⟩
  | cons b bs ih =>
      obtain ⟨s₁, hpath⟩ := exists_path (h b List.mem_cons_self)
      obtain ⟨c, a, -, horigins, rfl⟩ := path_of_ok hpath
      obtain ⟨s', hrest⟩ := ih (s := { s with asm := (s.asm.push (.bind b.label)).append c, alloc := a })
        fun b' hb' => by
          change (b'.snapshot.path? a.origins.toList).isSome = true
          rw [horigins]
          exact h b' (List.mem_cons_of_mem b hb')
      refine ⟨s', ?_⟩
      rw [bailouts_cons, bind_of_ok hpath]
      exact hrest

end Compile

/-! ## Layout -/

namespace X64.Item

theorem totalSize_map_relabel (f : Label → Label) (c : Snippet.Code) :
    totalSize ((c.map (Instr.relabel f)).map Item.instr) = totalSize (c.map Item.instr) := by
  induction c with
  | nil => rfl
  | cons i c ih =>
      rw [List.map_cons, List.map_cons, List.map_cons, totalSize, totalSize, ih, size, size,
        Instr.size_relabel]

theorem count_bind (start : Nat) (l : Label) (is : List Item) :
    is.count (.bind l) = ((bindings start is).map Prod.fst).count l := by
  induction is generalizing start with
  | nil => rfl
  | cons i is ih =>
      cases i with
      | instr i => rw [List.count_cons_of_ne (by simp), bindings, ih]
      | bind k =>
          rw [bindings, List.map_cons, List.count_cons, List.count_cons, ih start]
          simp

theorem totalSize_flatMap_le {α : Type} {l m : List α} (h : l.Sublist m) (f : α → List Item) :
    totalSize (l.flatMap f) ≤ totalSize (m.flatMap f) := by
  induction h with
  | slnil => exact Nat.le_refl _
  | cons a _ ih =>
      rw [List.flatMap_cons, totalSize_append]
      exact Nat.le_trans ih (Nat.le_add_left _ _)
  | cons_cons a _ ih =>
      rw [List.flatMap_cons, List.flatMap_cons, totalSize_append, totalSize_append]
      exact Nat.add_le_add_left ih _

end X64.Item

namespace Sections

/-- The labels are the numbers of the failure paths, and all branches are in the body. -/
structure Numbered (x : Sections) : Prop where
  label : ∀ {l : Label} {q : Bailout × Snippet.Code}, x.paths[l]? = some q → q.1.label = l
  straight : ∀ q ∈ x.paths, Snippet.branches q.2 = false
  target : ∀ i ∈ x.body, ∀ l, i.target? = some l → l < x.paths.length

/-- The offset of the code behind a label. -/
def offset (x : Sections) (l : Label) : Nat :=
  Item.totalSize (x.body.map Item.instr) +
    Item.totalSize ((x.paths.take l).flatMap fun q => q.1.items q.2)

variable {x y : Sections}

theorem bindings_paths (start : Nat) (paths : List (Bailout × Snippet.Code)) :
    (Item.bindings start (paths.flatMap fun q => q.1.items q.2)).map Prod.fst =
      paths.map fun q => q.1.label := by
  induction paths generalizing start with
  | nil => rfl
  | cons q paths ih =>
      rw [List.flatMap_cons, Item.bindings_append, Bailout.items, Item.bindings,
        Item.bindings_map_instr, List.map_append, ih]
      rfl

theorem bindings_items (x : Sections) :
    (Item.bindings 0 x.items).map Prod.fst = x.paths.map fun q => q.1.label := by
  rw [items, Item.bindings_append, Item.bindings_map_instr, List.nil_append, bindings_paths]

theorem Numbered.labels (h : x.Numbered) :
    x.paths.map (fun q => q.1.label) = List.range x.paths.length := by
  refine List.ext_getElem (by simp) fun l hl _ => ?_
  rw [List.length_map] at hl
  rw [List.getElem_map, List.getElem_range]
  exact h.label (List.getElem?_eq_getElem hl)

theorem Numbered.nodup (h : x.Numbered) : ((Item.bindings 0 x.items).map Prod.fst).Nodup := by
  rw [bindings_items, h.labels]
  exact List.nodup_range

theorem Numbered.lookup (h : x.Numbered) {l : Label} (hl : l < x.paths.length) :
    (Item.bindings 0 x.items).lookup l = some (x.offset l) := by
  have hsplit : x.items = (x.body.map Item.instr ++
      (x.paths.take l).flatMap fun q => q.1.items q.2) ++ .bind l ::
        ((x.paths[l].2).map Item.instr ++ (x.paths.drop (l + 1)).flatMap fun q => q.1.items q.2) := by
    have hlabel := h.label (List.getElem?_eq_getElem hl)
    rw [items, List.append_assoc]
    conv_lhs => rw [← List.take_append_drop l x.paths, List.drop_eq_getElem_cons hl]
    rw [List.flatMap_append, List.flatMap_cons, Bailout.items, hlabel]
    rfl
  have hplace := Item.lookup_bindings (hsplit ▸ h.nodup)
  rw [← hsplit] at hplace
  rw [hplace, Item.totalSize_append]
  rfl

/-- A branch is in the body. -/
theorem Numbered.split (h : x.Numbered) {before after : List Item} {i : Instr Label} {l : Label}
    (hitems : x.items = before ++ .instr i :: after) (hl : i.target? = some l) :
    ∃ c c', x.body = c ++ i :: c' ∧ before = c.map Item.instr := by
  have htail : .instr i ∉ x.paths.flatMap fun q => q.1.items q.2 := by
    intro hmem
    obtain ⟨q, hq, hi⟩ := List.mem_flatMap.mp hmem
    rw [Bailout.items, List.mem_cons, List.mem_map] at hi
    obtain hi | ⟨j, hj, hi⟩ := hi
    · cases hi
    · cases hi
      rw [Snippet.branches_eq_false.mp (h.straight q hq) i hj] at hl
      cases hl
  obtain ⟨rest, -, hrest⟩ | ⟨rest, hbody, hrest⟩ := List.append_eq_append_iff.mp hitems
  · exact absurd (by rw [hrest]; simp) htail
  · cases rest with
    | nil => exact absurd (by rw [← List.nil_append (List.flatMap _ _), ← hrest]; simp) htail
    | cons k rest =>
        rw [List.cons_append, List.cons.injEq] at hrest
        obtain ⟨rfl, -⟩ := hrest
        obtain ⟨c, c', hc, hbefore, hc'⟩ := List.map_eq_append_iff.mp hbody
        obtain ⟨j, e, rfl, hj, -⟩ := List.map_eq_cons_iff.mp hc'
        cases hj
        exact ⟨c, e, hc, hbefore.symm⟩

/-- The code can be laid out if and only if no failure path is too far from its branches. -/
theorem Numbered.exists_finish_iff (h : x.Numbered) : (∃ bytes, x.assembly.finish = .ok bytes) ↔
    ∀ c i c', x.body = c ++ i :: c' → ∀ l, i.target? = some l →
      x.offset l < 2 ^ 31 + (Item.totalSize (c.map Item.instr) + i.size) := by
  have htarget : ∀ {c i c' l}, x.body = c ++ i :: c' → i.target? = some l → ∀ next : Nat,
      Item.target (Item.bindings 0 x.items) next l =
        Item.displacement? ((x.offset l : Int) - next) := by
    intro c i c' l hc hl next
    rw [Item.target, h.lookup (h.target i (by rw [hc]; simp) l hl), Option.bind_some]
  have hitems : x.assembly.items.toList = x.items := by rw [assembly]
  rw [Assembly.exists_finish_iff, hitems, and_iff_right h.nodup, Item.exists_resolve?_iff]
  constructor
  · intro hall c i c' hc l hl
    obtain ⟨d, hd⟩ := hall (c.map Item.instr) i
      (c'.map Item.instr ++ x.paths.flatMap fun q => q.1.items q.2) (by simp [items, hc]) l hl
    rw [htarget hc hl, Item.displacement?] at hd
    split at hd
    · omega
    · cases hd
  · rintro hall before i after hsplit l hl
    obtain ⟨c, c', hc, rfl⟩ := h.split hsplit hl
    have hlt := hall c i c' hc l hl
    have hle : Item.totalSize (c.map Item.instr) + i.size ≤ x.offset l := by
      rw [offset, hc, List.map_append, Item.totalSize_append, List.map_cons, Item.totalSize,
        Item.size]
      omega
    rw [htarget hc hl, Item.displacement?]
    exact ⟨_, if_pos ⟨by omega, by omega⟩⟩

/-- Sections that can be laid out can still be laid out if failure paths move to the front. -/
theorem Numbered.exists_finish (hx : x.Numbered) (hy : y.Numbered) {f : Label → Label}
    (hbody : y.body = x.body.map (Instr.relabel f))
    (hoffset : ∀ l < x.paths.length, y.offset (f l) ≤ x.offset l)
    (h : ∃ bytes, x.assembly.finish = .ok bytes) : ∃ bytes, y.assembly.finish = .ok bytes := by
  refine hy.exists_finish_iff.mpr fun c i c' hc l hl => ?_
  rw [hbody] at hc
  obtain ⟨d, d', hd, rfl, hd'⟩ := List.map_eq_append_iff.mp hc
  obtain ⟨j, e, rfl, rfl, rfl⟩ := List.map_eq_cons_iff.mp hd'
  rw [Instr.target?_relabel] at hl
  obtain ⟨k, hk, rfl⟩ := Option.map_eq_some_iff.mp hl
  have hlt := hx.exists_finish_iff.mp h d j e hd k hk
  have hle := hoffset k (hx.target j (by rw [hd]; simp) k hk)
  rw [Item.totalSize_map_relabel, Instr.size_relabel]
  omega

def bailouts (x : Sections) : List Bailout :=
  x.paths.map Prod.fst

def snapshots (x : Sections) : List Snapshot :=
  x.bailouts.map Bailout.snapshot

/-- The label of every failure path is bound once, and every branch of the body goes to a failure
path. -/
structure Closed (x : Sections) : Prop where
  bound : ∀ b ∈ x.bailouts, x.items.count (.bind b.label) = 1
  target : ∀ i ∈ x.body, ∀ l, i.target? = some l → ∃ b ∈ x.bailouts, b.label = l

theorem length_snapshots (x : Sections) : x.snapshots.length = x.paths.length := by
  rw [snapshots, bailouts, List.length_map, List.length_map]

theorem Numbered.label_of_mem (h : x.Numbered) {b : Bailout} (hb : b ∈ x.bailouts) :
    x.bailouts[b.label]? = some b ∧ b.label < x.paths.length := by
  obtain ⟨q, hq, rfl⟩ := List.mem_map.mp hb
  obtain ⟨l, hl⟩ := List.mem_iff_getElem?.mp hq
  rw [h.label hl, bailouts, List.getElem?_map, hl]
  exact ⟨rfl, (List.getElem?_eq_some_iff.mp hl).1⟩

theorem Numbered.closed (h : x.Numbered) : x.Closed where
  bound b hb := by
    have hmem : b.label ∈ (Item.bindings 0 x.items).map Prod.fst := by
      rw [bindings_items, h.labels, List.mem_range]
      exact (h.label_of_mem hb).2
    rw [Item.count_bind 0, List.count_eq_one_of_mem h.nodup hmem]
  target i hi l hl := by
    have hlt := h.target i hi l hl
    exact ⟨x.paths[l].1, List.mem_map_of_mem (List.getElem_mem hlt),
      h.label (List.getElem?_eq_getElem hlt)⟩

end Sections
end InlineCache
