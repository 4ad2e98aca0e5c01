import InlineCache.Proofs.Codegen.LevelPaths

/-!
# Sections of a stub

The code of a stub is a body and behind it a failure path for each bailout (`Sections`). In level
sections the stack has one depth at every point, in whatever run the point is passed. The code of
a program that compiles is level (`Compile.exists_sections`), and its first instructions make a
front of the body (`Compile.exists_upTo`).
-/

namespace InlineCache

open X64

/-! ## Sections -/

/-- The code of a stub before it is laid out. -/
structure Sections where
  body : Snippet.Code
  /-- The bailouts, each with the code that follows its label. -/
  paths : List (Bailout × Snippet.Code)

namespace Sections

def items (x : Sections) : List Item :=
  x.body.map Item.instr ++ x.paths.flatMap fun path => path.1.items path.2

def assembly (x : Sections) : Assembly where
  items := x.items.toArray
  numLabels := x.paths.length

/-- The body is entered with nothing on the stack. -/
def bodyPoints (x : Sections) : List Point :=
  points 0 0 x.body

/-- The points of failure paths, of which the first is at an offset. Each is entered at the depth
of its snapshot. -/
def pathPointsFrom (offset : Nat) : List (Bailout × Snippet.Code) → List (Bailout × List Point)
  | [] => []
  | path :: paths => (path.1, X64.points offset path.1.depth path.2) ::
      pathPointsFrom (offset + Item.totalSize (path.2.map Item.instr)) paths

def pathPoints (x : Sections) : List (Bailout × List Point) :=
  pathPointsFrom (Item.totalSize (x.body.map Item.instr)) x.paths

def points (x : Sections) : List Point :=
  x.bodyPoints ++ x.pathPoints.flatMap Prod.snd

/-- The depth at a label. -/
def entry (x : Sections) (l : Label) : Nat :=
  (x.paths[l]?.map fun path => path.1.depth).getD 0

theorem entry_of_label {x : Sections} {bs : Array Bailout}
    (hfst : x.paths.map Prod.fst = bs.toList)
    (hlabel : ∀ {i : Nat} {b : Bailout}, bs[i]? = some b → b.label = i) {b : Bailout}
    (hb : b ∈ bs.toList) : x.entry b.label = b.depth := by
  obtain ⟨i, hi⟩ := List.getElem?_of_mem hb
  have hl : b.label = i := hlabel (by rw [← Array.getElem?_toList]; exact hi)
  rw [← hfst, List.getElem?_map, ← hl] at hi
  obtain ⟨path, hpath, rfl⟩ := Option.map_eq_some_iff.mp hi
  rw [entry, hpath]
  rfl

/-- All sections are level. -/
structure Level (x : Sections) (stackBytes : Nat) : Prop where
  ends : ∃ c, x.body = c ++ [.ret]
  body : Levels (fun l d => d = x.entry l) 0 x.body
  peak : peak 0 x.body = stackBytes
  entries : ∀ path ∈ x.paths, x.entry path.1.label = path.1.depth
  paths : ∀ path ∈ x.paths, path.1.Path (stackBytes + 8) path.2

theorem mem_pathPointsFrom {offset : Nat} {paths : List (Bailout × Snippet.Code)}
    {path : Bailout × List Point} (h : path ∈ pathPointsFrom offset paths) :
    ∃ c offset', (path.1, c) ∈ paths ∧ path.2 = X64.points offset' path.1.depth c := by
  induction paths generalizing offset with
  | nil => cases h
  | cons path' paths ih =>
      obtain rfl | h := List.mem_cons.mp h
      · exact ⟨path'.2, offset, List.mem_cons_self, rfl⟩
      · obtain ⟨c, offset', hmem, hpoints⟩ := ih h
        exact ⟨c, offset', List.mem_cons_of_mem _ hmem, hpoints⟩

theorem points_paths {entry : Label → Nat} {paths : List (Bailout × Snippet.Code)}
    (h : ∀ path ∈ paths, entry path.1.label = path.1.depth) (offset d : Nat) :
    Item.points entry offset d (paths.flatMap fun path => path.1.items path.2) =
      (pathPointsFrom offset paths).flatMap Prod.snd := by
  induction paths generalizing offset d with
  | nil => rfl
  | cons path paths ih =>
      obtain ⟨hpath, hpaths⟩ := List.forall_mem_cons.mp h
      rw [List.flatMap_cons, Bailout.items, List.cons_append, Item.points, hpath,
        Item.points_append, Item.points_map_instr, ih hpaths, pathPointsFrom, List.flatMap_cons]

theorem levels_paths {entry : Label → Nat} {paths : List (Bailout × Snippet.Code)} {top : Nat}
    (h : ∀ path ∈ paths, entry path.1.label = path.1.depth)
    (hpaths : ∀ path ∈ paths, path.1.Path top path.2) (d : Nat) :
    Item.Levels entry d false (paths.flatMap fun path => path.1.items path.2) := by
  induction paths generalizing d with
  | nil => rfl
  | cons path paths ih =>
      obtain ⟨hentry, hentries⟩ := List.forall_mem_cons.mp h
      obtain ⟨hpath, hpaths⟩ := List.forall_mem_cons.mp hpaths
      obtain ⟨c, hc⟩ := hpath.ends
      have hlevels : Levels (fun l d => d = entry l) path.1.depth path.2 :=
        hpath.leads.levels.mono fun _ _ hf => hf.elim
      rw [hc, ← hentry] at hlevels
      rw [List.flatMap_cons, Bailout.items, hc]
      exact ⟨rfl, Item.Levels.of_code hlevels rfl (ih hentries hpaths)⟩

namespace Level

variable {x : Sections} {stackBytes : Nat} {q : Point}

theorem points_eq (h : x.Level stackBytes) : Item.points x.entry 0 0 x.items = x.points := by
  rw [items, Item.points_append, Item.points_map_instr, points_paths h.entries, Nat.zero_add]
  rfl

theorem levels (h : x.Level stackBytes) : Item.Levels x.entry 0 true x.items := by
  obtain ⟨c, hc⟩ := h.ends
  have hbody := h.body
  rw [hc] at hbody
  rw [items, hc]
  exact Item.Levels.of_code hbody rfl (levels_paths h.entries h.paths)

theorem fits (h : x.Level stackBytes) (hq : q ∈ x.points) :
    q.instr.Fits (fun l d => d = x.entry l) q.depth :=
  h.levels.fits (h.points_eq ▸ hq)

theorem dvd_of_mem_body (h : x.Level stackBytes) (hq : q ∈ x.bodyPoints) : 8 ∣ q.depth := by
  obtain ⟨front, rest, hsplit, -, hdepth⟩ := mem_points.mp hq
  have hbody := h.body
  rw [hsplit, levels_append] at hbody
  rw [hdepth]
  exact hbody.1.dvd (Nat.dvd_zero 8)

theorem depth_le_of_mem_body (h : x.Level stackBytes) (hq : q ∈ x.bodyPoints) :
    q.depth ≤ stackBytes :=
  h.peak ▸ depth_le_peak hq

/-- The greatest depth is one of a point, because the return does not make the stack deeper. -/
theorem exists_mem_body (h : x.Level stackBytes) : ∃ q ∈ x.bodyPoints, q.depth = stackBytes := by
  obtain ⟨c, hc⟩ := h.ends
  have hpeak := h.peak
  have hret : X64.peak (depthBehind 0 c) [(.ret : Instr Label)] = depthBehind 0 c := Nat.max_self _
  have hle : depthBehind 0 c ≤ X64.peak 0 (c ++ []) := depthBehind_le_peak
  rw [List.append_nil] at hle
  rw [hc, peak_append, hret, Nat.max_eq_left hle] at hpeak
  obtain ⟨front, hfront, hdepth⟩ := exists_eq_peak 0 c
  obtain ⟨q, hq, -, hqdepth⟩ := exists_mem_points 0 0 hfront .ret
  exact ⟨q, by rw [bodyPoints, hc]; exact hq, by rw [hqdepth, hdepth, hpeak]⟩

theorem path_points (h : x.Level stackBytes) {path : Bailout × List Point}
    (hpath : path ∈ x.pathPoints) : path.2.head?.map Point.depth = some path.1.depth ∧
      ∀ q ∈ path.2, q.depth ≤ stackBytes + 8 := by
  obtain ⟨c, offset, hmem, hpoints⟩ := mem_pathPointsFrom hpath
  obtain ⟨hleads, c', rfl⟩ := h.paths _ hmem
  rw [hpoints]
  refine ⟨?_, fun q hq => Nat.le_trans (depth_le_peak hq) hleads.below⟩
  cases c' with
  | nil => rfl
  | cons i c' => rfl

theorem depth_le (h : x.Level stackBytes) (hq : q ∈ x.points) : q.depth ≤ stackBytes + 8 := by
  obtain hbody | hpath := List.mem_append.mp hq
  · exact Nat.le_trans (h.depth_le_of_mem_body hbody) (Nat.le_add_right _ _)
  · obtain ⟨path, hmem, hq⟩ := List.mem_flatMap.mp hpath
    exact (h.path_points hmem).2 q hq

section
variable {bytes : List UInt8} {m m' : Machine} {pc : Nat} (h : x.Level stackBytes)
  (hbytes : x.assembly.finish = .ok bytes) (hroom : stackBytes + 8 < 2 ^ 31)
include h hroom

theorem depth_lt : ∀ q ∈ Item.points x.entry 0 0 x.items, q.depth < 2 ^ 31 := fun _ hq =>
  Nat.lt_of_le_of_lt (h.depth_le (h.points_eq ▸ hq)) hroom

include hbytes

/-- Every run of the bytes goes from point to point. -/
theorem exists_mem_of_passes (hp : Passes bytes m pc m') : ∃ q ∈ x.points, q.offset = pc := by
  obtain ⟨out, hout, rfl⟩ := Assembly.exists_of_finish hbytes
  obtain ⟨before, i, after, hat⟩ := hp.at hout h.levels (h.depth_lt hroom)
  exact ⟨_, h.points_eq ▸ hat.mem_points, rfl⟩

theorem pushed_of_passes (hq : q ∈ x.points) (hp : Passes bytes m q.offset m') :
    (m.reg .rsp - m'.reg .rsp).toNat = q.depth := by
  obtain ⟨out, hout, rfl⟩ := Assembly.exists_of_finish hbytes
  have hmem : q ∈ Item.points x.entry 0 0 x.items := h.points_eq ▸ hq
  rw [hp.sp hout h.levels (h.depth_lt hroom) hmem]
  exact Memory.toNat_sub_slot (Nat.lt_trans (h.depth_lt hroom q hmem) (by decide))

theorem sp_of_run (hrun : run bytes m = .returned m' ∨ ∃ target, run bytes m = .left target m') :
    m'.reg .rsp = m.reg .rsp := by
  obtain ⟨out, hout, rfl⟩ := Assembly.exists_of_finish hbytes
  exact sp_of_runFrom hout h.levels (h.depth_lt hroom) hrun

end

end Level
end Sections

/-! ## Compiling -/

namespace Codegen

theorem Written.eq_of_items {s : Codegen} {c c' : Snippet.Code} (h : s.Written c)
    (h' : s.Written c') : c = c' :=
  Item.map_instr_inj (h.items.symm.trans h'.items)

theorem Written.dvd {s : Codegen} {c : Snippet.Code} (h : s.Written c) : 8 ∣ s.alloc.depth :=
  h.depth ▸ h.levels.dvd (Nat.dvd_zero 8)

theorem written_start (p : Program) (e : Engine) (o : Options) : (start p e o).Written [] where
  items := rfl
  levels := trivial
  depth := rfl
  peak := rfl
  labelled := ⟨rfl, fun {i b} hb => (by simp [start] at hb)⟩
  bailouts b hb := (by simp [start] at hb)
  numInputs := p.kind.numInputs_le_two
  origins r hr := by simp [start, Allocator.new] at hr

/-- An input that arrives writes nothing. -/
theorem Written.arrive {s : Codegen} {c : Snippet.Code} (h : s.Written c) {i : Nat} {q : Place}
    (hq : ∀ r, q = .valueReg r → r ≠ .rsp) :
    ({ s with alloc := s.alloc.arrive i q } : Codegen).Written c := by
  refine h.withAlloc rfl rfl rfl fun r hr => ?_
  obtain hold | rfl := Array.mem_or_eq_of_mem_setIfInBounds (Array.mem_toList_iff.mp hr)
  · exact h.origins r (Array.mem_toList_iff.mpr hold)
  · exact hq r rfl

end Codegen

namespace Compile

variable {p : Program} {e : Engine} {o : Options} {inputs : Inputs} {code : StubCode}

/-- Compiles the first instructions of a program, at most `k` of them. Returns whether the last was
a return. -/
def upTo [ClassTable] (p : Program) (inputs : Inputs) (k : Nat) : Compile Bool := do
  gen (initInputs 0 inputs.places)
  instructions p (displacement p) k (.start p.code.toList) false false

theorem initInputs_follows {index : Nat} {ps : List Place} (hps : ps = inputs.places.drop index)
    {s : Codegen} (h : s.alloc.Receives e (List.range index)) (hwritten : s.Written []) :
    Follows (initInputs index ps) s fun _ s' => Between e [] false s' := by
  induction ps generalizing index s with
  | nil => exact Ensures.pure ⟨.empty, h.partitioned, [], List.prefix_rfl, hwritten⟩
  | cons q ps ih =>
      have hq : inputs.places[index]? = some q := by
        rw [← List.head?_drop, ← hps]
        rfl
      have hrest : ps = inputs.places.drop (index + 1) := by
        rw [← List.tail_drop, ← hps]
        rfl
      cases hinit : Gen.initInput index q s with
      | error err s' => exact Ensures.bind (Ensures.of_error hinit trivial)
      | ok _ s' =>
          obtain ⟨-, -, hsize, rfl⟩ := Gen.initInput_of_ok hinit
          have hplace : (∃ v, q = .constant v) ∨
              ∃ r, inputRegisters[index]? = some r ∧ q = .valueReg r := by
            obtain ⟨v, -, hv⟩ | ⟨r, -, hr⟩ := Inputs.places_eq hq
            · exact .inl ⟨v, hv⟩
            · exact .inr ⟨r, hr⟩
          have harrive := h.arrive List.not_mem_range_self hsize hplace
          refine Ensures.bind_ok hinit (ih hrest (harrive.mono ?_) (hwritten.arrive ?_))
          · intro j hj
            rw [List.mem_cons, List.mem_range] at hj
            rw [List.mem_range]
            omega
          · rintro r rfl
            have hmem := inputs.allocatable_places e (List.mem_of_getElem? hq)
            exact (Allocator.usable_of_allocatable hmem).1

/-- What it takes to compile. -/
theorem exists_of_compile [ClassTable] (h : compile p e inputs o = .ok code) :
    ∃ s₁ s₂, upTo p inputs p.code.size (.start p e o) = .ok true s₁ ∧
      gen (bailouts s₁.bailouts.toList) s₁ = .ok () s₂ ∧ s₂.asm.finish = .ok code.bytes ∧
      code.bailouts = s₂.bailouts.toList ∧ code.stackBytes = s₁.alloc.maxDepth := by
  rw [compile] at h
  split at h
  · cases h
  · split at h
    · cases h
    · next stackBytes s₂ hprogram =>
        split at h
        · cases h
        · next bytes hfinish =>
            cases h
            have hrun : program p inputs (.start p e o) = .ok stackBytes s₂ := hprogram
            obtain ⟨_, s₀, hinit, hrun⟩ := exists_of_bind_ok hrun
            obtain ⟨returned, s₁, hinstr, hrun⟩ := exists_of_bind_ok hrun
            cases returned with
            | false => cases hrun
            | true =>
                change (gen (bailouts s₁.bailouts.toList) >>= fun _ => pure s₁.alloc.maxDepth) s₁ =
                  .ok stackBytes s₂ at hrun
                obtain ⟨_, s₃, hbailouts, hrun⟩ := exists_of_bind_ok hrun
                cases hrun
                exact ⟨s₁, s₂, (bind_of_ok hinit).trans hinstr, hbailouts, hfinish, rfl, rfl⟩

theorem upTo_follows [ClassTable] (p : Program) (e : Engine) (o : Options) (inputs : Inputs)
    (k : Nat) : Follows (upTo p inputs k) (.start p e o) (Between e []) :=
  Follows.bind (gen_ensures (initInputs_follows rfl (Allocator.receives_new p e)
    (Codegen.written_start p e o))) fun _ _ h => instructions_follows h

/-- The code of the first instructions is a front of the body, and the stack behind it is as deep
as the allocator knows. -/
theorem exists_upTo [ClassTable] {s₁ : Codegen}
    (h : upTo p inputs p.code.size (.start p e o) = .ok true s₁) {k : Nat} (hk : k ≤ p.code.size) :
    ∃ returned s, upTo p inputs k (.start p e o) = .ok returned s ∧
      8 ∣ s.alloc.depth ∧ (returned = false →
        ∃ front c, front <+: c ∧ s.Written front ∧ s₁.Written (c ++ [.ret])) := by
  obtain ⟨rest, hrest⟩ := Nat.le.dest hk
  rw [← hrest] at h
  obtain ⟨_, s₀, hinit, hinstr⟩ := exists_of_bind_ok h
  obtain ⟨returned, s, hfirst, c, hasResult, hsecond⟩ := instructions_add hinstr
  have hs : upTo p inputs k (.start p e o) = .ok returned s := (bind_of_ok hinit).trans hfirst
  have hbetween := (upTo_follows p e o inputs k).of_eq_ok hs
  refine ⟨returned, s, hs, ?_⟩
  cases returned with
  | true =>
      obtain ⟨c, -, hwritten⟩ := hbetween
      exact ⟨hwritten.dvd, fun hr => (by cases hr)⟩
  | false =>
      obtain ⟨claimed, htracks⟩ := hbetween
      obtain ⟨front, -, hwritten, hfront⟩ := htracks.advance
      have htracked : Between e front false s := ⟨claimed, hfront⟩
      obtain ⟨c, hprefix, hbody⟩ := (instructions_follows htracked).of_eq_ok hsecond
      exact ⟨hwritten.dvd, fun _ => ⟨front, c, hprefix, hwritten, hbody⟩⟩

/-- The sections of a compiled program. -/
theorem exists_sections [ClassTable] {s₁ s₂ : Codegen}
    (h₁ : upTo p inputs p.code.size (.start p e o) = .ok true s₁)
    (h₂ : gen (bailouts s₁.bailouts.toList) s₁ = .ok () s₂) :
    ∃ x : Sections, x.items = s₂.asm.items.toList ∧
      x.paths.map Prod.fst = s₂.bailouts.toList ∧ s₁.Written x.body ∧
      x.Level s₁.alloc.maxDepth := by
  obtain ⟨c, -, hwritten⟩ := (upTo_follows p e o inputs p.code.size).of_eq_ok h₁
  have hfollows := gen_ensures (E := fun _ _ => True) (bailouts_follows hwritten.numInputs
    hwritten.bailouts hwritten.origins)
  obtain ⟨paths, hfst, hsame, hitems, hpaths⟩ := hfollows.of_eq_ok h₂
  have hentry : ∀ b ∈ s₁.bailouts.toList,
      Sections.entry ⟨c ++ [.ret], paths⟩ b.label = b.depth := fun b hb =>
    Sections.entry_of_label hfst hwritten.labelled.label hb
  refine ⟨⟨c ++ [.ret], paths⟩, ?_, hfst.trans (by rw [hsame]), hwritten, ⟨c, rfl⟩,
    hwritten.levels.mono ?_, hwritten.peak, fun path hpath => hentry _ ?_, hpaths⟩
  · rw [hitems, hwritten.items]
    rfl
  · rintro l d ⟨b, hb, rfl, rfl⟩
    exact (hentry b hb).symm
  · rw [← hfst]
    exact List.mem_map_of_mem hpath

end Compile

end InlineCache
