import InlineCache.Proofs.Codegen.Bailouts
import InlineCache.Proofs.Codegen.Requests

/-!
# The body of a stub is level

While a body is compiled, the code written so far and the allocator tell the same story: the code
is level, the stack behind it is as deep as the allocator knows, and the greatest depth in it is
the greatest depth that the allocator remembers (`Codegen.Written`). Guards branch to bailouts
whose snapshots have the depth at the guard. Each operation is checked once, for operands in
whatever place; whether the operands have the types that the operation expects does not matter.
-/

namespace InlineCache

open X64

/-- If the computation returns, then as `Q` says. -/
abbrev Follows {σ ε α : Type} (x : EStateM ε σ α) (s : σ) (Q : α → σ → Prop) : Prop :=
  Ensures (fun _ _ => True) x s Q

theorem Follows.bind {σ ε α β : Type} {x : EStateM ε σ α} {f : α → EStateM ε σ β} {s : σ}
    {Q : α → σ → Prop} {R : β → σ → Prop} (h : Follows x s Q)
    (hf : ∀ a s', Q a s' → Follows (f a) s' R) : Follows (x >>= f) s R :=
  Ensures.bind (h.mono (fun _ _ _ => trivial) hf)

/-! ## The code so far -/

/-- The inputs of a snapshot are where its depth allows. -/
structure Bailout.Levelled (n maxDepth : Nat) (b : Bailout) : Prop where
  length : b.inputs.length ≤ n
  aligned : 8 ∣ b.depth
  depth_le : b.depth ≤ maxDepth
  bounded : b.depth < 2 ^ 32
  slot : ∀ {p o}, p ∈ b.inputs → p.slot? = some o → 0 < o ∧ 8 ∣ o

namespace Codegen

/-- A guard may branch to this label at this depth. -/
def Expects (s : Codegen) (l : Label) (depth : Nat) : Prop :=
  ∃ b ∈ s.bailouts.toList, b.label = l ∧ b.depth = depth

/-- The code so far. It is level and in step with the allocator. -/
structure Written (s : Codegen) (c : Snippet.Code) : Prop where
  items : s.asm.items.toList = c.map Item.instr
  levels : Levels s.Expects 0 c
  depth : depthBehind 0 c = s.alloc.depth
  peak : X64.peak 0 c = s.alloc.maxDepth
  labelled : s.Labelled
  bailouts : ∀ b ∈ s.bailouts.toList, b.Levelled s.alloc.numInputs s.alloc.maxDepth
  numInputs : s.alloc.numInputs ≤ 2
  origins : ∀ r, .valueReg r ∈ s.alloc.origins.toList → r ≠ .rsp

/-- The code so far starts with `front`, and the registers are shared out. -/
structure Tracks (e : Engine) (front : Snippet.Code) (claimed : RegisterSet) (s : Codegen) :
    Prop where
  partitioned : s.alloc.Partitioned e claimed
  written : ∃ c, front <+: c ∧ s.Written c

section
variable {s : Codegen} {e : Engine} {front c c' : Snippet.Code} {claimed claimed' : RegisterSet}
  {a : Allocator} {l : Label}

theorem Written.write (h : s.Written c) (hlevels : Levels s.Expects s.alloc.depth c')
    (hdepth : depthBehind s.alloc.depth c' = a.depth)
    (hpeak : max s.alloc.maxDepth (X64.peak s.alloc.depth c') = a.maxDepth)
    (hinputs : a.numInputs = s.alloc.numInputs) (horigins : a.origins = s.alloc.origins) :
    (s.write c' a).Written (c ++ c') where
  items := by simp [Codegen.write, Assembly.append, h.items]
  levels := levels_append.mpr ⟨h.levels, by rw [h.depth]; exact hlevels⟩
  depth := by rw [depthBehind_append, h.depth, hdepth, alloc_write]
  peak := by rw [peak_append, h.peak, h.depth, hpeak, alloc_write]
  labelled := h.labelled.write c' a
  bailouts b hb := by
    have hlevelled := h.bailouts b hb
    have hle : s.alloc.maxDepth ≤ a.maxDepth := hpeak ▸ Nat.le_max_left _ _
    exact { hlevelled with
      length := by rw [alloc_write, hinputs]; exact hlevelled.length
      depth_le := Nat.le_trans hlevelled.depth_le hle }
  numInputs := by rw [alloc_write, hinputs]; exact h.numInputs
  origins := by rw [alloc_write, horigins]; exact h.origins

/-- Nothing is written, and the allocator changes in what the code does not show. -/
theorem Written.withAlloc (h : s.Written c) (hdepth : a.depth = s.alloc.depth)
    (hmax : a.maxDepth = s.alloc.maxDepth) (hinputs : a.numInputs = s.alloc.numInputs)
    (horigins : ∀ r, .valueReg r ∈ a.origins.toList → r ≠ .rsp) :
    ({ s with alloc := a } : Codegen).Written c where
  items := h.items
  levels := h.levels
  depth := h.depth.trans hdepth.symm
  peak := h.peak.trans hmax.symm
  labelled := ⟨h.labelled.numLabels, h.labelled.label⟩
  bailouts b hb := by
    rw [hmax, hinputs]
    exact h.bailouts b hb
  numInputs := hinputs ▸ h.numInputs
  origins := horigins

theorem Tracks.write (h : s.Tracks e front claimed) (hk : s.alloc.Keeps e c' claimed' a) :
    (s.write c' a).Tracks e front claimed' := by
  obtain ⟨c, hfront, hwritten⟩ := h.written
  refine ⟨hk.partitioned, c ++ c', hfront.trans (List.prefix_append c c'),
    hwritten.write (hk.climbs.levels.mono fun _ _ hf => hf.elim) hk.climbs.depth hk.climbs.peak
      hk.continues.numInputs hk.continues.origins⟩

/-- Code that leaves the stack alone, and may branch. -/
theorem Tracks.flat (h : s.Tracks e front claimed) (hc : Flat s.Expects s.alloc.depth c') :
    (s.write c' s.alloc).Tracks e front claimed := by
  obtain ⟨c, hfront, hwritten⟩ := h.written
  obtain ⟨hlevels, hdepth, hpeak⟩ := hc.levels
  refine ⟨h.partitioned, c ++ c', hfront.trans (List.prefix_append c c'),
    hwritten.write hlevels hdepth ?_ rfl rfl⟩
  rw [hpeak, Nat.max_eq_left h.partitioned.depth_le]

/-- The code so far is a front of the code to come. -/
theorem Tracks.advance (h : s.Tracks e front claimed) :
    ∃ c, front <+: c ∧ s.Written c ∧ s.Tracks e c claimed := by
  obtain ⟨c, hfront, hwritten⟩ := h.written
  exact ⟨c, hfront, hwritten, h.partitioned, c, List.prefix_rfl, hwritten⟩

/-- The registers are shared out in some way. -/
def Tracked (e : Engine) (front : Snippet.Code) (s : Codegen) : Prop :=
  ∃ claimed, s.Tracks e front claimed

/-- A guard that fails here may branch to this label. -/
structure Guards (e : Engine) (front : Snippet.Code) (claimed : RegisterSet) (l : Label)
    (s : Codegen) : Prop extends s.Tracks e front claimed where
  expects : s.Expects l s.alloc.depth

end
end Codegen

/-! ## Code with branches -/

/-- Code that leaves the stack alone and branches to one label only. -/
def PlainTo (l : Label) (c : Snippet.Code) : Prop :=
  ∀ i ∈ c, i.isPlain = true ∨ i = .jmp l ∨ ∃ k, i = .jcc k l

section
variable {l : Label} {c c' : Snippet.Code}

theorem X64.Plain.plainTo (h : Plain c) : PlainTo l c := fun i hi => .inl (h i hi)

theorem PlainTo.append (h : PlainTo l c) (h' : PlainTo l c') : PlainTo l (c ++ c') := fun i hi =>
  (List.mem_append.mp hi).elim (h i) (h' i)

theorem plainTo_jcc (k : Condition) : PlainTo l [.jcc k l] := fun _ hi =>
  .inr (.inr ⟨k, List.mem_singleton.mp hi⟩)

theorem plainTo_jmp : PlainTo l [.jmp l] := fun _ hi => .inr (.inl (List.mem_singleton.mp hi))

theorem PlainTo.flat (h : PlainTo l c) {target : Label → Nat → Prop} {depth : Nat}
    (hl : target l depth) : Flat target depth c := by
  intro i hi
  obtain hplain | rfl | ⟨k, rfl⟩ := h i hi
  · exact Instr.fits_of_isPlain hplain target depth
  · exact ⟨⟨fun hd => (by cases hd), hl⟩, rfl⟩
  · exact ⟨⟨fun hd => (by cases hd), hl⟩, rfl⟩

end

/-! ## Steps -/

namespace Gen

variable {s : Codegen} {e : Engine} {front : Snippet.Code} {claimed : RegisterSet} {i : Nat}
  {r : Register} {l : Label}

theorem Brought.tracks {R : Content → Content → Prop} {s' : Codegen}
    (hx : Brought e claimed s i R r s') (h : s.Tracks e front claimed) :
    r ≠ .rsp ∧ s'.Tracks e front claimed := by
  obtain ⟨c, a, rfl, hkeeps, hbrings⟩ := hx
  exact ⟨hbrings.usable, h.write hkeeps⟩

theorem useValue_follows (h : s.Tracks e front claimed) (i : Nat) :
    Follows (useValue i) s fun r s' => r ≠ .rsp ∧ s'.Tracks e front claimed :=
  (useValue_keeps h.partitioned i).mono (fun _ _ _ => trivial) fun _ _ hx => hx.tracks h

theorem usePayload_follows (h : s.Tracks e front claimed) (i : Nat) (t : ValueType) :
    Follows (usePayload i t) s fun r s' => r ≠ .rsp ∧ s'.Tracks e front claimed :=
  (usePayload_keeps h.partitioned i t).mono (fun _ _ _ => trivial) fun _ _ hx => hx.tracks h

theorem definePayload_follows (h : s.Tracks e front claimed) (i : Nat) (t : ValueType) :
    Follows (definePayload i t) s fun r s' => r ≠ .rsp ∧ s'.Tracks e front claimed :=
  (defineAt_keeps h.partitioned i (fun _ => rfl) fun _ => rfl).mono (fun _ _ _ => trivial)
    fun _ _ hx => hx.2.tracks h

theorem defineValue_follows (h : s.Tracks e front claimed) (i : Nat) :
    Follows (defineValue i) s fun r s' => r ≠ .rsp ∧ s'.Tracks e front claimed :=
  (defineAt_keeps h.partitioned i (fun _ => rfl) fun _ => rfl).mono (fun _ _ _ => trivial)
    fun _ _ hx => hx.2.tracks h

theorem allocate_follows (h : s.Tracks e front claimed) :
    Follows allocate s fun r s' => r ≠ .rsp ∧ s'.Tracks e front (claimed.insert r) := by
  refine (allocate_keeps h.partitioned).mono (fun _ _ _ => trivial) ?_
  rintro r _ ⟨c, a, rfl, hhands⟩
  exact ⟨hhands.usable.1, h.write hhands.toKeeps⟩

theorem allocateFixed_follows (h : s.Tracks e front claimed) (r : Register) :
    Follows (allocateFixed r) s fun _ s' => s'.Tracks e front (claimed.insert r) := by
  refine (allocateFixed_keeps h.partitioned r).mono (fun _ _ _ => trivial) ?_
  rintro _ _ ⟨c, a, rfl, hhands⟩
  exact h.write hhands.toKeeps

theorem release_follows (h : s.Tracks e front claimed) (hr : claimed.contains r = true) :
    Follows (release r) s fun _ s' => s'.Tracked e front := by
  refine (release_keeps h.partitioned hr).mono (fun _ _ _ => trivial) ?_
  rintro _ _ ⟨a, rfl, hkeeps⟩
  exact ⟨_, h.write hkeeps⟩

theorem setConstant_follows (h : s.Tracks e front claimed)
    (hi : s.alloc.place i = .uninitialized) (v : Value) :
    Follows (setPlace i (.constant v)) s fun _ s' => s'.Tracked e front := by
  refine (setConstant_keeps h.partitioned hi v).mono (fun _ _ _ => trivial) ?_
  rintro _ _ ⟨a, rfl, hkeeps⟩
  exact ⟨claimed, h.write hkeeps⟩

theorem place_follows (i : Nat) (s : Codegen) : Follows (Gen.place i) s fun _ s' => s' = s := by
  by_cases hi : i < s.alloc.places.size
  · exact Ensures.of_ok (place_eq hi) rfl
  · exact Ensures.of_error (place_error hi) trivial

theorem code_follows {c : Snippet.Code} (h : s.Tracks e front claimed) (hc : Plain c) :
    Follows (code c) s fun _ s' => s'.Tracks e front claimed :=
  Ensures.of_ok (code_eq c s) (h.flat hc.flat)

theorem branch_follows {c : Snippet.Code} (h : s.Guards e front claimed l) (hc : PlainTo l c) :
    Follows (code c) s fun _ s' => s'.Guards e front claimed l :=
  Ensures.of_ok (code_eq c s) ⟨h.toTracks.flat (hc.flat h.expects), h.expects⟩

/-- A guard that fails here has a bailout to go to, at this depth. -/
theorem bailout_follows (h : s.Tracks e front claimed) :
    Follows bailout s fun l s' => s'.Guards e front claimed l := by
  obtain ⟨c, hfront, hwritten⟩ := h.written
  obtain ⟨b, bs, hok, hb, hshows, hnotes⟩ := bailout_eq hwritten.labelled
  obtain ⟨new, hbs, -, hnew⟩ := hnotes.grows
  have hgrows : ∀ b' ∈ s.bailouts.toList, b' ∈ bs.toList := fun b' hb' => by
    rw [hbs]
    exact List.mem_append_left new hb'
  refine Ensures.of_ok hok ⟨⟨h.partitioned, c, hfront, ?_⟩, b, Array.mem_toList_iff.mpr hb, rfl,
    hshows.depth⟩
  refine ⟨hwritten.items, hwritten.levels.mono fun l d => ?_, hwritten.depth, hwritten.peak,
    ⟨rfl, hnotes.label⟩, fun b' hb' => ?_, hwritten.numInputs, hwritten.origins⟩
  · rintro ⟨b', hb', hl, hd⟩
    exact ⟨b', hgrows b' hb', hl, hd⟩
  · change b' ∈ bs.toList at hb'
    rw [hbs] at hb'
    obtain hold | hfresh := List.mem_append.mp hb'
    · exact hwritten.bailouts b' hold
    · have hshows' := hnew b' hfresh
      refine ⟨?_, ?_, ?_, ?_, fun {p o} hp ho => ?_⟩
      · rw [hshows'.inputs, Allocator.inputs]
        exact List.length_take_le _ _
      · rw [hshows'.depth]
        exact h.partitioned.aligned
      · rw [hshows'.depth]
        exact h.partitioned.depth_le
      · rw [hshows'.depth]
        exact h.partitioned.bounded
      · rw [hshows'.inputs, Allocator.inputs] at hp
        obtain ⟨i, hi⟩ := List.getElem?_of_mem (List.mem_of_mem_take hp)
        have hplace : s.alloc.place i = p := by
          rw [Allocator.place, Array.getD_eq_getD_getElem?, ← Array.getElem?_toList, hi]
          rfl
        have hslot := h.partitioned.slot (hplace.symm ▸ ho)
        exact ⟨hslot.1, hslot.2.1⟩

end Gen
end InlineCache
