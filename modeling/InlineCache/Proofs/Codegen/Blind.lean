import InlineCache.Proofs.Codegen.LevelBody
import InlineCache.Proofs.Codegen.Steps

/-!
# Compiling without looking back

The allocator's operations never look at the code that is there already. What they write depends on
the allocator alone (`Gen.Blind`), and if they branch, then to the one label that they are given
(`Gen.Aims`). A computation of this kind does the same in any two states with the same allocator,
whatever code, labels and bailouts these have.
-/

namespace InlineCache

open X64

/-! ## Names of labels -/

namespace X64.Instr

/-- The instruction with another name for its target. -/
def relabel (f : Label → Label) : Instr Label → Instr Label
  | .jmp l => .jmp (f l)
  | .jcc c l => .jcc c (f l)
  | i => i

variable {f g : Label → Label} {i : Instr Label}

theorem relabel_relabel (f g : Label → Label) (i : Instr Label) :
    (i.relabel f).relabel g = i.relabel (g ∘ f) := by
  cases i <;> rfl

@[simp]
theorem target?_relabel (f : Label → Label) (i : Instr Label) :
    (i.relabel f).target? = i.target?.map f := by
  cases i <;> rfl

@[simp]
theorem size_relabel (f : Label → Label) (i : Instr Label) : (i.relabel f).size = i.size := by
  cases i <;> rfl

theorem relabel_congr (h : ∀ l, i.target? = some l → f l = g l) : i.relabel f = i.relabel g := by
  cases i with
  | jmp l => rw [relabel, relabel, h l rfl]
  | jcc c l => rw [relabel, relabel, h l rfl]
  | _ => rfl

theorem relabel_of_target? (h : i.target? = none) : i.relabel f = i := by
  cases i <;> first | rfl | cases h

end X64.Instr

namespace Snippet

/-- The code with all its branches to one label. -/
def aim (l : Label) (c : Code) : Code :=
  c.map (Instr.relabel fun _ => l)

/-- Whether there is a branch in the code. -/
def branches (c : Code) : Bool :=
  c.any fun i => i.target?.isSome

variable {c c' : Code} {l : Label}

theorem aim_append (l : Label) (c c' : Code) : aim l (c ++ c') = aim l c ++ aim l c' :=
  List.map_append

@[simp]
theorem branches_append (c c' : Code) : branches (c ++ c') = (branches c || branches c') :=
  List.any_append

theorem branches_eq_false : branches c = false ↔ Straight c := by
  simp [branches, Straight]

theorem branches_of_quiet (h : quiet c = true) : branches c = false := by
  refine branches_eq_false.mpr fun i hi => ?_
  have hi := List.all_eq_true.mp h i hi
  rw [Bool.and_eq_true] at hi
  exact Option.isNone_iff_eq_none.mp hi.1

theorem aim_of_straight (h : branches c = false) (l : Label) : aim l c = c := by
  refine (List.map_congr_left fun i hi => ?_).trans (List.map_id c)
  exact Instr.relabel_of_target? (branches_eq_false.mp h i hi)

theorem map_relabel_aim (f : Label → Label) (l : Label) (c : Code) :
    (aim l c).map (Instr.relabel f) = aim (f l) c := by
  rw [aim, aim, List.map_map]
  exact List.map_congr_left fun i _ => Instr.relabel_relabel _ f i

theorem target_of_mem_aim {i : Instr Label} {l' : Label} (hi : i ∈ aim l c)
    (h : i.target? = some l') : l' = l := by
  obtain ⟨j, -, rfl⟩ := List.mem_map.mp hi
  rw [Instr.target?_relabel] at h
  obtain ⟨-, -, rfl⟩ := Option.map_eq_some_iff.mp h
  rfl

end Snippet

/-! ## Emitting without looking back -/

/-- What the computation writes does not depend on what was written before. -/
def Emit.Blind {α : Type} (e : Emit α) : Prop :=
  ∀ asm a asm', e asm = .ok a asm' →
    ∃ c, Snippet.branches c = false ∧ ∀ asm, e asm = .ok a (asm.append c)

namespace Emit.Blind

variable {α β : Type} {e : Emit α} {f : α → Emit β}

theorem pure (a : α) : Blind (Pure.pure a : Emit α) := by
  rintro asm a' asm' h
  cases h
  exact ⟨[], rfl, fun asm => by simp [Assembly.append]; rfl⟩

theorem throw (err : EmitError) : Blind (MonadExcept.throw err : Emit α) := by
  rintro asm a asm' h
  cases h

theorem bind (h : Blind e) (hf : ∀ a, Blind (f a)) : Blind (e >>= f) := by
  rintro asm b asm' hrun
  obtain ⟨a, asm₁, he, hfa⟩ := exists_of_bind_ok hrun
  obtain ⟨c, hc, hall⟩ := h _ _ _ he
  obtain ⟨c', hc', hall'⟩ := hf a _ _ _ hfa
  refine ⟨c ++ c', by rw [Snippet.branches_append, hc, hc']; rfl, fun asm => ?_⟩
  rw [bind_of_ok (hall asm), hall', Assembly.append_append]

theorem code {c : Snippet.Code} (hc : Snippet.branches c = false) : Blind (Emit.code c) := by
  rintro asm a asm' h
  cases h
  exact ⟨c, hc, fun _ => rfl⟩

theorem code? {c : Except EmitError Snippet.Code}
    (hc : ∀ c', c = .ok c' → Snippet.quiet c' = true) : Blind (Emit.code? c) := by
  cases c with
  | error err => exact throw err
  | ok c => exact code (Snippet.branches_of_quiet (hc c rfl))

theorem pushed (depth : Nat) : Blind (Emit.pushed depth) := by
  rw [Emit.pushed]
  split
  · exact pure _
  · exact throw _

theorem reload (dest : Register) (offset depth : Nat) : Blind (Emit.reload dest offset depth) := by
  rw [Emit.reload]
  split
  · refine (code rfl).bind fun _ => ?_
    split
    · exact (throw _).bind fun _ => pure _
    · exact pure _
  · split
    · exact (throw _).bind fun _ => (code rfl).bind fun _ => pure _
    · exact (code rfl).bind fun _ => pure _

end Emit.Blind

/-! ## Generating without looking back -/

/-- What the computation does depends on the allocator only. It writes the same code after any
code, with branches (if `b`) to the label that it is given. -/
def Gen.Aims {α : Type} (b : Bool) (g : Label → Gen α) : Prop :=
  ∀ l s a s', g l s = .ok a s' → ∃ c alloc, Snippet.branches c = b ∧
    ∀ l t, t.alloc = s.alloc → g l t = .ok a (t.write (Snippet.aim l c) alloc)

/-- The same without branches. -/
abbrev Gen.Blind {α : Type} (g : Gen α) : Prop :=
  Gen.Aims false fun _ => g

namespace Gen

variable {α β : Type} {b : Bool}

namespace Aims

theorem pure (a : α) : Blind (Pure.pure a) := by
  rintro l s a' s' h
  cases h
  refine ⟨[], s.alloc, rfl, fun l t ht => ?_⟩
  rw [← ht]
  exact congrArg (EStateM.Result.ok a) (Codegen.write_nil t t.alloc).symm

theorem throw (err : EmitError) : Aims b fun _ => (MonadExcept.throw err : Gen α) := by
  rintro l s a s' h
  cases h

theorem bind {b' : Bool} {x : Label → Gen α} {f : α → Label → Gen β} (hx : Aims b x)
    (hf : ∀ a, Aims b' (f a)) : Aims (b || b') fun l => x l >>= fun a => f a l := by
  rintro l s a s' h
  obtain ⟨a₁, s₁, hx₁, hf₁⟩ := exists_of_bind_ok h
  obtain ⟨c, alloc, hc, hall⟩ := hx l _ _ _ hx₁
  have hs₁ := hx₁.symm.trans (hall l s rfl)
  cases hs₁
  obtain ⟨c', alloc', hc', hall'⟩ := hf a₁ l _ _ _ hf₁
  refine ⟨c ++ c', alloc', by rw [Snippet.branches_append, hc, hc'], fun l t ht => ?_⟩
  refine (bind_of_ok (hall l t ht)).trans ?_
  rw [hall' l (t.write _ alloc) rfl, Codegen.write_write, Snippet.aim_append]

/-- Something without branches comes first. -/
theorem after {x : Gen α} {f : α → Label → Gen β} (hx : Blind x) (hf : ∀ a, Aims b (f a)) :
    Aims b fun l => x >>= fun a => f a l :=
  hx.bind hf

/-- Something with branches comes first. -/
theorem andThen {x : Label → Gen α} {f : α → Label → Gen β} (hx : Aims true x)
    (hf : ∀ a, Aims b (f a)) : Aims true fun l => x l >>= fun a => f a l :=
  hx.bind hf

theorem allocator : Blind Gen.allocator := by
  rintro l s a s' h
  cases h
  refine ⟨[], s.alloc, rfl, fun l t ht => ?_⟩
  rw [← ht]
  exact congrArg (EStateM.Result.ok t.alloc) (Codegen.write_nil t t.alloc).symm

theorem modifyAllocator (f : Allocator → Allocator) : Blind (Gen.modifyAllocator f) := by
  rintro l s a s' h
  cases h
  refine ⟨[], f s.alloc, rfl, fun l t ht => ?_⟩
  rw [← ht]
  exact congrArg (EStateM.Result.ok ()) (Codegen.write_nil t (f t.alloc)).symm

theorem emit {e : Emit α} (he : e.Blind) : Blind (Gen.emit e) := by
  rintro l s a s' h
  change Gen.emit e s = _ at h
  rw [Gen.emit, EStateM.run] at h
  cases hrun : e s.asm with
  | error err asm =>
      rw [hrun] at h
      cases h
  | ok a₁ asm =>
      rw [hrun] at h
      cases h
      obtain ⟨c, hc, hall⟩ := he _ _ _ hrun
      refine ⟨c, s.alloc, hc, fun l t ht => ?_⟩
      change Gen.emit e t = _
      rw [Gen.emit, EStateM.run, hall t.asm, Snippet.aim_of_straight hc, ← ht]
      rfl

/-- Code whose branches all go to one label. -/
theorem code {c : Label → Snippet.Code} (hc : ∀ l, c l = Snippet.aim l (c 0)) :
    Aims (Snippet.branches (c 0)) fun l => Gen.code (c l) := by
  rintro l s a s' h
  cases h
  refine ⟨c 0, s.alloc, rfl, fun l t ht => ?_⟩
  rw [← hc l, ← ht]
  rfl

end Aims

/-- No operation of the allocator looks back. -/
theorem blind : Closed fun _ g => Blind g where
  pure := .pure
  throw := .throw
  bind := Aims.after
  mono h _ := h
  allocator := .allocator
  modifyAllocator := .modifyAllocator
  code h := .emit (.code (Snippet.branches_of_quiet h))
  pushCode _ := .emit (.code rfl)
  pushed _ := .emit (.pushed _)
  reloaded _ _ _ := .emit (.reload _ _ _)

end Gen

end InlineCache
