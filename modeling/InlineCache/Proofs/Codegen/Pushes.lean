import InlineCache.Proofs.Codegen.Blind

/-!
# What an instruction pushes

An instruction pushes at most three words, one for each register that it asks for. A guard pushes no
more than the rest of its code pays for: it has eight bytes of other instructions for each word that
it pushes (`Gen.instruction_frugal`). So code in which nothing but guards push is longer than its
stack is deep.
-/

namespace InlineCache

open X64

/-! ## Counting -/

namespace X64.Instr

variable {τ : Type}

theorem size_of_isPush {i : Instr τ} (h : i.isPush = true) : i.size = 2 := by
  cases i <;> first | rfl | cases h

theorem depthAfter_le (depth : Nat) (i : Instr τ) :
    i.depthAfter depth ≤ depth + if i.isPush then 8 else 0 := by
  cases i with
  | push r => exact Nat.le_refl _
  | pop r => exact Nat.sub_le _ _
  | dropStack n => exact Nat.sub_le _ _
  | _ => exact Nat.le_refl _

@[simp]
theorem isPush_relabel (f : Label → Label) (i : Instr Label) :
    (i.relabel f).isPush = i.isPush := by
  cases i <;> rfl

end X64.Instr

namespace Snippet

def pushes : Code → Nat
  | [] => 0
  | i :: c => (if i.isPush then 1 else 0) + pushes c

/-- The bytes of the instructions that push nothing. -/
def otherBytes : Code → Nat
  | [] => 0
  | i :: c => (if i.isPush then 0 else i.size) + otherBytes c

theorem pushes_append (c c' : Code) : pushes (c ++ c') = pushes c + pushes c' := by
  induction c with
  | nil => exact (Nat.zero_add _).symm
  | cons i c ih => rw [List.cons_append, pushes, pushes, ih, Nat.add_assoc]

theorem otherBytes_append (c c' : Code) : otherBytes (c ++ c') = otherBytes c + otherBytes c' := by
  induction c with
  | nil => exact (Nat.zero_add _).symm
  | cons i c ih => rw [List.cons_append, otherBytes, otherBytes, ih, Nat.add_assoc]

/-- A push takes two bytes. -/
theorem totalSize_eq (c : Code) :
    Item.totalSize (c.map Item.instr) = 2 * pushes c + otherBytes c := by
  induction c with
  | nil => rfl
  | cons i c ih =>
      rw [List.map_cons, Item.totalSize, ih, Item.size, otherBytes, pushes]
      split
      · next hi =>
          rw [Instr.size_of_isPush hi]
          omega
      · omega

theorem counts_relabel (f : Label → Label) (c : Code) :
    pushes (c.map (Instr.relabel f)) = pushes c ∧
      otherBytes (c.map (Instr.relabel f)) = otherBytes c := by
  induction c with
  | nil => exact ⟨rfl, rfl⟩
  | cons i c ih =>
      rw [List.map_cons, pushes, otherBytes, ih.1, ih.2, Instr.isPush_relabel, Instr.size_relabel]
      exact ⟨rfl, rfl⟩

/-- Only pushes make the stack deeper. -/
theorem peak_le (depth : Nat) (c : Code) : peak depth c ≤ depth + 8 * pushes c := by
  induction c generalizing depth with
  | nil => exact Nat.le_refl _
  | cons i c ih =>
      have hrest := ih (i.depthAfter depth)
      have hstep := i.depthAfter_le depth
      rw [peak, pushes]
      split
      · next hi =>
          rw [if_pos hi] at hstep
          omega
      · next hi =>
          rw [if_neg hi] at hstep
          omega

theorem pushes_of_quiet {c : Code} (h : quiet c = true) : pushes c = 0 := by
  induction c with
  | nil => rfl
  | cons i c ih =>
      rw [quiet, List.all_cons, Bool.and_eq_true, Bool.and_eq_true, Bool.not_eq_true'] at h
      rw [pushes, ih h.2, h.1.2]
      rfl

end Snippet

/-! ## Pushes of a computation -/

/-- The computation writes code with at most `n` pushes and at least `k` bytes of other
instructions, if it returns. -/
def Gen.Writes {α : Type} (n k : Nat) (g : Gen α) : Prop :=
  ∀ s a s', g s = .ok a s' → ∃ c, s'.asm.items.toList = s.asm.items.toList ++ c.map Item.instr ∧
    Snippet.pushes c ≤ n ∧ k ≤ Snippet.otherBytes c

namespace Gen

variable {α β : Type} {n n' k k' : Nat}

namespace Writes

theorem of_items {g : Gen α} (h : ∀ s a s', g s = .ok a s' → s'.asm.items = s.asm.items) :
    Writes 0 0 g := fun s a s' hrun =>
  ⟨[], by rw [h s a s' hrun, List.map_nil, List.append_nil], Nat.le_refl 0, Nat.le_refl 0⟩

theorem pure (a : α) : Writes 0 0 (Pure.pure a) :=
  of_items fun s a' s' h => by
    cases h
    rfl

theorem throw (err : EmitError) : Writes n k (MonadExcept.throw err : Gen α) := by
  rintro s a s' h
  cases h

theorem bind {x : Gen α} {f : α → Gen β} (hx : Writes n k x) (hf : ∀ a, Writes n' k' (f a)) :
    Writes (n + n') (k + k') (x >>= f) := by
  rintro s b s' h
  obtain ⟨a, s₁, hx₁, hf₁⟩ := exists_of_bind_ok h
  obtain ⟨c, hitems, hn, hk⟩ := hx s a s₁ hx₁
  obtain ⟨c', hitems', hn', hk'⟩ := hf a s₁ b s' hf₁
  refine ⟨c ++ c', ?_, ?_, ?_⟩
  · rw [hitems', hitems, List.map_append, List.append_assoc]
  · rw [Snippet.pushes_append]
    exact Nat.add_le_add hn hn'
  · rw [Snippet.otherBytes_append]
    exact Nat.add_le_add hk hk'

/-- Something that pushes nothing comes first. -/
theorem after {x : Gen α} {f : α → Gen β} (hx : Writes 0 0 x) (hf : ∀ a, Writes n k (f a)) :
    Writes n k (x >>= f) := by
  have h := hx.bind hf
  rwa [Nat.zero_add, Nat.zero_add] at h

/-- Something that pushes nothing comes last. -/
theorem andThen {x : Gen α} {f : α → Gen β} (hx : Writes n k x) (hf : ∀ a, Writes 0 0 (f a)) :
    Writes n k (x >>= f) :=
  hx.bind hf

theorem of_le {g : Gen α} (h : Writes n k g) (hn : n ≤ n') (hk : k' ≤ k) : Writes n' k' g := by
  rintro s a s' hrun
  obtain ⟨c, hitems, hpushes, hbytes⟩ := h s a s' hrun
  exact ⟨c, hitems, Nat.le_trans hpushes hn, Nat.le_trans hk hbytes⟩

theorem allocator : Writes 0 0 Gen.allocator :=
  of_items fun s a s' h => by
    cases h
    rfl

theorem modifyAllocator (f : Allocator → Allocator) : Writes 0 0 (Gen.modifyAllocator f) :=
  of_items fun s a s' h => by
    cases h
    rfl

theorem code {c : Snippet.Code} (hn : Snippet.pushes c = n) (hk : Snippet.otherBytes c = k) :
    Writes n k (Gen.code c) := by
  rintro s a s' h
  cases h
  exact ⟨c, by simp [Assembly.append], Nat.le_of_eq hn, Nat.le_of_eq hk.symm⟩

/-- Code that pushes nothing, whatever its length. -/
theorem plain {c : Snippet.Code} (hc : Snippet.pushes c = 0) : Writes 0 0 (Gen.code c) :=
  (code hc rfl).of_le (Nat.le_refl 0) (Nat.zero_le _)

theorem emit {e : Emit α} (h : ∀ asm a asm', e asm = .ok a asm' →
    ∃ c, asm' = asm.append c ∧ Snippet.pushes c = 0) : Writes 0 0 (Gen.emit e) := by
  rintro s a s' hrun
  rw [Gen.emit, EStateM.run] at hrun
  cases he : e s.asm with
  | error err asm =>
      rw [he] at hrun
      cases hrun
  | ok a₁ asm =>
      rw [he] at hrun
      cases hrun
      obtain ⟨c, rfl, hc⟩ := h _ _ _ he
      exact ⟨c, by simp [Assembly.append], Nat.le_of_eq hc, Nat.zero_le _⟩

theorem pushed (depth : Nat) : Writes 0 0 (Gen.emit (Emit.pushed depth)) := by
  refine emit fun asm a asm' h => ?_
  rw [Emit.pushed] at h
  split at h
  · cases h
    exact ⟨[], by simp [Assembly.append], rfl⟩
  · cases h

theorem reloaded (dest : Register) (offset depth : Nat) :
    Writes 0 0 (Gen.emit (Emit.reload dest offset depth)) := by
  refine emit fun asm d asm' h => ?_
  rw [Emit.reload] at h
  split at h
  · obtain ⟨_, asm₁, hcode, h⟩ := exists_of_bind_ok h
    cases hcode
    split at h
    · cases h
    · cases h
      exact ⟨_, rfl, rfl⟩
  · split at h
    · cases h
    · cases h
      exact ⟨_, rfl, rfl⟩

end Writes

/-- An operation of the allocator pushes at most one word. -/
theorem writes : Closed fun n g => Writes n 0 g where
  pure := .pure
  throw := .throw
  bind := Writes.bind
  mono h hle := h.of_le hle (Nat.le_refl 0)
  allocator := .allocator
  modifyAllocator := .modifyAllocator
  code h := .plain (Snippet.pushes_of_quiet h)
  pushCode _ := .code rfl rfl
  pushed := .pushed
  reloaded := .reloaded

theorem bailout_writes : Writes 0 0 bailout := by
  refine .of_items fun s l s' h => ?_
  rw [bailout, get_bind] at h
  cases hback : s.bailouts.back? with
  | none =>
      rw [hback] at h
      cases h
      rfl
  | some b =>
      rw [hback] at h
      dsimp only at h
      split at h
      · cases h
        rfl
      · cases h
        rfl

/-! ## Instructions -/

/-- The computation pushes at most three words, if it returns. If it is a guard, then it writes
eight bytes of other instructions for each of them. -/
def Frugal (guard : Bool) (g : Gen Unit) : Prop :=
  ∀ s s', g s = .ok () s' → ∃ c, s'.asm.items.toList = s.asm.items.toList ++ c.map Item.instr ∧
    Snippet.pushes c ≤ 3 ∧ (guard = true → 8 * Snippet.pushes c ≤ Snippet.otherBytes c)

variable {g : Gen Unit} {guard : Bool}

theorem Writes.frugal (h : Writes n k g) (hn : n ≤ 3) : Frugal false g := by
  rintro s s' hrun
  obtain ⟨c, hitems, hpushes, -⟩ := h s () s' hrun
  exact ⟨c, hitems, Nat.le_trans hpushes hn, fun hguard => (by cases hguard)⟩

theorem Writes.frugal_guard (h : Writes n k g) (hn : n ≤ 3) (hk : 8 * n ≤ k) : Frugal true g := by
  rintro s s' hrun
  obtain ⟨c, hitems, hpushes, hbytes⟩ := h s () s' hrun
  exact ⟨c, hitems, Nat.le_trans hpushes hn, fun _ => by omega⟩

/-- Looking at a place writes nothing. -/
theorem Frugal.place {i : Nat} {f : Place → Gen Unit} (hf : ∀ p, Frugal guard (f p)) :
    Frugal guard (Gen.place i >>= f) := by
  rintro s s' hrun
  by_cases hsize : i < s.alloc.places.size
  · rw [bind_of_ok (place_eq hsize)] at hrun
    exact hf _ s s' hrun
  · rw [bind_of_error (place_error hsize)] at hrun
    cases hrun

theorem alwaysFail_frugal : Frugal true alwaysFail :=
  Writes.frugal_guard (bailout_writes.after fun _ => Writes.code rfl rfl) (by decide) (by decide)

theorem guardType_frugal (x : OperandId) (t : ValueType) : Frugal true (guardType x t) := by
  refine Frugal.place fun p => ?_
  cases p.knownType? with
  | none =>
      exact Writes.frugal_guard ((writes.useValue _).bind fun r => bailout_writes.after fun l =>
        Writes.code (c := Snippet.compareTag r t.tag .notEqual l) (n := 0) (k := 20) rfl rfl)
        (by decide) (by decide)
  | some known =>
      dsimp only
      split
      · exact alwaysFail_frugal
      · exact (Writes.pure ()).frugal_guard (by decide) (by decide)

theorem guardNumber_frugal (x : OperandId) : Frugal true (guardNumber x) := by
  refine Frugal.place fun p => ?_
  cases p.knownType? with
  | none =>
      exact Writes.frugal_guard ((writes.useValue _).bind fun r => bailout_writes.after fun l =>
        Writes.code (c := Snippet.compareTag r ValueType.int32.tag .above l) (n := 0) (k := 20)
          rfl rfl) (by decide) (by decide)
  | some known =>
      dsimp only
      split
      · exact alwaysFail_frugal
      · exact (Writes.pure ()).frugal_guard (by decide) (by decide)

theorem compareClass_writes [ClassTable] (scratch : Register) (c : ClassKind) (l : Label) :
    Writes 0 27 (compareClass scratch c l) :=
  (Writes.code (n := 0) (k := 8) rfl rfl).bind fun _ =>
    (Writes.code (n := 0) (k := 19) rfl rfl).andThen fun _ => writes.release scratch

theorem guardArray_frugal [ClassTable] (x : OperandId) : Frugal true (guardArray x) := by
  refine Frugal.place fun p => ?_
  cases p.knownType? with
  | none =>
      refine Writes.frugal_guard ((writes.useValue _).bind fun r => writes.allocate.bind
        fun scratch => bailout_writes.after fun l => Writes.after ?_ fun _ =>
          (writes.unbox _ _ _).after fun _ => (Writes.plain rfl).after fun _ =>
            compareClass_writes scratch .array l) (by decide) (by decide)
      exact Writes.plain (c := Snippet.compareTag r ValueType.object.tag .notEqual l) rfl
  | some known =>
      cases known with
      | object =>
          exact Writes.frugal_guard ((writes.usePayload _ _).bind fun _ => writes.allocate.bind
            fun scratch => bailout_writes.after fun l => (Writes.plain rfl).after fun _ =>
              compareClass_writes scratch .array l) (by decide) (by decide)
      | _ => exact alwaysFail_frugal

theorem guardHeader_frugal (x : OperandId) (header field : Int32) :
    Frugal true (guardHeader x header field) :=
  Writes.frugal_guard ((writes.usePayload _ _).bind fun _ => writes.allocate.bind fun scratch =>
    bailout_writes.after fun _ => (Writes.code (n := 0) (k := 8) rfl rfl).bind fun _ =>
      (Writes.code (n := 0) (k := 14) rfl rfl).andThen fun _ => writes.release scratch)
    (by decide) (by decide)

/-- The guard with the least to pay with: 17 bytes for two words. -/
theorem guardSpecific_frugal (x : OperandId) (t : ValueType) (field : Int32) :
    Frugal true (guardSpecific x t field) :=
  Writes.frugal_guard ((writes.usePayload _ _).bind fun _ => writes.allocate.bind fun scratch =>
    bailout_writes.after fun _ => (Writes.code (n := 0) (k := 8) rfl rfl).bind fun _ =>
      (Writes.code (n := 0) (k := 9) rfl rfl).andThen fun _ => writes.release scratch)
    (by decide) (by decide)

theorem guardClass_frugal [ClassTable] (x : OperandId) (c : ClassKind) :
    Frugal true (guardClass x c) :=
  Writes.frugal_guard ((writes.usePayload _ _).bind fun _ => writes.allocate.bind fun scratch =>
    bailout_writes.after fun l => (Writes.plain rfl).after fun _ => compareClass_writes scratch c l)
    (by decide) (by decide)

theorem loadSlot_frugal (x y : OperandId) (field : Int32) (dynamic : Bool) :
    Frugal false (loadSlot x y field dynamic) :=
  Writes.frugal ((writes.usePayload _ _).bind fun _ => writes.allocate.bind fun scratch =>
    (writes.defineAt _ _).andThen fun _ => (writes.readSlot _ _ _ _ _).after fun _ =>
      writes.release scratch) (by decide)

theorem slotResult_frugal (x : OperandId) (field : Int32) (dynamic : Bool) :
    Frugal false (slotResult x field dynamic) :=
  Writes.frugal ((writes.allocateFixed _).bind fun _ => (writes.usePayload _ _).bind fun _ =>
    writes.allocate.andThen fun scratch => (writes.readSlot _ _ _ _ _).after fun _ =>
      writes.release scratch) (by decide)

theorem arrayLengthResult_frugal (x : OperandId) : Frugal false (arrayLengthResult x) :=
  Writes.frugal ((writes.allocateFixed _).bind fun _ => (writes.usePayload _ _).bind fun _ =>
    writes.allocate.andThen fun scratch => bailout_writes.after fun _ =>
      (Writes.plain rfl).after fun _ => (Writes.plain rfl).after fun _ =>
        (writes.tag _ _ _).after fun _ => writes.release scratch) (by decide)

theorem arithResult_frugal {x y : OperandId} {compute : Register → Register → Label → Snippet.Code}
    (hc : ∀ a b l, Snippet.pushes (compute a b l) = 0) :
    Frugal false (arithResult x y compute) :=
  Writes.frugal ((writes.allocateFixed _).bind fun _ => (writes.usePayload _ _).bind fun _ =>
    (writes.usePayload _ _).andThen fun _ => bailout_writes.after fun _ =>
      (writes.code (Snippet.quiet_move _ _)).after fun _ => (Writes.plain (hc _ _ _)).after fun _ =>
        writes.tag _ _ _) (by decide)

/-- A result that needs nothing but the output register. -/
theorem fixed_frugal {g : Gen Unit} (hg : Writes 0 0 g) :
    Frugal false (do allocateFixed outputRegister; g) :=
  Writes.frugal ((writes.allocateFixed _).andThen fun _ => hg) (by decide)

end Gen

/-- Operations that test an operand and do nothing else. -/
def Op.isGuard : Op → Bool
  | .guardIsObject | .guardIsString | .guardIsSymbol | .guardIsInt32 | .guardIsNumber
  | .guardIsArray | .guardShape | .guardGroup | .guardClass | .guardSpecificObject
  | .guardSpecificAtom | .guardSpecificSymbol | .guardSpecificId => true
  | _ => false

theorem Gen.instruction_frugal [ClassTable] (field : Nat → Int32) (op : Op)
    (args : Args op.schema) : Frugal op.isGuard (instruction field op args) := by
  cases op with
  | guardIsObject => exact guardType_frugal _ _
  | guardIsString => exact guardType_frugal _ _
  | guardIsSymbol => exact guardType_frugal _ _
  | guardIsInt32 => exact guardType_frugal _ _
  | guardIsNumber => exact guardNumber_frugal _
  | guardIsArray => exact guardArray_frugal _
  | guardShape => exact guardHeader_frugal _ _ _
  | guardGroup => exact guardHeader_frugal _ _ _
  | guardClass => exact guardClass_frugal _ _
  | guardSpecificObject => exact guardSpecific_frugal _ _ _
  | guardSpecificAtom => exact guardSpecific_frugal _ _ _
  | guardSpecificSymbol => exact guardSpecific_frugal _ _ _
  | guardSpecificId => exact guardSpecific_frugal _ _ _
  | loadObject =>
      exact Writes.frugal ((writes.defineAt _ _).andThen fun _ => .plain rfl) (by decide)
  | loadProto =>
      exact Writes.frugal ((writes.usePayload _ _).bind fun _ => (writes.defineAt _ _).andThen
        fun _ => .plain rfl) (by decide)
  | loadFixedSlot => exact loadSlot_frugal _ _ _ _
  | loadDynamicSlot => exact loadSlot_frugal _ _ _ _
  | loadInt32Constant => exact (writes.setPlace _ _).frugal (by decide)
  | loadFixedSlotResult => exact slotResult_frugal _ _ _
  | loadDynamicSlotResult => exact slotResult_frugal _ _ _
  | loadInt32ArrayLengthResult => exact arrayLengthResult_frugal _
  | loadStringLengthResult =>
      exact Writes.frugal ((writes.allocateFixed _).bind fun _ => (writes.usePayload _ _).andThen
        fun _ => (Writes.plain rfl).after fun _ => writes.tag _ _ _) (by decide)
  | loadUndefinedResult => exact fixed_frugal (.plain rfl)
  | loadBooleanResult => exact fixed_frugal (.plain rfl)
  | loadValueResult => exact fixed_frugal (.plain rfl)
  | loadDoubleResult => exact fixed_frugal (.plain rfl)
  | loadOperandResult =>
      exact Writes.frugal ((writes.allocateFixed _).bind fun _ => (writes.useValue _).andThen
        fun _ => writes.code (Snippet.quiet_move _ _)) (by decide)
  | int32AddResult => exact arithResult_frugal fun _ _ _ => rfl
  | int32SubResult => exact arithResult_frugal fun _ _ _ => rfl
  | returnFromIC =>
      exact Writes.frugal (writes.discardStack.after fun _ => .plain rfl) (by decide)

end InlineCache
