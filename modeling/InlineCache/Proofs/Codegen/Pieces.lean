import InlineCache.Proofs.Codegen.Pushes
import InlineCache.Proofs.Program.Encoding

/-!
# Code in pieces

What an instruction is compiled to depends on the allocator and on nothing else: neither on the
code written before, nor on the bailouts noted before, nor on whether bailouts are shared. It is a
piece of code and, if the instruction can fail here, a snapshot. All branches of the piece go to the
bailout of its snapshot, whatever label that has. So a compiled program is a list of pieces
(`Compile.instructions_pieces`), and how bailouts are numbered and shared is a question about the
list alone.
-/

namespace InlineCache

open X64

/-! ## Pieces -/

/-- What an instruction is compiled to: code, and a snapshot if it can fail here. The labels of its
branches do not matter. -/
structure Piece where
  instruction : Instruction
  code : Snippet.Code
  snapshot? : Option Snapshot

/-- Guards, and operations whose result may be no integer. -/
def Op.canFail : Op → Bool
  | .guardIsObject | .guardIsString | .guardIsSymbol | .guardIsInt32 | .guardIsNumber
  | .guardIsArray | .guardShape | .guardGroup | .guardClass | .guardSpecificObject
  | .guardSpecificAtom | .guardSpecificSymbol | .guardSpecificId | .loadInt32ArrayLengthResult
  | .int32AddResult | .int32SubResult => true
  | _ => false

/-- Guards that need no code if the type of the operand is known. -/
def Op.testsType : Op → Bool
  | .guardIsObject | .guardIsString | .guardIsSymbol | .guardIsInt32 | .guardIsNumber => true
  | _ => false

theorem Op.canFail_of_testsType {op : Op} (h : op.testsType = true) : op.canFail = true := by
  cases op <;> first | rfl | cases h

/-- There is a snapshot if and only if there are branches. An operation that cannot fail has none,
and one that can fail has one unless it tests a type and is dropped. -/
structure Piece.Fits (x : Piece) : Prop where
  branches : Snippet.branches x.code = x.snapshot?.isSome
  canFail : x.snapshot?.isSome = true → x.instruction.op.canFail = true
  dropped : x.instruction.op.canFail = true → x.snapshot? = none →
    x.instruction.op.testsType = true ∧ x.code = []

/-- The piece pushes at most three words, and a guard has eight bytes of other instructions for each
word that it pushes. -/
structure Piece.Frugal (x : Piece) : Prop where
  pushes : Snippet.pushes x.code ≤ 3
  paid : x.instruction.op.isGuard = true → 8 * Snippet.pushes x.code ≤ Snippet.otherBytes x.code

namespace Codegen

/-- The state with one piece more. -/
def add (s : Codegen) (x : Piece) : Codegen :=
  match x.snapshot? with
  | none => s.write x.code s.alloc
  | some y => (s.record y).write (Snippet.aim (s.labelFor y) x.code) s.alloc

theorem items_record (s : Codegen) (y : Snapshot) : (s.record y).asm.items = s.asm.items := by
  rw [record]
  split <;> rfl

/-- What is written for a piece differs from its code in the names of labels only. -/
theorem exists_items_add (s : Codegen) (x : Piece) :
    ∃ c, (s.add x).asm.items.toList = s.asm.items.toList ++ c.map Item.instr ∧
      Snippet.pushes c = Snippet.pushes x.code ∧
      Snippet.otherBytes c = Snippet.otherBytes x.code := by
  rw [add]
  split
  · exact ⟨x.code, by simp [write, Assembly.append], rfl, rfl⟩
  · next y _ =>
      exact ⟨Snippet.aim (s.labelFor y) x.code, by simp [write, Assembly.append, items_record],
        Snippet.counts_relabel _ x.code⟩

end Codegen

/-- What a computation pushes, the piece pushes that it adds. -/
theorem Gen.Frugal.piece {g : Gen Unit} {x : Piece} {s s' : Codegen} {alloc : Allocator}
    (h : Frugal x.instruction.op.isGuard g) (hrun : g s = .ok () s')
    (hs' : s' = { s.add x with alloc }) : x.Frugal := by
  obtain ⟨c, hitems, hpushes, hpaid⟩ := h s s' hrun
  obtain ⟨c', hitems', hpushes', hbytes'⟩ := s.exists_items_add x
  have hcode : c.map Item.instr = c'.map Item.instr := by
    refine List.append_cancel_left (hitems.symm.trans ?_)
    rw [hs', ← hitems']
  obtain rfl : c = c' := Item.map_instr_inj hcode
  rw [hpushes', hbytes'] at hpaid
  exact ⟨hpushes' ▸ hpushes, hpaid⟩

namespace Gen

/-- The computation notes one bailout and branches to it. -/
def Guarded (g : Gen Unit) : Prop :=
  ∀ s s', s.Labelled → g s = .ok () s' → ∃ c y alloc, Snippet.branches c = true ∧
    ∀ t, t.Labelled → t.alloc = s.alloc →
      g t = .ok () ((t.record y).write (Snippet.aim (t.labelFor y) c) alloc)

/-- The computation adds a piece of the operation, if it returns. -/
def Pieced (op : Op) (g : Gen Unit) : Prop :=
  ∀ i : Instruction, i.op = op → ∀ s s', s.Labelled → g s = .ok () s' →
    ∃ x alloc, x.instruction = i ∧ x.Fits ∧ ∀ t, t.Labelled → t.alloc = s.alloc →
      g t = .ok () { t.add x with alloc }

section
variable {α : Type} {op : Op} {g : Gen Unit} {post : Label → Gen Unit}

theorem Guarded.bailout (h : Aims true post) : Guarded (Gen.bailout >>= post) := by
  rintro s s' hs hrun
  rw [bind_of_ok (bailout_record hs)] at hrun
  obtain ⟨c, alloc, hc, hall⟩ := h _ _ _ _ hrun
  refine ⟨c, s.alloc.snapshot, alloc, hc, fun t ht halloc => ?_⟩
  rw [bind_of_ok (bailout_record ht), halloc]
  exact hall _ _ (by rw [Codegen.alloc_record, Codegen.alloc_record, halloc])

theorem Guarded.after {x : Gen α} {f : α → Gen Unit} (hx : Blind x) (hf : ∀ a, Guarded (f a)) :
    Guarded (x >>= f) := by
  rintro s s' hs hrun
  obtain ⟨a, s₁, hx₁, hf₁⟩ := exists_of_bind_ok hrun
  obtain ⟨c, alloc, hc, hall⟩ := hx 0 _ _ _ hx₁
  have hs₁ := hx₁.symm.trans (hall 0 s rfl)
  cases hs₁
  obtain ⟨c', y, alloc', hc', hall'⟩ := hf a _ _ (hs.write _ _) hf₁
  refine ⟨c ++ c', y, alloc', by rw [Snippet.branches_append, hc, hc']; rfl, fun t ht halloc => ?_⟩
  refine (bind_of_ok (hall 0 t halloc)).trans ?_
  rw [hall' (t.write _ alloc) (ht.write _ _) rfl, Codegen.record_write, Codegen.write_write,
    Snippet.aim_append, Snippet.aim_of_straight hc, Snippet.aim_of_straight hc]
  rfl

theorem Guarded.pieced (h : Guarded g) (hop : op.canFail = true) : Pieced op g := by
  rintro i rfl s s' hs hrun
  obtain ⟨c, y, alloc, hc, hall⟩ := h s s' hs hrun
  exact ⟨⟨i, c, some y⟩, alloc, rfl, ⟨hc, fun _ => hop, fun _ hy => (by cases hy)⟩, hall⟩

theorem Aims.pieced (h : Blind g) (hop : op.canFail = false) : Pieced op g := by
  rintro i rfl s s' hs hrun
  obtain ⟨c, alloc, hc, hall⟩ := h 0 s _ _ hrun
  refine ⟨⟨i, c, none⟩, alloc, rfl, ⟨hc, fun hy => (by cases hy), fun hfail => ?_⟩,
    fun t _ halloc => (hall 0 t halloc).trans ?_⟩
  · rw [hop] at hfail
    cases hfail
  · rw [Snippet.aim_of_straight hc]
    rfl

/-- A guard that is dropped. -/
theorem pieced_pure (hop : op.testsType = true) : Pieced op (pure ()) := by
  rintro i rfl s s' hs hrun
  refine ⟨⟨i, [], none⟩, s.alloc, rfl, ⟨rfl, fun hy => (by cases hy), fun _ _ => ⟨hop, rfl⟩⟩,
    fun t _ halloc => ?_⟩
  rw [← halloc, Codegen.add, Codegen.write_nil]
  rfl

/-- Looking at a place writes nothing. -/
theorem Pieced.place {n : Nat} {f : Place → Gen Unit} (hf : ∀ p, Pieced op (f p)) :
    Pieced op (Gen.place n >>= f) := by
  rintro i hi s s' hs hrun
  by_cases hsize : n < s.alloc.places.size
  · rw [bind_of_ok (place_eq hsize)] at hrun
    obtain ⟨x, alloc, hx, hfits, hall⟩ := hf _ i hi s s' hs hrun
    refine ⟨x, alloc, hx, hfits, fun t ht halloc => ?_⟩
    rw [bind_of_ok (place_eq (halloc ▸ hsize)), halloc]
    exact hall t ht halloc
  · rw [bind_of_error (place_error hsize)] at hrun
    cases hrun

end

/-! ## Instructions -/

theorem alwaysFail_guarded : Guarded alwaysFail :=
  .bailout (Aims.code (c := fun l => [.jmp l]) fun _ => rfl)

theorem guardType_pieced {op : Op} (hop : op.testsType = true) (x : OperandId) (t : ValueType) :
    Pieced op (guardType x t) := by
  have hfail := Op.canFail_of_testsType hop
  refine Pieced.place fun p => ?_
  cases p.knownType? with
  | none =>
      exact (Guarded.after (blind.useValue _) fun r => .bailout
        (Aims.code (c := Snippet.compareTag r t.tag .notEqual) fun _ => rfl)).pieced hfail
  | some known =>
      dsimp only
      split
      · exact alwaysFail_guarded.pieced hfail
      · exact pieced_pure hop

theorem guardNumber_pieced (x : OperandId) : Pieced .guardIsNumber (guardNumber x) := by
  refine Pieced.place fun p => ?_
  cases p.knownType? with
  | none =>
      exact (Guarded.after (blind.useValue _) fun r => .bailout
        (Aims.code (c := Snippet.compareTag r ValueType.int32.tag .above) fun _ => rfl)).pieced rfl
  | some known =>
      dsimp only
      split
      · exact alwaysFail_guarded.pieced rfl
      · exact pieced_pure rfl

theorem compareClass_aims [ClassTable] (scratch : Register) (c : ClassKind) :
    Aims true (compareClass scratch c) :=
  (blind.code rfl).after fun _ =>
    (Aims.code (c := Snippet.branchWord .notEqual scratch c.address) fun _ => rfl).andThen fun _ =>
      blind.release scratch

theorem guardArray_pieced [ClassTable] (x : OperandId) : Pieced .guardIsArray (guardArray x) := by
  refine Pieced.place fun p => ?_
  cases p.knownType? with
  | none =>
      refine (Guarded.after (blind.useValue _) fun r => Guarded.after blind.allocate fun scratch =>
        .bailout ?_).pieced rfl
      refine (Aims.code (c := Snippet.compareTag r ValueType.object.tag .notEqual)
        fun _ => rfl).andThen fun _ => (blind.unbox _ _ _).after fun _ =>
          (blind.code rfl).after fun _ => compareClass_aims scratch .array
  | some known =>
      cases known with
      | object =>
          exact (Guarded.after (blind.usePayload _ _) fun _ =>
            Guarded.after blind.allocate fun scratch => .bailout ((blind.code rfl).after fun _ =>
              compareClass_aims scratch .array)).pieced rfl
      | _ => exact alwaysFail_guarded.pieced rfl

/-- Guards that compare an operand with a field. -/
theorem guardField_guarded {x : OperandId} {t : ValueType} {field : Int32}
    {c : Register → Register → Label → Snippet.Code}
    (hc : ∀ r scratch l, c r scratch l = Snippet.aim l (c r scratch 0))
    (hbranch : ∀ r scratch, Snippet.branches (c r scratch 0) = true) :
    Guarded (do
      let r ← usePayload x.index t
      let scratch ← allocate
      let l ← bailout
      code [.load scratch stubRegister field]
      code (c r scratch l)
      release scratch) := by
  refine Guarded.after (blind.usePayload _ _) fun r => Guarded.after blind.allocate fun scratch =>
    .bailout ((blind.code rfl).after fun _ => ?_)
  have hcode := Aims.code (hc r scratch)
  rw [hbranch r scratch] at hcode
  exact hcode.andThen fun _ => blind.release scratch

theorem guardHeader_guarded (x : OperandId) (header field : Int32) :
    Guarded (guardHeader x header field) :=
  guardField_guarded (c := fun object scratch => Snippet.branchMemory .notEqual object header scratch)
    (fun _ _ _ => rfl) fun _ _ => rfl

theorem guardSpecific_guarded (x : OperandId) (t : ValueType) (field : Int32) :
    Guarded (guardSpecific x t field) :=
  guardField_guarded (c := fun r scratch => Snippet.branchRegister .notEqual r scratch)
    (fun _ _ _ => rfl) fun _ _ => rfl

theorem guardClass_guarded [ClassTable] (x : OperandId) (c : ClassKind) :
    Guarded (guardClass x c) :=
  Guarded.after (blind.usePayload _ _) fun _ => Guarded.after blind.allocate fun scratch =>
    .bailout ((blind.code rfl).after fun _ => compareClass_aims scratch c)

theorem arrayLengthResult_guarded (x : OperandId) : Guarded (arrayLengthResult x) :=
  Guarded.after (blind.allocateFixed _) fun _ => Guarded.after (blind.usePayload _ _) fun _ =>
    Guarded.after blind.allocate fun scratch => .bailout ((blind.code rfl).after fun _ =>
      (Aims.code (c := Snippet.branchNegative32 outputRegister) fun _ => rfl).andThen fun _ =>
        (blind.tag _ _ _).after fun _ => blind.release scratch)

theorem arithResult_guarded {x y : OperandId}
    {compute : Register → Register → Label → Snippet.Code}
    (hc : ∀ a b l, compute a b l = Snippet.aim l (compute a b 0))
    (hbranch : ∀ a b, Snippet.branches (compute a b 0) = true) :
    Guarded (arithResult x y compute) := by
  refine Guarded.after (blind.allocateFixed _) fun _ => Guarded.after (blind.usePayload _ _) fun a =>
    Guarded.after (blind.usePayload _ _) fun b => .bailout
      ((blind.code (Snippet.quiet_move _ _)).after fun _ => ?_)
  have hcode := Aims.code (hc outputRegister b)
  rw [hbranch outputRegister b] at hcode
  exact hcode.andThen fun _ => blind.tag _ _ _

theorem fixed_blind {g : Gen Unit} (hg : Blind g) :
    Blind (do allocateFixed outputRegister; g) :=
  (blind.allocateFixed _).after fun _ => hg

theorem instruction_pieced [ClassTable] (field : Nat → Int32) (op : Op) (args : Args op.schema) :
    Pieced op (instruction field op args) := by
  cases op with
  | guardIsObject => exact guardType_pieced rfl _ _
  | guardIsString => exact guardType_pieced rfl _ _
  | guardIsSymbol => exact guardType_pieced rfl _ _
  | guardIsInt32 => exact guardType_pieced rfl _ _
  | guardIsNumber => exact guardNumber_pieced _
  | guardIsArray => exact guardArray_pieced _
  | guardShape => exact (guardHeader_guarded _ _ _).pieced rfl
  | guardGroup => exact (guardHeader_guarded _ _ _).pieced rfl
  | guardClass => exact (guardClass_guarded _ _).pieced rfl
  | guardSpecificObject => exact (guardSpecific_guarded _ _ _).pieced rfl
  | guardSpecificAtom => exact (guardSpecific_guarded _ _ _).pieced rfl
  | guardSpecificSymbol => exact (guardSpecific_guarded _ _ _).pieced rfl
  | guardSpecificId => exact (guardSpecific_guarded _ _ _).pieced rfl
  | loadObject =>
      exact Aims.pieced ((blind.defineAt _ _).after fun _ => blind.code rfl) rfl
  | loadProto =>
      exact Aims.pieced ((blind.usePayload _ _).after fun _ => (blind.defineAt _ _).after fun _ =>
        blind.code rfl) rfl
  | loadFixedSlot =>
      exact Aims.pieced ((blind.usePayload _ _).after fun _ => blind.allocate.after fun _ =>
        (blind.defineAt _ _).after fun _ => (blind.readSlot _ _ _ _ _).after fun _ =>
          blind.release _) rfl
  | loadDynamicSlot =>
      exact Aims.pieced ((blind.usePayload _ _).after fun _ => blind.allocate.after fun _ =>
        (blind.defineAt _ _).after fun _ => (blind.readSlot _ _ _ _ _).after fun _ =>
          blind.release _) rfl
  | loadInt32Constant => exact Aims.pieced (blind.setPlace _ _) rfl
  | loadFixedSlotResult =>
      exact Aims.pieced (fixed_blind ((blind.usePayload _ _).after fun _ =>
        blind.allocate.after fun _ => (blind.readSlot _ _ _ _ _).after fun _ => blind.release _)) rfl
  | loadDynamicSlotResult =>
      exact Aims.pieced (fixed_blind ((blind.usePayload _ _).after fun _ =>
        blind.allocate.after fun _ => (blind.readSlot _ _ _ _ _).after fun _ => blind.release _)) rfl
  | loadInt32ArrayLengthResult => exact (arrayLengthResult_guarded _).pieced rfl
  | loadStringLengthResult =>
      exact Aims.pieced (fixed_blind ((blind.usePayload _ _).after fun _ =>
        (blind.code rfl).after fun _ => blind.tag _ _ _)) rfl
  | loadUndefinedResult => exact Aims.pieced (fixed_blind (blind.code rfl)) rfl
  | loadBooleanResult => exact Aims.pieced (fixed_blind (blind.code rfl)) rfl
  | loadValueResult => exact Aims.pieced (fixed_blind (blind.code rfl)) rfl
  | loadDoubleResult => exact Aims.pieced (fixed_blind (blind.code rfl)) rfl
  | loadOperandResult =>
      exact Aims.pieced (fixed_blind ((blind.useValue _).after fun _ =>
        blind.code (Snippet.quiet_move _ _))) rfl
  | int32AddResult =>
      exact (arithResult_guarded (fun _ _ _ => rfl) fun _ _ => rfl).pieced rfl
  | int32SubResult =>
      exact (arithResult_guarded (fun _ _ _ => rfl) fun _ _ => rfl).pieced rfl
  | returnFromIC =>
      exact Aims.pieced (blind.discardStack.after fun _ => blind.code rfl) rfl

end Gen

/-! ## Programs -/

theorem Args.read_of_checked {check : Check} {ks : List ArgKind} {as : Args ks} {c c' : Cursor}
    (h : read check ks c = .ok as c') : read (fun _ _ _ => .ok ()) ks c = .ok as c' := by
  induction ks generalizing c with
  | nil => exact h
  | cons k ks ih =>
      rw [read, get_bind] at h ⊢
      obtain ⟨a, c₁, ha, hrest⟩ := exists_of_bind_ok h
      rw [bind_of_ok ha]
      dsimp only at hrest ⊢
      cases hcheck : check k c.offset a with
      | error err =>
          rw [hcheck] at hrest
          cases hrest
      | ok u =>
          rw [hcheck] at hrest
          obtain ⟨as', c₂, has, hret⟩ := exists_of_bind_ok hrest
          cases hret
          exact bind_of_ok (ih has)

namespace Codegen

/-- The state with pieces added one after the other. -/
def addAll (s : Codegen) (xs : List Piece) : Codegen :=
  xs.foldl add s

variable {s : Codegen}

theorem Labelled.add (h : s.Labelled) (x : Piece) : (s.add x).Labelled := by
  rw [Codegen.add]
  split
  · exact h.write _ _
  · exact (h.record _).write _ _

theorem add_withAlloc (s : Codegen) (a : Allocator) (x : Piece) :
    ({ s with alloc := a } : Codegen).add x = { s.add x with alloc := a } := by
  rw [add, add]
  split
  · rfl
  · next y hy =>
      have hrecord : ({ s with alloc := a } : Codegen).record y = { s.record y with alloc := a } := by
        rw [record, record, show ({ s with alloc := a } : Codegen).reuses y = s.reuses y from rfl]
        split <;> rfl
      rw [hrecord]
      rfl

theorem addAll_withAlloc (s : Codegen) (a : Allocator) (xs : List Piece) :
    ({ s with alloc := a } : Codegen).addAll xs = { s.addAll xs with alloc := a } := by
  induction xs generalizing s with
  | nil => rfl
  | cons x xs ih =>
      change (({ s with alloc := a } : Codegen).add x).addAll xs = _
      rw [add_withAlloc, ih]
      rfl

end Codegen

namespace Compile

variable {p : Program} {field : Nat → Int32} {s s' : Codegen}

theorem of_gen_ok {α : Type} {g : Gen α} {a : α} (h : gen g s = .ok a s') : g s = .ok a s' := by
  rw [gen] at h
  cases hg : g s with
  | ok b t =>
      rw [hg] at h
      cases h
      rfl
  | error err t =>
      rw [hg] at h
      cases h

theorem one_pieces [ClassTable] {c : Cursor} {hasResult : Bool} {next : Op × Cursor}
    (hs : s.Labelled) (h : one p field c hasResult s = .ok next s') :
    ∃ x alloc, Instruction.read c = .ok x.instruction next.2 ∧ x.Fits ∧ x.Frugal ∧
      ∀ t, t.Labelled → t.alloc = s.alloc →
        one p field c hasResult t = .ok next { t.add x with alloc } := by
  obtain ⟨⟨op, c₁⟩, s₁, hread, hrest⟩ := exists_of_bind_ok h
  obtain ⟨rfl, hop⟩ := (read_follows Cursor.op c s).of_eq_ok hread
  dsimp only at hop hrest
  cases hresult : (op.isResult && hasResult) with
  | true =>
      rw [hresult] at hrest
      cases hrest
  | false =>
      rw [hresult] at hrest
      change (read (Args.read (checkArg p s₁.alloc) op.schema) c₁ >>= _ : Compile _) s₁ = _ at hrest
      obtain ⟨⟨args, c₂⟩, s₂, hreads, hcompile⟩ := exists_of_bind_ok hrest
      obtain ⟨rfl, hargs⟩ := (read_follows _ c₁ s₁).of_eq_ok hreads
      obtain ⟨_, s₃, hgen, hlast⟩ := exists_of_bind_ok hcompile
      cases hlast
      obtain ⟨x, alloc, hx, hfits, hall⟩ := Gen.instruction_pieced field op args ⟨op, args⟩ rfl
        s₂ s₃ hs (of_gen_ok hgen)
      have hfrugal : x.Frugal := by
        have h := Gen.instruction_frugal field op args
        have hs₃ := (of_gen_ok hgen).symm.trans (hall s₂ hs rfl)
        injection hs₃ with _ hs₃
        exact Gen.Frugal.piece (by rw [hx]; exact h) (of_gen_ok hgen) hs₃
      refine ⟨x, alloc.nextInstruction, ?_, hfits, hfrugal, fun t ht halloc => ?_⟩
      · rw [hx]
        exact (bind_of_ok hop).trans (bind_of_ok (Args.read_of_checked hargs))
      · refine (bind_of_ok (read_eq hop t)).trans ?_
        dsimp only
        rw [hresult]
        change (read (Args.read (checkArg p t.alloc) op.schema) c₁ >>= _ : Compile _) t = _
        rw [halloc, bind_of_ok (read_eq hargs t)]
        exact (bind_of_ok (gen_eq (hall t ht halloc))).trans rfl

/-- The instructions of a program are compiled to pieces, whatever was compiled before. -/
theorem instructions_pieces [ClassTable] {limit : Nat} {c : Cursor}
    {returned returned' hasResult : Bool} (hs : s.Labelled)
    (h : instructions p field limit c returned hasResult s = .ok returned' s') :
    ∃ xs alloc c', Instruction.readMany limit c = .ok (xs.map Piece.instruction) c' ∧
      (∀ x ∈ xs, x.Fits ∧ x.Frugal) ∧ ∀ t, t.Labelled → t.alloc = s.alloc →
        instructions p field limit c returned hasResult t =
          .ok returned' { t.addAll xs with alloc } := by
  induction limit generalizing c returned hasResult s with
  | zero =>
      cases h
      refine ⟨[], s'.alloc, c, rfl, by simp, fun t _ halloc => ?_⟩
      rw [← halloc]
      rfl
  | succ limit ih =>
      cases hmore : c.more with
      | false =>
          rw [instructions_of_not_more hmore] at h
          cases h
          refine ⟨[], s'.alloc, c, ?_, by simp, fun t _ halloc => ?_⟩
          · rw [Instruction.readMany, get_bind, hmore]
            rfl
          · rw [instructions_of_not_more hmore, ← halloc]
            rfl
      | true =>
          cases returned with
          | true =>
              rw [instructions_of_returned hmore] at h
              cases h
          | false =>
              rw [instructions_succ hmore] at h
              obtain ⟨next, s₁, hone, hrest⟩ := exists_of_bind_ok h
              obtain ⟨x, alloc₁, hread, hfits, hfrugal, hall⟩ := one_pieces hs hone
              have hs₁ := hone.symm.trans (hall s hs rfl)
              cases hs₁
              have hlab : ∀ {t : Codegen}, t.Labelled →
                  ({ t.add x with alloc := alloc₁ } : Codegen).Labelled := fun ht =>
                ⟨(ht.add x).numLabels, (ht.add x).label⟩
              obtain ⟨xs, alloc, c', hreads, hfits', hall'⟩ := ih (hlab hs) hrest
              refine ⟨x :: xs, alloc, c', ?_,
                List.forall_mem_cons.mpr ⟨⟨hfits, hfrugal⟩, hfits'⟩, fun t ht halloc => ?_⟩
              · rw [Instruction.readMany, get_bind, hmore]
                exact (bind_of_ok hread).trans (bind_of_ok hreads)
              · rw [instructions_succ hmore, bind_of_ok (hall t ht halloc),
                  hall' _ (hlab ht) rfl, Codegen.addAll_withAlloc]
                rfl

end Compile
end InlineCache
