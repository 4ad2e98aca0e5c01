import InlineCache.Proofs.Codegen.Tracks
import InlineCache.Proofs.Codegen.Body

/-!
# Every operation is level

What an operation writes is of three kinds: code of the allocator, which moves the depth together
with the stack pointer; code that has nothing to do with the stack; and branches to the bailout of
the operation, which was noted at this depth. So each operation leaves code and allocator in step
(`Gen.instruction_follows`), and so do any number of instructions (`Compile.instructions_follows`).
The return drops what is left and is the last thing that is written.
-/

namespace InlineCache

open X64

namespace Snippet

variable {r a b base : Register} {l : Label}

theorem plainTo_compareTag (number : UInt64) (k : Condition) :
    PlainTo l (compareTag r number k l) := by
  refine PlainTo.append (c := splitTag r ++ [.cmp32Imm scratchRegister _]) (Plain.plainTo ?_)
    (plainTo_jcc k)
  simp [splitTag, Instr.isPlain, Instr.dest?, scratchRegister]

theorem plainTo_branchRegister (k : Condition) : PlainTo l (branchRegister k a b l) :=
  PlainTo.append (c := [.cmp a b]) (Plain.plainTo (by simp [Instr.isPlain, Instr.dest?]))
    (plainTo_jcc k)

theorem plainTo_branchMemory (k : Condition) (hbase : base ≠ .rsp) (disp : Int32) :
    PlainTo l (branchMemory k base disp b l) :=
  PlainTo.append (c := [.cmpMem base disp b])
    (Plain.plainTo (by simp [Instr.isPlain, Instr.dest?, hbase])) (plainTo_jcc k)

theorem plainTo_branchWord (k : Condition) (w : UInt64) : PlainTo l (branchWord k a w l) :=
  PlainTo.append (c := [.movImm scratchRegister w])
    (Plain.plainTo (by simp [Instr.isPlain, Instr.dest?, scratchRegister]))
    (plainTo_branchRegister k)

theorem plainTo_branchNegative32 : PlainTo l (branchNegative32 r l) :=
  PlainTo.append (c := [.test32 r]) (Plain.plainTo (by simp [Instr.isPlain, Instr.dest?]))
    (plainTo_jcc _)

theorem plainTo_addOrBranch (a : Register) (l : Label) :
    PlainTo l (addOrBranch outputRegister a l) :=
  PlainTo.append (c := [.add32 outputRegister a])
    (Plain.plainTo (by simp [Instr.isPlain, Instr.dest?, outputRegister])) (plainTo_jcc _)

theorem plainTo_subOrBranch (a : Register) (l : Label) :
    PlainTo l (subOrBranch outputRegister a l) :=
  PlainTo.append (c := [.sub32 outputRegister a])
    (Plain.plainTo (by simp [Instr.isPlain, Instr.dest?, outputRegister])) (plainTo_jcc _)

end Snippet

namespace Gen

variable {s : Codegen} {e : Engine} {front : Snippet.Code} {claimed : RegisterSet}
  {scratch object dest : Register} {l : Label}

/-- Branches are the last thing that a guard does with its operands. -/
theorem branch_tracked {c : Snippet.Code} (h : s.Guards e front claimed l) (hc : PlainTo l c) :
    Follows (code c) s fun _ s' => s'.Tracked e front :=
  (branch_follows h hc).mono (fun _ _ _ => trivial) fun _ _ h' => ⟨claimed, h'.toTracks⟩

theorem code_tracked {c : Snippet.Code} (h : s.Tracks e front claimed) (hc : Plain c) :
    Follows (code c) s fun _ s' => s'.Tracked e front :=
  (code_follows h hc).mono (fun _ _ _ => trivial) fun _ _ h' => ⟨claimed, h'⟩

/-! ## Guards -/

theorem alwaysFail_follows (h : s.Tracks e front claimed) :
    Follows alwaysFail s fun _ s' => s'.Tracked e front :=
  (bailout_follows h).bind fun _ _ hg => branch_tracked hg plainTo_jmp

theorem guardType_follows (h : s.Tracks e front claimed) (x : OperandId) (t : ValueType) :
    Follows (guardType x t) s fun _ s' => s'.Tracked e front := by
  refine (place_follows x.index s).bind ?_
  rintro p _ rfl
  split
  · split
    · exact alwaysFail_follows h
    · exact Ensures.pure ⟨claimed, h⟩
  · refine (useValue_follows h x.index).bind ?_
    rintro r s₁ ⟨-, h₁⟩
    refine (bailout_follows h₁).bind fun l s₂ h₂ => ?_
    exact branch_tracked h₂ (Snippet.plainTo_compareTag _ _)

theorem guardNumber_follows (h : s.Tracks e front claimed) (x : OperandId) :
    Follows (guardNumber x) s fun _ s' => s'.Tracked e front := by
  refine (place_follows x.index s).bind ?_
  rintro p _ rfl
  split
  · split
    · exact alwaysFail_follows h
    · exact Ensures.pure ⟨claimed, h⟩
  · refine (useValue_follows h x.index).bind ?_
    rintro r s₁ ⟨-, h₁⟩
    refine (bailout_follows h₁).bind fun l s₂ h₂ => ?_
    exact branch_tracked h₂ (Snippet.plainTo_compareTag _ _)

theorem compareClass_follows [ClassTable] (h : s.Guards e front claimed l)
    (hscratch : scratch ≠ .rsp) (hclaimed : claimed.contains scratch = true) (c : ClassKind) :
    Follows (compareClass scratch c l) s fun _ s' => s'.Tracked e front := by
  refine (branch_follows h (Plain.plainTo ?_)).bind fun _ s₁ h₁ => ?_
  · simp [Instr.isPlain, Instr.dest?, hscratch]
  · refine (branch_follows h₁ (Snippet.plainTo_branchWord _ _)).bind fun _ s₂ h₂ => ?_
    exact release_follows h₂.toTracks hclaimed

theorem guardArray_follows [ClassTable] (h : s.Tracks e front claimed) (x : OperandId) :
    Follows (guardArray x) s fun _ s' => s'.Tracked e front := by
  refine (place_follows x.index s).bind ?_
  rintro p _ rfl
  split
  · refine (usePayload_follows h x.index .object).bind ?_
    rintro object s₁ ⟨hobject, h₁⟩
    refine (allocate_follows h₁).bind ?_
    rintro scratch s₂ ⟨hscratch, h₂⟩
    refine (bailout_follows h₂).bind fun l s₃ h₃ => ?_
    refine (branch_follows h₃ (Plain.plainTo ?_)).bind fun _ s₄ h₄ => ?_
    · simp [Instr.isPlain, Instr.dest?, hscratch, hobject]
    · exact compareClass_follows h₄ hscratch (by simp) .array
  · exact alwaysFail_follows h
  · refine (useValue_follows h x.index).bind ?_
    rintro r s₁ ⟨hr, h₁⟩
    refine (allocate_follows h₁).bind ?_
    rintro scratch s₂ ⟨hscratch, h₂⟩
    refine (bailout_follows h₂).bind fun l s₃ h₃ => ?_
    refine Follows.bind (branch_follows h₃ (Snippet.plainTo_compareTag _ _)) fun _ s₄ h₄ => ?_
    obtain ⟨c, hc, hplain⟩ | hc := Snippet.unbox_eq hscratch r .object
    · rw [hc]
      refine Follows.bind (branch_follows h₄ hplain.plainTo) fun _ s₅ h₅ => ?_
      refine (branch_follows h₅ (Plain.plainTo ?_)).bind fun _ s₆ h₆ => ?_
      · simp [Instr.isPlain, Instr.dest?, hscratch]
      · exact compareClass_follows h₆ hscratch (by simp) .array
    · rw [hc]
      exact Ensures.bind (Ensures.of_error rfl trivial)

/-- A payload is compared with a field. -/
theorem guardField_follows (h : s.Tracks e front claimed) (x : OperandId) (t : ValueType)
    (field : Int32) {compare : Register → Register → Label → Snippet.Code}
    (hcompare : ∀ r scratch l, r ≠ .rsp → PlainTo l (compare r scratch l)) :
    Follows (do
        let r ← usePayload x.index t
        let scratch ← allocate
        let l ← bailout
        code [.load scratch stubRegister field]
        code (compare r scratch l)
        release scratch) s fun _ s' => s'.Tracked e front := by
  refine (usePayload_follows h x.index t).bind ?_
  rintro r s₁ ⟨hr, h₁⟩
  refine (allocate_follows h₁).bind ?_
  rintro scratch s₂ ⟨hscratch, h₂⟩
  refine (bailout_follows h₂).bind fun l s₃ h₃ => ?_
  refine (branch_follows h₃ (Plain.plainTo ?_)).bind fun _ s₄ h₄ => ?_
  · simp [Instr.isPlain, Instr.dest?, hscratch, stubRegister]
  · refine (branch_follows h₄ (hcompare r scratch l hr)).bind fun _ s₅ h₅ => ?_
    exact release_follows h₅.toTracks (by simp)

theorem guardHeader_follows (h : s.Tracks e front claimed) (x : OperandId)
    (header field : Int32) :
    Follows (guardHeader x header field) s fun _ s' => s'.Tracked e front :=
  guardField_follows h x .object field fun _ _ _ hr => Snippet.plainTo_branchMemory _ hr _

theorem guardSpecific_follows (h : s.Tracks e front claimed) (x : OperandId) (t : ValueType)
    (field : Int32) : Follows (guardSpecific x t field) s fun _ s' => s'.Tracked e front :=
  guardField_follows h x t field fun _ _ _ _ => Snippet.plainTo_branchRegister _

theorem guardClass_follows [ClassTable] (h : s.Tracks e front claimed) (x : OperandId)
    (c : ClassKind) : Follows (guardClass x c) s fun _ s' => s'.Tracked e front := by
  refine (usePayload_follows h x.index .object).bind ?_
  rintro object s₁ ⟨hobject, h₁⟩
  refine (allocate_follows h₁).bind ?_
  rintro scratch s₂ ⟨hscratch, h₂⟩
  refine (bailout_follows h₂).bind fun l s₃ h₃ => ?_
  refine (branch_follows h₃ (Plain.plainTo ?_)).bind fun _ s₄ h₄ => ?_
  · simp [Instr.isPlain, Instr.dest?, hscratch, hobject]
  · exact compareClass_follows h₄ hscratch (by simp) c

/-! ## Loads -/

theorem loadObject_follows (h : s.Tracks e front claimed) (x : OperandId) (field : Int32) :
    Follows (loadObject x field) s fun _ s' => s'.Tracked e front := by
  refine (definePayload_follows h x.index .object).bind ?_
  rintro r s₁ ⟨hr, h₁⟩
  exact code_tracked h₁ (by simp [Instr.isPlain, Instr.dest?, hr, stubRegister])

theorem loadProto_follows (h : s.Tracks e front claimed) (x y : OperandId) :
    Follows (loadProto x y) s fun _ s' => s'.Tracked e front := by
  refine (usePayload_follows h x.index .object).bind ?_
  rintro object s₁ ⟨hobject, h₁⟩
  refine (definePayload_follows h₁ y.index .object).bind ?_
  rintro r s₂ ⟨hr, h₂⟩
  exact code_tracked h₂ (by simp [Instr.isPlain, Instr.dest?, hr, hobject])

theorem readSlot_follows (h : s.Tracks e front claimed) (hdest : dest ≠ .rsp)
    (hobject : object ≠ .rsp) (hscratch : scratch ≠ .rsp) (field : Int32) (dynamic : Bool) :
    Follows (readSlot dest object scratch field dynamic) s fun _ s' =>
      s'.Tracks e front claimed := by
  refine (code_follows h ?_).bind fun _ s₁ h₁ => ?_
  · simp [Instr.isPlain, Instr.dest?, hscratch, stubRegister]
  · split
    · exact code_follows h₁ (by simp [Instr.isPlain, Instr.dest?, hdest, hobject])
    · exact code_follows h₁ (by simp [Instr.isPlain, Instr.dest?, hdest, hobject])

theorem loadSlot_follows (h : s.Tracks e front claimed) (x y : OperandId) (field : Int32)
    (dynamic : Bool) : Follows (loadSlot x y field dynamic) s fun _ s' => s'.Tracked e front := by
  refine (usePayload_follows h x.index .object).bind ?_
  rintro object s₁ ⟨hobject, h₁⟩
  refine (allocate_follows h₁).bind ?_
  rintro scratch s₂ ⟨hscratch, h₂⟩
  refine (defineValue_follows h₂ y.index).bind ?_
  rintro dest s₃ ⟨hdest, h₃⟩
  refine (readSlot_follows h₃ hdest hobject hscratch field dynamic).bind fun _ s₄ h₄ => ?_
  exact release_follows h₄ (by simp)

/-! ## Results -/

theorem slotResult_follows (h : s.Tracks e front claimed) (x : OperandId) (field : Int32)
    (dynamic : Bool) : Follows (slotResult x field dynamic) s fun _ s' => s'.Tracked e front := by
  refine (allocateFixed_follows h outputRegister).bind fun _ s₁ h₁ => ?_
  refine (usePayload_follows h₁ x.index .object).bind ?_
  rintro object s₂ ⟨hobject, h₂⟩
  refine (allocate_follows h₂).bind ?_
  rintro scratch s₃ ⟨hscratch, h₃⟩
  refine (readSlot_follows h₃ (by decide) hobject hscratch field dynamic).bind fun _ s₄ h₄ => ?_
  exact release_follows h₄ (by simp)

theorem plain_boxInt32Output {c : Snippet.Code}
    (hc : Snippet.tag .int32 outputRegister outputRegister = .ok c) : Plain c := by
  cases hc
  simp [Instr.isPlain, Instr.dest?, outputRegister, scratchRegister]

theorem boxInt32Output_follows (h : s.Tracks e front claimed) :
    Follows boxInt32Output s fun _ s' => s'.Tracks e front claimed :=
  code_follows h (plain_boxInt32Output rfl)

theorem arrayLengthResult_follows (h : s.Tracks e front claimed) (x : OperandId) :
    Follows (arrayLengthResult x) s fun _ s' => s'.Tracked e front := by
  refine (allocateFixed_follows h outputRegister).bind fun _ s₁ h₁ => ?_
  refine (usePayload_follows h₁ x.index .object).bind ?_
  rintro object s₂ ⟨hobject, h₂⟩
  refine (allocate_follows h₂).bind ?_
  rintro scratch s₃ ⟨hscratch, h₃⟩
  refine (bailout_follows h₃).bind fun l s₄ h₄ => ?_
  refine (branch_follows h₄ (Plain.plainTo ?_)).bind fun _ s₅ h₅ => ?_
  · simp [Instr.isPlain, Instr.dest?, hscratch, hobject, outputRegister]
  · refine (branch_follows h₅ Snippet.plainTo_branchNegative32).bind fun _ s₆ h₆ => ?_
    refine (boxInt32Output_follows h₆.toTracks).bind fun _ s₇ h₇ => ?_
    exact release_follows h₇ (by simp)

theorem stringLengthResult_follows (h : s.Tracks e front claimed) (x : OperandId) :
    Follows (stringLengthResult x) s fun _ s' => s'.Tracked e front := by
  refine (allocateFixed_follows h outputRegister).bind fun _ s₁ h₁ => ?_
  refine (usePayload_follows h₁ x.index .string).bind ?_
  rintro string s₂ ⟨hstring, h₂⟩
  refine (code_follows h₂ ?_).bind fun _ s₃ h₃ => ?_
  · simp [Instr.isPlain, Instr.dest?, hstring, outputRegister]
  · exact code_tracked h₃ (plain_boxInt32Output rfl)

theorem constantResult_follows (h : s.Tracks e front claimed) (v : Value) :
    Follows (constantResult v) s fun _ s' => s'.Tracked e front := by
  refine (allocateFixed_follows h outputRegister).bind fun _ s₁ h₁ => ?_
  exact code_tracked h₁ (by simp [Instr.isPlain, Instr.dest?, outputRegister])

theorem fieldResult_follows (h : s.Tracks e front claimed) (field : Int32) :
    Follows (fieldResult field) s fun _ s' => s'.Tracked e front := by
  refine (allocateFixed_follows h outputRegister).bind fun _ s₁ h₁ => ?_
  exact code_tracked h₁ (by simp [Instr.isPlain, Instr.dest?, outputRegister, stubRegister])

theorem operandResult_follows (h : s.Tracks e front claimed) (x : OperandId) :
    Follows (operandResult x) s fun _ s' => s'.Tracked e front := by
  refine (allocateFixed_follows h outputRegister).bind fun _ s₁ h₁ => ?_
  refine (useValue_follows h₁ x.index).bind ?_
  rintro r s₂ ⟨-, h₂⟩
  exact code_tracked h₂ (Snippet.plain_move (by decide))

theorem arithResult_follows (h : s.Tracks e front claimed) (x y : OperandId)
    {compute : Register → Register → Label → Snippet.Code}
    (hcompute : ∀ a l, PlainTo l (compute outputRegister a l)) :
    Follows (arithResult x y compute) s fun _ s' => s'.Tracked e front := by
  refine (allocateFixed_follows h outputRegister).bind fun _ s₁ h₁ => ?_
  refine (usePayload_follows h₁ x.index .int32).bind ?_
  rintro a s₂ ⟨-, h₂⟩
  refine (usePayload_follows h₂ y.index .int32).bind ?_
  rintro b s₃ ⟨-, h₃⟩
  refine (bailout_follows h₃).bind fun l s₄ h₄ => ?_
  refine (branch_follows h₄ (Snippet.plain_move (by decide)).plainTo).bind fun _ s₅ h₅ => ?_
  refine (branch_follows h₅ (hcompute b l)).bind fun _ s₆ h₆ => ?_
  exact code_tracked h₆.toTracks (plain_boxInt32Output rfl)

end Gen

/-! ## All operations -/

/-- An operand that is defined has no place yet. -/
def Allocator.Fresh (a : Allocator) : (k : ArgKind) → k.Decoded → Prop
  | .define, x => a.place x.index = .uninitialized
  | _, _ => True

namespace Gen

variable {s : Codegen} {e : Engine} {front : Snippet.Code} {claimed : RegisterSet}

/-- Every operation but the return goes on. -/
theorem instruction_follows [ClassTable] (h : s.Tracks e front claimed) (field : Nat → Int32)
    {op : Op} {args : Args op.schema} (hop : op ≠ .returnFromIC)
    (hfresh : Args.All s.alloc.Fresh op.schema args) :
    Follows (Gen.instruction field op args) s fun _ s' => s'.Tracked e front := by
  cases op with
  | guardIsObject => exact guardType_follows h args.1 .object
  | guardIsString => exact guardType_follows h args.1 .string
  | guardIsSymbol => exact guardType_follows h args.1 .symbol
  | guardIsInt32 => exact guardType_follows h args.1 .int32
  | guardIsNumber => exact guardNumber_follows h args.1
  | guardIsArray => exact guardArray_follows h args.1
  | guardShape => exact guardHeader_follows h args.1 _ _
  | guardGroup => exact guardHeader_follows h args.1 _ _
  | guardClass => exact guardClass_follows h args.1 args.2.1
  | guardSpecificObject => exact guardSpecific_follows h args.1 .object _
  | guardSpecificAtom => exact guardSpecific_follows h args.1 .string _
  | guardSpecificSymbol => exact guardSpecific_follows h args.1 .symbol _
  | guardSpecificId => exact guardSpecific_follows h args.1 .string _
  | loadObject => exact loadObject_follows h args.1 _
  | loadProto => exact loadProto_follows h args.1 args.2.1
  | loadFixedSlot => exact loadSlot_follows h args.1 args.2.2.1 _ false
  | loadDynamicSlot => exact loadSlot_follows h args.1 args.2.2.1 _ true
  | loadInt32Constant => exact setConstant_follows h hfresh.1 _
  | loadFixedSlotResult => exact slotResult_follows h args.1 _ false
  | loadDynamicSlotResult => exact slotResult_follows h args.1 _ true
  | loadInt32ArrayLengthResult => exact arrayLengthResult_follows h args.1
  | loadStringLengthResult => exact stringLengthResult_follows h args.1
  | loadUndefinedResult => exact constantResult_follows h .undefined
  | loadBooleanResult => exact constantResult_follows h (.ofBool args.1)
  | loadValueResult => exact fieldResult_follows h _
  | loadDoubleResult => exact fieldResult_follows h _
  | loadOperandResult => exact operandResult_follows h args.1
  | int32AddResult => exact arithResult_follows h args.1 args.2.1 Snippet.plainTo_addOrBranch
  | int32SubResult => exact arithResult_follows h args.1 args.2.1 Snippet.plainTo_subOrBranch
  | returnFromIC => exact absurd rfl hop

end Gen

/-! ## The return -/

/-- Dropping the stack. -/
theorem Snippet.levels_discard {depth : Nat} (hlt : depth < 2 ^ 32)
    (target : Label → Nat → Prop) : Levels target depth (discard depth) ∧
      depthBehind depth (discard depth) = 0 ∧ X64.peak depth (discard depth) = depth := by
  rw [discard]
  split
  · have hn : depth.toUInt32.toInt32.toUInt32.toNat = depth := by
      show (UInt32.ofNat depth).toNat = depth
      rw [UInt32.toNat_ofNat', Nat.mod_eq_of_lt hlt]
    have hbehind : Instr.depthAfter depth (.dropStack (τ := Label) depth.toUInt32.toInt32) = 0 := by
      rw [Instr.depthAfter, hn, Nat.sub_self]
    refine ⟨⟨⟨fun hd => (by cases hd), hn⟩, trivial⟩, hbehind, ?_⟩
    rw [dropStack, X64.peak, hbehind]
    exact Nat.max_eq_left (Nat.zero_le depth)
  · next hzero =>
      have hdepth : depth = 0 := by omega
      exact ⟨trivial, hdepth, rfl⟩

namespace Codegen

/-- The body is complete: it ends with a return, and the code before the return starts with
`front`. -/
def Returned (front : Snippet.Code) (s : Codegen) : Prop :=
  ∃ c, front <+: c ∧ s.Written (c ++ [.ret])

end Codegen

theorem Gen.return_follows {s : Codegen} {e : Engine} {front : Snippet.Code}
    {claimed : RegisterSet} (h : s.Tracks e front claimed) :
    Follows return_ s fun _ s' => s'.Returned front := by
  obtain ⟨c, hfront, hwritten⟩ := h.written
  obtain ⟨hlevels, hdepth, hpeak⟩ := Snippet.levels_discard h.partitioned.bounded s.Expects
  have hret : X64.peak 0 [(.ret : Instr Label)] = 0 := rfl
  refine Ensures.of_ok return_eq ⟨c ++ Snippet.discard s.alloc.depth,
    hfront.trans (List.prefix_append _ _), ?_⟩
  rw [List.append_assoc]
  refine hwritten.write (levels_append.mpr ⟨hlevels, ?_⟩) ?_ ?_ rfl rfl
  · rw [hdepth]
    exact ⟨⟨fun hd => (by cases hd), rfl⟩, trivial⟩
  · rw [depthBehind_append, hdepth]
    rfl
  · rw [peak_append, hdepth, hpeak, hret, Nat.max_eq_left (Nat.zero_le _),
      Nat.max_eq_left h.partitioned.depth_le]
    rfl

/-! ## The whole body -/

theorem Args.all_of_read {check : Check} {ks : List ArgKind} {as : Args ks} {c c' : Cursor}
    (h : Args.read check ks c = .ok as c') :
    Args.All (fun k a => ∃ o, check k o a = .ok ()) ks as := by
  induction ks generalizing c with
  | nil => trivial
  | cons k ks ih =>
      rw [Args.read, get_bind] at h
      obtain ⟨a, c₁, -, h⟩ := exists_of_bind_ok h
      cases hcheck : check k c.offset a with
      | error err =>
          simp only [hcheck] at h
          cases h
      | ok _ =>
          simp only [hcheck] at h
          obtain ⟨as', c₂, hrest, h⟩ := exists_of_bind_ok h
          cases h
          exact ⟨⟨_, hcheck⟩, ih hrest⟩

theorem Compile.fresh_of_checkArg {p : Program} {a : Allocator} {k : ArgKind} {x : k.Decoded}
    (h : ∃ o, checkArg p a k o x = .ok ()) : a.Fresh k x := by
  obtain ⟨o, h⟩ := h
  cases k with
  | define =>
      rw [checkArg] at h
      split at h
      · cases h
      · split at h
        · cases h
        · next hnot => exact not_not.mp fun hne => hnot (.inr hne)
  | _ => trivial

namespace Compile

variable {p : Program} {field : Nat → Int32} {e : Engine} {front : Snippet.Code}
  {claimed : RegisterSet}

theorem read_follows {α : Type} (r : Read α) (c : Cursor) (s : Codegen) :
    Follows (read r c) s fun ac s' => s' = s ∧ r c = .ok ac.1 ac.2 := by
  rw [read, EStateM.run]
  cases hr : r c with
  | ok a c' => exact Ensures.pure ⟨rfl, rfl⟩
  | error err c' => exact Ensures.of_error rfl trivial

/-- Reads and compiles one instruction. -/
def one [ClassTable] (p : Program) (field : Nat → Int32) (c : Cursor) (hasResult : Bool) :
    Compile (Op × Cursor) := do
  let (op, afterOp) ← read Cursor.op c
  if op.isResult && hasResult then malformed c.offset .secondResult
  let (args, next) ← read (Args.read (checkArg p (← get).alloc) op.schema) afterOp
  gen (Gen.instruction field op args)
  gen (Gen.modifyAllocator Allocator.nextInstruction)
  return (op, next)

theorem instructions_succ [ClassTable] {limit : Nat} {c : Cursor} (hmore : c.more = true)
    (hasResult : Bool) :
    instructions p field (limit + 1) c false hasResult = (one p field c hasResult >>= fun next =>
      instructions p field limit next.2 (next.1 == .returnFromIC)
        (hasResult || next.1.isResult)) := by
  rw [instructions, hmore, one, bind_assoc]
  refine congrArg (read Cursor.op c >>= ·) (funext fun x => ?_)
  dsimp only
  split
  · rfl
  · simp only [bind_assoc, pure_bind]

theorem instructions_of_not_more [ClassTable] {limit : Nat} {c : Cursor} (hmore : c.more = false)
    (returned hasResult : Bool) :
    instructions p field limit c returned hasResult = pure returned := by
  cases limit with
  | zero => rfl
  | succ limit =>
      rw [instructions, hmore]
      rfl

theorem instructions_of_returned [ClassTable] {limit : Nat} {c : Cursor} (hmore : c.more = true)
    (hasResult : Bool) (s : Codegen) :
    instructions p field (limit + 1) c true hasResult s =
      .error (.malformed ⟨c.offset, .afterReturn⟩) s := by
  rw [instructions, hmore]
  rfl

/-- The state between two instructions. -/
def Between (e : Engine) (front : Snippet.Code) (returned : Bool) (s : Codegen) : Prop :=
  if returned then s.Returned front else s.Tracked e front

/-- Moving on to the next instruction writes nothing. -/
theorem Between.next {returned : Bool} {s : Codegen} (h : Between e front returned s) :
    Between e front returned { s with alloc := s.alloc.nextInstruction } := by
  have hwritten : ∀ {c}, s.Written c →
      ({ s with alloc := s.alloc.nextInstruction } : Codegen).Written c := fun hw =>
    hw.withAlloc rfl rfl rfl hw.origins
  cases returned with
  | true =>
      obtain ⟨c, hfront, hw⟩ := h
      exact ⟨c, hfront, hwritten hw⟩
  | false =>
      obtain ⟨claimed, hpartitioned, c, hfront, hw⟩ := h
      exact ⟨claimed, hpartitioned.of_eq rfl rfl rfl rfl rfl, c, hfront, hwritten hw⟩

theorem one_follows [ClassTable] {c : Cursor} {hasResult : Bool} {s : Codegen}
    (h : s.Tracked e front) :
    Follows (one p field c hasResult) s fun next s' =>
      Between e front (next.1 == .returnFromIC) s' := by
  obtain ⟨claimed, h⟩ := h
  refine (read_follows Cursor.op c s).bind ?_
  rintro ⟨op, c₁⟩ s ⟨rfl, -⟩
  dsimp only
  split
  · exact Ensures.bind (Ensures.of_error rfl trivial)
  · refine Ensures.bind_ok (t := s) (a := s) rfl ((read_follows _ c₁ s).bind ?_)
    rintro ⟨args, c₂⟩ s ⟨rfl, hread⟩
    have hfresh : Args.All s.alloc.Fresh op.schema args :=
      (Args.all_of_read hread).mono fun _ _ => fresh_of_checkArg
    have hinstr : Follows (Gen.instruction field op args) s fun _ s' =>
        Between e front (op == .returnFromIC) s' := by
      by_cases hop : op = .returnFromIC
      · subst hop
        exact Gen.return_follows h
      · rw [beq_false_of_ne hop]
        exact Gen.instruction_follows h field hop hfresh
    refine Follows.bind (gen_ensures hinstr) fun _ s₁ h₁ => ?_
    exact Ensures.bind_ok (t := { s₁ with alloc := s₁.alloc.nextInstruction }) (a := ()) rfl
      (Ensures.pure h₁.next)

/-- What the instructions of a program write keeps in step with the allocator. -/
theorem instructions_follows [ClassTable] {limit : Nat} {c : Cursor} {returned hasResult : Bool}
    {s : Codegen} (h : Between e front returned s) :
    Follows (instructions p field limit c returned hasResult) s fun returned' s' =>
      Between e front returned' s' := by
  induction limit generalizing c returned hasResult s with
  | zero => exact Ensures.pure h
  | succ limit ih =>
      cases hmore : c.more with
      | false =>
          rw [instructions_of_not_more hmore]
          exact Ensures.pure h
      | true =>
          cases returned with
          | true => exact Ensures.of_error (instructions_of_returned hmore hasResult s) trivial
          | false =>
              rw [instructions_succ hmore]
              exact (one_follows h).bind fun next s₁ h₁ => ih h₁

/-- The instructions of a program can be compiled in two goes. -/
theorem instructions_add [ClassTable] {limit limit' : Nat} {c : Cursor}
    {returned returned' hasResult : Bool} {s s' : Codegen}
    (h : instructions p field (limit + limit') c returned hasResult s = .ok returned' s') :
    ∃ returned₁ s₁, instructions p field limit c returned hasResult s = .ok returned₁ s₁ ∧
      ∃ c₁ hasResult₁, instructions p field limit' c₁ returned₁ hasResult₁ s₁ =
        .ok returned' s' := by
  induction limit generalizing c returned hasResult s with
  | zero =>
      rw [Nat.zero_add] at h
      exact ⟨returned, s, rfl, c, hasResult, h⟩
  | succ limit ih =>
      rw [Nat.succ_add] at h
      cases hmore : c.more with
      | false =>
          rw [instructions_of_not_more hmore] at h
          refine ⟨returned, s, by rw [instructions_of_not_more hmore]; rfl, c, hasResult, ?_⟩
          rw [instructions_of_not_more hmore]
          exact h
      | true =>
          cases returned with
          | true =>
              rw [instructions_of_returned hmore] at h
              cases h
          | false =>
              rw [instructions_succ hmore] at h
              obtain ⟨next, s₁, hone, hrest⟩ := exists_of_bind_ok h
              obtain ⟨returned₂, s₂, hfirst, hsecond⟩ := ih hrest
              refine ⟨returned₂, s₂, ?_, hsecond⟩
              rw [instructions_succ hmore, bind_of_ok hone]
              exact hfirst

end Compile
end InlineCache
