import InlineCache.Program.Eval
import InlineCache.Proofs.Value.Boxing
import InlineCache.Proofs.Word.Region

/-!
# Well typed programs

Some operations take an operand to be an object, a string, a symbol or an `int32` without looking.
A program is well typed if each such use comes after an instruction that settles the type: a guard
on the operand, or the load that defines it.

What a run looks at depends on the heap. `Eval.reads` are the parts of it that one operation reads,
`Eval.loadedPointer?` is the pointer that it makes an operand of, and `Eval.throughout` tests
every instruction that a run comes to.
-/

namespace InlineCache

namespace Instruction

/-- The operands that an operation takes to be of a type. -/
def typedUses : (op : Op) → Args op.schema → List (OperandId × ValueType)
  | .guardShape, (x, _) => [(x, .object)]
  | .guardGroup, (x, _) => [(x, .object)]
  | .guardClass, (x, _) => [(x, .object)]
  | .guardSpecificObject, (x, _) => [(x, .object)]
  | .guardSpecificAtom, (x, _) => [(x, .string)]
  | .guardSpecificSymbol, (x, _) => [(x, .symbol)]
  | .guardSpecificId, (x, _) => [(x, .string)]
  | .loadProto, (x, _) => [(x, .object)]
  | .loadFixedSlot, (x, _) => [(x, .object)]
  | .loadDynamicSlot, (x, _) => [(x, .object)]
  | .loadFixedSlotResult, (x, _) => [(x, .object)]
  | .loadDynamicSlotResult, (x, _) => [(x, .object)]
  | .loadInt32ArrayLengthResult, (x, _) => [(x, .object)]
  | .loadStringLengthResult, (x, _) => [(x, .string)]
  | .int32AddResult, (x, y, _) => [(x, .int32), (y, .int32)]
  | .int32SubResult, (x, y, _) => [(x, .int32), (y, .int32)]
  | _, _ => []

/-- The types of operands that an operation settles. -/
def settledTypes : (op : Op) → Args op.schema → List (OperandId × ValueType)
  | .guardIsObject, (x, _) => [(x, .object)]
  | .guardIsArray, (x, _) => [(x, .object)]
  | .guardIsString, (x, _) => [(x, .string)]
  | .guardIsSymbol, (x, _) => [(x, .symbol)]
  | .guardIsInt32, (x, _) => [(x, .int32)]
  | .loadObject, (y, _) => [(y, .object)]
  | .loadProto, (_, y, _) => [(y, .object)]
  | .loadInt32Constant, (y, _) => [(y, .int32)]
  | _, _ => []

/-- Each use of an operand at a type comes after an instruction that settles the type. Given are
the types that were settled before. -/
def WellTypedFrom (settled : List (OperandId × ValueType)) : List Instruction → Prop
  | [] => True
  | i :: is => (∀ u ∈ typedUses i.op i.args, u ∈ settled) ∧
      WellTypedFrom (settledTypes i.op i.args ++ settled) is

def WellTyped (is : List Instruction) : Prop :=
  WellTypedFrom [] is

instance decidableWellTypedFrom : (settled : List (OperandId × ValueType)) →
    (is : List Instruction) → Decidable (WellTypedFrom settled is)
  | _, [] => isTrue trivial
  | settled, i :: is =>
    have := decidableWellTypedFrom (settledTypes i.op i.args ++ settled) is
    inferInstanceAs (Decidable (_ ∧ _))

instance (is : List Instruction) : Decidable (WellTyped is) :=
  decidableWellTypedFrom [] is

theorem WellTypedFrom.exists_settled {settled : List (OperandId × ValueType)}
    {before after : List Instruction} {i : Instruction}
    (h : WellTypedFrom settled (before ++ i :: after)) {u : OperandId × ValueType}
    (hu : u ∈ typedUses i.op i.args) :
    u ∈ settled ∨ ∃ j ∈ before, u ∈ settledTypes j.op j.args := by
  induction before generalizing settled with
  | nil => exact .inl (h.1 u hu)
  | cons j before ih =>
      obtain hsettled | ⟨k, hk, hsettled⟩ := ih h.2
      · obtain hj | hsettled := List.mem_append.mp hsettled
        · exact .inr ⟨j, List.mem_cons_self, hj⟩
        · exact .inl hsettled
      · exact .inr ⟨k, List.mem_cons_of_mem _ hk, hsettled⟩

theorem WellTyped.exists_settled {before after : List Instruction} {i : Instruction}
    (h : WellTyped (before ++ i :: after)) {u : OperandId × ValueType}
    (hu : u ∈ typedUses i.op i.args) : ∃ j ∈ before, u ∈ settledTypes j.op j.args :=
  (WellTypedFrom.exists_settled h hu).resolve_left List.not_mem_nil

end Instruction

/-- Where a run on these inputs starts. -/
def EvalState.start (inputs : List Value) : EvalState where
  operands i := inputs.getD i .undefined
  result := none

namespace Eval

theorem result?_eq [ClassTable] (c : Context) (inputs : List Value) (is : List Instruction) :
    result? c inputs is = (instructions c is (.start inputs)).bind fun r => r.2.result := rfl

/-- The pointer that an operation loads into an operand. -/
def loadedPointer? (c : Context) (s : EvalState) : (op : Op) → Args op.schema → Option UInt64
  | .loadObject, (_, i, _) => some (c.field i)
  | .loadProto, (x, _) => some (c.proto (s.operands x.index).payload)
  | _, _ => none

/-- The group of an object, and something that the group has. -/
def groupReads (c : Context) (object : UInt64) (offset : Int32) : List Span :=
  [.ofOffset object Layout.objectGroup 8, .ofOffset (c.group object) offset 8]

/-- The dynamic slots of an object, and one of them. -/
def slotReads (c : Context) (object offset : UInt64) : List Span :=
  [.ofOffset object Layout.objectSlots 8, ⟨c.pointer object Layout.objectSlots + offset, 8⟩]

/-- The parts of the heap that an operation reads. -/
def reads (c : Context) (s : EvalState) : (op : Op) → Args op.schema → List Span
  | .guardIsArray, (x, _) =>
    if (s.operands x.index).type = .object then
      groupReads c (s.operands x.index).payload Layout.groupClass
    else []
  | .guardShape, (x, _) => [.ofOffset (s.operands x.index).payload Layout.objectShape 8]
  | .guardGroup, (x, _) => [.ofOffset (s.operands x.index).payload Layout.objectGroup 8]
  | .guardClass, (x, _) => groupReads c (s.operands x.index).payload Layout.groupClass
  | .loadProto, (x, _) => groupReads c (s.operands x.index).payload Layout.groupProto
  | .loadFixedSlot, (x, i, _) => [⟨(s.operands x.index).payload + c.field i, 8⟩]
  | .loadFixedSlotResult, (x, i, _) => [⟨(s.operands x.index).payload + c.field i, 8⟩]
  | .loadDynamicSlot, (x, i, _) => slotReads c (s.operands x.index).payload (c.field i)
  | .loadDynamicSlotResult, (x, i, _) => slotReads c (s.operands x.index).payload (c.field i)
  | .loadInt32ArrayLengthResult, (x, _) =>
    [.ofOffset (s.operands x.index).payload Layout.objectElements 8,
      .ofOffset (c.pointer (s.operands x.index).payload Layout.objectElements) Layout.elementsLength 4]
  | .loadStringLengthResult, (x, _) => [.ofOffset (s.operands x.index).payload Layout.stringLength 4]
  | _, _ => []

/-- Whether every instruction that a run comes to meets a condition. -/
def throughout [ClassTable] (c : Context) (P : EvalState → (op : Op) → Args op.schema → Bool) :
    List Instruction → EvalState → Bool
  | [], _ => true
  | i :: is, s => P s i.op i.args &&
      match instruction c i.op i.args s with
      | some ((), s') => throughout c P is s'
      | none => true

section
variable {c : Context} {P : EvalState → (op : Op) → Args op.schema → Bool} {i : Instruction}
  {is : List Instruction} {s s' : EvalState}

theorem throughout_head [ClassTable] (h : throughout c P (i :: is) s = true) :
    P s i.op i.args = true :=
  (Bool.and_eq_true_iff.mp h).1

theorem throughout_tail [ClassTable] (h : throughout c P (i :: is) s = true)
    (hs : instruction c i.op i.args s = some ((), s')) : throughout c P is s' = true := by
  have htail := (Bool.and_eq_true_iff.mp h).2
  rw [hs] at htail
  exact htail

theorem throughout_mono [ClassTable] {Q : EvalState → (op : Op) → Args op.schema → Bool}
    (hPQ : ∀ s op args, P s op args = true → Q s op args = true)
    (h : throughout c P is s = true) : throughout c Q is s = true := by
  induction is generalizing s with
  | nil => rfl
  | cons i is ih =>
      rw [throughout, hPQ _ _ _ (throughout_head h), Bool.true_and]
      split
      · next hs => exact ih (throughout_tail h hs)
      · rfl

theorem throughout_of_forall [ClassTable] (h : ∀ s op args, P s op args = true)
    (is : List Instruction) (s : EvalState) : throughout c P is s = true := by
  induction is generalizing s with
  | nil => rfl
  | cons i is ih =>
      rw [throughout, h, Bool.true_and]
      split
      · exact ih _
      · rfl

end

/-- Whether a run reads nothing in an area. -/
def readsAvoid [ClassTable] (c : Context) (area : UInt64 → Bool) :
    List Instruction → EvalState → Bool :=
  throughout c fun s op args => (reads c s op args).all (·.avoids area)

/-- Whether every pointer that a run makes an operand of fits below a tag. -/
def pointersFit [ClassTable] (c : Context) : List Instruction → EvalState → Bool :=
  throughout c fun s op args => (loadedPointer? c s op args).all (· < 0x800000000000)

/-! ## What a successful step has done -/

/-- A success adds a result if the flag says so, and else leaves the result alone. -/
def Yields {α : Type} (adds : Bool) (y : Eval α) : Prop :=
  ∀ s a s', y s = some (a, s') → s'.result.isSome = (s.result.isSome || adds)

namespace Yields

theorem bind {α β : Type} {adds adds' : Bool} {y : Eval α} {f : α → Eval β} (hy : Yields adds y)
    (hf : ∀ a, Yields adds' (f a)) : Yields (adds || adds') (y >>= f) := by
  intro s b s' h
  obtain ⟨⟨a, s₁⟩, h₁, h₂⟩ := Option.bind_eq_some_iff.mp h
  rw [hf a _ _ _ h₂, hy _ _ _ h₁, Bool.or_assoc]

/-- A computation that only looks. -/
theorem look {α : Type} {y : Eval α} (h : ∀ s, ∃ a, y s = some (a, s)) : Yields false y := by
  intro s a s' hs
  obtain ⟨a', ha⟩ := h s
  cases ha.symm.trans hs
  exact (Bool.or_false _).symm

theorem operand (x : OperandId) : Yields false (Eval.operand x) :=
  look fun _ => ⟨_, rfl⟩

theorem payload (x : OperandId) : Yields false (Eval.payload x) :=
  look fun _ => ⟨_, rfl⟩

theorem integer (x : OperandId) : Yields false (Eval.integer x) :=
  look fun _ => ⟨_, rfl⟩

theorem require (ok : Bool) : Yields false (Eval.require ok) := by
  intro s a s' h
  cases ok with
  | true =>
      cases h
      exact (Bool.or_false _).symm
  | false => cases h

theorem define (y : OperandId) (v : Value) : Yields false (Eval.define y v) := by
  intro s a s' h
  cases h
  exact (Bool.or_false _).symm

theorem setResult (v : Value) : Yields true (Eval.setResult v) := by
  intro s a s' h
  cases h
  exact (Bool.or_true _).symm

theorem setInt32Result (i : Int) : Yields true (Eval.setInt32Result i) :=
  (Yields.require _).bind fun _ => .setResult _

theorem guardType (x : OperandId) (t : ValueType) : Yields false (Eval.guardType x t) :=
  (Yields.operand x).bind fun _ => .require _

theorem guardSpecific (c : Context) (x : OperandId) (i : Nat) :
    Yields false (Eval.guardSpecific c x i) :=
  (Yields.payload x).bind fun _ => .require _

/-- Operations with a result yield one. -/
theorem instruction [ClassTable] (c : Context) (op : Op) (args : Args op.schema) :
    Yields op.isResult (Eval.instruction c op args) := by
  cases op with
  | guardIsObject => exact .guardType _ _
  | guardIsString => exact .guardType _ _
  | guardIsSymbol => exact .guardType _ _
  | guardIsInt32 => exact .guardType _ _
  | guardIsNumber => exact (Yields.operand _).bind fun _ => .require _
  | guardIsArray =>
      exact (Yields.guardType _ _).bind fun _ => (Yields.payload _).bind fun _ => .require _
  | guardShape => exact (Yields.payload _).bind fun _ => .require _
  | guardGroup => exact (Yields.payload _).bind fun _ => .require _
  | guardClass => exact (Yields.payload _).bind fun _ => .require _
  | guardSpecificObject => exact .guardSpecific _ _ _
  | guardSpecificAtom => exact .guardSpecific _ _ _
  | guardSpecificSymbol => exact .guardSpecific _ _ _
  | guardSpecificId => exact .guardSpecific _ _ _
  | loadObject => exact .define _ _
  | loadProto => exact (Yields.payload _).bind fun _ => .define _ _
  | loadFixedSlot => exact (Yields.payload _).bind fun _ => .define _ _
  | loadDynamicSlot => exact (Yields.payload _).bind fun _ => .define _ _
  | loadInt32Constant => exact .define _ _
  | loadFixedSlotResult => exact (Yields.payload _).bind fun _ => .setResult _
  | loadDynamicSlotResult => exact (Yields.payload _).bind fun _ => .setResult _
  | loadInt32ArrayLengthResult => exact (Yields.payload _).bind fun _ => .setInt32Result _
  | loadStringLengthResult => exact (Yields.payload _).bind fun _ => .setResult _
  | loadUndefinedResult => exact .setResult _
  | loadBooleanResult => exact .setResult _
  | loadValueResult => exact .setResult _
  | loadDoubleResult => exact .setResult _
  | loadOperandResult => exact (Yields.operand _).bind fun _ => .setResult _
  | int32AddResult =>
      exact (Yields.integer _).bind fun _ => (Yields.integer _).bind fun _ => .setInt32Result _
  | int32SubResult =>
      exact (Yields.integer _).bind fun _ => (Yields.integer _).bind fun _ => .setInt32Result _
  | returnFromIC => exact .require true

theorem instructions [ClassTable] (c : Context) (is : List Instruction) :
    Yields (is.any fun i => i.op.isResult) (Eval.instructions c is) := by
  induction is with
  | nil => exact .require true
  | cons i is ih => exact (Yields.instruction c i.op i.args).bind fun _ => ih

end Yields

theorem of_require {ok : Bool} {s s' : EvalState} (h : require ok s = some ((), s')) :
    ok = true ∧ s' = s := by
  cases ok with
  | true =>
      cases h
      exact ⟨rfl, rfl⟩
  | false => cases h

/-- A guard that held. -/
theorem of_guardType {x : OperandId} {t : ValueType} {s s' : EvalState}
    (h : guardType x t s = some ((), s')) : (s'.operands x.index).type = t := by
  have hguard : require ((s.operands x.index).type == t) s = some ((), s') := h
  obtain ⟨htype, rfl⟩ := of_require hguard
  exact beq_iff_eq.mp htype

/-- An operand that was defined. -/
theorem of_define {y : OperandId} {v : Value} {s s' : EvalState}
    (h : define y v s = some ((), s')) : (s'.operands y.index).type = v.type := by
  cases h
  simp

/-- The types that an operation settles hold after it. -/
theorem type_of_settled [ClassTable] {c : Context} {op : Op} {args : Args op.schema}
    {s s' : EvalState} (h : instruction c op args s = some ((), s'))
    (hfit : (loadedPointer? c s op args).all (· < 0x800000000000) = true) {x : OperandId}
    {t : ValueType} (hx : (x, t) ∈ Instruction.settledTypes op args) :
    (s'.operands x.index).type = t := by
  have hpointer : ∀ {w : UInt64}, w < 0x800000000000 → (Value.boxed .object w).type = .object :=
    fun hw => Value.type_boxed (UInt64.lt_iff_toNat_lt.mp hw)
  cases op with
  | guardIsObject => cases List.mem_singleton.mp hx; exact of_guardType h
  | guardIsString => cases List.mem_singleton.mp hx; exact of_guardType h
  | guardIsSymbol => cases List.mem_singleton.mp hx; exact of_guardType h
  | guardIsInt32 => cases List.mem_singleton.mp hx; exact of_guardType h
  | guardIsArray =>
      cases List.mem_singleton.mp hx
      obtain ⟨⟨_, s₁⟩, hguard, hclass⟩ := Option.bind_eq_some_iff.mp h
      obtain ⟨-, rfl⟩ := of_require hclass
      exact of_guardType hguard
  | loadObject =>
      cases List.mem_singleton.mp hx
      exact (of_define h).trans (hpointer (of_decide_eq_true hfit))
  | loadProto =>
      cases List.mem_singleton.mp hx
      exact (of_define h).trans (hpointer (of_decide_eq_true hfit))
  | loadInt32Constant =>
      cases List.mem_singleton.mp hx
      exact (of_define h).trans (Value.type_ofInt32 _)
  | _ => cases hx

end Eval
end InlineCache
