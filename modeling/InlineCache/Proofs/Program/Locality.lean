import InlineCache.Proofs.Program.Typing

/-!
# What a run depends on

A run that reads nothing in some area of memory does not depend on what is there: on two heaps that
differ in the area only, it goes through the same states (`instructions_congr`), reads the same
parts of the heap and loads the same pointers.
-/

namespace InlineCache.Eval

theorem payload_bind {α : Type} (f : UInt64 → Eval α) (x : OperandId) (s : EvalState) :
    (payload x >>= f) s = f (s.operands x.index).payload s := rfl

theorem instruction_guardIsArray [ClassTable] (c : Context) (args : Args Op.guardIsArray.schema)
    (s : EvalState) : instruction c .guardIsArray args s =
      if (s.operands args.1.index).type = .object then
        require (c.hasClass (s.operands args.1.index).payload .array) s
      else none := by
  show (require ((s.operands args.1.index).type == .object) s).bind _ = _
  split
  · next htype =>
      rw [htype]
      rfl
  · next htype =>
      rw [beq_false_of_ne htype]
      rfl

section
variable {c c' : Context} {area : UInt64 → Bool} (hfield : c'.field = c.field)
  (hheap : ∀ x, area x = false → c'.heap x = c.heap x) {s : EvalState}
include hheap

theorem pointer_congr {a : UInt64} {offset : Int32}
    (h : (Span.ofOffset a offset 8).avoids area = true) :
    c'.pointer a offset = c.pointer a offset :=
  Memory.read64_of_avoids hheap h

theorem number_congr {a : UInt64} {offset : Int32}
    (h : (Span.ofOffset a offset 4).avoids area = true) : c'.number a offset = c.number a offset :=
  Memory.read32_of_avoids hheap h

/-- Through the group of an object. -/
theorem group_congr {object : UInt64} {offset : Int32}
    (h : (groupReads c object offset).all (·.avoids area) = true) :
    groupReads c' object offset = groupReads c object offset ∧
      c'.pointer (c'.group object) offset = c.pointer (c.group object) offset := by
  simp only [groupReads, List.all_cons, List.all_nil, Bool.and_true, Bool.and_eq_true] at h
  have hgroup : c'.group object = c.group object := pointer_congr hheap h.1
  rw [groupReads, groupReads, hgroup]
  exact ⟨rfl, pointer_congr hheap h.2⟩

theorem dynamicSlot_congr {object offset : UInt64}
    (h : (slotReads c object offset).all (·.avoids area) = true) :
    slotReads c' object offset = slotReads c object offset ∧
      c'.dynamicSlot object offset = c.dynamicSlot object offset := by
  simp only [slotReads, List.all_cons, List.all_nil, Bool.and_true, Bool.and_eq_true] at h
  have hslots := pointer_congr hheap h.1
  rw [slotReads, slotReads, Context.dynamicSlot, Context.dynamicSlot, hslots,
    Memory.read64_of_avoids hheap h.2]
  exact ⟨rfl, rfl⟩

theorem fixedSlot_congr {object offset : UInt64}
    (h : [Span.mk (object + offset) 8].all (·.avoids area) = true) :
    c'.fixedSlot object offset = c.fixedSlot object offset := by
  simp only [List.all_cons, List.all_nil, Bool.and_true] at h
  rw [Context.fixedSlot, Context.fixedSlot, Memory.read64_of_avoids hheap h]

theorem hasClass_congr [ClassTable] {object : UInt64} {k : ClassKind}
    (h : (groupReads c object Layout.groupClass).all (·.avoids area) = true) :
    c'.hasClass object k = c.hasClass object k := by
  rw [Context.hasClass, Context.hasClass, (group_congr hheap h).2]

include hfield

/-- What an instruction does, reads and loads. -/
theorem instruction_congr [ClassTable] (op : Op) (args : Args op.schema)
    (h : (reads c s op args).all (·.avoids area) = true) :
    instruction c' op args s = instruction c op args s ∧ reads c' s op args = reads c s op args ∧
      loadedPointer? c' s op args = loadedPointer? c s op args := by
  have hrequire : ∀ {b b' : Bool}, b' = b → require b' s = require b s := fun h => by rw [h]
  have hdefine : ∀ {y : OperandId} {v v' : Value}, v' = v → define y v' s = define y v s :=
    fun h => by rw [h]
  have hresult : ∀ {v v' : Value}, v' = v → setResult v' s = setResult v s := fun h => by rw [h]
  have hsame : ∀ index, c'.field index = c.field index := fun index => congrFun hfield index
  cases op with
  | guardIsArray =>
      have hreads : ∀ c, reads c s .guardIsArray args =
          if (s.operands args.1.index).type = .object then
            groupReads c (s.operands args.1.index).payload Layout.groupClass
          else [] := fun _ => rfl
      rw [instruction_guardIsArray, instruction_guardIsArray, hreads, hreads]
      rw [hreads] at h
      split at h
      · next htype =>
          rw [if_pos htype, if_pos htype, if_pos htype, if_pos htype, (group_congr hheap h).1,
            hasClass_congr hheap h]
          exact ⟨rfl, rfl, rfl⟩
      · next htype =>
          rw [if_neg htype, if_neg htype, if_neg htype, if_neg htype]
          exact ⟨rfl, rfl, rfl⟩
  | guardShape =>
      refine ⟨hrequire ?_, rfl, rfl⟩
      have hshape := pointer_congr hheap (List.all_eq_true.mp h _ List.mem_cons_self)
      rw [Context.shape, Context.shape, hshape, hsame]
  | guardGroup =>
      refine ⟨hrequire ?_, rfl, rfl⟩
      have hgroup := pointer_congr hheap (List.all_eq_true.mp h _ List.mem_cons_self)
      rw [Context.group, Context.group, hgroup, hsame]
  | guardClass =>
      exact ⟨hrequire (hasClass_congr hheap h), (group_congr hheap h).1, rfl⟩
  | guardSpecificObject | guardSpecificAtom | guardSpecificSymbol | guardSpecificId =>
      exact ⟨hrequire (by rw [hsame]), rfl, rfl⟩
  | loadObject => exact ⟨hdefine (by rw [hsame]), rfl, congrArg some (hsame _)⟩
  | loadProto =>
      obtain ⟨hgroup, hproto⟩ := group_congr hheap h
      exact ⟨hdefine (congrArg (Value.boxed .object) hproto), hgroup, congrArg some hproto⟩
  | loadFixedSlot =>
      refine ⟨hdefine ?_, congrArg (fun w => [Span.mk (_ + w) 8]) (hsame _), rfl⟩
      rw [hsame]
      exact fixedSlot_congr hheap h
  | loadFixedSlotResult =>
      refine ⟨hresult ?_, congrArg (fun w => [Span.mk (_ + w) 8]) (hsame _), rfl⟩
      rw [hsame]
      exact fixedSlot_congr hheap h
  | loadDynamicSlot =>
      obtain ⟨hslots, hslot⟩ := dynamicSlot_congr hheap h
      rw [← hsame] at hslots hslot
      exact ⟨hdefine (by rw [hslot, hsame]), hslots.trans (by rw [hsame]; rfl), rfl⟩
  | loadDynamicSlotResult =>
      obtain ⟨hslots, hslot⟩ := dynamicSlot_congr hheap h
      rw [← hsame] at hslots hslot
      exact ⟨hresult (by rw [hslot, hsame]), hslots.trans (by rw [hsame]; rfl), rfl⟩
  | loadInt32ArrayLengthResult =>
      have hall := List.all_eq_true.mp h
      have helements := pointer_congr hheap (hall _ List.mem_cons_self)
      have hlength := number_congr hheap (hall _ (List.mem_cons_of_mem _ List.mem_cons_self))
      have harray : c'.arrayLength (s.operands args.1.index).payload =
          c.arrayLength (s.operands args.1.index).payload := by
        rw [Context.arrayLength, Context.arrayLength, helements, hlength]
      have hstep : ∀ c, instruction c .loadInt32ArrayLengthResult args s =
          setInt32Result (c.arrayLength (s.operands args.1.index).payload).toNat s :=
        fun c => payload_bind (fun a => setInt32Result (c.arrayLength a).toNat) args.1 s
      refine ⟨by rw [hstep, hstep, harray], ?_, rfl⟩
      exact congrArg (fun a => [_, Span.ofOffset a Layout.elementsLength 4]) helements
  | loadStringLengthResult =>
      have hlength := number_congr hheap (List.all_eq_true.mp h _ List.mem_cons_self)
      exact ⟨hresult (by rw [Context.stringLength, Context.stringLength, hlength]), rfl, rfl⟩
  | loadValueResult | loadDoubleResult => exact ⟨hresult (by rw [hsame]), rfl, rfl⟩
  | _ => exact ⟨rfl, rfl, rfl⟩

/-- A whole run. -/
theorem instructions_congr [ClassTable] (is : List Instruction)
    (h : readsAvoid c area is s = true) :
    instructions c' is s = instructions c is s ∧ readsAvoid c' area is s = true ∧
      pointersFit c' is s = pointersFit c is s := by
  induction is generalizing s with
  | nil => exact ⟨rfl, rfl, rfl⟩
  | cons i is ih =>
      obtain ⟨hstep, hreads, hloaded⟩ :=
        instruction_congr hfield hheap i.op i.args (throughout_head h)
      rw [readsAvoid, pointersFit, pointersFit, throughout, throughout, throughout, hreads,
        hloaded, hstep, throughout_head h, Bool.true_and]
      have hsteps : ∀ c, instructions c (i :: is) s =
          (instruction c i.op i.args s).bind fun r => instructions c is r.2 := fun _ => rfl
      rw [hsteps, hsteps, hstep]
      cases hs : instruction c i.op i.args s with
      | none => exact ⟨rfl, rfl, rfl⟩
      | some r =>
          obtain ⟨hrest, havoid, hfit⟩ := ih (throughout_tail h hs)
          exact ⟨hrest, havoid, congrArg (_ && ·) hfit⟩

end

theorem readsAvoid_mono [ClassTable] {c : Context} {area area' : UInt64 → Bool}
    (hsub : ∀ x, area' x = true → area x = true) {is : List Instruction} {s : EvalState}
    (h : readsAvoid c area is s = true) : readsAvoid c area' is s = true := by
  refine throughout_mono (fun s op args hreads => ?_) h
  exact List.all_eq_true.mpr fun span hspan =>
    Span.avoids_mono hsub (List.all_eq_true.mp hreads span hspan)

end InlineCache.Eval
