import InlineCache.Codegen.Instruction
import InlineCache.Proofs.X64.Exec

/-!
# Steps of code generation

The operations of the allocator are made of a few steps. They look at the allocator and change it,
write code that neither branches nor pushes, push a register and bring back what was pushed. A
judgement on computations that has these steps and is kept by sequences (`Gen.Closed`) has all
operations of the allocator. It comes with a number, which counts pushes: whoever asks for a
register may have to push one word.
-/

namespace InlineCache

open X64

def X64.Instr.isPush {τ : Type} : Instr τ → Bool
  | .push _ => true
  | _ => false

namespace Snippet

/-- Whether the code neither branches nor pushes. -/
def quiet (c : Code) : Bool :=
  c.all fun i => i.target?.isNone && !i.isPush

theorem quiet_append (c c' : Code) : quiet (c ++ c') = (quiet c && quiet c') :=
  List.all_append

theorem quiet_move (dest src : Register) : quiet (move dest src) = true := by
  rw [move]
  split <;> rfl

theorem quiet_unbox {src dest : Register} {t : ValueType} {c : Code}
    (h : unbox src dest t = .ok c) : quiet c = true := by
  cases t <;> cases h <;> first | rfl | rw [quiet_append, quiet_move]; rfl

theorem quiet_tag {payload dest : Register} {t : ValueType} {c : Code}
    (h : tag t payload dest = .ok c) : quiet c = true := by
  cases t <;> cases h <;> first | rfl | rw [quiet_append, quiet_move]; rfl

end Snippet

namespace Gen

/-- The judgement has the steps that the allocator is made of, and sequences keep it. -/
structure Closed (P : {α : Type} → Nat → Gen α → Prop) : Prop where
  pure {α : Type} (a : α) : P 0 (Pure.pure a)
  throw {α : Type} (err : EmitError) : P 0 (MonadExcept.throw err : Gen α)
  bind {α β : Type} {n k : Nat} {x : Gen α} {f : α → Gen β} :
    P n x → (∀ a, P k (f a)) → P (n + k) (x >>= f)
  mono {α : Type} {n k : Nat} {g : Gen α} : P n g → n ≤ k → P k g
  allocator : P 0 Gen.allocator
  modifyAllocator (f : Allocator → Allocator) : P 0 (Gen.modifyAllocator f)
  code {c : Snippet.Code} : Snippet.quiet c = true → P 0 (Gen.code c)
  pushCode (r : Register) : P 1 (Gen.code [.push r])
  pushed (depth : Nat) : P 0 (Gen.emit (Emit.pushed depth))
  reloaded (dest : Register) (offset depth : Nat) :
    P 0 (Gen.emit (Emit.reload dest offset depth))

namespace Closed

variable {P : {α : Type} → Nat → Gen α → Prop} {α β : Type} {n : Nat} (h : Closed P)
include h

/-- Something that pushes nothing comes first. -/
theorem after {x : Gen α} {f : α → Gen β} (hx : P 0 x) (hf : ∀ a, P n (f a)) : P n (x >>= f) := by
  have hbind := h.bind hx hf
  rwa [Nat.zero_add] at hbind

/-- Something that pushes nothing comes last. -/
theorem andThen {x : Gen α} {f : α → Gen β} (hx : P n x) (hf : ∀ a, P 0 (f a)) : P n (x >>= f) :=
  h.bind hx hf

theorem free {g : Gen α} (hg : P 0 g) : P n g :=
  h.mono hg (Nat.zero_le n)

theorem code? {c : Except EmitError Snippet.Code}
    (hc : ∀ c', c = .ok c' → Snippet.quiet c' = true) : P 0 (Gen.code? c) := by
  cases c with
  | error err => exact h.throw err
  | ok c => exact h.code (hc c rfl)

/-! ## The stack -/

theorem place (i : Nat) : P 0 (Gen.place i) := by
  refine h.after h.allocator fun a => ?_
  cases a.places[i]? with
  | none => exact h.throw _
  | some p => exact h.pure p

theorem setPlace (i : Nat) (p : Place) : P 0 (Gen.setPlace i p) := by
  refine h.after h.allocator fun a => ?_
  split
  · exact h.modifyAllocator _
  · exact h.throw _

theorem push (r : Register) : P 1 (Gen.push r) :=
  h.andThen (h.pushCode r) fun _ => h.after h.allocator fun _ => h.after (h.pushed _) fun _ =>
    h.modifyAllocator _

theorem reload (dest : Register) (offset : Nat) : P 0 (Gen.reload dest offset) :=
  h.after h.allocator fun _ => h.after (h.reloaded _ _ _) fun _ => h.modifyAllocator _

theorem spill (i : Nat) : P 1 (Gen.spill i) := by
  refine h.after (h.place i) fun p => ?_
  cases p with
  | payloadReg r t =>
      exact h.andThen (h.push r) fun _ => h.after h.allocator fun _ =>
        h.after (h.setPlace i _) fun _ => h.modifyAllocator _
  | valueReg r =>
      exact h.andThen (h.push r) fun _ => h.after h.allocator fun _ =>
        h.after (h.setPlace i _) fun _ => h.modifyAllocator _
  | _ => exact h.free (h.throw _)

theorem discardStack : P 0 Gen.discardStack := by
  refine h.after (h.modifyAllocator _) fun _ => h.after h.allocator fun a => ?_
  dsimp only
  split
  · exact h.after (h.code rfl) fun _ => h.modifyAllocator _
  · exact h.pure ()

/-! ## Registers -/

theorem makeRoom : P 1 Gen.makeRoom := by
  refine h.after h.allocator fun a => ?_
  split
  · cases a.victim? with
    | none => exact h.free (h.pure ())
    | some i => exact h.spill i
  · exact h.free (h.pure ())

theorem takeHighest : P 0 Gen.takeHighest := by
  refine h.after h.allocator fun a => ?_
  cases a.available.takeHighest? with
  | none => exact h.throw _
  | some x => exact h.after (h.modifyAllocator _) fun _ => h.pure _

theorem allocate : P 1 Gen.allocate :=
  h.after (h.modifyAllocator _) fun _ => h.andThen h.makeRoom fun _ => h.takeHighest

theorem vacate (r : Register) : P 1 (Gen.vacate r) := by
  refine h.after h.allocator fun a => ?_
  split
  · exact h.free (h.pure ())
  · split
    · exact h.free (h.throw _)
    · cases a.occupant? r with
      | none => exact h.free (h.throw _)
      | some i => exact h.spill i

theorem allocateFixed (r : Register) : P 1 (Gen.allocateFixed r) :=
  h.after (h.modifyAllocator _) fun _ => h.andThen (h.vacate r) fun _ => h.modifyAllocator _

theorem release (r : Register) : P 0 (Gen.release r) := by
  refine h.after h.allocator fun a => ?_
  split
  · exact h.after (h.throw _) fun _ => h.modifyAllocator _
  · exact h.modifyAllocator _

/-! ## Operands -/

theorem tag (t : ValueType) (payload dest : Register) :
    P 0 (Gen.code? (Snippet.tag t payload dest)) :=
  h.code? fun _ => Snippet.quiet_tag

theorem unbox (src dest : Register) (t : ValueType) :
    P 0 (Gen.code? (Snippet.unbox src dest t)) :=
  h.code? fun _ => Snippet.quiet_unbox

/-- A register is asked for and something is brought into it, which then is an operand. -/
theorem bring {i : Nat} {p : Register → Place} {load : Register → Gen Unit}
    (hload : ∀ r, P 0 (load r)) :
    P 1 (do
      let r ← Gen.allocate
      load r
      Gen.setPlace i (p r)
      return r) :=
  h.andThen h.allocate fun r => h.after (hload r) fun _ => h.after (h.setPlace i _) fun _ =>
    h.pure r

theorem useValue (i : Nat) : P 1 (Gen.useValue i) := by
  refine h.after (h.place i) fun p => ?_
  cases p with
  | valueReg r => exact h.free (h.after (h.modifyAllocator _) fun _ => h.pure r)
  | valueStack o => exact h.bring fun r => h.reload r o
  | payloadReg r t =>
      exact h.free (h.after (h.tag t r r) fun _ => h.after (h.modifyAllocator _) fun _ =>
        h.after (h.setPlace i _) fun _ => h.pure r)
  | payloadStack o t =>
      exact h.andThen h.allocate fun r => h.after (h.reload r o) fun _ =>
        h.after (h.tag t r r) fun _ => h.after (h.setPlace i _) fun _ => h.pure r
  | constant v => exact h.bring fun r => h.code rfl
  | uninitialized => exact h.free (h.throw _)

theorem retype (r : Register) (known wanted : ValueType) : P 0 (Gen.retype r known wanted) := by
  rw [Gen.retype]
  split
  · exact h.after (h.tag known r r) fun _ => h.unbox r r wanted
  · exact h.pure ()

theorem usePayload (i : Nat) (t : ValueType) : P 1 (Gen.usePayload i t) := by
  refine h.after (h.place i) fun p => ?_
  cases p with
  | payloadReg r known =>
      refine h.free (h.after (h.retype r known t) fun _ => ?_)
      split
      · exact h.after (h.setPlace i _) fun _ => h.after (h.modifyAllocator _) fun _ => h.pure r
      · exact h.after (h.modifyAllocator _) fun _ => h.pure r
  | valueReg r =>
      exact h.free (h.after (h.unbox r r t) fun _ => h.after (h.modifyAllocator _) fun _ =>
        h.after (h.setPlace i _) fun _ => h.pure r)
  | payloadStack o known =>
      exact h.andThen h.allocate fun r => h.after (h.reload r o) fun _ =>
        h.after (h.retype r known t) fun _ => h.after (h.setPlace i _) fun _ => h.pure r
  | valueStack o =>
      exact h.andThen h.allocate fun r => h.after (h.reload r o) fun _ =>
        h.after (h.unbox r r t) fun _ => h.after (h.setPlace i _) fun _ => h.pure r
  | constant v => exact h.bring fun r => h.code rfl
  | uninitialized => exact h.free (h.throw _)

theorem defineAt (i : Nat) (p : Register → Place) : P 1 (Gen.defineAt i p) := by
  refine h.after (h.place i) fun q => ?_
  split
  · exact h.after (h.throw _) fun _ => h.andThen h.allocate fun r =>
      h.after (h.setPlace i _) fun _ => h.pure r
  · exact h.andThen h.allocate fun r => h.after (h.setPlace i _) fun _ => h.pure r

theorem readSlot (dest object scratch : Register) (field : Int32) (dynamic : Bool) :
    P 0 (Gen.readSlot dest object scratch field dynamic) := by
  refine h.after (h.code rfl) fun _ => ?_
  split
  · exact h.code rfl
  · exact h.code rfl

end Closed
end Gen
end InlineCache
