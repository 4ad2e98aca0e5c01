import InlineCache.Proofs.Word.Region
import InlineCache.X64.Assembly
import InlineCache.X64.Machine

/-!
# Running a piece of code

`exec` runs instructions that stand one after the other, with branches still naming labels, until
the last of them is done or control goes elsewhere. It watches an area of memory: an instruction
that dereferences an address in it, other than through the stack pointer, makes the piece `wild`,
and its effect is not followed any further. The area is the part of the stack that a stub uses
for itself, which nothing but its own pushes and pops should touch.

What one instruction does is said once, by a rewrite rule for each. A proof about a snippet then
rewrites its instructions away from left to right.
-/

namespace InlineCache.X64

/-! ## Machines -/

namespace Machine

theorem setReg_self (m : Machine) (r : Register) : m.setReg r (m.reg r) = m := by
  show { m with regs := m.regs.set r.code m.regs[r.code] } = m
  simp

@[simp]
theorem reg_withFlags (m : Machine) (f : Option Flags) (r : Register) :
    ({ m with flags := f } : Machine).reg r = m.reg r := rfl

@[simp]
theorem reg_withMem (m : Machine) (mem : Memory) (r : Register) :
    ({ m with mem := mem } : Machine).reg r = m.reg r := rfl

end Machine

/-! ## Dereferences -/

/-- What an instruction reads through a register other than the stack pointer. -/
def Instr.deref? {τ : Type} (m : Machine) : Instr τ → Option Span
  | .load _ b disp => if b = .rsp then none else some ⟨m.address b disp, 8⟩
  | .load32 _ b disp => if b = .rsp then none else some ⟨m.address b disp, 4⟩
  | .loadIndexed _ b x => some ⟨m.reg b + m.index x, 8⟩
  | .follow disp => some ⟨m.address .rdx disp, 8⟩
  | .cmpMem b disp _ => if b = .rsp then none else some ⟨m.address b disp, 8⟩
  | .jmpStub disp => some ⟨m.address .rdx disp, 8⟩
  | _ => none

/-- Whether an instruction dereferences nothing in an area. -/
def Instr.avoids {τ : Type} (area : UInt64 → Bool) (m : Machine) (i : Instr τ) : Bool :=
  (i.deref? m).all fun s => s.avoids area

/-! ## Branches -/

/-- The target that a branch names. -/
def Instr.target? {τ : Type} : Instr τ → Option τ
  | .jmp t => some t
  | .jcc _ t => some t
  | _ => none

/-- Code without branches. -/
def Straight (c : List (Instr Label)) : Prop :=
  ∀ i ∈ c, i.target? = none

theorem straight_nil : Straight [] := fun _ hi => absurd hi List.not_mem_nil

theorem straight_cons {i : Instr Label} {c : List (Instr Label)} (hi : i.target? = none)
    (hc : Straight c) : Straight (i :: c) := by
  intro j hj
  obtain rfl | hj := List.mem_cons.mp hj
  · exact hi
  · exact hc j hj

theorem Straight.append {c c' : List (Instr Label)} (h : Straight c) (h' : Straight c') :
    Straight (c ++ c') := by
  intro i hi
  obtain hi | hi := List.mem_append.mp hi
  · exact h i hi
  · exact h' i hi

/-- Code that branches only to `l`. -/
def LeadsTo (l : Label) (c : List (Instr Label)) : Prop :=
  ∀ i ∈ c, ∀ t, i.target? = some t → t = l

theorem LeadsTo.append {l : Label} {c c' : List (Instr Label)} (h : LeadsTo l c)
    (h' : LeadsTo l c') : LeadsTo l (c ++ c') := by
  intro i hi
  obtain hi | hi := List.mem_append.mp hi
  · exact h i hi
  · exact h' i hi

theorem Straight.leadsTo {c : List (Instr Label)} (h : Straight c) (l : Label) : LeadsTo l c := by
  intro i hi t ht
  rw [h i hi] at ht
  cases ht

/-! ## Pieces of code -/

/-- Where control is after a piece of code. -/
inductive Exit where
  /-- Behind its last instruction. -/
  | fall (m : Machine)
  | jump (l : Label) (m : Machine)
  | returned (m : Machine)
  | left (target : UInt64) (m : Machine)
  /-- At an instruction that dereferences an address in the area. -/
  | wild
  /-- At an instruction that has no meaning. -/
  | stuck

/-- Goes on behind the last instruction. -/
def Exit.andThen (e : Exit) (f : Machine → Exit) : Exit :=
  match e with
  | .fall m => f m
  | e => e

/-- Runs instructions one after the other. -/
def exec (area : UInt64 → Bool) : List (Instr Label) → Machine → Exit
  | [], m => .fall m
  | i :: is, m =>
    if i.avoids area m then
      match i.exec m with
      | none => .stuck
      | some (m, .next) => exec area is m
      | some (m, .branch l) => .jump l m
      | some (m, .ret) => .returned m
      | some (m, .leave target) => .left target m
    else .wild

section
variable {area : UInt64 → Bool} {m : Machine} {is js : List (Instr Label)}

theorem exec_append : exec area (is ++ js) m = (exec area is m).andThen (exec area js) := by
  induction is generalizing m with
  | nil => rfl
  | cons i is ih =>
      rw [List.cons_append, exec, exec]
      split
      · split <;> first | exact ih | rfl
      · rfl

theorem exec_append_of_fall {m' : Machine} (h : exec area is m = .fall m') :
    exec area (is ++ js) m = exec area js m' := by
  rw [exec_append, h]
  rfl

/-! ## Instructions -/

@[simp]
theorem exec_nil : exec area [] m = .fall m := rfl

/-- Instructions that dereference nothing. -/
theorem exec_cons_of_deref? {i : Instr Label} {m' : Machine} (hd : i.deref? m = none)
    (hx : i.exec m = some (m', .next)) : exec area (i :: is) m = exec area is m' := by
  have ha : i.avoids area m = true := by rw [Instr.avoids, hd]; rfl
  rw [exec, if_pos ha, hx]

@[simp]
theorem exec_push (r : Register) : exec area (.push r :: is) m =
    exec area is (({ m with mem := m.mem.write64 (m.reg .rsp - 8) (m.reg r) } : Machine).setReg
      .rsp (m.reg .rsp - 8)) :=
  exec_cons_of_deref? rfl rfl

@[simp]
theorem exec_pop (r : Register) : exec area (.pop r :: is) m =
    exec area is ((m.setReg .rsp (m.reg .rsp + 8)).setReg r (m.mem.read64 (m.reg .rsp))) :=
  exec_cons_of_deref? rfl rfl

@[simp]
theorem exec_mov (d s : Register) :
    exec area (.mov d s :: is) m = exec area is (m.setReg d (m.reg s)) :=
  exec_cons_of_deref? rfl rfl

@[simp]
theorem exec_mov32 (d s : Register) :
    exec area (.mov32 d s :: is) m = exec area is (m.setReg d (m.reg s).toUInt32.toUInt64) :=
  exec_cons_of_deref? rfl rfl

@[simp]
theorem exec_movImm (d : Register) (w : UInt64) :
    exec area (.movImm d w :: is) m = exec area is (m.setReg d w) :=
  exec_cons_of_deref? rfl rfl

@[simp]
theorem exec_loadStack (d : Register) (disp : Int32) :
    exec area (.load d .rsp disp :: is) m =
      exec area is (m.setReg d (m.mem.read64 (m.address .rsp disp))) :=
  exec_cons_of_deref? rfl rfl

@[simp]
theorem exec_dropStack (n : Int32) : exec area (.dropStack n :: is) m =
    exec area is (({ m with flags := none } : Machine).setReg .rsp (m.address .rsp n)) :=
  exec_cons_of_deref? rfl rfl

@[simp]
theorem exec_shl (r : Register) (n : UInt8) : exec area (.shl r n :: is) m =
    exec area is (({ m with flags := none } : Machine).setReg r (m.reg r <<< n.toUInt64)) :=
  exec_cons_of_deref? rfl rfl

@[simp]
theorem exec_shr (r : Register) (n : UInt8) : exec area (.shr r n :: is) m =
    exec area is (({ m with flags := none } : Machine).setReg r (m.reg r >>> n.toUInt64)) :=
  exec_cons_of_deref? rfl rfl

@[simp]
theorem exec_or (d s : Register) : exec area (.or d s :: is) m =
    exec area is (({ m with flags := none } : Machine).setReg d (m.reg d ||| m.reg s)) :=
  exec_cons_of_deref? rfl rfl

@[simp]
theorem exec_cmp (a b : Register) : exec area (.cmp a b :: is) m =
    exec area is { m with flags := some (.compare64 (m.reg a) (m.reg b)) } :=
  exec_cons_of_deref? rfl rfl

@[simp]
theorem exec_cmp32Imm (r : Register) (imm : Int32) : exec area (.cmp32Imm r imm :: is) m =
    exec area is { m with flags := some (.compare32 (m.reg r).toUInt32 imm.toUInt32) } :=
  exec_cons_of_deref? rfl rfl

@[simp]
theorem exec_test32 (r : Register) : exec area (.test32 r :: is) m =
    exec area is { m with flags := some (.logic32 (m.reg r).toUInt32) } :=
  exec_cons_of_deref? rfl rfl

@[simp]
theorem exec_add32 (d s : Register) : exec area (.add32 d s :: is) m =
    exec area is
      (({ m with flags := some (.add32 (m.reg d).toUInt32 (m.reg s).toUInt32) } : Machine).setReg d
        ((m.reg d).toUInt32 + (m.reg s).toUInt32).toUInt64) :=
  exec_cons_of_deref? rfl rfl

@[simp]
theorem exec_sub32 (d s : Register) : exec area (.sub32 d s :: is) m =
    exec area is
      (({ m with flags := some (.compare32 (m.reg d).toUInt32 (m.reg s).toUInt32) } :
        Machine).setReg d ((m.reg d).toUInt32 - (m.reg s).toUInt32).toUInt64) :=
  exec_cons_of_deref? rfl rfl

@[simp]
theorem exec_jmp (l : Label) : exec area (.jmp l :: is) m = .jump l m := rfl

theorem exec_jcc {f : Flags} (hf : m.flags = some f) (c : Condition) (l : Label) :
    exec area (.jcc c l :: is) m = if f.meets c then .jump l m else exec area is m := by
  have hx : (Instr.jcc c l).exec m = some (m, if f.meets c then .branch l else .next) := by
    rw [Instr.exec, hf]
    rfl
  rw [exec, if_pos (show (Instr.jcc c l).avoids area m = true from rfl), hx]
  by_cases h : f.meets c = true
  · rw [if_pos h, if_pos h]
  · rw [if_neg h, if_neg h]

@[simp]
theorem exec_ret : exec area (.ret :: is) m = .returned m := rfl

/-! ## Instructions that dereference -/

theorem exec_load {d b : Register} {disp : Int32} (hb : b ≠ .rsp) :
    exec area (.load d b disp :: is) m =
      if (Span.mk (m.address b disp) 8).avoids area then
        exec area is (m.setReg d (m.mem.read64 (m.address b disp)))
      else .wild := by
  rw [exec, Instr.avoids, Instr.deref?, if_neg hb]
  rfl

theorem exec_load32 {d b : Register} {disp : Int32} (hb : b ≠ .rsp) :
    exec area (.load32 d b disp :: is) m =
      if (Span.mk (m.address b disp) 4).avoids area then
        exec area is (m.setReg d (m.mem.read32 (m.address b disp)).toUInt64)
      else .wild := by
  rw [exec, Instr.avoids, Instr.deref?, if_neg hb]
  rfl

theorem exec_loadIndexed {d b x : Register} (hx : x ≠ .rsp) :
    exec area (.loadIndexed d b x :: is) m =
      if (Span.mk (m.reg b + m.reg x) 8).avoids area then
        exec area is (m.setReg d (m.mem.read64 (m.reg b + m.reg x)))
      else .wild := by
  have hi : m.index x = m.reg x := by cases x <;> first | exact absurd rfl hx | rfl
  rw [exec, Instr.avoids, Instr.deref?, hi]
  simp only [Option.all_some, Instr.exec, hi]

theorem exec_cmpMem {b s : Register} {disp : Int32} (hb : b ≠ .rsp) :
    exec area (.cmpMem b disp s :: is) m =
      if (Span.mk (m.address b disp) 8).avoids area then
        exec area is
          { m with flags := some (.compare64 (m.mem.read64 (m.address b disp)) (m.reg s)) }
      else .wild := by
  rw [exec, Instr.avoids, Instr.deref?, if_neg hb]
  rfl

theorem exec_follow {disp : Int32} :
    exec area (.follow disp :: is) m =
      if (Span.mk (m.address .rdx disp) 8).avoids area then
        exec area is (m.setReg .rdx (m.mem.read64 (m.address .rdx disp)))
      else .wild := rfl

theorem exec_jmpStub {disp : Int32} :
    exec area (.jmpStub disp :: is) m =
      if (Span.mk (m.address .rdx disp) 8).avoids area then
        .left (m.mem.read64 (m.address .rdx disp)) m
      else .wild := rfl

end
end InlineCache.X64
