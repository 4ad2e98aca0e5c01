import InlineCache.Proofs.Codegen.Snippet
import InlineCache.Proofs.Codegen.Virtual

/-!
# Machines that hold virtual registers

A machine realizes virtual registers if every place holds what the virtual register of its operand
contains, the stack pointer is at the depth that is known at compile time, and memory outside the
stub's part of the stack is as it was when the stub was entered. The relation takes the places as
a function, so that it serves the allocator in the middle of a program and the snapshot of a
bailout alike.

The lemmas say what keeps the relation: writing registers that no place is in, pushing a register,
bringing a word back, and giving an operand a new place.
-/

namespace InlineCache

open X64

namespace Place

/-- The stack slot that the place occupies. -/
def slot? : Place → Option Nat
  | .payloadStack offset _ => some offset
  | .valueStack offset => some offset
  | _ => none

/-- The type of the payload, if the place holds a bare payload. -/
def payloadType? : Place → Option ValueType
  | .payloadReg _ t => some t
  | .payloadStack _ t => some t
  | _ => none

/-- What a machine with this stack has in a place. -/
def content? (top : UInt64) (m : Machine) : Place → Option Content
  | .uninitialized => none
  | .payloadReg r t => some (.payload t (m.reg r))
  | .valueReg r => some (.boxed (m.reg r))
  | .payloadStack offset t => some (.payload t (m.mem.read64 (Memory.slot top offset)))
  | .valueStack offset => some (.boxed (m.mem.read64 (Memory.slot top offset)))
  | .constant v => some (.constant v)

/-- The place of an operand whose register was pushed. -/
def pushed (offset : Nat) : Place → Place
  | .payloadReg _ t => .payloadStack offset t
  | .valueReg _ => .valueStack offset
  | p => p

variable {top : UInt64} {m m' : Machine} {p : Place}

theorem content?_congr (hreg : ∀ r, p.register? = some r → m'.reg r = m.reg r)
    (hslot : ∀ o, p.slot? = some o →
      m'.mem.read64 (Memory.slot top o) = m.mem.read64 (Memory.slot top o)) :
    p.content? top m' = p.content? top m := by
  cases p with
  | payloadReg r t => rw [content?, content?, hreg r rfl]
  | valueReg r => rw [content?, content?, hreg r rfl]
  | payloadStack o t => rw [content?, content?, hslot o rfl]
  | valueStack o => rw [content?, content?, hslot o rfl]
  | _ => rfl

theorem content?_pushed {r : Register} {o : Nat} (hp : p.register? = some r)
    (h : m'.mem.read64 (Memory.slot top o) = m.reg r) :
    (p.pushed o).content? top m' = p.content? top m := by
  cases p with
  | payloadReg r' t =>
      cases hp
      rw [pushed, content?, content?, h]
  | valueReg r' =>
      cases hp
      rw [pushed, content?, content?, h]
  | _ => cases hp

theorem register?_pushed {o : Nat} : (p.pushed o).register? = none := by
  cases p <;> rfl

theorem slot?_pushed {r : Register} {o : Nat} (hp : p.register? = some r) :
    (p.pushed o).slot? = some o := by
  cases p <;> first | rfl | cases hp

theorem payloadType?_pushed {o : Nat} : (p.pushed o).payloadType? = p.payloadType? := by
  cases p <;> rfl

end Place

/-- Where operands are, in registers and on a stack of some depth, without overlap. -/
structure Arranged (place : Nat → Place) (depth : Nat) : Prop where
  register : ∀ {i j r}, (place i).register? = some r → (place j).register? = some r → i = j
  usable : ∀ {i r}, (place i).register? = some r → r ≠ .rsp ∧ r ≠ scratchRegister
  slot : ∀ {i o}, (place i).slot? = some o → 8 ≤ o ∧ o ≤ depth
  apart : ∀ {i j o o'}, (place i).slot? = some o → (place j).slot? = some o' → i ≠ j →
    o + 8 ≤ o' ∨ o' + 8 ≤ o
  boxable : ∀ {i t}, (place i).payloadType? = some t → t.isBoxable = true

namespace Arranged

variable {place : Nat → Place} {depth : Nat}

theorem setAt (h : Arranged place depth) {i : Nat} {p : Place} {depth' : Nat}
    (hreg : ∀ r, p.register? = some r →
      (r ≠ .rsp ∧ r ≠ scratchRegister) ∧ ∀ j, j ≠ i → (place j).register? ≠ some r)
    (hslot : ∀ o, p.slot? = some o → (8 ≤ o ∧ o ≤ depth') ∧
      ∀ j o', j ≠ i → (place j).slot? = some o' → o' + 8 ≤ o)
    (hbox : ∀ t, p.payloadType? = some t → t.isBoxable = true)
    (hdepth : ∀ j o, j ≠ i → (place j).slot? = some o → o ≤ depth') :
    Arranged (setAt place i p) depth' where
  register {j k r} hj hk := by
    by_cases hji : j = i <;> by_cases hki : k = i
    · rw [hji, hki]
    · rw [hji, setAt_self] at hj
      rw [setAt_of_ne _ _ hki] at hk
      exact absurd hk ((hreg r hj).2 k hki)
    · rw [hki, setAt_self] at hk
      rw [setAt_of_ne _ _ hji] at hj
      exact absurd hj ((hreg r hk).2 j hji)
    · rw [setAt_of_ne _ _ hji] at hj
      rw [setAt_of_ne _ _ hki] at hk
      exact h.register hj hk
  usable {j r} hj := by
    by_cases hji : j = i
    · rw [hji, setAt_self] at hj
      exact (hreg r hj).1
    · rw [setAt_of_ne _ _ hji] at hj
      exact h.usable hj
  slot {j o} hj := by
    by_cases hji : j = i
    · rw [hji, setAt_self] at hj
      exact (hslot o hj).1
    · rw [setAt_of_ne _ _ hji] at hj
      exact ⟨(h.slot hj).1, hdepth j o hji hj⟩
  apart {j k o o'} hj hk hjk := by
    by_cases hji : j = i <;> by_cases hki : k = i
    · exact absurd (hji.trans hki.symm) hjk
    · rw [hji, setAt_self] at hj
      rw [setAt_of_ne _ _ hki] at hk
      exact .inr ((hslot o hj).2 k o' hki hk)
    · rw [hki, setAt_self] at hk
      rw [setAt_of_ne _ _ hji] at hj
      exact .inl ((hslot o' hk).2 j o hji hj)
    · rw [setAt_of_ne _ _ hji] at hj
      rw [setAt_of_ne _ _ hki] at hk
      exact h.apart hj hk hjk
  boxable {j t} hj := by
    by_cases hji : j = i
    · rw [hji, setAt_self] at hj
      exact hbox t hj
    · rw [setAt_of_ne _ _ hji] at hj
      exact h.boxable hj

theorem push (h : Arranged place depth) {i : Nat} {r : Register}
    (hi : (place i).register? = some r) :
    Arranged (InlineCache.setAt place i ((place i).pushed (depth + 8))) (depth + 8) := by
  refine h.setAt (fun s hs => ?_) (fun o ho => ?_) (fun t ht => ?_) fun j o _ hj => ?_
  · rw [Place.register?_pushed] at hs
    cases hs
  · rw [Place.slot?_pushed hi] at ho
    cases ho
    refine ⟨by omega, fun j o' _ hj => ?_⟩
    have := (h.slot hj).2
    omega
  · rw [Place.payloadType?_pushed] at ht
    exact h.boxable ht
  · have := (h.slot hj).2
    omega

theorem forget (h : Arranged place depth) {place' : Nat → Place}
    (hp : ∀ i, place' i = place i ∨ place' i = .uninitialized) : Arranged place' depth := by
  have hreg : ∀ {i r}, (place' i).register? = some r → (place i).register? = some r := by
    intro i r hr
    obtain he | he := hp i <;> rw [he] at hr
    · exact hr
    · cases hr
  have hslot : ∀ {i o}, (place' i).slot? = some o → (place i).slot? = some o := by
    intro i o ho
    obtain he | he := hp i <;> rw [he] at ho
    · exact ho
    · cases ho
  refine ⟨fun hi hj => h.register (hreg hi) (hreg hj), fun hi => h.usable (hreg hi),
    fun hi => h.slot (hslot hi), fun hi hj => h.apart (hslot hi) (hslot hj), fun {i t} hi => ?_⟩
  obtain he | he := hp i <;> rw [he] at hi
  · exact h.boxable hi
  · cases hi

end Arranged

/-! ## Bringing words back -/

namespace Emit

/-- The code that brings back the word pushed at `offset`. -/
def reloadCode (dest : Register) (offset depth : Nat) : Snippet.Code :=
  if offset = depth then [.pop dest] else Snippet.loadFromStack dest (depth - offset)

def reloadDepth (offset depth : Nat) : Nat :=
  if offset = depth then depth - 8 else depth

theorem reload_eq {dest : Register} {offset depth : Nat} (h8 : 8 ≤ offset) (hle : offset ≤ depth)
    (asm : Assembly) : reload dest offset depth asm =
      .ok (reloadDepth offset depth) (asm.append (reloadCode dest offset depth)) := by
  rw [reload, reloadDepth, reloadCode]
  by_cases h : offset = depth
  · rw [if_pos h, if_pos h, if_pos h, if_neg (by omega)]
    rfl
  · rw [if_neg h, if_neg h, if_neg h, if_neg (by omega)]
    rfl

theorem reloadDepth_le (offset depth : Nat) : reloadDepth offset depth ≤ depth := by
  rw [reloadDepth]
  split <;> omega

theorem straight_reloadCode (dest : Register) (offset depth : Nat) :
    Straight (reloadCode dest offset depth) := by
  rw [reloadCode]
  split
  · exact straight_cons rfl straight_nil
  · exact straight_cons rfl straight_nil

theorem length_reloadCode (dest : Register) (offset depth : Nat) :
    (reloadCode dest offset depth).length = 1 := by
  rw [reloadCode]
  split <;> rfl

end Emit

theorem Arranged.le_reloadDepth {place : Nat → Place} {depth : Nat} (h : Arranged place depth)
    {i j o o' : Nat} (hi : (place i).slot? = some o) (hj : (place j).slot? = some o')
    (hne : j ≠ i) : o' ≤ Emit.reloadDepth o depth := by
  have hle := (h.slot hj).2
  have hio := (h.slot hi).2
  have hapart := h.apart hj hi hne
  rw [Emit.reloadDepth]
  split <;> omega

/-! ## What machines hold -/

/-- The machine holds the contents in these places. -/
structure Realizes (env : Env) (place : Nat → Place) (depth : Nat) (contents : Nat → Content)
    (m : Machine) : Prop where
  sp : m.reg .rsp = Memory.slot env.sp depth
  holds : ∀ {i c}, (place i).content? env.sp m = some c → contents i = c
  mem : ∀ {x}, env.area x = false → m.mem x = env.mem x

namespace Realizes

variable {env : Env} {place : Nat → Place} {depth : Nat} {contents : Nat → Content}
  {m m' : Machine}

/-- A machine with the stack at the right depth holds some contents in the places. -/
theorem of_sp {sp : UInt64} (hsp : m.reg .rsp = Memory.slot sp depth) (room : Nat) :
    Realizes ⟨m.mem, 0, sp, room⟩ place depth
      (fun i => ((place i).content? sp m).getD (.boxed 0)) m where
  sp := hsp
  holds hc := by rw [hc, Option.getD_some]
  mem _ := rfl

/-- Registers that no place is in may be overwritten. -/
theorem agree {rs : List Register} (h : Realizes env place depth contents m)
    (ha : Machine.AgreeExcept rs m m') (hsp : .rsp ∉ rs)
    (hrs : ∀ i r, (place i).register? = some r → r ∉ rs) :
    Realizes env place depth contents m' where
  sp := (ha.reg .rsp hsp).trans h.sp
  holds {i c} hc := h.holds (by
    rw [← hc]
    exact (Place.content?_congr (fun r hr => ha.reg r (hrs i r hr)) fun o _ => by rw [ha.mem]).symm)
  mem hx := by rw [ha.mem]; exact h.mem hx

theorem setAt (h : Realizes env place depth contents m) {i : Nat} {p : Place} {c : Content}
    (hc : p.content? env.sp m = some c) :
    Realizes env (setAt place i p) depth (InlineCache.setAt contents i c) m where
  sp := h.sp
  holds {j c'} hj := by
    by_cases hij : j = i
    · subst hij
      rw [setAt_self] at hj ⊢
      exact Option.some.inj (hc.symm.trans hj)
    · rw [setAt_of_ne _ _ hij] at hj ⊢
      exact h.holds hj
  mem := h.mem

theorem forget (h : Realizes env place depth contents m) {place' : Nat → Place}
    (hp : ∀ i, place' i = place i ∨ place' i = .uninitialized) :
    Realizes env place' depth contents m where
  sp := h.sp
  holds {i c} hi := by
    obtain he | he := hp i
    · rw [he] at hi
      exact h.holds hi
    · rw [he] at hi
      cases hi
  mem := h.mem

theorem push (h : Realizes env place depth contents m) {i : Nat} {r : Register}
    (hi : (place i).register? = some r)
    (husable : ∀ {j s}, (place j).register? = some s → s ≠ .rsp)
    (hslot : ∀ {j o}, (place j).slot? = some o → o ≤ depth)
    (hroom : depth + 8 ≤ env.room) (hlt : env.room < 2 ^ 31) :
    ∃ m', exec env.area [.push r] m = .fall m' ∧
      Realizes env (InlineCache.setAt place i ((place i).pushed (depth + 8))) (depth + 8) contents m' ∧
      (∀ s, s ≠ .rsp → m'.reg s = m.reg s) ∧
      ∀ {x}, Memory.below env.sp depth x = true ∨ Memory.below env.sp (depth + 8) x = false →
        m'.mem x = m.mem x := by
  have hmem : ∀ {x}, Memory.below env.sp depth x = true ∨
      Memory.below env.sp (depth + 8) x = false →
      m.mem.write64 (m.reg .rsp - 8) (m.reg r) x = m.mem x := by
    intro x hx
    rw [h.sp, Memory.slot_sub_eight]
    exact Memory.write64_slot_of_apart (by omega) hx
  refine ⟨_, exec_push r, ⟨?_, ?_, ?_⟩, ?_, fun hx => ?_⟩
  · rw [Machine.reg_setReg, if_pos rfl, h.sp, Memory.slot_sub_eight]
  · intro j c hj
    refine h.holds ?_
    rw [← hj]
    by_cases hij : j = i
    · subst hij
      rw [setAt_self]
      refine (Place.content?_pushed hi ?_).symm
      rw [Machine.mem_setReg, h.sp, Memory.slot_sub_eight, Memory.read64_write64]
    · rw [setAt_of_ne _ _ hij]
      refine (Place.content?_congr (fun s hs => ?_) fun o ho => ?_).symm
      · rw [Machine.reg_setReg, if_neg (husable hs).symm]
        rfl
      · rw [Machine.mem_setReg, h.sp, Memory.slot_sub_eight]
        exact Memory.read64_write64_slot (hslot ho) (by omega)
  · intro x hx
    rw [Machine.mem_setReg, ← h.mem hx]
    exact hmem (.inr (Memory.below_mono hroom hx))
  · intro s hs
    rw [Machine.reg_setReg, if_neg hs.symm]
    rfl
  · rw [Machine.mem_setReg]
    exact hmem hx

theorem reload (h : Realizes env place depth contents m) {o : Nat} (h8 : 8 ≤ o) (ho : o ≤ depth)
    (hlt : depth < 2 ^ 31) {dest : Register} (hdest : dest ≠ .rsp)
    (hfree : ∀ i, (place i).register? ≠ some dest)
    (husable : ∀ {i r}, (place i).register? = some r → r ≠ .rsp) :
    ∃ m', exec env.area (Emit.reloadCode dest o depth) m = .fall m' ∧
      m'.reg dest = m.mem.read64 (Memory.slot env.sp o) ∧ m'.mem = m.mem ∧
      Realizes env place (Emit.reloadDepth o depth) contents m' ∧
      ∀ s, s ≠ .rsp → s ≠ dest → m'.reg s = m.reg s := by
  have hstay : ∀ {m' : Machine} {depth' : Nat}, m'.mem = m.mem →
      m'.reg .rsp = Memory.slot env.sp depth' → (∀ s, s ≠ .rsp → s ≠ dest → m'.reg s = m.reg s) →
      Realizes env place depth' contents m' := by
    intro m' depth' hmem hsp hregs
    refine ⟨hsp, fun {i c} hc => h.holds ?_, fun hx => by rw [hmem]; exact h.mem hx⟩
    rw [← hc]
    refine (Place.content?_congr (fun r hr => hregs r (husable hr) ?_) fun o _ => by rw [hmem]).symm
    intro hrd
    exact hfree i (hrd ▸ hr)
  by_cases htop : o = depth
  · subst htop
    rw [Emit.reloadCode, if_pos rfl, Emit.reloadDepth, if_pos rfl]
    have hregs : ∀ s, s ≠ .rsp → s ≠ dest →
        ((m.setReg .rsp (m.reg .rsp + 8)).setReg dest (m.mem.read64 (m.reg .rsp))).reg s =
          m.reg s := by
      intro s hs hd
      rw [Machine.reg_setReg, if_neg hd.symm, Machine.reg_setReg, if_neg hs.symm]
    refine ⟨_, exec_pop dest, ?_, rfl, hstay rfl ?_ hregs, hregs⟩
    · rw [Machine.reg_setReg, if_pos rfl, h.sp]
    · rw [Machine.reg_setReg, if_neg hdest, Machine.reg_setReg, if_pos rfl, h.sp,
        Memory.slot_add_eight _ h8]
  · rw [Emit.reloadCode, if_neg htop, Emit.reloadDepth, if_neg htop]
    have hregs : ∀ w s, s ≠ .rsp → s ≠ dest → (m.setReg dest w).reg s = m.reg s := by
      intro w s _ hd
      rw [Machine.reg_setReg, if_neg hd.symm]
    refine ⟨_, exec_loadStack dest _, ?_, rfl, hstay rfl ?_ (hregs _), hregs _⟩
    · rw [Machine.reg_setReg, if_pos rfl, Machine.address, h.sp, Memory.slot_add_disp _ ho hlt]
    · rw [Machine.reg_setReg, if_neg hdest, h.sp]

end Realizes
end InlineCache
