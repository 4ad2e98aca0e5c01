import InlineCache.Codegen.Snippet
import InlineCache.Proofs.Value.Boxing
import InlineCache.Proofs.X64.Exec

/-!
# What the snippets do

A snippet writes the register it is asked to and perhaps the scratch register, and leaves the
memory and all other registers alone. The tests on tags compare 32 bits of a number that has only
17, so they decide the tag of the whole word.
-/

namespace InlineCache

open X64

/-- The machines differ at most in these registers and in the flags. -/
structure X64.Machine.AgreeExcept (rs : List Register) (m m' : Machine) : Prop where
  mem : m'.mem = m.mem
  reg : ∀ r, r ∉ rs → m'.reg r = m.reg r

namespace X64.Machine.AgreeExcept

variable {rs rs' : List Register} {m m' m'' : Machine}

theorem refl (rs : List Register) (m : Machine) : AgreeExcept rs m m :=
  ⟨rfl, fun _ _ => rfl⟩

theorem mono (h : AgreeExcept rs m m') (hsub : ∀ r ∈ rs, r ∈ rs') : AgreeExcept rs' m m' :=
  ⟨h.mem, fun r hr => h.reg r fun hmem => hr (hsub r hmem)⟩

theorem trans (h : AgreeExcept rs m m') (h' : AgreeExcept rs m' m'') : AgreeExcept rs m m'' :=
  ⟨h'.mem.trans h.mem, fun r hr => (h'.reg r hr).trans (h.reg r hr)⟩

theorem setReg (h : AgreeExcept rs m m') {r : Register} (hr : r ∈ rs) (w : UInt64) :
    AgreeExcept rs m (m'.setReg r w) := by
  refine ⟨h.mem, fun s hs => ?_⟩
  rw [reg_setReg, if_neg (fun e : r = s => hs (e ▸ hr))]
  exact h.reg s hs

theorem withFlags (h : AgreeExcept rs m m') (f : Option Flags) :
    AgreeExcept rs m { m' with flags := f } :=
  ⟨h.mem, h.reg⟩

/-- The first of the registers is written first. -/
theorem tail {r : Register} (h : AgreeExcept (r :: rs) m m') :
    AgreeExcept rs (m.setReg r (m'.reg r)) m' := by
  refine ⟨h.mem, fun s hs => ?_⟩
  rw [reg_setReg]
  split
  · next hr => rw [hr]
  · next hr => exact h.reg s (by simp [hs, Ne.symm hr])

end X64.Machine.AgreeExcept

namespace Snippet

open Machine

/-! ## Boxes -/

theorem exec_move {area : UInt64 → Bool} {m : Machine} (dest src : Register) :
    exec area (move dest src) m = .fall (m.setReg dest (m.reg src)) := by
  rw [move]
  split
  · next h =>
      subst h
      rw [Machine.setReg_self]
      rfl
  · rw [exec_mov, exec_nil]

theorem length_move (dest src : Register) : (move dest src).length ≤ 1 := by
  rw [move]
  split <;> simp

theorem straight_move (dest src : Register) : Straight (move dest src) := by
  rw [move]
  split
  · exact straight_nil
  · exact straight_cons rfl straight_nil

/-- Code that leaves in `dest` what `f` makes of `src`, and changes nothing else but `rs`. -/
def Computes (f : UInt64 → UInt64) (src dest : Register) (rs : List Register) (c : Code) : Prop :=
  ∀ area m, ∃ m', exec area c m = .fall m' ∧ m'.reg dest = f (m.reg src) ∧ AgreeExcept rs m m'

theorem Computes.mono {f : UInt64 → UInt64} {src dest : Register} {rs rs' : List Register}
    {c : Code} (h : Computes f src dest rs c) (hsub : ∀ r ∈ rs, r ∈ rs') :
    Computes f src dest rs' c := by
  intro area m
  obtain ⟨m', hx, hr, ha⟩ := h area m
  exact ⟨m', hx, hr, ha.mono hsub⟩

theorem Computes.comp {f g : UInt64 → UInt64} {src mid dest : Register} {rs : List Register}
    {c c' : Code} (h : Computes f src mid rs c) (h' : Computes g mid dest rs c') :
    Computes (fun w => g (f w)) src dest rs (c ++ c') := by
  intro area m
  obtain ⟨m₁, hx₁, hr₁, ha₁⟩ := h area m
  obtain ⟨m₂, hx₂, hr₂, ha₂⟩ := h' area m₁
  exact ⟨m₂, by rw [exec_append_of_fall hx₁, hx₂], by rw [hr₂, hr₁], ha₁.trans ha₂⟩

theorem computes_move {src dest : Register} {rs : List Register} (hd : dest ∈ rs) :
    Computes (fun w => w) src dest rs (move dest src) := fun _ m =>
  ⟨_, exec_move dest src, by rw [reg_setReg, if_pos rfl], (AgreeExcept.refl rs m).setReg hd _⟩

theorem computes_mov32 {src dest : Register} {rs : List Register} (hd : dest ∈ rs) :
    Computes (fun w => w.toUInt32.toUInt64) src dest rs [.mov32 dest src] := fun _ m =>
  ⟨_, exec_mov32 dest src, by rw [reg_setReg, if_pos rfl], (AgreeExcept.refl rs m).setReg hd _⟩

theorem computes_shifts {r : Register} {rs : List Register} (hr : r ∈ rs) :
    Computes (fun w => (w <<< 17) >>> 17) r r rs [.shl r pointerShift, .shr r pointerShift] := by
  intro area m
  refine ⟨_, by rw [exec_shl]; exact exec_shr _ _, ?_, ?_⟩
  · simp [pointerShift]
  · exact (((AgreeExcept.refl rs m).withFlags none).setReg hr _ |>.withFlags none).setReg hr _

theorem computes_stamp {t : ValueType} {r : Register} {rs : List Register} (hr : r ∈ rs)
    (hscratch : scratchRegister ∈ rs) (hne : r ≠ scratchRegister) :
    Computes (fun w => w ||| t.shiftedTag) r r rs
      [.movImm scratchRegister t.shiftedTag, .or r scratchRegister] := by
  intro area m
  refine ⟨_, by rw [exec_movImm]; exact exec_or _ _, ?_, ?_⟩
  · simp [hne.symm]
  · exact (((AgreeExcept.refl rs m).setReg hscratch _).withFlags none).setReg hr _

/-- Unboxing leaves the payload of the word in the register. -/
theorem unbox_of_isBoxable {t : ValueType} (ht : t.isBoxable = true) (src dest : Register) :
    ∃ c, unbox src dest t = .ok c ∧ (c.length ≤ 3 ∧ Straight c) ∧
      Computes t.unbox src dest [dest] c := by
  have hd : dest ∈ [dest] := List.mem_singleton_self dest
  have hpointer := (@computes_move src dest _ hd).comp (computes_shifts hd)
  have hlow : Straight [Instr.mov32 dest src] := straight_cons rfl straight_nil
  have hlen : (move dest src ++
      [Instr.shl dest pointerShift, Instr.shr dest pointerShift]).length ≤ 3 := by
    have := length_move dest src
    simp
    omega
  have hstraight := (straight_move dest src).append (straight_cons (i := .shl dest pointerShift) rfl
    (straight_cons (i := .shr dest pointerShift) rfl straight_nil))
  cases t with
  | int32 => exact ⟨_, rfl, ⟨by simp, hlow⟩, computes_mov32 hd⟩
  | boolean => exact ⟨_, rfl, ⟨by simp, hlow⟩, computes_mov32 hd⟩
  | string => exact ⟨_, rfl, ⟨hlen, hstraight⟩, hpointer⟩
  | symbol => exact ⟨_, rfl, ⟨hlen, hstraight⟩, hpointer⟩
  | privateGCThing => exact ⟨_, rfl, ⟨hlen, hstraight⟩, hpointer⟩
  | object => exact ⟨_, rfl, ⟨hlen, hstraight⟩, hpointer⟩
  | _ => exact absurd ht (by decide)

/-- Boxing leaves the boxed word in the register. -/
theorem tag_of_isBoxable {t : ValueType} (ht : t.isBoxable = true) {payload dest : Register}
    (hdest : dest ≠ scratchRegister) :
    ∃ c, tag t payload dest = .ok c ∧ (c.length ≤ 3 ∧ Straight c) ∧
      Computes t.box payload dest [dest, scratchRegister] c := by
  have hd : dest ∈ [dest, scratchRegister] := List.mem_cons_self
  have hstamp := @computes_stamp t _ _ hd (by simp) hdest
  have hmove := (@computes_move payload dest _ hd).comp hstamp
  have hlow := (@computes_mov32 payload dest _ hd).comp hstamp
  have hlen : (move dest payload ++
      [Instr.movImm scratchRegister t.shiftedTag, Instr.or dest scratchRegister]).length ≤ 3 := by
    have := length_move dest payload
    simp
    omega
  have hrest : Straight [Instr.movImm scratchRegister t.shiftedTag, Instr.or dest scratchRegister] :=
    straight_cons rfl (straight_cons rfl straight_nil)
  have hstraight := (straight_move dest payload).append hrest
  have hstraight' := straight_cons (i := .mov32 dest payload) rfl hrest
  cases t with
  | int32 => exact ⟨_, rfl, ⟨by simp, hstraight'⟩, hlow⟩
  | boolean => exact ⟨_, rfl, ⟨by simp, hstraight'⟩, hlow⟩
  | string => exact ⟨_, rfl, ⟨hlen, hstraight⟩, hmove⟩
  | symbol => exact ⟨_, rfl, ⟨hlen, hstraight⟩, hmove⟩
  | privateGCThing => exact ⟨_, rfl, ⟨hlen, hstraight⟩, hmove⟩
  | object => exact ⟨_, rfl, ⟨hlen, hstraight⟩, hmove⟩
  | _ => exact absurd ht (by decide)

/-! ## Tests -/

/-- Code that goes on if `ok` holds and else jumps to `l`, and changes nothing else but `rs`. -/
def Branches (ok : Machine → Bool) (l : Label) (rs : List Register) (c : Code) : Prop :=
  ∀ area m, ∃ m', exec area c m = (if ok m then .fall m' else .jump l m') ∧ AgreeExcept rs m m'

/-- Code that sets the flags, and then branches. -/
theorem Branches.of_flags {ok : Machine → Bool} {l : Label} {rs : List Register} (c : Code)
    (flags : Machine → Flags) {cond : Condition}
    (hc : ∀ area m, ∃ m', exec area c m = .fall { m' with flags := some (flags m) } ∧
      AgreeExcept rs m m')
    (hok : ∀ m, (flags m).meets cond = !ok m) : Branches ok l rs (c ++ [.jcc cond l]) := by
  intro area m
  obtain ⟨m', hx, ha⟩ := hc area m
  refine ⟨_, ?_, ha.withFlags (some (flags m))⟩
  rw [exec_append_of_fall hx, exec_jcc rfl, exec_nil, hok]
  cases ok m <;> rfl

theorem tag_toNat_lt (v : Value) : v.tag.toNat < 2 ^ 17 := by
  have h := v.bits.toNat_lt
  have hs : v.tag.toNat = v.bits.toNat / 2 ^ 47 := by
    simp [Value.tag, ValueType.tagShift, Nat.shiftRight_eq_div_pow]
  omega

theorem exec_splitTag {area : UInt64 → Bool} {m : Machine} (r : Register) :
    exec area (splitTag r) m = .fall
      (({ m.setReg scratchRegister (m.reg r) with flags := none } : Machine).setReg
        scratchRegister (Value.tag ⟨m.reg r⟩)) := by
  rw [splitTag, exec_mov, exec_shr, exec_nil, reg_setReg, if_pos rfl]
  rfl

/-- The comparison of a tag with a small number. -/
theorem branches_compareTag {ok : Machine → Bool} {r : Register} {number : UInt64}
    {cond : Condition} (l : Label)
    (h : ∀ m : Machine, (Flags.compare32 (Value.tag ⟨m.reg r⟩).toUInt32 number.toUInt32).meets cond
      = !ok m) :
    Branches ok l [scratchRegister] (compareTag r number cond l) := by
  have hr : scratchRegister ∈ [scratchRegister] := List.mem_singleton_self _
  rw [compareTag, List.append_cons]
  refine Branches.of_flags _
    (fun m => .compare32 (Value.tag ⟨m.reg r⟩).toUInt32 number.toUInt32) (fun area m => ?_) h
  refine ⟨_, ?_, (((AgreeExcept.refl _ m).setReg hr (m.reg r)).withFlags none).setReg hr
    (Value.tag ⟨m.reg r⟩)⟩
  rw [exec_append_of_fall (exec_splitTag r), exec_cmp32Imm, exec_nil, reg_setReg, if_pos rfl]
  simp

theorem toUInt32_beq {a b : UInt64} (ha : a.toNat < 2 ^ 32) (hb : b.toNat < 2 ^ 32) :
    (a.toUInt32 == b.toUInt32) = (a == b) := by
  rw [Bool.eq_iff_iff, beq_iff_eq, beq_iff_eq, ← UInt32.toNat_inj, ← UInt64.toNat_inj,
    UInt64.toNat_toUInt32, UInt64.toNat_toUInt32, Nat.mod_eq_of_lt ha, Nat.mod_eq_of_lt hb]

theorem toUInt32_lt {a b : UInt64} (ha : a.toNat < 2 ^ 32) (hb : b.toNat < 2 ^ 32) :
    a.toUInt32 < b.toUInt32 ↔ a < b := by
  rw [UInt32.lt_iff_toNat_lt, UInt64.lt_iff_toNat_lt, UInt64.toNat_toUInt32,
    UInt64.toNat_toUInt32, Nat.mod_eq_of_lt ha, Nat.mod_eq_of_lt hb]

/-- The test for a type goes on exactly for words with its tag. -/
theorem branches_hasTag (r : Register) (t : ValueType) (l : Label) :
    Branches (fun m => Value.hasTag ⟨m.reg r⟩ t) l [scratchRegister]
      (compareTag r t.tag .notEqual l) := by
  refine branches_compareTag l fun m => ?_
  have hv := tag_toNat_lt ⟨m.reg r⟩
  have ht : t.tag.toNat < 2 ^ 32 := by cases t <;> decide
  show (!((Value.tag ⟨m.reg r⟩).toUInt32 == t.tag.toUInt32)) = _
  rw [toUInt32_beq (by omega) ht]
  rfl

/-- A tag lies above a bound on 32 bits exactly if it does on all bits. -/
theorem meets_above (v : Value) {maxTag : UInt64} (hmax : maxTag.toNat < 2 ^ 32) :
    (Flags.compare32 v.tag.toUInt32 maxTag.toUInt32).meets .above = !decide (v.tag ≤ maxTag) := by
  have hv := tag_toNat_lt v
  show (!decide (v.tag.toUInt32 < maxTag.toUInt32) && !(v.tag.toUInt32 == maxTag.toUInt32)) = _
  rw [toUInt32_beq (by omega) hmax, Bool.eq_iff_iff]
  simp only [toUInt32_lt (show v.tag.toNat < 2 ^ 32 by omega) hmax,
    Bool.and_eq_true, Bool.not_eq_true', decide_eq_false_iff_not, beq_eq_false_iff_ne,
    UInt64.lt_iff_toNat_lt, UInt64.le_iff_toNat_le, ne_eq, ← UInt64.toNat_inj]
  omega

/-- The test for a range of tags goes on exactly for words with a tag in it. -/
theorem branches_tagAtMost (r : Register) {maxTag : UInt64} (hmax : maxTag.toNat < 2 ^ 32)
    (l : Label) : Branches (fun m => decide (Value.tag ⟨m.reg r⟩ ≤ maxTag)) l [scratchRegister]
      (compareTag r maxTag .above l) :=
  branches_compareTag l fun m => meets_above ⟨m.reg r⟩ hmax

/-- The converse test goes on exactly for words with a tag above the range. -/
theorem branches_tagAbove (r : Register) {maxTag : UInt64} (hmax : maxTag.toNat < 2 ^ 32)
    (l : Label) : Branches (fun m => !decide (Value.tag ⟨m.reg r⟩ ≤ maxTag)) l [scratchRegister]
      (compareTag r maxTag .belowOrEqual l) := by
  refine branches_compareTag l fun m => ?_
  have hconverse : ∀ f : Flags, f.meets .belowOrEqual = !f.meets .above := fun f => by
    simp [Flags.meets]
  rw [hconverse, meets_above ⟨m.reg r⟩ hmax]

/-- The test for a number goes on exactly for integers and doubles. -/
theorem branches_isNumber (r : Register) (l : Label) :
    Branches (fun m => Value.isNumber ⟨m.reg r⟩) l [scratchRegister]
      (compareTag r ValueType.int32.tag .above l) :=
  branches_tagAtMost r (by decide) l

theorem branches_register (a b : Register) (l : Label) :
    Branches (fun m => m.reg a == m.reg b) l [] (branchRegister .notEqual a b l) :=
  Branches.of_flags [.cmp a b] (fun m => .compare64 (m.reg a) (m.reg b))
    (fun _ m => ⟨m, exec_cmp a b, AgreeExcept.refl _ m⟩) fun _ => rfl

theorem branches_word {a : Register} (ha : a ≠ scratchRegister) (w : UInt64) (l : Label) :
    Branches (fun m => m.reg a == w) l [scratchRegister] (branchWord .notEqual a w l) := by
  refine Branches.of_flags [.movImm scratchRegister w, .cmp a scratchRegister]
    (fun m => .compare64 (m.reg a) w) (fun area m => ?_) fun _ => rfl
  refine ⟨_, ?_, (AgreeExcept.refl _ m).setReg (List.mem_singleton_self _) w⟩
  rw [exec_movImm, exec_cmp, exec_nil, reg_setReg, if_neg ha.symm, reg_setReg, if_pos rfl]

theorem branches_negative32 (r : Register) (l : Label) :
    Branches (fun m => !decide ((m.reg r).toUInt32.toInt32 < 0)) l [] (branchNegative32 r l) :=
  Branches.of_flags [.test32 r] (fun m => .logic32 (m.reg r).toUInt32)
    (fun _ m => ⟨m, exec_test32 r, AgreeExcept.refl _ m⟩)
    fun _ => by rw [Bool.not_not]; rfl

end Snippet
end InlineCache
