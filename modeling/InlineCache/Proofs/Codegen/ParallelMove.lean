import InlineCache.Proofs.Codegen.Restore

/-!
# Bailouts as parallel moves

The code of a bailout for any number of inputs, wherever they are: in registers that are permuted in
any way, in slots of the stack, boxed or not. `emit_restores` says that the code exists and that it
is a parallel move: every register that an input came from holds the boxed word of that input as it
was before the first instruction.

The stack needs some care. Making room for one input pushes another one, and an input that was on
top of the stack may have been popped before. So the code also writes slots above the stack pointer
that it starts with, but only those of inputs that it has put back (`emit_overwrites_popped`). With
two inputs or fewer, all pushes come before the first pop.
-/

namespace InlineCache

open X64

section
variable {β : Type} {f : Place → Option β} (hf : f .uninitialized = none) {ps : List Place}
include hf

theorem mem_filterMap_of_placeAt {i : Nat} {b : β} (h : f (placeAt ps i) = some b) :
    b ∈ ps.filterMap f := by
  have hlt : i < ps.length := lt_length_of_placeAt fun he => by
    rw [he, hf] at h
    cases h
  refine List.mem_filterMap.mpr ⟨ps[i], List.getElem_mem hlt, ?_⟩
  rw [← h, placeAt_of_lt hlt]

/-- Places of a list that differ in something are told apart by it. -/
theorem eq_of_placeAt (hnodup : (ps.filterMap f).Nodup) {i j : Nat} {b : β}
    (hi : f (placeAt ps i) = some b) (hj : f (placeAt ps j) = some b) : i = j := by
  induction ps generalizing i j with
  | nil =>
      rw [show placeAt [] i = .uninitialized from rfl, hf] at hi
      cases hi
  | cons p ps ih =>
      have htail : (ps.filterMap f).Nodup :=
        hnodup.sublist ((List.sublist_cons_self p ps).filterMap f)
      -- The head differs from whatever comes later.
      have hhead : ∀ {k}, f p = some b → f (placeAt ps k) ≠ some b := by
        intro k hp hk
        rw [List.filterMap_cons_some hp] at hnodup
        exact (List.nodup_cons.mp hnodup).1 (mem_filterMap_of_placeAt hf hk)
      cases i with
      | zero =>
          cases j with
          | zero => rfl
          | succ j => exact absurd hj (hhead hi)
      | succ i =>
          cases j with
          | zero => exact absurd hi (hhead hj)
          | succ j => exact congrArg (· + 1) (ih htail hi hj)

end

namespace Bailout

/-- Every input has a place of its own: a register, an aligned slot of the stack, or a constant. -/
structure WellPlaced (b : Bailout) : Prop where
  placed : .uninitialized ∉ b.inputs
  registers : (b.inputs.filterMap Place.register?).Nodup
  usable : ∀ r ∈ b.inputs.filterMap Place.register?, r ≠ .rsp ∧ r ≠ scratchRegister
  slots : (b.inputs.filterMap Place.slot?).Nodup
  aligned : ∀ o ∈ b.inputs.filterMap Place.slot?, 0 < o ∧ 8 ∣ o ∧ o ≤ b.depth
  boxable : ∀ t ∈ b.inputs.filterMap Place.payloadType?, t.isBoxable = true

namespace WellPlaced

variable {b : Bailout} (h : b.WellPlaced)
include h

theorem arranged : Arranged b.place b.depth where
  register hi hj := eq_of_placeAt rfl h.registers hi hj
  usable hi := h.usable _ (mem_filterMap_of_placeAt rfl hi)
  slot {i o} hi := by
    obtain ⟨hpos, h8, hle⟩ := h.aligned o (mem_filterMap_of_placeAt rfl hi)
    omega
  apart {i j o o'} hi hj hne := by
    have ho := (h.aligned o (mem_filterMap_of_placeAt rfl hi)).2.1
    have ho' := (h.aligned o' (mem_filterMap_of_placeAt rfl hj)).2.1
    have hoo : o ≠ o' := fun he => hne (eq_of_placeAt rfl h.slots hi (he ▸ hj))
    omega
  boxable hi := h.boxable _ (mem_filterMap_of_placeAt rfl hi)

theorem place_ne {i : Nat} (hi : i < b.inputs.length) : b.place i ≠ .uninitialized := by
  intro he
  have hmem := List.getElem_mem hi
  rw [← placeAt_of_lt hi] at hmem
  exact h.placed (he ▸ hmem)

theorem exists_content {i : Nat} (hi : i < b.inputs.length) (sp : UInt64) (m : Machine) :
    ∃ c, (b.place i).content? sp m = some c := by
  obtain ⟨c, hc, -⟩ := Place.exists_content? sp m (h.place_ne hi)
  exact ⟨c, hc⟩

end WellPlaced

/-- The code of a bailout puts all inputs back, for any number of inputs in any places. It writes
memory below the stack pointer and in the slots of inputs that it has popped: `k` of them, from the
top of the stack on. -/
theorem emit_restores {origins : List Place} {b : Bailout} (hos : Sources origins)
    (hlen : origins.length = b.inputs.length) (hb : b.WellPlaced)
    (hdepth : b.depth + 8 * b.inputs.length < 2 ^ 31) (asm : Assembly) :
    ∃ c left k, b.emit origins asm = .ok left ((asm.push (.bind b.label)).append c) ∧
      k ≤ b.inputs.length - 2 ∧
      (∀ j < k, ∃ i r, (b.place i).slot? = some (b.depth - 8 * j) ∧
        origins[i]? = some (.valueReg r)) ∧
      ∀ {sp m}, m.reg .rsp = Memory.slot sp b.depth →
        ∃ m', exec (Memory.below sp (b.depth + 8 * b.inputs.length)) c m = .fall m' ∧
          (∀ {i r}, origins[i]? = some (.valueReg r) →
            ∃ content, (b.place i).content? sp m = some content ∧ m'.reg r = content.word) ∧
          m'.reg .rsp = Memory.slot sp left ∧
          ∀ {x}, Memory.below sp (b.depth - 8 * k) x = true ∨
            Memory.below sp (b.depth + 8 * (b.inputs.length - 1)) x = false →
            m'.mem x = m.mem x := by
  have hemit : Ensures (TooDeep (b.depth + 8 * (b.inputs.length - 1))) (b.emit origins) asm
      fun left asm' => ∃ c, asm' = (asm.push (.bind b.label)).append c ∧
        Restores origins b.inputs b.depth c left :=
    Ensures.bind_ok (t := asm.push (.bind b.label)) (a := ()) rfl
      (restoreAll_ensures hos (Nat.le_of_eq hlen.symm) hb.arranged (fun _ hi => hb.place_ne hi) 0 _)
  unfold Ensures at hemit
  cases hrun : b.emit origins asm with
  | error e asm' =>
      rw [hrun] at hemit
      have := hemit.2
      omega
  | ok left asm' =>
      rw [hrun] at hemit
      obtain ⟨c, rfl, hrestores⟩ := hemit
      obtain ⟨k, hpopped, hruns⟩ := hrestores.runs
      refine ⟨c, left, k, rfl, hpopped.few, hpopped.slot, fun {sp m} hsp => ?_⟩
      obtain ⟨m', hx, hsp', hmem, hback, -⟩ := hruns
        (show Env.room ⟨m.mem, 0, sp, b.depth + 8 * b.inputs.length⟩ < 2 ^ 31 from hdepth)
        (show _ ≤ b.depth + 8 * b.inputs.length by omega)
        (show Realizes _ b.place _ _ _ from .of_sp hsp _)
      refine ⟨m', hx, fun {i r} ho => ?_, hsp', hmem⟩
      have hi : i < b.inputs.length := hlen ▸ (List.getElem?_eq_some_iff.mp ho).1
      obtain ⟨content, hcontent⟩ := hb.exists_content hi sp m
      refine ⟨content, hcontent, ?_⟩
      rw [hback hi ho, hcontent, Option.getD_some]

/-! ## A slot that is used twice -/

/-- Three inputs that came from registers. -/
def threeRegisters : List Place :=
  [.valueReg .rdi, .valueReg .rsi, .valueReg .rcx]

theorem sources_threeRegisters : Sources threeRegisters where
  origin {o} ho := by
    simp only [threeRegisters, List.mem_cons, List.not_mem_nil, or_false] at ho
    obtain rfl | rfl | rfl := ho <;> exact .inr ⟨_, rfl, by decide, by decide⟩
  apart := by
    simp [threeRegisters]

/-- The first input is on top of the stack and is popped. The third is in the register of the
second and is pushed after that. -/
def topFirst : Bailout :=
  ⟨[.valueStack 8, .constant (.ofInt32 5), .valueReg .rsi], 8, 0⟩

theorem wellPlaced_topFirst : topFirst.WellPlaced :=
  ⟨by decide, by decide, by decide, by decide, by decide, by decide⟩

theorem emit_restores_topFirst :
    ∃ c left k, topFirst.emit threeRegisters {} =
        .ok left ((Assembly.push {} (.bind 0)).append c) ∧ k ≤ 1 ∧
      ∀ {sp m}, m.reg .rsp = Memory.slot sp 8 → ∃ m', exec (Memory.below sp 32) c m = .fall m' ∧
        m'.reg .rdi = m.mem.read64 (Memory.slot sp 8) ∧ m'.reg .rcx = m.reg .rsi ∧
        m'.reg .rsp = Memory.slot sp left := by
  obtain ⟨c, left, k, hemit, hk, -, hruns⟩ :=
    emit_restores sources_threeRegisters rfl wellPlaced_topFirst (by decide) {}
  refine ⟨c, left, k, hemit, hk, fun {sp m} hsp => ?_⟩
  obtain ⟨m', hx, hback, hsp', -⟩ := hruns hsp
  obtain ⟨w, hw, hrdi⟩ := hback (i := 0) (r := .rdi) rfl
  obtain ⟨w', hw', hrcx⟩ := hback (i := 2) (r := .rcx) rfl
  cases hw
  cases hw'
  exact ⟨m', hx, hrdi, hrcx, hsp'⟩

/-- A machine with an empty memory and a word in `rsi`. -/
def emptyMemory : Machine :=
  (Machine.mk (Vector.replicate 16 1) (fun _ => 0) none).setReg .rsp 0xFF8

/-- The eight bytes at the stack pointer are overwritten. -/
theorem emit_overwrites_popped :
    Sources threeRegisters ∧ threeRegisters.length = topFirst.inputs.length ∧
      topFirst.WellPlaced ∧ topFirst.depth + 8 * topFirst.inputs.length < 2 ^ 31 ∧
      ∃ c left m', topFirst.emit threeRegisters {} =
          .ok left ((Assembly.push {} (.bind 0)).append c) ∧
        emptyMemory.reg .rsp = Memory.slot 0x1000 topFirst.depth ∧
        exec (Memory.below 0x1000 32) c emptyMemory = .fall m' ∧
        ¬ ∀ x, emptyMemory.reg .rsp ≤ x → m'.mem x = emptyMemory.mem x := by
  refine ⟨sources_threeRegisters, rfl, wellPlaced_topFirst, by decide,
    [.pop .rdi, .push .rsi, .movImm .rsi (Value.ofInt32 5).bits, .pop .rcx], 0, _, rfl,
    by decide, rfl, fun h => ?_⟩
  have hbyte := h 0xFF8 (by decide)
  revert hbyte
  decide

end Bailout
end InlineCache
