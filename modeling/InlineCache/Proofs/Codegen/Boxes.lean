import InlineCache.Proofs.Codegen.Tracks
import InlineCache.Proofs.X64.Layout

/-!
# Boxing and unboxing in machine code

On its way through a stub an operand changes between a boxed word and a bare payload, in place or
from one register to another, and a bailout has to bring back the very word that came in. All of
this rests on two snippets that undo each other, whichever of their registers are the same.
`unbox_tag_inverse` says for which words and payloads they do, and that a constant is loaded as the
payload that unboxing would have left.

Neither snippet looks at what it is given, and the ranges are exact: a word with another tag, or
with a bit set between its tag and its low half at a type that keeps the low half only, comes back
as another word.
-/

namespace InlineCache

open X64

/-! ## Code in place -/

namespace Snippet

/-- Code that control passes through. Wherever it stands in bytes that were laid out, it hands over
to what follows it, and `R` relates the machines before and after. -/
def Relates (R : Machine → Machine → Prop) (c : Code) : Prop :=
  ∀ ⦃a : Assembly⦄ ⦃bytes : List UInt8⦄ ⦃before after : List Item⦄, a.finish = .ok bytes →
    a.items.toList = before ++ (c.map Item.instr ++ after) → ∀ m, ∃ m',
      Proceeds bytes (Item.totalSize before) m (Item.totalSize (before ++ c.map Item.instr)) m' ∧
        R m m'

section
variable {R R' : Machine → Machine → Prop} {c : Code}

theorem Relates.of_exec (h : ∀ m, ∃ m', exec (fun _ => false) c m = .fall m' ∧ R m m') :
    Relates R c := by
  intro a bytes before after hbytes hitems m
  obtain ⟨m', hx, hR⟩ := h m
  exact ⟨m', runFrom_of_fall hbytes hitems hx, hR⟩

theorem Relates.mono (h : Relates R c) (hR : ∀ m m', R m m' → R' m m') : Relates R' c := by
  intro a bytes before after hbytes hitems m
  obtain ⟨m', hx, hm⟩ := h hbytes hitems m
  exact ⟨m', hx, hR m m' hm⟩

theorem Computes.relates {f : UInt64 → UInt64} {src dest : Register} {rs : List Register}
    (h : Computes f src dest rs c)
    (hR : ∀ m m', m'.reg dest = f (m.reg src) → Machine.AgreeExcept rs m m' → R m m') :
    Relates R c := by
  refine Relates.of_exec fun m => ?_
  obtain ⟨m', hx, hr, ha⟩ := h (fun _ => false) m
  exact ⟨m', hx, hR m m' hr ha⟩

end
end Snippet

/-! ## Constants -/

namespace Gen

variable {s : Codegen} {i : Nat} {v : Value}

/-- At most a push was written, and no operand lost its entry. -/
def MakesRoom (s s' : Codegen) : Prop :=
  ∃ c a, s' = s.write c a ∧ (c = [] ∨ ∃ r, c = [.push r]) ∧
    a.places.size = s.alloc.places.size

theorem spill_makesRoom (s : Codegen) (i : Nat) :
    Follows (spill i) s fun _ s' => MakesRoom s s' := by
  -- Boxed or not, the operand is pushed, has its place on the stack, and its register is free.
  have hrest : ∀ (r : Register) (p : Nat → Place), i < s.alloc.places.size → Follows (do
      push r
      setPlace i (p (← allocator).depth)
      modifyAllocator fun a =>
        if a.allocatable.contains r then { a with available := a.available.insert r } else a
      : Gen Unit) s fun _ s' => MakesRoom s s' := by
    intro r p hi
    by_cases hlt : s.alloc.depth + 8 < 2 ^ 32
    · refine Ensures.bind_ok (push_eq hlt) (Ensures.bind_ok rfl (Ensures.bind_ok
        (setPlace_eq (s := s.write [.push r] s.alloc.pushed) hi _) (Ensures.of_ok rfl ?_)))
      refine ⟨[.push r], _, rfl, .inr ⟨r, rfl⟩, ?_⟩
      dsimp only
      split <;> exact Allocator.size_setPlace _ _
    · obtain ⟨s', herr⟩ := push_error (s := s) (r := r) hlt
      exact Ensures.of_error (bind_of_error herr) trivial
  rw [spill]
  by_cases hi : i < s.alloc.places.size
  · refine Ensures.bind_ok (place_eq hi) ?_
    split
    · next r t _ => exact hrest r (.payloadStack · t) hi
    · next r _ => exact hrest r .valueStack hi
    · exact Ensures.of_error rfl trivial
  · exact Ensures.of_error (bind_of_error (place_error hi)) trivial

theorem makeRoom_makesRoom {a : Allocator} (hyields : s.alloc.Yields a) :
    Follows makeRoom (s.write [] a) fun _ s' => MakesRoom s s' := by
  have hsame : MakesRoom s (s.write [] a) := ⟨[], a, rfl, .inl rfl, hyields.continues.size⟩
  rw [makeRoom]
  refine Ensures.bind_ok (show allocator (s.write [] a) = .ok a (s.write [] a) from rfl) ?_
  split
  · split
    · next i hi =>
        refine (spill_makesRoom (s.write [] a) i).mono (fun _ _ _ => trivial) ?_
        rintro _ _ ⟨c, a', rfl, hc, hsize⟩
        exact ⟨c, a', Codegen.write_write s [] c a a', hc, hsize.trans hyields.continues.size⟩
    · exact Ensures.pure hsame
  · exact Ensures.pure hsame

theorem allocate_makesRoom (s : Codegen) : Follows allocate s fun _ s' => MakesRoom s s' := by
  obtain ⟨a, ha, hyields⟩ : ∃ a, (if s.alloc.available.isEmpty then s.alloc.reclaimDead
      else s.alloc) = a ∧ s.alloc.Yields a :=
    ⟨_, rfl, (Allocator.yields_reclaimDead _).ite (.refl _)⟩
  refine Ensures.bind_ok (t := s.write [] a) (by rw [← ha, Codegen.write_nil]; rfl)
    (Follows.bind (makeRoom_makesRoom hyields) ?_)
  rintro _ _ ⟨c, a, rfl, hc, hsize⟩
  cases hempty : a.available.isEmpty with
  | true => exact Ensures.of_error (takeHighest_error (s := s.write c a) hempty) trivial
  | false =>
      obtain ⟨r, htake, -⟩ := takeHighest_eq (s := s.write c a) hempty
      exact Ensures.of_ok htake ⟨c, _, rfl, hc, hsize⟩

/-- A constant is refused only for want of a register. Otherwise the last instruction that is
written loads it. -/
theorem usePayload_constant (hi : s.alloc.place i = .constant v) (t : ValueType) :
    Ensures (fun e s' => allocate s = .error e s') (usePayload i t) s fun r s' =>
      ∃ c, s'.asm = s.asm.append (c ++ [.movImm r (constantPayload v t)]) ∧
        (c = [] ∨ ∃ q, c = [.push q]) := by
  have hlt : i < s.alloc.places.size := Allocator.lt_size_of_place_ne (by rw [hi]; intro h; cases h)
  rw [usePayload]
  refine Ensures.bind_ok (place_eq hlt) ?_
  rw [hi]
  cases halloc : allocate s with
  | error e s' => exact Ensures.of_error (bind_of_error halloc) rfl
  | ok r s' =>
      obtain ⟨c, a, rfl, hc, hsize⟩ := (allocate_makesRoom s).of_eq_ok halloc
      refine Ensures.bind_ok halloc (Ensures.bind_ok (code_eq _ _)
        (Ensures.bind_ok (setPlace_eq (hsize ▸ hlt) _) (Ensures.pure ⟨c, ?_, hc⟩)))
      rw [Codegen.write_write]
      rfl

end Gen

namespace Snippet

theorem relates_load {c : Code} (hc : c = [] ∨ ∃ q, c = [.push q]) (r : Register) (w : UInt64) :
    Relates (fun _ m' => m'.reg r = w) (c ++ [.movImm r w]) := by
  refine Relates.of_exec fun m => ?_
  obtain ⟨m₁, hx⟩ : ∃ m₁, exec (fun _ => false) c m = .fall m₁ := by
    obtain rfl | ⟨q, rfl⟩ := hc
    · exact ⟨m, rfl⟩
    · exact ⟨_, exec_push q⟩
  refine ⟨_, (exec_append_of_fall hx).trans (exec_movImm r w), ?_⟩
  rw [Machine.reg_setReg, if_pos rfl]

/-! ## Round trips -/

/-- The types that can be unboxed. -/
def unboxable : List ValueType :=
  [.string, .symbol, .privateGCThing, .object, .int32, .boolean]

theorem mem_unboxable {t : ValueType} : t ∈ unboxable ↔ t.isBoxable = true := by
  cases t <;> decide

theorem exists_unbox {t : ValueType} {src dest : Register} :
    (∃ c, unbox src dest t = .ok c) ↔ t ∈ unboxable := by
  rw [mem_unboxable]
  constructor
  · rintro ⟨c, hc⟩
    exact isBoxable_of_unbox hc
  · intro ht
    obtain ⟨c, hc, -⟩ := unbox_of_isBoxable ht src dest
    exact ⟨c, hc⟩

section
variable {t : ValueType} (ht : t.isBoxable = true) {src dest out : Register}
include ht

/-- Unboxing and boxing again. -/
theorem computes_unbox_tag (hout : out ≠ scratchRegister) : ∃ c c', unbox src dest t = .ok c ∧
    tag t dest out = .ok c' ∧ Computes (fun w => t.box (t.unbox w)) src out
      [dest, out, scratchRegister] (c ++ c') := by
  obtain ⟨c, hc, -, hunbox⟩ := unbox_of_isBoxable ht src dest
  obtain ⟨c', hc', -, htag⟩ := @tag_of_isBoxable t ht dest out hout
  exact ⟨c, c', hc, hc', (hunbox.mono (by simp)).comp (htag.mono (by simp))⟩

/-- Boxing and unboxing again. -/
theorem computes_tag_unbox (hdest : dest ≠ scratchRegister) : ∃ c c', tag t src dest = .ok c ∧
    unbox dest out t = .ok c' ∧ Computes (fun w => t.unbox (t.box w)) src out
      [dest, scratchRegister, out] (c ++ c') := by
  obtain ⟨c, hc, -, htag⟩ := @tag_of_isBoxable t ht src dest hdest
  obtain ⟨c', hc', -, hunbox⟩ := unbox_of_isBoxable ht dest out
  exact ⟨c, c', hc, hc', (htag.mono (by simp)).comp (hunbox.mono (by simp))⟩

end

/-- Unboxing leaves the low bits of a word, the same that are loaded for a constant. Boxing them
again, at once or later, gives the word back exactly if it has the type and, at a type that keeps
the low half only, nothing above that half in its payload. Unboxing what was boxed gives back
exactly the payloads in range. Any of the registers may be the same, and none changes but the
destination and, where a word is boxed, the scratch register. -/
theorem unbox_tag_inverse {src dest out : Register} (hdest : dest ≠ scratchRegister)
    (hout : out ≠ scratchRegister) :
    (∀ t, (∃ c, unbox src dest t = .ok c) ↔ t ∈ unboxable) ∧
    ∀ t ∈ unboxable,
      (∃ c, unbox src dest t = .ok c ∧ Relates (fun m m' =>
        (m'.reg dest).toNat = (m.reg src).toNat % 2 ^ t.payloadBits ∧
          Machine.AgreeExcept [dest] m m') c) ∧
      (∀ (s : Codegen) (i : Nat) (v : Value), s.alloc.place i = .constant v →
        Ensures (fun e s' => Gen.allocate s = .error e s') (Gen.usePayload i t) s fun r s' =>
          ∃ c, s'.asm = s.asm.append c ∧ Relates (fun _ m' =>
            (m'.reg r).toNat = v.bits.toNat % 2 ^ t.payloadBits) c) ∧
      (∃ c, tag t dest out = .ok c ∧ Relates (fun m m' =>
        (∀ v : Value, (m.reg dest).toNat = v.bits.toNat % 2 ^ t.payloadBits →
          (m'.reg out = v.bits ↔ v.Unboxes t)) ∧
          Machine.AgreeExcept [out, scratchRegister] m m') c) ∧
      (∃ c c', unbox src dest t = .ok c ∧ tag t dest out = .ok c' ∧ Relates (fun m m' =>
        m'.reg out = m.reg src ↔ Value.Unboxes ⟨m.reg src⟩ t) (c ++ c')) ∧
      ∃ c c', tag t src dest = .ok c ∧ unbox dest out t = .ok c' ∧ Relates (fun m m' =>
        m'.reg out = m.reg src ↔ (m.reg src).toNat < 2 ^ t.payloadBits) (c ++ c') := by
  refine ⟨fun t => exists_unbox, fun t ht => ?_⟩
  have ht := mem_unboxable.mp ht
  refine ⟨?_, fun s i v hi => ?_, ?_, ?_, ?_⟩
  · obtain ⟨c, hc, -, hunbox⟩ := unbox_of_isBoxable ht src dest
    exact ⟨c, hc, hunbox.relates fun m m' hr ha => ⟨by rw [hr, t.toNat_unbox], ha⟩⟩
  · refine (Gen.usePayload_constant hi t).mono (fun _ _ he => he) ?_
    rintro r s' ⟨c, hasm, hc⟩
    refine ⟨_, hasm, (relates_load hc r _).mono fun _ m' hr => ?_⟩
    rw [hr, Gen.constantPayload_eq ht, t.toNat_unbox]
  · obtain ⟨c, hc, -, htag⟩ := @tag_of_isBoxable t ht dest out hout
    refine ⟨c, hc, htag.relates fun m m' hr ha => ⟨fun v hv => ?_, ha⟩⟩
    have hpayload : m.reg dest = t.unbox v.bits :=
      UInt64.toNat_inj.mp (hv.trans (t.toNat_unbox v.bits).symm)
    rw [hr, hpayload]
    exact ValueType.box_unbox_eq_iff ht v
  · obtain ⟨c, c', hc, hc', hcomp⟩ := @computes_unbox_tag t ht src dest out hout
    refine ⟨c, c', hc, hc', hcomp.relates fun m m' hr _ => ?_⟩
    rw [hr]
    exact ValueType.box_unbox_eq_iff ht ⟨m.reg src⟩
  · obtain ⟨c, c', hc, hc', hcomp⟩ := @computes_tag_unbox t ht src dest out hdest
    refine ⟨c, c', hc, hc', hcomp.relates fun m m' hr _ => ?_⟩
    rw [hr]
    exact t.unbox_box_eq_iff (m.reg src)

/-- A word is unboxed as a boolean from `rdi` to `rsi` and boxed back into `rdi`. -/
def thereAndBack : Assembly where
  items := ([.mov32 .rsi .rdi, .mov32 .rdi .rsi,
    .movImm scratchRegister ValueType.boolean.shiftedTag, .or .rdi scratchRegister,
    .ret].map Item.instr).toArray

/-- `true` comes back. With a bit above its low half it does not. As a constant it is loaded as
`1`. -/
theorem unbox_tag_inverse_boolean :
    ∃ bytes, thereAndBack.finish = .ok bytes ∧
      (∀ m : Machine, ∃ m', Proceeds bytes 0 m 19 m' ∧
        (m.reg .rdi = (Value.ofBool true).bits → m'.reg .rdi = m.reg .rdi) ∧
        (m.reg .rdi = (Value.boxed .boolean 0x100000001).bits → m'.reg .rdi ≠ m.reg .rdi)) ∧
      ∃ s, Gen.initInput 0 (.constant (.ofBool true)) (.start (.empty .getProp) .baseline {}) =
          .ok () s ∧
        ∃ r s' c, Gen.usePayload 0 .boolean s = .ok r s' ∧ s'.asm = s.asm.append c ∧
          Relates (fun _ m' => (m'.reg r).toNat = 1) c := by
  obtain ⟨bytes, hbytes⟩ : ∃ bytes, thereAndBack.finish = .ok bytes := ⟨_, rfl⟩
  obtain ⟨-, hall⟩ := @unbox_tag_inverse .rdi .rsi .rdi (by decide) (by decide)
  obtain ⟨-, hconstant, -, ⟨c, c', hc, hc', htrip⟩, -⟩ := hall .boolean (by decide)
  refine ⟨bytes, hbytes, fun m => ?_, ?_⟩
  · cases hc
    cases hc'
    obtain ⟨m', hproceeds, hback⟩ := htrip hbytes (List.nil_append _).symm m
    refine ⟨m', hproceeds, fun htrue => hback.mpr ?_, fun hwide hsame => ?_⟩
    · rw [htrue]
      decide
    · rw [hback, hwide] at hsame
      revert hsame
      decide
  · obtain ⟨s, hs⟩ : ∃ s, Gen.initInput 0 (.constant (.ofBool true))
        (.start (.empty .getProp) .baseline {}) = .ok () s := ⟨_, rfl⟩
    have hplace : s.alloc.place 0 = .constant (.ofBool true) := by
      cases hs
      rfl
    obtain ⟨r, s', huse⟩ : ∃ r s', Gen.usePayload 0 .boolean s = .ok r s' := by
      cases hs
      exact ⟨_, _, rfl⟩
    obtain ⟨c, hasm, hload⟩ := (hconstant s 0 _ hplace).of_eq_ok huse
    exact ⟨s, hs, r, s', c, huse, hasm, hload⟩

end Snippet
end InlineCache
