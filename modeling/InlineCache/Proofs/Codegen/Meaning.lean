import InlineCache.Proofs.Codegen.Configuration
import InlineCache.Proofs.Program.Typing
import InlineCache.Proofs.Value.Integers

/-!
# Virtual registers and values

A well typed program does to virtual registers what it means on values. `Content.Shows` relates
the two: a virtual register shows a value if it is the value boxed, the value as a constant, or the
payload of a value of the type that the register says. The forms differ from instruction to
instruction, the values stay.

`Sim` compares one run of each. It succeeds on both sides and the registers show the values again,
or it fails on both sides and the registers still show the values that were there before, which is
what the next stub is handed.
-/

namespace InlineCache

open X64

/-! ## Showing a value -/

/-- Types that compiled code unboxes operands at. -/
def ValueType.IsUnboxed (t : ValueType) : Prop :=
  t.isPointer = true ∨ t = .int32

namespace Content

/-- What the register contains stands for this value. -/
def Shows (v : Value) : Content → Prop
  | .boxed w => w = v.bits
  | .payload t w => t.IsUnboxed ∧ v.type = t ∧ w = t.unbox v.bits
  | .constant u => u = v

variable {v : Value} {c : Content}

theorem Shows.type (h : c.Shows v) {t : ValueType} (ht : c.knownType? = some t) : v.type = t := by
  cases c with
  | boxed w => cases ht
  | payload t' w =>
      cases ht
      exact h.2.1
  | constant u =>
      cases ht
      exact congrArg Value.type (Eq.symm h)

/-- The boxed word of an operand, unless it is a bare integer of a word that is not canonical. -/
theorem Shows.word (h : c.Shows v) (hc : v.Canonical ∨ ∀ w, c ≠ .payload .int32 w) :
    c.word = v.bits := by
  cases c with
  | boxed w => exact h
  | payload t w =>
      obtain ⟨ht, htype, rfl⟩ := h
      refine ValueType.box_unbox ht htype (hc.elim id fun hno hint => ?_)
      obtain rfl : t = .int32 := htype.symm.trans hint
      exact absurd rfl (hno _)
  | constant u => exact congrArg Value.bits h

theorem Shows.payloadAs (h : c.Shows v) {t : ValueType} (ht : t.IsUnboxed) (hv : v.type = t) :
    c.payloadAs t = t.unbox v.bits := by
  cases c with
  | boxed w => exact congrArg t.unbox h
  | payload known w =>
      obtain ⟨-, hknown, rfl⟩ := h
      rw [Content.payloadAs, if_pos (hknown.symm.trans hv), hknown.symm.trans hv]
  | constant u =>
      obtain rfl : u = v := h
      exact Gen.constantPayload_eq (ValueType.isBoxable_of_isPointer_or ht) u

/-- A pointer that fits below the tag. -/
theorem shows_pointer {t : ValueType} (ht : t.isPointer = true) {w : UInt64}
    (h : w.toNat < 2 ^ 47) : (Content.payload t w).Shows (.boxed t w) :=
  ⟨.inl ht, Value.type_boxed h, by
    rw [ValueType.unbox_of_isPointer ht, Value.payload_boxed h]⟩

theorem shows_int32 (h : v.type = .int32) :
    (Content.payload .int32 (ValueType.int32.unbox v.bits)).Shows v :=
  ⟨.inr rfl, h, rfl⟩

end Content

/-- The virtual registers of the first `d` operands show their values, and so does the register of
the result. Bare integers come with the result only. -/
structure Matches (d : Nat) (s : EvalState) (σ : VirtualState) : Prop where
  shown : ∀ {i}, i < d → (σ.contents i).Shows (s.operands i)
  raw : s.result = none → ∀ {i}, i < d → ∀ w, σ.contents i ≠ .payload .int32 w
  result : ∀ {v}, s.result = some v → σ.result = v.bits

theorem shown_set {d : Nat} {s : EvalState} {σ : VirtualState} {x : OperandId} {c : Content}
    (h : ∀ {i}, i < d → (σ.contents i).Shows (s.operands i)) (hc : c.Shows (s.operands x.index))
    {i : Nat} (hi : i < d) : ((σ.set x c).contents i).Shows (s.operands i) := by
  by_cases hix : i = x.index
  · subst hix
    rw [VirtualState.contents_set_self]
    exact hc
  · rw [VirtualState.contents_set_of_ne _ _ hix]
    exact h hi

/-- A register may change its form. -/
theorem Matches.set {d : Nat} {s : EvalState} {σ : VirtualState} (hm : Matches d s σ)
    {x : OperandId} {c : Content} (hc : c.Shows (s.operands x.index))
    (hraw : ∀ w, c ≠ .payload .int32 w) : Matches d s (σ.set x c) where
  shown := shown_set hm.shown hc
  raw hres {i} hi w := by
    by_cases hix : i = x.index
    · subst hix
      rw [VirtualState.contents_set_self]
      exact hraw w
    · rw [VirtualState.contents_set_of_ne _ _ hix]
      exact hm.raw hres hi w
  result := hm.result

theorem Virtual.usePayload_eq {σ : VirtualState} {x : OperandId} {t : ValueType} {w : UInt64}
    (h : (σ.contents x.index).payloadAs t = w) :
    usePayload x t σ = .ok w (σ.set x (.payload t w)) := by
  rw [← h]
  rfl

theorem Virtual.useValue_eq {σ : VirtualState} {x : OperandId} {w : UInt64}
    (h : (σ.contents x.index).word = w) : useValue x σ = .ok w (σ.set x (.boxed w)) := by
  rw [← h]
  rfl

/-- The first computation does to virtual registers what the second does to values. -/
structure Sim (d d' : Nat) (x : Virtual Unit) (y : Eval Unit) (σ : VirtualState) (s : EvalState) :
    Prop where
  ok : ∀ {s'}, y s = some ((), s') → ∃ σ', x σ = .ok () σ' ∧ Matches d' s' σ' ∧
    ∀ i < d, s'.operands i = s.operands i
  failed : y s = none → ∃ σ', x σ = .error .failed σ' ∧
    ∀ i < d, (σ'.contents i).Shows (s.operands i)

namespace Sim

variable {d d' : Nat} {σ : VirtualState} {s : EvalState} {x : OperandId}

theorem of_ok {x : Virtual Unit} {y : Eval Unit} {σ' : VirtualState} {s' : EvalState}
    (hx : x σ = .ok () σ') (hy : y s = some ((), s')) (hm : Matches d' s' σ')
    (hkeep : ∀ i < d, s'.operands i = s.operands i) : Sim d d' x y σ s where
  ok h := by
    cases hy.symm.trans h
    exact ⟨σ', hx, hm, hkeep⟩
  failed h := nomatch hy.symm.trans h

theorem of_failed {x : Virtual Unit} {y : Eval Unit} {σ' : VirtualState}
    (hx : x σ = .error .failed σ') (hy : y s = none)
    (hs : ∀ {i}, i < d → (σ'.contents i).Shows (s.operands i)) : Sim d d' x y σ s where
  ok h := nomatch hy.symm.trans h
  failed _ := ⟨σ', hx, fun _ hi => hs hi⟩

theorem congr {x : Virtual Unit} {y y' : Eval Unit} (hy : y s = y' s)
    (h : Sim d d' x y' σ s) : Sim d d' x y σ s :=
  ⟨fun h' => h.ok (hy ▸ h'), fun h' => h.failed (hy ▸ h')⟩

theorem require (hm : Matches d s σ) {ok ok' : Bool} (h : ok = ok') :
    Sim d d (Virtual.require ok) (Eval.require ok') σ s := by
  subst h
  cases ok with
  | true => exact of_ok rfl rfl hm fun _ _ => rfl
  | false => exact of_failed rfl rfl hm.shown

/-- A step that only virtual registers take. -/
theorem step {α : Type} {y : Eval Unit} {z : Virtual α} {f : α → Virtual Unit} {a : α}
    {σ' : VirtualState} (hz : z σ = .ok a σ') (h : Sim d d' (f a) y σ' s) :
    Sim d d' (z >>= f) y σ s := by
  have hbind : (z >>= f) σ = f a σ' := bind_of_ok hz
  exact ⟨fun h' => hbind ▸ h.ok h', fun h' => hbind ▸ h.failed h'⟩

/-- One step after the other. -/
theorem bind {d₁ : Nat} {x x' : Virtual Unit} {y y' : Eval Unit} (h : Sim d d₁ x y σ s)
    (hd : d ≤ d₁)
    (h' : ∀ {σ' s'}, y s = some ((), s') → Matches d₁ s' σ' →
      (∀ i < d, s'.operands i = s.operands i) → Sim d₁ d' x' y' σ' s') :
    Sim d d' (x >>= fun _ => x') (y >>= fun _ => y') σ s where
  ok hs := by
    obtain ⟨⟨_, s₁⟩, hy, hy'⟩ := Option.bind_eq_some_iff.mp hs
    obtain ⟨σ₁, hx, hm, hkeep⟩ := h.ok hy
    obtain ⟨σ₂, hx', hm', hkeep'⟩ := (h' hy hm hkeep).ok hy'
    exact ⟨σ₂, (bind_of_ok hx).trans hx', hm', fun i hi =>
      (hkeep' i (Nat.lt_of_lt_of_le hi hd)).trans (hkeep i hi)⟩
  failed hs := by
    cases hy : y s with
    | none =>
        obtain ⟨σ', hx, hshown⟩ := h.failed hy
        exact ⟨σ', bind_of_error hx, hshown⟩
    | some r =>
        have hy' : y' r.2 = none := by
          have hs : (y s).bind (fun r => y' r.2) = none := hs
          rw [hy] at hs
          exact hs
        obtain ⟨σ₁, hx, hm, hkeep⟩ := h.ok hy
        obtain ⟨σ₂, hx', hshown⟩ := (h' hy hm hkeep).failed hy'
        refine ⟨σ₂, (bind_of_ok hx).trans hx', fun i hi => ?_⟩
        rw [← hkeep i hi]
        exact hshown i (Nat.lt_of_lt_of_le hi hd)

/-- A value that is only looked at. -/
theorem look {β : Type} {x : Virtual Unit} {z : Eval β} {g : β → Eval Unit} {b : β}
    (hz : z s = some (b, s)) (h : Sim d d' x (g b) σ s) : Sim d d' x (z >>= g) σ s := by
  refine congr ?_ h
  show (z s).bind _ = _
  rw [hz]
  rfl

/-- A pointer is unboxed. -/
theorem use (hm : Matches d s σ) (hx : x.index < d) {t : ValueType} (ht : t.isPointer = true)
    (htype : (s.operands x.index).type = t) {f : UInt64 → Virtual Unit} {g : UInt64 → Eval Unit}
    (h : ∀ {σ'}, Matches d s σ' → Sim d d' (f (s.operands x.index).payload)
      (g (s.operands x.index).payload) σ' s) :
    Sim d d' (Virtual.usePayload x t >>= f) (Eval.payload x >>= g) σ s := by
  have hpayload := ValueType.unbox_of_isPointer ht (s.operands x.index)
  have hw := ((hm.shown hx).payloadAs (.inl ht) htype).trans hpayload
  have hm' : Matches d s (σ.set x (.payload t (s.operands x.index).payload)) := by
    refine hm.set ⟨.inl ht, htype, hpayload.symm⟩ fun w hc => ?_
    cases hc
    cases ht
  exact step (Virtual.usePayload_eq hw) (look rfl (h hm'))

/-- An operand is boxed. -/
theorem useValue (hm : Matches d s σ) (hx : x.index < d)
    (hraw : ∀ w, σ.contents x.index ≠ .payload .int32 w) {f : UInt64 → Virtual Unit}
    {y : Eval Unit}
    (h : ∀ {σ'}, Matches d s σ' → Sim d d' (f (s.operands x.index).bits) y σ' s) :
    Sim d d' (Virtual.useValue x >>= f) y σ s := by
  have hw := (hm.shown hx).word (.inr hraw)
  have hm' : Matches d s (σ.set x (.boxed (s.operands x.index).bits)) := hm.set rfl nofun
  exact step (Virtual.useValue_eq hw) (h hm')

theorem define {y : OperandId} (hm : Matches d s σ) (hy : y.index = d) {c : Content} {v : Value}
    (hc : c.Shows v) (hraw : ∀ w, c ≠ .payload .int32 w) :
    Sim d (d + 1) (Virtual.define y c) (Eval.define y v) σ s := by
  refine of_ok rfl rfl ⟨fun {i} hi => ?_, fun hres {i} hi w => ?_, hm.result⟩ fun i hi => ?_
  · by_cases hiy : i = y.index
    · subst hiy
      rw [VirtualState.contents_set_self]
      simpa using hc
    · rw [VirtualState.contents_set_of_ne _ _ hiy]
      simpa [hiy] using hm.shown (by omega)
  · by_cases hiy : i = y.index
    · subst hiy
      rw [VirtualState.contents_set_self]
      exact hraw w
    · rw [VirtualState.contents_set_of_ne _ _ hiy]
      exact hm.raw hres (by omega) w
  · have hne : i ≠ y.index := by omega
    simp [hne]

theorem setResult (hs : ∀ {i}, i < d → (σ.contents i).Shows (s.operands i)) {w : UInt64} {v : Value}
    (hw : w = v.bits) : Sim d d (Virtual.setResult w) (Eval.setResult v) σ s :=
  of_ok rfl rfl ⟨hs, nofun, fun hv => by cases hv; exact hw⟩ fun _ _ => rfl

/-- An integer becomes the result if it is an `int32`. -/
theorem setInt32Result (hs : ∀ {i}, i < d → (σ.contents i).Shows (s.operands i)) {ok : Bool}
    {i : Int} {n : UInt32}
    (hok : ok = (decide (-0x80000000 ≤ i) && decide (i < 0x80000000)))
    (hi : Int32.ofInt i = n.toInt32) :
    Sim d d (Virtual.require ok >>= fun _ => Virtual.setInt32Result n) (Eval.setInt32Result i)
      σ s := by
  have heval : Eval.setInt32Result i s =
      (Eval.require ok >>= fun _ => Eval.setResult (.ofInt32 (Int32.ofInt i))) s := by
    rw [hok]
    rfl
  refine congr heval ?_
  cases ok with
  | true => exact setResult hs (by rw [hi, ValueType.box_int32])
  | false => exact of_failed rfl rfl hs

end Sim

/-! ## Guards -/

section
variable {env : Env} {field : Nat → UInt64} {d : Nat} {σ : VirtualState} {s : EvalState}
  {x y : OperandId}

theorem Virtual.pointer_of_avoids {a : UInt64} {disp : Int32}
    (h : (Span.ofOffset a disp 8).avoids env.area = true) (σ : VirtualState) :
    pointer env a disp σ = .ok (env.mem.read64 (a + disp.toInt64.toUInt64)) σ :=
  read64_of_avoids h σ

theorem Virtual.number_of_avoids {a : UInt64} {disp : Int32}
    (h : (Span.ofOffset a disp 4).avoids env.area = true) (σ : VirtualState) :
    number env a disp σ = .ok (env.mem.read32 (a + disp.toInt64.toUInt64)) σ := by
  rw [Span.ofOffset] at h
  rw [number, read32, if_pos h]
  rfl

theorem guardType_sim (hm : Matches d s σ) (hx : x.index < d) {t : ValueType}
    (ht : t.IsUnboxed) : Sim d d (Virtual.guardType x t) (Eval.guardType x t) σ s := by
  refine .step (a := σ.contents x.index) rfl (.look (b := s.operands x.index) rfl ?_)
  cases hknown : (σ.contents x.index).knownType? with
  | some known => exact .require hm (by rw [(hm.shown hx).type hknown])
  | none =>
      refine .useValue hm hx (fun w hc => ?_) fun hm' => .require hm' (Value.hasTag_eq ht _)
      rw [hc] at hknown
      cases hknown

theorem guardNumber_sim (hm : Matches d s σ) (hx : x.index < d) :
    Sim d d (Virtual.guardNumber x) (do Eval.require (← Eval.operand x).isNumber) σ s := by
  refine .step (a := σ.contents x.index) rfl (.look (b := s.operands x.index) rfl ?_)
  cases hknown : (σ.contents x.index).knownType? with
  | some known => exact .require hm (by rw [Value.isNumber_eq, (hm.shown hx).type hknown])
  | none =>
      refine .useValue hm hx (fun w hc => ?_) fun hm' => .require hm' rfl
      rw [hc] at hknown
      cases hknown

theorem requireClass_sim [ClassTable] (hm : Matches d s σ) {object : UInt64}
    (hreads : ∀ r ∈ Eval.groupReads ⟨env.mem, field⟩ object Layout.groupClass,
      r.avoids env.area = true) (k : ClassKind) :
    Sim d d (Virtual.requireClass env object k)
      (Eval.require ((Eval.Context.mk env.mem field).hasClass object k)) σ s :=
  .step (Virtual.pointer_of_avoids (hreads _ List.mem_cons_self) _)
    (.step (Virtual.pointer_of_avoids (hreads _ (List.mem_cons_of_mem _ List.mem_cons_self)) _)
      (.require hm rfl))

theorem guardArray_sim [ClassTable] (hm : Matches d s σ) (hx : x.index < d)
    (hreads : (s.operands x.index).type = .object →
      ∀ r ∈ Eval.groupReads ⟨env.mem, field⟩ (s.operands x.index).payload Layout.groupClass,
        r.avoids env.area = true) :
    Sim d d (Virtual.guardArray env x) (do
      Eval.guardType x .object
      Eval.require ((Eval.Context.mk env.mem field).hasClass (← Eval.payload x) .array)) σ s := by
  have hraw : (σ.contents x.index).knownType? = none →
      ∀ w, σ.contents x.index ≠ .payload .int32 w := by
    intro hknown w hc
    rw [hc] at hknown
    cases hknown
  have hguard : Eval.guardType x .object s =
      Eval.require ((s.operands x.index).type == .object) s := rfl
  refine .step (a := σ.contents x.index) rfl ?_
  by_cases htype : (s.operands x.index).type = .object
  · rw [htype] at hguard
    refine .look hguard ?_
    cases hknown : (σ.contents x.index).knownType? with
    | some known =>
        obtain rfl : known = .object := ((hm.shown hx).type hknown).symm.trans htype
        exact .use hm hx rfl htype fun hm' => requireClass_sim hm' (hreads htype) _
    | none =>
        refine .useValue hm hx (hraw hknown) fun hm' => ?_
        have htag : Value.hasTag (s.operands x.index) .object = true := by
          rw [Value.hasTag_eq (.inl rfl), htype]
          rfl
        have hunbox := ValueType.unbox_of_isPointer (t := .object) rfl (s.operands x.index)
        rw [show Value.mk (s.operands x.index).bits = s.operands x.index from rfl, htag, hunbox]
        exact .step rfl (.look rfl (requireClass_sim hm' (hreads htype) _))
  · rw [beq_false_of_ne htype] at hguard
    have hnone : ∀ g : Unit → Eval Unit, (Eval.guardType x .object >>= g) s = none := fun g => by
      show (Eval.guardType x .object s).bind _ = _
      rw [hguard]
      rfl
    cases hknown : (σ.contents x.index).knownType? with
    | some known =>
        have hne := (hm.shown hx).type hknown
        rw [hne] at htype
        refine .of_failed ?_ (hnone _) hm.shown
        cases known <;> first | rfl | exact absurd rfl htype
    | none =>
        refine .useValue hm hx (hraw hknown) fun hm' => .of_failed ?_ (hnone _) hm'.shown
        have htag : Value.hasTag (s.operands x.index) .object = false := by
          rw [Value.hasTag_eq (.inl rfl), beq_false_of_ne htype]
        rw [show Value.mk (s.operands x.index).bits = s.operands x.index from rfl, htag]
        rfl

section
variable {disp : Int32} {index : Nat}
  (hfield : (Span.ofOffset env.stub disp 8).avoids env.area = true ∧
    env.mem.read64 (env.stub + disp.toInt64.toUInt64) = field index)
include hfield

theorem Virtual.field_of_avoids (σ : VirtualState) :
    Virtual.field env disp σ = .ok (field index) σ := by
  rw [← hfield.2]
  exact Virtual.pointer_of_avoids hfield.1 σ

theorem guardHeader_sim (hm : Matches d s σ) (hx : x.index < d)
    (htype : (s.operands x.index).type = .object) {header : Int32}
    (hread : (Span.ofOffset (s.operands x.index).payload header 8).avoids env.area = true) :
    Sim d d (Virtual.guardHeader env x header disp) (do
      Eval.require ((Eval.Context.mk env.mem field).pointer (← Eval.payload x) header ==
        field index)) σ s :=
  .use hm hx rfl htype fun hm' => .step (Virtual.field_of_avoids hfield _)
    (.step (Virtual.pointer_of_avoids hread _) (.require hm' rfl))

theorem guardSpecific_sim (hm : Matches d s σ) (hx : x.index < d) {t : ValueType}
    (ht : t.isPointer = true) (htype : (s.operands x.index).type = t) :
    Sim d d (Virtual.guardSpecific env x t disp)
      (Eval.guardSpecific ⟨env.mem, field⟩ x index) σ s :=
  .use hm hx ht htype fun hm' => .step (Virtual.field_of_avoids hfield _) (.require hm' rfl)

/-! ## Loads -/

theorem loadObject_sim (hm : Matches d s σ) (hy : y.index = d)
    (hfit : field index < 0x800000000000) :
    Sim d (d + 1) (Virtual.loadObject env y disp)
      (Eval.define y (.boxed .object (field index))) σ s :=
  .step (Virtual.field_of_avoids hfield _)
    (.define hm hy (Content.shows_pointer rfl (UInt64.lt_iff_toNat_lt.mp hfit)) nofun)

theorem fixedSlot_sim {d' : Nat} (hm : Matches d s σ) (hx : x.index < d)
    (htype : (s.operands x.index).type = .object)
    (hread : (Span.mk ((s.operands x.index).payload + field index) 8).avoids env.area = true)
    {f : UInt64 → Virtual Unit} {g : UInt64 → Eval Unit}
    (h : ∀ {σ' w}, w = ((Eval.Context.mk env.mem field).fixedSlot
        (s.operands x.index).payload (field index)).bits → Matches d s σ' →
      Sim d d' (f w) (g (s.operands x.index).payload) σ' s) :
    Sim d d' (Virtual.slot env x disp false >>= f) (Eval.payload x >>= g) σ s := by
  rw [Virtual.slot, bind_assoc]
  refine .use hm hx rfl htype fun {σ'} hm' => ?_
  rw [Virtual.readSlot, bind_assoc]
  exact .step (Virtual.field_of_avoids hfield _)
    (.step (Virtual.read64_of_avoids hread σ') (h rfl hm'))

theorem dynamicSlot_sim {d' : Nat} (hm : Matches d s σ) (hx : x.index < d)
    (htype : (s.operands x.index).type = .object)
    (hreads : ∀ r ∈ Eval.slotReads ⟨env.mem, field⟩ (s.operands x.index).payload (field index),
      r.avoids env.area = true)
    {f : UInt64 → Virtual Unit} {g : UInt64 → Eval Unit}
    (h : ∀ {σ' w}, w = ((Eval.Context.mk env.mem field).dynamicSlot
        (s.operands x.index).payload (field index)).bits → Matches d s σ' →
      Sim d d' (f w) (g (s.operands x.index).payload) σ' s) :
    Sim d d' (Virtual.slot env x disp true >>= f) (Eval.payload x >>= g) σ s := by
  rw [Virtual.slot, bind_assoc]
  refine .use hm hx rfl htype fun {σ'} hm' => ?_
  rw [Virtual.readSlot, bind_assoc]
  refine .step (Virtual.field_of_avoids hfield _) ?_
  simp only [if_pos, bind_assoc]
  have hslot := hreads _ (List.mem_cons_of_mem _ List.mem_cons_self)
  exact .step (Virtual.pointer_of_avoids (hreads _ List.mem_cons_self) _)
    (.step (Virtual.read64_of_avoids hslot σ') (h rfl hm'))

theorem fieldResult_sim (hm : Matches d s σ) :
    Sim d d (do Virtual.setResult (← Virtual.field env disp))
      (Eval.setResult ⟨field index⟩) σ s :=
  .step (Virtual.field_of_avoids hfield _) (.setResult hm.shown rfl)

end

theorem loadProto_sim (hm : Matches d s σ) (hx : x.index < d)
    (htype : (s.operands x.index).type = .object) (hy : y.index = d)
    (hreads : ∀ r ∈ Eval.groupReads ⟨env.mem, field⟩ (s.operands x.index).payload
      Layout.groupProto, r.avoids env.area = true)
    (hfit : (Eval.Context.mk env.mem field).proto (s.operands x.index).payload <
      0x800000000000) :
    Sim d (d + 1) (Virtual.loadProto env x y) (do
      Eval.define y (.boxed .object
        ((Eval.Context.mk env.mem field).proto (← Eval.payload x)))) σ s :=
  .use hm hx rfl htype fun hm' =>
    .step (Virtual.pointer_of_avoids (hreads _ List.mem_cons_self) _)
    (.step (Virtual.pointer_of_avoids (hreads _ (List.mem_cons_of_mem _ List.mem_cons_self)) _)
      (.define hm' hy (Content.shows_pointer rfl (UInt64.lt_iff_toNat_lt.mp hfit)) nofun))

/-! ## Results -/

theorem arrayLengthResult_sim (hm : Matches d s σ) (hx : x.index < d)
    (htype : (s.operands x.index).type = .object)
    (hpointer : (Span.ofOffset (s.operands x.index).payload Layout.objectElements 8).avoids
      env.area = true)
    (hlength : (Span.ofOffset ((Eval.Context.mk env.mem field).pointer
      (s.operands x.index).payload Layout.objectElements) Layout.elementsLength 4).avoids
      env.area = true) :
    Sim d d (Virtual.arrayLengthResult env x) (do
      Eval.setInt32Result
        ((Eval.Context.mk env.mem field).arrayLength (← Eval.payload x)).toNat) σ s := by
  refine .use hm hx rfl htype fun {σ'} hm' => .step (Virtual.pointer_of_avoids hpointer _)
    (.step (Virtual.number_of_avoids hlength _) ?_)
  have hresult : ∀ n : UInt32, Sim d d
      (Virtual.require (!decide (n.toInt32 < 0)) >>= fun _ => Virtual.setInt32Result n)
      (Eval.setInt32Result n.toNat) σ' s := fun n =>
    .setInt32Result hm'.shown (isInt32_toNat n) (ofInt_toNat n)
  exact hresult _

theorem stringLengthResult_sim (hm : Matches d s σ) (hx : x.index < d)
    (htype : (s.operands x.index).type = .string)
    (hread : (Span.ofOffset (s.operands x.index).payload Layout.stringLength 4).avoids env.area =
      true) :
    Sim d d (Virtual.stringLengthResult env x) (do
      Eval.setResult
        (.ofInt32 ((Eval.Context.mk env.mem field).stringLength (← Eval.payload x)).toInt32)) σ s :=
  .use hm hx rfl htype fun hm' => .step (Virtual.number_of_avoids hread _)
    (.setResult hm'.shown (ValueType.box_int32 _))

theorem operandResult_sim (hm : Matches d s σ) (hx : x.index < d) (hres : s.result = none) :
    Sim d d (Virtual.operandResult x) (do Eval.setResult (← Eval.operand x)) σ s :=
  .look rfl (.useValue hm hx (hm.raw hres hx) fun hm' => .setResult hm'.shown rfl)

/-- The operation on halves is the operation on integers, and overflows where the integer is no
`int32`. -/
structure Virtual.Arith.Computes (op : Virtual.Arith) (f : Int → Int → Int) : Prop where
  overflows : ∀ a b : UInt32, (!op.overflows a b) =
    (decide (-0x80000000 ≤ f a.toInt32.toInt b.toInt32.toInt) &&
      decide (f a.toInt32.toInt b.toInt32.toInt < 0x80000000))
  value : ∀ a b : UInt32, Int32.ofInt (f a.toInt32.toInt b.toInt32.toInt) = (op.value a b).toInt32

theorem Virtual.Arith.computes_add : Arith.add.Computes (· + ·) := by
  have hvalue : ∀ a b : UInt32,
      Int32.ofInt (a.toInt32.toInt + b.toInt32.toInt) = (a + b).toInt32 := by
    intro a b
    rw [Int32.ofInt_add, Int32.ofInt_toInt, Int32.ofInt_toInt]
    rfl
  refine ⟨fun a b => ?_, hvalue⟩
  rw [isInt32_eq, hvalue]
  show (!decide (_ ≠ _)) = decide (_ = _)
  rw [decide_not, Bool.not_not]
  exact decide_eq_decide.mpr eq_comm

theorem Virtual.Arith.computes_sub : Arith.sub.Computes (· - ·) := by
  have hvalue : ∀ a b : UInt32,
      Int32.ofInt (a.toInt32.toInt - b.toInt32.toInt) = (a - b).toInt32 := by
    intro a b
    rw [Int32.ofInt_sub, Int32.ofInt_toInt, Int32.ofInt_toInt]
    rfl
  refine ⟨fun a b => ?_, hvalue⟩
  rw [isInt32_eq, hvalue]
  show (!decide (_ ≠ _)) = decide (_ = _)
  rw [decide_not, Bool.not_not]
  exact decide_eq_decide.mpr eq_comm

theorem arithResult_sim (hm : Matches d s σ) (hx : x.index < d) (hy : y.index < d)
    (hxtype : (s.operands x.index).type = .int32) (hytype : (s.operands y.index).type = .int32)
    {op : Virtual.Arith} {f : Int → Int → Int} (hop : op.Computes f) :
    Sim d d (Virtual.arithResult x y op) (do
      Eval.setInt32Result (f (← Eval.integer x) (← Eval.integer y))) σ s := by
  have hxw := (hm.shown hx).payloadAs (.inr rfl) hxtype
  have hshown : ∀ {i}, i < d → ((σ.set x (.payload .int32
      (ValueType.int32.unbox (s.operands x.index).bits))).contents i).Shows (s.operands i) :=
    shown_set hm.shown (Content.shows_int32 hxtype)
  have hyw := (hshown hy).payloadAs (.inr rfl) hytype
  refine .look rfl (.look rfl (.step (Virtual.usePayload_eq hxw)
    (.step (Virtual.usePayload_eq hyw) ?_)))
  rw [ValueType.toUInt32_unbox_int32, ValueType.toUInt32_unbox_int32]
  exact .setInt32Result (shown_set hshown (Content.shows_int32 hytype)) (hop.overflows _ _)
    (hop.value _ _)

end

/-! ## All operations -/

/-- What the arguments of an instruction need before it runs: operands that are read have a value,
the one that is defined is the next one, and a field is found in the stub. -/
def ArgKind.Ready (env : Env) (disp : Nat → Int32) (field : Nat → UInt64) (d : Nat) :
    (k : ArgKind) → k.Decoded → Prop
  | .use, x => x.index < d
  | .define, y => y.index = d
  | .field _, index => (Span.ofOffset env.stub (disp index) 8).avoids env.area = true ∧
      env.mem.read64 (env.stub + (disp index).toInt64.toUInt64) = field index
  | _, _ => True

/-- An instruction does to virtual registers what it does to values. -/
theorem instruction_sim [ClassTable] {env : Env} {disp : Nat → Int32} {field : Nat → UInt64}
    {d : Nat} {σ : VirtualState} {s : EvalState} (hm : Matches d s σ) (op : Op)
    (args : Args op.schema) (hargs : Args.All (ArgKind.Ready env disp field d) op.schema args)
    (htyped : ∀ {x t}, (x, t) ∈ Instruction.typedUses op args → (s.operands x.index).type = t)
    (hreads : ∀ r ∈ Eval.reads ⟨env.mem, field⟩ s op args, r.avoids env.area = true)
    (hfit : (Eval.loadedPointer? ⟨env.mem, field⟩ s op args).all (· < 0x800000000000) = true)
    (hres : op.isResult = true → s.result = none) :
    Sim d (d + op.numDefs) (Virtual.instruction env disp op args)
      (Eval.instruction ⟨env.mem, field⟩ op args) σ s := by
  cases op with
  | guardIsObject => exact guardType_sim hm hargs.1 (.inl rfl)
  | guardIsString => exact guardType_sim hm hargs.1 (.inl rfl)
  | guardIsSymbol => exact guardType_sim hm hargs.1 (.inl rfl)
  | guardIsInt32 => exact guardType_sim hm hargs.1 (.inr rfl)
  | guardIsNumber => exact guardNumber_sim hm hargs.1
  | guardIsArray =>
      refine guardArray_sim hm hargs.1 fun htype r hr => hreads r ?_
      show r ∈ if (s.operands args.1.index).type = .object then _ else _
      rw [if_pos htype]
      exact hr
  | guardShape =>
      exact guardHeader_sim hargs.2.1 hm hargs.1 (htyped List.mem_cons_self)
        (hreads _ List.mem_cons_self)
  | guardGroup =>
      exact guardHeader_sim hargs.2.1 hm hargs.1 (htyped List.mem_cons_self)
        (hreads _ List.mem_cons_self)
  | guardClass =>
      exact .use hm hargs.1 rfl (htyped List.mem_cons_self) fun hm' =>
        requireClass_sim hm' hreads _
  | guardSpecificObject =>
      exact guardSpecific_sim hargs.2.1 hm hargs.1 rfl (htyped List.mem_cons_self)
  | guardSpecificAtom =>
      exact guardSpecific_sim hargs.2.1 hm hargs.1 rfl (htyped List.mem_cons_self)
  | guardSpecificSymbol =>
      exact guardSpecific_sim hargs.2.1 hm hargs.1 rfl (htyped List.mem_cons_self)
  | guardSpecificId =>
      exact guardSpecific_sim hargs.2.1 hm hargs.1 rfl (htyped List.mem_cons_self)
  | loadObject => exact loadObject_sim hargs.2.1 hm hargs.1 (of_decide_eq_true hfit)
  | loadProto =>
      exact loadProto_sim hm hargs.1 (htyped List.mem_cons_self) hargs.2.1 hreads (of_decide_eq_true hfit)
  | loadFixedSlot =>
      exact fixedSlot_sim hargs.2.1 hm hargs.1 (htyped List.mem_cons_self)
        (hreads _ List.mem_cons_self) fun hw hm' => .define hm' hargs.2.2.1 hw nofun
  | loadDynamicSlot =>
      exact dynamicSlot_sim hargs.2.1 hm hargs.1 (htyped List.mem_cons_self) hreads
        fun hw hm' => .define hm' hargs.2.2.1 hw nofun
  | loadInt32Constant => exact .define hm hargs.1 rfl nofun
  | loadFixedSlotResult =>
      exact fixedSlot_sim hargs.2.1 hm hargs.1 (htyped List.mem_cons_self)
        (hreads _ List.mem_cons_self) fun hw hm' => .setResult hm'.shown hw
  | loadDynamicSlotResult =>
      exact dynamicSlot_sim hargs.2.1 hm hargs.1 (htyped List.mem_cons_self) hreads
        fun hw hm' => .setResult hm'.shown hw
  | loadInt32ArrayLengthResult =>
      exact arrayLengthResult_sim hm hargs.1 (htyped List.mem_cons_self)
        (hreads _ List.mem_cons_self) (hreads _ (List.mem_cons_of_mem _ List.mem_cons_self))
  | loadStringLengthResult =>
      exact stringLengthResult_sim hm hargs.1 (htyped List.mem_cons_self)
        (hreads _ List.mem_cons_self)
  | loadUndefinedResult => exact .setResult hm.shown rfl
  | loadBooleanResult => exact .setResult hm.shown rfl
  | loadValueResult => exact fieldResult_sim hargs.1 hm
  | loadDoubleResult => exact fieldResult_sim hargs.1 hm
  | loadOperandResult => exact operandResult_sim hm hargs.1 (hres rfl)
  | int32AddResult =>
      exact arithResult_sim hm hargs.1 hargs.2.1 (htyped List.mem_cons_self)
        (htyped (List.mem_cons_of_mem _ List.mem_cons_self)) Virtual.Arith.computes_add
  | int32SubResult =>
      exact arithResult_sim hm hargs.1 hargs.2.1 (htyped List.mem_cons_self)
        (htyped (List.mem_cons_of_mem _ List.mem_cons_self)) Virtual.Arith.computes_sub
  | returnFromIC => exact .of_ok rfl rfl hm fun _ _ => rfl

end InlineCache
