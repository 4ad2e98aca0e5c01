import InlineCache.Proofs.Codegen.Loads

/-!
# The code of results

A result takes the output register first, so whatever was in it is saved before the operands are
fetched. From then on no operand is in that register, and it stays taken to the end of the
program. A result that fails has spoilt the output register only.
-/

namespace InlineCache

open X64

section
variable {env : Env} {a : Allocator} {σ : VirtualState} {m m' : Machine} {k d : Nat}
  {taken : List Register}

/-- The result is in its register. -/
theorem Running.finish (h : Running env false a σ m) {w : UInt64}
    (hw : m.reg outputRegister = w) : Running env true a { σ with result := w } m :=
  ⟨h.realizes, h.stub, fun _ => hw⟩

theorem Allocator.Inv.finish (h : a.Inv k d taken false) (hout : a.Claimed outputRegister) :
    a.Inv k d taken true :=
  ⟨h.sound, h.instruction, h.shallow, fun _ => hout⟩

theorem Allocator.Inv.allocatable_output (h : a.Inv k d taken false) :
    a.allocatable.contains outputRegister = true := by
  obtain ⟨e, he⟩ := h.sound.engine
  rw [he]
  exact allocatable_of_mem e (by decide)

theorem Allocator.Inv.spare_output (h : a.Inv k d taken false) (hout : a.Claimed outputRegister) :
    a.Spare false outputRegister :=
  h.spare hout h.allocatable_output nofun

end

/-- The code that boxes the integer in the output register. -/
def Snippet.boxOutput : Code :=
  [.mov32 outputRegister outputRegister, .movImm scratchRegister ValueType.int32.shiftedTag,
    .or outputRegister scratchRegister]

theorem Snippet.straight_boxOutput : Straight boxOutput :=
  straight_cons rfl (straight_cons rfl (straight_cons rfl straight_nil))

/-- The integer in the output register becomes the result. -/
theorem Simulates.boxOutput {env : Env} {a : Allocator} {bs : Array Bailout} {s : VirtualState}
    {m : Machine} {i : UInt32} (hi : m.reg outputRegister = i.toUInt64)
    (h : ∀ {m'}, Machine.AgreeExcept [outputRegister, scratchRegister] m m' →
      Running env false a s m') :
    Simulates env true a bs (Virtual.setInt32Result i s)
      (exec env.area Snippet.boxOutput m) := by
  obtain ⟨c, hc, -, hcomp⟩ := @Snippet.tag_of_isBoxable .int32 rfl outputRegister
    outputRegister (by decide)
  cases hc
  obtain ⟨m', hx, hr, ha⟩ := hcomp env.area m
  refine ⟨m', hx, ?_⟩
  rw [hi] at hr
  exact (h ha).finish hr

/-- Code that computes an operation on low halves, and branches if it overflows. -/
structure Snippet.Implements (op : Virtual.Arith) (compute : Register → Register → Label → Code) :
    Prop where
  length : ∀ {a b l}, (compute a b l).length ≤ 2
  leadsTo : ∀ {a b l}, LeadsTo l (compute a b l)
  runs : ∀ area m a b l, ∃ m', exec area (compute a b l) m =
    (if op.overflows (m.reg a).toUInt32 (m.reg b).toUInt32 then .jump l m' else .fall m') ∧
      Machine.AgreeExcept [a] m m' ∧
      m'.reg a = (op.value (m.reg a).toUInt32 (m.reg b).toUInt32).toUInt64

theorem Snippet.implements_add : Implements .add addOrBranch where
  length := Nat.le_refl 2
  leadsTo := by simp [LeadsTo, addOrBranch, Instr.target?]
  runs area m a b l := by
    rw [addOrBranch, exec_add32, exec_jcc rfl]
    exact ⟨_, rfl, ((Machine.AgreeExcept.refl _ m).withFlags _).setReg (List.mem_singleton_self a) _,
      by rw [Machine.reg_setReg, if_pos rfl]; rfl⟩

theorem Snippet.implements_sub : Implements .sub subOrBranch where
  length := Nat.le_refl 2
  leadsTo := by simp [LeadsTo, subOrBranch, Instr.target?]
  runs area m a b l := by
    rw [subOrBranch, exec_sub32, exec_jcc rfl]
    exact ⟨_, rfl, ((Machine.AgreeExcept.refl _ m).withFlags _).setReg (List.mem_singleton_self a) _,
      by rw [Machine.reg_setReg, if_pos rfl]; rfl⟩

namespace Gen

variable {s : Codegen} {k d : Nat} {x y : OperandId}

/-- What taking the output register comes to. -/
structure Aimed (k d : Nat) (a : Allocator) (c : Snippet.Code) (a' : Allocator) : Prop where
  advance : Advance false a c a' fun σ => σ
  length : c.length ≤ 1
  claimed : a'.Claimed outputRegister
  inv : a'.Inv k d [outputRegister] false

/-- What taking the output register, the object in `o` and the register `q` for scratch comes
to. -/
structure Reaches (k d : Nat) (a : Allocator) (x : OperandId) (o q : Register)
    (c : Snippet.Code) (a' : Allocator) : Prop where
  advance : Advance false a c a'
    fun σ => σ.set x (.payload .object ((σ.contents x.index).payloadAs .object))
  length : c.length ≤ 10
  place : a'.place x.index = .payloadReg o .object
  output : a'.Claimed outputRegister
  scratch : a'.Claimed q
  allocatable : a'.allocatable.contains q = true
  output_ne : outputRegister ≠ q
  inv : a'.Inv k d [q, o, outputRegister] false

namespace Reaches

variable {a a' : Allocator} {o q : Register} {c : Snippet.Code}
  (h : Reaches k d a x o q c a')
include h

theorem register? : (a'.place x.index).register? = some o := by
  rw [h.place]
  rfl

theorem object_ne : o ≠ .rsp ∧ o ≠ q :=
  ⟨(h.inv.register?_ne h.register?).1, fun he => h.scratch.notHeld _ (he ▸ h.register?)⟩

theorem spare : ∀ r ∈ [outputRegister, q, scratchRegister], a'.Spare false r := by
  simpa using ⟨h.inv.spare_output h.output, h.inv.spare h.scratch h.allocatable nofun,
    h.inv.spare_scratch⟩

theorem operand {env : Env} {σ : VirtualState} {m : Machine}
    (hrun : Running env false a'
      (σ.set x (.payload .object ((σ.contents x.index).payloadAs .object))) m) :
    m.reg o = (σ.contents x.index).payloadAs .object := by
  have hw := hrun.contents h.place rfl
  rw [VirtualState.contents_set_self] at hw
  exact (Content.payload.inj hw).2.symm

theorem next :
    (a'.free q).nextInstruction.Inv (k + 1) d (initiallyTaken true) true := by
  have hinv := h.inv.free h.scratch h.allocatable nofun
  have hout : (a'.free q).Claimed outputRegister :=
    ⟨by simp [Allocator.free, h.output.notFree, h.output_ne.symm], h.output.notHeld⟩
  refine (hinv.finish hout).next (by simp) fun r hr => ?_
  simp only [List.mem_cons, List.not_mem_nil, or_false] at hr
  obtain rfl | rfl | rfl := hr
  · exact .inl (.inl (by simp [Allocator.free]))
  · exact .inl (.inr ⟨x.index, h.register?⟩)
  · exact .inr (by decide)

end Reaches

theorem output_ensures (hinv : s.alloc.Inv k d (initiallyTaken false) false) :
    Ensures (Overflow k) (allocateFixed outputRegister) s fun _ s' =>
      ∃ c a, s' = s.write c a ∧ Aimed k d s.alloc c a := by
  refine (allocateFixed_ensures hinv (by decide) hinv.allocatable_output (by decide)).mono
    (fun _ _ h => h) ?_
  rintro _ _ ⟨c, a, rfl, halloc, hinv₁⟩
  exact ⟨c, a, rfl, halloc.advance, halloc.length, halloc.claimed, hinv₁⟩

theorem boxInt32Output_eq :
    boxInt32Output s = .ok () (s.write Snippet.boxOutput s.alloc) := rfl

variable (hinv : s.alloc.Inv k d (initiallyTaken false) false) (hlab : s.Labelled)
include hinv hlab

/-- A result that needs no operand. -/
theorem immediate_ensures (i : Instr Label) (hi : i.target? = none) (v : Env → Virtual UInt64)
    (hv : ∀ {env a σ m}, Running env false a σ m → a.Spare false outputRegister →
      Simulates env true a s.bailouts ((v env >>= Virtual.setResult) σ) (exec env.area [i] m)) :
    Ensures (Overflow k)
      (do allocateFixed outputRegister
          code [i]) s
      (Emitted (fun env => v env >>= Virtual.setResult) k d false true s) := by
  refine Ensures.bind ((output_ensures hinv).mono (fun _ _ h => h) ?_)
  rintro _ _ ⟨c, a, rfl, haim⟩
  refine Ensures.of_ok (code_eq _ _) ?_
  rw [Codegen.alloc_write, Codegen.write_write]
  refine Emitted.unguarded hlab haim.advance ?_ (straight_cons hi straight_nil) haim.inv (by simp)
    (Allocator.Continues.refl _) ?_ ?_
  · have := haim.length
    simp
    omega
  · intro env σ m _ _ hrun
    exact hv hrun (haim.inv.spare_output haim.claimed)
  · exact (haim.inv.finish haim.claimed).next (by simp) fun r hr => .inr hr

theorem constantResult_ensures (w : Value) :
    Ensures (Overflow k) (constantResult w) s
      (Emitted (fun _ => Virtual.setResult w.bits) k d false true s) := by
  refine immediate_ensures hinv hlab (.movImm outputRegister w.bits) rfl (fun _ => pure w.bits)
    fun {env a σ m} hrun hout => ?_
  rw [exec_movImm]
  have ha := (Machine.AgreeExcept.refl [outputRegister] m).setReg (List.mem_singleton_self _) w.bits
  exact ⟨_, rfl, (hrun.overwrite ha (by simpa using hout)).finish
    (by rw [Machine.reg_setReg, if_pos rfl])⟩

theorem fieldResult_ensures (disp : Int32) :
    Ensures (Overflow k) (fieldResult disp) s
      (Emitted (fun env => do Virtual.setResult (← Virtual.field env disp)) k d false true s) := by
  refine immediate_ensures hinv hlab (.load outputRegister stubRegister disp) rfl
    (fun env => Virtual.field env disp) fun {env a σ m} hrun hout => ?_
  refine Simulates.load (by decide) hrun.stub hrun.realizes.mem fun w => ?_
  have ha := (Machine.AgreeExcept.refl [outputRegister] m).setReg (List.mem_singleton_self _) w
  exact ⟨_, rfl, (hrun.overwrite ha (by simpa using hout)).finish
    (by rw [Machine.reg_setReg, if_pos rfl])⟩

variable (hx : x.index < d) (hdead : s.alloc.isDead x.index = false)
include hx hdead

omit hx in
/-- A result of one operand that cannot fail and needs no other register. -/
theorem unary_ensures {use : Gen Register} {f : Content → Content} {p : Register → Place}
    (huse : ∀ {s : Codegen}, s.alloc.Inv k d [outputRegister] false →
      s.alloc.isDead x.index = false →
      Ensures (Overflow k) use s (Used k d [outputRegister] false s x f p))
    (hp : ∀ o, (p o).register? = some o) (code : Register → Snippet.Code)
    (hlen : ∀ {o}, (code o).length ≤ 20) (hstraight : ∀ {o}, Straight (code o))
    {rest : Register → Gen Unit}
    (hrest : ∀ {o} {s : Codegen}, rest o s = .ok () (s.write (code o) s.alloc))
    {V : Env → Virtual Unit}
    (hruns : ∀ {env a σ m o}, Running env false a (σ.set x (f (σ.contents x.index))) m →
      f (σ.contents x.index) = (p o).form (m.reg o) → o ≠ .rsp →
      (∀ q ∈ [outputRegister, scratchRegister], a.Spare false q) →
      Simulates env true a s.bailouts (V env σ) (exec env.area (code o) m)) :
    Ensures (Overflow k)
      (do allocateFixed outputRegister
          let o ← use
          rest o) s (Emitted V k d false true s) := by
  refine Ensures.bind ((output_ensures hinv).mono (fun _ _ h => h) ?_)
  rintro _ _ ⟨c₀, a₀, rfl, haim⟩
  refine Ensures.bind ((huse (s := s.write c₀ a₀) haim.inv
    (by rw [Codegen.alloc_write, haim.advance.continues.isDead]; exact hdead)).mono
    (fun _ _ h => h) ?_)
  rintro o _ ⟨c₁, a₁, rfl, huse, hinv₁⟩
  refine Ensures.of_ok hrest ?_
  rw [Codegen.alloc_write, Codegen.write_write, Codegen.write_write, ← List.append_assoc]
  have hclaimed := huse.claimed haim.claimed
  have hheld : (a₁.place x.index).register? = some o := by rw [huse.place]; exact hp o
  refine Emitted.unguarded hlab (haim.advance.trans huse.advance) ?_ hstraight hinv₁ (by simp)
    (Allocator.Continues.refl _) ?_ ?_
  · have h₀ := haim.length
    have h₁ := huse.length
    have h₂ := @hlen o
    rw [List.length_append]
    omega
  · intro env σ m _ _ hrun
    have hw := hrun.contents huse.place (hp o)
    rw [VirtualState.contents_set_self] at hw
    exact hruns hrun hw (hinv₁.register?_ne hheld).1
      (by simpa using ⟨hinv₁.spare_output hclaimed, hinv₁.spare_scratch⟩)
  · refine (hinv₁.finish hclaimed).next (by simp) fun q hq => ?_
    obtain rfl | hq := List.mem_cons.mp hq
    · exact .inl (.inr ⟨x.index, hheld⟩)
    · exact .inr hq

theorem operandResult_ensures :
    Ensures (Overflow k) (operandResult x) s
      (Emitted (fun _ => Virtual.operandResult x) k d false true s) := by
  refine unary_ensures hinv hlab hdead
    (fun hinv hdead => useValue_ensures hinv (by decide) hx hdead) (fun o => rfl)
    (fun o => Snippet.move outputRegister o)
    (fun {o} => Nat.le_trans (Snippet.length_move _ o) (by decide))
    (fun {o} => Snippet.straight_move _ o) (fun {o s} => rfl)
    fun {env a σ m o} hrun hw _ hspare => ?_
  rw [Snippet.exec_move]
  have ha := (Machine.AgreeExcept.refl [outputRegister] m).setReg (List.mem_singleton_self _)
    (m.reg o)
  refine ⟨_, rfl, (hrun.overwrite ha fun q hq => hspare q ?_).finish ?_⟩
  · rw [List.mem_singleton] at hq
    simp [hq]
  · rw [Machine.reg_setReg, if_pos rfl]
    exact (Content.boxed.inj hw).symm

theorem stringLengthResult_ensures :
    Ensures (Overflow k) (stringLengthResult x) s
      (Emitted (fun env => Virtual.stringLengthResult env x) k d false true s) := by
  refine unary_ensures hinv hlab hdead
    (fun hinv hdead => usePayload_ensures (t := .string) hinv (by decide) hx hdead rfl)
    (fun o => rfl) (fun o => .load32 outputRegister o Layout.stringLength :: Snippet.boxOutput)
    (fun {o} => by simp [Snippet.boxOutput])
    (fun {o} => straight_cons rfl Snippet.straight_boxOutput) (fun {o s} => ?_)
    fun {env a σ m o} hrun hw ho hspare => ?_
  · refine (bind_of_ok (code_eq _ _)).trans (boxInt32Output_eq.trans ?_)
    rw [Codegen.write_write]
    rfl
  · refine Simulates.load32 ho (Content.payload.inj hw).2.symm hrun.realizes.mem fun length => ?_
    refine Simulates.boxOutput (by rw [Machine.reg_setReg, if_pos rfl]) fun ha => ?_
    exact hrun.overwrite (((Machine.AgreeExcept.refl _ m).setReg List.mem_cons_self _).trans ha)
      hspare

omit hlab in
/-- A result of an object takes the output register, the object and a register for scratch. -/
theorem object_ensures {rest : Register → Register → Gen Unit} {Q : Unit → Codegen → Prop}
    (hrest : ∀ {o q c a}, Reaches k d s.alloc x o q c a →
      Ensures (Overflow k) (rest o q) (s.write c a) Q) :
    Ensures (Overflow k)
      (do allocateFixed outputRegister
          let object ← usePayload x.index .object
          let scratch ← allocate
          rest object scratch) s Q := by
  refine Ensures.bind ((output_ensures hinv).mono (fun _ _ h => h) ?_)
  rintro _ _ ⟨c₀, a₀, rfl, haim⟩
  refine Ensures.bind ((usePayload_ensures (s := s.write c₀ a₀) (x := x) (t := .object) haim.inv
    (by decide) hx (by rw [Codegen.alloc_write, haim.advance.continues.isDead]; exact hdead)
    rfl).mono (fun _ _ h => h) ?_)
  rintro o _ ⟨c₁, a₁, rfl, huse, hinv₁⟩
  refine Ensures.bind ((allocate_ensures hinv₁ (by simp)).mono (fun _ _ h => h) ?_)
  rintro q _ ⟨c₂, a₂, rfl, halloc, hinv₂⟩
  have hpin := huse.isPinned
    (by rw [Codegen.alloc_write, haim.advance.continues.isDead]; exact hdead) rfl
  have hother := halloc.others (huse.claimed haim.claimed)
  rw [Codegen.write_write, Codegen.write_write]
  refine hrest ⟨haim.advance.trans (huse.advance.trans halloc.advance), ?_,
    (halloc.pinned hpin).trans huse.place, hother.1, halloc.claimed, halloc.allocatable,
    hother.2, hinv₂⟩
  have h₀ := haim.length
  have h₁ := huse.length
  have h₂ := halloc.length
  simp only [List.length_append]
  omega

theorem slotResult_ensures (disp : Int32) (dynamic : Bool) :
    Ensures (Overflow k) (slotResult x disp dynamic) s
      (Emitted (fun env => Virtual.slotResult env x disp dynamic) k d false true s) := by
  refine object_ensures hinv hx hdead fun {o q c a} hreach => ?_
  refine Ensures.bind_ok (readSlot_eq _ _ _ _ _)
    (Ensures.of_ok (release_write _ hreach.scratch) ?_)
  rw [Codegen.alloc_write, Codegen.write_write]
  have hspare := hreach.spare
  refine Emitted.unguarded hlab hreach.advance ?_ (Snippet.straight_readSlot _ _ _ _ _) hreach.inv
    (by simp) Allocator.continues_free ?_ hreach.next
  · have h₁ := hreach.length
    have h₂ := Snippet.length_readSlot outputRegister o q disp dynamic
    omega
  · intro env σ m _ _ hrun
    refine Simulates.readSlot
      (s := σ.set x (.payload .object ((σ.contents x.index).payloadAs .object)))
      (k := Virtual.setResult) disp dynamic (hreach.operand hrun) hrun.stub hrun.realizes.mem
      hreach.object_ne.1 (hspare q (by simp)).ne_rsp hreach.object_ne.2 hreach.output_ne
      fun {v m'} ha hv => ?_
    exact ⟨m', rfl, ((hrun.overwrite (ha.mono (by simp)) hspare).free q).finish hv⟩

theorem arrayLengthResult_ensures :
    Ensures (Overflow k) (arrayLengthResult x) s
      (Emitted (fun env => Virtual.arrayLengthResult env x) k d false true s) := by
  refine object_ensures hinv hx hdead fun {o q c a} hreach => ?_
  obtain ⟨b, bs, hb, hmem, hshows, hnotes⟩ := bailout_eq (hlab.write c a)
  refine Ensures.bind_ok hb (Ensures.bind_ok (code_eq _ _) (Ensures.bind_ok (code_eq _ _)
    (Ensures.bind_ok boxInt32Output_eq (Ensures.of_ok (a := ()) (t := (s.write (c ++
      (.load q o Layout.objectElements :: .load32 outputRegister q Layout.elementsLength ::
        (Snippet.branchNegative32 outputRegister b.label ++ Snippet.boxOutput)))
      (a.free q)).note bs) ?_ ?_))))
  · simp only [Codegen.write_write, Codegen.alloc_write, Codegen.alloc_note, Codegen.write_note]
    rw [release_eq (s := (s.write _ a).note bs) hreach.scratch]
    simp [Codegen.note, Codegen.write]
  have hspare := hreach.spare
  refine Emitted.of_advance hreach.advance ?_ hreach.inv (by simp) ⟨hnotes.grows, hnotes.label⟩
    (fun {i l} hi hl => ⟨b, hmem, ?_⟩) Allocator.continues_free ?_ hreach.next
  · have := hreach.length
    simp [Snippet.branchNegative32, Snippet.boxOutput]
    omega
  · have hleads : LeadsTo b.label (.load q o Layout.objectElements ::
        .load32 outputRegister q Layout.elementsLength ::
        (Snippet.branchNegative32 outputRegister b.label ++ Snippet.boxOutput)) := by
      simp [LeadsTo, Snippet.branchNegative32, Snippet.boxOutput, Instr.target?]
    exact (hleads i hi l hl).symm
  · intro env σ m _ _ hrun
    have hq : q ∈ [outputRegister, q, scratchRegister] := by simp
    have hout : outputRegister ∈ [outputRegister, q, scratchRegister] := List.mem_cons_self
    refine Simulates.load hreach.object_ne.1 (hreach.operand hrun) hrun.realizes.mem
      fun elements => ?_
    refine Simulates.load32 (m := m.setReg q elements) (hspare q hq).ne_rsp
      (by rw [Machine.reg_setReg, if_pos rfl]) hrun.realizes.mem fun length => ?_
    have hload := ((Machine.AgreeExcept.refl _ m).setReg hq elements).setReg hout length.toUInt64
    have hlength : ((m.setReg q elements).setReg outputRegister length.toUInt64).reg outputRegister
        = length.toUInt64 := by rw [Machine.reg_setReg, if_pos rfl]
    refine Simulates.branch (Snippet.branches_negative32 outputRegister b.label) hmem
      (by rw [hlength, UInt32.toUInt32_toUInt64])
      (fun ha => (hrun.overwrite (hload.trans (ha.mono (by simp))) hspare).bailout hshows)
      fun {m₁} ha₁ => ?_
    refine Simulates.boxOutput (by rw [ha₁.reg _ (by simp), hlength]) fun ha => ?_
    exact (hrun.overwrite ((hload.trans (ha₁.mono (by simp))).trans (ha.mono (by simp))) hspare).free q

omit hinv hlab hx hdead in
/-- The registers of two integers, which may be one and the same. -/
theorem arith_operands {env : Env} {a : Allocator} {σ : VirtualState} {m : Machine}
    {o q : Register} {w : UInt64}
    (hrun : Running env false a ((σ.set x (.payload .int32 w)).set y (.payload .int32
      (((σ.set x (.payload .int32 w)).contents y.index).payloadAs .int32))) m)
    (hx : a.place x.index = .payloadReg o .int32) (hy : a.place y.index = .payloadReg q .int32) :
    m.reg o = w ∧
      m.reg q = ((σ.set x (.payload .int32 w)).contents y.index).payloadAs .int32 := by
  have hright := hrun.contents hy rfl
  have hleft := hrun.contents hx rfl
  rw [VirtualState.contents_set_self] at hright
  refine ⟨?_, (Content.payload.inj hright).2.symm⟩
  by_cases hxy : x.index = y.index
  · rw [hxy, VirtualState.contents_set_self, ← hxy, VirtualState.contents_set_self] at hleft
    exact (Content.payload.inj hleft).2.symm
  · rw [VirtualState.contents_set_of_ne _ _ hxy, VirtualState.contents_set_self] at hleft
    exact (Content.payload.inj hleft).2.symm

/-- Both operands may be the same. -/
theorem arithResult_ensures {op : Virtual.Arith} {compute : Register → Register → Label → Snippet.Code}
    (hop : Snippet.Implements op compute) (hy : y.index < d)
    (hydead : s.alloc.isDead y.index = false) :
    Ensures (Overflow k) (arithResult x y compute) s
      (Emitted (fun _ => Virtual.arithResult x y op) k d false true s) := by
  refine Ensures.bind ((output_ensures hinv).mono (fun _ _ h => h) ?_)
  rintro _ _ ⟨c₀, a₀, rfl, haim⟩
  have hdead₀ : a₀.isDead x.index = false := by rw [haim.advance.continues.isDead]; exact hdead
  refine Ensures.bind ((usePayload_ensures (s := s.write c₀ a₀) (x := x) (t := .int32) haim.inv
    (by decide) hx hdead₀ rfl).mono (fun _ _ h => h) ?_)
  rintro o _ ⟨c₁, a₁, rfl, huse, hinv₁⟩
  have hdead₁ : a₁.isDead y.index = false := by
    rw [(haim.advance.continues.trans huse.advance.continues).isDead]
    exact hydead
  refine Ensures.bind ((usePayload_ensures (x := y) (t := .int32) hinv₁ (by simp) hy hdead₁
    rfl).mono (fun _ _ h => h) ?_)
  rintro q _ ⟨c₂, a₂, rfl, huse', hinv₂⟩
  rw [Codegen.write_write, Codegen.write_write]
  rw [Codegen.alloc_write] at huse huse'
  obtain ⟨b, bs, hb, hmem, hshows, hnotes⟩ := bailout_eq (hlab.write (c₀ ++ (c₁ ++ c₂)) a₂)
  refine Ensures.bind_ok hb (Ensures.bind_ok (code_eq _ _) (Ensures.bind_ok (code_eq _ _)
    (Ensures.of_ok boxInt32Output_eq ?_)))
  simp only [Codegen.write_note, Codegen.alloc_note, Codegen.alloc_write, Codegen.write_write]
  rw [List.append_assoc (c₀ ++ (c₁ ++ c₂)), List.append_assoc (c₀ ++ (c₁ ++ c₂))]
  -- The first operand stays in its register, also if it is the second one too.
  have hplace : a₂.place x.index = .payloadReg o .int32 := by
    by_cases hxy : x.index = y.index
    · have hq : q = o := huse'.stays (by rw [← hxy, huse.place]; rfl)
      rw [hxy, huse'.place, hq]
    · exact (huse'.pinned hxy (huse.isPinned hdead₀ rfl)).trans huse.place
  have hheld : (a₂.place x.index).register? = some o := by rw [hplace]; rfl
  have hheld' : (a₂.place y.index).register? = some q := by rw [huse'.place]; rfl
  have hout := huse'.claimed (huse.claimed haim.claimed)
  have hspare : ∀ r ∈ [outputRegister, scratchRegister], a₂.Spare false r := by
    simpa using ⟨hinv₂.spare_output hout, hinv₂.spare_scratch⟩
  have hqout : q ≠ outputRegister := fun h => hout.notHeld y.index (h ▸ hheld')
  refine Emitted.of_advance (haim.advance.trans (huse.advance.trans huse'.advance)) ?_ hinv₂
    (by simp) ⟨hnotes.grows, hnotes.label⟩ (fun {i l} hi hl => ⟨b, hmem, ?_⟩)
    (Allocator.Continues.refl _) ?_ ?_
  · have h₀ := haim.length
    have h₁ := huse.length
    have h₂ := huse'.length
    have h₃ := Snippet.length_move outputRegister o
    have h₄ := @Snippet.Implements.length _ _ hop outputRegister q b.label
    simp only [List.length_append, Snippet.boxOutput, List.length_cons, List.length_nil]
    omega
  · exact ((LeadsTo.append ((Snippet.straight_move _ _).leadsTo _) hop.leadsTo).append
      (Snippet.straight_boxOutput.leadsTo _) i hi l hl).symm
  · intro env σ m _ _ hrun
    obtain ⟨hleft, hright⟩ := arith_operands hrun hplace huse'.place
    have hm := (Machine.AgreeExcept.refl [outputRegister, scratchRegister] m).setReg
      List.mem_cons_self (m.reg o)
    obtain ⟨m', hx', ha, hr⟩ := hop.runs env.area (m.setReg outputRegister (m.reg o))
      outputRegister q b.label
    have hm' := hm.trans (ha.mono (by simp))
    rw [Machine.reg_setReg, if_pos rfl, Machine.reg_setReg, if_neg hqout.symm, hleft, hright] at hx' hr
    rw [List.append_assoc, exec_append_of_fall (Snippet.exec_move _ _), hleft, exec_append, hx']
    show Simulates _ _ _ _ ((Virtual.require _ >>= fun _ => Virtual.setInt32Result _) _) _
    cases hov : op.overflows _ _ with
    | true => exact ⟨b, hmem, m', rfl, (hrun.overwrite hm' hspare).bailout hshows⟩
    | false => exact Simulates.boxOutput hr fun ha' => hrun.overwrite (hm'.trans ha') hspare
  · refine (hinv₂.finish hout).next (by simp) fun r hr => ?_
    simp only [List.mem_cons, List.not_mem_nil, or_false] at hr
    obtain rfl | rfl | rfl := hr
    · exact .inl (.inr ⟨y.index, hheld'⟩)
    · exact .inl (.inr ⟨x.index, hheld⟩)
    · exact .inr (by decide)

end Gen
end InlineCache
