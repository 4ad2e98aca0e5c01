import InlineCache.Codegen.Instruction
import InlineCache.Proofs.Codegen.Translates

/-!
# The code of guards

Most guards have one shape: bring the operand to a register, take a register for scratch, ask for a
bailout, test, and give the scratch register back. What the shape amounts to is proved once, for
any test (`test_ensures`). A test sees a machine with the operand in a register (`Testing`) and may
overwrite the two scratch registers; nothing that the virtual registers contain is in those, so
whether the test passes or fails, the machine still realizes them.
-/

namespace InlineCache

open X64

/-- The machine when a guard tests its operand `w`, which is in `o`. The register `r` is free to
use, and the guard goes to `b` if it fails. -/
structure Testing (env : Env) (done : Bool) (a : Allocator) (bs : Array Bailout)
    (σ : VirtualState) (m : Machine) (o r : Register) (w : UInt64) (b : Bailout) : Prop where
  operand : m.reg o = w
  stub : m.reg stubRegister = env.stub
  mem : ∀ {x}, env.area x = false → m.mem x = env.mem x
  operand_ne : o ≠ .rsp ∧ o ≠ r ∧ o ≠ scratchRegister
  scratch_ne : r ≠ .rsp ∧ r ≠ stubRegister ∧ r ≠ scratchRegister
  noted : b ∈ bs
  fails : ∀ {m'}, Machine.AgreeExcept [r, scratchRegister] m m' → b.Running env σ m'
  passes : ∀ {m'}, Machine.AgreeExcept [r, scratchRegister] m m' → Running env done a σ m'

/-- The comparison of a class, at the end of a guard. The object is in `q`. -/
theorem Testing.requireClass [ClassTable] {env : Env} {done : Bool} {a : Allocator}
    {bs : Array Bailout} {σ : VirtualState} {m m' : Machine} {o r q : Register} {w object : UInt64}
    {b : Bailout} (h : Testing env done a bs σ m o r w b)
    (hm : Machine.AgreeExcept [r, scratchRegister] m m') (hq : q ≠ .rsp) (hobject : m'.reg q = object)
    (c : ClassKind) :
    Simulates env done a bs (Virtual.requireClass env object c σ)
      (exec env.area (.load r q Layout.objectGroup :: .load r r Layout.groupClass ::
        Snippet.branchWord .notEqual r c.address b.label) m') := by
  have hr : r ∈ [r, scratchRegister] := List.mem_cons_self
  have hmem : ∀ {x}, env.area x = false → m'.mem x = env.mem x := fun hx => by
    rw [hm.mem]
    exact h.mem hx
  refine Simulates.load hq hobject hmem fun group => ?_
  refine Simulates.load (m := m'.setReg r group) h.scratch_ne.1
    (by rw [Machine.reg_setReg, if_pos rfl]) hmem fun clasp => ?_
  have hload := (hm.setReg hr group).setReg hr clasp
  refine Simulates.test (Snippet.branches_word h.scratch_ne.2.2 c.address b.label) h.noted ?_
    (fun ha => h.fails (hload.trans (ha.mono (by simp))))
    fun ha => h.passes (hload.trans (ha.mono (by simp)))
  rw [Machine.reg_setReg, if_pos rfl]

namespace Gen

variable {s : Codegen} {k d : Nat} {done : Bool} {x : OperandId}

/-- Guards that test an operand in a register, with one more register for scratch. -/
theorem test_ensures (hlab : s.Labelled) {use : Gen Register} {f : Content → Content}
    {p : Register → Place}
    (huse : Ensures (Overflow k) use s (Used k d (initiallyTaken done) done s x f p))
    (hdead : s.alloc.isDead x.index = false) (hp : ∀ o, (p o).register? = some o)
    (code : Register → Register → Label → Snippet.Code) (v : Env → UInt64 → Virtual Unit)
    {rest : Register → Register → Label → Gen Unit}
    (hrest : ∀ {o r l} {s : Codegen}, s.alloc.Claimed r →
      rest o r l s = .ok () (s.write (code o r l) (s.alloc.free r)))
    (hlen : ∀ {o r l}, (code o r l).length ≤ 20)
    (hleads : ∀ {o r l}, LeadsTo l (code o r l))
    {V : Env → Virtual Unit}
    (hV : ∀ {env σ o w}, f (σ.contents x.index) = (p o).form w →
      V env σ = v env w (σ.set x ((p o).form w)))
    (hruns : ∀ {env a bs σ m o r w b}, Testing env done a bs σ m o r w b →
      Simulates env done a bs (v env w σ) (exec env.area (code o r b.label) m)) :
    Ensures (Overflow k)
      (do let o ← use
          let r ← allocate
          let l ← bailout
          rest o r l) s (Emitted V k d done done s) := by
  have hlen₀ := length_initiallyTaken done
  refine Ensures.bind (huse.mono (fun _ _ h => h) ?_)
  rintro o _ ⟨c₁, a₁, rfl, huse, hinv₁⟩
  refine Ensures.bind ((allocate_ensures hinv₁ (by simp; omega)).mono (fun _ _ h => h) ?_)
  rintro r _ ⟨c₂, a₂, rfl, halloc, hinv₂⟩
  obtain ⟨b, bs, hb, hmem, hshows, hnotes⟩ := bailout_eq ((hlab.write c₁ a₁).write c₂ a₂)
  refine Ensures.bind_ok hb (Ensures.of_ok (hrest halloc.claimed) ?_)
  -- The operand stays where it was put.
  have hplace : a₂.place x.index = p o :=
    (halloc.pinned (huse.isPinned hdead (hp o))).trans huse.place
  have hheld : (a₂.place x.index).register? = some o := by rw [hplace]; exact hp o
  have ho := hinv₂.register?_ne hheld
  have hr := hinv₂.spare halloc.claimed halloc.allocatable fun hd =>
    (halloc.others (hinv₁.result hd)).2.symm
  have hrs : ∀ q ∈ [r, scratchRegister], a₂.Spare done q := by
    simpa using ⟨hr, hinv₂.spare_scratch⟩
  have hrw : r ≠ scratchRegister := by
    obtain ⟨e, he⟩ := hinv₂.sound.engine
    exact (Allocator.usable_of_allocatable (he ▸ halloc.allocatable)).2.2
  show Emitted V k d done done s () _
  rw [Codegen.alloc_note, Codegen.alloc_write, Codegen.write_note, Codegen.write_write,
    Codegen.write_write, ← List.append_assoc]
  refine Emitted.of_advance (huse.advance.trans halloc.advance) ?_ hinv₂ (by simp; omega)
    ⟨hnotes.grows, hnotes.label⟩ (fun hi hl => ⟨b, hmem, (hleads _ hi _ hl).symm⟩)
    Allocator.continues_free ?_ ?_
  · have h₁ := huse.length
    have h₂ := halloc.length
    have h₃ := @hlen o r b.label
    simp only [List.length_append]
    omega
  · intro env σ m hroom hmax hrun
    have hw := hrun.contents hplace (hp o)
    rw [VirtualState.contents_set_self] at hw
    rw [hV hw]
    rw [hw] at hrun
    exact hruns ⟨rfl, hrun.stub, hrun.realizes.mem, ⟨ho.1, fun h => hr.notHeld _ (h ▸ hheld), ho.2.2.1⟩,
      ⟨hr.ne_rsp, hr.ne_stub, hrw⟩, hmem, fun ha => (hrun.overwrite ha hrs).bailout hshows,
      fun ha => (hrun.overwrite ha hrs).free r⟩
  · have hinv₃ := hinv₂.free halloc.claimed halloc.allocatable hr.ne_output
    refine hinv₃.next (by simp; omega) fun q hq => ?_
    obtain rfl | rfl | hq := List.mem_cons.mp hq |>.imp_right List.mem_cons.mp
    · exact .inl (.inl (by simp [Allocator.free]))
    · exact .inl (.inr ⟨x.index, hheld⟩)
    · exact .inr hq

theorem release_write {r : Register} (c : Snippet.Code) (h : s.alloc.Claimed r) :
    release r (s.write c s.alloc) = .ok () (s.write c (s.alloc.free r)) := by
  rw [release_eq (s := s.write c s.alloc) h]
  rfl

theorem compareClass_write [ClassTable] {r : Register} (code : Snippet.Code) (c : ClassKind)
    (l : Label) (h : s.alloc.Claimed r) :
    compareClass r c l (s.write code s.alloc) = .ok () (s.write
      (code ++ .load r r Layout.groupClass :: Snippet.branchWord .notEqual r c.address l)
      (s.alloc.free r)) := by
  rw [compareClass, bind_of_ok (code_eq _ _), bind_of_ok (code_eq _ _)]
  simp only [Codegen.write_write, Codegen.alloc_write]
  rw [release_write _ h]
  simp

theorem leadsTo_compareClass [ClassTable] {r q : Register} {c : ClassKind} {l : Label} :
    LeadsTo l (.load r q Layout.objectGroup :: .load r r Layout.groupClass ::
      Snippet.branchWord .notEqual r c.address l) := by
  simp [LeadsTo, Snippet.branchWord, Snippet.branchRegister, Instr.target?]

variable (hinv : s.alloc.Inv k d (initiallyTaken done) done) (hlab : s.Labelled)
  (hx : x.index < d) (hdead : s.alloc.isDead x.index = false)
include hinv hlab hx hdead

theorem guardHeader_ensures (header disp : Int32) :
    Ensures (Overflow k) (guardHeader x header disp) s
      (Emitted (fun env => Virtual.guardHeader env x header disp) k d done done s) := by
  have hlen₀ := length_initiallyTaken done
  refine test_ensures hlab (usePayload_ensures hinv (by omega) hx hdead rfl) hdead (fun o => rfl)
    (fun o r l => .load r stubRegister disp :: Snippet.branchMemory .notEqual o header r l)
    (fun env w => do
      let wanted ← Virtual.field env disp
      let got ← Virtual.pointer env w header
      Virtual.require (got == wanted))
    (fun {o r l s} hr => ?_) (fun {_ _ _} => by simp [Snippet.branchMemory])
    (fun {_ _ _} => by simp [LeadsTo, Snippet.branchMemory, Instr.target?]) (fun hw => ?_)
    fun {env a bs σ m o r w b} ht => ?_
  · rw [bind_of_ok (code_eq _ _), bind_of_ok (code_eq _ _), Codegen.write_write]
    exact release_write _ hr
  · cases hw
    rfl
  · refine Simulates.load (by decide) ht.stub ht.mem fun v => ?_
    have hload := (Machine.AgreeExcept.refl [r, scratchRegister] m).setReg List.mem_cons_self v
    refine Simulates.testMemory (m := m.setReg r v) ht.operand_ne.1 ?_ ?_ ht.mem ht.noted
      (fun ha => ht.fails (hload.trans (ha.mono (by simp))))
      fun ha => ht.passes (hload.trans (ha.mono (by simp)))
    · rw [Machine.reg_setReg, if_neg ht.operand_ne.2.1.symm, ht.operand]
    · rw [Machine.reg_setReg, if_pos rfl]

theorem guardSpecific_ensures {t : ValueType} (ht : t.isBoxable = true) (disp : Int32) :
    Ensures (Overflow k) (guardSpecific x t disp) s
      (Emitted (fun env => Virtual.guardSpecific env x t disp) k d done done s) := by
  have hlen₀ := length_initiallyTaken done
  refine test_ensures hlab (usePayload_ensures hinv (by omega) hx hdead ht) hdead (fun o => rfl)
    (fun o r l => .load r stubRegister disp :: Snippet.branchRegister .notEqual o r l)
    (fun env w => do
      let wanted ← Virtual.field env disp
      Virtual.require (w == wanted))
    (fun {o r l s} hr => ?_) (fun {_ _ _} => by simp [Snippet.branchRegister])
    (fun {_ _ _} => by simp [LeadsTo, Snippet.branchRegister, Instr.target?]) (fun hw => ?_)
    fun {env a bs σ m o r w b} ht => ?_
  · rw [bind_of_ok (code_eq _ _), bind_of_ok (code_eq _ _), Codegen.write_write]
    exact release_write _ hr
  · cases hw
    rfl
  · refine Simulates.load (by decide) ht.stub ht.mem fun v => ?_
    have hload := (Machine.AgreeExcept.refl [r, scratchRegister] m).setReg List.mem_cons_self v
    refine Simulates.test (Snippet.branches_register o r b.label) ht.noted ?_
      (fun ha => ht.fails (hload.trans (ha.mono (by simp))))
      fun ha => ht.passes (hload.trans (ha.mono (by simp)))
    rw [Machine.reg_setReg, if_neg ht.operand_ne.2.1.symm, ht.operand, Machine.reg_setReg,
      if_pos rfl]

theorem guardClass_ensures [ClassTable] (c : ClassKind) :
    Ensures (Overflow k) (guardClass x c) s
      (Emitted (fun env => Virtual.guardClass env x c) k d done done s) := by
  have hlen₀ := length_initiallyTaken done
  refine test_ensures hlab (usePayload_ensures hinv (by omega) hx hdead rfl) hdead (fun o => rfl)
    (fun o r l => .load r o Layout.objectGroup :: .load r r Layout.groupClass ::
      Snippet.branchWord .notEqual r c.address l)
    (fun env w => Virtual.requireClass env w c)
    (fun {o r l s} hr => ?_) (fun {_ _ _} => by simp [Snippet.branchWord, Snippet.branchRegister])
    leadsTo_compareClass (fun hw => ?_)
    fun {env a bs σ m o r w b} ht => ?_
  · rw [bind_of_ok (code_eq _ _)]
    exact compareClass_write _ c l hr
  · cases hw
    rfl
  · exact ht.requireClass (Machine.AgreeExcept.refl _ m) ht.operand_ne.1 ht.operand c

omit hx hdead in
theorem alwaysFail_ensures :
    Ensures (Overflow k) alwaysFail s (Emitted (fun _ => Virtual.stop .failed) k d done done s) := by
  have hlen₀ := length_initiallyTaken done
  obtain ⟨b, bs, hb, hmem, hshows, hnotes⟩ := bailout_eq hlab
  refine Ensures.bind_ok hb (Ensures.of_ok (code_eq _ _) ?_)
  rw [Codegen.alloc_note, Codegen.write_note]
  refine Emitted.of_advance (Advance.refl done s.alloc) (by simp) hinv (by omega) hnotes
    (fun {i l} hi hl => ?_) (Allocator.Continues.refl _) (fun _ _ hrun => ?_)
    (hinv.next (by omega) fun r hr => .inr hr)
  · rw [List.mem_singleton] at hi
    subst hi
    cases hl
    exact ⟨b, hmem, rfl⟩
  · exact Simulates.fail hmem (hrun.bailout hshows)

/-- A test of a boxed operand that needs no register for itself. -/
theorem check_ensures (code : Register → Label → Snippet.Code) (ok : UInt64 → Bool)
    (hlen : ∀ {o l}, (code o l).length ≤ 20) (hleads : ∀ {o l}, LeadsTo l (code o l))
    (hcode : ∀ o l, Snippet.Branches (fun m => ok (m.reg o)) l [scratchRegister] (code o l)) :
    Ensures (Overflow k)
      (do let o ← useValue x.index
          let l ← bailout
          Gen.code (code o l)) s
      (Emitted (fun _ => do
        let w ← Virtual.useValue x
        Virtual.require (ok w)) k d done done s) := by
  have hlen₀ := length_initiallyTaken done
  refine Ensures.bind ((useValue_ensures hinv (by omega) hx hdead).mono (fun _ _ h => h) ?_)
  rintro o _ ⟨c, a, rfl, huse, hinv₁⟩
  obtain ⟨b, bs, hb, hmem, hshows, hnotes⟩ := bailout_eq (hlab.write c a)
  refine Ensures.bind_ok hb (Ensures.of_ok (code_eq _ _) ?_)
  rw [Codegen.alloc_note, Codegen.alloc_write, Codegen.write_note, Codegen.write_write]
  have hrs : ∀ q ∈ [scratchRegister], a.Spare done q := by
    simpa using hinv₁.spare_scratch
  refine Emitted.of_advance huse.advance ?_ hinv₁ (by simp; omega) ⟨hnotes.grows, hnotes.label⟩
    (fun hi hl => ⟨b, hmem, (hleads _ hi _ hl).symm⟩) (Allocator.Continues.refl _) ?_ ?_
  · have h₁ := huse.length
    have h₂ := @hlen o b.label
    omega
  · intro env σ m _ _ hrun
    have hw := hrun.contents huse.place rfl
    rw [VirtualState.contents_set_self] at hw
    exact Simulates.test (hcode o b.label) hmem (congrArg ok (Content.boxed.inj hw).symm)
      (fun ha => (hrun.overwrite ha hrs).bailout hshows) fun ha => hrun.overwrite ha hrs
  · refine hinv₁.next (by simp; omega) fun q hq => ?_
    obtain rfl | hq := List.mem_cons.mp hq
    · exact .inl (.inr ⟨x.index, by rw [huse.place]; rfl⟩)
    · exact .inr hq

/-- A guard that is decided by the type of its operand, if that is known. -/
theorem typed_ensures (bad : ValueType → Prop) [DecidablePred bad] (good : ValueType → Bool)
    (hgood : ∀ t, good t = !decide (bad t)) (code : Register → Label → Snippet.Code)
    (ok : UInt64 → Bool) (hlen : ∀ {o l}, (code o l).length ≤ 20)
    (hleads : ∀ {o l}, LeadsTo l (code o l))
    (hcode : ∀ o l, Snippet.Branches (fun m => ok (m.reg o)) l [scratchRegister] (code o l)) :
    Ensures (Overflow k)
      (do match (← place x.index).knownType? with
          | some known => if bad known then alwaysFail
          | none =>
            let o ← useValue x.index
            let l ← bailout
            Gen.code (code o l)) s
      (Emitted (fun _ => do
        match (← Virtual.content x).knownType? with
        | some known => Virtual.require (good known)
        | none => do
          let w ← Virtual.useValue x
          Virtual.require (ok w)) k d done done s) := by
  refine Ensures.bind_ok (place_eq (Nat.lt_of_lt_of_le hx hinv.sound.le_size)) ?_
  have hv : ∀ {env σ m}, Running env done s.alloc σ m → (do
        match (← Virtual.content x).knownType? with
        | some known => Virtual.require (good known)
        | none => do
          let w ← Virtual.useValue x
          Virtual.require (ok w) : Virtual Unit) σ =
      (match (s.alloc.place x.index).knownType? with
        | some known => Virtual.require (good known)
        | none => do
          let w ← Virtual.useValue x
          Virtual.require (ok w) : Virtual Unit) σ := by
    intro env σ m hrun
    rw [← hrun.knownType? (hinv.sound.placed hx hdead)]
    rfl
  cases hp : (s.alloc.place x.index).knownType? with
  | some known =>
      rw [hp] at hv
      refine Ensures.mono (E := Overflow k) (Q := Emitted (fun _ => Virtual.require (good known))
        k d done done s) ?_ (fun _ _ h => h) fun _ _ he => he.congr hv
      rw [hgood]
      by_cases h : bad known
      · simp only [h, decide_true, Bool.not_true]
        exact alwaysFail_ensures hinv hlab
      · simp only [h, decide_false, Bool.not_false]
        refine Ensures.pure ?_
        have h := Emitted.silent hlab (Advance.refl done s.alloc) hinv
          (v := fun _ => Virtual.require true) fun _ _ => rfl
        rwa [Codegen.write_nil] at h
  | none =>
      rw [hp] at hv
      exact (check_ensures hinv hlab hx hdead code ok hlen hleads hcode).mono (fun _ _ h => h)
        fun _ _ he => he.congr hv

theorem guardType_ensures (t : ValueType) :
    Ensures (Overflow k) (guardType x t) s
      (Emitted (fun _ => Virtual.guardType x t) k d done done s) := by
  refine typed_ensures hinv hlab hx hdead (· ≠ t) (· == t) (fun u => ?_)
    (fun o l => Snippet.compareTag o t.tag .notEqual l) (fun w => Value.hasTag ⟨w⟩ t) ?_ ?_
    fun o l => Snippet.branches_hasTag o t l
  · by_cases h : u = t <;> simp [h]
  · simp [Snippet.compareTag, Snippet.splitTag]
  · simp [LeadsTo, Snippet.compareTag, Snippet.splitTag, Instr.target?]

theorem guardNumber_ensures :
    Ensures (Overflow k) (guardNumber x) s
      (Emitted (fun _ => Virtual.guardNumber x) k d done done s) := by
  refine typed_ensures hinv hlab hx hdead (fun u => u ≠ .int32 ∧ u ≠ .double)
    (fun u => u == .int32 || u == .double) (fun u => by cases u <;> rfl)
    (fun o l => Snippet.compareTag o ValueType.int32.tag .above l) (fun w => Value.isNumber ⟨w⟩)
    ?_ ?_ fun o l => Snippet.branches_isNumber o l
  · simp [Snippet.compareTag, Snippet.splitTag]
  · simp [LeadsTo, Snippet.compareTag, Snippet.splitTag, Instr.target?]

/-- Of a boxed operand the type is tested before its class. -/
theorem boxedArray_ensures [ClassTable] :
    Ensures (Overflow k)
      (do let r ← useValue x.index
          let scratch ← allocate
          let l ← bailout
          code? (Snippet.branchType .notEqual r .object l)
          code? (Snippet.unbox r scratch .object)
          code [.load scratch scratch Layout.objectGroup]
          compareClass scratch .array l) s
      (Emitted (fun env => do
        let w ← Virtual.useValue x
        Virtual.require (Value.hasTag ⟨w⟩ .object)
        Virtual.requireClass env (ValueType.object.unbox w) .array) k d done done s) := by
  have hlen₀ := length_initiallyTaken done
  refine test_ensures hlab (useValue_ensures hinv (by omega) hx hdead) hdead (fun o => rfl)
    (fun o r l => Snippet.compareTag o ValueType.object.tag .notEqual l ++
      ((Snippet.move r o ++ [.shl r Snippet.pointerShift, .shr r Snippet.pointerShift]) ++
        (.load r r Layout.objectGroup :: .load r r Layout.groupClass ::
          Snippet.branchWord .notEqual r ClassKind.array.address l)))
    (fun env w => do
      Virtual.require (Value.hasTag ⟨w⟩ .object)
      Virtual.requireClass env (ValueType.object.unbox w) .array)
    (fun {o r l s} hr => ?_) (fun {o r l} => ?_) (fun {o r l} => ?_) (fun hw => ?_)
    fun {env a bs σ m o r w b} ht => ?_
  · refine (bind_of_ok (code_eq _ _)).trans ((bind_of_ok (code_eq _ _)).trans
      ((bind_of_ok (code_eq _ _)).trans ?_))
    simp only [Codegen.write_write, Codegen.alloc_write]
    rw [compareClass_write _ _ _ hr]
    simp
  · have := Snippet.length_move r o
    simp [Snippet.branchWord, Snippet.branchRegister, Snippet.compareTag, Snippet.splitTag]
    omega
  · obtain ⟨c, hc, hstraight, -⟩ := Snippet.unbox_of_isBoxable (t := .object) rfl o r
    cases hc
    refine LeadsTo.append ?_ ((hstraight.2.leadsTo l).append leadsTo_compareClass)
    simp [LeadsTo, Snippet.compareTag, Snippet.splitTag, Instr.target?]
  · cases hw
    rfl
  · obtain ⟨c, hc, -, hcomp⟩ := Snippet.unbox_of_isBoxable (t := .object) rfl o r
    cases hc
    refine Simulates.branch (Snippet.branches_hasTag o .object b.label) ht.noted
      (by rw [ht.operand]) (fun ha => ht.fails (ha.mono (by simp))) fun {m₁} ha₁ => ?_
    obtain ⟨m₂, hx₂, hr₂, ha₂⟩ := hcomp env.area m₁
    rw [exec_append_of_fall hx₂]
    rw [ha₁.reg o (by simp [ht.operand_ne.2.2]), ht.operand] at hr₂
    exact ht.requireClass ((ha₁.mono (by simp)).trans (ha₂.mono (by simp))) ht.scratch_ne.1 hr₂ .array

/-- An object is compared at once; of a boxed operand the type is tested first. -/
theorem guardArray_ensures [ClassTable] :
    Ensures (Overflow k) (guardArray x) s
      (Emitted (fun env => Virtual.guardArray env x) k d done done s) := by
  have hlen₀ := length_initiallyTaken done
  have hplaced := hinv.sound.placed hx hdead
  refine Ensures.bind_ok (place_eq (Nat.lt_of_lt_of_le hx hinv.sound.le_size)) ?_
  -- The two sides know the same type.
  have hv : ∀ {env σ m} {t? : Option ValueType}, Running env done s.alloc σ m →
      (s.alloc.place x.index).knownType? = t? → (σ.contents x.index).knownType? = t? :=
    fun hrun hp => (hrun.knownType? hplaced).trans hp
  cases hp : (s.alloc.place x.index).knownType? with
  | some t =>
      by_cases ht : t = .object
      · subst ht
        refine (guardClass_ensures hinv hlab hx hdead .array).mono (fun _ _ h => h)
          fun _ _ h => h.congr fun {env σ m} hrun => ?_
        rw [Virtual.guardArray, bind_of_ok (Virtual.content_eq x σ), hv hrun hp]
        rfl
      · have hfail : Ensures (Overflow k) alwaysFail s
            (Emitted (fun env => Virtual.guardArray env x) k d done done s) := by
          refine (alwaysFail_ensures hinv hlab).mono (fun _ _ h => h) fun _ _ h =>
            h.congr fun {env σ m} hrun => ?_
          rw [Virtual.guardArray, bind_of_ok (Virtual.content_eq x σ), hv hrun hp]
          cases t <;> first | rfl | exact absurd rfl ht
        cases t <;> first | exact hfail | exact absurd rfl ht
  | none =>
      refine (boxedArray_ensures hinv hlab hx hdead).mono (fun _ _ h => h) fun _ _ h =>
        h.congr fun {env σ m} hrun => ?_
      rw [Virtual.guardArray, bind_of_ok (Virtual.content_eq x σ), hv hrun hp]

end Gen
end InlineCache
