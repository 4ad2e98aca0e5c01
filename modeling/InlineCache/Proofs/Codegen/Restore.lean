import InlineCache.Codegen.Compile
import InlineCache.Proofs.Codegen.Translates

/-!
# Putting inputs back

A bailout puts the inputs back one after the other. Before a register is written, the input that is
still to come and sits in it, if there is one, is pushed. So each input is in some place until its
turn, and once it is back nothing writes its register again. The statement is about any number of
inputs (`restoreAll_ensures`); the only failure is a stack of more than 4 GiB.
-/

namespace InlineCache

open X64

/-- The places of a list, by number. -/
def placeAt (ps : List Place) (i : Nat) : Place :=
  ps.getD i .uninitialized

section
variable {p : Place} {ps : List Place} {i : Nat}

@[simp]
theorem placeAt_cons_zero : placeAt (p :: ps) 0 = p := rfl

@[simp]
theorem placeAt_cons_succ : placeAt (p :: ps) (i + 1) = placeAt ps i := rfl

theorem lt_length_of_placeAt (h : placeAt ps i ≠ .uninitialized) : i < ps.length :=
  Nat.lt_of_not_le fun hle => h (by simp [placeAt, List.getD_eq_getElem?_getD, hle])

theorem placeAt_of_lt (hi : i < ps.length) : placeAt ps i = ps[i] := by
  rw [placeAt, List.getD_eq_getElem?_getD, List.getElem?_eq_getElem hi, Option.getD_some]

theorem placeAt_set (hi : i < ps.length) (q : Place) :
    placeAt (ps.set i q) = setAt (placeAt ps) i q := by
  funext j
  by_cases hj : j = i
  · subst hj
    simp [placeAt, List.getD_eq_getElem?_getD, hi]
  · rw [setAt_of_ne _ _ hj]
    simp [placeAt, List.getD_eq_getElem?_getD, List.getElem?_set_ne (Ne.symm hj)]

end

theorem Arranged.tail {p : Place} {ps : List Place} {depth : Nat}
    (h : Arranged (placeAt (p :: ps)) depth) : Arranged (placeAt ps) depth where
  register {i j _} hi hj := Nat.succ.inj (h.register (i := i + 1) (j := j + 1) hi hj)
  usable {i _} hi := h.usable (i := i + 1) hi
  slot {i _} hi := h.slot (i := i + 1) hi
  apart {i j _ _} hi hj hne := h.apart (i := i + 1) (j := j + 1) hi hj (by omega)
  boxable {i _} hi := h.boxable (i := i + 1) hi

theorem Realizes.tail {env : Env} {p : Place} {ps : List Place} {depth : Nat}
    {contents : Nat → Content} {m : Machine} (h : Realizes env (placeAt (p :: ps)) depth contents m) :
    Realizes env (placeAt ps) depth (fun i => contents (i + 1)) m where
  sp := h.sp
  holds {i _} hi := h.holds (i := i + 1) hi
  mem := h.mem

theorem X64.Assembly.append_append (asm : Assembly) (c c' : List (Instr Label)) :
    (asm.append c).append c' = asm.append (c ++ c') := by
  simp [Assembly.append]

namespace Bailout

/-! ## Making room -/

theorem evict_of_free {r : Register} {depth : Nat} {ps : List Place}
    (h : ∀ i, (placeAt ps i).register? ≠ some r) (asm : Assembly) :
    evict r depth ps asm = .ok (ps, depth) asm := by
  induction ps with
  | nil => rfl
  | cons p ps ih =>
      have hp : p.register? ≠ some r := h 0
      rw [evict, if_neg hp, bind_of_ok (ih fun i => h (i + 1))]
      rfl

/-- The one place in the list that is in the register is pushed. -/
theorem evict_of_held {r : Register} {depth : Nat} {ps : List Place} {i : Nat}
    (hi : (placeAt ps i).register? = some r)
    (hone : ∀ j, (placeAt ps j).register? = some r → j = i) (asm : Assembly) :
    (depth + 8 < 2 ^ 32 ∧ evict r depth ps asm =
        .ok (ps.set i ((placeAt ps i).pushed (depth + 8)), depth + 8) (asm.append [.push r])) ∨
      (2 ^ 32 ≤ depth + 8 ∧ ∃ asm', evict r depth ps asm = .error .stackDepth asm') := by
  induction ps generalizing i with
  | nil => cases hi
  | cons p ps ih =>
      obtain _ | i := i
      · have hrest : ∀ j, (placeAt ps j).register? ≠ some r := fun j hj =>
          nomatch hone (j + 1) hj
        have hp : p.register? = some r := hi
        rw [evict, if_pos hp]
        by_cases hlt : depth + 8 < 2 ^ 32
        · have hpush : Emit.pushed depth = pure (depth + 8) := if_pos hlt
          refine .inl ⟨hlt, ?_⟩
          rw [hpush]
          refine (bind_of_ok rfl).trans ((bind_of_ok rfl).trans
            ((bind_of_ok (evict_of_free hrest _)).trans ?_))
          cases p <;> first | rfl | cases hp
        · have hpush : Emit.pushed depth = throw .stackDepth := if_neg hlt
          refine .inr ⟨by omega, asm.append [.push r], ?_⟩
          rw [hpush]
          exact (bind_of_ok rfl).trans (bind_of_error rfl)
      · have hp : p.register? ≠ some r := fun h => nomatch hone 0 h
        rw [evict, if_neg hp]
        obtain ⟨hlt, he⟩ | ⟨hle, asm', he⟩ := ih hi fun j hj => Nat.succ.inj (hone (j + 1) hj)
        · exact .inl ⟨hlt, by rw [bind_of_ok he]; rfl⟩
        · exact .inr ⟨hle, asm', bind_of_error he⟩

/-! ## One input -/

/-- What putting one input back comes to. -/
structure Restored (p : Place) (ps : List Place) (dest : Register) (depth : Nat) (c : Snippet.Code)
    (depth' : Nat) : Prop where
  length : c.length ≤ 4
  straight : Straight c
  top : depth' = depth ∨ p.slot? = some depth ∧ depth' + 8 = depth
  arranged : Arranged (placeAt ps) depth'
  runs : ∀ {env contents m}, depth < 2 ^ 31 → Realizes env (placeAt (p :: ps)) depth contents m →
    ∃ m', exec env.area c m = .fall m' ∧ m'.reg dest = (contents 0).word ∧
      Realizes env (placeAt ps) depth' (fun i => contents (i + 1)) m' ∧
      (∀ q, q ∉ [.rsp, dest, scratchRegister] → m'.reg q = m.reg q) ∧ m'.mem = m.mem

theorem Restored.depth_le {p : Place} {ps : List Place} {dest : Register} {depth depth' : Nat}
    {c : Snippet.Code} (h : Restored p ps dest depth c depth') : depth' ≤ depth := by
  obtain he | ⟨-, he⟩ := h.top <;> omega

section
variable {p : Place} {ps : List Place} {dest : Register} {depth : Nat}
  (harr : Arranged (placeAt (p :: ps)) depth) (hdest : dest ≠ .rsp ∧ dest ≠ scratchRegister)
  (hfree : ∀ i, (placeAt ps i).register? ≠ some dest)
include harr hdest hfree

/-- Code that computes the boxed word from registers alone. -/
theorem restored_of_computes {c : Snippet.Code} (hlen : c.length ≤ 4) (hstraight : Straight c)
    (hc : ∀ area m, ∃ m', exec area c m = .fall m' ∧
      (∀ top c, p.content? top m = some c → m'.reg dest = c.word) ∧
      Machine.AgreeExcept [dest, scratchRegister] m m')
    (hp : ∀ top m, ∃ c, p.content? top m = some c) :
    Restored p ps dest depth c depth := by
  refine ⟨hlen, hstraight, .inl rfl, harr.tail, fun {env contents m} _ h => ?_⟩
  obtain ⟨m', hx, hr, ha⟩ := hc env.area m
  obtain ⟨content, hcontent⟩ := hp env.sp m
  refine ⟨m', hx, ?_, ?_, fun q hq => ha.reg q ?_, ha.mem⟩
  · rw [hr _ _ hcontent, h.holds (i := 0) hcontent]
  · refine h.tail.agree ha (by simp [hdest.1.symm]; decide) fun i q hq => ?_
    have hqd : q ≠ dest := fun he => hfree i (he ▸ hq)
    simp [hqd, (harr.tail.usable hq).2]
  · simp only [List.mem_cons, List.not_mem_nil, or_false, not_or] at hq ⊢
    exact hq.2

/-- Code that brings a word back from the stack and converts it. -/
theorem restored_of_slot {o : Nat} (ho : p.slot? = some o) {c : Snippet.Code}
    {g : UInt64 → UInt64} (hlen : c.length ≤ 3) (hstraight : Straight c)
    (hc : Snippet.Computes g dest dest [dest, scratchRegister] c)
    (hg : ∀ w, (p.form w).word = g w) :
    Restored p ps dest depth (Emit.reloadCode dest o depth ++ c) (Emit.reloadDepth o depth) := by
  have hslot := harr.slot (i := 0) ho
  refine ⟨?_, (Emit.straight_reloadCode _ _ _).append hstraight, ?_, ?_,
    fun {env contents m} hlt h => ?_⟩
  · rw [List.length_append, Emit.length_reloadCode]
    omega
  · rw [Emit.reloadDepth]
    split
    · next htop => exact .inr ⟨htop ▸ ho, by omega⟩
    · exact .inl rfl
  · have htail := harr.tail
    exact ⟨htail.register, htail.usable, fun {i _} hi => ⟨(htail.slot hi).1,
      harr.le_reloadDepth (i := 0) (j := i + 1) ho hi (by omega)⟩, htail.apart, htail.boxable⟩
  · obtain ⟨m₁, hx₁, hr₁, hmem₁, hreal₁, hregs₁⟩ := h.tail.reload hslot.1 hslot.2 hlt hdest.1 hfree
      fun hi => (harr.tail.usable hi).1
    obtain ⟨m₂, hx₂, hr₂, ha₂⟩ := hc env.area m₁
    refine ⟨m₂, by rw [exec_append_of_fall hx₁, hx₂], ?_, ?_, fun q hq => ?_, ha₂.mem.trans hmem₁⟩
    · rw [hr₂, hr₁, h.holds (i := 0) (Place.content?_of_slot? ho)]
      exact (hg _).symm
    · refine hreal₁.agree ha₂ (by simp [hdest.1.symm]; decide) fun i q hq => ?_
      have hqd : q ≠ dest := fun he => hfree i (he ▸ hq)
      simp [hqd, (harr.tail.usable hq).2]
    · simp only [List.mem_cons, List.not_mem_nil, or_false, not_or] at hq
      rw [ha₂.reg q (by simp [hq]), hregs₁ q hq.1 hq.2.1]

theorem restore_eq (hp : p ≠ .uninitialized) (index : Nat) (asm : Assembly) :
    ∃ c depth', restore index dest depth p asm = .ok depth' (asm.append c) ∧
      Restored p ps dest depth c depth' := by
  cases p with
  | uninitialized => exact absurd rfl hp
  | valueReg r =>
      refine ⟨_, _, rfl, restored_of_computes harr hdest hfree
        (Nat.le_trans (Snippet.length_move dest r) (by decide)) (Snippet.straight_move _ _)
        (fun area m => ⟨_, Snippet.exec_move dest r, fun top c hc => ?_,
          (Machine.AgreeExcept.refl _ m).setReg List.mem_cons_self _⟩) fun top m => ⟨_, rfl⟩⟩
      cases hc
      rw [Machine.reg_setReg, if_pos rfl]
      rfl
  | payloadReg r t =>
      have ht : t.isBoxable = true := harr.boxable (i := 0) rfl
      obtain ⟨c, hc, ⟨hlen, hstraight⟩, hcomp⟩ :=
        @Snippet.tag_of_isBoxable t ht r dest hdest.2
      refine ⟨c, depth, ?_, restored_of_computes harr hdest hfree (by omega) hstraight
        (fun area m => ?_) fun top m => ⟨_, rfl⟩⟩
      · rw [restore, hc]
        rfl
      · obtain ⟨m', hx, hr, ha⟩ := hcomp area m
        refine ⟨m', hx, fun top c hc => ?_, ha⟩
        cases hc
        exact hr
  | valueStack o =>
      have hslot := harr.slot (i := 0) (o := o) rfl
      have h := restored_of_slot (c := []) (g := fun w => w) harr hdest hfree rfl (by simp)
        straight_nil (fun _ m => ⟨m, rfl, rfl, Machine.AgreeExcept.refl _ m⟩) fun w => rfl
      rw [List.append_nil] at h
      exact ⟨_, _, Emit.reload_eq hslot.1 hslot.2 asm, h⟩
  | payloadStack o t =>
      have hslot := harr.slot (i := 0) (o := o) rfl
      have ht : t.isBoxable = true := harr.boxable (i := 0) rfl
      obtain ⟨c, hc, ⟨hlen, hstraight⟩, hcomp⟩ :=
        @Snippet.tag_of_isBoxable t ht dest dest hdest.2
      refine ⟨_, _, ?_, restored_of_slot harr hdest hfree rfl hlen hstraight hcomp fun w => rfl⟩
      rw [restore, bind_of_ok (Emit.reload_eq hslot.1 hslot.2 asm), hc]
      exact congrArg (EStateM.Result.ok _) (Assembly.append_append _ _ _)
  | constant v =>
      refine ⟨[.movImm dest v.bits], depth, rfl, restored_of_computes harr hdest hfree (by simp)
        (straight_cons rfl straight_nil) (fun area m => ⟨_, exec_movImm dest v.bits,
          fun top c hc => ?_, (Machine.AgreeExcept.refl _ m).setReg List.mem_cons_self _⟩)
        fun top m => ⟨_, rfl⟩⟩
      cases hc
      rw [Machine.reg_setReg, if_pos rfl]
      rfl

end

/-! ## All inputs -/

/-- Where inputs can come from: constants, and registers of their own. -/
structure Sources (origins : List Place) : Prop where
  origin : ∀ {o}, o ∈ origins → (∃ v, o = .constant v) ∨
    ∃ r, o = .valueReg r ∧ r ≠ .rsp ∧ r ≠ scratchRegister
  apart : origins.Pairwise fun o o' => ∀ r, o = .valueReg r → o' ≠ .valueReg r

/-- Where the inputs of a stub come from. The register of the stub is not among the origins. -/
structure Origins (origins : List Place) : Prop extends Sources origins where
  stub : .valueReg stubRegister ∉ origins

theorem Sources.register_ne {origins : List Place} (h : Sources origins) {r : Register}
    (hr : .valueReg r ∈ origins) : r ≠ .rsp ∧ r ≠ scratchRegister := by
  obtain ⟨v, hv⟩ | ⟨q, hq, hne⟩ := h.origin hr
  · cases hv
  · cases hq
    exact hne

theorem Sources.tail {o : Place} {os : List Place} (h : Sources (o :: os)) : Sources os :=
  ⟨fun ho => h.origin (List.mem_cons_of_mem _ ho), (List.pairwise_cons.mp h.apart).2⟩

/-- The topmost `k` slots of the stack are those of inputs that are put back. -/
structure Popped (origins inputs : List Place) (depth k : Nat) : Prop where
  few : k ≤ inputs.length - 2
  slot : ∀ j < k, ∃ i r, (placeAt inputs i).slot? = some (depth - 8 * j) ∧
    origins[i]? = some (.valueReg r)

/-- What putting all inputs back comes to. Only an input that is followed by others can make room
necessary, and what is pushed for it may land in a slot that was popped before. -/
structure Restores (origins inputs : List Place) (depth : Nat) (c : Snippet.Code) (depth' : Nat) :
    Prop where
  length : c.length ≤ 5 * inputs.length
  straight : Straight c
  depth_le : depth' ≤ depth + 8 * (inputs.length - 1)
  runs : ∃ k, Popped origins inputs depth k ∧ ∀ {env contents m}, env.room < 2 ^ 31 →
    depth + 8 * (inputs.length - 1) ≤ env.room → Realizes env (placeAt inputs) depth contents m →
    ∃ m', exec env.area c m = .fall m' ∧ m'.reg .rsp = Memory.slot env.sp depth' ∧
      (∀ {x}, Memory.below env.sp (depth - 8 * k) x = true ∨
        Memory.below env.sp (depth + 8 * (inputs.length - 1)) x = false → m'.mem x = m.mem x) ∧
      (∀ {i r}, i < inputs.length → origins[i]? = some (.valueReg r) →
        m'.reg r = (contents i).word) ∧
      ∀ q, q ∉ [.rsp, scratchRegister] → .valueReg q ∉ origins → m'.reg q = m.reg q

/-- The stack would need more than 4 GiB. -/
def TooDeep (depth : Nat) (e : EmitError) (_ : Assembly) : Prop :=
  e = .stackDepth ∧ 2 ^ 32 ≤ depth

theorem Restores.nil (origins : List Place) (depth : Nat) : Restores origins [] depth [] depth where
  length := Nat.zero_le _
  straight := straight_nil
  depth_le := Nat.le_add_right _ _
  runs := ⟨0, ⟨Nat.le_refl 0, fun j hj => absurd hj (Nat.not_lt_zero j)⟩, fun _ _ h =>
    ⟨_, rfl, h.sp, fun _ => rfl, fun hi => absurd hi (Nat.not_lt_zero _), fun _ _ _ => rfl⟩⟩

/-- A constant is not put back. -/
theorem Restores.skip {os ps : List Place} {p : Place} {v : Value} {depth depth' : Nat}
    {c : Snippet.Code} (h : Restores os ps depth c depth') :
    Restores (.constant v :: os) (p :: ps) depth c depth' where
  length := by
    have := h.length
    rw [List.length_cons]
    omega
  straight := h.straight
  depth_le := by
    have := h.depth_le
    rw [List.length_cons]
    omega
  runs := by
    obtain ⟨k, hpopped, hruns⟩ := h.runs
    refine ⟨k, ⟨?_, fun j hj => ?_⟩, fun {env contents m} hroom hdepth hreal => ?_⟩
    · have := hpopped.few
      rw [List.length_cons]
      omega
    · obtain ⟨i, r, hslot, ho⟩ := hpopped.slot j hj
      exact ⟨i + 1, r, hslot, ho⟩
    · rw [List.length_cons, Nat.add_sub_cancel] at hdepth
      obtain ⟨m', hx, hsp, hmem, hback, hregs⟩ := hruns hroom (by omega) hreal.tail
      refine ⟨m', hx, hsp, fun hx => hmem (hx.imp_right fun hx => Memory.below_mono ?_ hx),
        fun {i r} hi ho => ?_, fun q hq ho => hregs q hq fun h => ho (by simp [h])⟩
      · rw [List.length_cons]
        omega
      · obtain _ | i := i
        · cases ho
        · exact hback (by simpa using hi) ho

/-- What making room for an input comes to: nothing is in its register, or what is there is
pushed. -/
structure Evicted (p : Place) (ps : List Place) (dest : Register) (depth : Nat) (c : Snippet.Code)
    (ps' : List Place) (depth' : Nat) : Prop where
  same : ps'.length = ps.length
  length : c.length ≤ 1
  straight : Straight c
  depth_eq : depth' = depth ∨ depth' = depth + 8 ∧ p.slot? ≠ some depth' ∧ 0 < ps.length
  arranged : Arranged (placeAt (p :: ps')) depth'
  free : ∀ i, (placeAt ps' i).register? ≠ some dest
  placed : ∀ i, placeAt ps i ≠ .uninitialized → placeAt ps' i ≠ .uninitialized
  slot : ∀ {i o}, (placeAt ps' i).slot? = some o → o ≤ depth → (placeAt ps i).slot? = some o
  runs : ∀ {env contents m}, env.room < 2 ^ 31 → depth' ≤ env.room →
    Realizes env (placeAt (p :: ps)) depth contents m →
    ∃ m', exec env.area c m = .fall m' ∧ Realizes env (placeAt (p :: ps')) depth' contents m' ∧
      (∀ q, q ≠ .rsp → m'.reg q = m.reg q) ∧
      ∀ {x}, Memory.below env.sp depth x = true ∨ Memory.below env.sp depth' x = false →
        m'.mem x = m.mem x

section
variable {os ps ps' : List Place} {p : Place} {dest : Register} {depth depth₁ depth₂ depth₃ : Nat}
  {c₁ c₂ c₃ : Snippet.Code}

theorem Evicted.depth_le (h : Evicted p ps dest depth c₁ ps' depth₁) :
    depth₁ + 8 * (ps.length - 1) ≤ depth + 8 * ps.length := by
  obtain he | ⟨he, -, hpos⟩ := h.depth_eq <;> omega

/-- The slots that are popped before the last push. The register's own slot is one of them if it
was popped, and the slot that was pushed for it is not. -/
theorem exists_popped (hev : Evicted p ps dest depth c₁ ps' depth₁)
    (hone : Restored p ps' dest depth₁ c₂ depth₂) {k : Nat} (h : Popped os ps' depth₂ k) :
    ∃ n, Popped (.valueReg dest :: os) (p :: ps) depth n ∧
      (depth - 8 * n ≤ depth₂ - 8 * k ∨ ps'.length ≤ 1 ∧ n = 0) := by
  have hsame := hev.same
  have hfew := h.few
  -- What is popped from the old part of the stack was there from the start.
  have hold : ∀ {j}, j < k → depth₂ - 8 * j ≤ depth → ∃ i r, (placeAt (p :: ps) i).slot? =
      some (depth₂ - 8 * j) ∧ (Place.valueReg dest :: os)[i]? = some (.valueReg r) := by
    intro j hj hle
    obtain ⟨i, r, hslot, ho⟩ := h.slot j hj
    exact ⟨i + 1, r, hev.slot hslot hle, ho⟩
  obtain rfl | ⟨rfl, hp, hpos⟩ := hev.depth_eq
  · obtain rfl | ⟨hp, htop⟩ := hone.top
    · refine ⟨k, ⟨?_, fun j hj => hold hj (Nat.sub_le _ _)⟩, .inl (Nat.le_refl _)⟩
      rw [List.length_cons]
      omega
    · by_cases hmany : ps'.length ≤ 1
      · exact ⟨0, ⟨Nat.zero_le _, fun j hj => absurd hj (Nat.not_lt_zero j)⟩, .inr ⟨hmany, rfl⟩⟩
      · refine ⟨k + 1, ⟨?_, fun j hj => ?_⟩, .inl (by omega)⟩
        · rw [List.length_cons]
          omega
        · obtain _ | j := j
          · exact ⟨0, dest, hp, rfl⟩
          · have hnext := @hold j (by omega) (by omega)
            rwa [show depth₂ - 8 * j = depth₁ - 8 * (j + 1) by omega] at hnext
  · obtain rfl | ⟨hp', -⟩ := hone.top
    · refine ⟨k - 1, ⟨?_, fun j hj => ?_⟩, .inl (by omega)⟩
      · rw [List.length_cons]
        omega
      · have hnext := @hold (j + 1) (by omega) (by omega)
        rwa [show depth + 8 - 8 * (j + 1) = depth - 8 * j by omega] at hnext
    · exact absurd hp' hp

/-- One input is put back, after room was made for it, and then the others. -/
theorem Restores.cons (hos : Sources (.valueReg dest :: os))
    (hev : Evicted p ps dest depth c₁ ps' depth₁) (hone : Restored p ps' dest depth₁ c₂ depth₂)
    (hall : Restores os ps' depth₂ c₃ depth₃) :
    Restores (.valueReg dest :: os) (p :: ps) depth (c₁ ++ (c₂ ++ c₃)) depth₃ where
  length := by
    have h₁ := hev.length
    have h₂ := hone.length
    have h₃ := hall.length
    have hsame := hev.same
    simp only [List.length_append, List.length_cons]
    omega
  straight := hev.straight.append (hone.straight.append hall.straight)
  depth_le := by
    have h₁ := hev.depth_le
    have h₂ := hone.depth_le
    have h₃ := hall.depth_le
    have hsame := hev.same
    rw [List.length_cons]
    omega
  runs := by
    have h₁ := hev.depth_le
    have h₂ := hone.depth_le
    have hsame := hev.same
    obtain ⟨k, hpopped, hruns⟩ := hall.runs
    have hfew := hpopped.few
    obtain ⟨n, hpopped', hreach⟩ := exists_popped hev hone hpopped
    refine ⟨n, hpopped', fun {env contents m} hroom hle hreal => ?_⟩
    rw [List.length_cons, Nat.add_sub_cancel] at hle
    obtain ⟨m₁, hx₁, hreal₁, hregs₁, hmem₁⟩ := hev.runs hroom (by omega) hreal
    obtain ⟨m₂, hx₂, hr₂, hreal₂, hregs₂, hmem₂⟩ := hone.runs (by omega) hreal₁
    obtain ⟨m₃, hx₃, hsp, hmem₃, hback, hregs₃⟩ := hruns hroom (by omega) hreal₂
    have hkeep : m₃.reg dest = m₂.reg dest := by
      have hne := hos.register_ne List.mem_cons_self
      exact hregs₃ dest (by simp [hne]) fun h =>
        (List.pairwise_cons.mp hos.apart).1 _ h dest rfl rfl
    refine ⟨m₃, by rw [exec_append_of_fall hx₁, exec_append_of_fall hx₂, hx₃], hsp,
      fun {x} hx => ?_, fun {i r} hi ho => ?_, fun q hq ho => ?_⟩
    · simp only [Memory.below, decide_eq_true_eq, decide_eq_false_iff_not] at hx hmem₁ hmem₃
      rw [List.length_cons, Nat.add_sub_cancel] at hx
      rw [hmem₃ (by omega), hmem₂, hmem₁ (by omega)]
    · obtain _ | i := i
      · cases ho
        rw [hkeep, hr₂]
      · exact hback (by rw [hsame]; simpa using hi) ho
    · have hqd : q ≠ dest := fun h => ho (by simp [h])
      simp only [List.mem_cons, List.not_mem_nil, or_false, not_or] at hq
      rw [hregs₃ q (by simp [hq]) fun h => ho (List.mem_cons_of_mem _ h),
        hregs₂ q (by simp [hq, hqd]), hregs₁ q hq.1]

end

/-- Room can be made for an input. -/
theorem evict_ensures {p : Place} {ps : List Place} {depth : Nat} {dest : Register}
    (harr : Arranged (placeAt (p :: ps)) depth) (asm : Assembly) :
    Ensures (TooDeep (depth + 8 * ps.length)) (evict dest depth ps) asm fun (ps', depth') asm' =>
      ∃ c, asm' = asm.append c ∧ Evicted p ps dest depth c ps' depth' := by
  by_cases hheld : ∃ i, (placeAt ps i).register? = some dest
  · obtain ⟨i, hi⟩ := hheld
    have hlt : i < ps.length := lt_length_of_placeAt fun h => by rw [h] at hi; cases hi
    have hone : ∀ j, (placeAt ps j).register? = some dest → j = i := fun j hj =>
      Nat.succ.inj (harr.register (i := j + 1) (j := i + 1) hj hi)
    obtain ⟨h8, he⟩ | ⟨hle, asm', he⟩ := @evict_of_held dest depth ps i hi hone asm
    · have hset : placeAt (p :: ps.set i ((placeAt ps i).pushed (depth + 8))) =
          setAt (placeAt (p :: ps)) (i + 1) ((placeAt (p :: ps) (i + 1)).pushed (depth + 8)) :=
        @placeAt_set (p :: ps) (i + 1) (by simpa using hlt) _
      have hslot := Place.slot?_pushed (o := depth + 8) hi
      refine Ensures.of_ok he ⟨[.push dest], rfl, List.length_set, Nat.le_refl 1,
        straight_cons rfl straight_nil, .inr ⟨rfl, fun hp => ?_, by omega⟩, ?_, fun j hj => ?_,
        fun j hj => ?_, fun {j o} hj ho => ?_, ?_⟩
      · have := (harr.slot (i := 0) hp).2
        omega
      · rw [hset]
        exact harr.push hi
      · rw [placeAt_set hlt] at hj
        by_cases hji : j = i
        · rw [hji, setAt_self, Place.register?_pushed] at hj
          cases hj
        · rw [setAt_of_ne _ _ hji] at hj
          exact hji (hone j hj)
      · rw [placeAt_set hlt]
        by_cases hji : j = i
        · rw [hji, setAt_self]
          intro h
          rw [h] at hslot
          cases hslot
        · rw [setAt_of_ne _ _ hji]
          exact hj
      · rw [placeAt_set hlt] at hj
        by_cases hji : j = i
        · rw [hji, setAt_self, hslot] at hj
          cases hj
          omega
        · rwa [setAt_of_ne _ _ hji] at hj
      · intro env contents m hroom hdepth hreal
        rw [hset]
        exact hreal.push hi (fun hj => (harr.usable hj).1) (fun hj => (harr.slot hj).2) hdepth hroom
    · exact Ensures.of_error he ⟨rfl, by omega⟩
  · have hfree : ∀ i, (placeAt ps i).register? ≠ some dest := fun i hi => hheld ⟨i, hi⟩
    refine Ensures.of_ok (evict_of_free hfree asm) ⟨[], ?_, rfl, Nat.zero_le 1, straight_nil,
      .inl rfl, harr, hfree, fun _ h => h, fun h _ => h,
      fun _ _ hreal => ⟨_, rfl, hreal, fun _ _ => rfl, fun _ => rfl⟩⟩
    simp [Assembly.append]

/-- Inputs can be put back wherever they are. -/
theorem restoreAll_ensures {origins inputs : List Place} {depth : Nat} (hos : Sources origins)
    (hlen : inputs.length ≤ origins.length) (harr : Arranged (placeAt inputs) depth)
    (hplaced : ∀ i < inputs.length, placeAt inputs i ≠ .uninitialized) (index : Nat)
    (asm : Assembly) :
    Ensures (TooDeep (depth + 8 * (inputs.length - 1)))
      (restoreAll origins inputs index depth) asm fun depth' asm' =>
        ∃ c, asm' = asm.append c ∧ Restores origins inputs depth c depth' := by
  induction origins generalizing inputs depth index asm with
  | nil =>
      obtain _ | ⟨p, ps⟩ := inputs
      · exact Ensures.of_ok rfl ⟨[], by simp [Assembly.append], Restores.nil _ _⟩
      · simp at hlen
  | cons o os ih =>
      obtain _ | ⟨p, ps⟩ := inputs
      · exact Ensures.of_ok rfl ⟨[], by simp [Assembly.append], Restores.nil _ _⟩
      · have hrest : ∀ i < ps.length, placeAt ps i ≠ .uninitialized := fun i hi =>
          hplaced (i + 1) (by simpa using hi)
        obtain ⟨v, rfl⟩ | ⟨dest, rfl, hdest⟩ := hos.origin List.mem_cons_self
        · refine (ih hos.tail (by simpa using hlen) harr.tail hrest (index + 1) asm).mono
            (fun e _ he => ⟨he.1, ?_⟩) ?_
          · have := he.2
            rw [List.length_cons]
            omega
          · rintro depth' asm' ⟨c, rfl, h⟩
            exact ⟨c, rfl, h.skip⟩
        · refine Ensures.bind ((evict_ensures harr asm).mono (fun e _ he => ⟨he.1, ?_⟩) ?_)
          · have := he.2
            rw [List.length_cons]
            omega
          rintro ⟨ps', depth₁⟩ _ ⟨c₁, rfl, hev⟩
          have hsame := hev.same
          obtain ⟨c₂, depth₂, hrestore, hone⟩ := restore_eq hev.arranged hdest hev.free
            (hplaced 0 (by simp)) index (asm.append c₁)
          refine Ensures.bind_ok hrestore ?_
          have hplaced' : ∀ i < ps'.length, placeAt ps' i ≠ .uninitialized := fun i hi =>
            hev.placed i (hrest i (hsame ▸ hi))
          have h₁ := hev.depth_le
          have h₂ := hone.depth_le
          refine (ih hos.tail (by rw [hsame]; simpa using hlen) hone.arranged hplaced' (index + 1)
            _).mono (fun e _ he => ⟨he.1, ?_⟩) ?_
          · have := he.2
            rw [List.length_cons]
            omega
          · rintro depth₃ asm' ⟨c₃, rfl, hall⟩
            exact ⟨c₁ ++ (c₂ ++ c₃), by simp only [Assembly.append_append, List.append_assoc],
              Restores.cons hos hev hone hall⟩

end Bailout
end InlineCache
