import InlineCache.Proofs.Codegen.Registers

/-!
# Using and defining operands

To use an operand is to have it in a register in the form that is asked for. Where it is decides
how much code that takes: an operand in a register is converted in place, one on the stack is
brought back first, a constant is loaded. The virtual registers do not see these differences, and
all cases are said by one structure, `Uses`.
-/

namespace InlineCache

open X64

/-! ## Forms -/

namespace Place

/-- What a word means in this place: a bare payload or a boxed value. -/
def form : Place → UInt64 → Content
  | .payloadReg _ t, w => .payload t w
  | .payloadStack _ t, w => .payload t w
  | _, w => .boxed w

variable {p : Place} {top : UInt64} {m : Machine}

theorem content?_of_register? {r : Register} (h : p.register? = some r) :
    p.content? top m = some (p.form (m.reg r)) := by
  cases p <;> first | (cases h; rfl) | cases h

theorem content?_of_slot? {o : Nat} (h : p.slot? = some o) :
    p.content? top m = some (p.form (m.mem.read64 (Memory.slot top o))) := by
  cases p <;> first | (cases h; rfl) | cases h

end Place

/-! ## Conversions -/

/-- A step that only writes code, and the code converts the word in a register by `g`. -/
def Converts (step : Gen Unit) (g : UInt64 → UInt64) (r : Register) : Prop :=
  ∃ c, (c.length ≤ 6 ∧ Straight c) ∧ (∀ s : Codegen, step s = .ok () (s.write c s.alloc)) ∧
    Snippet.Computes g r r [r, scratchRegister] c

namespace Converts

variable {r : Register} {t : ValueType}

theorem pure : Converts (Pure.pure ()) (fun w => w) r :=
  ⟨[], ⟨Nat.zero_le _, straight_nil⟩, fun s => by rw [Codegen.write_nil]; rfl,
    fun _ m => ⟨m, rfl, rfl, Machine.AgreeExcept.refl _ m⟩⟩

theorem unbox (ht : t.isBoxable = true) : Converts (Gen.code? (Snippet.unbox r r t)) t.unbox r := by
  obtain ⟨c, hc, ⟨hlen, hstraight⟩, hcomp⟩ := Snippet.unbox_of_isBoxable ht r r
  exact ⟨c, ⟨by omega, hstraight⟩, fun s => by rw [hc]; rfl, hcomp.mono (by simp)⟩

theorem tag (ht : t.isBoxable = true) (hr : r ≠ scratchRegister) :
    Converts (Gen.code? (Snippet.tag t r r)) t.box r := by
  obtain ⟨c, hc, ⟨hlen, hstraight⟩, hcomp⟩ := @Snippet.tag_of_isBoxable t ht r r hr
  exact ⟨c, ⟨by omega, hstraight⟩, fun s => by rw [hc]; rfl, hcomp⟩

theorem retype {known : ValueType} (hk : known.isBoxable = true) (ht : t.isBoxable = true)
    (hr : r ≠ scratchRegister) :
    Converts (Gen.retype r known t)
      (fun w => if known = t then w else t.unbox (known.box w)) r := by
  by_cases h : known = t
  · have hstep : Gen.retype r known t = Pure.pure () := if_neg (not_not.mpr h)
    simp only [hstep, if_pos h]
    exact Converts.pure
  · obtain ⟨c, hc, ⟨hlen, hstr⟩, hcomp⟩ := @Snippet.tag_of_isBoxable known hk r r hr
    obtain ⟨c', hc', ⟨hlen', hstr'⟩, hcomp'⟩ := Snippet.unbox_of_isBoxable ht r r
    refine ⟨c ++ c', ⟨by rw [List.length_append]; omega, hstr.append hstr'⟩, fun s => ?_, ?_⟩
    · rw [Gen.retype, if_pos h, hc, hc']
      show EStateM.Result.ok () _ = _
      rw [← Codegen.write_write s c c' s.alloc]
      rfl
    · simp only [if_neg h]
      exact hcomp.comp (hcomp'.mono (by simp))

end Converts

/-! ## Operands in registers -/

/-- The operand was brought to a register, in place `p`, and `f` was done to its virtual
register. -/
structure Uses (done : Bool) (a : Allocator) (x : OperandId) (f : Content → Content)
    (r : Register) (p : Place) (c : Snippet.Code) (a' : Allocator) : Prop where
  advance : Advance done a c a' fun s => s.set x (f (s.contents x.index))
  length : c.length ≤ 8
  place : a'.place x.index = p
  stays : ∀ {q}, (a.place x.index).register? = some q → r = q
  current : a'.current.contains r = true
  reserved : ∀ {s}, a.current.contains s = true → a'.current.contains s = true
  claimed : ∀ {s}, a.Claimed s → a'.Claimed s
  pinned : ∀ {i}, i ≠ x.index → a.Pinned i → a'.place i = a.place i

/-- An operand that is used stays in its register. -/
theorem Uses.isPinned {done : Bool} {a a' : Allocator} {x : OperandId} {f : Content → Content}
    {r : Register} {p : Place} {c : Snippet.Code} (h : Uses done a x f r p c a')
    (hdead : a.isDead x.index = false) (hp : p.register? = some r) : a'.Pinned x.index := by
  refine ⟨by rw [h.advance.continues.isDead]; exact hdead, fun q hq => ?_⟩
  rw [h.place, hp] at hq
  cases hq
  exact h.current

section
variable {k d : Nat} {taken : List Register} {done : Bool} {a : Allocator} {x : OperandId}
  {f : Content → Content} {g : UInt64 → UInt64} {r : Register} {p : Place} {c : Snippet.Code}

/-- Registers of operands are neither the stub register nor the scratch register, nor the output
register once it has the result. -/
theorem Allocator.Inv.register?_ne (h : a.Inv k d taken done) {i : Nat}
    (hi : (a.place i).register? = some r) :
    r ≠ .rsp ∧ r ≠ stubRegister ∧ r ≠ scratchRegister ∧ (done = true → r ≠ outputRegister) := by
  obtain ⟨e, he⟩ := h.sound.engine
  have := usable_of_allocatable (he ▸ (h.sound.held hi).1)
  exact ⟨this.1, this.2.1, this.2.2, fun hd hr => (h.result hd).notHeld i (hr ▸ hi)⟩

/-- The operand is in the right form already. -/
theorem Uses.refl (hinv : a.Inv k d taken done) (hplace : a.place x.index = p)
    (hp : p.register? = some r) (hf : ∀ w, f (p.form w) = p.form w) :
    Uses done a x f r p [] (a.reserve r) ∧ (a.reserve r).Inv k d (r :: taken) done := by
  refine ⟨⟨⟨⟨rfl, rfl, rfl, rfl, rfl, rfl, Nat.le_refl _⟩, straight_nil, ?_⟩, Nat.zero_le _,
    hplace, fun hq => Option.some.inj (hp.symm.trans (hplace ▸ hq)), ?_, ?_,
    fun h => ⟨h.notFree, h.notHeld⟩, fun _ _ => rfl⟩,
    ⟨hinv.sound.reserve, hinv.instruction, ?_, fun hd => ?_⟩⟩
  · intro env s m _ _ hrun
    refine ⟨m, rfl, ?_, hrun.stub, hrun.result⟩
    have hx := hrun.realizes.holds (by rw [hplace]; exact Place.content?_of_register? hp)
    have hsame : setAt s.contents x.index (f (s.contents x.index)) = s.contents := by
      funext i
      by_cases hi : i = x.index
      · rw [hi, setAt_self, hx, hf]
      · rw [setAt_of_ne _ _ hi]
    show Realizes env a.place a.depth (setAt s.contents x.index (f (s.contents x.index))) m
    rw [hsame]
    exact hrun.realizes
  · simp [Allocator.reserve]
  · intro s hs
    simp [Allocator.reserve, hs]
  · have := hinv.shallow
    rw [List.length_cons]
    show a.maxDepth ≤ _
    omega
  · exact ⟨(hinv.result hd).notFree, (hinv.result hd).notHeld⟩

/-- The operand is in a register, and is converted in place. -/
theorem Uses.inPlace (hinv : a.Inv k d taken done) (hx : x.index < d) {p₀ : Place}
    (hplace : a.place x.index = p₀) (hp₀ : p₀.register? = some r) (hp : p.register? = some r)
    (hslot : p.slot? = none) (hbox : ∀ t, p.payloadType? = some t → t.isBoxable = true)
    (hlen : c.length ≤ 6 ∧ Straight c) (hc : Snippet.Computes g r r [r, scratchRegister] c)
    (hf : ∀ w, f (p₀.form w) = p.form (g w)) :
    Uses done a x f r p c ((a.setPlace x.index p).reserve r) ∧
      ((a.setPlace x.index p).reserve r).Inv k d (r :: taken) done := by
  have hheld : (a.place x.index).register? = some r := by rw [hplace]; exact hp₀
  have hlt := Allocator.lt_size_of_register? hheld
  have hne := hinv.register?_ne hheld
  have hplace' : ((a.setPlace x.index p).reserve r).place = setAt a.place x.index p :=
    Allocator.place_setPlace hlt p
  have hsound : (a.setPlace x.index p).Sound d taken :=
    hinv.sound.move (Nat.le_refl d) hinv.sound.le_size hx (fun j _ _ => by omega)
      (fun h => by rw [h] at hp; cases hp) hslot
      (fun s hs => .inl (by rw [hheld, ← hp, hs])) (fun s hs => by rw [hp, ← hheld, hs]) hbox
      (Nat.le_refl _) (fun j o _ ho => (hinv.sound.arranged.slot ho).2)
  have hclaimed : ∀ {s}, a.Claimed s → ((a.setPlace x.index p).reserve r).Claimed s := by
    intro s hs
    have hrs : p.register? ≠ some s := fun h =>
      hs.notHeld x.index (by rw [hheld, ← hp, h])
    have hmove : (a.move x.index p a.depth).Claimed s := hs.move hlt hrs
    exact ⟨hs.notFree, hmove.notHeld⟩
  refine ⟨⟨⟨⟨rfl, rfl, rfl, rfl, Allocator.size_setPlace _ _, rfl, Nat.le_refl _⟩, hlen.2, ?_⟩,
    by omega, by rw [hplace', setAt_self], fun hq => Option.some.inj (hheld.symm.trans hq), ?_, ?_,
    hclaimed, fun hi _ => ?_⟩,
    ⟨hsound.reserve, hinv.instruction, ?_, fun hd => hclaimed (hinv.result hd)⟩⟩
  · intro env s m _ _ hrun
    have hcontent := hrun.realizes.holds (by rw [hplace]; exact Place.content?_of_register? hp₀)
    obtain ⟨m', hx, hr, ha⟩ := hc env.area m
    -- While the operand is converted, it has no place.
    have hforget : Realizes env (setAt a.place x.index .uninitialized) a.depth s.contents m := by
      refine hrun.realizes.forget fun i => ?_
      by_cases hi : i = x.index
      · exact .inr (by rw [hi, setAt_self])
      · exact .inl (setAt_of_ne _ _ hi)
    have hreal := hforget.agree ha (by simp [hne.1.symm]; decide) fun i q hq => by
      by_cases hi : i = x.index
      · rw [hi, setAt_self] at hq
        cases hq
      · rw [setAt_of_ne _ _ hi] at hq
        have hqr : q ≠ r := fun h => hi (hinv.sound.arranged.register hq (h ▸ hheld))
        simp [hqr, (hinv.register?_ne hq).2.2.1]
    have hset := hreal.setAt (i := x.index) (Place.content?_of_register? hp)
    rw [setAt_setAt, hr, ← hf, ← hcontent] at hset
    refine ⟨m', hx, ?_, ?_, fun hd => ?_⟩
    · rw [hplace']
      exact hset
    · rw [ha.reg _ (by simp [hne.2.1.symm]; decide)]
      exact hrun.stub
    · rw [ha.reg _ (by simp [(hne.2.2.2 hd).symm]; decide)]
      exact hrun.result hd
  · simp [Allocator.reserve]
  · intro s hs
    simp only [Allocator.reserve, Allocator.setPlace, RegisterSet.contains_insert, hs, Bool.true_or]
  · rw [hplace', setAt_of_ne _ _ hi]
  · have := hinv.shallow
    rw [List.length_cons]
    show a.maxDepth ≤ _
    omega

/-- The operand is not in a register. One is taken for it, and the code `c'` leaves the operand
there in the right form. -/
theorem Uses.loaded {a₁ : Allocator} {c' : Snippet.Code} {depth : Nat}
    (hinv₀ : a.Inv k d taken done) (hx : x.index < d) (hpin : a.Pinned x.index)
    (hreg : (a.place x.index).register? = none)
    (halloc : a.Allocates done r c a₁) (hinv : a₁.Inv k d (r :: taken) done)
    (hp : p.register? = some r) (hslot : p.slot? = none)
    (hbox : ∀ t, p.payloadType? = some t → t.isBoxable = true) 
    (hlen : c'.length ≤ 7 ∧ Straight c')
    (hdepth : depth ≤ a₁.depth)
    (hslots : ∀ j o, j ≠ x.index → (a₁.place j).slot? = some o → o ≤ depth)
    (hload : ∀ {env s m}, env.room < 2 ^ 31 → a₁.maxDepth ≤ env.room →
      Running env done a₁ s m → ∃ m', exec env.area c' m = .fall m' ∧
        f (s.contents x.index) = p.form (m'.reg r) ∧
        Realizes env a₁.place depth s.contents m' ∧
        ∀ q, q ∉ [.rsp, r, scratchRegister] → m'.reg q = m.reg q) :
    Uses done a x f r p (c ++ c') (a₁.move x.index p depth) ∧
      (a₁.move x.index p depth).Inv k d (r :: taken) done := by
  have hsame := halloc.pinned hpin
  have hlt : x.index < a₁.places.size := Nat.lt_of_lt_of_le hx hinv.sound.le_size
  have hplace := Allocator.place_move hlt p depth
  obtain ⟨e, he⟩ := hinv.sound.engine
  have hne := Allocator.usable_of_allocatable (he ▸ halloc.allocatable)
  have hsound : (a₁.move x.index p depth).Sound d (r :: taken) :=
    hinv.sound.move (Nat.le_refl d) hinv.sound.le_size hx (fun j _ _ => by omega)
      (fun h => by rw [h] at hp; cases hp) hslot
      (fun s hs => .inr (by
        rw [hp] at hs
        cases hs
        exact ⟨halloc.claimed, halloc.allocatable⟩))
      (fun s hs => by rw [hsame, hreg] at hs; cases hs) hbox hdepth hslots
  have hclaimed : ∀ {s}, a₁.Claimed s → s ≠ r → (a₁.move x.index p depth).Claimed s :=
    fun hs hsr => hs.move hlt fun h => hsr (Option.some.inj (h.symm.trans hp))
  refine ⟨⟨⟨halloc.advance.continues.trans Allocator.continues_move,
    halloc.advance.straight.append hlen.2, ?_⟩, ?_, by rw [hplace, setAt_self],
    fun hq => (nomatch hreg.symm.trans hq), ?_, ?_, fun hs => ?_, fun hi hj => ?_⟩,
    ⟨hsound, hinv.instruction, ?_, fun hd => ?_⟩⟩
  · intro env s m hroom hmax hrun
    obtain ⟨m₁, hx₁, hrun₁⟩ := halloc.advance.runs hroom hmax hrun
    obtain ⟨m₂, hx₂, hf, hreal, hregs⟩ := hload hroom hmax hrun₁
    refine ⟨m₂, by rw [exec_append_of_fall hx₁, hx₂], ?_, ?_, fun hd => ?_⟩
    · rw [hplace]
      have hset := hreal.setAt (i := x.index) (Place.content?_of_register? hp)
      rw [← hf] at hset
      exact hset
    · rw [hregs _ (by simp [hne.2.1.symm]; decide)]
      exact hrun₁.stub
    · have hr := (halloc.others (hinv₀.result hd)).2
      rw [hregs _ (by simp [hr]; decide)]
      exact hrun₁.result hd
  · rw [List.length_append]
    have := halloc.length
    omega
  · show a₁.current.contains r = true
    rw [halloc.current]
    simp
  · intro s hs
    show a₁.current.contains s = true
    rw [halloc.current]
    simp [hs]
  · exact hclaimed (halloc.others hs).1 (halloc.others hs).2
  · rw [hplace, setAt_of_ne _ _ hi]
    exact halloc.pinned hj
  · exact hinv.shallow
  · exact hclaimed (halloc.others (hinv₀.result hd)).1 (halloc.others (hinv₀.result hd)).2

/-- An operand on the stack is brought back and converted. -/
theorem Uses.fromStack {a₁ : Allocator} {c' : Snippet.Code} {o : Nat} {p₀ : Place}
    (hinv₀ : a.Inv k d taken done) (hx : x.index < d) (hdead : a.isDead x.index = false)
    (hplace : a.place x.index = p₀) (hp₀ : p₀.slot? = some o)
    (halloc : a.Allocates done r c a₁) (hinv : a₁.Inv k d (r :: taken) done)
    (hp : p.register? = some r) (hslot : p.slot? = none)
    (hbox : ∀ t, p.payloadType? = some t → t.isBoxable = true) 
    (hlen : c'.length ≤ 6 ∧ Straight c')
    (hc : Snippet.Computes g r r [r, scratchRegister] c')
    (hf : ∀ w, f (p₀.form w) = p.form (g w)) :
    Uses done a x f r p (c ++ (Emit.reloadCode r o a₁.depth ++ c'))
        (a₁.move x.index p (Emit.reloadDepth o a₁.depth)) ∧
      (a₁.move x.index p (Emit.reloadDepth o a₁.depth)).Inv k d (r :: taken) done := by
  have hreg : p₀.register? = none := by
    cases p₀ <;> first | rfl | cases hp₀
  have hpin : a.Pinned x.index := ⟨hdead, fun s hs => by rw [hplace, hreg] at hs; cases hs⟩
  have hplace₁ : a₁.place x.index = p₀ := (halloc.pinned hpin).trans hplace
  have hslot₁ : (a₁.place x.index).slot? = some o := by rw [hplace₁]; exact hp₀
  obtain ⟨h8, ho⟩ := hinv.sound.arranged.slot hslot₁
  obtain ⟨e, he⟩ := hinv.sound.engine
  have hne := Allocator.usable_of_allocatable (he ▸ halloc.allocatable)
  refine Uses.loaded hinv₀ hx hpin (hplace ▸ hreg) halloc hinv hp hslot hbox
    ⟨?_, (Emit.straight_reloadCode _ _ _).append hlen.2⟩ (Emit.reloadDepth_le _ _)
    (fun j o' hj ho' => hinv.sound.arranged.le_reloadDepth hslot₁ ho' hj)
    fun {env s m} hroom hmax hrun => ?_
  · rw [List.length_append, Emit.length_reloadCode]
    omega
  · have hdepth : a₁.depth < 2 ^ 31 := by
      have := hinv.sound.depth_le
      omega
    obtain ⟨m₁, hx₁, hr₁, hmem₁, hreal₁, hregs₁⟩ := hrun.realizes.reload h8 ho hdepth hne.1
      halloc.claimed.notHeld fun hi => (hinv.sound.arranged.usable hi).1
    obtain ⟨m₂, hx₂, hr₂, ha₂⟩ := hc env.area m₁
    refine ⟨m₂, by rw [exec_append_of_fall hx₁, hx₂], ?_, ?_, fun q hq => ?_⟩
    · rw [hrun.realizes.holds (by rw [hplace₁]; exact Place.content?_of_slot? hp₀), hf, hr₂, hr₁]
    · refine hreal₁.agree ha₂ (by simp [hne.1.symm]; decide) fun i q hq => ?_
      have hqr : q ≠ r := fun h => halloc.claimed.notHeld i (h ▸ hq)
      simp [hqr, (hinv.sound.arranged.usable hq).2]
    · simp only [List.mem_cons, List.not_mem_nil, or_false, not_or] at hq
      rw [ha₂.reg q (by simp [hq]), hregs₁ q hq.1 hq.2.1]

/-- A constant is loaded. -/
theorem Uses.fromConstant {a₁ : Allocator} {v : Value} {w : UInt64}
    (hinv₀ : a.Inv k d taken done) (hx : x.index < d) (hdead : a.isDead x.index = false)
    (hplace : a.place x.index = .constant v)
    (halloc : a.Allocates done r c a₁) (hinv : a₁.Inv k d (r :: taken) done)
    (hp : p.register? = some r) (hslot : p.slot? = none)
    (hbox : ∀ t, p.payloadType? = some t → t.isBoxable = true)
    (hf : f (.constant v) = p.form w) :
    Uses done a x f r p (c ++ [.movImm r w]) (a₁.move x.index p a₁.depth) ∧
      (a₁.move x.index p a₁.depth).Inv k d (r :: taken) done := by
  have hpin : a.Pinned x.index := ⟨hdead, fun s hs => by rw [hplace] at hs; cases hs⟩
  have hplace₁ : a₁.place x.index = .constant v := (halloc.pinned hpin).trans hplace
  obtain ⟨e, he⟩ := hinv.sound.engine
  have hne := Allocator.usable_of_allocatable (he ▸ halloc.allocatable)
  refine Uses.loaded hinv₀ hx hpin (by rw [hplace]; rfl) halloc hinv hp hslot hbox
    ⟨by simp, straight_cons rfl straight_nil⟩ (Nat.le_refl _)
    (fun j o _ ho => (hinv.sound.arranged.slot ho).2) fun {env s m} _ _ hrun => ?_
  have hagree := (Machine.AgreeExcept.refl [r] m).setReg (List.mem_singleton_self r) w
  refine ⟨_, exec_movImm r w, ?_, hrun.realizes.agree hagree (by simp [hne.1.symm]) ?_, ?_⟩
  · rw [hrun.realizes.holds (by rw [hplace₁]; rfl), hf, Machine.reg_setReg, if_pos rfl]
  · intro i q hq hqr
    rw [List.mem_singleton] at hqr
    exact halloc.claimed.notHeld i (hqr ▸ hq)
  · intro q hq
    simp only [List.mem_cons, not_or] at hq
    exact hagree.reg q (by simp [hq.2.1])

end

/-! ## The steps of code generation -/

namespace Gen

variable {s : Codegen} {k d : Nat} {taken : List Register} {done : Bool} {x : OperandId}

/-- What using an operand comes to. -/
def Used (k d : Nat) (taken : List Register) (done : Bool) (s : Codegen) (x : OperandId)
    (f : Content → Content) (p : Register → Place) (r : Register) (s' : Codegen) : Prop :=
  ∃ c a, s' = s.write c a ∧ Uses done s.alloc x f r (p r) c a ∧ a.Inv k d (r :: taken) done

theorem reload_eq {r : Register} {o : Nat} (h8 : 8 ≤ o) (ho : o ≤ s.alloc.depth) :
    Gen.reload r o s = .ok () (s.write (Emit.reloadCode r o s.alloc.depth)
      { s.alloc with depth := Emit.reloadDepth o s.alloc.depth }) := by
  have hr : Gen.emit (Emit.reload r o s.alloc.depth) s =
      .ok (Emit.reloadDepth o s.alloc.depth)
        { s with asm := s.asm.append (Emit.reloadCode r o s.alloc.depth) } := by
    rw [Gen.emit, EStateM.run, Emit.reload_eq h8 ho]
  show (Gen.emit (Emit.reload r o s.alloc.depth) >>= fun depth => Gen.setDepth depth) s = _
  rw [bind_of_ok hr]
  rfl

theorem fromStack_ensures (hinv : s.alloc.Inv k d taken done) (hlen : taken.length ≤ 3)
    (hx : x.index < d) (hdead : s.alloc.isDead x.index = false) {p₀ : Place} {o : Nat}
    (hplace : s.alloc.place x.index = p₀) (hp₀ : p₀.slot? = some o) {f : Content → Content}
    {p : Register → Place} (hp : ∀ r, (p r).register? = some r) (hslot : ∀ r, (p r).slot? = none)
    (hbox : ∀ r t, (p r).payloadType? = some t → t.isBoxable = true) {g : UInt64 → UInt64}
    {step : Register → Gen Unit} (hstep : ∀ r, r ≠ scratchRegister → Converts (step r) g r)
    (hf : ∀ r w, f (p₀.form w) = (p r).form (g w)) :
    Ensures (Overflow k)
      (do let r ← allocate
          reload r o
          step r
          setPlace x.index (p r)
          return r) s (Used k d taken done s x f p) := by
  refine Ensures.bind ((allocate_ensures hinv hlen).mono (fun _ _ h => h) ?_)
  rintro r _ ⟨c, a, rfl, halloc, hinv₁⟩
  obtain ⟨e, he⟩ := hinv₁.sound.engine
  have hne := Allocator.usable_of_allocatable (he ▸ halloc.allocatable)
  obtain ⟨c', hlen', hgen, hcomp⟩ := hstep r hne.2.2
  have huses := Uses.fromStack hinv hx hdead hplace hp₀ halloc hinv₁ (hp r) (hslot r) (hbox r)
    hlen' hcomp (hf r)
  have hreg : p₀.register? = none := by
    cases p₀ <;> first | rfl | cases hp₀
  have hplace₁ : a.place x.index = p₀ := (halloc.pinned
    ⟨hdead, fun s hs => by rw [hplace, hreg] at hs; cases hs⟩).trans hplace
  obtain ⟨h8, ho⟩ := hinv₁.sound.arranged.slot (show (a.place x.index).slot? = some o by
    rw [hplace₁]; exact hp₀)
  have hlt : x.index < a.places.size := Nat.lt_of_lt_of_le hx hinv₁.sound.le_size
  refine Ensures.bind_ok (reload_eq (s := s.write c a) h8 ho) (Ensures.bind_ok (hgen _)
    (Ensures.bind_ok (setPlace_eq (by simpa using hlt) _) (Ensures.pure ?_)))
  exact ⟨_, _, by rw [Codegen.write_write, Codegen.write_write]; rfl, huses⟩

theorem fromConstant_ensures (hinv : s.alloc.Inv k d taken done) (hlen : taken.length ≤ 3)
    (hx : x.index < d) (hdead : s.alloc.isDead x.index = false) {v : Value} {w : UInt64}
    (hplace : s.alloc.place x.index = .constant v) {f : Content → Content}
    {p : Register → Place} (hp : ∀ r, (p r).register? = some r) (hslot : ∀ r, (p r).slot? = none)
    (hbox : ∀ r t, (p r).payloadType? = some t → t.isBoxable = true)
    (hf : ∀ r, f (.constant v) = (p r).form w) :
    Ensures (Overflow k)
      (do let r ← allocate
          code [.movImm r w]
          setPlace x.index (p r)
          return r) s (Used k d taken done s x f p) := by
  refine Ensures.bind ((allocate_ensures hinv hlen).mono (fun _ _ h => h) ?_)
  rintro r _ ⟨c, a, rfl, halloc, hinv₁⟩
  have huses := Uses.fromConstant hinv hx hdead hplace halloc hinv₁ (hp r) (hslot r) (hbox r) (hf r)
  have hlt : x.index < a.places.size := Nat.lt_of_lt_of_le hx hinv₁.sound.le_size
  refine Ensures.bind_ok (t := s.write (c ++ [.movImm r w]) a)
    (by rw [← Codegen.write_write s c _ a]; rfl)
    (Ensures.bind_ok (setPlace_eq hlt _) (Ensures.pure ?_))
  exact ⟨_, _, rfl, huses⟩

/-- The operand can be had boxed. -/
theorem useValue_ensures (hinv : s.alloc.Inv k d taken done) (hlen : taken.length ≤ 3)
    (hx : x.index < d) (hdead : s.alloc.isDead x.index = false) :
    Ensures (Overflow k) (useValue x.index) s
      (Used k d taken done s x (fun c => .boxed c.word) .valueReg) := by
  have hlt : x.index < s.alloc.places.size := Nat.lt_of_lt_of_le hx hinv.sound.le_size
  have hplaced := hinv.sound.placed hx hdead
  refine Ensures.bind_ok (place_eq hlt) ?_
  cases hp : s.alloc.place x.index with
  | valueReg r =>
      obtain ⟨huses, hinv'⟩ := Uses.refl (f := fun c => .boxed c.word) hinv hp rfl fun w => rfl
      refine Ensures.of_ok rfl ⟨[], s.alloc.reserve r, ?_, huses, hinv'⟩
      rw [Codegen.write_nil]
  | payloadReg r t =>
      have ht : t.isBoxable = true := hinv.sound.arranged.boxable (i := x.index) (by rw [hp]; rfl)
      have hr := hinv.register?_ne (i := x.index) (r := r) (by rw [hp]; rfl)
      obtain ⟨c, hlen', hgen, hcomp⟩ := Converts.tag ht hr.2.2.1
      obtain ⟨huses, hinv'⟩ := Uses.inPlace (f := fun c => .boxed c.word) (p := .valueReg r) hinv hx
        hp rfl rfl rfl (fun t h => by cases h) hlen' hcomp fun w => rfl
      exact Ensures.bind_ok (hgen s) (Ensures.bind_ok rfl (Ensures.bind_ok
        (setPlace_eq (s := s.write c (s.alloc.reserve r)) hlt _)
        (Ensures.pure ⟨c, _, rfl, huses, hinv'⟩)))
  | valueStack o =>
      exact fromStack_ensures hinv hlen hx hdead hp rfl (fun r => rfl) (fun r => rfl)
        (fun r t h => by cases h) (fun r _ => Converts.pure) fun r w => rfl
  | payloadStack o t =>
      have ht : t.isBoxable = true := hinv.sound.arranged.boxable (i := x.index) (by rw [hp]; rfl)
      exact fromStack_ensures hinv hlen hx hdead hp rfl (fun r => rfl) (fun r => rfl)
        (fun r t h => by cases h) (fun r hr => Converts.tag ht hr) fun r w => rfl
  | constant v =>
      exact fromConstant_ensures hinv hlen hx hdead hp (fun r => rfl) (fun r => rfl)
        (fun r t h => by cases h) fun r => rfl
  | uninitialized => exact absurd hp hplaced

/-- The operand can be had as a payload of a type that payloads have. -/
theorem usePayload_ensures (hinv : s.alloc.Inv k d taken done) (hlen : taken.length ≤ 3)
    (hx : x.index < d) (hdead : s.alloc.isDead x.index = false) {t : ValueType}
    (ht : t.isBoxable = true) :
    Ensures (Overflow k) (usePayload x.index t) s
      (Used k d taken done s x (fun c => .payload t (c.payloadAs t)) (.payloadReg · t)) := by
  have hlt : x.index < s.alloc.places.size := Nat.lt_of_lt_of_le hx hinv.sound.le_size
  have hplaced := hinv.sound.placed hx hdead
  have hbox : ∀ r u, (Place.payloadReg r t).payloadType? = some u → u.isBoxable = true := by
    intro r u hu
    cases hu
    exact ht
  refine Ensures.bind_ok (place_eq hlt) ?_
  cases hp : s.alloc.place x.index with
  | valueReg r =>
      obtain ⟨c, hlen', hgen, hcomp⟩ := Converts.unbox ht
      obtain ⟨huses, hinv'⟩ := Uses.inPlace (f := fun c => .payload t (c.payloadAs t))
        (p := .payloadReg r t) hinv hx hp rfl rfl rfl (hbox r) hlen' hcomp fun w => rfl
      exact Ensures.bind_ok (hgen s) (Ensures.bind_ok rfl (Ensures.bind_ok
        (setPlace_eq (s := s.write c (s.alloc.reserve r)) hlt _)
        (Ensures.pure ⟨c, _, rfl, huses, hinv'⟩)))
  | payloadReg r known =>
      have hk : known.isBoxable = true :=
        hinv.sound.arranged.boxable (i := x.index) (by rw [hp]; rfl)
      have hr := hinv.register?_ne (i := x.index) (r := r) (by rw [hp]; rfl)
      by_cases hkt : known = t
      · subst hkt
        obtain ⟨huses, hinv'⟩ := Uses.refl (f := fun c => .payload known (c.payloadAs known)) hinv hp
          rfl fun w => by simp [Place.form, Content.payloadAs]
        refine Ensures.of_ok (a := r) (t := { s with alloc := s.alloc.reserve r }) ?_
          ⟨[], s.alloc.reserve r, ?_, huses, hinv'⟩
        · simp only [retype, ne_eq, not_true_eq_false, if_false]
          rfl
        · rw [Codegen.write_nil]
      · obtain ⟨c, hlen', hgen, hcomp⟩ := Converts.retype hk ht hr.2.2.1
        obtain ⟨huses, hinv'⟩ := Uses.inPlace (f := fun c => .payload t (c.payloadAs t))
          (p := .payloadReg r t) hinv hx hp rfl rfl rfl (hbox r) hlen' hcomp fun w => rfl
        refine Ensures.bind_ok (hgen s) ?_
        rw [if_pos hkt]
        exact Ensures.bind_ok (setPlace_eq (s := s.write c s.alloc) hlt _) (Ensures.bind_ok rfl
          (Ensures.pure ⟨c, _, rfl, huses, hinv'⟩))
  | valueStack o =>
      exact fromStack_ensures hinv hlen hx hdead hp rfl (fun r => rfl) (fun r => rfl) hbox
        (fun r _ => Converts.unbox ht) fun r w => rfl
  | payloadStack o known =>
      have hk : known.isBoxable = true :=
        hinv.sound.arranged.boxable (i := x.index) (by rw [hp]; rfl)
      exact fromStack_ensures hinv hlen hx hdead hp rfl (fun r => rfl) (fun r => rfl) hbox
        (fun r hr => Converts.retype hk ht hr) fun r w => rfl
  | constant v =>
      exact fromConstant_ensures hinv hlen hx hdead hp (fun r => rfl) (fun r => rfl) hbox
        fun r => rfl
  | uninitialized => exact absurd hp hplaced

end Gen

/-! ## New operands -/

/-- A register was taken for a new operand. Whatever word it then has is the operand. -/
structure Defines (done : Bool) (a : Allocator) (y : OperandId) (r : Register) (p : Place)
    (c : Snippet.Code) (a' : Allocator) : Prop where
  continues : a.Continues a'
  straight : Straight c
  length : c.length ≤ 1
  runs : ∀ {env s m}, env.room < 2 ^ 31 → a'.maxDepth ≤ env.room → Running env done a s m →
    ∃ m', exec env.area c m = .fall m' ∧ ∀ {m''}, Machine.AgreeExcept [r] m' m'' →
      Running env done a' (s.set y (p.form (m''.reg r))) m''
  place : a'.place y.index = p
  current : a'.current.contains r = true
  allocatable : a'.allocatable.contains r = true
  others : ∀ {s}, a.Claimed s → a'.Claimed s ∧ s ≠ r
  pinned : ∀ {i}, i ≠ y.index → a.Pinned i → a'.place i = a.place i

section
variable {k d : Nat} {taken : List Register} {done : Bool} {a a₁ : Allocator} {y : OperandId}
  {r : Register} {p : Place} {c : Snippet.Code}

theorem Allocator.Allocates.defines (halloc : a.Allocates done r c a₁)
    (hinv₀ : a.Inv k d taken done) (hinv : a₁.Inv k d (r :: taken) done)
    (hy : y.index = d) (hsize : d < a.places.size) (hp : p.register? = some r)
    (hslot : p.slot? = none) (hbox : ∀ t, p.payloadType? = some t → t.isBoxable = true) :
    Defines done a y r p c (a₁.move y.index p a₁.depth) ∧
      (a₁.move y.index p a₁.depth).Inv k (d + 1) (r :: taken) done := by
  have hsize₁ : d < a₁.places.size := by rw [halloc.advance.continues.size]; exact hsize
  have hlt : y.index < a₁.places.size := by omega
  have hplace := Allocator.place_move hlt p a₁.depth
  have hfresh : a₁.place y.index = .uninitialized := hinv.sound.fresh (by omega)
  obtain ⟨e, he⟩ := hinv.sound.engine
  have hne := Allocator.usable_of_allocatable (he ▸ halloc.allocatable)
  have hsound : (a₁.move y.index p a₁.depth).Sound (d + 1) (r :: taken) :=
    hinv.sound.move (Nat.le_succ d) hsize₁ (by omega) (fun j _ _ => by omega)
      (fun h => by rw [h] at hp; cases hp) hslot
      (fun s hs => .inr (by
        rw [hp] at hs
        cases hs
        exact ⟨halloc.claimed, halloc.allocatable⟩))
      (fun s hs => by rw [hfresh] at hs; cases hs) hbox (Nat.le_refl _)
      (fun j o _ ho => (hinv.sound.arranged.slot ho).2)
  have hothers : ∀ {s}, a.Claimed s → (a₁.move y.index p a₁.depth).Claimed s ∧ s ≠ r := by
    intro s hs
    obtain ⟨hs₁, hsr⟩ := halloc.others hs
    exact ⟨hs₁.move hlt fun h => hsr (Option.some.inj (h.symm.trans hp)), hsr⟩
  refine ⟨⟨halloc.advance.continues.trans Allocator.continues_move, halloc.advance.straight,
    halloc.length, ?_, by rw [hplace, setAt_self], ?_, halloc.allocatable, hothers,
    fun hi hj => ?_⟩, ⟨hsound, hinv.instruction, hinv.shallow, fun hd => ?_⟩⟩
  · intro env s m hroom hmax hrun
    obtain ⟨m₁, hx₁, hrun₁⟩ := halloc.advance.runs hroom hmax hrun
    refine ⟨m₁, hx₁, fun {m''} ha => ?_⟩
    have hrun₂ := hrun₁.agree ha (by simp [hne.1.symm]) (by simp [hne.2.1.symm])
      (fun hd => by simp [(halloc.others (hinv₀.result hd)).2]) fun i q hq hqr => by
        rw [List.mem_singleton] at hqr
        exact halloc.claimed.notHeld i (hqr ▸ hq)
    refine ⟨?_, hrun₂.stub, hrun₂.result⟩
    rw [hplace]
    exact hrun₂.realizes.setAt (Place.content?_of_register? hp)
  · show a₁.current.contains r = true
    rw [halloc.current]
    simp
  · rw [hplace, setAt_of_ne _ _ hi]
    exact halloc.pinned hj
  · exact (hothers (hinv₀.result hd)).1

end

namespace Gen

variable {s : Codegen} {k d : Nat} {taken : List Register} {done : Bool} {y : OperandId}

theorem defineAt_ensures (hinv : s.alloc.Inv k d taken done) (hlen : taken.length ≤ 3)
    (hy : y.index = d) (hsize : d < s.alloc.places.size) {p : Register → Place}
    (hp : ∀ r, (p r).register? = some r) (hslot : ∀ r, (p r).slot? = none)
    (hbox : ∀ r t, (p r).payloadType? = some t → t.isBoxable = true) :
    Ensures (Overflow k) (defineAt y.index p) s fun r s' => ∃ c a, s' = s.write c a ∧
      Defines done s.alloc y r (p r) c a ∧ a.Inv k (d + 1) (r :: taken) done := by
  have hlt : y.index < s.alloc.places.size := by omega
  refine Ensures.bind_ok (place_eq hlt) ?_
  rw [hinv.sound.fresh (Nat.le_of_eq hy.symm), if_neg (not_not.mpr rfl)]
  refine Ensures.bind ((allocate_ensures hinv hlen).mono (fun _ _ h => h) ?_)
  rintro r _ ⟨c, a, rfl, halloc, hinv₁⟩
  have hlt₁ : y.index < a.places.size := by rw [halloc.advance.continues.size]; exact hlt
  have hdef := halloc.defines hinv hinv₁ hy hsize (hp r) (hslot r) (hbox r)
  exact Ensures.bind_ok (setPlace_eq (s := s.write c a) hlt₁ _)
    (Ensures.pure ⟨c, _, rfl, hdef⟩)

/-- The next operand becomes a constant. -/
theorem setPlace_constant (hinv : s.alloc.Inv k d taken done) (hy : y.index = d)
    (hsize : d < s.alloc.places.size) (v : Value) :
    ∃ a, Gen.setPlace y.index (.constant v) s = .ok () (s.write [] a) ∧
      Advance done s.alloc [] a (fun σ => σ.set y (.constant v)) ∧ a.Inv k (d + 1) taken done := by
  have hlt : y.index < s.alloc.places.size := by omega
  have hfresh : s.alloc.place y.index = .uninitialized := hinv.sound.fresh (by omega)
  have hplace := Allocator.place_setPlace hlt (.constant v)
  have hsound : (s.alloc.setPlace y.index (.constant v)).Sound (d + 1) taken :=
    hinv.sound.move (Nat.le_succ d) hsize (by omega) (fun j _ _ => by omega) nofun rfl nofun
      (fun s hs => by rw [hfresh] at hs; cases hs) nofun (Nat.le_refl _)
      (fun j o _ ho => (hinv.sound.arranged.slot ho).2)
  refine ⟨_, by rw [setPlace_eq hlt, Codegen.write_nil], ⟨?_, straight_nil, ?_⟩,
    ⟨hsound, hinv.instruction, hinv.shallow, fun hd => ?_⟩⟩
  · exact ⟨rfl, rfl, rfl, rfl, Allocator.size_setPlace _ _, rfl, Nat.le_refl _⟩
  · intro env σ m _ _ hrun
    refine ⟨m, rfl, ?_, hrun.stub, hrun.result⟩
    rw [hplace]
    exact hrun.realizes.setAt rfl
  · have hclaimed := hinv.result hd
    have hmove : (s.alloc.move y.index (.constant v) s.alloc.depth).Claimed outputRegister :=
      hclaimed.move hlt nofun
    exact ⟨hclaimed.notFree, hmove.notHeld⟩

end Gen

end InlineCache
