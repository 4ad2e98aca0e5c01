import InlineCache.Proofs.Codegen.Guards

/-!
# The code of loads

A load takes a register for the operand that it defines and fills it last. Until then the register
belongs to no operand that is in use, so the reads before may go through it.
-/

namespace InlineCache

open X64

namespace Snippet

/-- The code that reads a slot at the byte offset in a field. -/
def readSlot (dest object scratch : Register) (disp : Int32) (dynamic : Bool) : Code :=
  .load scratch stubRegister disp ::
    if dynamic then [.load dest object Layout.objectSlots, .loadIndexed dest dest scratch]
    else [.loadIndexed dest object scratch]

theorem length_readSlot (dest object scratch : Register) (disp : Int32) (dynamic : Bool) :
    (readSlot dest object scratch disp dynamic).length ≤ 3 := by
  cases dynamic <;> simp [readSlot]

theorem straight_readSlot (dest object scratch : Register) (disp : Int32) (dynamic : Bool) :
    Straight (readSlot dest object scratch disp dynamic) := by
  cases dynamic
  · exact straight_cons rfl (straight_cons rfl straight_nil)
  · exact straight_cons rfl (straight_cons rfl (straight_cons rfl straight_nil))

end Snippet

theorem Simulates.readSlot {env : Env} {done : Bool} {a : Allocator} {bs : Array Bailout}
    {s : VirtualState} {m : Machine} {dest object scratch : Register} {w : UInt64}
    {k : UInt64 → Virtual Unit} (disp : Int32) (dynamic : Bool)
    (hobject : m.reg object = w) (hstub : m.reg stubRegister = env.stub)
    (hmem : ∀ {x}, env.area x = false → m.mem x = env.mem x) (ho : object ≠ .rsp)
    (hs : scratch ≠ .rsp) (hos : object ≠ scratch) (hds : dest ≠ scratch)
    (h : ∀ {v m'}, Machine.AgreeExcept [dest, scratch] m m' → m'.reg dest = v →
      Simulates env done a bs (k v s) (.fall m')) :
    Simulates env done a bs ((Virtual.readSlot env w disp dynamic >>= k) s)
      (exec env.area (Snippet.readSlot dest object scratch disp dynamic) m) := by
  have hd : dest ∈ [dest, scratch] := List.mem_cons_self
  have hs' : scratch ∈ [dest, scratch] := by simp
  rw [Virtual.readSlot, bind_assoc]
  refine Simulates.load (by decide) hstub hmem fun offset => ?_
  have hoffset := (Machine.AgreeExcept.refl _ m).setReg hs' offset
  have hw : (m.setReg scratch offset).reg object = w := by
    rw [Machine.reg_setReg, if_neg hos.symm, hobject]
  cases dynamic with
  | false =>
      refine Simulates.loadIndexed (m := m.setReg scratch offset) hs hw
        (by rw [Machine.reg_setReg, if_pos rfl]) hmem fun v => ?_
      exact h (hoffset.setReg hd v) (by rw [Machine.reg_setReg, if_pos rfl])
  | true =>
      rw [if_pos rfl, bind_assoc]
      refine Simulates.load (m := m.setReg scratch offset) ho hw hmem fun slots => ?_
      refine Simulates.loadIndexed (m := (m.setReg scratch offset).setReg dest slots) hs
        (by rw [Machine.reg_setReg, if_pos rfl])
        (by rw [Machine.reg_setReg, if_neg hds, Machine.reg_setReg, if_pos rfl]) hmem fun v => ?_
      exact h ((hoffset.setReg hd slots).setReg hd v) (by rw [Machine.reg_setReg, if_pos rfl])

namespace Gen

variable {s : Codegen} {k d : Nat} {done : Bool} {x y : OperandId}

theorem readSlot_eq (dest object scratch : Register) (disp : Int32) (dynamic : Bool) :
    readSlot dest object scratch disp dynamic s =
      .ok () (s.write (Snippet.readSlot dest object scratch disp dynamic) s.alloc) := by
  cases dynamic <;> exact (bind_of_ok (code_eq _ _)).trans ((code_eq _ _).trans (by simp; rfl))

variable (hinv : s.alloc.Inv k d (initiallyTaken done) done) (hlab : s.Labelled)
  (hy : y.index = d) (hsize : d < s.alloc.places.size)
include hinv hlab hy hsize

theorem loadConstant_ensures (v : Value) :
    Ensures (Overflow k) (setPlace y.index (.constant v)) s
      (Emitted (fun _ => Virtual.define y (.constant v)) k (d + 1) done done s) := by
  obtain ⟨a, ha, hadv, hinv₁⟩ := setPlace_constant hinv hy hsize v
  exact Ensures.of_ok ha (Emitted.silent hlab hadv hinv₁ fun _ _ => rfl)

theorem loadObject_ensures (disp : Int32) :
    Ensures (Overflow k) (loadObject y disp) s
      (Emitted (fun env => Virtual.loadObject env y disp) k (d + 1) done done s) := by
  have hlen₀ := length_initiallyTaken done
  refine Ensures.bind ((defineAt_ensures hinv (by omega) hy hsize (fun r => rfl) (fun r => rfl)
    fun r t ht => by cases ht; rfl).mono (fun _ _ h => h) ?_)
  rintro r _ ⟨c, a, rfl, hdef, hinv₁⟩
  refine Ensures.of_ok (code_eq _ _) ?_
  rw [Codegen.alloc_write, Codegen.write_write, ← List.nil_append (c ++ _)]
  refine Emitted.unguarded hlab (Advance.refl done s.alloc) ?_
    (hdef.straight.append (straight_cons rfl straight_nil)) hinv (by omega) hdef.continues ?_ ?_
  · have := hdef.length
    simp
    omega
  · intro env σ m hroom hmax hrun
    obtain ⟨m', hx, hset⟩ := hdef.runs hroom hmax hrun
    have hrefl := Machine.AgreeExcept.refl [r] m'
    rw [exec_append_of_fall hx]
    refine Simulates.load (by decide) (hset hrefl).stub (hset hrefl).realizes.mem fun v => ?_
    have hrun' := hset (hrefl.setReg (List.mem_singleton_self r) v)
    rw [Machine.reg_setReg, if_pos rfl] at hrun'
    exact Simulates.fall hrun'
  · refine hinv₁.next (by simp; omega) fun q hq => ?_
    obtain rfl | hq := List.mem_cons.mp hq
    · exact .inl (.inr ⟨y.index, by rw [hdef.place]; rfl⟩)
    · exact .inr hq

variable (hx : x.index < d) (hdead : s.alloc.isDead x.index = false)
include hx hdead

theorem loadProto_ensures :
    Ensures (Overflow k) (loadProto x y) s
      (Emitted (fun env => Virtual.loadProto env x y) k (d + 1) done done s) := by
  have hlen₀ := length_initiallyTaken done
  have hxy : x.index ≠ y.index := by omega
  refine Ensures.bind ((usePayload_ensures hinv (by omega) hx hdead rfl).mono (fun _ _ h => h) ?_)
  rintro o _ ⟨c₁, a₁, rfl, huse, hinv₁⟩
  refine Ensures.bind ((defineAt_ensures hinv₁ (by simp; omega) hy
    (by rw [Codegen.alloc_write, huse.advance.continues.size]; exact hsize) (fun r => rfl)
    (fun r => rfl) fun r t ht => by cases ht; rfl).mono (fun _ _ h => h) ?_)
  rintro r _ ⟨c₂, a₂, rfl, hdef, hinv₂⟩
  refine Ensures.of_ok (code_eq _ _) ?_
  rw [Codegen.alloc_write, Codegen.write_write, Codegen.write_write]
  have hplace : a₂.place x.index = .payloadReg o .object :=
    (hdef.pinned hxy (huse.isPinned hdead rfl)).trans huse.place
  have ho := hinv₂.register?_ne (show (a₂.place x.index).register? = some o by rw [hplace]; rfl)
  have hr := hinv₂.register?_ne (show (a₂.place y.index).register? = some r by rw [hdef.place]; rfl)
  refine Emitted.unguarded hlab huse.advance ?_
    (hdef.straight.append (straight_cons rfl (straight_cons rfl straight_nil))) hinv₁
    (by simp; omega) hdef.continues ?_ ?_
  · have h₁ := huse.length
    have h₂ := hdef.length
    simp
    omega
  · intro env σ m hroom hmax hrun
    obtain ⟨m', hx, hset⟩ := hdef.runs hroom hmax hrun
    have hrefl := Machine.AgreeExcept.refl [r] m'
    have hrun' := hset hrefl
    have hw := hrun'.contents hplace rfl
    rw [VirtualState.contents_set_of_ne _ _ hxy, VirtualState.contents_set_self] at hw
    rw [exec_append_of_fall hx]
    refine Simulates.load ho.1 (Content.payload.inj hw).2.symm hrun'.realizes.mem fun group => ?_
    refine Simulates.load (m := m'.setReg r group) hr.1 (by rw [Machine.reg_setReg, if_pos rfl])
      hrun'.realizes.mem fun proto => ?_
    have hr' := List.mem_singleton_self r
    have hrun'' := hset ((hrefl.setReg hr' group).setReg hr' proto)
    rw [Machine.reg_setReg, if_pos rfl] at hrun''
    exact Simulates.fall hrun''
  · refine hinv₂.next (by simp; omega) fun q hq => ?_
    obtain rfl | rfl | hq := List.mem_cons.mp hq |>.imp_right List.mem_cons.mp
    · exact .inl (.inr ⟨y.index, by rw [hdef.place]; rfl⟩)
    · exact .inl (.inr ⟨x.index, by rw [hplace]; rfl⟩)
    · exact .inr hq

theorem loadSlot_ensures (disp : Int32) (dynamic : Bool) :
    Ensures (Overflow k) (loadSlot x y disp dynamic) s
      (Emitted (fun env => Virtual.loadSlot env x y disp dynamic) k (d + 1) done done s) := by
  have hlen₀ := length_initiallyTaken done
  have hxy : x.index ≠ y.index := by omega
  refine Ensures.bind ((usePayload_ensures hinv (by omega) hx hdead rfl).mono (fun _ _ h => h) ?_)
  rintro o _ ⟨c₁, a₁, rfl, huse, hinv₁⟩
  refine Ensures.bind ((allocate_ensures hinv₁ (by simp; omega)).mono (fun _ _ h => h) ?_)
  rintro q _ ⟨c₂, a₂, rfl, halloc, hinv₂⟩
  have hcont₂ := huse.advance.continues.trans halloc.advance.continues
  refine Ensures.bind ((defineAt_ensures hinv₂ (by simp; omega) hy
    (by rw [Codegen.alloc_write, hcont₂.size]; exact hsize) (fun r => rfl)
    (fun r => rfl) fun r t ht => by cases ht).mono (fun _ _ h => h) ?_)
  rintro r _ ⟨c₃, a₃, rfl, hdef, hinv₃⟩
  obtain ⟨hclaimed, hqr⟩ := hdef.others halloc.claimed
  refine Ensures.bind_ok (readSlot_eq _ _ _ _ _) (Ensures.of_ok (release_write _ hclaimed) ?_)
  simp only [Codegen.alloc_write, Codegen.write_write, List.append_assoc]
  rw [← List.append_assoc]
  have hpin := huse.isPinned hdead rfl
  have hplace : a₃.place x.index = .payloadReg o .object :=
    (hdef.pinned hxy (halloc.isPinned hpin)).trans ((halloc.pinned hpin).trans huse.place)
  have ho := hinv₃.register?_ne (show (a₃.place x.index).register? = some o by rw [hplace]; rfl)
  have hall : a₃.allocatable.contains q = true := hdef.continues.allocatable ▸ halloc.allocatable
  have hq := hinv₃.spare hclaimed hall fun hd => (halloc.others (hinv₁.result hd)).2.symm
  refine Emitted.unguarded hlab (huse.advance.trans halloc.advance) ?_
    (hdef.straight.append (Snippet.straight_readSlot _ _ _ _ _)) hinv₂
    (by simp; omega) (hdef.continues.trans Allocator.continues_free) ?_ ?_
  · have h₁ := huse.length
    have h₂ := halloc.length
    have h₃ := hdef.length
    have h₄ := Snippet.length_readSlot r o q disp dynamic
    simp only [List.length_append]
    omega
  · intro env σ m hroom hmax hrun
    obtain ⟨m', hx, hset⟩ := hdef.runs hroom hmax hrun
    have hrun' := hset (Machine.AgreeExcept.refl [r] m')
    have hw := hrun'.contents hplace rfl
    rw [VirtualState.contents_set_of_ne _ _ hxy, VirtualState.contents_set_self] at hw
    rw [exec_append_of_fall hx]
    refine Simulates.readSlot (s := σ.set x (.payload .object ((σ.contents x.index).payloadAs .object)))
      (k := fun w => Virtual.define y (.boxed w)) disp dynamic
      (Content.payload.inj hw).2.symm hrun'.stub hrun'.realizes.mem ho.1 hq.ne_rsp
      (fun h => hq.notHeld x.index (by rw [hplace, ← h]; rfl)) hqr.symm fun {v m''} ha hv => ?_
    have hload := hset ((Machine.AgreeExcept.refl [r] m').setReg (List.mem_singleton_self r) v)
    rw [Machine.reg_setReg, if_pos rfl] at hload
    rw [← hv] at hload ⊢
    exact Simulates.fall ((hload.overwrite ha.tail (by simpa using hq)).free q)
  · refine (hinv₃.free hclaimed hall hq.ne_output).next (by simp; omega) fun p hp => ?_
    simp only [List.mem_cons] at hp
    obtain rfl | rfl | rfl | hp := hp
    · exact .inl (.inr ⟨y.index, show (a₃.place y.index).register? = _ by rw [hdef.place]; rfl⟩)
    · exact .inl (.inl (by simp [Allocator.free]))
    · exact .inl (.inr ⟨x.index, show (a₃.place x.index).register? = _ by rw [hplace]; rfl⟩)
    · exact .inr hp

end Gen
end InlineCache
