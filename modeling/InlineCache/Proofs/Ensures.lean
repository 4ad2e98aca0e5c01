/-!
# What a computation ensures

Code generation, compilation, building and attaching are computations with a state that can fail.
`Ensures E x s Q` says what comes of one of them started from `s`: if it returns, what it returned
and the state it left satisfy `Q`, and if it fails, the error and the state it left satisfy `E`. A
sequence of steps is taken apart one step at a time, so that no proof has to unfold the state.
-/

namespace InlineCache

/-! ## Sequences -/

section
variable {ε σ α β : Type} {x : EStateM ε σ α} {f : α → EStateM ε σ β} {s s' : σ}

theorem bind_of_ok {a : α} (h : x s = .ok a s') : (x >>= f) s = f a s' := by
  show EStateM.bind x f s = _
  unfold EStateM.bind
  rw [h]

theorem bind_of_error {e : ε} (h : x s = .error e s') : (x >>= f) s = .error e s' := by
  show EStateM.bind x f s = _
  unfold EStateM.bind
  rw [h]

theorem get_bind (f : σ → EStateM ε σ β) (s : σ) : (get >>= f) s = f s s := rfl

theorem exists_of_bind_ok {b : β} {t : σ} (h : (x >>= f) s = .ok b t) :
    ∃ a s', x s = .ok a s' ∧ f a s' = .ok b t := by
  change EStateM.bind x f s = _ at h
  unfold EStateM.bind at h
  cases hx : x s with
  | ok a s' =>
      rw [hx] at h
      exact ⟨a, s', rfl, h⟩
  | error e s' =>
      rw [hx] at h
      cases h

end

/-! ## What comes of a computation -/

/-- Started from `s`, the computation `x` returns as `Q` says or fails as `E` says. -/
def Ensures {ε σ α : Type} (E : ε → σ → Prop) (x : EStateM ε σ α) (s : σ)
    (Q : α → σ → Prop) : Prop :=
  match x s with
  | .ok a s' => Q a s'
  | .error e s' => E e s'

namespace Ensures

variable {ε σ α β : Type} {E : ε → σ → Prop} {s : σ}

theorem of_ok {x : EStateM ε σ α} {Q : α → σ → Prop} {a : α} {t : σ}
    (h : x s = .ok a t) (hq : Q a t) : Ensures E x s Q := by
  unfold Ensures
  rw [h]
  exact hq

theorem of_error {x : EStateM ε σ α} {Q : α → σ → Prop} {e : ε} {s' : σ}
    (h : x s = .error e s') (he : E e s') : Ensures E x s Q := by
  unfold Ensures
  rw [h]
  exact he

theorem of_eq_ok {x : EStateM ε σ α} {Q : α → σ → Prop} {a : α} {s' : σ}
    (h : Ensures E x s Q) (hx : x s = .ok a s') : Q a s' := by
  unfold Ensures at h
  rw [hx] at h
  exact h

theorem of_eq_error {x : EStateM ε σ α} {Q : α → σ → Prop} {e : ε} {s' : σ}
    (h : Ensures E x s Q) (hx : x s = .error e s') : E e s' := by
  unfold Ensures at h
  rw [hx] at h
  exact h

theorem congr {x y : EStateM ε σ α} {Q : α → σ → Prop} (hxy : x s = y s)
    (h : Ensures E y s Q) : Ensures E x s Q := by
  unfold Ensures at h ⊢
  rw [hxy]
  exact h

theorem mono {E' : ε → σ → Prop} {x : EStateM ε σ α} {Q Q' : α → σ → Prop}
    (h : Ensures E x s Q) (he : ∀ e s', E e s' → E' e s') (hq : ∀ a s', Q a s' → Q' a s') :
    Ensures E' x s Q' := by
  unfold Ensures at h ⊢
  cases hx : x s with
  | ok a s' =>
      rw [hx] at h
      exact hq a s' h
  | error e s' =>
      rw [hx] at h
      exact he e s' h

theorem pure {Q : α → σ → Prop} {a : α} (h : Q a s) :
    Ensures E (Pure.pure a : EStateM ε σ α) s Q := h

theorem bind {x : EStateM ε σ α} {f : α → EStateM ε σ β} {Q : β → σ → Prop}
    (h : Ensures E x s fun a s' => Ensures E (f a) s' Q) : Ensures E (x >>= f) s Q := by
  unfold Ensures at h ⊢
  show (match EStateM.bind x f s with | .ok a s' => Q a s' | .error e s' => E e s')
  unfold EStateM.bind
  cases hx : x s with
  | ok a s' =>
      rw [hx] at h
      exact h
  | error e s' =>
      rw [hx] at h
      exact h

/-- A step that returns hands over to the steps after it. -/
theorem bind_ok {x : EStateM ε σ α} {f : α → EStateM ε σ β} {Q : β → σ → Prop} {a : α} {t : σ}
    (hx : x s = .ok a t) (h : Ensures E (f a) t Q) : Ensures E (x >>= f) s Q :=
  bind (of_ok hx h)

end Ensures
end InlineCache
