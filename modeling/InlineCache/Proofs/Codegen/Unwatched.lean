import InlineCache.Proofs.Codegen.Correct

/-!
# Runs that leave the stack alone

How much of the stack a stub uses depends on the engine and on the options. It matters only to
runs that read that part of the stack: any other run comes to the same on an environment where
nothing is watched (`exit_of_ne_wild`). There no read is wild, and what a stub does is a function
of memory and inputs alone.
-/

namespace InlineCache

open X64

/-- The same memory and the same stub, and no part of the stack is watched. -/
def Env.unwatched (env : Env) : Env :=
  { env with room := 0 }

theorem Env.area_unwatched (env : Env) (a : UInt64) : env.unwatched.area a = false := by
  simp [area, unwatched, Memory.below]

theorem Env.avoids_unwatched (env : Env) (s : Span) : s.avoids env.unwatched.area = true :=
  Span.avoids_iff.mpr fun _ _ => env.area_unwatched _

theorem Env.linked_unwatched (env : Env) : env.unwatched.linked = true := by
  rw [linked, avoids_unwatched, avoids_unwatched]
  rfl

namespace Virtual

/-- The first is wild, or the two do the same. -/
def UnlessWild {α : Type} (x y : Virtual α) : Prop :=
  ∀ s, (∃ s', x s = .error .wild s') ∨ x s = y s

namespace UnlessWild

theorem refl {α : Type} (x : Virtual α) : UnlessWild x x :=
  fun _ => .inr rfl

theorem bind {α β : Type} {x y : Virtual α} {f g : α → Virtual β} (h : UnlessWild x y)
    (hfg : ∀ a, UnlessWild (f a) (g a)) : UnlessWild (x >>= f) (y >>= g) := by
  intro s
  obtain ⟨s', hx⟩ | hxy := h s
  · exact .inl ⟨s', bind_of_error hx⟩
  · cases hy : y s with
    | ok a s' =>
        rw [bind_of_ok hy, bind_of_ok (hxy.trans hy)]
        exact hfg a s'
    | error why s' =>
        rw [bind_of_error hy, bind_of_error (hxy.trans hy)]
        exact .inr rfl

/-- The same step first on both sides. -/
theorem after {α β : Type} (x : Virtual α) {f g : α → Virtual β}
    (h : ∀ a, UnlessWild (f a) (g a)) : UnlessWild (x >>= f) (x >>= g) :=
  (refl x).bind h

end UnlessWild

/-! ## Memory -/

section
variable (env : Env)

theorem read64_unlessWild (a : UInt64) : UnlessWild (read64 env a) (read64 env.unwatched a) := by
  intro s
  by_cases ha : (Span.mk a 8).avoids env.area = true
  · rw [read64_of_avoids ha, read64_of_avoids (env.avoids_unwatched _)]
    exact .inr rfl
  · exact .inl ⟨s, read64_of_not_avoids ha s⟩

theorem read32_unlessWild (a : UInt64) : UnlessWild (read32 env a) (read32 env.unwatched a) := by
  intro s
  rw [read32, read32, if_pos (env.avoids_unwatched _)]
  split
  · exact .inr rfl
  · exact .inl ⟨s, rfl⟩

theorem pointer_unlessWild (a : UInt64) (disp : Int32) :
    UnlessWild (pointer env a disp) (pointer env.unwatched a disp) :=
  read64_unlessWild env _

theorem number_unlessWild (a : UInt64) (disp : Int32) :
    UnlessWild (number env a disp) (number env.unwatched a disp) :=
  read32_unlessWild env _

theorem field_unlessWild (disp : Int32) :
    UnlessWild (field env disp) (field env.unwatched disp) :=
  pointer_unlessWild env _ _

/-! ## Instructions -/

theorem requireClass_unlessWild [ClassTable] (object : UInt64) (c : ClassKind) :
    UnlessWild (requireClass env object c) (requireClass env.unwatched object c) :=
  (pointer_unlessWild env _ _).bind fun _ => (pointer_unlessWild env _ _).bind fun _ => .refl _

theorem guardArray_unlessWild [ClassTable] (x : OperandId) :
    UnlessWild (guardArray env x) (guardArray env.unwatched x) := by
  refine .after _ fun c => ?_
  split
  · exact .after _ fun _ => requireClass_unlessWild env _ _
  · exact .refl _
  · exact .after _ fun _ => .after _ fun _ => requireClass_unlessWild env _ _

theorem guardHeader_unlessWild (x : OperandId) (header disp : Int32) :
    UnlessWild (guardHeader env x header disp) (guardHeader env.unwatched x header disp) :=
  .after _ fun _ => (field_unlessWild env _).bind fun _ =>
    (pointer_unlessWild env _ _).bind fun _ => .refl _

theorem guardSpecific_unlessWild (x : OperandId) (t : ValueType) (disp : Int32) :
    UnlessWild (guardSpecific env x t disp) (guardSpecific env.unwatched x t disp) :=
  .after _ fun _ => (field_unlessWild env _).bind fun _ => .refl _

theorem loadProto_unlessWild (x y : OperandId) :
    UnlessWild (loadProto env x y) (loadProto env.unwatched x y) :=
  .after _ fun _ => (pointer_unlessWild env _ _).bind fun _ =>
    (pointer_unlessWild env _ _).bind fun _ => .refl _

theorem slot_unlessWild (x : OperandId) (disp : Int32) (dynamic : Bool) :
    UnlessWild (slot env x disp dynamic) (slot env.unwatched x disp dynamic) := by
  refine .after _ fun _ => (field_unlessWild env _).bind fun _ => ?_
  cases dynamic with
  | true => exact (pointer_unlessWild env _ _).bind fun _ => read64_unlessWild env _
  | false => exact read64_unlessWild env _

theorem arrayLengthResult_unlessWild (x : OperandId) :
    UnlessWild (arrayLengthResult env x) (arrayLengthResult env.unwatched x) :=
  .after _ fun _ => (pointer_unlessWild env _ _).bind fun _ =>
    (number_unlessWild env _ _).bind fun _ => .refl _

theorem instruction_unlessWild [ClassTable] (disp : Nat → Int32) (op : Op) (args : Args op.schema) :
    UnlessWild (instruction env disp op args) (instruction env.unwatched disp op args) := by
  cases op with
  | guardIsArray => exact guardArray_unlessWild env _
  | guardShape => exact guardHeader_unlessWild env _ _ _
  | guardGroup => exact guardHeader_unlessWild env _ _ _
  | guardClass => exact .after _ fun _ => requireClass_unlessWild env _ _
  | guardSpecificObject => exact guardSpecific_unlessWild env _ _ _
  | guardSpecificAtom => exact guardSpecific_unlessWild env _ _ _
  | guardSpecificSymbol => exact guardSpecific_unlessWild env _ _ _
  | guardSpecificId => exact guardSpecific_unlessWild env _ _ _
  | loadObject => exact (field_unlessWild env _).bind fun _ => .refl _
  | loadProto => exact loadProto_unlessWild env _ _
  | loadFixedSlot => exact (slot_unlessWild env _ _ _).bind fun _ => .refl _
  | loadDynamicSlot => exact (slot_unlessWild env _ _ _).bind fun _ => .refl _
  | loadFixedSlotResult => exact (slot_unlessWild env _ _ _).bind fun _ => .refl _
  | loadDynamicSlotResult => exact (slot_unlessWild env _ _ _).bind fun _ => .refl _
  | loadInt32ArrayLengthResult => exact arrayLengthResult_unlessWild env _
  | loadStringLengthResult =>
      exact .after _ fun _ => (number_unlessWild env _ _).bind fun _ => .refl _
  | loadValueResult => exact (field_unlessWild env _).bind fun _ => .refl _
  | loadDoubleResult => exact (field_unlessWild env _).bind fun _ => .refl _
  | _ => exact .refl _

theorem instructions_unlessWild [ClassTable] (disp : Nat → Int32) (is : List Instruction) :
    UnlessWild (instructions env disp is) (instructions env.unwatched disp is) := by
  induction is with
  | nil => exact .refl _
  | cons i is ih => exact (instruction_unlessWild env disp i.op i.args).bind fun _ => ih

end

/-- A stub whose run is not wild ends as it does where nothing is watched. -/
theorem exit_of_ne_wild [ClassTable] {env : Env} {disp : Nat → Int32} {is : List Instruction}
    {s : VirtualState} (h : exit env (instructions env disp is s) ≠ .wild) :
    exit env (instructions env disp is s) =
      exit env.unwatched (instructions env.unwatched disp is s) := by
  obtain ⟨s', hwild⟩ | heq := instructions_unlessWild env disp is s
  · rw [hwild] at h
    exact absurd rfl h
  · rw [heq] at h ⊢
    cases hv : instructions env.unwatched disp is s with
    | ok u s' => rfl
    | error why s' =>
        rw [hv] at h
        cases why with
        | wild => rfl
        | failed =>
            rw [exit_failed] at h ⊢
            have hlinked : env.linked = true := by
              by_contra hn
              rw [if_neg hn] at h
              exact h rfl
            rw [if_pos hlinked, exit_failed, if_pos env.linked_unwatched]
            rfl

end Virtual
end InlineCache
