import InlineCache.Proofs.X64.Exec

/-!
# From labels to bytes

Code is written as a list of items, with labels for the targets of branches, and runs as bytes.
`Runs` says how a list of items runs, without offsets and displacements: a branch goes on behind
the place where its label is bound. Stubs branch forward only, so the place is always in the part
of the list that is still ahead, and a run needs no other part of it. `watch` runs bytes as the
machine does and stops where an instruction dereferences an address in the watched area.

The two agree on an assembly that can be laid out (`watch_of_runs`). Three facts carry the proof:
the bytes of an item start where the items before it end, an instruction does the same whatever its
target is called, and a label that is bound once is bound where it is bound first.
-/

namespace InlineCache.X64

/-! ## Runs of items -/

/-- What follows the first place where a label is bound. -/
def Item.after? (l : Label) : List Item → Option (List Item)
  | [] => none
  | .bind l' :: is => if l' = l then some is else after? l is
  | .instr _ :: is => after? l is

/-- How a list of items runs to its end, with branches to labels that are bound further on. -/
inductive Runs (area : UInt64 → Bool) : List Item → Machine → Exit → Prop where
  | bind {l : Label} {is : List Item} {m : Machine} {e : Exit} :
      Runs area is m e → Runs area (.bind l :: is) m e
  | wild {i : Instr Label} {is : List Item} {m : Machine} :
      i.avoids area m = false → Runs area (.instr i :: is) m .wild
  | next {i : Instr Label} {is : List Item} {m m' : Machine} {e : Exit} :
      i.avoids area m = true → i.exec m = some (m', .next) → Runs area is m' e →
      Runs area (.instr i :: is) m e
  | branch {i : Instr Label} {is is' : List Item} {m m' : Machine} {l : Label} {e : Exit} :
      i.avoids area m = true → i.exec m = some (m', .branch l) → Item.after? l is = some is' →
      Runs area is' m' e → Runs area (.instr i :: is) m e
  | ret {i : Instr Label} {is : List Item} {m m' : Machine} :
      i.avoids area m = true → i.exec m = some (m', .ret) →
      Runs area (.instr i :: is) m (.returned m')
  | leave {i : Instr Label} {is : List Item} {m m' : Machine} {target : UInt64} :
      i.avoids area m = true → i.exec m = some (m', .leave target) →
      Runs area (.instr i :: is) m (.left target m')

section
variable {area : UInt64 → Bool} {m m' : Machine} {c : List (Instr Label)} {is : List Item}
  {e : Exit}

theorem Item.after?_map_instr (l : Label) :
    Item.after? l (c.map Item.instr ++ is) = Item.after? l is := by
  induction c with
  | nil => rfl
  | cons i c ih => exact ih

/-- A piece of code that jumps goes on behind the place where the label is bound. -/
theorem Runs.of_jump {l : Label} {is' : List Item} (hc : exec area c m = .jump l m')
    (hl : Item.after? l is = some is') (h : Runs area is' m' e) :
    Runs area (c.map Item.instr ++ is) m e := by
  induction c generalizing m with
  | nil => cases hc
  | cons i c ih =>
      rw [exec] at hc
      split at hc
      · next ha =>
          split at hc
          · cases hc
          · next hx => exact .next ha hx (ih hc)
          · next hx =>
              cases hc
              exact .branch ha hx ((Item.after?_map_instr l).trans hl) h
          all_goals cases hc
      · cases hc

/-- A piece of code that ends otherwise ends the run. -/
theorem Runs.of_end (hc : exec area c m = e)
    (he : e = .wild ∨ (∃ m', e = .returned m') ∨ ∃ target m', e = .left target m') :
    Runs area (c.map Item.instr ++ is) m e := by
  induction c generalizing m with
  | nil =>
      subst hc
      obtain h | ⟨_, h⟩ | ⟨_, _, h⟩ := he <;> cases h
  | cons i c ih =>
      rw [exec] at hc
      split at hc
      · next ha =>
          split at hc
          · subst hc
            obtain h | ⟨_, h⟩ | ⟨_, _, h⟩ := he <;> cases h
          · next hx => exact .next ha hx (ih hc)
          · subst hc
            obtain h | ⟨_, h⟩ | ⟨_, _, h⟩ := he <;> cases h
          · next hx =>
              subst hc
              exact .ret ha hx
          · next hx =>
              subst hc
              exact .leave ha hx
      · next ha =>
          subst hc
          exact .wild (by simpa using ha)

end

/-! ## Runs of bytes -/

/-- Runs code from an offset as the machine does, and stops at an instruction that dereferences an
address in the area. -/
def watchFrom (area : UInt64 → Bool) (fetch : Nat → Option (Instr Int32 × Nat)) :
    (limit : Nat) → (pc : Nat) → Machine → Exit
  | 0, _, _ => .stuck
  | limit + 1, pc, m =>
    match fetch pc with
    | none => .stuck
    | some (i, next) =>
      if i.avoids area m then
        match i.exec m with
        | none => .stuck
        | some (m, .next) => watchFrom area fetch limit next m
        | some (m, .branch disp) =>
          let target := (next : Int) + disp.toInt
          if target < 0 then .stuck else watchFrom area fetch limit target.toNat m
        | some (m, .ret) => .returned m
        | some (m, .leave target) => .left target m
      else .wild

/-- Runs code from its start, and watches an area. -/
def watch (area : UInt64 → Bool) (bytes : List UInt8) (m : Machine) : Exit :=
  watchFrom area (fetch? bytes) bytes.length 0 m

/-- How a run ended, with nothing seen. -/
def Outcome.exit : Outcome → Exit
  | .returned m => .returned m
  | .left target m => .left target m
  | .stuck _ => .stuck

theorem Outcome.eq_returned {o : Outcome} {m : Machine} (h : o.exit = .returned m) :
    o = .returned m := by
  cases o <;> cases h
  rfl

theorem Outcome.eq_left {o : Outcome} {target : UInt64} {m : Machine}
    (h : o.exit = .left target m) : o = .left target m := by
  cases o <;> cases h
  rfl

section
variable {area : UInt64 → Bool}

/-- Watching changes nothing as long as nothing is seen. -/
theorem watchFrom_eq {fetch : Nat → Option (Instr Int32 × Nat)} {limit pc : Nat} {m : Machine} :
    watchFrom area fetch limit pc m = .wild ∨
      watchFrom area fetch limit pc m = (runFrom fetch limit pc m).exit := by
  induction limit generalizing pc m with
  | zero => exact .inr rfl
  | succ limit ih =>
      rw [watchFrom, runFrom]
      cases fetch pc with
      | none => exact .inr rfl
      | some at_ =>
          obtain ⟨i, next⟩ := at_
          by_cases ha : i.avoids area m = true
          · simp only [if_pos ha]
            cases i.exec m with
            | none => exact .inr rfl
            | some after =>
                obtain ⟨m', flow⟩ := after
                cases flow with
                | next => exact ih
                | branch disp =>
                    dsimp only
                    split
                    · exact .inr rfl
                    · exact ih
                | ret => exact .inr rfl
                | leave target => exact .inr rfl
          · exact .inl (if_neg ha)

theorem watch_eq {bytes : List UInt8} {m : Machine} :
    watch area bytes m = .wild ∨ watch area bytes m = (run bytes m).exit :=
  watchFrom_eq

end

/-! ## Layout -/

namespace Item

theorem map_instr_inj {c c' : List (Instr Label)} (h : c.map Item.instr = c'.map Item.instr) :
    c = c' :=
  (List.map_inj_right fun _ _ he => Item.instr.inj he).mp h

theorem totalSize_append (is js : List Item) :
    totalSize (is ++ js) = totalSize is + totalSize js := by
  induction is with
  | nil => simp [totalSize]
  | cons i is ih =>
      simp only [List.cons_append, totalSize, ih]
      omega

theorem bindings_append (start : Nat) (is js : List Item) :
    bindings start (is ++ js) = bindings start is ++ bindings (start + totalSize is) js := by
  induction is generalizing start with
  | nil => simp [bindings, totalSize]
  | cons i is ih =>
      cases i with
      | bind l => simp [bindings, totalSize, size, ih]
      | instr i => simp [bindings, totalSize, size, ih, Nat.add_assoc]

theorem bindings_map_instr (start : Nat) (c : List (Instr Label)) :
    bindings start (c.map Item.instr) = [] := by
  induction c generalizing start with
  | nil => rfl
  | cons i c ih => exact ih _

theorem totalSize_map_instr_le (c : List (Instr Label)) :
    totalSize (c.map Item.instr) ≤ 10 * c.length := by
  induction c with
  | nil => exact Nat.le_refl 0
  | cons i c ih =>
      have hi : i.size ≤ 10 := by cases i <;> simp [Instr.size]
      rw [List.map_cons, totalSize, size, List.length_cons]
      omega

theorem resolve?_append {places : List (Label × Nat)} {start : Nat} {is js : List Item}
    {out : List (Instr Int32)} (h : resolve? places start (is ++ js) = some out) :
    ∃ is' js', resolve? places start is = some is' ∧
      resolve? places (start + totalSize is) js = some js' ∧ out = is' ++ js' := by
  induction is generalizing start out with
  | nil => exact ⟨[], out, rfl, by simpa [totalSize] using h, rfl⟩
  | cons i is ih =>
      cases i with
      | bind l =>
          simp only [List.cons_append, resolve?] at h
          simpa [resolve?, totalSize, size] using ih h
      | instr i =>
          simp only [List.cons_append, resolve?, Option.bind_eq_bind, Option.bind_eq_some_iff,
            Option.pure_def, Option.some.injEq] at h
          obtain ⟨j, hj, rest, hrest, rfl⟩ := h
          obtain ⟨is', js', his, hjs, rfl⟩ := ih hrest
          refine ⟨j :: is', js', ?_, ?_, rfl⟩
          · simp only [resolve?, hj, his, Option.bind_eq_bind, Option.bind_some, Option.pure_def]
          · simpa [totalSize, size, Nat.add_assoc] using hjs

theorem length_encode_resolve? {places : List (Label × Nat)} {start : Nat} {is : List Item}
    {out : List (Instr Int32)} (h : resolve? places start is = some out) :
    (out.flatMap Instr.encode).length = totalSize is := by
  induction is generalizing start out with
  | nil =>
      cases h
      rfl
  | cons i is ih =>
      cases i with
      | bind l =>
          simp only [resolve?] at h
          rw [ih h, totalSize, size, Nat.zero_add]
      | instr i =>
          simp only [resolve?, Option.bind_eq_bind, Option.bind_eq_some_iff,
            Option.pure_def, Option.some.injEq] at h
          obtain ⟨j, hj, rest, hrest, rfl⟩ := h
          rw [List.flatMap_cons, List.length_append, ih hrest, Instr.length_encode,
            Instr.size_retarget? hj, totalSize, size]

theorem eq_append_of_after? {l : Label} {is is' : List Item} (h : after? l is = some is') :
    ∃ mid, is = mid ++ .bind l :: is' := by
  induction is with
  | nil => cases h
  | cons i is ih =>
      cases i with
      | bind l' =>
          rw [after?] at h
          split at h
          · next hl =>
              cases h
              exact ⟨[], by rw [hl]; rfl⟩
          · obtain ⟨mid, rfl⟩ := ih h
            exact ⟨_ :: mid, rfl⟩
      | instr i =>
          obtain ⟨mid, rfl⟩ := ih h
          exact ⟨_ :: mid, rfl⟩

/-- A label that is bound once is bound where it is bound first. -/
theorem lookup_bindings {l : Label} {is js : List Item}
    (h : ((bindings 0 (is ++ .bind l :: js)).map Prod.fst).Nodup) :
    (bindings 0 (is ++ .bind l :: js)).lookup l = some (totalSize is) := by
  rw [bindings_append, bindings, Nat.zero_add] at h ⊢
  rw [List.map_append, List.map_cons] at h
  have hl : l ∉ (bindings 0 is).map Prod.fst := fun hmem =>
    (List.nodup_append.mp h).2.2 l hmem l (List.mem_cons_self ..) rfl
  have hnone : (bindings 0 is).lookup l = none := by
    rw [List.lookup_eq_none_iff]
    intro p hp
    simp only [bne_iff_ne, ne_eq]
    intro heq
    exact hl (List.mem_map.mpr ⟨p, hp, heq.symm⟩)
  rw [List.lookup_append, hnone, Option.none_or, List.lookup_cons_self]

theorem toInt_displacement? {distance : Int} {d : Int32} (h : displacement? distance = some d) :
    d.toInt = distance := by
  rw [displacement?] at h
  split at h
  · next hr =>
      cases h
      exact Int32.toInt_ofInt_of_le (by simpa using hr.1) (by simpa using hr.2)
  · cases h

end Item

/-! ## Targets -/

/-- The same flow with its target replaced. -/
def Flow.retarget? {τ σ : Type} (f : τ → Option σ) : Flow τ → Option (Flow σ)
  | .next => some .next
  | .branch t => (f t).map .branch
  | .ret => some .ret
  | .leave target => some (.leave target)

section
variable {τ σ : Type} {f : τ → Option σ} {i : Instr τ} {j : Instr σ}

theorem Instr.avoids_retarget? (h : i.retarget? f = some j) (area : UInt64 → Bool) (m : Machine) :
    j.avoids area m = i.avoids area m := by
  cases i with
  | jmp t =>
      obtain ⟨_, _, rfl⟩ := Option.map_eq_some_iff.mp h
      rfl
  | jcc c t =>
      obtain ⟨_, _, rfl⟩ := Option.map_eq_some_iff.mp h
      rfl
  | _ =>
      cases h
      rfl

/-- An instruction does the same whatever its target is called. -/
theorem Instr.exec_retarget? (h : i.retarget? f = some j) {m m' : Machine} {flow : Flow τ}
    (hx : i.exec m = some (m', flow)) :
    ∃ flow', flow.retarget? f = some flow' ∧ j.exec m = some (m', flow') := by
  cases i with
  | jmp t =>
      obtain ⟨u, hu, rfl⟩ := Option.map_eq_some_iff.mp h
      cases hx
      exact ⟨.branch u, by rw [Flow.retarget?, hu]; rfl, rfl⟩
  | jcc c t =>
      obtain ⟨u, hu, rfl⟩ := Option.map_eq_some_iff.mp h
      obtain ⟨fl, hfl, heq⟩ := Option.map_eq_some_iff.mp hx
      cases heq
      refine ⟨if fl.meets c then .branch u else .next, ?_, by rw [Instr.exec, hfl]; rfl⟩
      split
      · rw [Flow.retarget?, hu]
        rfl
      · rfl
  | _ =>
      cases h
      cases hx
      exact ⟨_, rfl, rfl⟩

end

/-! ## The two agree -/

section
variable {area : UInt64 → Bool} {items : List Item} {out : List (Instr Int32)}

/-- The displacement of a branch that ends at `next`. -/
def Item.target (places : List (Label × Nat)) (next : Nat) (l : Label) : Option Int32 :=
  (places.lookup l).bind fun place => displacement? (place - next)

theorem fetch?_layOut {places : List (Label × Nat)} {before after : List Item} {i : Instr Label}
    (h : Item.resolve? places 0 (before ++ .instr i :: after) = some out) :
    ∃ j, i.retarget? (Item.target places (Item.totalSize before + i.size)) = some j ∧
      fetch? (out.flatMap Instr.encode) (Item.totalSize before) =
        some (j, Item.totalSize before + i.size) := by
  obtain ⟨front, back, hfront, hback, rfl⟩ := Item.resolve?_append h
  simp only [Item.resolve?, Option.bind_eq_bind, Option.bind_eq_some_iff, Option.pure_def,
    Option.some.injEq, Nat.zero_add] at hback
  obtain ⟨j, hj, rest, hrest, rfl⟩ := hback
  refine ⟨j, hj, ?_⟩
  have hlen := Item.length_encode_resolve? hfront
  rw [List.flatMap_append, List.flatMap_cons, ← hlen, fetch?, List.drop_left,
    Instr.decode?_encode_append, Option.map_some]
  simp only [List.length_append, Instr.length_encode, Instr.size_retarget? hj]
  congr 2
  omega

/-- Where the item behind an instruction starts. -/
theorem Item.totalSize_append_instr (before : List Item) (i : Instr Label) :
    totalSize (before ++ [.instr i]) = totalSize before + i.size := by
  simp [totalSize_append, totalSize, size]

theorem watchFrom_of_runs {m : Machine} {e : Exit}
    (hnodup : ((Item.bindings 0 items).map Prod.fst).Nodup)
    (hout : Item.resolve? (Item.bindings 0 items) 0 items = some out)
    {before after : List Item} (hitems : items = before ++ after) (h : Runs area after m e)
    {limit : Nat} (hlimit : Item.totalSize after ≤ limit) :
    watchFrom area (fetch? (out.flatMap Instr.encode)) limit (Item.totalSize before) m = e := by
  -- Along the run the part of the list that is done grows.
  have hstep : ∀ {i : Instr Label} {is before : List Item} {limit : Nat},
      items = before ++ .instr i :: is → Item.totalSize (.instr i :: is) ≤ limit →
      ∃ j k, i.retarget? (Item.target (Item.bindings 0 items)
          (Item.totalSize (before ++ [.instr i]))) = some j ∧
        fetch? (out.flatMap Instr.encode) (Item.totalSize before) =
          some (j, Item.totalSize (before ++ [.instr i])) ∧
        limit = k + 1 ∧ Item.totalSize is ≤ k ∧ items = (before ++ [.instr i]) ++ is := by
    intro i is before limit hitems hlimit
    have hout' := hout
    rw [hitems] at hout'
    obtain ⟨j, hj, hf⟩ := fetch?_layOut hout'
    rw [← hitems, ← Item.totalSize_append_instr] at hj
    rw [← Item.totalSize_append_instr] at hf
    have hpos := i.size_pos
    rw [Item.totalSize, Item.size] at hlimit
    exact ⟨j, limit - 1, hj, hf, by omega, by omega, by simpa using hitems⟩
  induction h generalizing before limit with
  | @bind l is m e _ ih =>
      have := @ih (before ++ [.bind l]) (by simpa using hitems) limit
        (by simpa [Item.totalSize, Item.size] using hlimit)
      simpa [Item.totalSize_append, Item.totalSize, Item.size] using this
  | wild ha =>
      obtain ⟨j, k, hj, hf, rfl, -, -⟩ := hstep hitems hlimit
      rw [← Instr.avoids_retarget? hj] at ha
      simp only [watchFrom, hf, ha]
      rfl
  | next ha hx _ ih =>
      obtain ⟨j, k, hj, hf, rfl, hk, hrest⟩ := hstep hitems hlimit
      rw [← Instr.avoids_retarget? hj] at ha
      obtain ⟨flow, hflow, hx'⟩ := Instr.exec_retarget? hj hx
      cases hflow
      simp only [watchFrom, hf, if_pos ha, hx']
      exact ih hrest hk
  | @branch i is is' m m' l e ha hx hl _ ih =>
      obtain ⟨j, k, hj, hf, rfl, hk, hrest⟩ := hstep hitems hlimit
      rw [← Instr.avoids_retarget? hj] at ha
      obtain ⟨flow, hflow, hx'⟩ := Instr.exec_retarget? hj hx
      obtain ⟨d, hd, rfl⟩ := Option.map_eq_some_iff.mp hflow
      obtain ⟨mid, rfl⟩ := Item.eq_append_of_after? hl
      -- The label is bound behind `mid`, and that is where the displacement leads.
      have hitems' : items = (before ++ [.instr i] ++ mid) ++ .bind l :: is' := by
        simpa using hrest
      have hplace := Item.lookup_bindings (hitems' ▸ hnodup)
      rw [← hitems'] at hplace
      rw [Item.target, hplace, Option.bind_some] at hd
      have htarget := Item.toInt_displacement? hd
      simp only [watchFrom, hf, if_pos ha, hx', htarget]
      rw [if_neg (by omega)]
      have hpc : ((Item.totalSize (before ++ [.instr i]) : Int) +
          (Item.totalSize (before ++ [.instr i] ++ mid) -
            Item.totalSize (before ++ [.instr i]))).toNat =
          Item.totalSize (before ++ [.instr i] ++ mid ++ [.bind l]) := by
        simp only [Item.totalSize_append, Item.totalSize, Item.size]
        omega
      rw [hpc]
      refine ih (by simpa using hitems') ?_
      simp only [Item.totalSize_append, Item.totalSize] at hk
      omega
  | ret ha hx =>
      obtain ⟨j, k, hj, hf, rfl, -, -⟩ := hstep hitems hlimit
      rw [← Instr.avoids_retarget? hj] at ha
      obtain ⟨flow, hflow, hx'⟩ := Instr.exec_retarget? hj hx
      cases hflow
      simp only [watchFrom, hf, if_pos ha, hx']
  | leave ha hx =>
      obtain ⟨j, k, hj, hf, rfl, -, -⟩ := hstep hitems hlimit
      rw [← Instr.avoids_retarget? hj] at ha
      obtain ⟨flow, hflow, hx'⟩ := Instr.exec_retarget? hj hx
      cases hflow
      simp only [watchFrom, hf, if_pos ha, hx']

/-- Laid out code runs as its items do. -/
theorem watch_of_runs {a : Assembly} {bytes : List UInt8} {m : Machine} {e : Exit}
    (hbytes : a.finish = .ok bytes) (h : Runs area a.items.toList m e) :
    watch area bytes m = e := by
  rw [Assembly.finish, Assembly.layOut] at hbytes
  split at hbytes
  · next hnodup =>
      split at hbytes
      · next out hout =>
          cases hbytes
          refine watchFrom_of_runs hnodup hout (List.nil_append _).symm h ?_
          exact Nat.le_of_eq (by rw [Item.length_encode_resolve? hout])
      · cases hbytes
  · cases hbytes

end

/-! ## When code can be laid out -/

theorem Instr.exists_of_retarget? {τ σ : Type} {f : τ → Option σ} {i : Instr τ} {j : Instr σ}
    (h : i.retarget? f = some j) {t : τ} (ht : i.target? = some t) : ∃ u, f t = some u := by
  cases i with
  | jmp t' =>
      cases ht
      obtain ⟨u, hu, -⟩ := Option.map_eq_some_iff.mp h
      exact ⟨u, hu⟩
  | jcc c t' =>
      cases ht
      obtain ⟨u, hu, -⟩ := Option.map_eq_some_iff.mp h
      exact ⟨u, hu⟩
  | _ => cases ht

theorem Instr.exists_retarget? {τ σ : Type} {f : τ → Option σ} {i : Instr τ}
    (h : ∀ t, i.target? = some t → ∃ u, f t = some u) : ∃ j, i.retarget? f = some j := by
  cases i with
  | jmp t =>
      obtain ⟨u, hu⟩ := h t rfl
      exact ⟨.jmp u, by rw [retarget?, hu]; rfl⟩
  | jcc c t =>
      obtain ⟨u, hu⟩ := h t rfl
      exact ⟨.jcc c u, by rw [retarget?, hu]; rfl⟩
  | _ => exact ⟨_, rfl⟩

namespace Item

/-- Items can be laid out if and only if every target is known and not too far away. -/
theorem exists_resolve?_iff {places : List (Label × Nat)} {start : Nat} {is : List Item} :
    (∃ out, resolve? places start is = some out) ↔
      ∀ before i after, is = before ++ .instr i :: after → ∀ l, i.target? = some l →
        ∃ d, target places (start + totalSize before + i.size) l = some d := by
  constructor
  · rintro ⟨out, hout⟩ before i after rfl l hl
    obtain ⟨-, js, -, hjs, -⟩ := resolve?_append hout
    simp only [resolve?, Option.bind_eq_bind, Option.bind_eq_some_iff] at hjs
    obtain ⟨j, hj, -⟩ := hjs
    exact Instr.exists_of_retarget? hj hl
  · intro h
    induction is generalizing start with
    | nil => exact ⟨[], rfl⟩
    | cons k is ih =>
        have hrest : ∀ before i after, is = before ++ .instr i :: after → ∀ l, i.target? = some l →
            ∃ d, target places (start + k.size + totalSize before + i.size) l = some d := by
          rintro before i after rfl l hl
          have hd := h (k :: before) i after rfl l hl
          rwa [totalSize, ← Nat.add_assoc start] at hd
        obtain ⟨out, hout⟩ := ih hrest
        cases k with
        | bind l => exact ⟨out, hout⟩
        | instr i =>
            obtain ⟨j, hj⟩ : ∃ j, i.retarget? (target places (start + i.size)) = some j :=
              Instr.exists_retarget? fun l hl => h [] i is rfl l hl
            refine ⟨j :: out, ?_⟩
            simp only [resolve?, Option.bind_eq_bind]
            rw [show i.retarget? (fun l => (places.lookup l).bind fun place =>
              displacement? (place - (start + i.size : Nat))) = some j from hj, Option.bind_some,
              show resolve? places (start + i.size) is = some out from hout, Option.bind_some]
            rfl

theorem exists_resolve? {places : List (Label × Nat)} {start : Nat} {is : List Item}
    (hlabels : ∀ i l, .instr i ∈ is → i.target? = some l →
      ∃ place, places.lookup l = some place ∧ place < 2 ^ 31)
    (hsize : start + totalSize is < 2 ^ 31) : ∃ out, resolve? places start is = some out := by
  refine exists_resolve?_iff.mpr fun before i after his l hl => ?_
  obtain ⟨place, hplace, hlt⟩ := hlabels i l (by simp [his]) hl
  rw [his, totalSize_append, totalSize, size] at hsize
  refine ⟨Int32.ofInt (place - (start + totalSize before + i.size : Nat)), ?_⟩
  rw [target, hplace, Option.bind_some, displacement?]
  exact if_pos ⟨by omega, by omega⟩

end Item

theorem Assembly.exists_finish_iff {a : Assembly} : (∃ bytes, a.finish = .ok bytes) ↔
    ((Item.bindings 0 a.items.toList).map Prod.fst).Nodup ∧
      ∃ out, Item.resolve? (Item.bindings 0 a.items.toList) 0 a.items.toList = some out := by
  by_cases hnodup : ((Item.bindings 0 a.items.toList).map Prod.fst).Nodup
  · cases hout : Item.resolve? (Item.bindings 0 a.items.toList) 0 a.items.toList with
    | none =>
        have hlay : a.finish = .error ⟨⟩ := by
          rw [finish, layOut]
          simp only [if_pos hnodup, hout]
          rfl
        simp [hlay]
    | some out =>
        have hlay : a.finish = .ok (out.flatMap Instr.encode) := by
          rw [finish, layOut]
          simp only [if_pos hnodup, hout]
          rfl
        simp [hlay, hnodup]
  · have hlay : a.finish = .error ⟨⟩ := by
      rw [finish, layOut]
      simp only [if_neg hnodup]
      rfl
    simp [hlay, hnodup]

/-- Code of less than 2 GiB can be laid out if its labels fit together. -/
theorem Assembly.exists_finish {a : Assembly}
    (hnodup : ((Item.bindings 0 a.items.toList).map Prod.fst).Nodup)
    (hlabels : ∀ i l, .instr i ∈ a.items.toList → i.target? = some l →
      .bind l ∈ a.items.toList)
    (hsize : a.size < 2 ^ 31) : ∃ bytes, a.finish = .ok bytes := by
  refine exists_finish_iff.mpr ⟨hnodup, Item.exists_resolve? (fun i l hi hl => ?_)
    (by rw [Nat.zero_add]; exact hsize)⟩
  obtain ⟨before, after, hsplit⟩ := List.append_of_mem (hlabels i l hi hl)
  have hplace := Item.lookup_bindings (hsplit ▸ hnodup)
  rw [← hsplit] at hplace
  have hle : Item.totalSize before ≤ a.size := by
    rw [size, hsplit, Item.totalSize_append]
    exact Nat.le_add_right _ _
  exact ⟨_, hplace, by omega⟩

/-! ## Pieces of code in place -/

/-- Running the bytes from one offset comes down to running them from another one. -/
def Proceeds (bytes : List UInt8) (pc : Nat) (m : Machine) (pc' : Nat) (m' : Machine) : Prop :=
  ∃ n, ∀ limit, runFrom (fetch? bytes) (limit + n) pc m = runFrom (fetch? bytes) limit pc' m'

section
variable {a : Assembly} {bytes : List UInt8} {before after : List Item} {area : UInt64 → Bool}
  {m m' : Machine}

theorem Assembly.fetch?_of_finish {i : Instr Label} (hbytes : a.finish = .ok bytes)
    (hitems : a.items.toList = before ++ .instr i :: after) :
    ∃ j, i.retarget? (Item.target (Item.bindings 0 a.items.toList)
        (Item.totalSize (before ++ [.instr i]))) = some j ∧
      fetch? bytes (Item.totalSize before) =
        some (j, Item.totalSize (before ++ [.instr i])) := by
  rw [finish, layOut] at hbytes
  split at hbytes
  · split at hbytes
    · next out hout =>
        cases hbytes
        rw [Item.totalSize_append_instr]
        have hresolve : Item.resolve? (Item.bindings 0 a.items.toList) 0
            (before ++ .instr i :: after) = some out := hitems ▸ hout
        exact fetch?_layOut hresolve
    · cases hbytes
  · cases hbytes

/-- One instruction that goes on with the next. -/
theorem runFrom_next {i : Instr Label} (hbytes : a.finish = .ok bytes)
    (hitems : a.items.toList = before ++ .instr i :: after) (hx : i.exec m = some (m', .next))
    (limit : Nat) : runFrom (fetch? bytes) (limit + 1) (Item.totalSize before) m =
      runFrom (fetch? bytes) limit (Item.totalSize (before ++ [.instr i])) m' := by
  obtain ⟨j, hj, hf⟩ := Assembly.fetch?_of_finish hbytes hitems
  obtain ⟨flow, hflow, hx'⟩ := Instr.exec_retarget? hj hx
  cases hflow
  simp only [runFrom, hf, hx']

/-- One instruction that branches goes on where its label is bound. -/
theorem runFrom_branch {i : Instr Label} {l : Label} (hbytes : a.finish = .ok bytes)
    (hitems : a.items.toList = before ++ .instr i :: after) (hx : i.exec m = some (m', .branch l)) :
    ∃ place, (Item.bindings 0 a.items.toList).lookup l = some place ∧
      ∀ limit, runFrom (fetch? bytes) (limit + 1) (Item.totalSize before) m =
        runFrom (fetch? bytes) limit place m' := by
  obtain ⟨j, hj, hf⟩ := Assembly.fetch?_of_finish hbytes hitems
  obtain ⟨flow, hflow, hx'⟩ := Instr.exec_retarget? hj hx
  obtain ⟨d, hd, rfl⟩ := Option.map_eq_some_iff.mp hflow
  obtain ⟨place, hplace, hdisp⟩ := Option.bind_eq_some_iff.mp hd
  have htarget := Item.toInt_displacement? hdisp
  refine ⟨place, hplace, fun limit => ?_⟩
  simp only [runFrom, hf, hx', htarget]
  rw [if_neg (by omega), show ((Item.totalSize (before ++ [.instr i]) : Int) +
    (place - Item.totalSize (before ++ [.instr i]))).toNat = place by omega]

/-- A piece of code in place that comes to its end. -/
theorem runFrom_of_fall {c : List (Instr Label)} (hbytes : a.finish = .ok bytes)
    (hitems : a.items.toList = before ++ (c.map Item.instr ++ after))
    (hc : exec area c m = .fall m') :
    Proceeds bytes (Item.totalSize before) m (Item.totalSize (before ++ c.map Item.instr)) m' := by
  induction c generalizing before m with
  | nil =>
      cases hc
      exact ⟨0, fun limit => by rw [List.map_nil, List.append_nil, Nat.add_zero]⟩
  | cons i c ih =>
      rw [exec] at hc
      split at hc
      · split at hc
        · cases hc
        · next m₁ hx =>
            obtain ⟨n, hn⟩ := ih (hitems.trans (List.append_cons ..)) hc
            refine ⟨n + 1, fun limit => ?_⟩
            rw [← Nat.add_assoc, runFrom_next hbytes hitems hx, hn, List.append_assoc,
              List.map_cons, List.singleton_append]
        all_goals cases hc
      · cases hc

/-- A piece of code in place that jumps goes on where the label is bound. -/
theorem runFrom_of_jump {c : List (Instr Label)} {l : Label} (hbytes : a.finish = .ok bytes)
    (hitems : a.items.toList = before ++ (c.map Item.instr ++ after))
    (hc : exec area c m = .jump l m') :
    ∃ place, (Item.bindings 0 a.items.toList).lookup l = some place ∧
      Proceeds bytes (Item.totalSize before) m place m' := by
  induction c generalizing before m with
  | nil => cases hc
  | cons i c ih =>
      rw [exec] at hc
      split at hc
      · split at hc
        · cases hc
        · next m₁ hx =>
            obtain ⟨place, hplace, n, hn⟩ := ih (hitems.trans (List.append_cons ..)) hc
            refine ⟨place, hplace, n + 1, fun limit => ?_⟩
            rw [← Nat.add_assoc, runFrom_next hbytes hitems hx, hn]
        · next m₁ l' hx =>
            cases hc
            obtain ⟨place, hplace, hstep⟩ := runFrom_branch hbytes hitems hx
            exact ⟨place, hplace, 1, hstep⟩
        all_goals cases hc
      · cases hc

end

end InlineCache.X64
