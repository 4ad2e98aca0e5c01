import InlineCache.Proofs.Listing.Declared

/-!
# Programs that were parsed

A listing is resolved by appending instructions and then fields, so a program that was parsed is
one that could have been built (`built_of_parse`). What could be refused while an instruction is
appended is tested before: the arguments match the schema, the operands exist, and there are numbers
left for the new operand and the new fields. So appending never fails (`parse_ne_build`).
-/

namespace InlineCache

theorem Op.numDefs_le_one (op : Op) : op.numDefs ≤ 1 := by
  cases op <;> decide

namespace Program

theorem Built.few {p : Program} (h : p.Built) : p.numOperands ≤ 256 := by
  obtain ⟨is, his⟩ := h.exists_represents
  exact his.few

/-! ## Steps that succeed -/

theorem exists_writeUse {p : Program} {x : OperandId} (hx : x.index < p.numOperands)
    (hfew : p.numOperands ≤ 256) :
    ∃ p', writeUse x p = .ok () p' ∧ p'.numOperands = p.numOperands ∧ p'.fields = p.fields := by
  rw [writeUse_eq (by omega), if_pos (show x.index < p.lastUsed.size from hx)]
  exact ⟨_, rfl, by simp [numOperands], rfl⟩

theorem exists_writeDef {p : Program} (hfew : p.numOperands < 256) :
    ∃ x p', writeDef p = .ok x p' ∧ p'.numOperands = p.numOperands + 1 ∧ p'.fields = p.fields := by
  have hsmall : ¬ 255 < p.lastUsed.size % 0x10000 := by
    rw [numOperands] at hfew
    omega
  rw [writeDef_eq, if_neg hsmall]
  exact ⟨_, _, rfl, by simp [numOperands], rfl⟩

theorem exists_writeField {p : Program} {f : Field} (hroom : p.fields.size < 256) :
    ∃ p', writeField f p = .ok () p' ∧ p'.numOperands = p.numOperands ∧
      p'.fields = p.fields.push f := by
  rw [writeField_eq, if_neg (by omega)]
  exact ⟨_, rfl, rfl, rfl⟩

theorem exists_writeArg {p : Program} {a : Arg}
    (huse : ∀ x, a = .operand x → x.index < p.numOperands) (hfew : p.numOperands ≤ 256)
    (hroom : p.fields.size + a.field?.toList.length ≤ 256) :
    ∃ p', writeArg a p = .ok () p' ∧ p'.numOperands = p.numOperands ∧
      p'.fields.size = p.fields.size + a.field?.toList.length := by
  cases a with
  | operand x =>
      obtain ⟨p', hwrite, hoperands, hfields⟩ := exists_writeUse (huse x rfl) hfew
      exact ⟨p', hwrite, hoperands, congrArg Array.size hfields⟩
  | field f =>
      obtain ⟨p', hwrite, hoperands, hfields⟩ := @exists_writeField p f hroom
      exact ⟨p', hwrite, hoperands, (congrArg Array.size hfields).trans (Array.size_push f)⟩
  | classKind c => exact ⟨_, rfl, rfl, rfl⟩
  | bool b => exact ⟨_, rfl, rfl, rfl⟩
  | int32 i => exact ⟨_, rfl, rfl, rfl⟩

/-- Arguments are written if their operands exist and there are numbers left. -/
theorem exists_writeArgs {ks : List ArgKind} {args : List Arg} {p : Program}
    (hlen : (ks.filter (· != .define)).length = args.length)
    (huse : ∀ x, .operand x ∈ args → x.index < p.numOperands)
    (hfew : p.numOperands + ks.count .define ≤ 256)
    (hroom : p.fields.size + (args.filterMap Arg.field?).length ≤ 256) :
    ∃ defined p', writeArgs ks args p = .ok defined p' := by
  induction ks generalizing args p with
  | nil =>
      obtain rfl := List.length_eq_zero_iff.mp hlen.symm
      exact ⟨none, p, rfl⟩
  | cons k ks ih =>
      by_cases hk : k = .define
      · subst hk
        rw [List.count_cons_self] at hfew
        obtain ⟨x, p₁, hdef, hoperands, hfields⟩ := @exists_writeDef p (by omega)
        obtain ⟨later, p', hrest⟩ := @ih args p₁ hlen
          (fun y hy => by rw [hoperands]; exact Nat.lt_succ_of_lt (huse y hy))
          (by rw [hoperands]; omega) (by rw [hfields]; exact hroom)
        exact ⟨_, p', (bind_of_ok hdef).trans (bind_of_ok hrest)⟩
      · rw [List.filter_cons_of_pos (by simpa using hk)] at hlen
        obtain _ | ⟨a, args⟩ := args
        · cases hlen
        have hcount : (a :: args).filterMap Arg.field? =
            a.field?.toList ++ args.filterMap Arg.field? := by
          cases h : a.field? <;> simp [h]
        rw [hcount, List.length_append] at hroom
        rw [List.count_cons_of_ne hk] at hfew
        obtain ⟨p₁, hwrite, hoperands, hfields⟩ := @exists_writeArg p a
          (fun x hx => huse x (hx ▸ List.mem_cons_self)) (by omega) (by omega)
        obtain ⟨defined, p', hrest⟩ := @ih args p₁ (Nat.succ.inj hlen)
          (fun y hy => by rw [hoperands]; exact huse y (List.mem_cons_of_mem a hy))
          (by rw [hoperands]; exact hfew) (by rw [hfields]; omega)
        refine ⟨defined, p', ?_⟩
        rw [writeArgs]
        · exact (bind_of_ok hwrite).trans hrest
        · exact fun h => hk h

theorem exists_emit {op : Op} {args : List Arg} {p : Program} (hcheck : op.checkArgs args = .ok ())
    (huse : ∀ x, .operand x ∈ args → x.index < p.numOperands)
    (hfew : p.numOperands + op.numDefs ≤ 256)
    (hroom : p.fields.size + (args.filterMap Arg.field?).length ≤ 256) :
    ∃ defined p', emit op args p = .ok defined p' := by
  obtain ⟨defined, p', hargs⟩ := @exists_writeArgs op.schema args
    { p with code := p.code.push op.byte } (checkArgs_ok hcheck).length_eq huse hfew hroom
  refine ⟨defined, { p' with numInstructions := p'.numInstructions + 1 }, ?_⟩
  rw [emit, hcheck]
  exact (bind_of_ok (show writeByte op.byte p = .ok () _ from rfl)).trans (bind_of_ok hargs)

end Program

namespace Listing

/-- What a step of resolving returned came from what its parts returned. -/
theorem exists_of_except_bind {ε α β : Type} {x : Except ε α} {f : α → Except ε β} {b : β}
    (h : (x >>= f) = .ok b) : ∃ a, x = .ok a ∧ f a = .ok b := by
  cases x with
  | error e => cases h
  | ok a => exact ⟨a, rfl, h⟩

theorem exists_of_except_bind_error {ε α β : Type} {x : Except ε α} {f : α → Except ε β} {e : ε}
    (h : (x >>= f) = .error e) : x = .error e ∨ ∃ a, x = .ok a ∧ f a = .error e := by
  cases x with
  | error e' =>
      cases h
      exact .inl rfl
  | ok a => exact .inr ⟨a, rfl, h⟩

theorem of_mapError_ok {ε ε' α : Type} {x : Except ε α} {f : ε → ε'} {a : α}
    (h : x.mapError f = .ok a) : x = .ok a := by
  cases x with
  | error e => cases h
  | ok b => cases h; rfl

/-! ## Lines -/

namespace TreeLine

theorem countP_isField (args : List Arg) :
    args.countP isField = (args.filterMap Arg.field?).length := by
  induction args with
  | nil => rfl
  | cons a args ih =>
      rw [List.countP_cons, ih]
      cases a <;> rfl

variable {l : TreeLine} {op : Op} {ds : Declarations} {p p' : Program}

/-- A line appends one instruction, after all tests. -/
theorem of_resolve_ok (h : l.resolve op ds p = .ok p') :
    ∃ args defined, op.explicitArgs.length = l.args.length ∧
      resolveArgs p ds op.explicitArgs l.args = .ok args ∧
      p.fields.size + (args.filterMap Arg.field?).length ≤ 256 ∧
      Program.emit op args p = .ok defined p' ∧ checkDefinition op l.defined defined = .ok () := by
  rw [resolve] at h
  dsimp only at h
  split at h
  · cases h
  next hlen =>
  obtain ⟨args, hargs, h⟩ := exists_of_except_bind h
  obtain ⟨-, -, h⟩ := exists_of_except_bind h
  split at h
  · cases h
  split at h
  · cases h
  next hroom =>
  split at h
  · cases h
  next defined p₁ hemit =>
    obtain ⟨⟨⟩, hdefinition, hend⟩ := exists_of_except_bind h
    cases hend
    rw [countP_isField, Nat.not_lt] at hroom
    exact ⟨args, defined, not_not.mp hlen, hargs, hroom, hemit, hdefinition⟩

/-- What a written argument stands for. -/
inductive Resolves (p : Program) (ds : Declarations) : TreeArg → Arg → Prop where
  | operand {x : OperandId} (h : x.index < p.numOperands) :
      Resolves p ds (.operand x.index) (.operand x)
  | field {n : Nat} {f : Field} (h : ds.lookup n = some f) : Resolves p ds (.field n) (.field f)
  | classKind (c : ClassKind) : Resolves p ds (.name c.name) (.classKind c)
  | bool (b : Bool) : Resolves p ds (.bool b) (.bool b)
  | int32 (i : Int32) : Resolves p ds (.int i.toInt) (.int32 i)

theorem resolves_of_resolveArg {k : ArgKind} {a : TreeArg} {b : Arg}
    (h : resolveArg p ds k a = .ok b) : Resolves p ds a b := by
  cases k with
  | use =>
      cases a with
      | operand id =>
          rw [resolveArg] at h
          split at h
          · next hlt =>
              cases h
              exact @Resolves.operand p ds ⟨id⟩ hlt
          · cases h
      | _ => cases h
  | define => cases a <;> cases h
  | classKind =>
      cases a with
      | name s =>
          rw [resolveArg] at h
          split at h
          · next c hc =>
              cases h
              rw [← ClassKind.name_of_ofName? hc]
              exact .classKind c
          · cases h
      | _ => cases h
  | bool =>
      cases a with
      | bool b =>
          cases h
          exact .bool b
      | _ => cases h
  | int32 =>
      cases a with
      | int i =>
          rw [resolveArg] at h
          split at h
          · next hrange =>
              cases h
              have hint : (Int32.ofInt i).toInt = i :=
                Int32.toInt_ofInt_of_le hrange.1 hrange.2
              have hresolves := @Resolves.int32 p ds (Int32.ofInt i)
              rwa [hint] at hresolves
          · cases h
      | _ => cases h
  | field t =>
      cases a with
      | field n =>
          rw [resolveArg] at h
          split at h
          · next f hf =>
              cases h
              exact .field hf
          · cases h
      | _ => cases h

theorem resolves_of_resolveArgs {ks : List ArgKind} {as : List TreeArg} {bs : List Arg}
    (hlen : ks.length = as.length) (h : resolveArgs p ds ks as = .ok bs) :
    List.Forall₂ (Resolves p ds) as bs := by
  induction ks generalizing as bs with
  | nil =>
      obtain rfl := List.length_eq_zero_iff.mp hlen.symm
      cases h
      exact .nil
  | cons k ks ih =>
      obtain _ | ⟨a, as⟩ := as
      · cases hlen
      obtain ⟨b, hb, h⟩ := exists_of_except_bind h
      obtain ⟨bs, hbs, h⟩ := exists_of_except_bind h
      cases h
      exact .cons (resolves_of_resolveArg hb) (ih (Nat.succ.inj hlen) hbs)

theorem operand_of_resolves {as : List TreeArg} {bs : List Arg}
    (h : List.Forall₂ (Resolves p ds) as bs) (x : OperandId) (hx : .operand x ∈ bs) :
    x.index < p.numOperands := by
  induction h with
  | nil => cases hx
  | cons hab _ ih =>
      obtain rfl | hx := List.mem_cons.mp hx
      · cases hab with
        | operand hlt => exact hlt
      · exact ih hx

theorem resolveArg_ne_build {k : ArgKind} {a : TreeArg} {err : BuildError} :
    resolveArg p ds k a ≠ .error (.build err) := by
  intro h
  cases k <;> cases a <;> first | cases h | (rw [resolveArg] at h; split at h <;> cases h)

theorem resolveArgs_ne_build {ks : List ArgKind} {as : List TreeArg} {err : BuildError} :
    resolveArgs p ds ks as ≠ .error (.build err) := by
  induction ks generalizing as with
  | nil =>
      intro h
      cases h
  | cons k ks ih =>
      intro h
      obtain _ | ⟨a, as⟩ := as
      · cases h
      obtain ha | ⟨b, -, h⟩ := exists_of_except_bind_error h
      · exact resolveArg_ne_build ha
      obtain has | ⟨bs, -, h⟩ := exists_of_except_bind_error h
      · exact ih has
      · cases h

theorem checkDefinition_ne_build {written : Option Nat} {defined : Option OperandId}
    {err : BuildError} : checkDefinition op written defined ≠ .error (.build err) := by
  intro h
  rw [checkDefinition.eq_def] at h
  split at h
  · cases h
  · split at h <;> cases h
  · cases h
  · cases h

/-- A line that passes the tests is appended. -/
theorem resolve_ne_build (hfew : p.numOperands ≤ 256) {err : BuildError} :
    l.resolve op ds p ≠ .error (.build err) := by
  intro h
  rw [resolve] at h
  dsimp only at h
  split at h
  · cases h
  next hlen =>
  obtain hargs | ⟨args, hargs, h⟩ := exists_of_except_bind_error h
  · exact resolveArgs_ne_build hargs
  obtain hcheck | ⟨⟨⟩, hcheck, h⟩ := exists_of_except_bind_error h
  · cases hargs' : op.checkArgs args <;> rw [hargs'] at hcheck <;> cases hcheck
  split at h
  · cases h
  next hoperands =>
  split at h
  · cases h
  next hroom =>
  have hresolves := resolves_of_resolveArgs (not_not.mp hlen) hargs
  have hdefs := op.numDefs_le_one
  rw [countP_isField] at hroom
  obtain ⟨defined, p', hemit⟩ := Program.exists_emit (of_mapError_ok hcheck)
    (operand_of_resolves hresolves) (by omega) (by omega)
  rw [EStateM.run, hemit] at h
  obtain hdefinition | ⟨u, -, hend⟩ := exists_of_except_bind_error h
  · exact checkDefinition_ne_build hdefinition
  · cases hend

end TreeLine

/-! ## Listings -/

namespace Tree

/-- What it takes for a listing to be resolved. -/
theorem resolve_eq_ok_iff {t : Tree} {p : Program} :
    t.resolve = .ok p ↔ ∃ kind ds p₁, CacheKind.ofName? t.kind = some kind ∧
      t.inputs = List.range kind.numInputs ∧ Declarations.add [] t.fields = .ok ds ∧
      resolveLines ds 0 t.lines (.empty kind) = .ok p₁ ∧
      p₁.fields.size + (ds.unused (t.lines.flatMap TreeLine.usedFields)).length ≤ 256 ∧
      p = { p₁ with
        fields := p₁.fields ++ (ds.unused (t.lines.flatMap TreeLine.usedFields)).toArray } := by
  constructor
  · intro h
    rw [resolve] at h
    split at h
    · cases h
    next kind hkind =>
    dsimp only at h
    split at h
    · cases h
    next hinputs =>
    obtain ⟨ds, hds, h⟩ := exists_of_except_bind h
    obtain ⟨p₁, hlines, h⟩ := exists_of_except_bind h
    split at h
    · cases h
    next hroom =>
    cases h
    exact ⟨kind, ds, p₁, hkind, not_not.mp hinputs, hds, hlines, Nat.le_of_not_lt hroom, rfl⟩
  · rintro ⟨kind, ds, p₁, hkind, hinputs, hds, hlines, hroom, rfl⟩
    rw [resolve]
    simp only [hkind, if_neg (not_not.mpr hinputs), hds, hlines, bind, Except.bind,
      if_neg (Nat.not_lt_of_le hroom)]
    rfl

variable {ds : Declarations} {number : Nat} {ls : List TreeLine} {p p' : Program}

theorem built_of_resolveLines (hp : p.Built) (h : resolveLines ds number ls p = .ok p') :
    p'.Built := by
  induction ls generalizing number p with
  | nil =>
      cases h
      exact hp
  | cons l ls ih =>
      rw [resolveLines] at h
      split at h
      · cases h
      obtain ⟨p₁, hline, hrest⟩ := exists_of_except_bind h
      obtain ⟨args, defined, -, -, -, hemit, -⟩ := TreeLine.of_resolve_ok (of_mapError_ok hline)
      exact ih (hp.emit hemit) hrest

theorem built_of_resolve {t : Tree} {p : Program} (h : t.resolve = .ok p) : p.Built := by
  obtain ⟨kind, ds, p₁, -, -, -, hlines, -, rfl⟩ := resolve_eq_ok_iff.mp h
  exact (built_of_resolveLines (.empty kind) hlines).append_fields _

theorem resolveLines_ne_build (hp : p.Built) {line : Nat} {err : BuildError} :
    resolveLines ds number ls p ≠ .error (.line line (.build err)) := by
  induction ls generalizing number p with
  | nil =>
      intro h
      cases h
  | cons l ls ih =>
      intro h
      rw [resolveLines] at h
      split at h
      · cases h
      next op _ =>
      obtain hline | ⟨p₁, hline, hrest⟩ := exists_of_except_bind_error h
      · cases hresolve : l.resolve op ds p with
        | error e =>
            rw [hresolve] at hline
            cases hline
            exact TreeLine.resolve_ne_build hp.few hresolve
        | ok p₁ =>
            rw [hresolve] at hline
            cases hline
      · obtain ⟨args, defined, -, -, -, hemit, -⟩ := TreeLine.of_resolve_ok (of_mapError_ok hline)
        exact ih (hp.emit hemit) hrest

end Tree

theorem Declarations.add_ne_line {ds : Declarations} {fs : List TreeField} {line : Nat}
    {err : LineError} : ds.add fs ≠ .error (.line line err) := by
  induction fs generalizing ds with
  | nil =>
      intro h
      cases h
  | cons f fs ih =>
      intro h
      rw [add] at h
      split at h
      · cases h
      · cases h
      · split at h
        · cases h
        · exact ih h

theorem built_of_parse {text : String} {p : Program} (h : parse text = .ok p) : p.Built := by
  rw [parse] at h
  split at h
  · cases h
  exact Tree.built_of_resolve (of_mapError_ok h)

/-- No text makes a program refuse an instruction. -/
theorem parse_ne_build {text : String} {line : Nat} {err : BuildError} :
    parse text ≠ .error (.resolve (.line line (.build err))) := by
  intro h
  rw [parse] at h
  split at h
  · cases h
  next t _ =>
  have hresolve : t.resolve = .error (.line line (.build err)) := by
    cases hr : t.resolve with
    | ok p =>
        rw [hr] at h
        cases h
    | error e =>
        rw [hr] at h
        cases h
        rfl
  rw [Tree.resolve] at hresolve
  split at hresolve
  · cases hresolve
  next kind _ =>
  dsimp only at hresolve
  split at hresolve
  · cases hresolve
  obtain hds | ⟨ds, -, hresolve⟩ := exists_of_except_bind_error hresolve
  · exact Declarations.add_ne_line hds
  obtain hlines | ⟨p₁, -, hend⟩ := exists_of_except_bind_error hresolve
  · exact Tree.resolveLines_ne_build (.empty kind) hlines
  split at hend
  · cases hend
  · cases hend

end Listing
end InlineCache
