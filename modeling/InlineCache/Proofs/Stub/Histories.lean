import InlineCache.Proofs.Codegen.Limits
import InlineCache.Proofs.Stub.Attempts
import Mathlib.Data.List.Forall2
import Mathlib.Data.List.Induction

/-!
# Any history of attaching

Programs with one key may have different fields. The description that the code table hands out then
belongs to another program: the block of a new stub can be longer than the fields that fill it, or
too short for them, in which case the attempt fails. It also fails if the description does not say
where its types end, which takes a program whose length does not fit in 32 bits. What a chain holds
is still determined by the attempts that were answered with `attached` (`Sites.attach_history`): its
links run through one stub for each of them, in their order. If their programs are short, no two
stubs are the same.

`Sites.Outcome` lists what one attempt can do, and `Sites.Recorded` is the invariant of a history.
-/

namespace InlineCache

/-! ## Stubs and the attempts they were made for -/

namespace Stub

/-- The stub has the key of an attempt, and its data start with the fields. -/
structure Covers (stub : Stub) (a : Attempt) : Prop where
  key : stub.compiled.info.key = a.key
  data : a.program.dataBytes <+: stub.data

/-- The stub has the key of an attempt, and its data are the fields and zeros behind them, as long
as the description of its code says. -/
structure MadeFor [ClassTable] (stub : Stub) (a : Attempt) : Prop where
  key : stub.compiled.IsFor a.key
  data : ∃ n, stub.data = a.program.dataBytes ++ List.replicate n 0
  length_data : stub.data.length = stub.compiled.info.dataSize

theorem MadeFor.covers [ClassTable] {stub : Stub} {a : Attempt} (h : stub.MadeFor a)
    (ha : a.program.Short) : stub.Covers a := by
  obtain ⟨n, hdata⟩ := h.data
  exact ⟨h.key.key ha, hdata ▸ List.prefix_append _ _⟩

/-- The stub cut off from those behind it. -/
def unlinked (stub : Stub) : Stub :=
  { stub with next := .fallback }

theorem madeFor_unlinked [ClassTable] {stub : Stub} {a : Attempt} :
    stub.unlinked.MadeFor a ↔ stub.MadeFor a :=
  ⟨fun h => ⟨h.key, h.data, h.length_data⟩, fun h => ⟨h.key, h.data, h.length_data⟩⟩

/-- What tells stubs apart. -/
def shown (stub : Stub) : CodeKey × List UInt8 :=
  (stub.compiled.info.key, stub.data)

theorem Covers.congr {stub stub' : Stub} {a : Attempt} (h : stub.Covers a)
    (heq : stub'.shown = stub.shown) : stub'.Covers a := by
  obtain ⟨hkey, hdata⟩ := Prod.mk.inj heq
  exact ⟨hkey.trans h.key, hdata ▸ h.data⟩

end Stub

theorem Attach.any_isDuplicate_iff {a : Attempt} {c : CompiledStub} {stubs : Array Stub}
    (hkey : c.info.key = a.key)
    (hnumber : ∀ stub ∈ stubs, stub.compiled.number = c.number → stub.compiled = c) :
    stubs.any (isDuplicate a.program a.engine c) = true ↔ ∃ stub ∈ stubs, stub.Covers a := by
  rw [← Array.any_toList, List.any_eq_true]
  refine exists_congr fun stub => ?_
  rw [Array.mem_toList_iff]
  refine and_congr_right fun hstub => ?_
  rw [isDuplicate_eq hkey fun h => by rw [hnumber stub hstub h], Bool.and_eq_true,
    decide_eq_true_eq, Program.dataEquals_iff]
  exact ⟨fun h => ⟨h.1, h.2⟩, fun h => ⟨h.key, h.data⟩⟩

/-- A stub is made if the description can be read and gives it room for the fields. -/
theorem Attach.appendStub_cases [ClassTable] {a : Attempt} {c : CompiledStub} (hc : c.IsFor a.key)
    (t : AttachState) :
    (∃ e, appendStub a.program c t = .error (.data e) t) ∨
    ∃ stub bs, stub.MadeFor a ∧ stub.compiled = c ∧ appendStub a.program c t =
      .ok () { t with chain := t.chain.append stub, barriers := bs } := by
  have hlength : (List.replicate c.info.dataSize (0 : UInt8)).length = c.info.dataSize :=
    List.length_replicate
  cases hend : c.info.typesEnd with
  | error e =>
      refine .inl ⟨e, ?_⟩
      rw [appendStub]
      simp only [new_error hc.dataOffset hend]
      rfl
  | ok _ =>
      rcases Nat.lt_or_ge c.info.dataSize a.program.dataSize with hsmall | hfits
      · have hfill := Program.fillData_tooSmall (hlength.symm ▸ hsmall) t.barriers
        refine .inl ⟨.tooSmall, ?_⟩
        rw [appendStub]
        simp only [new_ok hc.dataOffset hend]
        rw [get_bind]
        simp only [EStateM.run, hfill]
        rfl
      · have hfill := Program.fillData_eq (hlength.symm ▸ hfits) t.barriers
        rw [List.drop_replicate] at hfill
        refine .inr ⟨⟨c, a.program.dataBytes ++
          List.replicate (c.info.dataSize - a.program.dataSize) 0, .fallback⟩,
          t.barriers ++ (a.program.reports (8 * ·)).toArray, ⟨hc, ⟨_, rfl⟩, ?_⟩, rfl, ?_⟩
        · rw [List.length_append, Program.length_dataBytes, List.length_replicate]
          exact Nat.add_sub_cancel' hfits
        · rw [appendStub]
          simp only [new_ok hc.dataOffset hend]
          rw [get_bind]
          simp only [EStateM.run, hfill]
          rfl

/-! ## Chains -/

namespace Chain

variable {c : Chain}

/-- Following links visits these stubs and then the fallback. -/
inductive Visits (c : Chain) : Link → List Stub → Prop where
  | fallback : Visits c .fallback []
  | stub {index : Nat} {s : Stub} {rest : List Stub} :
      c.stubs[index]? = some s → Visits c s.next rest → Visits c (.stub index) (s :: rest)

theorem Linked.visits_from (h : c.Linked) {n index : Nat} (hn : index + n = c.stubs.size) :
    c.Visits (if index < c.stubs.size then .stub index else .fallback)
      (c.stubs.toList.drop index) := by
  induction n generalizing index with
  | zero =>
      rw [if_neg (by omega), List.drop_eq_nil_of_le (by rw [Array.length_toList]; omega)]
      exact .fallback
  | succ n ih =>
      have hlt : index < c.stubs.size := by omega
      have hget : c.stubs[index]? = some c.stubs[index] := Array.getElem?_eq_getElem hlt
      rw [if_pos hlt, List.drop_eq_getElem_cons (by rwa [Array.length_toList]),
        Array.getElem_toList]
      refine .stub hget ?_
      rw [h hget]
      exact ih (by omega)

theorem Linked.visits (h : c.Linked) : c.Visits c.first c.stubs.toList := by
  have hall := h.visits_from (Nat.zero_add c.stubs.size)
  rw [List.drop_zero] at hall
  have hfirst : c.first = if 0 < c.stubs.size then .stub 0 else .fallback := by
    rw [first, Array.isEmpty]
    cases c.stubs.size <;> rfl
  rwa [hfirst]

theorem forall₂_madeFor_append [ClassTable] {as : List Attempt} {a : Attempt} {stub : Stub}
    (h : List.Forall₂ (fun a stub => stub.MadeFor a) as c.stubs.toList) (hstub : stub.MadeFor a) :
    List.Forall₂ (fun a stub => stub.MadeFor a) (as ++ [a]) (c.append stub).stubs.toList := by
  -- The links differ, but `MadeFor` does not look at them.
  have hiff : ∀ {as : List Attempt} {stubs : List Stub},
      List.Forall₂ (fun a stub => stub.MadeFor a) as (stubs.map Stub.unlinked) ↔
        List.Forall₂ (fun a stub => stub.MadeFor a) as stubs := by
    intro as stubs
    simp only [List.forall₂_map_right_iff, Stub.madeFor_unlinked]
  rw [← hiff, map_append fun _ _ => rfl]
  exact List.rel_append (hiff.mpr h) (hiff.mpr (.cons hstub .nil))

theorem nodup_append {stub : Stub} (h : (c.stubs.toList.map Stub.shown).Nodup)
    (hnew : ∀ stub' ∈ c.stubs, stub'.shown ≠ stub.shown) :
    ((c.append stub).stubs.toList.map Stub.shown).Nodup := by
  rw [map_append fun _ _ => rfl, List.nodup_append]
  refine ⟨h, List.pairwise_singleton _ _, fun x hx y hy heq => ?_⟩
  obtain ⟨stub', hstub', rfl⟩ := List.mem_map.mp hx
  rw [List.mem_singleton] at hy
  exact hnew stub' (Array.mem_toList_iff.mp hstub') (heq.trans hy)

end Chain

/-! ## One attempt -/

namespace Sites

/-- What an attempt can be answered with, and the sites it can leave. -/
inductive Outcome [ClassTable] (s : Sites) (a : Attempt) :
    Except AttachError Decision → Sites → Prop where
  | refused {e : CompileError} : Outcome s a (.error (.compile e)) s
  | duplicate {c : CompiledStub} {table : CodeTable} : s.table.Supplies a c table →
      (s.chain a.site).stubs.any (Attach.isDuplicate a.program a.engine c) = true →
      Outcome s a (.ok .duplicate) ⟨table, s.chain⟩
  | failed {c : CompiledStub} {table : CodeTable} {e : DataError} : s.table.Supplies a c table →
      Outcome s a (.error (.data e)) ⟨table, s.chain⟩
  | attached {stub : Stub} {table : CodeTable} : s.table.Supplies a stub.compiled table →
      ¬(s.chain a.site).stubs.any (Attach.isDuplicate a.program a.engine stub.compiled) = true →
      stub.MadeFor a → Outcome s a (.ok .attached)
        ⟨table, setAt s.chain a.site ((s.chain a.site).append stub)⟩

variable {s : Sites} {as : List Attempt} {a : Attempt}

theorem Outcome.chain_eq [ClassTable] {answer : Except AttachError Decision} {s' : Sites}
    (h : s.Outcome a answer s') (hanswer : answer ≠ .ok .attached) : s'.chain = s.chain := by
  cases h with
  | refused => rfl
  | duplicate => rfl
  | failed => rfl
  | attached => exact absurd rfl hanswer

theorem Outcome.eq_of_refused [ClassTable] {e : CompileError} {s' : Sites}
    (h : s.Outcome a (.error (.compile e)) s') : s' = s := by
  cases h
  rfl

/-- A short program is a duplicate exactly if a stub of the site has its key and its fields. -/
theorem Explained.any_isDuplicate_iff [ClassTable] (h : s.Explained as) (ha : a.program.Short)
    {c : CompiledStub} {table : CodeTable} (hc : s.table.Supplies a c table) :
    (s.chain a.site).stubs.any (Attach.isDuplicate a.program a.engine c) = true ↔
      ∃ stub ∈ (s.chain a.site).stubs, stub.Covers a :=
  Attach.any_isDuplicate_iff ((h.isFor hc).key ha) fun stub hstub =>
    h.eq_of_number hc (.inr ⟨a.site, stub, hstub, rfl⟩)

theorem Explained.exists_covers [ClassTable] (h : s.Explained as) (ha : a.program.Short)
    {s' : Sites} (hout : s.Outcome a (.ok .duplicate) s') : ∃ stub ∈
    (s.chain a.site).stubs, stub.Covers a := by
  cases hout with
  | duplicate hc hdup => exact (h.any_isDuplicate_iff ha hc).mp hdup

theorem Explained.outcome [ClassTable] (h : s.Explained as) (a : Attempt) :
    s.Outcome a (s.attach a).1 (s.attach a).2 := by
  rcases s.attach_steps a with
    ⟨e, -, hattach⟩ | ⟨c, table, hc, ⟨hin, hattach⟩ | ⟨hin, hrest⟩⟩
  · rw [hattach]
    exact .refused
  · rw [hattach]
    exact .duplicate hc hin
  · rcases Attach.appendStub_cases (h.isFor hc) ⟨table, s.chain a.site, #[]⟩ with
      ⟨e, hfail⟩ | ⟨stub, bs, hmade, rfl, hok⟩
    · rw [attach_of_error (hrest.trans (bind_of_error hfail)), setAt_eq_self]
      exact .failed hc
    · rw [attach_of_ok (hrest.trans (bind_of_ok hok))]
      exact .attached hc hin hmade

theorem Explained.step [ClassTable] (h : s.Explained as) (a : Attempt) :
    (s.attach a).2.Explained (as ++ [a]) := by
  have hout := h.outcome a
  revert hout
  generalize (s.attach a).1 = answer
  generalize (s.attach a).2 = s'
  intro hout
  cases hout with
  | refused => exact h.append a
  | duplicate hc _ => exact h.supplied hc h.linked fun hstub => .inr ⟨_, hstub, rfl⟩
  | failed hc => exact h.supplied hc h.linked fun hstub => .inr ⟨_, hstub, rfl⟩
  | attached hc _ _ => exact h.attached hc

/-- A program whose length does not fit in 32 bits is attached to a site that has nothing but its
stubs, if its code is compiled anew each time. -/
theorem Explained.attach_of_not_short [ClassTable] (h : s.Explained as) (hold : ∀ b ∈ as, b = a)
    (huse : ¬a.options.useCodeTable = true) (hlong : ¬a.program.Short) {code : StubCode}
    (hcode : a.compiled = .ok code)
    (htypes : (StubInfo.ofProgram a.program a.engine false Layout.stubData).fieldTypes? =
      .ok a.program.fieldTypes) :
    ∃ c table, c.info = .ofProgram a.program a.engine false Layout.stubData ∧
      s.attach a = (.ok .attached, ⟨table, setAt s.chain a.site
        ((s.chain a.site).append ⟨c, a.program.dataBytes, .fallback⟩)⟩) := by
  obtain ⟨htypes, hend⟩ := StubInfo.fieldTypes?_eq_ok_iff.mp htypes
  let c : CompiledStub := ⟨s.table.numCompiled, .ofProgram a.program a.engine false
    Layout.stubData, code⟩
  have hfind := Attach.findOrCompile_unshared huse ▸
    @Attach.compileStub_eq ⟨s.table, s.chain a.site, #[]⟩ _ _ _ _ _ Layout.stubData _ hcode
  have hnew : ¬(s.chain a.site).stubs.any (Attach.isDuplicate a.program a.engine c) = true := by
    rw [← Array.any_toList, List.any_eq_true]
    rintro ⟨stub, hstub, hdup⟩
    have hknown : s.Knows stub.compiled :=
      .inr ⟨a.site, stub, Array.mem_toList_iff.mp hstub, rfl⟩
    rw [Attach.isDuplicate, Bool.and_eq_true, Bool.or_eq_true, Bool.and_eq_true, beq_iff_eq,
      beq_iff_eq] at hdup
    rcases hdup.1 with hnumber | ⟨-, hbytes⟩
    · have hlt := h.number_lt hknown
      exact Nat.ne_of_lt hlt hnumber
    · obtain ⟨b, hb, hfrom⟩ := h.origin hknown
      obtain rfl := hold b hb
      rw [hfrom.info] at hbytes
      exact StubInfo.code_ofProgram_ne hlong hbytes
  have hrest := attach_of_find hfind
  rw [if_neg hnew] at hrest
  have hsize : c.info.dataSize = a.program.dataSize := congrArg FieldType.totalSize htypes
  obtain ⟨bs, happend⟩ := @Attach.appendStub_ok ⟨_, s.chain a.site, #[]⟩ a.program c rfl hend hsize
  exact ⟨c, _, rfl, attach_of_ok (hrest.trans (bind_of_ok happend))⟩

/-! ## Whole histories -/

/-- Whether an answer says that a stub was attached. -/
def isAttached : Except AttachError Decision → Bool
  | .ok .attached => true
  | _ => false

/-- The attempts at a site that were answered with `attached`, in their order. -/
def attachedAt [ClassTable] (site : Nat) (as : List Attempt) : List Attempt :=
  ((as.zip (decisions as {})).filter fun x => x.1.site == site && isAttached x.2).map Prod.fst

theorem length_decisions [ClassTable] (as : List Attempt) (s : Sites) :
    (decisions as s).length = as.length := by
  induction as generalizing s with
  | nil => rfl
  | cons a as ih => rw [decisions, List.length_cons, List.length_cons, ih]

theorem decisions_append [ClassTable] (as : List Attempt) (a : Attempt) (s : Sites) :
    decisions (as ++ [a]) s =
      decisions as s ++ [((as.foldl (fun s a => (s.attach a).2) s).attach a).1] := by
  induction as generalizing s with
  | nil => rfl
  | cons b as ih =>
      rw [List.cons_append, decisions, ih, decisions]
      rfl

theorem attachedAt_append [ClassTable] (site : Nat) (as : List Attempt) (a : Attempt) :
    attachedAt site (as ++ [a]) = attachedAt site as ++
      if a.site == site && isAttached ((after as).attach a).1 then [a] else [] := by
  have hlength : as.length = (decisions as {}).length := (length_decisions as {}).symm
  rw [attachedAt, decisions_append, List.zip_append hlength, List.filter_append, List.map_append,
    attachedAt, after]
  refine congrArg (_ ++ ·) ?_
  rw [List.zip_cons_cons, List.zip_nil_left, List.filter_cons, List.filter_nil]
  split <;> rfl

/-- Every site has one stub for each attempt that was attached there, and no two that are alike if
the programs are short. -/
structure Recorded [ClassTable] (as : List Attempt) (s : Sites) : Prop where
  made : ∀ site, List.Forall₂ (fun a stub => stub.MadeFor a) (attachedAt site as)
    (s.chain site).stubs.toList
  nodup : ∀ site, (∀ a ∈ attachedAt site as, a.program.Short) →
    ((s.chain site).stubs.toList.map Stub.shown).Nodup

theorem recorded_nil [ClassTable] : Recorded [] {} where
  made _ := .nil
  nodup _ _ := .nil

theorem Recorded.congr [ClassTable] {as' : List Attempt} {s s' : Sites} (h : s.Recorded as)
    (hsame : ∀ site, attachedAt site as' = attachedAt site as)
    (hchain : ∀ site, s'.chain site = s.chain site) : s'.Recorded as' where
  made site := by
    rw [hsame, hchain]
    exact h.made site
  nodup site := by
    rw [hsame, hchain]
    exact h.nodup site

theorem Recorded.step [ClassTable] (h : (after as).Recorded as)
    (hexplained : (after as).Explained as) (a : Attempt) : ((after as).attach a).2.Recorded
    (as ++ [a]) := by
  have happend := fun site => attachedAt_append site as a
  have hout := hexplained.outcome a
  revert happend hout
  generalize ((after as).attach a).1 = answer
  generalize ((after as).attach a).2 = s'
  intro happend hout
  have hsame : isAttached answer = false → ∀ site, attachedAt site (as ++ [a]) =
      attachedAt site as := fun hanswer site => by
    rw [happend, hanswer, Bool.and_false]
    exact List.append_nil _
  cases hout with
  | refused => exact h.congr (hsame rfl) fun _ => rfl
  | duplicate _ _ => exact h.congr (hsame rfl) fun _ => rfl
  | failed _ => exact h.congr (hsame rfl) fun _ => rfl
  | @attached stub table hc hnew hmade =>
      refine ⟨fun site => ?_, fun site => ?_⟩ <;> dsimp only <;> by_cases hsite : site = a.site
      · subst hsite
        rw [happend, beq_self_eq_true, setAt_self]
        exact Chain.forall₂_madeFor_append (h.made a.site) hmade
      · rw [happend, beq_false_of_ne (Ne.symm hsite), setAt_of_ne _ _ hsite]
        exact (List.append_nil _).symm ▸ h.made site
      · subst hsite
        rw [happend, beq_self_eq_true, setAt_self]
        intro hshort
        have ha : a.program.Short := hshort a (List.mem_append_right _ List.mem_cons_self)
        refine Chain.nodup_append (h.nodup a.site fun b hb => hshort b (List.mem_append_left _ hb))
          fun stub' hstub' heq => hnew ((hexplained.any_isDuplicate_iff ha hc).mpr ?_)
        exact ⟨stub', hstub', (hmade.covers ha).congr heq⟩
      · rw [happend, beq_false_of_ne (Ne.symm hsite), setAt_of_ne _ _ hsite]
        exact (List.append_nil _).symm ▸ h.nodup site

theorem recorded_after [ClassTable] (as : List Attempt) :
    (after as).Explained as ∧ (after as).Recorded as := by
  induction as using List.reverseRecOn with
  | nil => exact ⟨explained_nil, recorded_nil⟩
  | append_singleton as a ih =>
      rw [after_append]
      exact ⟨ih.1.step a, ih.2.step ih.1 a⟩

/-- Any sequence of attempts, whatever they come to. Following the links of a chain from its first
stub visits one stub for each attempt that was attached to it, in their order, and then the
fallback; no two of these stubs have the same key and data if the length of every program that was
attached fits in 32 bits. An attempt that attaches nothing changes no chain, one that is refused by
the compiler does not change the table either, and for a program whose length fits in 32 bits
`duplicate` is only answered if a stub of the chain has its key and starts with its fields. -/
theorem attach_history [ClassTable] (as : List Attempt) :
    (∀ site, ∃ stubs, ((after as).chain site).Visits ((after as).chain site).first stubs ∧
      ((after as).chain site).stubs.toList = stubs ∧
      List.Forall₂ (fun a stub => stub.MadeFor a) (attachedAt site as) stubs ∧
      ((∀ a ∈ attachedAt site as, a.program.Short) → (stubs.map Stub.shown).Nodup)) ∧
    ∀ a, (((after as).attach a).1 ≠ .ok .attached →
        ((after as).attach a).2.chain = (after as).chain) ∧
      (∀ e, ((after as).attach a).1 = .error (.compile e) →
        ((after as).attach a).2 = after as) ∧
      (a.program.Short → ((after as).attach a).1 = .ok .duplicate →
        ∃ stub ∈ ((after as).chain a.site).stubs, stub.Covers a) := by
  obtain ⟨hexplained, hrecorded⟩ := recorded_after as
  refine ⟨fun site => ⟨_, Chain.Linked.visits (hexplained.linked site), rfl, hrecorded.made site,
    hrecorded.nodup site⟩, fun a => ?_⟩
  have hout := hexplained.outcome a
  exact ⟨hout.chain_eq, fun _ he => (he ▸ hout).eq_of_refused,
    fun ha hd => hexplained.exists_covers ha (hd ▸ hout)⟩

theorem attach_twice_of_not_short [ClassTable] (huse : ¬a.options.useCodeTable = true)
    (hlong : ¬a.program.Short) {code : StubCode} (hcode : a.compiled = .ok code)
    (htypes : (StubInfo.ofProgram a.program a.engine false Layout.stubData).fieldTypes? =
      .ok a.program.fieldTypes) :
    decisions [a, a] {} = [.ok .attached, .ok .attached] ∧
      ∃ x, ((after [a, a]).chain a.site).stubs.toList.map Stub.shown = [x, x] := by
  obtain ⟨c, table, hinfo, hfirst⟩ := explained_nil.attach_of_not_short
    (fun _ hb => absurd hb List.not_mem_nil) huse hlong hcode htypes
  obtain ⟨c', table', hinfo', hsecond⟩ := (explained_nil.step a).attach_of_not_short
    (fun b hb => List.mem_singleton.mp hb) huse hlong hcode htypes
  rw [hfirst] at hsecond
  refine ⟨?_, (c.info.key, a.program.dataBytes), ?_⟩
  · rw [decisions, decisions, decisions, hfirst, hsecond]
  · rw [after, List.foldl_cons, List.foldl_cons, List.foldl_nil, hfirst, hsecond]
    dsimp only
    rw [setAt_self, setAt_self, Chain.map_append fun _ _ => rfl, Chain.map_append fun _ _ => rfl,
      Stub.shown, Stub.shown, hinfo', ← hinfo]
    rfl

end Sites

/-- Attaches a program that is not short and takes no code from the table. -/
def Attempt.overlong : Attempt :=
  ⟨0, .overlong #[], .baseline, ⟨true, false⟩⟩

/-- The second attempt is not seen to repeat the first, and two stubs with the same engine, kind,
bytes and data are left. -/
theorem Sites.attach_overlong_twice :
    Attempt.overlong.program.Built ∧
      decisions [.overlong, .overlong] {} = [.ok .attached, .ok .attached] ∧
      ∃ x, ((after [.overlong, .overlong]).chain Attempt.overlong.site).stubs.toList.map
        Stub.shown = [x, x] := by
  obtain ⟨code, hcode⟩ := exists_compile_constantGuards (2 ^ 31 - 3) #[] ⟨true, false⟩
  exact ⟨Program.built_constantGuards _ _, @attach_twice_of_not_short .overlong _ (by decide)
    (Program.not_short_overlong #[]) code hcode StubInfo.fieldTypes?_overlong⟩

end InlineCache
