import InlineCache.Proofs.Codegen.Correct
import InlineCache.Proofs.Codegen.Determined
import InlineCache.Proofs.Stub.Block

/-!
# Histories of attaching

Several sites share one code table, and programs are attached to them in some order. The table
hands out code, and the description that goes with it, to every program with the right key, so a
stub may come to run code that was compiled for another program of another site.

A history is *consistent* if programs with the same key have fields of the same types. Then it does
not matter where code comes from. What an attempt comes to is a function of its program and of the
keys and data of the stubs that its site has already (`Attempt.verdict`), the code table does not
occur in it, and every stub is described by the types of its own program. `Explained` is the
invariant that carries this through a history, and `Explained.attach` is the step.
-/

namespace InlineCache

/-- A program that is to be attached to a site. -/
structure Attempt where
  site : Nat
  program : Program
  engine : Engine
  options : Options

/-- Cache sites, by number, and the code table that they share. -/
structure Sites where
  table : CodeTable := {}
  chain : Nat → Chain := fun _ => {}

namespace Sites

/-- Makes an attempt. One that fails may have changed the table. -/
def attach [ClassTable] (s : Sites) (a : Attempt) : Except AttachError Decision × Sites :=
  match Attach.attach a.program a.engine a.options ⟨s.table, s.chain a.site, #[]⟩ with
  | .ok d t => (.ok d, ⟨t.table, setAt s.chain a.site t.chain⟩)
  | .error e t => (.error e, ⟨t.table, setAt s.chain a.site t.chain⟩)

/-- What attempts come to, one after the other. -/
def decisions [ClassTable] : List Attempt → Sites → List (Except AttachError Decision)
  | [], _ => []
  | a :: as, s => (s.attach a).1 :: decisions as (s.attach a).2

/-- The sites after some attempts. -/
def after [ClassTable] (as : List Attempt) : Sites :=
  as.foldl (fun s a => (s.attach a).2) {}

theorem after_append [ClassTable] (as : List Attempt) (a : Attempt) :
    after (as ++ [a]) = ((after as).attach a).2 := by
  rw [after, List.foldl_append]
  rfl

section
variable {s : Sites} {a : Attempt} {t : AttachState}

theorem attach_of_ok [ClassTable] {d : Decision}
    (h : Attach.attach a.program a.engine a.options ⟨s.table, s.chain a.site, #[]⟩ = .ok d t) :
    s.attach a = (.ok d, ⟨t.table, setAt s.chain a.site t.chain⟩) := by
  rw [attach, h]

theorem attach_of_error [ClassTable] {e : AttachError}
    (h : Attach.attach a.program a.engine a.options ⟨s.table, s.chain a.site, #[]⟩ = .error e t) :
    s.attach a = (.error e, ⟨t.table, setAt s.chain a.site t.chain⟩) := by
  rw [attach, h]

end

end Sites

/-! ## What attempts should come to -/

def StubInfo.key (i : StubInfo) : CodeKey :=
  ⟨i.kind, i.engine, i.code⟩

theorem StubInfo.key_ofProgram {p : Program} (hp : p.Short) {e : Engine} {gcCalls : Bool}
    {offset : Nat} : (ofProgram p e gcCalls offset).key = p.key e := by
  rw [key, code_ofProgram hp]
  rfl

/-- What a site shows of its stubs: their keys and their data. -/
abbrev SiteView := List (CodeKey × List UInt8)

namespace Attempt

def key (a : Attempt) : CodeKey :=
  a.program.key a.engine

def inputs (a : Attempt) : Inputs :=
  .registers a.program.numInputs a.program.kind.numInputs_le_two

def compiled [ClassTable] (a : Attempt) : Except CompileError StubCode :=
  compile a.program a.engine a.inputs a.options

/-- Whether the site has this program with these fields. -/
def isIn (a : Attempt) (v : SiteView) : Bool :=
  v.any fun x => decide (x.1 = a.key) && a.program.dataEquals x.2

/-- What an attempt comes to at a site. -/
def verdict [ClassTable] (a : Attempt) (v : SiteView) : Except AttachError Decision :=
  match a.compiled with
  | .error e => .error (.compile e)
  | .ok _ => .ok (if a.isIn v then .duplicate else .attached)

/-- What the sites show after an attempt. -/
def extend [ClassTable] (a : Attempt) (v : Nat → SiteView) : Nat → SiteView :=
  match a.verdict (v a.site) with
  | .ok .attached => setAt v a.site (v a.site ++ [(a.key, a.program.dataBytes)])
  | _ => v

def verdicts [ClassTable] : List Attempt → (Nat → SiteView) → List (Except AttachError Decision)
  | [], _ => []
  | a :: as, v => a.verdict (v a.site) :: verdicts as (a.extend v)

/-- The program is not too large: its length fits in 32 bits, and it has fewer than four million
instructions, or if it is refused, then for its shape. -/
structure Fits [ClassTable] (a : Attempt) : Prop where
  short : a.program.Short
  few : a.program.numInstructions < 2 ^ 22 ∨
    ∀ err, a.compiled = .error err → ∃ f, err = .malformed f

/-- The program was built and is not too large. -/
structure Proper [ClassTable] (a : Attempt) : Prop where
  built : a.program.Built
  fits : a.Fits

/-- Programs with the same key have fields of the same types. -/
def Consistent (as : List Attempt) : Prop :=
  ∀ a ∈ as, ∀ b ∈ as, a.key = b.key → a.program.fieldTypes = b.program.fieldTypes

theorem Consistent.mono {as bs : List Attempt} (h : Consistent bs) (hsub : ∀ a ∈ as, a ∈ bs) :
    Consistent as :=
  fun a ha b hb => h a (hsub a ha) b (hsub b hb)

theorem exists_compiled_of_wellFormed [ClassTable] {a : Attempt} (ha : a.Proper)
    {is : List Instruction} (his : a.program.Represents is) (hwf : Instruction.WellFormed is) :
    ∃ code, a.compiled = .ok code := by
  have hin : a.inputs.sources.length = a.program.numInputs := List.length_replicate
  have h := compile_ensures his hin a.engine a.options
  cases hc : a.compiled with
  | ok code => exact ⟨code, rfl⟩
  | error err =>
      rw [show compile a.program a.engine a.inputs a.options = .error err from hc] at h
      rcases h with ⟨f, -, hf⟩ | ⟨hmany, herr⟩
      · rw [Instruction.fault?_eq_none_iff.mpr hwf] at hf
        cases hf
      · rcases ha.fits.few with hfew | hshape
        · rw [his.count] at hfew
          omega
        · obtain ⟨f, rfl⟩ := hshape err hc
          rcases herr with hdepth | ⟨l, hlabels⟩
          · cases hdepth
          · cases hlabels

/-- Whether a program compiles depends on its key only. -/
theorem exists_compiled [ClassTable] {a b : Attempt} (ha : a.Proper) (hb : b.Proper)
    (hkey : a.key = b.key) {code : StubCode} (hcode : b.compiled = .ok code) :
    ∃ code', a.compiled = .ok code' := by
  obtain ⟨is, his⟩ := ha.built.exists_represents
  obtain ⟨is', his'⟩ := hb.built.exists_represents
  injection hkey with hkind _ hbytes
  obtain rfl := his.unique his' hbytes
  exact exists_compiled_of_wellFormed ha his (correct_of_compile his' hcode).2.1

end Attempt

/-! ## Where code comes from -/

/-- The stub was compiled for an attempt. -/
structure CompiledStub.From [ClassTable] (c : CompiledStub) (a : Attempt) : Prop where
  info : c.info = .ofProgram a.program a.engine false Layout.stubData
  code : a.compiled = .ok c.code

/-- The code was compiled for a program with this key. -/
def CompiledStub.IsFor [ClassTable] (c : CompiledStub) (k : CodeKey) : Prop :=
  ∃ a, c.From a ∧ a.key = k

theorem Program.Short.of_key {a b : Attempt} (h : a.program.Short) (hkey : b.key = a.key) :
    b.program.Short := by
  injection hkey with _ _ hbytes
  rw [Short, ← Array.length_toList, hbytes]
  exact h

/-- A description shows the key that its code was compiled for, if the length fits in it. -/
theorem CompiledStub.IsFor.key [ClassTable] {c : CompiledStub} {a : Attempt} (h : c.IsFor a.key)
    (ha : a.program.Short) : c.info.key = a.key := by
  obtain ⟨b, hfrom, hkey⟩ := h
  rw [hfrom.info, StubInfo.key_ofProgram (ha.of_key hkey), ← hkey]
  rfl

theorem CompiledStub.IsFor.dataOffset [ClassTable] {c : CompiledStub} {k : CodeKey}
    (h : c.IsFor k) : c.info.dataOffset = Layout.stubData := by
  obtain ⟨b, hfrom, -⟩ := h
  rw [hfrom.info]
  rfl

/-- The table after something was compiled. -/
def CodeTable.compiled (t : CodeTable) (a : Attempt) (c : CompiledStub) : CodeTable :=
  let t := { t with numCompiled := t.numCompiled + 1 }
  if a.options.useCodeTable then t.insert a.key c else t

/-- Code that an attempt can have, and the table after that: it is in the table, or it is compiled
now. -/
inductive CodeTable.Supplies [ClassTable] (t : CodeTable) (a : Attempt) (c : CompiledStub) :
    CodeTable → Prop
  where
  | found : (a.key, c) ∈ t.entries → Supplies t a c t
  | fresh : c.From a → c.number = t.numCompiled → Supplies t a c (t.compiled a c)

theorem CodeTable.mem_of_find? {t : CodeTable} {k : CodeKey} {c : CompiledStub}
    (h : t.find? k = some c) : (k, c) ∈ t.entries := by
  obtain ⟨front, rest, hsplit, -⟩ := List.lookup_eq_some_iff.mp h
  rw [hsplit]
  exact List.mem_append_right _ List.mem_cons_self

namespace Attach

variable {a : Attempt} {t : AttachState}

theorem compileStub_eq [ClassTable] {p : Program} {e : Engine} {inputs : Inputs} {o : Options}
    {offset : Nat} {code : StubCode} (h : compile p e inputs o = .ok code) :
    compileStub p e inputs o offset t =
      .ok ⟨t.table.numCompiled, .ofProgram p e false offset, code⟩
        { t with table := { t.table with numCompiled := t.table.numCompiled + 1 } } := by
  rw [compileStub]
  simp only [h]
  rfl

theorem compileStub_error [ClassTable] {p : Program} {e : Engine} {inputs : Inputs} {o : Options}
    {offset : Nat} {err : CompileError} (h : compile p e inputs o = .error err) :
    compileStub p e inputs o offset t = .error (.compile err) t := by
  rw [compileStub]
  simp only [h]
  rfl

theorem findOrCompile_found [ClassTable] (huse : a.options.useCodeTable = true) {c : CompiledStub}
    (hfound : t.table.find? (a.program.key a.engine) = some c) :
    findOrCompile a.program a.engine a.options t = .ok c t := by
  rw [findOrCompile, if_pos huse, get_bind]
  simp only [hfound]
  rfl

theorem findOrCompile_missing [ClassTable] (huse : a.options.useCodeTable = true)
    (hfound : t.table.find? (a.program.key a.engine) = none) :
    findOrCompile a.program a.engine a.options t = (do
      let c ← compileStub a.program a.engine a.inputs a.options Layout.stubData
      modify fun s => { s with table := s.table.insert a.key c }
      return c : Attach CompiledStub) t := by
  rw [findOrCompile, if_pos huse, get_bind]
  simp only [hfound]
  rfl

theorem findOrCompile_unshared [ClassTable] (huse : ¬a.options.useCodeTable = true) :
    findOrCompile a.program a.engine a.options =
      compileStub a.program a.engine a.inputs a.options Layout.stubData := by
  rw [findOrCompile, if_neg huse]
  rfl

theorem findOrCompile_cases [ClassTable] (a : Attempt) (t : AttachState) :
    (∃ e, a.compiled = .error e ∧
      findOrCompile a.program a.engine a.options t = .error (.compile e) t) ∨
    ∃ c table, t.table.Supplies a c table ∧
      findOrCompile a.program a.engine a.options t = .ok c { t with table := table } := by
  by_cases huse : a.options.useCodeTable = true
  · cases hfound : t.table.find? a.key with
    | some c =>
        exact .inr ⟨c, t.table, .found (CodeTable.mem_of_find? hfound),
          findOrCompile_found huse hfound⟩
    | none =>
        cases hc : a.compiled with
        | error e =>
            refine .inl ⟨e, rfl, ?_⟩
            rw [findOrCompile_missing huse hfound]
            exact bind_of_error (compileStub_error hc)
        | ok code =>
            refine .inr ⟨⟨t.table.numCompiled, _, code⟩, _, .fresh ⟨rfl, hc⟩ rfl, ?_⟩
            rw [findOrCompile_missing huse hfound]
            refine (bind_of_ok (compileStub_eq hc)).trans ?_
            rw [CodeTable.compiled, if_pos huse]
            rfl
  · rw [findOrCompile_unshared huse]
    cases hc : a.compiled with
    | error e => exact .inl ⟨e, rfl, compileStub_error hc⟩
    | ok code =>
        refine .inr ⟨⟨t.table.numCompiled, _, code⟩, _, .fresh ⟨rfl, hc⟩ rfl, ?_⟩
        rw [compileStub_eq hc, CodeTable.compiled, if_neg huse]
        rfl

theorem new_ok {c : CompiledStub} (hoffset : c.info.dataOffset = Layout.stubData)
    (hend : c.info.typesEnd = .ok ()) :
    Stub.new c = .ok ⟨c, List.replicate c.info.dataSize 0, .fallback⟩ := by
  rw [Stub.new, if_pos hoffset, hend]

theorem new_error {c : CompiledStub} (hoffset : c.info.dataOffset = Layout.stubData)
    {err : DataError} (hend : c.info.typesEnd = .error err) :
    Stub.new c = .error (.data err) := by
  rw [Stub.new, if_pos hoffset, hend]

theorem appendStub_ok {p : Program} {c : CompiledStub}
    (hoffset : c.info.dataOffset = Layout.stubData) (hend : c.info.typesEnd = .ok ())
    (hsize : c.info.dataSize = p.dataSize) :
    ∃ bs, appendStub p c t = .ok ()
      { t with chain := t.chain.append ⟨c, p.dataBytes, .fallback⟩, barriers := bs } := by
  have hlength : (List.replicate c.info.dataSize (0 : UInt8)).length = p.dataSize :=
    List.length_replicate.trans hsize
  obtain ⟨bs, hfill⟩ := p.fillData_ok hlength t.barriers
  refine ⟨bs, ?_⟩
  rw [appendStub]
  simp only [new_ok hoffset hend]
  rw [get_bind]
  simp only [EStateM.run, hfill]
  rfl

/-- Code for the program that is no duplicate of any other code. -/
theorem isDuplicate_eq {p : Program} {e : Engine} {c : CompiledStub} {stub : Stub}
    (hkey : c.info.key = p.key e)
    (hnumber : stub.compiled.number = c.number → stub.compiled.info.key = c.info.key) :
    isDuplicate p e c stub =
      (decide (stub.compiled.info.key = p.key e) && p.dataEquals stub.data) := by
  have hsame : (stub.compiled.number == c.number || (stub.compiled.info.engine == e &&
      stub.compiled.info.kind == p.kind && stub.compiled.info.code == p.code.toList)) =
        decide (stub.compiled.info.key = p.key e) := by
    rw [Bool.eq_iff_iff]
    simp only [Bool.or_eq_true, Bool.and_eq_true, beq_iff_eq, decide_eq_true_eq]
    constructor
    · rintro (h | ⟨⟨rfl, hkind⟩, hcode⟩)
      · rw [hnumber h, hkey]
      · rw [StubInfo.key, hkind, hcode]
        rfl
    · intro h
      injection h with hkind hengine hcode
      exact .inr ⟨⟨hengine, hkind⟩, hcode⟩
  rw [isDuplicate]
  simp only [hsame]

end Attach

/-! ## Chains -/

namespace Chain

variable {c : Chain} {stub : Stub}

/-- Every stub leads to the one behind it, and the last to the fallback. -/
def Linked (c : Chain) : Prop :=
  ∀ {index : Nat} {stub : Stub}, c.stubs[index]? = some stub →
    stub.next = if index + 1 < c.stubs.size then .stub (index + 1) else .fallback

/-- A new stub changes nothing but the link that leads to it. -/
theorem map_append {β : Type} {f : Stub → β} (hf : ∀ s l, f { s with next := l } = f s) :
    (c.append stub).stubs.toList.map f = c.stubs.toList.map f ++ [f stub] := by
  have hmodify : ∀ (l : List Stub) (n : Nat) (link : Link),
      (l.modify n fun last => { last with next := link }).map f = l.map f := by
    intro l
    induction l with
    | nil => intro n link; cases n <;> rfl
    | cons s l ih =>
        intro n link
        cases n with
        | zero => exact congrArg (· :: l.map f) (hf s link)
        | succ n => exact congrArg (f s :: ·) (ih n link)
  rw [append]
  simp only [Array.toList_push, Array.toList_modify, List.map_append, hmodify, List.map_cons,
    List.map_nil, hf]

theorem mem_append {s : Stub} (h : s ∈ (c.append stub).stubs) :
    s.compiled = stub.compiled ∨ ∃ s' ∈ c.stubs, s'.compiled = s.compiled := by
  have hmem : s.compiled ∈ (c.append stub).stubs.toList.map Stub.compiled :=
    List.mem_map_of_mem (Array.mem_toList_iff.mpr h)
  rw [map_append fun _ _ => rfl, List.mem_append, List.mem_map, List.mem_singleton] at hmem
  rcases hmem with ⟨s', hs', heq⟩ | heq
  · exact .inr ⟨s', Array.mem_toList_iff.mp hs', heq⟩
  · exact .inl heq

theorem Linked.append (h : c.Linked) (stub : Stub) : (c.append stub).Linked := by
  intro index s hs
  have hsize : (c.append stub).stubs.size = c.stubs.size + 1 := by
    simp only [Chain.append, Array.size_push, Array.size_modify]
  rw [hsize]
  simp only [Chain.append, Array.getElem?_push, Array.size_modify, Array.getElem?_modify] at hs
  split at hs
  · next hlast =>
      cases hs
      rw [if_neg (by omega)]
  · next hlast =>
      split at hs
      · next hold =>
          obtain ⟨s', hs', rfl⟩ := Option.map_eq_some_iff.mp hs
          have hlt := (Array.getElem?_eq_some_iff.mp hs').1
          rw [if_pos (by omega)]
          exact congrArg Link.stub (by omega)
      · next hold =>
          have hlt := (Array.getElem?_eq_some_iff.mp hs).1
          rw [h hs, if_pos (by omega), if_pos (by omega)]

end Chain

/-! ## The invariant -/

namespace Sites

/-- Code that is in the table or that a stub runs. -/
def Knows (s : Sites) (c : CompiledStub) : Prop :=
  (∃ k, (k, c) ∈ s.table.entries) ∨ ∃ site, ∃ stub ∈ (s.chain site).stubs, stub.compiled = c

def view (s : Sites) (site : Nat) : SiteView :=
  (s.chain site).stubs.toList.map fun stub => (stub.compiled.info.key, stub.data)

/-- All code was compiled for some attempt of the history, and numbers tell code apart. -/
structure Explained [ClassTable] (as : List Attempt) (s : Sites) : Prop where
  origin : ∀ {c}, s.Knows c → ∃ a ∈ as, c.From a
  number_lt : ∀ {c}, s.Knows c → c.number < s.table.numCompiled
  number : ∀ {c c'}, s.Knows c → s.Knows c' → c.number = c'.number → c = c'
  key : ∀ {k c}, (k, c) ∈ s.table.entries → ∃ a ∈ as, c.From a ∧ a.key = k
  linked : ∀ site, (s.chain site).Linked

theorem explained_nil [ClassTable] : Explained [] {} where
  origin {c} h := by
    rcases h with ⟨k, hk⟩ | ⟨site, stub, hstub, -⟩
    · cases hk
    · simp at hstub
  number_lt {c} h := by
    rcases h with ⟨k, hk⟩ | ⟨site, stub, hstub, -⟩
    · cases hk
    · simp at hstub
  number {c c'} h := by
    rcases h with ⟨k, hk⟩ | ⟨site, stub, hstub, -⟩
    · cases hk
    · simp at hstub
  key {k c} h := by cases h
  linked site {index stub} h := by simp at h

section
variable {s : Sites} {as : List Attempt} {a : Attempt} {c : CompiledStub} {table : CodeTable}

theorem Explained.exists_from [ClassTable] (h : s.Explained as) (hc : s.table.Supplies a c table) :
    ∃ b ∈ as ++ [a], c.From b ∧ b.key = a.key := by
  cases hc with
  | found hmem =>
      obtain ⟨b, hb, hfrom, hkey⟩ := h.key hmem
      exact ⟨b, List.mem_append_left _ hb, hfrom, hkey⟩
  | fresh hfrom _ => exact ⟨a, List.mem_append_right _ (List.mem_singleton_self a), hfrom, rfl⟩

theorem Explained.isFor [ClassTable] (h : s.Explained as) (hc : s.table.Supplies a c table) :
    c.IsFor a.key := by
  obtain ⟨b, -, hfrom, hkey⟩ := h.exists_from hc
  exact ⟨b, hfrom, hkey⟩

theorem Explained.eq_of_number [ClassTable] (h : s.Explained as) (hc : s.table.Supplies a c table)
    {c' : CompiledStub} (hc' : s.Knows c') (hnumber : c'.number = c.number) : c' = c := by
  cases hc with
  | found hmem => exact h.number hc' (.inl ⟨a.key, hmem⟩) hnumber
  | fresh _ hnew =>
      have := h.number_lt hc'
      omega

theorem Explained.supplied [ClassTable] (h : s.Explained as) (hc : s.table.Supplies a c table)
    {chain : Nat → Chain} (hlinked : ∀ site, (chain site).Linked)
    (hchain : ∀ {site stub}, stub ∈ (chain site).stubs → stub.compiled = c ∨
      ∃ stub' ∈ (s.chain site).stubs, stub'.compiled = stub.compiled) :
    Explained (as ++ [a]) ⟨table, chain⟩ := by
  have hentry : ∀ {k c'}, (k, c') ∈ table.entries →
      (k, c') ∈ s.table.entries ∨ k = a.key ∧ c' = c := by
    intro k c' hmem
    cases hc with
    | found _ => exact .inl hmem
    | fresh _ _ =>
        rw [CodeTable.compiled] at hmem
        split at hmem
        · rcases List.mem_cons.mp hmem with heq | hmem
          · cases heq
            exact .inr ⟨rfl, rfl⟩
          · exact .inl (List.mem_filter.mp hmem).1
        · exact .inl hmem
  have hknows : ∀ {c'}, Knows ⟨table, chain⟩ c' → s.Knows c' ∨ c' = c := by
    rintro c' (⟨k, hk⟩ | ⟨site, stub, hstub, rfl⟩)
    · rcases hentry hk with hold | ⟨-, hnew⟩
      · exact .inl (.inl ⟨k, hold⟩)
      · exact .inr hnew
    · rcases hchain hstub with hnew | ⟨stub', hstub', heq⟩
      · exact .inr hnew
      · exact .inl (.inr ⟨site, stub', hstub', heq⟩)
  have hcount : s.table.numCompiled ≤ table.numCompiled ∧ c.number < table.numCompiled := by
    cases hc with
    | found hmem => exact ⟨Nat.le_refl _, h.number_lt (.inl ⟨a.key, hmem⟩)⟩
    | fresh _ hnew =>
        have hnum : (s.table.compiled a c).numCompiled = s.table.numCompiled + 1 := by
          rw [CodeTable.compiled]
          split <;> rfl
        omega
  obtain ⟨b, hb, hfrom, hkey⟩ := h.exists_from hc
  refine ⟨fun {c'} hc' => ?_, fun {c'} hc' => ?_, fun {c₁ c₂} h₁ h₂ hnum => ?_,
    fun {k c'} hmem => ?_, hlinked⟩
  · rcases hknows hc' with hold | rfl
    · obtain ⟨b', hb', hfrom'⟩ := h.origin hold
      exact ⟨b', List.mem_append_left _ hb', hfrom'⟩
    · exact ⟨b, hb, hfrom⟩
  · rcases hknows hc' with hold | rfl
    · exact Nat.lt_of_lt_of_le (h.number_lt hold) hcount.1
    · exact hcount.2
  · rcases hknows h₁ with hold₁ | rfl
    · rcases hknows h₂ with hold₂ | rfl
      · exact h.number hold₁ hold₂ hnum
      · exact h.eq_of_number hc hold₁ hnum
    · rcases hknows h₂ with hold₂ | rfl
      · exact (h.eq_of_number hc hold₂ hnum.symm).symm
      · rfl
  · rcases hentry hmem with hold | ⟨rfl, rfl⟩
    · obtain ⟨b', hb', hfrom', hkey'⟩ := h.key hold
      exact ⟨b', List.mem_append_left _ hb', hfrom', hkey'⟩
    · exact ⟨b, hb, hfrom, hkey⟩

/-- A new stub at the end of a chain brings no code but its own. -/
theorem Explained.attached [ClassTable] (h : s.Explained as) {stub : Stub}
    (hc : s.table.Supplies a stub.compiled table) : Explained (as ++ [a])
      ⟨table, setAt s.chain a.site ((s.chain a.site).append stub)⟩ := by
  refine h.supplied hc (fun site => ?_) (fun {site stub'} hstub => ?_)
  · by_cases hsite : site = a.site
    · subst hsite
      rw [setAt_self]
      exact Chain.Linked.append (h.linked a.site) _
    · rw [setAt_of_ne _ _ hsite]
      exact h.linked site
  · by_cases hsite : site = a.site
    · subst hsite
      rw [setAt_self] at hstub
      exact Chain.mem_append hstub
    · rw [setAt_of_ne _ _ hsite] at hstub
      exact .inr ⟨stub', hstub, rfl⟩

theorem Explained.append [ClassTable] (h : s.Explained as) (a : Attempt) :
    s.Explained (as ++ [a]) := by
  refine ⟨fun {c} hc => ?_, h.number_lt, h.number, fun {k c} hmem => ?_, h.linked⟩
  · obtain ⟨b, hb, hfrom⟩ := h.origin hc
    exact ⟨b, List.mem_append_left _ hb, hfrom⟩
  · obtain ⟨b, hb, hfrom⟩ := h.key hmem
    exact ⟨b, List.mem_append_left _ hb, hfrom⟩

theorem attach_of_find [ClassTable] {c : CompiledStub} {t t' : AttachState}
    (h : Attach.findOrCompile a.program a.engine a.options t = .ok c t') :
    Attach.attach a.program a.engine a.options t =
      (if t'.chain.stubs.any (Attach.isDuplicate a.program a.engine c) = true then
        pure .duplicate
      else do
        Attach.appendStub a.program c
        return .attached : Attach Decision) t' := by
  rw [Attach.attach, bind_of_ok h, get_bind]

/-- One attempt: the program is refused, or it is a duplicate, or a stub is to be made. -/
theorem attach_steps [ClassTable] (s : Sites) (a : Attempt) :
    (∃ e, a.compiled = .error e ∧ s.attach a = (.error (.compile e), s)) ∨
    ∃ c table, s.table.Supplies a c table ∧
      ((s.chain a.site).stubs.any (Attach.isDuplicate a.program a.engine c) = true ∧
          s.attach a = (.ok .duplicate, ⟨table, s.chain⟩) ∨
        ¬(s.chain a.site).stubs.any (Attach.isDuplicate a.program a.engine c) = true ∧
          Attach.attach a.program a.engine a.options ⟨s.table, s.chain a.site, #[]⟩ = (do
            Attach.appendStub a.program c
            return .attached : Attach Decision) ⟨table, s.chain a.site, #[]⟩) := by
  rcases Attach.findOrCompile_cases a ⟨s.table, s.chain a.site, #[]⟩ with
    ⟨e, he, hfind⟩ | ⟨c, table, hc, hfind⟩
  · have hattach : Attach.attach a.program a.engine a.options ⟨s.table, s.chain a.site, #[]⟩ =
        .error (.compile e) ⟨s.table, s.chain a.site, #[]⟩ := bind_of_error hfind
    refine .inl ⟨e, he, ?_⟩
    rw [attach_of_error hattach, setAt_eq_self]
  · have hrest := attach_of_find hfind
    refine .inr ⟨c, table, hc, ?_⟩
    by_cases hin : (s.chain a.site).stubs.any (Attach.isDuplicate a.program a.engine c) = true
    · rw [if_pos hin] at hrest
      refine .inl ⟨hin, ?_⟩
      rw [attach_of_ok hrest, setAt_eq_self]
    · rw [if_neg hin] at hrest
      exact .inr ⟨hin, hrest⟩

/-- One attempt in a consistent history. -/
theorem Explained.attach_cases [ClassTable] (h : s.Explained as)
    (hproper : ∀ b ∈ as ++ [a], b.Proper) (hcons : Attempt.Consistent (as ++ [a])) :
    (∃ e, a.compiled = .error e ∧ s.attach a = (.error (.compile e), s)) ∨
    ∃ code c table, a.compiled = .ok code ∧ s.table.Supplies a c table ∧
      (a.isIn (s.view a.site) = true ∧ s.attach a = (.ok .duplicate, ⟨table, s.chain⟩) ∨
        a.isIn (s.view a.site) = false ∧ s.attach a = (.ok .attached,
          ⟨table, setAt s.chain a.site
            ((s.chain a.site).append ⟨c, a.program.dataBytes, .fallback⟩)⟩)) := by
  have hmem : a ∈ as ++ [a] := List.mem_append_right _ (List.mem_singleton_self a)
  have hshort : a.program.Short := (hproper a hmem).fits.short
  rcases s.attach_steps a with ⟨e, he, hattach⟩ | ⟨c, table, hc, hattach⟩
  · exact .inl ⟨e, he, hattach⟩
  · obtain ⟨b, hb, hfrom, hkey⟩ := h.exists_from hc
    obtain ⟨code, hcode⟩ := Attempt.exists_compiled (hproper a hmem) (hproper b hb) hkey.symm
      hfrom.code
    have hdup : (s.chain a.site).stubs.any (Attach.isDuplicate a.program a.engine c) =
        a.isIn (s.view a.site) := by
      rw [Attempt.isIn, view, List.any_map, ← Array.any_toList, Bool.eq_iff_iff, List.any_eq_true,
        List.any_eq_true]
      refine exists_congr fun stub => and_congr_right fun hstub => ?_
      have hknown : s.Knows stub.compiled :=
        .inr ⟨a.site, stub, Array.mem_toList_iff.mp hstub, rfl⟩
      rw [Attach.isDuplicate_eq ((h.isFor hc).key hshort)
        fun hnumber => by rw [h.eq_of_number hc hknown hnumber]]
      rfl
    rw [hdup, Bool.not_eq_true] at hattach
    refine .inr ⟨code, c, table, hcode, hc, hattach.imp_right fun ⟨hin, hrest⟩ => ⟨hin, ?_⟩⟩
    have hend : c.info.typesEnd = .ok () := by
      rw [hfrom.info, StubInfo.typesEnd_ofProgram (hshort.of_key hkey)]
    have hsize : c.info.dataSize = a.program.dataSize := by
      rw [hfrom.info, StubInfo.dataSize_ofProgram (hshort.of_key hkey)]
      exact congrArg FieldType.totalSize (hcons b hb a hmem hkey)
    obtain ⟨bs, happend⟩ := @Attach.appendStub_ok ⟨table, s.chain a.site, #[]⟩ a.program c
      (h.isFor hc).dataOffset hend hsize
    exact attach_of_ok (hrest.trans (bind_of_ok happend))

theorem Explained.attach [ClassTable] (h : s.Explained as) (hproper : ∀ b ∈ as ++ [a], b.Proper)
    (hcons : Attempt.Consistent (as ++ [a])) :
    (s.attach a).2.Explained (as ++ [a]) ∧ (s.attach a).1 = a.verdict (s.view a.site) ∧
      (s.attach a).2.view = a.extend s.view := by
  rcases h.attach_cases hproper hcons with
    ⟨e, he, hattach⟩ | ⟨code, c, table, hcode, hc, ⟨hin, hattach⟩ | ⟨hin, hattach⟩⟩
  · have hverdict : a.verdict (s.view a.site) = .error (.compile e) := by
      rw [Attempt.verdict, he]
    rw [hattach, Attempt.extend, hverdict]
    exact ⟨h.append a, rfl, rfl⟩
  · have hverdict : a.verdict (s.view a.site) = .ok .duplicate := by
      rw [Attempt.verdict, hcode, hin]
      rfl
    rw [hattach, Attempt.extend, hverdict]
    exact ⟨h.supplied hc h.linked fun hstub => .inr ⟨_, hstub, rfl⟩, rfl, rfl⟩
  · have hverdict : a.verdict (s.view a.site) = .ok .attached := by
      rw [Attempt.verdict, hcode, hin]
      rfl
    rw [hattach, Attempt.extend, hverdict]
    refine ⟨@Explained.attached s as a table _ h ⟨c, _, .fallback⟩ hc, rfl, ?_⟩
    have hshort : a.program.Short :=
      (hproper a (List.mem_append_right _ (List.mem_singleton_self a))).fits.short
    funext site
    dsimp only
    by_cases hsite : site = a.site
    · subst hsite
      rw [setAt_self, view]
      simp only [setAt_self]
      rw [Chain.map_append fun _ _ => rfl, (h.isFor hc).key hshort]
      rfl
    · rw [setAt_of_ne _ _ hsite, view]
      simp only [setAt_of_ne _ _ hsite]
      rfl

/-- A whole history. -/
theorem Explained.run [ClassTable] {done : List Attempt} (h : s.Explained done)
    (hproper : ∀ b ∈ done ++ as, b.Proper) (hcons : Attempt.Consistent (done ++ as)) :
    (as.foldl (fun s a => (s.attach a).2) s).Explained (done ++ as) ∧
      decisions as s = Attempt.verdicts as s.view ∧
      (as.foldl (fun s a => (s.attach a).2) s).view = as.foldl (fun v a => a.extend v) s.view := by
  induction as generalizing s done with
  | nil =>
      rw [List.append_nil]
      exact ⟨h, rfl, rfl⟩
  | cons a as ih =>
      rw [List.append_cons] at hproper hcons ⊢
      have hsub : ∀ b ∈ done ++ [a], b ∈ done ++ [a] ++ as := fun b hb =>
        List.mem_append_left _ hb
      obtain ⟨hnext, hdecision, hview⟩ :=
        h.attach (fun b hb => hproper b (hsub b hb)) (hcons.mono hsub)
      obtain ⟨hlast, hdecisions, hviews⟩ := ih hnext hproper hcons
      rw [hview] at hdecisions hviews
      refine ⟨hlast, ?_, hviews⟩
      rw [decisions, hdecision, hdecisions, Attempt.verdicts]

end

theorem explained_after [ClassTable] {as : List Attempt} (hproper : ∀ a ∈ as, a.Proper)
    (hcons : Attempt.Consistent as) : (after as).Explained as :=
  (explained_nil.run hproper hcons).1

end Sites
end InlineCache
