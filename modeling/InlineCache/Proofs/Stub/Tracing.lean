import InlineCache.Proofs.Stub.Agreement
import InlineCache.Proofs.Stub.Calls
import InlineCache.Proofs.Stub.Histories

/-!
# Tracing

The collector visits the pointers that stubs hold, and may move what they point to. Whether a field
is visited depends on its type and, for keys and values, on the word that it holds (`Field.IsEdge`).
Tracing a block is tracing its fields one after the other: a field that is an edge gets the word
that the tracer leaves, and all other fields keep theirs (`traceFields_serialize`). A tracer that
keeps a record of its calls shows that it is called once for each edge, in order
(`Tracer.recorded`).

A chain is traced stub by stub. The code, the description and the links stay as they are, so that a
tracer that moves nothing leaves the very same chain (`Chain.trace_edges`). This needs data blocks
that are as long as their descriptions say, as they are in every chain that attaching has made
(`Sites.sized_after`).
-/

namespace InlineCache

open StubInfo (Tracer)

/-! ## Edges -/

/-- The field holds a pointer that the collector has to visit: a field of a pointer type, a key that
is an atom or a symbol, or a value whose tag says that its payload is a pointer. -/
inductive Field.IsEdge : Field → Prop where
  | pointer {t : FieldType} {w : UInt64} :
      t ∈ [.shape, .object, .group, .symbol, .string] → IsEdge ⟨t, w⟩
  | key {w : UInt64} :
      (PropertyKey.mk w).isAtom = true ∨ (PropertyKey.mk w).isSymbol = true → IsEdge ⟨.id, w⟩
  | value {t : ValueType} {w : UInt64} :
      t ∈ [.string, .symbol, .object, .privateGCThing] → (Value.mk w).hasTag t = true →
        IsEdge ⟨.value, w⟩

theorem Value.isGCThing_iff {v : Value} : v.isGCThing = true ↔
    ∃ t ∈ [ValueType.string, .symbol, .object, .privateGCThing], v.hasTag t = true := by
  rw [isGCThing]
  constructor
  · intro h
    refine ⟨v.type, ?_, by rw [hasTag_eq (.inl h), beq_self_eq_true]⟩
    revert h
    cases v.type <;> decide
  · rintro ⟨t, ht, htag⟩
    have hpointer : t.isPointer = true := by
      revert ht
      cases t <;> decide
    rw [hasTag_eq (.inl hpointer), beq_iff_eq] at htag
    rw [htag, hpointer]

theorem Field.holdsGCThing_iff {f : Field} : f.holdsGCThing = true ↔ f.IsEdge := by
  obtain ⟨t, w⟩ := f
  constructor
  · intro h
    cases t with
    | rawWord => cases h
    | rawInt64 => cases h
    | id => exact .key (Bool.or_eq_true_iff.mp h)
    | value =>
        obtain ⟨t, ht, htag⟩ := Value.isGCThing_iff.mp h
        exact .value ht htag
    | shape => exact .pointer (by decide)
    | object => exact .pointer (by decide)
    | group => exact .pointer (by decide)
    | symbol => exact .pointer (by decide)
    | string => exact .pointer (by decide)
  · intro h
    cases h with
    | pointer ht =>
        simp only [List.mem_cons, List.not_mem_nil, or_false] at ht
        rcases ht with rfl | rfl | rfl | rfl | rfl <;> rfl
    | key h => exact Bool.or_eq_true_iff.mpr h
    | value ht htag => exact Value.isGCThing_iff.mpr ⟨_, ht, htag⟩

instance : DecidablePred Field.IsEdge := fun _ => decidable_of_iff _ Field.holdsGCThing_iff

theorem Field.IsEdge.isGC {f : Field} (h : f.IsEdge) : f.type.isGC = true := by
  have hholds := holdsGCThing_iff.mpr h
  obtain ⟨t, w⟩ := f
  cases t with
  | rawWord => cases hholds
  | rawInt64 => cases hholds
  | _ => rfl

/-- The pointers among fields, in their order. -/
def Field.edges (fs : List Field) : List (FieldType × UInt64) :=
  (fs.filter fun f => decide f.IsEdge).map fun f => (f.type, f.word)

/-! ## Tracing fields -/

section
variable {σ : Type}

/-- An edge comes to hold the word that the tracer leaves. -/
def Field.traced (visit : Tracer σ) (f : Field) : StateM σ Field :=
  if f.IsEdge then do return { f with word := ← visit f.type f.word } else return f

/-- The same tracer with a record of what it was called with. -/
def StubInfo.Tracer.recorded (visit : Tracer σ) : Tracer (σ × List (FieldType × UInt64)) :=
  fun t w s => (((visit t w).run s.1).1, ((visit t w).run s.1).2, s.2 ++ [(t, w)])

variable {visit : Tracer σ} {st : σ}

theorem StubInfo.Tracer.run_recorded {t : FieldType} {w : UInt64}
    {seen : List (FieldType × UInt64)} : (visit.recorded t w).run (st, seen) =
      (((visit t w).run st).1, ((visit t w).run st).2, seen ++ [(t, w)]) := rfl

theorem Field.run_traced_of_edge {f : Field} (h : f.IsEdge) : (f.traced visit).run st =
    (⟨f.type, ((visit f.type f.word).run st).1⟩, ((visit f.type f.word).run st).2) := by
  rw [traced, if_pos h]
  rfl

theorem Field.run_traced_of_not_edge {f : Field} (h : ¬f.IsEdge) :
    (f.traced visit).run st = (f, st) := by
  rw [traced, if_neg h]
  rfl

theorem run_mapM_cons {α β : Type} (g : α → StateM σ β) (a : α) (as : List α) (st : σ) :
    ((a :: as).mapM g).run st =
      (((g a).run st).1 :: ((as.mapM g).run ((g a).run st).2).1,
        ((as.mapM g).run ((g a).run st).2).2) := by
  rw [List.mapM_cons]
  rfl

/-- What every step leaves alone is left alone by all of them. -/
theorem map_run_mapM {α β γ : Type} {g : α → StateM σ β} {k : β → γ} {h : α → γ} {as : List α}
    (hstep : ∀ a ∈ as, ∀ st, k ((g a).run st).1 = h a) (st : σ) :
    ((as.mapM g).run st).1.map k = as.map h := by
  induction as generalizing st with
  | nil => rfl
  | cons a as ih =>
      rw [List.forall_mem_cons] at hstep
      rw [run_mapM_cons, List.map_cons, List.map_cons, hstep.1, ih hstep.2]

theorem Field.run_mapM_recorded (fs : List Field) (st : σ) (seen : List (FieldType × UInt64)) :
    (fs.mapM (traced visit.recorded)).run (st, seen) =
      (((fs.mapM (traced visit)).run st).1, ((fs.mapM (traced visit)).run st).2,
        seen ++ edges fs) := by
  induction fs generalizing st seen with
  | nil =>
      rw [show edges [] = [] from rfl, List.append_nil]
      rfl
  | cons f fs ih =>
      rw [run_mapM_cons, run_mapM_cons]
      by_cases hf : f.IsEdge
      · have hedges : edges (f :: fs) = (f.type, f.word) :: edges fs := by simp [edges, hf]
        rw [run_traced_of_edge hf, run_traced_of_edge hf, StubInfo.Tracer.run_recorded, ih, hedges,
          List.append_assoc]
        rfl
      · have hedges : edges (f :: fs) = edges fs := by simp [edges, hf]
        rw [run_traced_of_not_edge hf, run_traced_of_not_edge hf, ih, hedges]

namespace StubInfo

variable {front rest : List UInt8}

/-- One field. What lies around it stays. -/
theorem traceFields_cons (f : Field) (ts : List FieldType) :
    traceFields visit front.length (f.type :: ts) (front ++ (Word.bytes64 f.word ++ rest), st) =
      traceFields visit (front.length + 8) ts
        (front ++ (Word.bytes64 ((f.traced visit).run st).1.word ++ rest),
          ((f.traced visit).run st).2) := by
  rw [traceFields]
  by_cases hf : f.IsEdge
  · rw [if_pos hf.isGC, get_bind]
    simp only [Block.read?_append]
    rw [if_pos (Field.holdsGCThing_iff.mpr hf), Field.run_traced_of_edge hf]
    simp only [Block.write?_append (Word.length_bytes64 _)]
    rfl
  · rw [Field.run_traced_of_not_edge hf]
    by_cases hgc : f.type.isGC = true
    · rw [if_pos hgc, get_bind]
      simp only [Block.read?_append]
      rw [if_neg (mt Field.holdsGCThing_iff.mp hf)]
      rfl
    · rw [if_neg hgc]
      rfl

theorem traceFields_serialize (fs : List Field) :
    traceFields visit front.length (fs.map Field.type)
        (front ++ (Field.serialize fs ++ rest), st) =
      .ok () (front ++ (Field.serialize ((fs.mapM (Field.traced visit)).run st).1 ++ rest),
        ((fs.mapM (Field.traced visit)).run st).2) := by
  induction fs generalizing front st with
  | nil => rfl
  | cons f fs ih =>
      have hnext := @ih (((f.traced visit).run st).2)
        (front ++ Word.bytes64 ((f.traced visit).run st).1.word)
      rw [List.length_append, Word.length_bytes64, List.append_assoc, List.append_assoc] at hnext
      rw [List.map_cons, Field.serialize_cons, List.append_assoc, traceFields_cons, hnext,
        run_mapM_cons, Field.serialize_cons, List.append_assoc]

/-- The fields are traced, and what lies behind them stays. -/
theorem traceData_serialize {info : StubInfo} {fs : List Field}
    (htypes : info.fieldTypes? = .ok (fs.map Field.type)) :
    info.traceData visit (Field.serialize fs ++ rest, st) =
      .ok () (Field.serialize ((fs.mapM (Field.traced visit)).run st).1 ++ rest,
        ((fs.mapM (Field.traced visit)).run st).2) := by
  obtain ⟨hread, hend⟩ := fieldTypes?_eq_ok_iff.mp htypes
  rw [traceData, hread, endTypes, hend]
  exact bind_of_ok (@traceFields_serialize σ visit st [] rest fs)

end StubInfo

/-! ## Fields of a stub -/

theorem Word.exists_bytes64_append {data : List UInt8} (h : 8 ≤ data.length) :
    ∃ w rest, data = bytes64 w ++ rest := by
  rcases data with _ | ⟨b0, _ | ⟨b1, _ | ⟨b2, _ | ⟨b3, _ | ⟨b4, _ | ⟨b5, _ | ⟨b6, _ |
    ⟨b7, rest⟩⟩⟩⟩⟩⟩⟩⟩
  iterate 8 · simp at h
  exact ⟨ofBytes64 b0 b1 b2 b3 b4 b5 b6 b7, rest, by rw [bytes64_ofBytes64]; rfl⟩

/-- Reads fields of these types from the front of a block. -/
def Field.readAll : List FieldType → List UInt8 → List Field
  | [], _ => []
  | t :: ts, data =>
    match Word.take64? data with
    | none => []
    | some (w, rest) => ⟨t, w⟩ :: readAll ts rest

/-- Every block of the right length holds fields of the given types. -/
theorem Field.serialize_readAll {ts : List FieldType} {data : List UInt8}
    (h : data.length = 8 * ts.length) :
    serialize (readAll ts data) = data ∧ (readAll ts data).map Field.type = ts := by
  induction ts generalizing data with
  | nil => exact ⟨(List.length_eq_zero_iff.mp h).symm, rfl⟩
  | cons t ts ih =>
      rw [List.length_cons] at h
      obtain ⟨w, rest, rfl⟩ := Word.exists_bytes64_append (show 8 ≤ data.length by omega)
      rw [List.length_append, Word.length_bytes64] at h
      obtain ⟨hdata, htypes⟩ := @ih rest (by omega)
      simp only [readAll, Word.take64?_bytes64_append, serialize_cons, List.map_cons, hdata, htypes,
        and_self]

namespace Stub

/-- The description can be read, and the data are as long as it says. -/
structure Sized (s : Stub) : Prop where
  readable : s.compiled.info.typesEnd = .ok ()
  length : s.data.length = s.compiled.info.dataSize

/-- The data as the description reads them. -/
def fields (s : Stub) : List Field :=
  Field.readAll s.compiled.info.fieldTypes s.data

/-- All but the content of the data. -/
def frame (s : Stub) : CompiledStub × Link × Nat :=
  (s.compiled, s.next, s.data.length)

/-- The fields are traced one after the other. -/
def traced (visit : Tracer σ) (s : Stub) : StateM σ Stub := do
  return { s with data := Field.serialize (← s.fields.mapM (Field.traced visit)) }

variable {s : Stub}

theorem Sized.serialize_fields (h : s.Sized) : Field.serialize s.fields = s.data ∧
    s.compiled.info.fieldTypes? = .ok (s.fields.map Field.type) := by
  have hlength := h.length
  rw [StubInfo.dataSize, FieldType.totalSize_eq] at hlength
  obtain ⟨hdata, htypes⟩ := Field.serialize_readAll hlength
  exact ⟨hdata, StubInfo.fieldTypes?_eq_ok_iff.mpr ⟨htypes.symm, h.readable⟩⟩

theorem run_traced : (s.traced visit).run st =
    ({ s with data := Field.serialize ((s.fields.mapM (Field.traced visit)).run st).1 },
      ((s.fields.mapM (Field.traced visit)).run st).2) := rfl

theorem Sized.traceData (h : s.Sized) : s.compiled.info.traceData visit (s.data, st) =
    .ok () (((s.traced visit).run st).1.data, ((s.traced visit).run st).2) := by
  obtain ⟨hdata, htypes⟩ := h.serialize_fields
  have htrace := @StubInfo.traceData_serialize σ visit st [] _ _ htypes
  rw [List.append_nil, List.append_nil, hdata] at htrace
  exact htrace

theorem Sized.frame_traced (h : s.Sized) : ((s.traced visit).run st).1.frame = s.frame := by
  -- As many fields as before, so as many bytes.
  have hlength : ((s.fields.mapM (Field.traced visit)).run st).1.length = s.fields.length := by
    have hmap := @map_run_mapM σ _ _ _ (Field.traced visit) (fun _ => ()) (fun _ => ()) s.fields
      (fun _ _ _ => rfl) st
    simpa using congrArg List.length hmap
  rw [frame, frame, run_traced, Field.length_serialize, hlength, ← Field.length_serialize,
    h.serialize_fields.1]

end Stub

namespace Chain

variable {ss : List Stub}

theorem traceStubs_eq_mapM (h : ∀ s ∈ ss, s.Sized) :
    traceStubs visit ss = ss.mapM (Stub.traced visit) := by
  induction ss with
  | nil => rfl
  | cons s ss ih =>
      rw [List.forall_mem_cons] at h
      rw [traceStubs, ih h.2, List.mapM_cons]
      -- All fields are in the block, so the branch for a failed read is never taken.
      simp only [EStateM.run, h.1.traceData]
      rfl

/-- All data blocks are as long as their descriptions say. -/
def Sized (c : Chain) : Prop :=
  ∀ s ∈ c.stubs, s.Sized

variable {c c' : Chain}

theorem Sized.run_trace (h : c.Sized) :
    (c.trace visit).run st = (⟨((c.stubs.toList.mapM (Stub.traced visit)).run st).1.toArray⟩,
      ((c.stubs.toList.mapM (Stub.traced visit)).run st).2) := by
  rw [trace, traceStubs_eq_mapM fun s hs => h s (Array.mem_toList_iff.mp hs)]
  rfl

theorem run_mapM_recorded (ss : List Stub) (st : σ) (seen : List (FieldType × UInt64)) :
    (ss.mapM (Stub.traced visit.recorded)).run (st, seen) =
      (((ss.mapM (Stub.traced visit)).run st).1, ((ss.mapM (Stub.traced visit)).run st).2,
        seen ++ ss.flatMap fun s => Field.edges s.fields) := by
  induction ss generalizing st seen with
  | nil =>
      rw [List.flatMap_nil, List.append_nil]
      rfl
  | cons s ss ih =>
      rw [run_mapM_cons, run_mapM_cons, Stub.run_traced, Stub.run_traced, Field.run_mapM_recorded,
        ih, List.flatMap_cons, List.append_assoc]

theorem totalSize_of_frames {ss ts : List Stub} (h : ss.map Stub.frame = ts.map Stub.frame) :
    totalSize ss = totalSize ts := by
  induction ss generalizing ts with
  | nil => rw [List.map_eq_nil_iff.mp h.symm]
  | cons s ss ih =>
      cases ts with
      | nil => cases h
      | cons t ts =>
          obtain ⟨hframe, hrest⟩ := List.cons.inj h
          have hlength : s.data.length = t.data.length :=
            congrArg (fun x : CompiledStub × Link × Nat => x.2.2) hframe
          rw [totalSize, totalSize, stubSize, stubSize, hlength, ih hrest]

theorem headerAddress_of_frames (h : c'.stubs.toList.map Stub.frame = c.stubs.toList.map Stub.frame)
    (index : Nat) : c'.headerAddress index = c.headerAddress index := by
  have htake : (c'.stubs.toList.take index).map Stub.frame =
      (c.stubs.toList.take index).map Stub.frame := by
    rw [List.map_take, h, List.map_take]
  rw [headerAddress, headerAddress, totalSize_of_frames htake]

theorem Sized.of_frames (hc : c.Sized)
    (h : c'.stubs.toList.map Stub.frame = c.stubs.toList.map Stub.frame) : c'.Sized := by
  intro s hs
  have hmem : s.frame ∈ c.stubs.toList.map Stub.frame := by
    rw [← h]
    exact List.mem_map_of_mem (Array.mem_toList_iff.mpr hs)
  obtain ⟨t, ht, hframe⟩ := List.mem_map.mp hmem
  obtain ⟨hcompiled, hrest⟩ := Prod.mk.inj hframe
  have hsized := hc t (Array.mem_toList_iff.mp ht)
  exact ⟨hcompiled ▸ hsized.readable,
    (Prod.mk.inj hrest).2.symm.trans (hcompiled ▸ hsized.length)⟩

/-- A tracer that leaves every pointer where it was leaves the chain as it was. -/
theorem Sized.run_trace_of_still (h : c.Sized)
    (hstill : ∀ f : Field, f.IsEdge → ∀ st, ((visit f.type f.word).run st).1 = f.word) :
    ((c.trace visit).run st).1 = c := by
  have hfield : ∀ (f : Field) (st : σ), ((f.traced visit).run st).1 = f := by
    intro f st
    by_cases hf : f.IsEdge
    · rw [Field.run_traced_of_edge hf, hstill f hf]
    · rw [Field.run_traced_of_not_edge hf]
  have hfields : ∀ (fs : List Field) (st : σ),
      ((fs.mapM (Field.traced visit)).run st).1 = fs := by
    intro fs st
    simpa using @map_run_mapM σ _ _ _ (Field.traced visit) id id fs (fun f _ => hfield f) st
  have hstub : ∀ s ∈ c.stubs.toList, ∀ st, ((s.traced visit).run st).1 = s := by
    intro s hs st
    have hsized := h s (Array.mem_toList_iff.mp hs)
    rw [Stub.run_traced, hfields, hsized.serialize_fields.1]
  have hstubs : ((c.stubs.toList.mapM (Stub.traced visit)).run st).1 = c.stubs.toList := by
    simpa using @map_run_mapM σ _ _ _ (Stub.traced visit) id id c.stubs.toList hstub st
  rw [h.run_trace, hstubs]

end Chain
end

/-! ## Attached chains -/

theorem Chain.Sized.append {c : Chain} {s : Stub} (hc : c.Sized) (hs : s.Sized) :
    (c.append s).Sized := by
  intro s' hs'
  -- Appending sets a link, which `Stub.Sized` does not look at.
  have hmem : s'.Sized ∈ (c.append s).stubs.toList.map Stub.Sized :=
    List.mem_map_of_mem (Array.mem_toList_iff.mpr hs')
  have hlink : ∀ (t : Stub) (l : Link), ({ t with next := l } : Stub).Sized = t.Sized := fun t l =>
    propext ⟨fun h => ⟨h.readable, h.length⟩, fun h => ⟨h.readable, h.length⟩⟩
  rw [map_append hlink, List.mem_append, List.mem_map, List.mem_singleton] at hmem
  rcases hmem with ⟨t, ht, heq⟩ | heq
  · exact heq ▸ hc t (Array.mem_toList_iff.mp ht)
  · exact heq ▸ hs

theorem Attach.sized_appendStub {p : Program} {c : CompiledStub} {t : AttachState}
    (h : t.chain.Sized) : Ensures (fun _ t' => t'.chain.Sized) (appendStub p c) t
      fun _ t' => t'.chain.Sized := by
  rw [appendStub]
  by_cases hoffset : c.info.dataOffset = Layout.stubData
  · cases hend : c.info.typesEnd with
    | error e =>
        simp only [new_error hoffset hend]
        exact .of_error rfl h
    | ok _ =>
        have hlength : (List.replicate c.info.dataSize (0 : UInt8)).length = c.info.dataSize :=
          List.length_replicate
        simp only [new_ok hoffset hend]
        refine .congr (get_bind _ _) ?_
        rcases Nat.lt_or_ge c.info.dataSize p.dataSize with hsmall | hfits
        · simp only [EStateM.run, Program.fillData_tooSmall (hlength.symm ▸ hsmall)]
          exact .of_error rfl h
        · simp only [EStateM.run, Program.fillData_eq (hlength.symm ▸ hfits)]
          refine .of_ok rfl (h.append ⟨hend, ?_⟩)
          rw [List.length_append, Program.length_dataBytes, List.length_drop, hlength,
            Nat.add_sub_cancel' hfits]
  · have hnew : Stub.new c = .error .headerLayout := if_neg hoffset
    simp only [hnew]
    exact .of_error rfl h

/-- Attaching keeps data blocks as long as their descriptions say, whatever the table holds. -/
theorem Attach.sized_attach [ClassTable] {p : Program} {e : Engine} {o : Options} {t : AttachState}
    (h : t.chain.Sized) : Ensures (fun _ t' => t'.chain.Sized) (attach p e o) t
      fun _ t' => t'.chain.Sized := by
  rcases findOrCompile_cases ⟨0, p, e, o⟩ t with ⟨_, -, hfind⟩ | ⟨c, table, -, hfind⟩
  · exact .of_error (bind_of_error hfind) h
  · refine .bind_ok hfind (.congr (get_bind _ _) ?_)
    by_cases hdup : t.chain.stubs.any (isDuplicate p e c) = true
    · rw [if_pos hdup]
      exact .pure h
    · rw [if_neg hdup]
      have happend : Ensures (fun _ t' => t'.chain.Sized) (appendStub p c)
          { t with table := table } fun _ t' => t'.chain.Sized := sized_appendStub h
      exact .bind (happend.mono (fun _ _ h => h) fun _ _ h => Ensures.pure h)

namespace Sites

theorem sized_attach [ClassTable] {s : Sites} (h : ∀ site, (s.chain site).Sized) (a : Attempt)
    (site : Nat) : ((s.attach a).2.chain site).Sized := by
  have hattach := @Attach.sized_attach _ a.program a.engine a.options
    ⟨s.table, s.chain a.site, #[]⟩ (h a.site)
  have hset : ∀ {c : Chain}, c.Sized → (setAt s.chain a.site c site).Sized := by
    intro c hc
    by_cases hsite : site = a.site
    · subst hsite
      rwa [setAt_self]
    · rw [setAt_of_ne _ _ hsite]
      exact h site
  cases hrun : Attach.attach a.program a.engine a.options ⟨s.table, s.chain a.site, #[]⟩ with
  | ok d t =>
      rw [attach_of_ok hrun]
      exact hset (hattach.of_eq_ok hrun)
  | error e t =>
      rw [attach_of_error hrun]
      exact hset (hattach.of_eq_error hrun)

theorem sized_after [ClassTable] (as : List Attempt) (site : Nat) :
    ((after as).chain site).Sized := by
  induction as using List.reverseRecOn generalizing site with
  | nil => exact fun s hs => absurd hs (by simp [after])
  | append_singleton as a ih =>
      rw [after_append]
      exact sized_attach ih a site

end Sites

/-- A block that holds fields comes to hold the traced fields, and what lies behind them stays. The
tracer is called with the edges among the fields and with nothing else.

A chain is traced stub by stub, each stub with the fields that its description reads. Nothing
changes but the content of the data; code, descriptions and links stay, and so does the address of
every header. If the tracer gives back every pointer that it is shown, the chain stays the same, and
calls of it do. -/
theorem Chain.trace_edges {σ : Type} (visit : Tracer σ) :
    (∀ {info : StubInfo} {fs : List Field}, info.fieldTypes? = .ok (fs.map Field.type) →
      ∀ (rest : List UInt8) (st : σ), ∃ fs' st',
        (fs.mapM (Field.traced visit)).run st = (fs', st') ∧
        info.traceData visit (Field.serialize fs ++ rest, st) =
          .ok () (Field.serialize fs' ++ rest, st') ∧
        ∀ seen, info.traceData visit.recorded (Field.serialize fs ++ rest, st, seen) =
          .ok () (Field.serialize fs' ++ rest, st', seen ++ Field.edges fs)) ∧
    ∀ {c : Chain}, c.Sized → ∀ st : σ, ∃ c' st',
      (c.trace visit).run st = (c', st') ∧
      (c.stubs.toList.mapM (Stub.traced visit)).run st = (c'.stubs.toList, st') ∧
      (∀ seen, (c.trace visit.recorded).run (st, seen) =
        (c', st', seen ++ c.stubs.toList.flatMap fun s => Field.edges s.fields)) ∧
      (∀ s ∈ c.stubs, s.data = Field.serialize s.fields ∧
        s.compiled.info.fieldTypes? = .ok (s.fields.map Field.type)) ∧
      c'.stubs.toList.map Stub.frame = c.stubs.toList.map Stub.frame ∧
      (∀ index, c'.headerAddress index = c.headerAddress index) ∧ c'.Sized ∧
      ((∀ f : Field, f.IsEdge → ∀ st, ((visit f.type f.word).run st).1 = f.word) →
        c' = c ∧ c'.call = c.call) := by
  refine ⟨fun {info fs} htypes rest st => ?_, fun {c} hc st => ?_⟩
  · refine ⟨((fs.mapM (Field.traced visit)).run st).1, ((fs.mapM (Field.traced visit)).run st).2,
      rfl, StubInfo.traceData_serialize htypes, fun seen => ?_⟩
    rw [StubInfo.traceData_serialize htypes, Field.run_mapM_recorded]
  · have hframes : ((c.trace visit).run st).1.stubs.toList.map Stub.frame =
        c.stubs.toList.map Stub.frame := by
      rw [hc.run_trace]
      exact map_run_mapM (fun s hs st => (hc s (Array.mem_toList_iff.mp hs)).frame_traced) st
    refine ⟨((c.trace visit).run st).1, ((c.trace visit).run st).2, rfl, ?_, fun seen => ?_,
      fun s hs => ?_, hframes, headerAddress_of_frames hframes, hc.of_frames hframes,
      fun hstill => ?_⟩
    · rw [hc.run_trace]
      rfl
    · rw [hc.run_trace, hc.run_trace, run_mapM_recorded]
    · obtain ⟨hdata, htypes⟩ := (hc s hs).serialize_fields
      exact ⟨hdata.symm, htypes⟩
    · rw [hc.run_trace_of_still hstill]
      exact ⟨rfl, rfl⟩

/-- Moves shapes and counts its calls. -/
def StubInfo.Tracer.moveShapes : Tracer Nat :=
  fun t w n => (if t = .shape then w + 0x1000 else w, n + 1)

/-- A block with two edges, and a chain of two stubs with one edge each. -/
theorem Chain.trace_edges_slots :
    (∃ data, (StubInfo.ofProgram .mixed .baseline false Layout.stubData).traceData
        Tracer.moveShapes.recorded (Program.mixed.dataBytes, 0, []) =
      .ok () (data, 2, [(.shape, 0x1000), (.id, 0x3000)])) ∧
    (∃ c', (((Sites.after Attempt.slots).chain 0).trace Tracer.moveShapes.recorded).run (0, []) =
      (c', 2, [(.shape, 0x1000), (.shape, 0x1008)])) ∧
    ((((Sites.after Attempt.slots).chain 0).trace fun _ w =>
      (pure w : StateM Nat UInt64)).run 0).1 = (Sites.after Attempt.slots).chain 0 := by
  have hcounts : ((Program.mixed.fields.toList.mapM (Field.traced Tracer.moveShapes)).run 0).2 = 2 ∧
      ((((Sites.after Attempt.slots).chain 0).stubs.toList.mapM
        (Stub.traced Tracer.moveShapes)).run 0).2 = 2 ∧
      ((Sites.after Attempt.slots).chain 0).stubs.toList.flatMap (fun s => Field.edges s.fields) =
        [(.shape, 0x1000), (.shape, 0x1008)] := by decide +kernel
  refine ⟨?_, ?_, ?_⟩
  · obtain ⟨fs', st', hrun, -, hseen⟩ := (trace_edges Tracer.moveShapes).1
      (@StubInfo.fieldTypes?_ofProgram .mixed .baseline false Layout.stubData (by decide)) [] 0
    have hst : st' = 2 := by
      rw [← hcounts.1]
      exact (congrArg Prod.snd hrun).symm
    subst hst
    exact ⟨_, hseen []⟩
  · obtain ⟨c', st', -, hrun, hseen, -⟩ := (trace_edges Tracer.moveShapes).2
      (Sites.sized_after Attempt.slots 0) 0
    have hst : st' = 2 := (congrArg Prod.snd hrun).symm.trans hcounts.2.1
    subst hst
    refine ⟨c', ?_⟩
    rw [hseen [], hcounts.2.2]
    rfl
  · obtain ⟨c', st', hrun, -, -, -, -, -, -, hstill⟩ :=
      (trace_edges fun _ w => (pure w : StateM Nat UInt64)).2 (Sites.sized_after Attempt.slots 0) 0
    rw [hrun]
    exact (hstill fun _ _ _ => rfl).1

end InlineCache
