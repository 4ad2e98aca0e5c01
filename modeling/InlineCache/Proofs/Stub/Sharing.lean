import InlineCache.Proofs.Listing.Parsed
import InlineCache.Proofs.Stub.Attempts

/-!
# Shared descriptions

Stubs with the same key share their code and its description. In a consistent history the
description of a stub always fits: it has the types of the fields of the program that was attached,
its data is as long as they are, and the fields can be read back through it (`attach_describes`).
Nobody can tell from what attempts come to whether there is a code table.

Consistency is needed, because the key of a program says nothing about fields that no instruction
names, and a listing may declare such fields. The first program with a key decides how much data
all later ones get and which of it the collector visits (`attach_inconsistent`).
-/

namespace InlineCache

/-- The same attempt without the code table. -/
def Attempt.withoutTable (a : Attempt) : Attempt :=
  { a with options := { a.options with useCodeTable := false } }

/-- What attempts come to does not depend on the code table. -/
theorem Attempt.verdicts_withoutTable [ClassTable] (as : List Attempt) (v : Nat → SiteView) :
    verdicts (as.map withoutTable) v = verdicts as v := by
  induction as generalizing v with
  | nil => rfl
  | cons a as ih =>
      rw [List.map_cons, verdicts, verdicts]
      exact congrArg (a.verdict (v a.site) :: ·) (ih (a.extend v))

theorem Attempt.Consistent.withoutTable {as : List Attempt} (h : Consistent as) :
    Consistent (as.map Attempt.withoutTable) := by
  intro a ha b hb hkey
  obtain ⟨a', ha', rfl⟩ := List.mem_map.mp ha
  obtain ⟨b', hb', rfl⟩ := List.mem_map.mp hb
  exact h a' ha' b' hb' hkey

theorem Sites.decisions_withoutTable [ClassTable] {as : List Attempt} (hproper : ∀ a ∈ as, a.Proper)
    (hcons : Attempt.Consistent as) :
    decisions as {} = decisions (as.map Attempt.withoutTable) {} := by
  have hproper' : ∀ a ∈ as.map Attempt.withoutTable, a.Proper := by
    intro a ha
    obtain ⟨b, hb, rfl⟩ := List.mem_map.mp ha
    exact ⟨(hproper b hb).built, (hproper b hb).fits.short, (hproper b hb).fits.few⟩
  rw [(explained_nil.run hproper hcons).2.1, (explained_nil.run hproper' hcons.withoutTable).2.1,
    Attempt.verdicts_withoutTable]

/-- The stub was made for a program: it describes and holds the fields of the program. -/
structure Stub.Describes (stub : Stub) (p : Program) : Prop where
  types : stub.compiled.info.fieldTypes? = .ok p.fieldTypes
  length : stub.data.length = p.dataSize
  field : ∀ {index : Nat} {f : Field}, p.fields[index]? = some f →
    stub.compiled.info.field stub.data index = .ok (some f)

theorem Stub.describes_of_from [ClassTable] {c : CompiledStub} {a : Attempt} {p : Program}
    {next : Link} (hc : c.From a) (ha : a.program.Short)
    (htypes : a.program.fieldTypes = p.fieldTypes) :
    Stub.Describes ⟨c, p.dataBytes, next⟩ p where
  types := by rw [hc.info, StubInfo.fieldTypes?_ofProgram ha, htypes]
  length := p.length_dataBytes
  field {index f} hf := by
    rw [hc.info]
    exact StubInfo.field_ofProgram ha htypes List.prefix_rfl hf

theorem attach_describes [ClassTable] {as : List Attempt}
    (hparsed : ∀ a ∈ as, ∃ text, Listing.parse text = .ok a.program)
    (hfits : ∀ a ∈ as, a.Fits) (hcons : Attempt.Consistent as) :
    Sites.decisions as {} = Sites.decisions (as.map Attempt.withoutTable) {} ∧
      ∀ {before a after code}, as = before ++ a :: after → a.compiled = .ok code →
        ((Sites.after before).attach a).1 = .ok .duplicate ∨
        ((Sites.after before).attach a).1 = .ok .attached ∧
          ∃ stub, (((Sites.after before).attach a).2.chain a.site).stubs.back? = some stub ∧
            stub.Describes a.program := by
  have hproper : ∀ a ∈ as, a.Proper := by
    intro a ha
    obtain ⟨text, htext⟩ := hparsed a ha
    exact ⟨Listing.built_of_parse htext, hfits a ha⟩
  refine ⟨Sites.decisions_withoutTable hproper hcons, fun {before a after code} hsplit hcode => ?_⟩
  have hsub : ∀ b ∈ before ++ [a], b ∈ as := by
    intro b hb
    rw [hsplit, List.append_cons]
    exact List.mem_append_left _ hb
  have hcons' := hcons.mono hsub
  have hexplained : (Sites.after before).Explained before :=
    Sites.explained_after (fun b hb => hproper b (hsub b (List.mem_append_left _ hb)))
      (hcons'.mono fun b hb => List.mem_append_left _ hb)
  rcases hexplained.attach_cases (fun b hb => hproper b (hsub b hb)) hcons' with
    ⟨e, he, -⟩ | ⟨_, c, table, -, hc, ⟨-, hattach⟩ | ⟨-, hattach⟩⟩
  · cases hcode.symm.trans he
  · rw [hattach]
    exact .inl rfl
  · obtain ⟨b, hb, hfrom, hkey⟩ := hexplained.exists_from hc
    have htypes : b.program.fieldTypes = a.program.fieldTypes :=
      hcons' b hb a (List.mem_append_right _ (List.mem_singleton_self a)) hkey
    rw [hattach]
    refine .inr ⟨rfl, ⟨c, a.program.dataBytes, .fallback⟩, ?_,
      Stub.describes_of_from hfrom (hfits b (hsub b hb)).short htypes⟩
    dsimp only
    rw [setAt_self, Chain.append, Array.back?_push]

/-! ## Two histories -/

/-- Returns a constant. -/
def Program.constant (w : UInt64) : Program where
  kind := .getProp
  code := #[Op.loadValueResult.byte, 0, Op.returnFromIC.byte]
  lastUsed := #[0]
  fields := #[⟨.value, w⟩]
  numInstructions := 2

/-- What is reported of an attempt. -/
def Decision.shown : Except AttachError Decision → Option String
  | .ok d => some d.name
  | .error e => e.message?

/-- Two constants at two sites. Their fields differ and have the same type. -/
def Attempt.constants : List Attempt :=
  [⟨0, .constant 5, .baseline, {}⟩, ⟨1, .constant 6, .baseline, {}⟩]

theorem attach_describes_constants :
    Sites.decisions Attempt.constants {} =
        Sites.decisions (Attempt.constants.map Attempt.withoutTable) {} ∧
      ∃ stub, (((Sites.after [⟨0, .constant 5, .baseline, {}⟩]).attach
          ⟨1, .constant 6, .baseline, {}⟩).2.chain 1).stubs.back? = some stub ∧
        stub.Describes (.constant 6) := by
  have hparsed : ∀ a ∈ Attempt.constants, ∃ text, Listing.parse text = .ok a.program := by
    have hparse : ∀ {text p}, (Listing.parse text).toOption = some p →
        Listing.parse text = .ok p := by
      intro text p h
      cases hparse : Listing.parse text <;> rw [hparse] at h <;> cases h
      rfl
    simp only [Attempt.constants, List.forall_mem_cons]
    refine ⟨⟨"GetProp(%0)\nLoadValueResult #0\nReturnFromIC\nfields:\n#0 Value 0x5",
        hparse (by decide +kernel)⟩,
      ⟨"GetProp(%0)\nLoadValueResult #0\nReturnFromIC\nfields:\n#0 Value 0x6",
        hparse (by decide +kernel)⟩, by simp⟩
  have hcons : Attempt.Consistent Attempt.constants := by
    simp only [Attempt.Consistent, Attempt.constants, List.forall_mem_cons]
    decide
  have hcode : ∃ code, Attempt.compiled ⟨1, .constant 6, .baseline, {}⟩ = .ok code := by
    have hok : (Attempt.compiled ⟨1, .constant 6, .baseline, {}⟩).isOk = true := by decide +kernel
    cases h : Attempt.compiled ⟨1, .constant 6, .baseline, {}⟩ with
    | error e =>
        rw [h] at hok
        cases hok
    | ok code => exact ⟨code, rfl⟩
  obtain ⟨code, hcode⟩ := hcode
  have hfew : ∀ a ∈ Attempt.constants, a.program.numInstructions < 2 ^ 22 := by decide
  have hshort : ∀ a ∈ Attempt.constants, a.program.Short := by decide
  have h := attach_describes hparsed (fun a ha => ⟨hshort a ha, .inl (hfew a ha)⟩) hcons
  refine ⟨h.1, ?_⟩
  rcases @h.2 [⟨0, .constant 5, .baseline, {}⟩] _ [] code rfl hcode with hdup | ⟨-, hstub⟩
  · have hattached : Decision.shown ((Sites.after [⟨0, .constant 5, .baseline, {}⟩]).attach
        ⟨1, .constant 6, .baseline, {}⟩).1 = some "Attached" := by decide +kernel
    rw [hdup] at hattached
    exact absurd hattached (by decide)
  · exact hstub

/-- Returns `undefined`. No instruction names a field. -/
def Program.undefinedWith (fields : Array Field) : Program where
  kind := .getProp
  code := #[Op.loadUndefinedResult.byte, Op.returnFromIC.byte]
  lastUsed := #[0]
  fields := fields
  numInstructions := 2

/-- Two programs with the same key and other fields, at one site. -/
def Attempt.undefineds (fields fields' : Array Field) : List Attempt :=
  [⟨0, .undefinedWith fields, .baseline, {}⟩, ⟨0, .undefinedWith fields', .baseline, {}⟩]

/-- The second program of a key gets the data block of the first one, which is too small for it,
or a description that tells the collector to leave an object alone. -/
theorem attach_inconsistent :
    (Listing.parse "GetProp(%0)\nLoadUndefinedResult\nReturnFromIC").toOption =
        some (.undefinedWith #[]) ∧
      (Listing.parse "GetProp(%0)\nLoadUndefinedResult\nReturnFromIC\nfields:\n#0 RawWord 0x8"
        ).toOption = some (.undefinedWith #[⟨.rawWord, 8⟩]) ∧
      (Sites.decisions (Attempt.undefineds #[] #[⟨.rawWord, 8⟩]) {}).map Decision.shown =
        [some "Attached", some "stub data too small"] ∧
      (Sites.decisions ((Attempt.undefineds #[] #[⟨.rawWord, 8⟩]).map Attempt.withoutTable) {}).map
        Decision.shown = [some "Attached", some "Attached"] ∧
      ((Sites.after (Attempt.undefineds #[⟨.rawWord, 8⟩] #[⟨.object, 16⟩])).chain 0).stubs.map
        (·.compiled.info.fieldTypes) = #[[.rawWord], [.rawWord]] := by
  refine ⟨?_, ?_, ?_, ?_, ?_⟩ <;> decide +kernel

end InlineCache
