import InlineCache.Proofs.Codegen.Correct
import InlineCache.Proofs.Codegen.Limits

/-!
# Which programs compile

A program that was built compiles exactly if it has the right shape, whatever its operands are
used as. Otherwise it is refused for what is wrong with its shape first. No other error occurs:
operands are alive when they are read, there always is a register, and labels fit together. The
one limit is size, and it takes millions of instructions to reach it.
-/

namespace InlineCache

open Instruction

theorem compile_total [ClassTable] {p : Program} (hp : p.Built) (e : Engine) {inputs : Inputs}
    (hin : inputs.sources.length = p.numInputs) (o : Options) :
    (∃ is, decode p.code.toList = .ok is ∧
      ((∃ code, compile p e inputs o = .ok code) ↔ WellFormed is) ∧
      (¬ WellFormed is →
        ∃ f, compile p e inputs o = .error (.malformed f) ∧ FirstViolation is f)) ∨
    2 ^ 22 ≤ p.numInstructions ∧ (compile p e inputs o = .error (.emit .stackDepth) ∨
      ∃ l, compile p e inputs o = .error (.labels l)) := by
  obtain ⟨is, his⟩ := hp.exists_represents
  have h := compile_ensures his hin e o
  cases hc : compile p e inputs o with
  | ok code =>
      rw [hc] at h
      have hwf := fault?_eq_none_iff.mp h.1
      exact .inl ⟨is, his.decode, ⟨fun _ => hwf, fun _ => ⟨code, rfl⟩⟩, fun hn => absurd hwf hn⟩
  | error err =>
      rw [hc] at h
      obtain ⟨f, rfl, hf⟩ | ⟨hmany, herr⟩ := h
      · have hwf : ¬ WellFormed is := fun hwf => by
          rw [fault?_eq_none_iff.mpr hwf] at hf
          cases hf
        refine .inl ⟨is, his.decode, ⟨fun ⟨code, hcode⟩ => (nomatch hcode), fun h => absurd h hwf⟩,
          fun _ => ⟨f, rfl, firstViolation_of_fault? hf⟩⟩
      · rw [his.count]
        refine .inr ⟨hmany, ?_⟩
        obtain rfl | ⟨l, rfl⟩ := herr
        · exact .inl rfl
        · exact .inr ⟨l, rfl⟩

theorem compile_total_slotLoad :
    Program.slotLoad.Built ∧ (Inputs.registers 1 (by decide)).sources.length =
        Program.slotLoad.numInputs ∧
      ∃ is, decode Program.slotLoad.code.toList = .ok is ∧
        ((∃ code, compile .slotLoad .ionSharedIC (.registers 1 (by decide)) {} = .ok code) ↔
          WellFormed is) ∧
        (¬ WellFormed is → ∃ f,
          compile .slotLoad .ionSharedIC (.registers 1 (by decide)) {} = .error (.malformed f) ∧
            FirstViolation is f) :=
  ⟨Program.built_slotLoad, rfl,
    (compile_total Program.built_slotLoad .ionSharedIC rfl {}).resolve_right fun h =>
      absurd h.1 (by decide)⟩

/-- Nothing is wrong with the shape of half a billion guards, but the first cannot branch over the
others. -/
theorem compile_total_classGuards :
    (Program.classGuards (2 ^ 29)).Built ∧
      (∃ is, decode (Program.classGuards (2 ^ 29)).code.toList = .ok is ∧ WellFormed is) ∧
      ∃ err, compile (.classGuards (2 ^ 29)) .baseline (.registers 1 (by decide)) {} = .error err ∧
        (err = .emit .stackDepth ∨ ∃ l, err = .labels l) := by
  have hregular := Program.regular_classGuards (2 ^ 29)
  obtain ⟨is, hdecode, hwf, -⟩ := hregular.complete
  exact ⟨hregular.built, ⟨is, hdecode, hwf⟩,
    compile_classGuards_error (Nat.le_refl _) .baseline {}⟩

end InlineCache
