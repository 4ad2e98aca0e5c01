import InlineCache.Proofs.Codegen.Correct
import InlineCache.Proofs.Codegen.Determined
import InlineCache.Proofs.Codegen.Sections
import InlineCache.Proofs.Program.LastUse

/-!
# Liveness

The allocator takes the places of dead operands away without looking at the instructions to come. It
relies on the table of last uses, and on counting the instructions in the same way as the program
did when the table was written. `liveness_exact` says that both are right: the table is exact, and
whenever an instruction starts, its number is the one that the allocator has, and every operand that
there is and that is still to be read has a place.
-/

namespace InlineCache

open X64

theorem follows_true {σ ε α : Type} (x : EStateM ε σ α) (s : σ) :
    Follows x s fun _ _ => True := by
  cases hx : x s with
  | ok a s' => exact Ensures.of_ok hx trivial
  | error err s' => exact Ensures.of_error hx trivial

namespace Compile

variable {p : Program} {field : Nat → Int32} {before is : List Instruction} {done : Bool}
  {s : Codegen}

/-- Nothing is compiled behind a return. -/
theorem instructions_behind_return [ClassTable] {k : Nat} (hk : k ≤ is.length) (offset : Nat) :
    Follows (instructions p field k ⟨offset, is.flatMap Instruction.bytes⟩ true done) s
      fun returned _ => returned = true := by
  obtain _ | k := k
  · exact Ensures.pure rfl
  · obtain _ | ⟨i, is⟩ := is
    · cases hk
    · rw [List.flatMap_cons]
      exact Ensures.of_error instructions_afterReturn trivial

/-- The first instructions have been compiled, if none of them is a return. -/
theorem instructions_progress [ClassTable] {k : Nat} (hp : p.Represents (before ++ is))
    (h : Progress p before done s) (hk : k ≤ is.length) (offset : Nat) :
    Follows (instructions p field k ⟨offset, is.flatMap Instruction.bytes⟩ false done) s
      fun returned s' => returned = false → ∃ done', Progress p (before ++ is.take k) done' s' := by
  induction k generalizing before is done s offset with
  | zero => exact Ensures.pure fun _ => ⟨done, by rwa [List.take_zero, List.append_nil]⟩
  | succ k ih =>
      obtain _ | ⟨i, is⟩ := is
      · cases hk
      have hk' : k ≤ is.length := Nat.le_of_succ_le_succ hk
      rw [List.flatMap_cons]
      cases hres : i.isResult && done with
      | true => exact Ensures.of_error (instructions_secondResult hres) trivial
      | false =>
          refine Ensures.congr (instructions_cons (hp.encodable i (by simp)) (h.checked hp) hres) ?_
          by_cases hret : i.isReturn = true
          · refine (follows_true _ s).bind fun _ s₁ _ => (follows_true _ s₁).bind fun _ s₂ _ => ?_
            rw [hret]
            refine (instructions_behind_return hk' _).mono (fun _ _ _ => trivial) ?_
            rintro returned s' rfl hfalse
            cases hfalse
          · refine Follows.bind (gen_ensures ((h.ensures hp hres hret field).mono
              (fun _ _ _ => trivial) fun _ _ hq => hq)) ?_
            rintro _ _ ⟨c, a, bs, rfl, -, hstep⟩
            refine Ensures.bind_ok rfl ?_
            rw [List.append_cons] at hp
            rw [Bool.not_eq_true _ |>.mp hret, List.take_succ_cons, List.append_cons]
            exact ih hp hstep hk' _

/-- Every instruction starts, if all of them are compiled. -/
theorem exists_of_instructions [ClassTable] {k limit : Nat} {returned : Bool} {s' : Codegen}
    (hencodable : ∀ i ∈ is, i.Encodable) (hk : k < is.length) (offset : Nat)
    (h : instructions p field (k + limit + 1) ⟨offset, is.flatMap Instruction.bytes⟩ false done s =
      .ok returned s') :
    ∃ s₁, instructions p field k ⟨offset, is.flatMap Instruction.bytes⟩ false done s =
      .ok false s₁ := by
  induction k generalizing is done s offset with
  | zero => exact ⟨s, rfl⟩
  | succ k ih =>
      obtain _ | ⟨i, is⟩ := is
      · cases hk
      rw [List.flatMap_cons, Nat.succ_add, Nat.succ_add] at h
      rw [List.flatMap_cons]
      cases hres : i.isResult && done with
      | true =>
          rw [instructions_secondResult hres] at h
          cases h
      | false =>
          rw [instructions_opcode hres] at h ⊢
          obtain ⟨r, s₁, hread, hrest⟩ := exists_of_bind_ok h
          obtain ⟨hargs, rfl⟩ := of_read_ok hread
          obtain ⟨-, hnext⟩ := Args.eq_of_read_bytes (hencodable i (by simp)) hargs
          obtain ⟨_, s₂, hinstr, hrest⟩ := exists_of_bind_ok hrest
          obtain ⟨_, s₃, hmove, hrest⟩ := exists_of_bind_ok hrest
          rw [bind_of_ok hread, bind_of_ok hinstr, bind_of_ok hmove]
          rw [hnext] at hrest ⊢
          cases hret : i.isReturn with
          | true =>
              rw [hret] at hrest
              obtain _ | ⟨j, is⟩ := is
              · simp at hk
              · rw [List.flatMap_cons, instructions_afterReturn] at hrest
                cases hrest
          | false =>
              rw [hret] at hrest
              exact ih (fun j hj => hencodable j (List.mem_cons_of_mem i hj))
                (Nat.lt_of_succ_lt_succ hk) _ hrest

end Compile

namespace Program.Represents

variable {p : Program} {is : List Instruction} {e : Engine} {inputs : Inputs} {o : Options}
  {k : Nat}
  {s : Codegen}

theorem progress_upTo [ClassTable] (hp : p.Represents is)
    (hin : inputs.sources.length = p.numInputs) (hk : k ≤ is.length)
    (h : Compile.upTo p inputs k (.start p e o) = .ok false s) :
    ∃ done, Progress p (is.take k) done s := by
  obtain ⟨a₀, hinit, -, hstart⟩ := Compile.initInputs_start hp hin e o
  have hrun : Compile.instructions p (Compile.displacement p) k (.start p.code.toList) false false
      { Codegen.start p e o with alloc := a₀ } = .ok false s := by
    rw [← h, Compile.upTo, bind_of_ok (Compile.gen_eq hinit)]
  rw [hp.code] at hrun
  exact (Compile.instructions_progress hp hstart hk 0).of_eq_ok hrun rfl

/-- An operand that there is and that is still to be read has a place. -/
theorem place_ne (hp : p.Represents is) {done : Bool} (h : Progress p (is.take k) done s)
    (hk : k ≤ is.length) {x : OperandId}
    (hx : x.index < p.numInputs ∨ x ∈ (is.take k).flatMap Instruction.definedIds)
    (hused : x ∈ (is.drop k).flatMap Instruction.usedIds) :
    s.alloc.place x.index ≠ .uninitialized := by
  refine h.inv.sound.placed (hp.index_lt (List.take_append_drop k is).symm hx) ?_
  have hread : ¬ p.lastUsed.getD x.index 0 < k := Nat.not_lt.mpr (hp.le_lastUsed hused)
  rw [Allocator.isDead, h.lastUsed, h.inv.instruction, List.length_take, Nat.min_eq_left hk,
    decide_eq_false hread, Bool.and_false]

theorem exists_upTo_of_compile [ClassTable] (hp : p.Represents is) {code : StubCode}
    (h : compile p e inputs o = .ok code) (hk : k < is.length) :
    ∃ s, Compile.upTo p inputs k (.start p e o) = .ok false s := by
  obtain ⟨s₁, -, hall, -⟩ := Compile.exists_of_compile h
  obtain ⟨_, s₀, hinit, hrun⟩ := exists_of_bind_ok hall
  have hlong : is.length ≤ p.code.size := by
    rw [← Array.length_toList, hp.code]
    exact Instruction.length_le_flatMap is
  obtain ⟨limit, hlimit⟩ : ∃ limit, p.code.size = k + limit + 1 := ⟨p.code.size - k - 1, by omega⟩
  rw [hlimit, hp.code] at hrun
  obtain ⟨s, hs⟩ := Compile.exists_of_instructions hp.encodable hk 0 hrun
  refine ⟨s, ?_⟩
  rw [Compile.upTo, bind_of_ok hinit, hp.code]
  exact hs

end Program.Represents

namespace Program

/-- The table of last uses is exact: behind its definition an operand is dead exactly if no
instruction from there on reads it. When an instruction is about to be compiled, the allocator knows
its number, and the operands that there are and that are still to be read have places. If a program
compiles, this is so for all of its instructions. -/
theorem liveness_exact [ClassTable] {kind : CacheKind} {ss : List BuildStep} {p : Program}
    (h : build ss (.empty kind) = .ok () p) :
    ∃ is, Instruction.decode p.code.toList = .ok is ∧
      (∀ x c, (x.index < p.numInputs ∧ 0 < c ∨
          x ∈ (is.take c).flatMap Instruction.definedIds) →
        p.isDead? x c = some (decide (x ∉ (is.drop c).flatMap Instruction.usedIds))) ∧
      ∀ e inputs o, inputs.sources.length = p.numInputs → ∀ k < is.length,
        (∀ s, Compile.upTo p inputs k (.start p e o) = .ok false s →
          s.alloc.instruction = k ∧
          ∀ x, (x.index < p.numInputs ∨ x ∈ (is.take k).flatMap Instruction.definedIds) →
            x ∈ (is.drop k).flatMap Instruction.usedIds →
            s.alloc.place x.index ≠ .uninitialized) ∧
        ∀ code, compile p e inputs o = .ok code →
          ∃ s, Compile.upTo p inputs k (.start p e o) = .ok false s := by
  obtain ⟨is, his⟩ := exists_records h
  have hp := his.represents
  refine ⟨is, hp.decode, fun x c => hp.isDead?_eq, fun e inputs o hin k hk =>
    ⟨fun s hs => ?_, fun code hc => hp.exists_upTo_of_compile hc hk⟩⟩
  obtain ⟨done, hprogress⟩ := hp.progress_upTo hin (Nat.le_of_lt hk) hs
  refine ⟨?_, fun x => hp.place_ne hprogress (Nat.le_of_lt hk)⟩
  rw [hprogress.inv.instruction, List.length_take, Nat.min_eq_left (Nat.le_of_lt hk)]

/-- What `sumSteps` builds. The object that is loaded is never read. -/
def sum : Program where
  kind := .binaryArith
  code := #[Op.loadInt32Constant.byte, 2, 0xF9, 0xFF, 0xFF, 0xFF, Op.loadObject.byte, 3, 1,
    Op.int32AddResult.byte, 0, 2, Op.returnFromIC.byte]
  lastUsed := #[2, 0, 2, 1]
  fields := #[⟨.rawWord, 8⟩, ⟨.object, 0x2000⟩]
  numInstructions := 4

theorem liveness_exact_sum :
    build Instruction.sumSteps (.empty .binaryArith) = .ok () sum ∧
      sum.isDead? ⟨3⟩ 2 = some true ∧ sum.isDead? ⟨2⟩ 2 = some false ∧
      sum.isDead? ⟨2⟩ 3 = some true ∧
      ∃ s, Compile.upTo sum (.registers 2 (by decide)) 2 (.start sum .ionSharedIC {}) =
          .ok false s ∧
        s.alloc.instruction = 2 ∧ s.alloc.place 2 ≠ .uninitialized := by
  have hbuild : build Instruction.sumSteps (.empty .binaryArith) = .ok () sum := rfl
  have hcompile : (compile sum .ionSharedIC (.registers 2 (by decide)) {}).isOk = true := by
    decide +kernel
  obtain ⟨is, hdecode, hdead, hlive⟩ := liveness_exact hbuild
  cases hdecode
  obtain ⟨hstarts, hreach⟩ := hlive .ionSharedIC (.registers 2 (by decide)) {} rfl 2 (by decide)
  cases hc : compile sum .ionSharedIC (.registers 2 (by decide)) {} with
  | error err =>
      rw [hc] at hcompile
      cases hcompile
  | ok code =>
      obtain ⟨s, hs⟩ := hreach code hc
      obtain ⟨hnumber, hplaces⟩ := hstarts s hs
      exact ⟨hbuild, hdead ⟨3⟩ 2 (by decide), hdead ⟨2⟩ 2 (by decide), hdead ⟨2⟩ 3 (by decide), s,
        hs, hnumber, hplaces ⟨2⟩ (by decide) (by decide)⟩

end Program
end InlineCache
