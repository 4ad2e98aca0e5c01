import InlineCache.Proofs.Codegen.StackRoom
import InlineCache.Proofs.Program.Repetition
import InlineCache.Proofs.Stub.Block

/-!
# How long programs can be

All failure paths stand behind the body, so a body of 2 GiB cannot be laid out if it branches at its
start. Every guard that is not a test of a type branches, whatever is known of its operand. So a
program with `2 ^ 29` of them does not compile (`branching_lt_of_compile`,
`compile_classGuards_ne_ok`).

Nothing bounds a program whose guards are dropped. Its code does not even depend on how many there
are (`exists_compile_constantGuards`). But its description keeps the length in 32 bits, and does not
show the program if that is too little (`code_ofProgram_ne`, `Program.overlong`).
-/

namespace InlineCache

open X64

/-! ## Guards that branch -/

/-- Operations that branch, whatever is known of their operands. -/
def Op.branches (op : Op) : Bool :=
  op.canFail && !op.testsType

theorem X64.Instr.five_le_size {τ : Type} {i : Instr τ} (h : i.target?.isSome = true) :
    5 ≤ i.size := by
  cases i with
  | jmp target => exact Nat.le_refl 5
  | jcc c target => exact Nat.le_succ 5
  | _ => cases h

theorem Snippet.five_le_totalSize {c : Code} (h : branches c = true) :
    5 ≤ Item.totalSize (c.map Item.instr) := by
  obtain ⟨i, hi, htarget⟩ := List.any_eq_true.mp h
  obtain ⟨before, after, rfl⟩ := List.append_of_mem hi
  have hsize := i.five_le_size htarget
  rw [List.map_append, Item.totalSize_append, List.map_cons, Item.totalSize, Item.size]
  omega

namespace Piece

variable {x : Piece} {xs : List Piece} {l : Label}

theorem Fits.branches_eq_true (hx : x.Fits) (hop : x.instruction.op.branches = true) :
    Snippet.branches x.code = true := by
  rw [Op.branches, Bool.and_eq_true, Bool.not_eq_true'] at hop
  rw [hx.branches, Option.isSome_iff_ne_none]
  intro hnone
  have htests := (hx.dropped hop.1 hnone).1
  rw [hop.2] at htests
  cases htests

def numBranching (xs : List Piece) : Nat :=
  xs.countP (·.instruction.op.branches)

theorem totalSize_body_cons (x : Piece) (xs : List Piece) (l : Label) :
    Item.totalSize ((body l (x :: xs)).map Item.instr) =
      Item.totalSize (x.code.map Item.instr) +
        Item.totalSize ((body (l + x.snapshot?.toList.length) xs).map Item.instr) := by
  rw [body, List.map_append, Item.totalSize_append, Snippet.aim, Item.totalSize_map_relabel]

theorem numBranching_le_totalSize (hxs : ∀ x ∈ xs, x.Fits) (l : Label) :
    5 * numBranching xs ≤ Item.totalSize ((body l xs).map Item.instr) := by
  induction xs generalizing l with
  | nil => exact Nat.zero_le _
  | cons x xs ih =>
      obtain ⟨hx, hrest⟩ := List.forall_mem_cons.mp hxs
      have hih := ih hrest (l + x.snapshot?.toList.length)
      rw [numBranching] at hih
      rw [numBranching, List.countP_cons, totalSize_body_cons]
      split
      · next hop =>
          have hsize := Snippet.five_le_totalSize (hx.branches_eq_true hop)
          omega
      · omega

/-- The first branch has to reach over the others. -/
theorem numBranching_lt_of_reaches (hxs : ∀ x ∈ xs, x.Fits) (h : Snippet.Reaches (body l xs)) :
    5 * numBranching xs < 2 ^ 31 + 5 := by
  induction xs generalizing l with
  | nil => decide
  | cons x xs ih =>
      obtain ⟨hx, hrest⟩ := List.forall_mem_cons.mp hxs
      have hnext := ih hrest h.right
      rw [numBranching] at hnext
      rw [numBranching, List.countP_cons]
      split
      · next hop =>
          have hsize := h.size_lt ((Snippet.branches_aim l x.code).trans (hx.branches_eq_true hop))
          have hle := numBranching_le_totalSize hrest (l + x.snapshot?.toList.length)
          rw [numBranching] at hle
          omega
      · omega

end Piece

/-- A program that compiles has fewer guards that branch than code that branches can skip. -/
theorem branching_lt_of_compile [ClassTable] {p : Program} {is : List Instruction}
    (his : p.Represents is) {e : Engine} {inputs : Inputs} {o : Options} {code : StubCode}
    (hc : compile p e inputs o = .ok code) :
    5 * is.countP (·.op.branches) < 2 ^ 31 + 5 := by
  obtain ⟨xs, rfl, hpieces, hreaches, -⟩ := Compile.exists_pieces his hc
  have hlt := Piece.numBranching_lt_of_reaches (fun x hx => (hpieces x hx).1) hreaches
  rwa [List.countP_map]

theorem compile_classGuards_ne_ok [ClassTable] {n : Nat} (hn : 2 ^ 29 ≤ n) (e : Engine)
    (inputs : Inputs) (o : Options) (code : StubCode) :
    compile (.classGuards n) e inputs o ≠ .ok code := by
  intro hc
  have hlt := branching_lt_of_compile (Program.represents_classGuards n) hc
  have hcount : (Instruction.repeating ⟨.guardIsObject, ⟨0⟩, ()⟩ ⟨.guardClass, ⟨0⟩, .array, ()⟩
      n).countP (·.op.branches) = n := by
    rw [Instruction.repeating, List.countP_cons_of_neg (by decide), List.countP_append,
      List.countP_replicate]
    rfl
  rw [hcount] at hlt
  omega

/-- The shape of the program is right, so it is refused for its size. -/
theorem compile_classGuards_error [ClassTable] {n : Nat} (hn : 2 ^ 29 ≤ n) (e : Engine)
    (o : Options) :
    ∃ err, compile (.classGuards n) e (.registers 1 (by decide)) o = .error err ∧
      (err = .emit .stackDepth ∨ ∃ l, err = .labels l) := by
  have h := compile_ensures (Program.represents_classGuards n)
    (show (Inputs.registers 1 (by decide)).sources.length = 1 from rfl) e o
  cases hc : compile (.classGuards n) e (.registers 1 (by decide)) o with
  | ok code => exact absurd hc (compile_classGuards_ne_ok hn e _ o code)
  | error err =>
      rw [hc] at h
      obtain ⟨f, -, hf⟩ | ⟨-, hsize⟩ := h
      · have hwf := @Instruction.wellFormed_repeating ⟨.guardIsObject, ⟨0⟩, ()⟩
          ⟨.guardClass, ⟨0⟩, .array, ()⟩ ⟨rfl, rfl⟩ ⟨rfl, rfl⟩ n
        rw [Instruction.fault?_eq_none_iff.mpr hwf] at hf
        cases hf
      · exact ⟨err, rfl, hsize⟩

/-! ## Guards that are dropped -/

theorem Gen.guardType_dropped {x : OperandId} {t : ValueType} {s : Codegen}
    (hx : x.index < s.alloc.places.size) (hknown : (s.alloc.place x.index).knownType? = some t) :
    guardType x t s = .ok () (s.write [] s.alloc) := by
  refine (bind_of_ok (place_eq hx)).trans ?_
  rw [hknown, Codegen.write_nil]
  dsimp only
  rw [if_neg (fun h => h rfl)]
  rfl

theorem Gen.exists_constantResult {s : Codegen}
    (h : s.alloc.available.contains outputRegister = true) (v : Value) :
    ∃ a, constantResult v s = .ok () (s.write [.movImm outputRegister v.bits] a) ∧
      a.depth = s.alloc.depth := by
  have hreclaim : modifyAllocator (fun a =>
      if a.available.contains outputRegister then a else a.reclaimDead) s = .ok () s := by
    have hsame : (if s.alloc.available.contains outputRegister then s.alloc
        else s.alloc.reclaimDead) = s.alloc := if_pos h
    exact congrArg (fun a => EStateM.Result.ok () { s with alloc := a }) hsame
  have hvacate : vacate outputRegister s = .ok () s := by
    rw [vacate, bind_of_ok (show allocator s = .ok s.alloc s from rfl), if_pos h]
    rfl
  rw [constantResult, allocateFixed]
  exact ⟨{ s.alloc with
      available := s.alloc.available.erase outputRegister
      current := s.alloc.current.insert outputRegister },
    (bind_of_ok ((bind_of_ok hreclaim).trans (bind_of_ok hvacate))).trans rfl, rfl⟩

/-- Moving on changes nothing but the number of the instruction and what it uses. -/
theorem Allocator.exists_iterate_next (a : Allocator) (n : Nat) :
    ∃ current instruction, Nat.iterate nextInstruction n a = { a with current, instruction } := by
  induction n generalizing a with
  | zero => exact ⟨a.current, a.instruction, rfl⟩
  | succ n ih =>
      obtain ⟨current, instruction, h⟩ := ih a.nextInstruction
      exact ⟨current, instruction, h⟩

namespace Compile

variable {p : Program} {field : Nat → Int32} {s : Codegen}

theorem instructions_of_gen [ClassTable] {i : Instruction} (hi : i.Encodable)
    (hcheck : Args.All (fun k a => ∀ o, checkArg p s.alloc k o a = .ok ()) i.op.schema i.args)
    {done : Bool} (hres : (i.isResult && done) = false) {c : Snippet.Code} {a : Allocator}
    (hgen : Gen.instruction field i.op i.args s = .ok () (s.write c a)) (limit offset : Nat)
    (rest : List UInt8) :
    instructions p field (limit + 1) ⟨offset, i.bytes ++ rest⟩ false done s =
      instructions p field limit ⟨offset + i.bytes.length, rest⟩ i.isReturn (done || i.isResult)
        (s.write c a.nextInstruction) := by
  rw [instructions_cons hi hcheck hres, bind_of_ok (gen_eq hgen)]
  rfl

/-- Guards for an operand that is known to be an integer are skipped. -/
theorem instructions_dropped [ClassTable] (hp : 1 < p.numOperands) (hsize : 1 < s.alloc.places.size)
    (hknown : (s.alloc.place 1).knownType? = some .int32) (n limit offset : Nat)
    (rest : List UInt8) :
    instructions p field (limit + n) ⟨offset, (List.replicate n
        (⟨.guardIsInt32, ⟨1⟩, ()⟩ : Instruction)).flatMap Instruction.bytes ++ rest⟩ false false s =
      instructions p field limit ⟨offset + 2 * n, rest⟩ false false
        (s.write [] (Nat.iterate Allocator.nextInstruction n s.alloc)) := by
  induction n generalizing s offset with
  | zero =>
      have hsame : Nat.iterate Allocator.nextInstruction 0 s.alloc = s.alloc := rfl
      rw [hsame, Codegen.write_nil]
      rfl
  | succ n ih =>
      have hguard := @instructions_of_gen p field s _ ⟨.guardIsInt32, ⟨1⟩, ()⟩
        ⟨(by decide : 1 < 256), trivial⟩ ⟨fun _ => if_pos hp, trivial⟩ false rfl _ _
        (Gen.guardType_dropped hsize hknown) (limit + n) offset
      have hoffset : offset + 2 + 2 * n = offset + 2 * (n + 1) := by omega
      rw [List.replicate_succ, List.flatMap_cons, List.append_assoc, ← hoffset]
      refine (hguard _).trans ((@ih (s.write [] s.alloc.nextInstruction) hsize hknown
        (offset + 2)).trans ?_)
      rw [Codegen.write_write]
      rfl

theorem instructions_return [ClassTable] (hdepth : s.alloc.depth = 0) (limit offset : Nat)
    (done : Bool) :
    instructions p field (limit + 1) ⟨offset, [Op.returnFromIC.byte]⟩ false done s =
      .ok true (s.write [.ret] s.alloc.discarded.nextInstruction) := by
  have hreturn := @instructions_of_gen p field s _ ⟨.returnFromIC, ()⟩ trivial trivial done rfl _ _
    Gen.return_eq limit offset []
  rw [hdepth] at hreturn
  exact hreturn.trans (instructions_nil true)

/-- A return of `undefined` where the output register is free and nothing was pushed. -/
theorem instructions_undefined [ClassTable] (h : s.alloc.available.contains outputRegister = true)
    (hdepth : s.alloc.depth = 0) (limit offset : Nat) :
    ∃ a, instructions p field (limit + 2)
      ⟨offset, [Op.loadUndefinedResult.byte, Op.returnFromIC.byte]⟩ false false s =
        .ok true (s.write [.movImm outputRegister Value.undefined.bits, .ret] a) := by
  obtain ⟨a, hgen, ha⟩ := Gen.exists_constantResult h .undefined
  have hresult := @instructions_of_gen p field s _ ⟨.loadUndefinedResult, ()⟩ trivial trivial false
    rfl _ a hgen (limit + 1) offset [Op.returnFromIC.byte]
  have hreturn := @instructions_return p field (s.write [.movImm outputRegister
    Value.undefined.bits] a.nextInstruction) _ (ha.trans hdepth) limit (offset + 1) true
  rw [Codegen.write_write] at hreturn
  exact ⟨_, hresult.trans hreturn⟩

end Compile

theorem compile_eq_ok [ClassTable] {p : Program} {e : Engine} {inputs : Inputs} {o : Options}
    (hin : inputs.sources.length = p.numInputs) {s₁ s₂ : Codegen} {bytes : List UInt8}
    (h₁ : Compile.upTo p inputs p.code.size (.start p e o) = .ok true s₁)
    (h₂ : Compile.gen (Compile.bailouts s₁.bailouts.toList) s₁ = .ok () s₂)
    (hfinish : s₂.asm.finish = .ok bytes) :
    compile p e inputs o = .ok ⟨bytes, s₂.bailouts.toList, s₁.alloc.maxDepth, inputs⟩ := by
  obtain ⟨_, s₀, hinit, hinstr⟩ := exists_of_bind_ok h₁
  have hprogram : Compile.program p inputs (.start p e o) = .ok s₁.alloc.maxDepth s₂ :=
    (bind_of_ok hinit).trans ((bind_of_ok hinstr).trans ((bind_of_ok h₂).trans rfl))
  rw [compile, if_neg (fun h => h hin), EStateM.run, hprogram]
  simp only [hfinish]

/-- Any number of guards for a constant can be compiled. -/
theorem exists_compile_constantGuards [ClassTable] (n : Nat) (fields : Array Field) (o : Options) :
    ∃ code, compile (.constantGuards n fields) .baseline (.registers 1 (by decide)) o =
      .ok code := by
  let p := Program.constantGuards n fields
  have hp : p = .constantGuards n fields := rfl
  let s₀ : Codegen := ⟨{}, { Allocator.new p .baseline with
    origins := #[.valueReg .rdi]
    places := #[.valueReg .rdi, .uninitialized]
    available := Engine.baseline.allocatable.erase .rdi }, o.shareBailouts, #[]⟩
  have hinit : Compile.gen (Compile.initInputs 0 (Inputs.registers 1 (by decide)).places)
      (.start p .baseline o) = .ok () s₀ := rfl
  have hcode : p.code.toList =
      (⟨.loadInt32Constant, ⟨1⟩, 9, ()⟩ : Instruction).bytes ++ ((List.replicate n
        (⟨.guardIsInt32, ⟨1⟩, ()⟩ : Instruction)).flatMap Instruction.bytes ++
          [Op.loadUndefinedResult.byte, Op.returnFromIC.byte]) := by
    rw [hp, Program.constantGuards, Program.repeating, Instruction.repeating, List.flatMap_cons,
      List.flatMap_append]
    rfl
  have hsize : p.code.size = n + 7 + n + 1 := by
    rw [hp, Program.size_code_constantGuards]
    omega
  -- The constant gets its place, the guards are dropped, and the last two instructions write code.
  let a₁ := s₀.alloc.setPlace 1 (.constant (.ofInt32 9))
  have hconstant : Gen.setPlace 1 (.constant (.ofInt32 9)) s₀ = .ok () (s₀.write [] a₁) := by
    rw [Codegen.write_nil]
    rfl
  have hfirst := @Compile.instructions_of_gen p (Compile.displacement p) s₀ _
    ⟨.loadInt32Constant, ⟨1⟩, 9, ()⟩ ⟨(by decide : 1 < 256), trivial, trivial⟩
    ⟨fun _ => rfl, fun _ => rfl, trivial⟩ false rfl [] a₁ hconstant (n + 7 + n) 0
  let s₁ := s₀.write [] a₁.nextInstruction
  have hdropped := @Compile.instructions_dropped p (Compile.displacement p) s₁ _
    (Nat.lt_succ_self 1) (Nat.lt_succ_self 1) rfl n (n + 7) 6
  obtain ⟨current, instruction, hskipped⟩ := s₁.alloc.exists_iterate_next n
  rw [hskipped] at hdropped
  let s₂ := s₁.write [] { s₁.alloc with current, instruction }
  obtain ⟨a, hlast⟩ := @Compile.instructions_undefined p (Compile.displacement p) s₂ _
    (show (Engine.baseline.allocatable.erase .rdi).contains outputRegister = true by decide) rfl
    (n + 5) (6 + 2 * n)
  have hall : Compile.upTo p (.registers 1 (by decide)) p.code.size (.start p .baseline o) =
      .ok true (s₂.write [.movImm outputRegister Value.undefined.bits, .ret] a) := by
    refine (bind_of_ok hinit).trans ?_
    rw [hsize, Cursor.start, hcode]
    exact (hfirst _).trans ((hdropped _).trans hlast)
  exact ⟨_, compile_eq_ok rfl hall rfl rfl⟩

/-! ## Lengths that are cut -/

namespace StubInfo

/-- The description of a program that is not short has fewer bytes than the program. -/
theorem code_ofProgram_ne {p : Program} {e : Engine} {gcCalls : Bool} {offset : Nat}
    (hp : ¬p.Short) :
    (ofProgram p e gcCalls offset).code ≠ p.code.toList := by
  intro h
  have hlength := congrArg List.length h
  have hcut : (ofProgram p e gcCalls offset).codeLength < 2 ^ 32 := by
    rw [codeLength_eq_mod]
    exact Nat.mod_lt _ (by decide)
  rw [code, List.length_take, Array.length_toList] at hlength
  rw [Program.Short] at hp
  omega

end StubInfo

/-- A program with `2 ^ 32 + 2` bytes. In 32 bits that is two, and the third byte is the end mark of
types. -/
def Program.overlong (fields : Array Field) : Program :=
  constantGuards (2 ^ 31 - 3) fields

theorem Program.size_code_overlong (fields : Array Field) :
    (overlong fields).code.size = 2 ^ 32 + 2 :=
  size_code_constantGuards _ fields

theorem Program.not_short_overlong (fields : Array Field) : ¬(overlong fields).Short := by
  rw [Short, size_code_overlong]
  decide

namespace StubInfo

variable {fields : Array Field} {e : Engine} {gcCalls : Bool} {offset : Nat}

theorem codeLength_overlong : (ofProgram (.overlong fields) e gcCalls offset).codeLength = 2 := by
  rw [codeLength_eq_mod, Program.size_code_overlong]
  decide

theorem block_constantGuards (n : Nat) :
    ∃ bs, (ofProgram (.constantGuards n fields) e gcCalls offset).block =
      Op.loadInt32Constant.byte :: 1 :: FieldTag.limit.byte :: bs :=
  ⟨_, rfl⟩

/-- No type of a field is left. -/
theorem fieldTypes?_overlong :
    (ofProgram (.overlong fields) e gcCalls offset).fieldTypes? = .ok [] := by
  obtain ⟨bs, hblock⟩ := @block_constantGuards fields e gcCalls offset (2 ^ 31 - 3)
  rw [fieldTypes?, fieldTypes, typesEnd, codeLength_overlong, Program.overlong, hblock]
  rfl

theorem dataSize_overlong : (ofProgram (.overlong fields) e gcCalls offset).dataSize = 0 := by
  rw [dataSize, (fieldTypes?_eq_ok_iff.mp fieldTypes?_overlong).1]
  rfl

end StubInfo
end InlineCache
