import InlineCache.Proofs.Codegen.Body
import InlineCache.Proofs.Stub.Data
import InlineCache.Stub.Attach

/-!
# What machine code depends on

The compiler reads more of a program than its bytes: how many operands there are, where each is
read last, and how many fields there are and of what types. For a program that was built none of
that is more than what the bytes say (`compile_eq_of_represents`), so the key of a program in the
code table determines its code.

Fields that no instruction names are the one thing that two programs with the same bytes need not
share. The compiler never looks at them.
-/

namespace InlineCache

/-- Two sequences come to the same if their first steps do and what follows does from there. -/
theorem bind_congr_of {ε σ α β : Type} {x y : EStateM ε σ α} {f g : α → EStateM ε σ β} {s : σ}
    (hxy : x s = y s) (hfg : ∀ {a s'}, y s = .ok a s' → f a s' = g a s') :
    (x >>= f) s = (y >>= g) s := by
  cases hy : y s with
  | ok a s' => rw [bind_of_ok (hxy.trans hy), bind_of_ok hy, hfg hy]
  | error e s' => rw [bind_of_error (hxy.trans hy), bind_of_error hy]

/-! ## Arguments -/

/-- Reading arguments that were written either gives them back or fails. -/
theorem Args.eq_of_read_bytes {check : Check} {ks : List ArgKind} {as as' : Args ks}
    {offset : Nat} {rest : List UInt8} {c : Cursor} (h : All ArgKind.Encodable ks as)
    (hread : read check ks ⟨offset, bytes ks as ++ rest⟩ = .ok as' c) :
    as' = as ∧ c = ⟨offset + (bytes ks as).length, rest⟩ := by
  induction ks generalizing offset c with
  | nil =>
      cases hread
      exact ⟨rfl, rfl⟩
  | cons k ks ih =>
      obtain ⟨a, as⟩ := as
      rw [read, get_bind, bytes, List.append_assoc,
        bind_of_ok (ArgKind.read_bytes h.1 offset _)] at hread
      cases hcheck : check k offset a with
      | error e =>
          rw [hcheck] at hread
          cases hread
      | ok _ =>
          rw [hcheck] at hread
          obtain ⟨bs, c₁, htail, hend⟩ := exists_of_bind_ok hread
          obtain ⟨rfl, rfl⟩ := ih h.2 htail
          cases hend
          rw [bytes, List.length_append, Nat.add_assoc]
          exact ⟨rfl, rfl⟩

theorem Args.read_congr {check check' : Check} {ks : List ArgKind} {as : Args ks}
    (h : All ArgKind.Encodable ks as)
    (hcheck : All (fun k a => ∀ o, check k o a = check' k o a) ks as) (offset : Nat)
    (rest : List UInt8) :
    read check ks ⟨offset, bytes ks as ++ rest⟩ = read check' ks ⟨offset, bytes ks as ++ rest⟩ := by
  induction ks generalizing offset with
  | nil => rfl
  | cons k ks ih =>
      obtain ⟨a, as⟩ := as
      rw [read, read, get_bind, get_bind, bytes, List.append_assoc,
        bind_of_ok (ArgKind.read_bytes h.1 offset _), bind_of_ok (ArgKind.read_bytes h.1 offset _),
        hcheck.1 offset]
      cases check' k offset a with
      | error e => rfl
      | ok _ => exact bind_congr_of (ih h.2 hcheck.2 _) fun _ => rfl

/-- The code of an instruction depends on the displacements of the fields that it names. -/
theorem Gen.instruction_congr [ClassTable] {field field' : Nat → Int32} {i : Instruction}
    (h : ∀ index ∈ i.fieldIndices, field index = field' index) :
    Gen.instruction field i.op i.args = Gen.instruction field' i.op i.args := by
  obtain ⟨op, args⟩ := i
  cases op with
  | guardShape | guardGroup | guardSpecificObject | guardSpecificAtom | guardSpecificSymbol
    | guardSpecificId | loadObject | loadFixedSlotResult | loadDynamicSlotResult =>
      obtain ⟨x, index, u⟩ := args
      simp only [Gen.instruction, h index (List.mem_singleton_self index)]
  | loadFixedSlot | loadDynamicSlot =>
      obtain ⟨x, index, y, u⟩ := args
      simp only [Gen.instruction, h index (List.mem_singleton_self index)]
  | loadValueResult | loadDoubleResult =>
      obtain ⟨index, u⟩ := args
      simp only [Gen.instruction, h index (List.mem_singleton_self index)]
  | _ => rfl

/-! ## Programs -/

namespace Compile

variable {p p' : Program} {is before rest : List Instruction}

/-- The compiler cannot tell two programs with the same instructions apart by their fields. -/
theorem checkArg_congr (hp : p.Represents is) (hp' : p'.Represents is) (hkind : p.kind = p'.kind)
    {i : Instruction} (hsplit : is = before ++ i :: rest) (a : Allocator) :
    Args.All (fun k arg => ∀ o, checkArg p a k o arg = checkArg p' a k o arg)
      i.op.schema i.args := by
  have hinputs : p.numInputs = p'.numInputs := congrArg CacheKind.numInputs hkind
  have hoperands : p.numOperands = p'.numOperands := by
    rw [hp.operands, hp'.operands, hinputs]
  refine ((hp.fits hsplit).and (hp'.fits hsplit)).mono fun k arg hboth o => ?_
  obtain ⟨hfits, hfits'⟩ := hboth
  cases k with
  | use => rw [checkArg, checkArg, hoperands]
  | define => rw [checkArg, checkArg, hoperands, hinputs]
  | field t =>
      obtain ⟨f, hf, ht⟩ := hfits
      obtain ⟨f', hf', ht'⟩ := hfits'
      simp only [checkArg, hf, hf', ht, ht']
  | _ => rfl

theorem displacement_congr (hp : p.Represents is) (hp' : p'.Represents is)
    {i : Instruction} (hi : i ∈ is) {index : Nat} (hindex : index ∈ i.fieldIndices) :
    displacement p index = displacement p' index := by
  have hmem := List.mem_flatMap.mpr ⟨i, hi, hindex⟩
  rw [displacement_eq (hp.indices_lt index hmem), displacement_eq (hp'.indices_lt index hmem)]

theorem read_congr {α : Type} {r r' : Read α} {c : Cursor} (h : r c = r' c) (s : Codegen) :
    read r c s = read r' c s := by
  rw [read, read, EStateM.run, EStateM.run, h]

theorem of_read_ok {α : Type} {r : Read α} {c : Cursor} {out : α × Cursor} {s s' : Codegen}
    (h : read r c s = .ok out s') : r c = .ok out.1 out.2 ∧ s' = s := by
  rw [read, EStateM.run] at h
  cases hr : r c with
  | ok a c' =>
      rw [hr] at h
      cases h
      exact ⟨rfl, rfl⟩
  | error e c' =>
      rw [hr] at h
      cases h

theorem instructions_congr [ClassTable] (hp : p.Represents is) (hp' : p'.Represents is)
    (hkind : p.kind = p'.kind) (hsplit : is = before ++ rest) (limit offset : Nat)
    (returned hasResult : Bool) (s : Codegen) :
    instructions p (displacement p) limit ⟨offset, rest.flatMap Instruction.bytes⟩ returned
        hasResult s =
      instructions p' (displacement p') limit ⟨offset, rest.flatMap Instruction.bytes⟩ returned
        hasResult s := by
  induction rest generalizing before limit offset returned hasResult s with
  | nil => rw [List.flatMap_nil, instructions_nil, instructions_nil]
  | cons i rest ih =>
      have hmem : i ∈ is := by simp [hsplit]
      have hgen : Gen.instruction (displacement p) i.op i.args =
          Gen.instruction (displacement p') i.op i.args :=
        Gen.instruction_congr fun index hindex => displacement_congr hp hp' hmem hindex
      obtain _ | limit := limit
      · rfl
      rw [List.flatMap_cons]
      cases returned with
      | true => rw [instructions_afterReturn, instructions_afterReturn]
      | false =>
          cases hres : i.isResult && hasResult with
          | true => rw [instructions_secondResult hres, instructions_secondResult hres]
          | false =>
              have hread := Args.read_congr (hp.encodable i hmem)
                (checkArg_congr hp hp' hkind hsplit s.alloc) (offset + 1)
                (rest.flatMap Instruction.bytes)
              rw [instructions_opcode hres, instructions_opcode hres]
              refine bind_congr_of (read_congr hread s) fun {r s'} hr => ?_
              obtain ⟨hr, rfl⟩ := of_read_ok hr
              obtain ⟨hargs, hnext⟩ := Args.eq_of_read_bytes (hp.encodable i hmem) hr
              rw [hargs, hnext, hgen]
              refine bind_congr_of rfl fun _ => bind_congr_of rfl fun _ => ?_
              exact @ih (before ++ [i]) (by rw [hsplit]; simp) _ _ _ _ _

theorem program_congr [ClassTable] (hp : p.Represents is) (hp' : p'.Represents is)
    (hkind : p.kind = p'.kind) (inputs : Inputs) (s : Codegen) :
    program p inputs s = program p' inputs s := by
  have hcode : p.code = p'.code := Array.toList_inj.mp (hp.code.trans hp'.code.symm)
  rw [program, program]
  refine bind_congr_of rfl fun {u s'} _ => ?_
  rw [← hcode]
  refine bind_congr_of ?_ fun _ => rfl
  rw [hp.code]
  exact instructions_congr hp hp' hkind (List.nil_append is).symm _ _ _ _ _

end Compile

theorem compile_eq_of_represents [ClassTable] {p p' : Program} {is : List Instruction}
    (hp : p.Represents is) (hp' : p'.Represents is) (hkind : p.kind = p'.kind) (e : Engine)
    (inputs : Inputs) (o : Options) : compile p e inputs o = compile p' e inputs o := by
  have hinputs : p.numInputs = p'.numInputs := congrArg CacheKind.numInputs hkind
  have hlast : p.lastUsed = p'.lastUsed := by rw [hp.lastUsed, hp'.lastUsed, hinputs]
  have hstart : Codegen.start p e o = Codegen.start p' e o := by
    rw [Codegen.start, Codegen.start, Allocator.new, Allocator.new, Program.numOperands,
      Program.numOperands, hinputs, hlast]
  rw [compile, compile, hinputs, hkind, hstart, EStateM.run, EStateM.run,
    Compile.program_congr hp hp' hkind]

/-- The key determines the code: the bytes, the bailouts and the room on the stack, or the error. -/
theorem compile_eq_of_key [ClassTable] {p p' : Program} (hp : p.Built) (hp' : p'.Built) {e : Engine}
    (hkey : p.key e = p'.key e) (e' : Engine) (inputs : Inputs) (o : Options) :
    compile p e' inputs o = compile p' e' inputs o := by
  injection hkey with hkind _ hcode
  obtain ⟨is, his⟩ := hp.exists_represents
  obtain ⟨is', his'⟩ := hp'.exists_represents
  obtain rfl := his.unique his' hcode
  exact compile_eq_of_represents his his' hkind e' inputs o

/-- `slotLoad` for another shape and another slot, with a field that nothing names. -/
def Program.otherSlotLoad : Program :=
  { slotLoad with fields := #[⟨.shape, 0x5000⟩, ⟨.rawWord, 40⟩, ⟨.object, 0x6000⟩] }

theorem Program.built_otherSlotLoad : otherSlotLoad.Built := by
  have h₁ := @Built.emit _ _ .guardIsObject [.operand ⟨0⟩] _ (.empty .getProp) rfl
  have h₂ := @Built.emit _ _ .guardShape [.operand ⟨0⟩, .field ⟨.shape, 0x5000⟩] _ h₁ rfl
  have h₃ := @Built.emit _ _ .loadFixedSlotResult [.operand ⟨0⟩, .field ⟨.rawWord, 40⟩] _ h₂ rfl
  have h₄ := @Built.emit _ _ .returnFromIC [] _ h₃ rfl
  exact @Built.addField _ _ ⟨.object, 0x6000⟩ _ h₄ rfl

theorem compile_eq_of_key_slotLoad :
    Program.slotLoad.Built ∧ Program.otherSlotLoad.Built ∧
      Program.slotLoad.key .baseline = Program.otherSlotLoad.key .baseline ∧
      Program.slotLoad.fields ≠ Program.otherSlotLoad.fields ∧
      compile .slotLoad .ionSharedIC (.registers 1 (by decide)) {} =
        compile .otherSlotLoad .ionSharedIC (.registers 1 (by decide)) {} :=
  ⟨Program.built_slotLoad, Program.built_otherSlotLoad, rfl, by decide,
    compile_eq_of_key (e := .baseline) Program.built_slotLoad Program.built_otherSlotLoad rfl
      .ionSharedIC (.registers 1 (by decide)) {}⟩

end InlineCache
