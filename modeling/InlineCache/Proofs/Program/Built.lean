import InlineCache.Program.Basic
import InlineCache.Proofs.Program.Encoding
import Mathlib.Data.List.Forall2

/-!
# Programs that were built

A program that only successful steps have appended to is a list of instructions
(`Built.exists_represents`). Its bytes are those of the instructions, every operand is defined
before it is read and defined once, in order, every field that an instruction names exists and has
the type of its place, and no field is named twice. The table of last uses is what reading the
instructions from front to back gives.

Steps that failed are left out on purpose: they may leave the first bytes of an instruction behind.
-/

namespace InlineCache

/-- How many operands instructions define. -/
def Instruction.numDefs : List Instruction → Nat
  | [] => 0
  | i :: is => i.op.numDefs + numDefs is

@[simp]
theorem Instruction.numDefs_cons (i : Instruction) (is : List Instruction) :
    numDefs (i :: is) = i.op.numDefs + numDefs is := rfl

@[simp]
theorem Instruction.numDefs_append (is js : List Instruction) :
    numDefs (is ++ js) = numDefs is + numDefs js := by
  induction is with
  | nil => exact (Nat.zero_add _).symm
  | cons i is ih => rw [List.cons_append, numDefs_cons, numDefs_cons, ih, Nat.add_assoc]

/-! ## What instructions say -/

/-- The field that an argument brings along. -/
def Arg.field? : Arg → Option Field
  | .field f => some f
  | _ => none

namespace ArgKind

/-- What a caller supplied at a place, with the field itself for its index. -/
def supplied? (fields : Array Field) : (k : ArgKind) → k.Decoded → Option Arg
  | .use, x => some (.operand x)
  | .define, _ => none
  | .classKind, c => some (.classKind c)
  | .bool, b => some (.bool b)
  | .int32, i => some (.int32 i)
  | .field _, index => fields[index]?.map .field

def fieldIndex? : (k : ArgKind) → k.Decoded → Option Nat
  | .field _, index => some index
  | _, _ => none

/-- The operand that is read. -/
def used? : (k : ArgKind) → k.Decoded → Option OperandId
  | .use, x => some x
  | _, _ => none

def defined? : (k : ArgKind) → k.Decoded → Option OperandId
  | .define, y => some y
  | _, _ => none

/-- What instruction `n` notes in the table of last uses. -/
def note (n : Nat) : (k : ArgKind) → k.Decoded → Array Nat → Array Nat
  | .use, x, table => table.setIfInBounds x.index n
  | .define, _, table => table.push n
  | _, _, table => table

end ArgKind

namespace Args

/-- What there is to collect at the places of a schema. -/
def collect {β : Type} (f : (k : ArgKind) → k.Decoded → Option β) :
    (ks : List ArgKind) → Args ks → List β
  | [], _ => []
  | k :: ks, (a, as) => (f k a).toList ++ collect f ks as

def note (n : Nat) : (ks : List ArgKind) → Args ks → Array Nat → Array Nat
  | [], _, table => table
  | k :: ks, (a, as), table => note n ks as (k.note n a table)

/-- What is collected comes from an argument. -/
theorem All.of_mem_collect {β : Type} {f : (k : ArgKind) → k.Decoded → Option β}
    {P : (k : ArgKind) → k.Decoded → Prop} {Q : β → Prop} {ks : List ArgKind} {as : Args ks}
    (h : All P ks as) (hf : ∀ k a b, P k a → f k a = some b → Q b) {b : β}
    (hb : b ∈ collect f ks as) : Q b := by
  induction ks with
  | nil => cases hb
  | cons k ks ih =>
      rw [collect, List.mem_append] at hb
      rcases hb with hhead | htail
      · exact hf k as.1 b h.1 (Option.mem_toList.mp hhead)
      · exact ih h.2 htail

end Args

namespace Instruction

/-- The arguments that a caller supplied. -/
def supplied (fields : Array Field) (i : Instruction) : List Arg :=
  Args.collect (ArgKind.supplied? fields) i.op.schema i.args

/-- The indices of the fields that are named. -/
def fieldIndices (i : Instruction) : List Nat :=
  Args.collect ArgKind.fieldIndex? i.op.schema i.args

/-- The operands that are read. -/
def usedIds (i : Instruction) : List OperandId :=
  Args.collect ArgKind.used? i.op.schema i.args

/-- The operands that are defined: none or one. -/
def definedIds (i : Instruction) : List OperandId :=
  Args.collect ArgKind.defined? i.op.schema i.args

/-- The table of last uses after instructions, the first of which is instruction `n`. -/
def noteAll : (n : Nat) → List Instruction → Array Nat → Array Nat
  | _, [], table => table
  | n, i :: is, table => noteAll (n + 1) is (Args.note n i.op.schema i.args table)

theorem noteAll_append (n : Nat) (is js : List Instruction) (table : Array Nat) :
    noteAll n (is ++ js) table = noteAll (n + is.length) js (noteAll n is table) := by
  induction is generalizing n table with
  | nil => rfl
  | cons i is ih =>
      rw [List.cons_append, noteAll, noteAll, ih, List.length_cons, Nat.add_right_comm,
        Nat.add_assoc]

end Instruction

/-- What an argument of instruction `k` has to meet, with `d` operands defined before it. -/
def ArgKind.Fits (p : Program) (k d : Nat) : (kind : ArgKind) → kind.Decoded → Prop
  | .use, x => x.index < d ∧ k ≤ p.lastUsed.getD x.index 0
  | .define, y => y.index = d
  | .field t, index => ∃ f, p.fields[index]? = some f ∧ f.type = t
  | _, _ => True

namespace Program

/-- The program is this list of instructions. -/
structure Represents (p : Program) (is : List Instruction) : Prop where
  code : p.code.toList = is.flatMap Instruction.bytes
  count : p.numInstructions = is.length
  operands : p.numOperands = p.numInputs + Instruction.numDefs is
  few : p.numOperands ≤ 256
  lastUsed_le : ∀ x, p.lastUsed.getD x 0 ≤ p.numInstructions
  encodable : ∀ i ∈ is, i.Encodable
  fits : ∀ {before i after}, is = before ++ i :: after → Args.All
    (ArgKind.Fits p before.length (p.numInputs + Instruction.numDefs before)) i.op.schema i.args
  lastUsed : p.lastUsed = Instruction.noteAll 0 is (Array.replicate p.numInputs 0)
  indices : (is.flatMap Instruction.fieldIndices).Pairwise (· < ·)
  indices_lt : ∀ index ∈ is.flatMap Instruction.fieldIndices, index < p.fields.size

/-- Programs that successful steps have made. -/
inductive Built : Program → Prop where
  | empty (kind : CacheKind) : Built (.empty kind)
  | emit {p p' : Program} {op : Op} {args : List Arg} {defined : Option OperandId} :
      Built p → emit op args p = .ok defined p' → Built p'
  | addField {p p' : Program} {f : Field} {index : Nat} :
      Built p → addField f p = .ok index p' → Built p'

/-! ## Growing -/

/-- The program keeps what it knows about operands and fields. -/
structure Grows (p p' : Program) : Prop where
  kind : p'.kind = p.kind
  lastUsed : ∀ x, p.lastUsed.getD x 0 ≤ p'.lastUsed.getD x 0
  fields : ∀ {index : Nat} {f : Field}, p.fields[index]? = some f → p'.fields[index]? = some f

theorem Grows.refl (p : Program) : Grows p p :=
  ⟨rfl, fun _ => Nat.le_refl _, fun h => h⟩

theorem Grows.trans {p p' p'' : Program} (h : Grows p p') (h' : Grows p' p'') : Grows p p'' :=
  ⟨h'.kind.trans h.kind, fun x => Nat.le_trans (h.lastUsed x) (h'.lastUsed x),
    fun hf => h'.fields (h.fields hf)⟩

theorem Grows.fits {p p' : Program} (h : Grows p p') {k d : Nat} (kind : ArgKind)
    (a : kind.Decoded) (ha : ArgKind.Fits p k d kind a) : ArgKind.Fits p' k d kind a := by
  cases kind with
  | use => exact ⟨ha.1, Nat.le_trans ha.2 (h.lastUsed _)⟩
  | field t =>
      obtain ⟨f, hf, ht⟩ := ha
      exact ⟨f, h.fields hf, ht⟩
  | _ => exact ha

/-- What was supplied does not change when the program grows. -/
theorem Grows.supplied {p p' : Program} (h : Grows p p') {k d : Nat} {ks : List ArgKind}
    {as : Args ks} (hfits : Args.All (ArgKind.Fits p k d) ks as) :
    Args.collect (ArgKind.supplied? p'.fields) ks as =
      Args.collect (ArgKind.supplied? p.fields) ks as := by
  induction ks with
  | nil => rfl
  | cons kind ks ih =>
      have hhead : kind.supplied? p'.fields as.1 = kind.supplied? p.fields as.1 := by
        have hkind := hfits.1
        cases kind with
        | field t =>
            obtain ⟨f, hf, -⟩ := hkind
            rw [ArgKind.supplied?, ArgKind.supplied?, hf, h.fields hf]
        | _ => rfl
      rw [Args.collect, Args.collect, hhead, ih hfits.2]

/-! ## Writing arguments -/

/-- The supplied arguments were written: what they add to the program. -/
structure Writes (p p' : Program) (args : List Arg) {ks : List ArgKind} (as : Args ks) : Prop where
  grows : Grows p p'
  code : p'.code.toList = p.code.toList ++ Args.bytes ks as
  count : p'.numInstructions = p.numInstructions
  operands : p'.lastUsed.size = p.lastUsed.size + ks.count .define
  few : p'.lastUsed.size ≤ 256
  lastUsed_le : ∀ x, p'.lastUsed.getD x 0 ≤ p'.numInstructions
  encodable : Args.All ArgKind.Encodable ks as
  fits : Args.All (ArgKind.Fits p' p.numInstructions p.lastUsed.size) ks as
  lastUsed : p'.lastUsed = Args.note p.numInstructions ks as p.lastUsed
  fields : p'.fields = p.fields ++ (args.filterMap Arg.field?).toArray
  indices : Args.collect ArgKind.fieldIndex? ks as =
    List.range' p.fields.size (args.filterMap Arg.field?).length
  supplied : Args.collect (ArgKind.supplied? p'.fields) ks as = args

theorem Writes.size_fields {p p' : Program} {args : List Arg} {ks : List ArgKind} {as : Args ks}
    (h : Writes p p' args as) :
    p'.fields.size = p.fields.size + (args.filterMap Arg.field?).length := by
  rw [h.fields, Array.size_append]
  rfl

/-- Using an operand whose number fits in a byte. -/
theorem writeUse_eq {x : OperandId} (hx : ¬ 255 < x.index) (p : Program) :
    writeUse x p = (if x.index < p.lastUsed.size then
      set { p with code := p.code.push x.index.toUInt8,
                   lastUsed := p.lastUsed.setIfInBounds x.index p.numInstructions }
    else throw (.noOperand x) : Build Unit) { p with code := p.code.push x.index.toUInt8 } := by
  rw [writeUse, if_neg hx]
  rfl

theorem writeDef_eq (p : Program) :
    writeDef p = (do
      if 255 < p.lastUsed.size % 0x10000 then
        throw (.operandTooLarge ⟨p.lastUsed.size % 0x10000⟩)
      writeByte (p.lastUsed.size % 0x10000).toUInt8
      return ⟨p.lastUsed.size % 0x10000⟩ : Build OperandId)
        { p with lastUsed := p.lastUsed.push p.numInstructions } := rfl

theorem writeField_eq (f : Field) (p : Program) :
    writeField f p = (do
      if 255 < p.fields.size then throw (.fieldTooLarge p.fields.size)
      writeByte p.fields.size.toUInt8 : Build Unit) { p with fields := p.fields.push f } := rfl

section
variable {p p' : Program} (hfew : p.lastUsed.size ≤ 256)
  (hlast : ∀ x, p.lastUsed.getD x 0 ≤ p.numInstructions)
include hfew hlast

theorem writeUse_ok {x : OperandId} (h : writeUse x p = .ok () p') :
    @Writes p p' [.operand x] [.use] (x, ()) := by
  have hx : ¬ 255 < x.index := fun hlt => by
    rw [writeUse, if_pos hlt] at h
    cases h
  rw [writeUse_eq hx] at h
  split at h
  · next hlt =>
      cases h
      have hget : ∀ i, (p.lastUsed.setIfInBounds x.index p.numInstructions).getD i 0 =
          if i = x.index then p.numInstructions else p.lastUsed.getD i 0 := by
        intro i
        by_cases hi : i = x.index
        · simp [hi, hlt, Array.getD_eq_getD_getElem?]
        · simp [hi, Ne.symm hi, Array.getD_eq_getD_getElem?]
      refine ⟨⟨rfl, fun i => ?_, fun hf => hf⟩, by simp [Args.bytes, ArgKind.bytes], rfl,
        by simp, by simpa using hfew, fun i => ?_, ⟨by simp only [ArgKind.Encodable]; omega, trivial⟩,
        ⟨⟨hlt, ?_⟩, trivial⟩, rfl, by simp [Arg.field?], rfl, rfl⟩
      · show _ ≤ (p.lastUsed.setIfInBounds x.index p.numInstructions).getD i 0
        rw [hget]
        split
        · exact hlast i
        · exact Nat.le_refl _
      · show (p.lastUsed.setIfInBounds x.index p.numInstructions).getD i 0 ≤ _
        rw [hget]
        split
        · exact Nat.le_refl _
        · exact hlast i
      · show _ ≤ (p.lastUsed.setIfInBounds x.index p.numInstructions).getD x.index 0
        exact Nat.le_of_eq (by rw [hget, if_pos rfl])
  · cases h

theorem writeDef_ok {x : OperandId} (h : writeDef p = .ok x p') :
    @Writes p p' [] [.define] (x, ()) := by
  have hmod : p.lastUsed.size % 0x10000 = p.lastUsed.size := Nat.mod_eq_of_lt (by omega)
  rw [writeDef_eq, hmod] at h
  have hx : ¬ 255 < p.lastUsed.size := fun hlt => by
    rw [if_pos hlt] at h
    cases h
  rw [if_neg hx] at h
  cases h
  have hget : ∀ i, (p.lastUsed.push p.numInstructions).getD i 0 =
      if i = p.lastUsed.size then p.numInstructions else p.lastUsed.getD i 0 := by
    intro i
    simp only [Array.getD_eq_getD_getElem?, Array.getElem?_push]
    split <;> rfl
  refine ⟨⟨rfl, fun i => ?_, fun hf => hf⟩, by simp [Args.bytes, ArgKind.bytes], rfl, by simp,
    by simp; omega, fun i => ?_, ⟨by simp only [ArgKind.Encodable]; omega, trivial⟩,
    ⟨rfl, trivial⟩, rfl, by simp, rfl, rfl⟩
  · show _ ≤ (p.lastUsed.push p.numInstructions).getD i 0
    rw [hget]
    split
    · exact hlast i
    · exact Nat.le_refl _
  · show (p.lastUsed.push p.numInstructions).getD i 0 ≤ _
    rw [hget]
    split
    · exact Nat.le_refl _
    · exact hlast i

theorem writeField_ok {f : Field} (h : writeField f p = .ok () p') :
    @Writes p p' [.field f] [.field f.type] (p.fields.size, ()) := by
  rw [writeField_eq] at h
  have hx : ¬ 255 < p.fields.size := fun hlt => by
    rw [if_pos hlt] at h
    cases h
  rw [if_neg hx] at h
  cases h
  refine ⟨⟨rfl, fun _ => Nat.le_refl _, fun {index g} hg => ?_⟩, by simp [Args.bytes, ArgKind.bytes],
    rfl, rfl, hfew, hlast, ⟨Nat.lt_of_not_le hx, trivial⟩, ⟨⟨f, by simp, rfl⟩, trivial⟩, rfl,
    by simp [Arg.field?], rfl, by simp [Args.collect, ArgKind.supplied?]⟩
  have hlt := (Array.getElem?_eq_some_iff.mp hg).1
  show (p.fields.push f)[index]? = some g
  rw [Array.getElem?_push, if_neg (by omega), hg]

/-- An argument that adds nothing but its bytes. -/
theorem writes_of_code {k : ArgKind} {a : k.Decoded} {arg : Arg} {code : Array UInt8}
    (h : EStateM.Result.ok () { p with code } = (.ok () p' : EStateM.Result BuildError Program Unit))
    (hcode : code.toList = p.code.toList ++ k.bytes a) (hk : k ≠ .define)
    (henc : k.Encodable a) (hfits : k.Fits p p.numInstructions p.lastUsed.size a)
    (hnote : k.note p.numInstructions a p.lastUsed = p.lastUsed) (harg : arg.field? = none)
    (hindex : k.fieldIndex? a = none) (hsupplied : ∀ fields, k.supplied? fields a = some arg) :
    @Writes p p' [arg] [k] (a, ()) := by
  cases h
  refine ⟨⟨rfl, fun _ => Nat.le_refl _, fun hf => hf⟩, by simp [Args.bytes, hcode], rfl,
    by simp [hk], hfew, hlast, ⟨henc, trivial⟩, ⟨?_, trivial⟩, hnote.symm, by simp [harg],
    by simp [Args.collect, hindex, harg], by simp [Args.collect, hsupplied]⟩
  cases k <;> exact hfits

/-- An argument that its place admits is written as one of that kind. -/
theorem writeArg_ok {k : ArgKind} {arg : Arg} (hadmits : k.admits arg = true)
    (h : writeArg arg p = .ok () p') : ∃ a, @Writes p p' [arg] [k] (a, ()) := by
  cases k with
  | use =>
      cases arg <;> first | exact ⟨_, writeUse_ok hfew hlast h⟩ | cases hadmits
  | define => cases arg <;> cases hadmits
  | classKind =>
      cases arg with
      | classKind c =>
          exact ⟨c, writes_of_code (k := .classKind) hfew hlast h (by simp [ArgKind.bytes])
            (by decide) trivial trivial rfl rfl rfl fun _ => rfl⟩
      | _ => cases hadmits
  | bool =>
      cases arg with
      | bool b =>
          exact ⟨b, writes_of_code (k := .bool) hfew hlast h (by simp [ArgKind.bytes])
            (by decide) trivial trivial rfl rfl rfl fun _ => rfl⟩
      | _ => cases hadmits
  | int32 =>
      cases arg with
      | int32 i =>
          exact ⟨i, writes_of_code (k := .int32) hfew hlast h (by simp [ArgKind.bytes])
            (by decide) trivial trivial rfl rfl rfl fun _ => rfl⟩
      | _ => cases hadmits
  | field t =>
      cases arg with
      | field f =>
          have ht : f.type = t := by simpa [ArgKind.admits] using hadmits
          exact ⟨_, ht ▸ writeField_ok hfew hlast h⟩
      | _ => cases hadmits

end

/-- Operands that are read come before the one that is defined. -/
def Orderly (ks : List ArgKind) : Prop :=
  ks.Pairwise fun k k' => k = .define → k' ≠ .use ∧ k' ≠ .define

theorem orderly_schema (op : Op) : Orderly op.schema := by
  unfold Orderly
  cases op <;> decide

/-- Arguments that are no operands fit whatever is defined. -/
theorem fits_of_plain {p : Program} {k d d' : Nat} {ks : List ArgKind} {as : Args ks}
    (hks : ∀ kind ∈ ks, kind ≠ .use ∧ kind ≠ .define) (h : Args.All (ArgKind.Fits p k d) ks as) :
    Args.All (ArgKind.Fits p k d') ks as := by
  induction ks with
  | nil => trivial
  | cons kind ks ih =>
      refine ⟨?_, ih (fun kind' hk => hks kind' (by simp [hk])) h.2⟩
      have hkind := hks kind (by simp)
      have hfits := h.1
      cases kind with
      | use => exact absurd rfl hkind.1
      | define => exact absurd rfl hkind.2
      | _ => exact hfits

theorem Writes.cons {p p₁ p₂ : Program} {args args' : List Arg} {k : ArgKind} {a : k.Decoded}
    {ks : List ArgKind} {as : Args ks} (h : @Writes p p₁ args [k] (a, ()))
    (h' : Writes p₁ p₂ args' as) (horder : Orderly (k :: ks)) :
    @Writes p p₂ (args ++ args') (k :: ks) (a, as) where
  grows := h.grows.trans h'.grows
  code := by
    rw [h'.code, h.code]
    simp [Args.bytes]
  count := h'.count.trans h.count
  operands := by
    have h₁ := h.operands
    have h₂ := h'.operands
    rw [List.count_singleton] at h₁
    rw [List.count_cons]
    omega
  few := h'.few
  lastUsed_le := h'.lastUsed_le
  encodable := ⟨h.encodable.1, h'.encodable⟩
  fits := by
    refine ⟨h'.grows.fits k a h.fits.1, ?_⟩
    have htail := h'.fits
    rw [h.count] at htail
    by_cases hk : k = .define
    · exact fits_of_plain (fun kind hkind => (List.pairwise_cons.mp horder).1 kind hkind hk) htail
    · have hsize := h.operands
      rw [List.count_singleton, if_neg (by simpa using hk)] at hsize
      rw [hsize] at htail
      exact htail
  lastUsed := by
    rw [h'.lastUsed, h.lastUsed, h.count]
    rfl
  fields := by
    rw [h'.fields, h.fields, List.filterMap_append]
    simp
  indices := by
    have h₁ := h.indices
    have h₂ := h'.indices
    rw [Args.collect, Args.collect, List.append_nil] at h₁
    rw [h.size_fields] at h₂
    rw [Args.collect, h₁, h₂, List.range'_append_1, List.filterMap_append, List.length_append]
  supplied := by
    have h₁ := (h'.grows.supplied h.fits).trans h.supplied
    rw [Args.collect, Args.collect, List.append_nil] at h₁
    rw [Args.collect, h₁, h'.supplied]

/-- Arguments that match the schema are written as arguments of the schema. -/
theorem writeArgs_ok {ks : List ArgKind} {args : List Arg} {p p' : Program}
    {defined : Option OperandId} (horder : Orderly ks)
    (hadmits : List.Forall₂ (fun k a => k.admits a = true) (ks.filter (· != .define)) args)
    (hfew : p.lastUsed.size ≤ 256) (hlast : ∀ x, p.lastUsed.getD x 0 ≤ p.numInstructions)
    (h : writeArgs ks args p = .ok defined p') :
    ∃ as, @Writes p p' args ks as ∧ defined = (Args.collect ArgKind.defined? ks as).getLast? := by
  induction ks generalizing args p defined with
  | nil =>
      obtain rfl : args = [] := List.forall₂_nil_left_iff.mp hadmits
      rw [writeArgs] at h
      · cases h
        exact ⟨(), ⟨Grows.refl _, by simp [Args.bytes], rfl, rfl, hfew, hlast, trivial, trivial,
          rfl, by simp, rfl, rfl⟩, rfl⟩
      · intro ks h
        cases h
      · intro k ks a args h
        cases h
  | cons k ks ih =>
      have horder' : Orderly ks := (List.pairwise_cons.mp horder).2
      by_cases hk : k = .define
      · subst hk
        obtain ⟨x, p₁, hdef, hrest⟩ := exists_of_bind_ok h
        obtain ⟨later, p₂, hargs, hend⟩ := exists_of_bind_ok hrest
        cases hend
        have h₁ := writeDef_ok hfew hlast hdef
        obtain ⟨as, h₂, rfl⟩ := ih horder' hadmits h₁.few h₁.lastUsed_le hargs
        exact ⟨(x, as), h₁.cons h₂ horder, List.getLast?_cons.symm⟩
      · rw [List.filter_cons_of_pos (by simpa using hk)] at hadmits
        obtain _ | ⟨hallowed, hadmits⟩ := hadmits
        rw [writeArgs] at h
        · obtain ⟨⟨⟩, p₁, harg, hrest⟩ := exists_of_bind_ok h
          obtain ⟨a, h₁⟩ := writeArg_ok hfew hlast hallowed harg
          obtain ⟨as, h₂, hdefined⟩ := ih horder' hadmits h₁.few h₁.lastUsed_le hrest
          refine ⟨(a, as), h₁.cons h₂ horder, hdefined.trans ?_⟩
          cases k with
          | define => exact absurd rfl hk
          | _ => rfl
        · exact fun h => hk h

theorem firstMismatch_ok {op : Op} {ks : List ArgKind} {args : List Arg} {index : Nat}
    (hlen : ks.length = args.length) (h : op.firstMismatch ks args index = .ok ()) :
    List.Forall₂ (fun k a => k.admits a = true) ks args := by
  induction ks generalizing args index with
  | nil =>
      obtain rfl := List.length_eq_zero_iff.mp hlen.symm
      exact .nil
  | cons k ks ih =>
      obtain _ | ⟨a, args⟩ := args
      · cases hlen
      · rw [Op.firstMismatch] at h
        split at h
        · next hallowed => exact .cons hallowed (ih (Nat.succ.inj hlen) h)
        · cases h

theorem checkArgs_ok {op : Op} {args : List Arg} (h : op.checkArgs args = .ok ()) :
    List.Forall₂ (fun k a => k.admits a = true) (op.schema.filter (· != .define)) args := by
  rw [Op.checkArgs] at h
  split at h
  · next hlen => exact firstMismatch_ok (eq_of_beq hlen) h
  · cases h

/-! ## Whole programs -/

theorem checkArgs_of_emit {p p' : Program} {op : Op} {args : List Arg}
    {defined : Option OperandId} (h : emit op args p = .ok defined p') :
    op.checkArgs args = .ok () := by
  rw [emit] at h
  cases hcheck : op.checkArgs args with
  | error e =>
      rw [hcheck] at h
      cases h
  | ok _ => rfl

/-- The program after its bytes of one more instruction were written, and the operand that the
instruction defines. -/
theorem emit_writes {p p' : Program} {op : Op} {args : List Arg} {defined : Option OperandId}
    (hfew : p.lastUsed.size ≤ 256) (hlast : ∀ x, p.lastUsed.getD x 0 ≤ p.numInstructions)
    (h : emit op args p = .ok defined p') :
    ∃ (as : Args op.schema) (p₁ : Program),
      Writes { p with code := p.code.push op.byte } p₁ args as ∧
      p' = { p₁ with numInstructions := p₁.numInstructions + 1 } ∧
      defined = (Instruction.definedIds ⟨op, as⟩).getLast? := by
  have hcheck := checkArgs_of_emit h
  rw [emit, hcheck] at h
  obtain ⟨⟨⟩, p₀, hbyte, hrest⟩ := exists_of_bind_ok h
  obtain ⟨later, p₁, hargs, hend⟩ := exists_of_bind_ok hrest
  cases hbyte
  cases hend
  obtain ⟨as, hwrites, hdefined⟩ := writeArgs_ok (orderly_schema op) (checkArgs_ok hcheck)
    (p := { p with code := p.code.push op.byte }) hfew hlast hargs
  exact ⟨as, p₁, hwrites, rfl, hdefined⟩

theorem represents_empty (kind : CacheKind) : (empty kind).Represents [] where
  code := rfl
  count := rfl
  operands := by simp [empty, numOperands, numInputs, Instruction.numDefs]
  few := by
    have := kind.numInputs_le_two
    simp [empty, numOperands]
    omega
  lastUsed_le x := by
    simp only [empty, Array.getD_eq_getD_getElem?, Array.getElem?_replicate]
    split <;> exact Nat.le_refl 0
  encodable := by simp
  fits {before i after} h := by simp at h
  lastUsed := rfl
  indices := .nil
  indices_lt := by simp

/-- One more instruction was written. -/
theorem Represents.append {p p₁ : Program} {is : List Instruction} {op : Op} {args : List Arg}
    {as : Args op.schema} (h : p.Represents is)
    (hw : Writes { p with code := p.code.push op.byte } p₁ args as) :
    Represents { p₁ with numInstructions := p₁.numInstructions + 1 } (is ++ [⟨op, as⟩]) := by
  have hcount : p₁.numInstructions = is.length := hw.count.trans h.count
  have hsize : p.lastUsed.size = p.numInputs + Instruction.numDefs is := h.operands
  have hkind : p₁.kind = p.kind := hw.grows.kind
  have hflat : (is ++ [Instruction.mk op as]).flatMap Instruction.fieldIndices =
      is.flatMap Instruction.fieldIndices ++
        List.range' p.fields.size (args.filterMap Arg.field?).length := by
    rw [List.flatMap_append, List.flatMap_singleton]
    exact congrArg _ hw.indices
  have hfields : p₁.fields.size = p.fields.size + (args.filterMap Arg.field?).length :=
    hw.size_fields
  refine ⟨?_, ?_, ?_, hw.few, fun x => Nat.le_succ_of_le (hw.lastUsed_le x), ?_, ?_, ?_, ?_, ?_⟩
  · rw [hw.code]
    simp [h.code, Instruction.bytes]
  · simp [hcount]
  · show p₁.lastUsed.size = p₁.kind.numInputs + _
    rw [hw.operands, hsize, hkind, Instruction.numDefs_append, Instruction.numDefs_cons]
    show _ = p.kind.numInputs + (_ + (op.schema.count .define + 0))
    rw [numInputs]
    omega
  · intro i hi
    obtain hi | hi := List.mem_append.mp hi
    · exact h.encodable i hi
    · rw [List.mem_singleton.mp hi]
      exact hw.encodable
  · intro before i after hsplit
    have hinputs : numInputs { p₁ with numInstructions := p₁.numInstructions + 1 } = p.numInputs :=
      congrArg CacheKind.numInputs hkind
    rw [hinputs]
    obtain rfl | ⟨after', last, rfl⟩ := List.eq_nil_or_concat after
    · obtain ⟨rfl, hi⟩ := List.append_inj' hsplit rfl
      cases hi
      rw [← hsize, ← h.count]
      exact hw.fits
    · rw [List.concat_eq_append, ← List.cons_append, ← List.append_assoc] at hsplit
      obtain ⟨hsplit, -⟩ := List.append_inj' hsplit rfl
      exact (h.fits hsplit).mono fun kind a ha => hw.grows.fits kind a ha
  · have hnote := hw.lastUsed
    change p₁.lastUsed = Args.note p.numInstructions op.schema as p.lastUsed at hnote
    show p₁.lastUsed = Instruction.noteAll 0 _ (Array.replicate p₁.kind.numInputs 0)
    rw [Instruction.noteAll_append, Nat.zero_add, hkind, hnote, h.count, h.lastUsed]
    rfl
  · rw [hflat, List.pairwise_append]
    refine ⟨h.indices, List.pairwise_lt_range', fun i hi j hj => ?_⟩
    have := h.indices_lt i hi
    have := List.mem_range'_1.mp hj
    omega
  · intro index hindex
    show index < p₁.fields.size
    rw [hflat, List.mem_append, List.mem_range'_1] at hindex
    rw [hfields]
    rcases hindex with hold | hnew
    · have := h.indices_lt index hold
      omega
    · exact hnew.2

theorem grows_addField {p p' : Program} {f : Field} {index : Nat}
    (h : addField f p = .ok index p') : Grows p p' := by
  cases h
  refine ⟨rfl, fun _ => Nat.le_refl _, fun {i g} hg => ?_⟩
  have hlt := (Array.getElem?_eq_some_iff.mp hg).1
  show (p.fields.push f)[i]? = some g
  rw [Array.getElem?_push, if_neg (by omega), hg]

theorem Represents.addField {p p' : Program} {is : List Instruction} {f : Field} {index : Nat}
    (h : p.Represents is) (ha : addField f p = .ok index p') : p'.Represents is := by
  have hgrows := grows_addField ha
  cases ha
  refine ⟨h.code, h.count, h.operands, h.few, h.lastUsed_le, h.encodable,
    fun hsplit => (h.fits hsplit).mono fun kind a ha => hgrows.fits kind a ha, h.lastUsed,
    h.indices, fun index hindex => ?_⟩
  show index < (p.fields.push f).size
  rw [Array.size_push]
  exact Nat.lt_succ_of_lt (h.indices_lt index hindex)

/-- A program that was built is a list of instructions. -/
theorem Built.exists_represents {p : Program} (h : p.Built) : ∃ is, p.Represents is := by
  induction h with
  | empty kind => exact ⟨[], represents_empty kind⟩
  | emit _ he ih =>
      obtain ⟨is, h⟩ := ih
      obtain ⟨as, p₁, hw, rfl, -⟩ := emit_writes h.few h.lastUsed_le he
      exact ⟨_, h.append hw⟩
  | addField _ ha ih =>
      obtain ⟨is, h⟩ := ih
      exact ⟨is, h.addField ha⟩

/-- Fields can be added to a program that was built. -/
theorem Built.append_fields {p : Program} (h : p.Built) (fs : List Field) :
    Program.Built { p with fields := p.fields ++ fs.toArray } := by
  induction fs generalizing p with
  | nil => simpa using h
  | cons f fs ih =>
      have hnext := @ih { p with fields := p.fields.push f } (.addField h rfl)
      rwa [List.push_append_toArray] at hnext

/-- The bytes of a program that was built decode to its instructions. -/
theorem Represents.decode {p : Program} {is : List Instruction} (h : p.Represents is) :
    Instruction.decode p.code.toList = .ok is := by
  rw [h.code]
  exact Instruction.decode_flatMap h.encodable

theorem Represents.unique {p p' : Program} {is is' : List Instruction} (h : p.Represents is)
    (h' : p'.Represents is') (hcode : p.code.toList = p'.code.toList) : is = is' := by
  have hdecode := h.decode
  rw [hcode, h'.decode] at hdecode
  injection hdecode with hsame
  exact hsame.symm

/-! ## An example -/

/-- Reads a fixed slot of an object that has a certain shape. -/
def slotLoad : Program where
  kind := .getProp
  code := #[Op.guardIsObject.byte, 0, Op.guardShape.byte, 0, 0, Op.loadFixedSlotResult.byte, 0, 1,
    Op.returnFromIC.byte]
  lastUsed := #[2]
  fields := #[⟨.shape, 0x1000⟩, ⟨.rawWord, 32⟩]
  numInstructions := 4

theorem built_slotLoad : slotLoad.Built := by
  have h₁ := @Built.emit _ _ .guardIsObject [.operand ⟨0⟩] _ (.empty .getProp) rfl
  have h₂ := @Built.emit _ _ .guardShape [.operand ⟨0⟩, .field ⟨.shape, 0x1000⟩] _ h₁ rfl
  have h₃ := @Built.emit _ _ .loadFixedSlotResult [.operand ⟨0⟩, .field ⟨.rawWord, 32⟩] _ h₂ rfl
  exact @Built.emit _ _ .returnFromIC [] _ h₃ rfl

end Program
end InlineCache
