import InlineCache.Proofs.Codegen.Snippet
import InlineCache.Proofs.X64.Layout

/-!
# Tests in machine code and types of words

The type of a word is decided in two ways. While a program is compiled, `Value.type` looks the tag
up; when the code runs, the upper bits of the word are shifted into the scratch register and
compared with a number on 32 bits. A guard that is dropped because the type is known is right only
if the two agree on every word, words with a tag of no type and all NaNs included.
`type_tests_agree` says that they do, for bytes that are laid out: control goes on behind the test
or at the label as `Value.type` says, and nothing but the scratch register has changed.
-/

namespace InlineCache.Snippet

open X64

/-- Code that tests the word in `r`. Wherever it stands in bytes that were laid out, it hands over
to what follows it if the word is `ok`, and otherwise to the place of `l`. It changes no memory and
no register but the scratch register. -/
def Tests (ok : Value → Bool) (r : Register) (l : Label) (c : Code) : Prop :=
  ∀ ⦃a : Assembly⦄ ⦃bytes : List UInt8⦄ ⦃before after : List Item⦄, a.finish = .ok bytes →
    a.items.toList = before ++ (c.map Item.instr ++ after) → ∀ m, ∃ m',
      (ok ⟨m.reg r⟩ = true → Proceeds bytes (Item.totalSize before) m
        (Item.totalSize (before ++ c.map Item.instr)) m') ∧
      (ok ⟨m.reg r⟩ = false → ∃ place, (Item.bindings 0 a.items.toList).lookup l = some place ∧
        Proceeds bytes (Item.totalSize before) m place m') ∧
      m'.mem = m.mem ∧ ∀ s, s ≠ scratchRegister → m'.reg s = m.reg s

section
variable {ok ok' : Value → Bool} {r : Register} {l : Label} {c : Code}

theorem Branches.tests (h : Branches (fun m => ok ⟨m.reg r⟩) l [scratchRegister] c) :
    Tests ok r l c := by
  intro a bytes before after hbytes hitems m
  obtain ⟨m', hx, hsame⟩ := h (fun _ => false) m
  refine ⟨m', fun hok => ?_, fun hok => ?_, hsame.mem, fun s hs => hsame.reg s (by simpa using hs)⟩
  · rw [if_pos hok] at hx
    exact runFrom_of_fall hbytes hitems hx
  · rw [if_neg (by simp [hok])] at hx
    exact runFrom_of_jump hbytes hitems hx

theorem Tests.congr (h : Tests ok r l c) (heq : ∀ v, ok v = ok' v) : Tests ok' r l c := by
  rwa [← funext heq]

end

/-- The tests in machine code agree with the types of words, for every word and every register, and
boxing gives a word of its type. -/
theorem type_tests_agree :
    (∀ t ∈ [ValueType.object, .string, .symbol, .int32], ∀ r l,
      ∃ c, branchType .notEqual r t l = .ok c ∧ Tests (fun v => v.type == t) r l c) ∧
    (∀ r l, ∃ c, branchNumber .notEqual r l = .ok c ∧
      Tests (fun v => v.type == .int32 || v.type == .double) r l c) ∧
    (∀ r l, ∃ c, branchDouble .notEqual r l = .ok c ∧ Tests (fun v => v.isDouble) r l c) ∧
    (∀ r l, ∃ c, branchDouble .equal r l = .ok c ∧ Tests (fun v => !v.isDouble) r l c) ∧
    (∀ v : Value, v.isNumber = (v.type == .int32 || v.type == .double) ∧
      v.isDouble = (v.type == .double)) ∧
    (∀ t w, w.toNat < 2 ^ 47 → (Value.boxed t w).type = t ∧ (Value.boxed t w).payload = w) ∧
    ∀ bits, (Value.ofDoubleBits bits).type = .double ∧
      Value.isNaNBits (Value.ofDoubleBits bits).bits = Value.isNaNBits bits ∧
      (Value.isNaNBits bits = false → (Value.ofDoubleBits bits).bits = bits) := by
  refine ⟨fun t ht r l => ⟨_, rfl, ?_⟩, fun r l => ⟨_, rfl, ?_⟩, fun r l => ⟨_, rfl, ?_⟩,
    fun r l => ⟨_, rfl, ?_⟩, fun v => ⟨v.isNumber_eq, v.isDouble_eq⟩,
    fun t w hw => ⟨Value.type_boxed hw, Value.payload_boxed hw⟩,
    fun bits => ⟨Value.type_ofDoubleBits bits, ?_⟩⟩
  · have hguarded : t.isPointer = true ∨ t = .int32 := by
      simp only [List.mem_cons, List.not_mem_nil, or_false] at ht
      obtain rfl | rfl | rfl | rfl := ht
      · exact .inl rfl
      · exact .inl rfl
      · exact .inl rfl
      · exact .inr rfl
    exact (branches_hasTag r t l).tests.congr (Value.hasTag_eq hguarded)
  · exact (branches_isNumber r l).tests.congr Value.isNumber_eq
  · exact (branches_tagAtMost r (by decide) l).tests
  · exact (branches_tagAbove r (by decide) l).tests
  · rw [Value.ofDoubleBits]
    split
    · next hnan => exact ⟨by rw [hnan]; decide, fun h => absurd (hnan.symm.trans h) (by decide)⟩
    · exact ⟨rfl, fun _ => rfl⟩

/-- A test for objects, with a return for them and a jump to the next stub for all else. -/
def objectTest : Assembly where
  items := ((compareTag .rsi ValueType.object.tag .notEqual 0).map Item.instr ++
    [Item.instr .ret, .bind 0] ++ enterNext.map Item.instr).toArray
  numLabels := 1

/-- An object goes on to the return. The word with the greatest tag of a double does not, and
neither does a word whose tag belongs to no type. -/
theorem type_tests_agree_object :
    ∃ bytes, objectTest.finish = .ok bytes ∧ (Value.boxed .object 0x1230).type = .object ∧
      ∀ m : Machine, ∃ m', m'.reg .rsi = m.reg .rsi ∧
        (m.reg .rsi = (Value.boxed .object 0x1230).bits → Proceeds bytes 0 m 20 m') ∧
        (m.reg .rsi = 0xFFF8000000000000 ∨ m.reg .rsi = 0xFFFF000000000000 →
          Proceeds bytes 0 m 21 m') := by
  obtain ⟨bytes, hbytes⟩ : ∃ bytes, objectTest.finish = .ok bytes := ⟨_, rfl⟩
  obtain ⟨htypes, -, -, -, -, hboxed, -⟩ := type_tests_agree
  obtain ⟨c, hc, htests⟩ := htypes .object (by decide) .rsi 0
  cases hc
  refine ⟨bytes, hbytes, (hboxed .object 0x1230 (by decide)).1, fun m => ?_⟩
  obtain ⟨m', hfall, hjump, -, hreg⟩ := htests hbytes (List.nil_append _).symm m
  refine ⟨m', hreg .rsi (by decide), fun hobject => ?_, fun hother => ?_⟩
  · exact hfall (by rw [hobject]; decide)
  · obtain ⟨place, hplace, hproceeds⟩ := hjump (by obtain h | h := hother <;> rw [h] <;> decide)
    cases hplace
    exact hproceeds

end InlineCache.Snippet
