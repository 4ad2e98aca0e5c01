import InlineCache.Listing.Grammar
import Mathlib.Data.List.Basic

/-!
# Reading tokens

Each parser of the grammar takes off what was written for it and leaves the rest, provided the
rest cannot continue the token. A number stops where no digit follows and a name where no character
of an identifier does, and blanks and punctuation are neither.

Repetition is told apart from its limit: `Repeats` says what one item after the other comes to, and
`many_of_repeats` that the parser does just that.
-/

namespace InlineCache
namespace Listing
namespace Parser

variable {α β : Type}

/-! ## Sequences and alternatives -/

section
variable {p q : Parser α} {f : α → Parser β} {cs rest : List Char} {a : α}

theorem bind_some (h : p cs = some (a, rest)) : (p >>= f) cs = f a rest := by
  show (p cs >>= fun x => f x.1 x.2) = _
  rw [h]
  rfl

theorem bind_none (h : p cs = none) : (p >>= f) cs = none := by
  show (p cs >>= fun x => f x.1 x.2) = _
  rw [h]
  rfl

theorem discard_some (h : p cs = some (a, rest)) :
    (discard p : Parser Unit) cs = some ((), rest) := by
  show (p cs >>= fun x => some ((), x.2)) = _
  rw [h]
  rfl

theorem orElse_some (h : p cs = some (a, rest)) : (p <|> q) cs = some (a, rest) := by
  show (p cs <|> q cs) = _
  rw [h]
  rfl

theorem orElse_none (h : p cs = none) : (p <|> q) cs = q cs := by
  show (p cs <|> q cs) = _
  rw [h]
  rfl

theorem optional_some (h : p cs = some (a, rest)) : optional p cs = some (some a, rest) :=
  orElse_some (bind_some h)

theorem optional_none (h : p cs = none) : optional p cs = some (none, cs) :=
  orElse_none (bind_none h)

end

/-! ## Runs of characters -/

/-- The text does not go on with a character of the class. -/
def Stops (ok : Char → Bool) (cs : List Char) : Prop :=
  ∀ c ∈ cs.head?, ok c = false

theorem stops_nil {ok : Char → Bool} : Stops ok [] :=
  fun _ hc => absurd hc (by simp)

theorem stops_cons {ok : Char → Bool} {c : Char} {cs : List Char} (h : ok c = false) :
    Stops ok (c :: cs) := by
  intro d hd
  cases hd
  exact h

theorem Stops.mono {ok ok' : Char → Bool} {cs : List Char} (h : Stops ok cs)
    (hok : ∀ c, ok c = false → ok' c = false) : Stops ok' cs :=
  fun c hc => hok c (h c hc)

theorem Stops.append {ok : Char → Bool} {front rest : List Char} (hfront : Stops ok front)
    (hrest : Stops ok rest) : Stops ok (front ++ rest) := by
  cases front with
  | nil => exact hrest
  | cons c front => exact stops_cons (hfront c rfl)

theorem Stops.of_append {ok : Char → Bool} {front rest : List Char} (h : Stops ok (front ++ rest)) :
    Stops ok front := by
  cases front with
  | nil => exact stops_nil
  | cons c front => exact stops_cons (h c rfl)

theorem stops_dropWhile (ok : Char → Bool) (cs : List Char) : Stops ok (cs.dropWhile ok) := by
  intro c hc
  have hno := List.head?_dropWhile_not ok cs
  rw [Option.mem_def.mp hc] at hno
  simpa using hno

theorem dropWhile_of_stops {ok : Char → Bool} {cs : List Char} (h : Stops ok cs) :
    cs.dropWhile ok = cs := by
  cases cs with
  | nil => rfl
  | cons c cs => exact List.dropWhile_cons_of_neg (by simp [h c rfl])

theorem run_append {ok : Char → Bool} {front rest : List Char} (hfront : ∀ c ∈ front, ok c = true)
    (hrest : Stops ok rest) : run ok (front ++ rest) = some (front, rest) := by
  have htake : rest.takeWhile ok = [] ∧ rest.dropWhile ok = rest := by
    cases rest with
    | nil => exact ⟨rfl, rfl⟩
    | cons c rest =>
        have hc := hrest c rfl
        exact ⟨List.takeWhile_cons_of_neg (by simp [hc]), List.dropWhile_cons_of_neg (by simp [hc])⟩
  rw [run, List.takeWhile_append_of_pos hfront, List.dropWhile_append_of_pos hfront, htake.1,
    htake.2, List.append_nil]

theorem literal_append (s rest : List Char) : literal s (s ++ rest) = some ((), rest) := by
  rw [literal, if_pos (List.isPrefixOf_iff_prefix.mpr (List.prefix_append s rest)), List.drop_left]

theorem literal_of_stops {c : Char} {s cs : List Char} (h : Stops (· == c) cs) :
    literal (c :: s) cs = none := by
  refine if_neg fun hpre => ?_
  obtain ⟨rest, rfl⟩ := List.isPrefixOf_iff_prefix.mp hpre
  simpa using h c rfl

theorem spacing_append {front rest : List Char} (hfront : ∀ c ∈ front, Text.isSpacing c = true)
    (hrest : Stops Text.isSpacing rest) : spacing (front ++ rest) = some ((), rest) :=
  discard_some (run_append hfront hrest)

theorem white_append {front rest : List Char} (hfront : ∀ c ∈ front, Text.isBlank c = true)
    (hrest : Stops Text.isBlank rest) : white (front ++ rest) = some ((), rest) :=
  discard_some (run_append hfront hrest)

theorem newline_of_stops {cs : List Char} (h : Stops Text.isLineEnd cs) : newline cs = none := by
  cases cs with
  | nil => rfl
  | cons c cs =>
      have hc : Text.isLineEnd c = false := h c rfl
      have hne : c ≠ '\r' := fun heq => by
        rw [heq] at hc
        exact absurd hc (by decide)
      rw [newline, if_neg (by simp [hc])]
      intro rest hcr
      exact fun _ => hne hcr

/-! ## Repetition -/

/-- `p` over and over until it fails, taking something off each time. -/
inductive Repeats (p : Parser α) : List Char → List α → List Char → Prop where
  | stop {cs : List Char} : p cs = none → Repeats p cs [] cs
  | step {cs rest last : List Char} {a : α} {as : List α} : p cs = some (a, rest) →
      rest.length < cs.length → Repeats p rest as last → Repeats p cs (a :: as) last

theorem Repeats.length_le {p : Parser α} {cs rest : List Char} {as : List α}
    (h : Repeats p cs as rest) : as.length ≤ cs.length := by
  induction h with
  | stop => exact Nat.zero_le _
  | step _ hlt _ ih =>
      rw [List.length_cons]
      omega

theorem manyUpTo_of_repeats {p : Parser α} {cs rest : List Char} {as : List α} {limit : Nat}
    (h : Repeats p cs as rest) (hlimit : as.length ≤ limit) :
    manyUpTo p limit cs = some (as, rest) := by
  induction h generalizing limit with
  | stop hnone =>
      cases limit with
      | zero => rfl
      | succ limit =>
          rw [manyUpTo]
          simp only [hnone]
  | step hsome _ _ ih =>
      obtain _ | limit := limit
      · cases hlimit
      rw [manyUpTo]
      simp only [hsome]
      exact bind_some (ih (Nat.le_of_succ_le_succ hlimit))

theorem many_of_repeats {p : Parser α} {cs rest : List Char} {as : List α}
    (h : Repeats p cs as rest) : many p cs = some (as, rest) :=
  manyUpTo_of_repeats h h.length_le

/-! ## Numbers -/

theorem digitValue_digitChar {d : Nat} (h : d < 16) : digitValue d.digitChar = d := by
  have hall : ∀ d : Fin 16, digitValue d.val.digitChar = d.val := by decide
  exact hall ⟨d, h⟩

theorem ofDigits_append (base : Nat) (ds : List Char) (c : Char) :
    ofDigits base (ds ++ [c]) = ofDigits base ds * base + digitValue c := by
  rw [ofDigits, List.foldl_append]
  rfl

/-- Digits of a number, without zeros before it. -/
structure Numeral (base n : Nat) (ds : List Char) : Prop where
  digits : ∀ d ∈ ds, isDigitOf base d = true
  value : ofDigits base ds = n
  nonempty : ds ≠ []
  zero : ds.head? = some '0' → ds = ['0']

instance (base n : Nat) (ds : List Char) : Decidable (Numeral base n ds) :=
  decidable_of_iff (ds.all (isDigitOf base) = true ∧ ofDigits base ds = n ∧ ds ≠ [] ∧
      (ds.head? = some '0' → ds = ['0']))
    ⟨fun h => ⟨List.all_eq_true.mp h.1, h.2.1, h.2.2.1, h.2.2.2⟩,
      fun h => ⟨List.all_eq_true.mpr h.digits, h.value, h.nonempty, h.zero⟩⟩

section
variable {base : Nat} (hbase : 1 < base) (hle : base ≤ 16)
include hbase hle

theorem ofDigits_toDigits (n : Nat) : ofDigits base (Nat.toDigits base n) = n := by
  induction n using Nat.strongRecOn with
  | ind n ih =>
      rw [Nat.toDigits_eq_if hbase]
      split
      · next hlt =>
          have hvalue := digitValue_digitChar (Nat.lt_of_lt_of_le hlt hle)
          show 0 * base + digitValue n.digitChar = n
          omega
      · next hge =>
          have hmod : n % base < 16 := Nat.lt_of_lt_of_le (Nat.mod_lt n (by omega)) hle
          rw [ofDigits_append, ih (n / base) (Nat.div_lt_self (by omega) hbase),
            digitValue_digitChar hmod, Nat.mul_comm]
          exact Nat.div_add_mod n base

theorem isDigitOf_of_mem {n : Nat} {c : Char} (h : c ∈ Nat.toDigits base n) :
    isDigitOf base c = true := by
  induction n using Nat.strongRecOn with
  | ind n ih =>
      rw [Nat.toDigits_eq_if hbase] at h
      have hdigit : ∀ d, d < base → isDigitOf base d.digitChar = true := by
        intro d hd
        rw [isDigitOf, digitValue_digitChar (Nat.lt_of_lt_of_le hd hle), decide_eq_true hd]
      split at h
      · next hlt =>
          rw [List.mem_singleton.mp h]
          exact hdigit n hlt
      · next hge =>
          rcases List.mem_append.mp h with h | h
          · exact ih (n / base) (Nat.div_lt_self (by omega) hbase) h
          · rw [List.mem_singleton.mp h]
            exact hdigit _ (Nat.mod_lt n (by omega))

/-- Only zero starts with a zero. -/
theorem head_toDigits {n : Nat} (hn : n ≠ 0) :
    ∃ c cs, Nat.toDigits base n = c :: cs ∧ c ≠ '0' := by
  induction n using Nat.strongRecOn with
  | ind n ih =>
      rw [Nat.toDigits_eq_if hbase]
      split
      · next hlt =>
          refine ⟨n.digitChar, [], rfl, fun hzero => hn ?_⟩
          have hvalue := digitValue_digitChar (Nat.lt_of_lt_of_le hlt hle)
          rw [hzero] at hvalue
          exact hvalue.symm
      · next hge =>
          have hpos : n / base ≠ 0 := Nat.ne_of_gt (Nat.div_pos (by omega) (by omega))
          obtain ⟨c, cs, hcs, hc⟩ := ih (n / base) (Nat.div_lt_self (by omega) hbase) hpos
          exact ⟨c, cs ++ [(n % base).digitChar], by rw [hcs]; rfl, hc⟩

theorem numeral_toDigits (n : Nat) : Numeral base n (Nat.toDigits base n) where
  digits _ := isDigitOf_of_mem hbase hle
  value := ofDigits_toDigits hbase hle n
  nonempty := by
    by_cases hn : n = 0
    · rw [hn, Nat.toDigits_of_lt_base (by omega)]
      exact List.cons_ne_nil _ _
    · obtain ⟨c, cs, hcs, -⟩ := head_toDigits hbase hle hn
      rw [hcs]
      exact List.cons_ne_nil _ _
  zero hzero := by
    by_cases hn : n = 0
    · rw [hn, Nat.toDigits_of_lt_base (by omega)]
      rfl
    · obtain ⟨c, cs, hcs, hc⟩ := head_toDigits hbase hle hn
      rw [hcs] at hzero
      exact absurd (Option.some.inj hzero) hc

end

theorem number_numeral {base n : Nat} {ds rest : List Char} (h : Numeral base n ds)
    (hrest : Stops (isDigitOf base) rest) : number base (ds ++ rest) = some (n, rest) := by
  obtain _ | ⟨c, cs⟩ := ds
  · exact absurd rfl h.nonempty
  have hfirst : satisfy (isDigitOf base) (c :: (cs ++ rest)) = some (c, cs ++ rest) := by
    rw [satisfy, if_pos (h.digits c List.mem_cons_self)]
  rw [List.cons_append, number, bind_some hfirst]
  split
  · next hc =>
      cases h.zero (congrArg some (eq_of_beq hc))
      have hvalue : n = 0 := by
        rw [← h.value]
        simp [ofDigits, digitValue]
      rw [hvalue]
      rfl
  · rw [bind_some (run_append (fun d hd => h.digits d (List.mem_cons_of_mem c hd)) hrest), h.value]
    rfl

/-- A number does not start with a character that is no digit. -/
theorem Numeral.stops {base n : Nat} {ds : List Char} (h : Numeral base n ds) {ok : Char → Bool}
    (hok : ∀ c, isDigitOf base c = true → ok c = false) (rest : List Char) :
    Stops ok (ds ++ rest) := by
  obtain _ | ⟨c, cs⟩ := ds
  · exact absurd rfl h.nonempty
  · exact stops_cons (hok c (h.digits c List.mem_cons_self))

theorem beq_of_not_isDigitOf {base : Nat} {c : Char} (hc : isDigitOf base c = false) (d : Char)
    (hd : isDigitOf base d = true) : (d == c) = false :=
  beq_false_of_ne fun heq => by
    rw [heq, hc] at hd
    cases hd

/-! ## Tokens -/

theorem toList_decimal (n : Nat) : (Text.decimal n).toList = Nat.toDigits 10 n :=
  String.toList_ofList

theorem numeral_decimal (n : Nat) : Numeral 10 n (Text.decimal n).toList := by
  rw [toList_decimal]
  exact numeral_toDigits (by decide) (by decide) n

theorem numberBelow_numeral {n bound : Nat} {ds rest : List Char} (hn : n < bound)
    (h : Numeral 10 n ds) (hrest : Stops (isDigitOf 10) rest) :
    numberBelow bound (ds ++ rest) = some (n, rest) := by
  rw [numberBelow, bind_some (number_numeral h hrest), if_pos hn]
  rfl

theorem operand_numeral {n : Nat} {ds rest : List Char} (hn : n < 0x10000) (h : Numeral 10 n ds)
    (hrest : Stops (isDigitOf 10) rest) : operand ('%' :: (ds ++ rest)) = some (n, rest) :=
  (bind_some (literal_append ['%'] (ds ++ rest))).trans (numberBelow_numeral hn h hrest)

theorem operand_of_stops {cs : List Char} (h : Stops (· == '%') cs) : operand cs = none :=
  bind_none (literal_of_stops h)

theorem assignment_of_stops {cs : List Char} (h : Stops (· == '%') cs) : assignment cs = none :=
  bind_none (operand_of_stops h)

theorem fieldIndex_numeral {n : Nat} {ds rest : List Char} (hn : n < 0x100000000)
    (h : Numeral 10 n ds) (hrest : Stops (isDigitOf 10) rest) :
    fieldIndex ('#' :: (ds ++ rest)) = some (n, rest) :=
  (bind_some (literal_append ['#'] (ds ++ rest))).trans (numberBelow_numeral hn h hrest)

theorem fieldIndex_of_stops {cs : List Char} (h : Stops (· == '#') cs) : fieldIndex cs = none :=
  bind_none (literal_of_stops h)

theorem word_numeral {w : UInt64} {ds rest : List Char} (h : Numeral 16 w.toNat ds)
    (hrest : Stops (isDigitOf 16) rest) : word ('0' :: 'x' :: (ds ++ rest)) = some (w, rest) := by
  refine (bind_some (literal_append ['0', 'x'] (ds ++ rest))).trans ?_
  rw [bind_some (number_numeral h hrest), if_pos w.toNat_lt, Nat.toUInt64_eq, UInt64.ofNat_toNat]
  rfl

theorem satisfy_of_stops {ok : Char → Bool} {cs : List Char} (h : Stops ok cs) :
    satisfy ok cs = none := by
  cases cs with
  | nil => rfl
  | cons c cs =>
      have hc := h c rfl
      rw [satisfy, if_neg (by simp [hc])]

theorem integer_numeral {n : Nat} {ds rest : List Char} (hn : (n : Int) < 0x8000000000000000)
    (h : Numeral 10 n ds) (hrest : Stops (isDigitOf 10) rest) :
    integer (ds ++ rest) = some ((n : Int), rest) := by
  have hminus : literal ['-'] (ds ++ rest) = none :=
    literal_of_stops (h.stops (beq_of_not_isDigitOf (by decide)) rest)
  rw [integer, bind_some (optional_none hminus), bind_some (number_numeral h hrest)]
  simp only [Option.isSome_none, Bool.false_eq_true, if_false]
  rw [if_pos (by omega)]
  rfl

theorem integer_minus {n : Nat} {ds rest : List Char} (hn : -0x8000000000000000 ≤ -(n : Int))
    (h : Numeral 10 n ds) (hrest : Stops (isDigitOf 10) rest) :
    integer ('-' :: (ds ++ rest)) = some (-(n : Int), rest) := by
  refine (bind_some (optional_some (literal_append ['-'] (ds ++ rest)))).trans ?_
  rw [bind_some (number_numeral h hrest)]
  simp only [Option.isSome_some, if_true]
  rw [if_pos (by omega)]
  rfl

theorem integer_of_stops {cs : List Char} (hminus : Stops (· == '-') cs)
    (hdigit : Stops (isDigitOf 10) cs) : integer cs = none := by
  rw [integer, bind_some (optional_none (literal_of_stops hminus))]
  exact bind_none (bind_none (satisfy_of_stops hdigit))

/-- A text that is an identifier. -/
def isName (s : String) : Bool :=
  match s.toList with
  | [] => false
  | c :: cs => Text.isIdentifierStart c && cs.all Text.isIdentifierRest

theorem identifier_name {s : String} (hs : isName s = true) {rest : List Char}
    (hrest : Stops Text.isIdentifierRest rest) :
    identifier (s.toList ++ rest) = some (s, rest) := by
  rw [isName] at hs
  cases hlist : s.toList with
  | nil =>
      rw [hlist] at hs
      cases hs
  | cons c cs =>
      rw [hlist] at hs
      obtain ⟨hc, hcs⟩ := Bool.and_eq_true_iff.mp hs
      have hfirst : satisfy Text.isIdentifierStart (c :: (cs ++ rest)) = some (c, cs ++ rest) := by
        rw [satisfy, if_pos hc]
      rw [List.cons_append, identifier, bind_some hfirst,
        bind_some (run_append (List.all_eq_true.mp hcs) hrest), ← hlist, String.ofList_toList]
      rfl

theorem identifier_of_stops {cs : List Char} (h : Stops Text.isIdentifierStart cs) :
    identifier cs = none :=
  bind_none (satisfy_of_stops h)

end Parser
end Listing

/-! ## Characters -/

namespace Text

namespace Ranges

theorem contains_of_mem {rs : Ranges} {r : Nat × Nat} {c : Char} (h : r ∈ rs)
    (hlo : r.1 ≤ c.toNat) (hhi : c.toNat ≤ r.2) : rs.contains c = true :=
  List.any_eq_true.mpr ⟨r, h, by simp [hlo, hhi]⟩

/-- The ranges of one table and those of another have no character in common. -/
def apart (rs qs : Ranges) : Bool :=
  qs.all fun q => rs.all fun r => Nat.blt q.2 r.1 || Nat.blt r.2 q.1

theorem not_contains_of_apart {rs qs : Ranges} {c : Char} (h : apart rs qs = true)
    (hc : qs.contains c = true) : rs.contains c = false := by
  obtain ⟨q, hq, hcq⟩ := List.any_eq_true.mp hc
  refine List.any_eq_false.mpr fun r hr => ?_
  have happart := List.all_eq_true.mp (List.all_eq_true.mp h q hq) r hr
  simp only [Bool.or_eq_true, Nat.blt_eq, Bool.and_eq_true, decide_eq_true_eq] at happart hcq ⊢
  omega

end Ranges

theorem not_isIdentifierStart_of_apart {qs : Ranges} {c : Char}
    (hapart : ∀ rs ∈ [[(0x5f, 0x5f)], identifierStart, recentStart], Ranges.apart rs qs = true)
    (h : qs.contains c = true) : isIdentifierStart c = false := by
  have htable := fun rs hrs => Ranges.not_contains_of_apart (hapart rs hrs) h
  simp only [List.forall_mem_cons] at htable
  obtain ⟨hline, hstart, hrecent, -⟩ := htable
  have hne : (c == '_') = false := beq_false_of_ne fun heq => by
    rw [heq] at hline
    exact absurd hline (by decide)
  rw [isIdentifierStart, hne, hstart, hrecent]
  rfl

/-- Blanks and the punctuation of listings, with some of their neighbours. -/
def separators : Ranges :=
  [(0x0, 0x2f), (0x3a, 0x40), (0x7b, 0xa9), (0x1680, 0x1680), (0x2000, 0x200a), (0x2028, 0x202f),
    (0x205f, 0x205f), (0x3000, 0x3000)]

theorem not_isIdentifierRest {c : Char} (h : separators.contains c = true) :
    isIdentifierRest c = false := by
  have hstart : isIdentifierStart c = false := not_isIdentifierStart_of_apart (by decide +kernel) h
  have hmarks : Ranges.apart identifierMarks separators = true := by decide +kernel
  have hrecent : Ranges.apart recentMarks separators = true := by decide +kernel
  rw [isIdentifierRest, hstart, Ranges.not_contains_of_apart hmarks h,
    Ranges.not_contains_of_apart hrecent h]
  rfl

theorem not_isIdentifierStart {c : Char} (h : isIdentifierRest c = false) :
    isIdentifierStart c = false := by
  rw [isIdentifierRest, Bool.or_eq_false_iff, Bool.or_eq_false_iff] at h
  exact h.1.1

theorem isBlank_of_isSpacing {c : Char} (h : isSpacing c = true) : isBlank c = true := by
  rcases Bool.or_eq_true_iff.mp h with hc | hc <;> rw [eq_of_beq hc] <;> decide

theorem isBlank_of_isLineEnd {c : Char} (h : isLineEnd c = true) : isBlank c = true := by
  simp only [isLineEnd, isBlank, Bool.or_eq_true, Bool.and_eq_true, decide_eq_true_eq,
    beq_iff_eq] at h ⊢
  omega

theorem not_isSpacing_of_isLineEnd {c : Char} (h : isLineEnd c = true) : isSpacing c = false := by
  refine Bool.eq_false_iff.mpr fun hspacing => ?_
  rcases Bool.or_eq_true_iff.mp hspacing with hc | hc <;> rw [eq_of_beq hc] at h <;>
    exact absurd h (by decide)

theorem not_isIdentifierRest_of_isBlank {c : Char} (h : isBlank c = true) :
    isIdentifierRest c = false := by
  refine not_isIdentifierRest ?_
  simp only [isBlank, separators, Ranges.contains, List.any_cons, List.any_nil, Bool.or_eq_true,
    Bool.and_eq_true, decide_eq_true_eq, beq_iff_eq] at h ⊢
  omega

theorem not_isBlank_of_isIdentifierRest {c : Char} (h : isIdentifierRest c = true) :
    isBlank c = false := by
  refine Bool.eq_false_iff.mpr fun hblank => ?_
  rw [not_isIdentifierRest_of_isBlank hblank] at h
  cases h

theorem not_isBlank_of_isIdentifierStart {c : Char} (h : isIdentifierStart c = true) :
    isBlank c = false :=
  not_isBlank_of_isIdentifierRest (by rw [isIdentifierRest, h]; rfl)

end Text

namespace Listing
namespace Parser

theorem toNat_of_isDigitOf {base : Nat} (hle : base ≤ 16) {c : Char}
    (h : isDigitOf base c = true) : 0x30 ≤ c.toNat ∧ c.toNat ≤ 0x39 ∨
      10 < base ∧ (0x41 ≤ c.toNat ∧ c.toNat ≤ 0x46 ∨ 0x61 ≤ c.toNat ∧ c.toNat ≤ 0x66) := by
  have hlt := of_decide_eq_true h
  rw [digitValue] at hlt
  split at hlt
  · next hc => exact .inl hc
  · split at hlt
    · next hc => exact .inr ⟨by omega, .inr hc⟩
    · split at hlt
      · next hc => exact .inr ⟨by omega, .inl hc⟩
      · omega

/-- Digits can go on in an identifier. -/
theorem isIdentifierRest_of_isDigitOf {base : Nat} (hle : base ≤ 16) {c : Char}
    (h : isDigitOf base c = true) : Text.isIdentifierRest c = true := by
  have hmem : ∀ {lo hi : Nat}, (lo, hi) ∈ Text.identifierStart → lo ≤ c.toNat → c.toNat ≤ hi →
      Text.isIdentifierRest c = true := by
    intro lo hi hr hlo hhi
    rw [Text.isIdentifierRest, Text.isIdentifierStart, Text.Ranges.contains_of_mem hr hlo hhi]
    simp
  obtain ⟨hlo, hhi⟩ | ⟨-, ⟨hlo, hhi⟩ | ⟨hlo, hhi⟩⟩ := toNat_of_isDigitOf hle h
  · rw [Text.isIdentifierRest, @Text.Ranges.contains_of_mem Text.identifierMarks (0x30, 0x39) c
      List.mem_cons_self hlo hhi]
    simp
  · exact hmem List.mem_cons_self hlo (Nat.le_trans hhi (by decide))
  · exact hmem (List.mem_cons_of_mem _ List.mem_cons_self) hlo (Nat.le_trans hhi (by decide))

/-- Decimal digits cannot start an identifier. -/
theorem not_isDigitOf_of_isIdentifierStart {c : Char} (h : Text.isIdentifierStart c = true) :
    isDigitOf 10 c = false := by
  refine Bool.eq_false_iff.mpr fun hdigit => ?_
  obtain ⟨hlo, hhi⟩ | ⟨hlt, -⟩ := toNat_of_isDigitOf (by decide) hdigit
  · have hrange : Text.Ranges.contains [(0x30, 0x39)] c = true :=
      Text.Ranges.contains_of_mem List.mem_cons_self hlo hhi
    rw [Text.not_isIdentifierStart_of_apart (by decide +kernel) hrange] at h
    cases h
  · exact absurd hlt (by decide)

/-- A name is followed by no digit either. -/
theorem Stops.digits {cs : List Char} (h : Stops Text.isIdentifierRest cs) {base : Nat}
    (hle : base ≤ 16) : Stops (isDigitOf base) cs := fun c hc =>
  Bool.eq_false_iff.mpr fun hdigit => by
    have hno := h c hc
    rw [isIdentifierRest_of_isDigitOf hle hdigit] at hno
    cases hno

theorem stops_of_isName {s : String} (hs : isName s = true) {ok : Char → Bool}
    (hok : ∀ c, Text.isIdentifierStart c = true → ok c = false) (rest : List Char) :
    Stops ok (s.toList ++ rest) := by
  rw [isName] at hs
  cases hlist : s.toList with
  | nil =>
      rw [hlist] at hs
      cases hs
  | cons d ds =>
      rw [hlist] at hs
      exact stops_cons (hok d (Bool.and_eq_true_iff.mp hs).1)

theorem Stops.spacing {cs : List Char} (h : Stops Text.isBlank cs) : Stops Text.isSpacing cs :=
  h.mono fun _ hc => Bool.eq_false_iff.mpr fun hspacing =>
    Bool.eq_false_iff.mp hc (Text.isBlank_of_isSpacing hspacing)

theorem Stops.lineEnd {cs : List Char} (h : Stops Text.isBlank cs) : Stops Text.isLineEnd cs :=
  h.mono fun _ hc => Bool.eq_false_iff.mpr fun hend =>
    Bool.eq_false_iff.mp hc (Text.isBlank_of_isLineEnd hend)

theorem stops_blank_name {s : String} (hs : isName s = true) (rest : List Char) :
    Stops Text.isBlank (s.toList ++ rest) :=
  stops_of_isName hs (fun _ => Text.not_isBlank_of_isIdentifierStart) rest

theorem stops_name {s : String} (hs : isName s = true) {c : Char}
    (hc : Text.separators.contains c = true) (rest : List Char) :
    Stops (· == c) (s.toList ++ rest) := by
  refine stops_of_isName hs (fun d hd => beq_false_of_ne fun heq => ?_) rest
  rw [heq, Text.not_isIdentifierStart (Text.not_isIdentifierRest hc)] at hd
  cases hd

/-- What is not at the front of a name is not read from it, even if the name is shorter. -/
theorem literal_name {word name rest : List Char} (hword : word.all Text.isIdentifierRest = true)
    (h : ¬ word <+: name) (hrest : Stops Text.isIdentifierRest rest) :
    literal word (name ++ rest) = none := by
  refine if_neg fun hpre => h ?_
  have hfront := List.isPrefixOf_iff_prefix.mp hpre
  rcases Nat.le_total word.length name.length with hle | hle
  · exact List.prefix_of_prefix_length_le hfront (List.prefix_append name rest) hle
  · obtain ⟨more, rfl⟩ := List.prefix_of_prefix_length_le (List.prefix_append name rest) hfront hle
    obtain ⟨last, rfl⟩ := (List.prefix_append_right_inj name).mp hfront
    cases more with
    | nil => exact (List.append_nil name).symm ▸ List.prefix_rfl
    | cons c more =>
        have hc := List.all_eq_true.mp hword c (by simp)
        rw [hrest c rfl] at hc
        cases hc

end Parser
end Listing
end InlineCache
