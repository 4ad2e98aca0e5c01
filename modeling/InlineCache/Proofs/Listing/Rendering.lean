import InlineCache.Proofs.Listing.Tokens

/-!
# Layouts of a listing

A listing says the same however it is laid out. Inside a line there may be spaces and tabs between
tokens, and there must be some where two tokens would run into each other; lines may be apart by any
number of line ends of any kind, with spaces and tabs on them; around the whole there may be any
white space. `Tree.Renders` says which texts lay out a tree, from the side of the tree and without a
word about how a text is read. `Tree.layout` is the one of them that printed listings have.
-/

namespace InlineCache

open Listing Parser

namespace Listing

/-! ## Trees that can be written -/

/-- Names are identifiers, numbers fit, and no name can be taken for a truth value. -/
def TreeArg.WellFormed : TreeArg → Prop
  | .operand id => id < 0x10000
  | .field index => index < 0x100000000
  | .bool _ => True
  | .int i => -0x8000000000000000 ≤ i ∧ i < 0x8000000000000000
  | .name s => isName s = true ∧ ¬ ['t', 'r', 'u', 'e'] <+: s.toList ∧
      ¬ ['f', 'a', 'l', 's', 'e'] <+: s.toList

instance : (a : TreeArg) → Decidable a.WellFormed
  | .operand id => inferInstanceAs (Decidable (id < 0x10000))
  | .field index => inferInstanceAs (Decidable (index < 0x100000000))
  | .bool _ => inferInstanceAs (Decidable True)
  | .int i => inferInstanceAs (Decidable (-0x8000000000000000 ≤ i ∧ i < 0x8000000000000000))
  | .name s => inferInstanceAs (Decidable (isName s = true ∧ ¬ ['t', 'r', 'u', 'e'] <+: s.toList ∧
      ¬ ['f', 'a', 'l', 's', 'e'] <+: s.toList))

structure TreeLine.WellFormed (l : TreeLine) : Prop where
  defined : ∀ x ∈ l.defined, x < 0x10000
  isName_op : isName l.op = true
  op_ne : l.op ≠ "fields"
  args : ∀ a ∈ l.args, a.WellFormed

instance (l : TreeLine) : Decidable l.WellFormed :=
  decidable_of_iff ((∀ x ∈ l.defined, x < 0x10000) ∧ isName l.op = true ∧ l.op ≠ "fields" ∧
      ∀ a ∈ l.args, a.WellFormed)
    ⟨fun h => ⟨h.1, h.2.1, h.2.2.1, h.2.2.2⟩,
      fun h => ⟨h.defined, h.isName_op, h.op_ne, h.args⟩⟩

structure TreeField.WellFormed (f : TreeField) : Prop where
  index : f.index < 0x100000000
  isName_type : isName f.type = true

instance (f : TreeField) : Decidable f.WellFormed :=
  decidable_of_iff (f.index < 0x100000000 ∧ isName f.type = true)
    ⟨fun h => ⟨h.1, h.2⟩, fun h => ⟨h.index, h.isName_type⟩⟩

structure Tree.WellFormed (t : Tree) : Prop where
  isName_kind : isName t.kind = true
  inputs : ∀ x ∈ t.inputs, x < 0x10000
  lines : ∀ l ∈ t.lines, l.WellFormed
  fields : ∀ f ∈ t.fields, f.WellFormed

instance (t : Tree) : Decidable t.WellFormed :=
  decidable_of_iff (isName t.kind = true ∧ (∀ x ∈ t.inputs, x < 0x10000) ∧
      (∀ l ∈ t.lines, l.WellFormed) ∧ ∀ f ∈ t.fields, f.WellFormed)
    ⟨fun h => ⟨h.1, h.2.1, h.2.2.1, h.2.2.2⟩,
      fun h => ⟨h.isName_kind, h.inputs, h.lines, h.fields⟩⟩

/-! ## Layouts -/

/-- Spaces and tabs. -/
def Spaces (cs : List Char) : Prop :=
  ∀ c ∈ cs, Text.isSpacing c = true

/-- White space of any kind. -/
def Blanks (cs : List Char) : Prop :=
  ∀ c ∈ cs, Text.isBlank c = true

/-- Line ends with spaces and tabs before, between and behind them. -/
def Margin (cs : List Char) : Prop :=
  ∀ c ∈ cs, Text.isSpacing c = true ∨ Text.isLineEnd c = true

/-- What stands between two lines: a margin with a line end in it. -/
structure LineBreak (cs : List Char) : Prop where
  margin : Margin cs
  ends : ∃ c ∈ cs, Text.isLineEnd c = true

instance (cs : List Char) : Decidable (Spaces cs) :=
  decidable_of_iff (cs.all Text.isSpacing = true) List.all_eq_true

instance (cs : List Char) : Decidable (Blanks cs) :=
  decidable_of_iff (cs.all Text.isBlank = true) List.all_eq_true

instance (cs : List Char) : Decidable (Margin cs) :=
  decidable_of_iff (cs.all (fun c => Text.isSpacing c || Text.isLineEnd c) = true)
    (by simp only [List.all_eq_true, Bool.or_eq_true, Margin])

instance (cs : List Char) : Decidable (LineBreak cs) :=
  decidable_of_iff (Margin cs ∧ cs.any Text.isLineEnd = true)
    ⟨fun h => ⟨h.1, List.any_eq_true.mp h.2⟩, fun h => ⟨h.margin, List.any_eq_true.mpr h.ends⟩⟩

section
variable {α : Type} (R : α → List Char → Prop)

/-- Items with a comma before each of them. -/
inductive CommaItems : List α → List Char → Prop where
  | nil : CommaItems [] []
  | cons {x : α} {xs : List α} {before after cs rest : List Char} : Spaces before → Spaces after →
      R x cs → CommaItems xs rest →
      CommaItems (x :: xs) (before ++ ',' :: (after ++ (cs ++ rest)))

/-- Items with commas between them. -/
inductive Items : List α → List Char → Prop where
  | nil : Items [] []
  | cons {x : α} {xs : List α} {cs rest : List Char} : R x cs → CommaItems R xs rest →
      Items (x :: xs) (cs ++ rest)

/-- Items on lines of their own. -/
inductive OnLines : List α → List Char → Prop where
  | nil : OnLines [] []
  | cons {x : α} {xs : List α} {before cs rest : List Char} : LineBreak before → R x cs →
      OnLines xs rest → OnLines (x :: xs) (before ++ (cs ++ rest))

end

/-- The text of an operand. -/
inductive Operand (x : Nat) : List Char → Prop where
  | mk {ds : List Char} : Numeral 10 x ds → Operand x ('%' :: ds)

inductive TreeArg.Renders : TreeArg → List Char → Prop where
  | operand {x : Nat} {ds : List Char} : Numeral 10 x ds → Renders (.operand x) ('%' :: ds)
  | field {index : Nat} {ds : List Char} : Numeral 10 index ds → Renders (.field index) ('#' :: ds)
  | bool {b : Bool} : Renders (.bool b) (Text.truth b).toList
  | int {n : Nat} {ds : List Char} : Numeral 10 n ds → Renders (.int n) ds
  | minus {n : Nat} {ds : List Char} : Numeral 10 n ds → Renders (.int (-n)) ('-' :: ds)
  | name {s : String} : Renders (.name s) s.toList

/-- What stands before an operation. -/
inductive Assigned : Option Nat → List Char → Prop where
  | absent : Assigned none []
  | operand {x : Nat} {ds before after : List Char} : Numeral 10 x ds → Spaces before →
      Spaces after → Assigned (some x) ('%' :: (ds ++ (before ++ '=' :: after)))

/-- Arguments that could go on the name of the operation are behind spaces. -/
inductive TreeLine.Renders (l : TreeLine) : List Char → Prop where
  | mk {front before args : List Char} : Assigned l.defined front → Spaces before →
      Items TreeArg.Renders l.args args → (before = [] → Stops Text.isIdentifierRest args) →
      Renders l (front ++ (l.op.toList ++ (before ++ args)))

inductive TreeField.Renders (f : TreeField) : List Char → Prop where
  | mk {ds before after hs : List Char} : Numeral 10 f.index ds → Spaces before → Spaces after →
      after ≠ [] → Numeral 16 f.word.toNat hs →
      Renders f ('#' :: (ds ++ (before ++ (f.type.toList ++ (after ++ '0' :: 'x' :: hs)))))

/-- The header of a listing. -/
inductive Header (kind : String) (inputs : List Nat) : List Char → Prop where
  | mk {before cs after : List Char} : Spaces before → Items Operand inputs cs → Spaces after →
      Header kind inputs (kind.toList ++ '(' :: (before ++ (cs ++ (after ++ [')']))))

/-- The fields of a listing. If there are none, nothing need be written. -/
inductive Fields : List TreeField → List Char → Prop where
  | absent : Fields [] []
  | listed {fs : List TreeField} {before cs : List Char} : LineBreak before →
      OnLines TreeField.Renders fs cs →
      Fields fs (before ++ (['f', 'i', 'e', 'l', 'd', 's', ':'] ++ cs))

/-- The text lays out the tree. -/
inductive Tree.Renders (t : Tree) : List Char → Prop where
  | mk {before header lines fields after : List Char} : Blanks before →
      Header t.kind t.inputs header → OnLines TreeLine.Renders t.lines lines →
      Fields t.fields fields → Blanks after →
      Renders t (before ++ (header ++ (lines ++ (fields ++ after))))

/-! ## Parts of layouts -/

theorem Spaces.margin {cs : List Char} (h : Spaces cs) : Margin cs :=
  fun c hc => .inl (h c hc)

theorem Margin.append {ms bs : List Char} (hms : Margin ms) (hbs : Margin bs) : Margin (ms ++ bs) :=
  fun c hc => (List.mem_append.mp hc).elim (hms c) (hbs c)

theorem LineBreak.append {bs ms : List Char} (hbs : LineBreak bs) (hms : Margin ms) :
    LineBreak (bs ++ ms) := by
  obtain ⟨c, hc, hend⟩ := hbs.ends
  exact ⟨hbs.margin.append hms, c, List.mem_append_left ms hc, hend⟩

section
variable {α : Type} {R : α → List Char → Prop} {P : α → Prop} {xs : List α} {cs : List Char}

theorem CommaItems.split (h : CommaItems (fun x cs => R x cs ∧ P x) xs cs) :
    CommaItems R xs cs ∧ ∀ x ∈ xs, P x := by
  induction h with
  | nil => exact ⟨.nil, fun _ hx => absurd hx List.not_mem_nil⟩
  | cons hbefore hafter hx _ ih =>
      exact ⟨.cons hbefore hafter hx.1 ih.1, List.forall_mem_cons.mpr ⟨hx.2, ih.2⟩⟩

theorem Items.split (h : Items (fun x cs => R x cs ∧ P x) xs cs) :
    Items R xs cs ∧ ∀ x ∈ xs, P x := by
  cases h with
  | nil => exact ⟨.nil, fun _ hx => absurd hx List.not_mem_nil⟩
  | cons hx hmore =>
      have hsplit := hmore.split
      exact ⟨.cons hx.1 hsplit.1, List.forall_mem_cons.mpr ⟨hx.2, hsplit.2⟩⟩

theorem OnLines.split (h : OnLines (fun x cs => R x cs ∧ P x) xs cs) :
    OnLines R xs cs ∧ ∀ x ∈ xs, P x := by
  induction h with
  | nil => exact ⟨.nil, fun _ hx => absurd hx List.not_mem_nil⟩
  | cons hbefore hx _ ih =>
      exact ⟨.cons hbefore hx.1 ih.1, List.forall_mem_cons.mpr ⟨hx.2, ih.2⟩⟩

end

/-! ## The usual layout -/

def TreeArg.layout : TreeArg → List Char
  | .operand x => '%' :: (Text.decimal x).toList
  | .field index => '#' :: (Text.decimal index).toList
  | .bool b => (Text.truth b).toList
  | .int i => (Text.signed i).toList
  | .name s => s.toList

/-- A line without its indentation and its end. -/
def TreeLine.layout (l : TreeLine) : List Char :=
  (l.defined.elim [] fun x => '%' :: ((Text.decimal x).toList ++ [' ', '=', ' '])) ++
    (l.op.toList ++ (if l.args.isEmpty then []
      else ' ' :: [',', ' '].intercalate (l.args.map TreeArg.layout)))

def TreeField.layout (f : TreeField) : List Char :=
  '#' :: ((Text.decimal f.index).toList ++
    (' ' :: (f.type.toList ++ (' ' :: (Text.hexWord f.word).toList))))

/-- The line end before a line, and its indentation. -/
def indented (cs : List Char) : List Char :=
  '\n' :: ' ' :: ' ' :: cs

/-- Two spaces before each line, one between tokens, and nothing about fields if there are none. -/
def Tree.layout (t : Tree) : List Char :=
  (t.kind.toList ++ '(' ::
      ([',', ' '].intercalate (t.inputs.map fun x => '%' :: (Text.decimal x).toList) ++ [')'])) ++
    (t.lines.flatMap (fun l => indented l.layout) ++
      ((if t.fields.isEmpty then []
        else '\n' :: (['f', 'i', 'e', 'l', 'd', 's', ':'] ++
          t.fields.flatMap fun f => indented f.layout)) ++ ['\n']))

theorem spaces_nil : Spaces [] := by
  decide

theorem spaces_blank : Spaces [' '] := by
  decide

theorem TreeArg.renders_layout (a : TreeArg) : a.Renders a.layout := by
  cases a with
  | operand x => exact .operand (numeral_decimal x)
  | field index => exact .field (numeral_decimal index)
  | bool b => exact .bool
  | int i =>
      rw [layout, Text.signed]
      split
      · next hneg =>
          have hi : i = -(i.natAbs : Int) := by omega
          rw [String.toList_append]
          nth_rewrite 1 [hi]
          exact .minus (numeral_decimal i.natAbs)
      · next hpos =>
          have hi : i = (i.natAbs : Int) := by omega
          nth_rewrite 1 [hi]
          exact .int (numeral_decimal i.natAbs)
  | name s => exact .name

section
variable {α : Type} {R : α → List Char → Prop} {text : α → List Char} {xs : List α}

theorem intercalate_map_cons (sep : List Char) (text : α → List Char) (x : α) (xs : List α) :
    sep.intercalate ((x :: xs).map text) = text x ++ xs.flatMap fun y => sep ++ text y := by
  induction xs generalizing x with
  | nil => simp [List.intercalate]
  | cons y ys ih =>
      rw [List.map_cons, List.map_cons, List.intercalate_cons_cons, ← List.map_cons, ih y,
        List.flatMap_cons]
      simp

variable (h : ∀ x, R x (text x))
include h

theorem commaItems_flatMap (xs : List α) :
    CommaItems R xs (xs.flatMap fun y => [',', ' '] ++ text y) := by
  induction xs with
  | nil => exact .nil
  | cons x xs ih =>
      rw [List.flatMap_cons, List.append_assoc]
      exact .cons spaces_nil spaces_blank (h x) ih

theorem items_intercalate (xs : List α) : Items R xs ([',', ' '].intercalate (xs.map text)) := by
  cases xs with
  | nil => exact .nil
  | cons x xs =>
      rw [intercalate_map_cons]
      exact .cons (h x) (commaItems_flatMap h xs)

theorem onLines_flatMap (xs : List α) : OnLines R xs (xs.flatMap fun x => indented (text x)) := by
  have hbreak : LineBreak ['\n', ' ', ' '] := by decide
  induction xs with
  | nil => exact .nil
  | cons x xs ih =>
      rw [List.flatMap_cons]
      exact .cons hbreak (h x) ih

end

theorem TreeLine.renders_layout (l : TreeLine) : l.Renders l.layout := by
  obtain ⟨defined, op, args⟩ := l
  have hassigned : Assigned defined (defined.elim [] fun x =>
      '%' :: ((Text.decimal x).toList ++ [' ', '=', ' '])) := by
    cases defined with
    | none => exact .absent
    | some x => exact .operand (numeral_decimal x) spaces_blank spaces_blank
  rw [layout]
  cases args with
  | nil => exact @Renders.mk _ _ [] [] hassigned spaces_nil .nil (fun _ => stops_nil)
  | cons a as =>
      exact .mk hassigned spaces_blank (items_intercalate TreeArg.renders_layout (a :: as))
        (fun hnil => by cases hnil)

theorem TreeField.renders_layout (f : TreeField) : f.Renders f.layout := by
  have hword : (Text.hexWord f.word).toList = '0' :: 'x' :: Nat.toDigits 16 f.word.toNat := by
    simp only [Text.hexWord, String.toList_append, String.toList_ofList]
    rfl
  rw [layout, hword]
  exact .mk (numeral_decimal f.index) spaces_blank spaces_blank (by simp)
    (numeral_toDigits (by decide) (by decide) f.word.toNat)

theorem Tree.renders_layout (t : Tree) : t.Renders t.layout := by
  have hheader : Header t.kind t.inputs (t.kind.toList ++ '(' ::
      ([',', ' '].intercalate (t.inputs.map fun x => '%' :: (Text.decimal x).toList) ++ [')'])) :=
    .mk spaces_nil (items_intercalate (fun x => .mk (numeral_decimal x)) t.inputs) spaces_nil
  have hfields : Fields t.fields (if t.fields.isEmpty then []
      else '\n' :: (['f', 'i', 'e', 'l', 'd', 's', ':'] ++
        t.fields.flatMap fun f => indented f.layout)) := by
    obtain ⟨kind, inputs, lines, fields⟩ := t
    cases fields with
    | nil => exact .absent
    | cons f fs =>
        have hbreak : LineBreak ['\n'] := by decide
        exact .listed hbreak (onLines_flatMap TreeField.renders_layout (f :: fs))
  exact @Renders.mk t [] _ _ _ ['\n'] (by decide) hheader
    (onLines_flatMap TreeLine.renders_layout t.lines) hfields (by decide)

end Listing
end InlineCache
