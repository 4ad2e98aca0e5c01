import InlineCache.Proofs.Listing.Rendering

/-!
# Listings in any layout

Every layout of a tree is read as that tree (`parse?_of_renders`).

The parsers take as much as they can. So the spaces behind an operation without arguments go with
the operation, although they might as well belong to the line break, and what a line leaves is known
only up to the spaces before it (`Leaves`). What comes next does not see the difference: a line
break may start with spaces, and so may the white space at the end.
-/

namespace InlineCache

open Listing Parser

namespace Listing

/-! ## Spaces -/

variable {α : Type} {p : Parser α} {ok : Char → Bool} {cs rest : List Char}

/-- Spaces end a name; without any, what comes next has to. -/
theorem Spaces.stops_name (h : Spaces cs) (hrest : cs = [] → Stops Text.isIdentifierRest rest) :
    Stops Text.isIdentifierRest (cs ++ rest) := by
  cases cs with
  | nil => exact hrest rfl
  | cons c cs =>
      have hblank := Text.isBlank_of_isSpacing (h c List.mem_cons_self)
      exact stops_cons (Text.not_isIdentifierRest_of_isBlank hblank)

theorem spacing_eq (cs : List Char) : spacing cs = some ((), cs.dropWhile Text.isSpacing) :=
  rfl

/-- Nothing comes, or a blank. -/
def AtBlank (cs : List Char) : Prop :=
  ∀ c ∈ cs.head?, Text.isBlank c = true

theorem AtBlank.stops (h : AtBlank cs) (hok : ∀ c, Text.isBlank c = true → ok c = false) :
    Stops ok cs :=
  fun c hc => hok c (h c hc)

theorem AtBlank.stops_beq (h : AtBlank cs) {c : Char} (hc : Text.isBlank c = false) :
    Stops (· == c) cs :=
  h.stops fun d hd => beq_false_of_ne fun heq => by
    rw [heq, hc] at hd
    cases hd

theorem AtBlank.stops_name (h : AtBlank cs) : Stops Text.isIdentifierRest cs :=
  h.stops fun _ => Text.not_isIdentifierRest_of_isBlank

theorem Blanks.atBlank (h : Blanks cs) : AtBlank cs :=
  fun c hc => h c (List.mem_of_mem_head? hc)

/-- Nothing more comes on the line. -/
def LineOver (rest : List Char) : Prop :=
  AtBlank (rest.dropWhile Text.isSpacing)

theorem LineOver.atBlank (h : LineOver rest) : AtBlank rest := by
  intro c hc
  by_cases hspacing : Text.isSpacing c = true
  · exact Text.isBlank_of_isSpacing hspacing
  · refine h c ?_
    rw [dropWhile_of_stops fun d hd => ?_]
    · exact hc
    · rw [Option.mem_unique hd hc]
      exact Bool.eq_false_iff.mpr hspacing

theorem LineOver.stops_name (h : LineOver rest) : Stops Text.isIdentifierRest rest :=
  h.atBlank.stops_name

theorem Blanks.lineOver (h : Blanks cs) : LineOver cs :=
  Blanks.atBlank fun c hc => h c ((List.dropWhile_sublist _).subset hc)

/-! ## Line breaks -/

theorem Margin.spaces {bs : List Char} (h : Margin bs)
    (hends : ¬ ∃ c ∈ bs, Text.isLineEnd c = true) : Spaces bs :=
  fun c hc => (h c hc).resolve_right fun hend => hends ⟨c, hc, hend⟩

/-- Behind its first spaces a line break starts with a line end. -/
theorem LineBreak.unspaced {bs : List Char} (h : LineBreak bs) (cs : List Char) :
    ∃ c bs', Text.isLineEnd c = true ∧ Margin bs' ∧ bs'.length < bs.length ∧
      (bs ++ cs).dropWhile Text.isSpacing = c :: (bs' ++ cs) := by
  obtain ⟨hmargin, e, he, hend⟩ := h
  induction bs with
  | nil => cases he
  | cons b bs ih =>
      have hmargin' : Margin bs := fun c hc => hmargin c (List.mem_cons_of_mem b hc)
      by_cases hb : Text.isSpacing b = true
      · have he' : e ∈ bs := by
          refine (List.mem_cons.mp he).resolve_left fun heq => ?_
          rw [← heq, Text.not_isSpacing_of_isLineEnd hend] at hb
          cases hb
        obtain ⟨c, bs', hc, hbs', hlt, hdrop⟩ := ih hmargin' he'
        refine ⟨c, bs', hc, hbs', Nat.lt_succ_of_lt hlt, ?_⟩
        rw [List.cons_append, List.dropWhile_cons_of_pos hb, hdrop]
      · refine ⟨b, bs, (hmargin b List.mem_cons_self).resolve_left hb, hmargin', by simp, ?_⟩
        exact List.dropWhile_cons_of_neg hb

theorem LineBreak.length_pos {bs : List Char} (h : LineBreak bs) : 0 < bs.length := by
  obtain ⟨c, hc, -⟩ := h.ends
  exact List.length_pos_of_mem hc

theorem LineBreak.lineOver {bs : List Char} (h : LineBreak bs) (cs : List Char) :
    LineOver (bs ++ cs) := by
  obtain ⟨c, bs', hc, -, -, hdrop⟩ := h.unspaced cs
  rw [LineOver, hdrop]
  rintro _ ⟨⟩
  exact Text.isBlank_of_isLineEnd hc

/-- A line end takes one or two characters of the margin. -/
theorem newline_margin {c : Char} (hc : Text.isLineEnd c = true) (bs : List Char)
    (hcs : Stops Text.isLineEnd cs) :
    ∃ bs', bs' <:+ bs ∧ newline (c :: (bs ++ cs)) = some ((), bs' ++ cs) := by
  by_cases hpair : c = '\r' ∧ ∃ bs', bs = '\n' :: bs'
  · obtain ⟨rfl, bs', rfl⟩ := hpair
    exact ⟨bs', List.suffix_cons _ _, rfl⟩
  · refine ⟨bs, List.suffix_rfl, ?_⟩
    rw [newline, if_pos hc]
    rintro rest rfl hrest
    refine hpair ⟨rfl, ?_⟩
    cases bs with
    | nil => exact absurd (hcs '\n' (by rw [show cs = _ from hrest]; rfl)) (by decide)
    | cons b bs => exact ⟨bs, by rw [(List.cons.inj hrest).1]⟩

theorem lineEnd_lineBreak {bs : List Char} (h : LineBreak bs) (hcs : Stops Text.isLineEnd cs) :
    ∃ bs', Margin bs' ∧ bs'.length < bs.length ∧ lineEnd (bs ++ cs) = some ((), bs' ++ cs) := by
  obtain ⟨c, bs', hc, hbs', hlt, hdrop⟩ := h.unspaced cs
  obtain ⟨last, hlast, hnewline⟩ := newline_margin hc bs' hcs
  refine ⟨last, fun d hd => hbs' d (hlast.subset hd), Nat.lt_of_le_of_lt hlast.length_le hlt, ?_⟩
  rw [lineEnd, bind_some (spacing_eq _), hdrop, hnewline]

theorem lineEnd_spaces {sp : List Char} (h : Spaces sp) (hspacing : Stops Text.isSpacing cs)
    (hend : Stops Text.isLineEnd cs) : lineEnd (sp ++ cs) = none := by
  rw [lineEnd, bind_some (spacing_append h hspacing), newline_of_stops hend]

/-- Line ends are taken until spaces are left. -/
theorem repeats_lineEnd {bs : List Char} (h : Margin bs) (hspacing : Stops Text.isSpacing cs)
    (hend : Stops Text.isLineEnd cs) :
    ∃ us sp, Spaces sp ∧ Repeats lineEnd (bs ++ cs) us (sp ++ cs) := by
  induction hn : bs.length using Nat.strongRecOn generalizing bs with
  | ind n ih =>
      by_cases hends : ∃ c ∈ bs, Text.isLineEnd c = true
      · obtain ⟨bs', hbs', hlt, hline⟩ := lineEnd_lineBreak ⟨h, hends⟩ hend
        obtain ⟨us, sp, hsp, hrepeats⟩ := ih bs'.length (hn ▸ hlt) hbs' rfl
        refine ⟨() :: us, sp, hsp, .step hline ?_ hrepeats⟩
        rw [List.length_append, List.length_append]
        omega
      · have hsp : Spaces bs := h.spaces hends
        exact ⟨[], bs, hsp, .stop (lineEnd_spaces hsp hspacing hend)⟩

theorem onNextLine_lineBreak {bs : List Char} (h : LineBreak bs)
    (hspacing : Stops Text.isSpacing cs) (hend : Stops Text.isLineEnd cs) :
    onNextLine p (bs ++ cs) = p cs := by
  obtain ⟨bs', hbs', -, hline⟩ := lineEnd_lineBreak h hend
  obtain ⟨us, sp, hsp, hrepeats⟩ := repeats_lineEnd hbs' hspacing hend
  have hends : lineEnds (bs ++ cs) = some ((), sp ++ cs) := by
    rw [lineEnds, bind_some hline, discard_some (many_of_repeats hrepeats)]
  rw [onNextLine, bind_some hends, bind_some (spacing_append hsp hspacing)]

/-- The margin at the front of a text. -/
theorem exists_margin (cs : List Char) : ∃ bs rest, cs = bs ++ rest ∧ Margin bs ∧
    Stops Text.isSpacing rest ∧ Stops Text.isLineEnd rest := by
  let ok := fun c => Text.isSpacing c || Text.isLineEnd c
  refine ⟨cs.takeWhile ok, cs.dropWhile ok, List.takeWhile_append_dropWhile.symm, fun c hc => ?_,
    (stops_dropWhile ok cs).mono fun c hc => ?_, (stops_dropWhile ok cs).mono fun c hc => ?_⟩
  · exact Bool.or_eq_true_iff.mp (List.all_eq_true.mp List.all_takeWhile c hc)
  · exact (Bool.or_eq_false_iff.mp hc).1
  · exact (Bool.or_eq_false_iff.mp hc).2

/-- What cannot be read from blanks is not on a next line of blanks. -/
theorem onNextLine_blanks (h : Blanks cs) (hp : ∀ cs, AtBlank cs → p cs = none) :
    onNextLine p cs = none := by
  obtain ⟨bs, rest, rfl, hbs, hspacing, hend⟩ := exists_margin cs
  by_cases hends : ∃ c ∈ bs, Text.isLineEnd c = true
  · rw [onNextLine_lineBreak ⟨hbs, hends⟩ hspacing hend]
    exact hp rest (Blanks.atBlank fun c hc => h c (List.mem_append_right bs hc))
  · exact bind_none (bind_none (lineEnd_spaces (hbs.spaces hends) hspacing hend))

/-- What is left behind a line: the rest, maybe without the spaces before it. -/
def Leaves (rest rest' : List Char) : Prop :=
  rest' = rest ∨ rest' = rest.dropWhile Text.isSpacing

theorem Leaves.unspaced {rest' : List Char} (h : Leaves rest rest') :
    rest'.dropWhile Text.isSpacing = rest.dropWhile Text.isSpacing := by
  obtain rfl | rfl := h
  · rfl
  · exact dropWhile_of_stops (stops_dropWhile _ rest)

theorem Leaves.length_le {rest' : List Char} (h : Leaves rest rest') :
    rest'.length ≤ rest.length := by
  obtain rfl | rfl := h
  · exact Nat.le_refl _
  · exact (List.dropWhile_sublist _).length_le

theorem LineBreak.leaves {bs start : List Char} (h : LineBreak bs)
    (hstart : Leaves (bs ++ cs) start) : ∃ bs', LineBreak bs' ∧ start = bs' ++ cs := by
  obtain rfl | rfl := hstart
  · exact ⟨bs, h, rfl⟩
  · obtain ⟨c, bs', hc, hbs', -, hdrop⟩ := h.unspaced cs
    have hmargin : Margin (c :: bs') := List.forall_mem_cons.mpr ⟨.inr hc, hbs'⟩
    exact ⟨c :: bs', ⟨hmargin, c, List.mem_cons_self, hc⟩, hdrop⟩

theorem onNextLine_leaves {rest' : List Char} (h : Leaves rest rest') :
    onNextLine p rest' = onNextLine p rest := by
  have hlineEnd : lineEnd rest' = lineEnd rest := by
    show newline (rest'.dropWhile Text.isSpacing) = newline (rest.dropWhile Text.isSpacing)
    rw [h.unspaced]
  have hlineEnds : lineEnds rest' = lineEnds rest := by
    show (lineEnd rest' >>= fun x => _) = (lineEnd rest >>= fun x => _)
    rw [hlineEnd]
  show (lineEnds rest' >>= fun x => _) = (lineEnds rest >>= fun x => _)
  rw [hlineEnds]

/-! ## Arguments -/

/-- The parser takes this text as `x` wherever no identifier could go on, and the text does not
start with a blank. -/
structure Reads (p : Parser α) (x : α) (cs : List Char) : Prop where
  stops : ∀ rest, Stops Text.isBlank (cs ++ rest)
  eq_some : ∀ rest, Stops Text.isIdentifierRest rest → p (cs ++ rest) = some (x, rest)

theorem Operand.reads {x : Nat} (h : Operand x cs) (hx : x < 0x10000) : Reads operand x cs := by
  obtain ⟨hds⟩ := h
  exact ⟨fun rest => stops_cons (by decide),
    fun rest hrest => operand_numeral hx hds (hrest.digits (by decide))⟩

/-- An argument that is none of the first four kinds is an integer or a name. -/
theorem arg_of_stops (hoperand : Stops (· == '%') cs) (hfield : Stops (· == '#') cs)
    (htrue : literal ['t', 'r', 'u', 'e'] cs = none)
    (hfalse : literal ['f', 'a', 'l', 's', 'e'] cs = none) :
    arg cs = ((do return .int (← integer)) <|> (do return .name (← identifier)) :
      Parser TreeArg) cs := by
  rw [arg, orElse_none (bind_none (operand_of_stops hoperand)),
    orElse_none (bind_none (fieldIndex_of_stops hfield)), orElse_none (bind_none htrue),
    orElse_none (bind_none hfalse)]

theorem arg_atBlank (h : AtBlank cs) : arg cs = none := by
  have hstops : ∀ {c : Char}, Text.isBlank c = false → Stops (· == c) cs := h.stops_beq
  have hrest := h.stops_name
  rw [arg_of_stops (hstops (by decide)) (hstops (by decide))
    (literal_of_stops (hstops (by decide))) (literal_of_stops (hstops (by decide))),
    orElse_none (bind_none (integer_of_stops (hstops (by decide)) (hrest.digits (by decide))))]
  exact bind_none (identifier_of_stops (hrest.mono fun _ => Text.not_isIdentifierStart))

theorem TreeArg.Renders.reads {a : TreeArg} (h : a.Renders cs) (hw : a.WellFormed) :
    Reads arg a cs := by
  cases h with
  | operand hds =>
      refine ⟨fun rest => stops_cons (by decide), fun rest hrest => ?_⟩
      exact orElse_some (bind_some (operand_numeral hw hds (hrest.digits (by decide))))
  | field hds =>
      refine ⟨fun rest => stops_cons (by decide), fun rest hrest => ?_⟩
      refine (orElse_none (bind_none (operand_of_stops (stops_cons (by decide))))).trans ?_
      exact orElse_some (bind_some (fieldIndex_numeral hw hds (hrest.digits (by decide))))
  | @bool b =>
      cases b with
      | true =>
          refine ⟨fun rest => stops_cons (by decide), fun rest _ => ?_⟩
          refine (orElse_none (bind_none (operand_of_stops (stops_cons (by decide))))).trans ?_
          refine (orElse_none (bind_none (fieldIndex_of_stops (stops_cons (by decide))))).trans ?_
          exact orElse_some (bind_some (literal_append ['t', 'r', 'u', 'e'] rest))
      | false =>
          refine ⟨fun rest => stops_cons (by decide), fun rest _ => ?_⟩
          refine (orElse_none (bind_none (operand_of_stops (stops_cons (by decide))))).trans ?_
          refine (orElse_none (bind_none (fieldIndex_of_stops (stops_cons (by decide))))).trans ?_
          refine (orElse_none (bind_none (literal_of_stops (stops_cons (by decide))))).trans ?_
          exact orElse_some (bind_some (literal_append ['f', 'a', 'l', 's', 'e'] rest))
  | int hds =>
      have hstops : ∀ {c : Char} rest, isDigitOf 10 c = false → Stops (· == c) (cs ++ rest) :=
        fun rest hc => hds.stops (beq_of_not_isDigitOf hc) rest
      refine ⟨fun rest => hds.stops (fun c hc => ?_) rest, fun rest hrest => ?_⟩
      · exact Text.not_isBlank_of_isIdentifierRest (isIdentifierRest_of_isDigitOf (by decide) hc)
      · rw [arg_of_stops (hstops rest (by decide)) (hstops rest (by decide))
          (literal_of_stops (hstops rest (by decide))) (literal_of_stops (hstops rest (by decide)))]
        exact orElse_some (bind_some (integer_numeral hw.2 hds (hrest.digits (by decide))))
  | minus hds =>
      refine ⟨fun rest => stops_cons (by decide), fun rest hrest => ?_⟩
      refine (arg_of_stops (stops_cons (by decide)) (stops_cons (by decide))
        (literal_of_stops (stops_cons (by decide)))
        (literal_of_stops (stops_cons (by decide)))).trans ?_
      exact orElse_some (bind_some (integer_minus hw.1 hds (hrest.digits (by decide))))
  | @name s =>
      obtain ⟨hs, htrue, hfalse⟩ := hw
      refine ⟨stops_blank_name hs, fun rest hrest => ?_⟩
      rw [arg_of_stops (stops_name hs (by decide) rest) (stops_name hs (by decide) rest)
        (literal_name (by decide) htrue hrest) (literal_name (by decide) hfalse hrest),
        orElse_none (bind_none (integer_of_stops (stops_name hs (by decide) rest)
          (stops_of_isName hs (fun _ => not_isDigitOf_of_isIdentifierStart) rest)))]
      exact bind_some (identifier_name hs hrest)

/-! ## Items -/

section
variable {R : α → List Char → Prop} {xs : List α}

theorem CommaItems.stops (h : CommaItems R xs cs) : Stops Text.isIdentifierRest cs := by
  cases h with
  | nil => exact stops_nil
  | cons hbefore =>
      exact hbefore.stops_name fun _ => stops_cons (Text.not_isIdentifierRest (by decide))

variable (hreads : ∀ x ∈ xs, ∀ cs, R x cs → Reads p x cs)
  (hrest : Stops Text.isIdentifierRest rest)
  (hcomma : Stops (· == ',') (rest.dropWhile Text.isSpacing))
include hreads hrest hcomma

theorem CommaItems.repeats (h : CommaItems R xs cs) :
    Repeats (do spacing; literal [',']; spacing; p) (cs ++ rest) xs rest := by
  induction h with
  | nil =>
      refine .stop ((bind_some (spacing_eq rest)).trans ?_)
      exact bind_none (literal_of_stops hcomma)
  | @cons x xs before after cs more hbefore hafter hx hmore ih =>
      have hx' := hreads x List.mem_cons_self cs hx
      rw [List.append_assoc, List.cons_append, List.append_assoc, List.append_assoc]
      refine .step ?_ ?_ (ih fun y hy => hreads y (List.mem_cons_of_mem x hy))
      · refine (bind_some (spacing_append hbefore (stops_cons (by decide)))).trans ?_
        refine (bind_some (literal_append [','] (after ++ (cs ++ (more ++ rest))))).trans ?_
        refine (bind_some (spacing_append hafter (hx'.stops (more ++ rest)).spacing)).trans ?_
        exact hx'.eq_some (more ++ rest) (hmore.stops.append hrest)
      · simp only [List.length_append, List.length_cons]
        omega

/-- Where there are no items, the spaces behind them are taken too. -/
theorem Items.spacing_separated (h : Items R xs cs) {before : List Char} (hbefore : Spaces before)
    (hnone : p (rest.dropWhile Text.isSpacing) = none) :
    ∃ rest', Leaves rest rest' ∧
      (do spacing; Parser.separated p) (before ++ (cs ++ rest)) = some (xs, rest') := by
  cases h with
  | nil =>
      refine ⟨rest.dropWhile Text.isSpacing, .inr rfl, ?_⟩
      rw [List.nil_append, bind_some (spacing_eq _), List.dropWhile_append_of_pos hbefore]
      exact orElse_none (bind_none hnone)
  | @cons x xs cs more hx hmore =>
      have hx' := hreads x List.mem_cons_self cs hx
      have hmany := many_of_repeats
        (hmore.repeats (fun y hy => hreads y (List.mem_cons_of_mem x hy)) hrest hcomma)
      refine ⟨rest, .inl rfl, ?_⟩
      rw [List.append_assoc, bind_some (spacing_append hbefore (hx'.stops _).spacing)]
      refine orElse_some ?_
      rw [bind_some (hx'.eq_some (more ++ rest) (hmore.stops.append hrest)), bind_some hmany]
      rfl

end

/-! ## Lines -/

theorem optional_assignment {x : Option Nat} (h : Assigned x cs) (hx : ∀ n ∈ x, n < 0x10000)
    (hpercent : Stops (· == '%') rest) (hspacing : Stops Text.isSpacing rest) :
    Parser.optional assignment (cs ++ rest) = some (x, rest) := by
  cases h with
  | absent => exact optional_none (assignment_of_stops hpercent)
  | @operand n ds before after hds hbefore hafter =>
      have hequals : Stops Text.isIdentifierRest ('=' :: (after ++ rest)) :=
        stops_cons (Text.not_isIdentifierRest (by decide))
      have hdigits : Stops (isDigitOf 10) (before ++ '=' :: (after ++ rest)) :=
        (hbefore.stops_name fun _ => hequals).digits (by decide)
      rw [List.cons_append, List.append_assoc, List.append_assoc, List.cons_append]
      refine optional_some ((bind_some (operand_numeral (hx n rfl) hds hdigits)).trans ?_)
      refine (bind_some (spacing_append hbefore (stops_cons (by decide)))).trans ?_
      refine (bind_some (literal_append ['='] (after ++ rest))).trans ?_
      exact bind_some (spacing_append hafter hspacing)

theorem Assigned.stops {x : Option Nat} (h : Assigned x cs) {ok : Char → Bool}
    (hok : ok '%' = false) (hrest : Stops ok rest) : Stops ok (cs ++ rest) := by
  cases h with
  | absent => exact hrest
  | operand => exact stops_cons hok

/-- The parser takes this text as `x` if nothing more comes on the line, and the text does not start
with a blank. -/
structure ReadsLine (p : Parser α) (x : α) (cs : List Char) : Prop where
  stops : ∀ rest, Stops Text.isBlank (cs ++ rest)
  eq_some : ∀ rest, LineOver rest → ∃ rest', Leaves rest rest' ∧ p (cs ++ rest) = some (x, rest')

theorem TreeLine.Renders.reads {l : TreeLine} (h : l.Renders cs) (hw : l.WellFormed) :
    ReadsLine line l cs := by
  obtain @⟨front, before, args, hfront, hbefore, hargs, hstops⟩ := h
  refine ⟨fun rest => ?_, fun rest hrest => ?_⟩
  · rw [List.append_assoc, List.append_assoc]
    exact hfront.stops (by decide) (stops_blank_name hw.isName_op _)
  · have hname : Stops Text.isIdentifierRest (before ++ (args ++ rest)) :=
      hbefore.stops_name fun hnil => (hstops hnil).append hrest.stops_name
    obtain ⟨rest', hleaves, hread⟩ := hargs.spacing_separated
      (fun a ha cs hcs => hcs.reads (hw.args a ha)) hrest.stops_name (hrest.stops_beq (by decide))
      hbefore (arg_atBlank hrest)
    refine ⟨rest', hleaves, ?_⟩
    simp only [List.append_assoc]
    -- the spaces behind the operation go with its arguments: both are read in one step
    rw [line, bind_some (optional_assignment hfront hw.defined
        (stops_name hw.isName_op (by decide) _) (stops_blank_name hw.isName_op _).spacing),
      bind_some (identifier_name hw.isName_op hname), if_neg (by simpa using hw.op_ne)]
    exact (congrFun (bind_assoc spacing (fun _ => separated arg) _).symm _).trans (bind_some hread)

theorem line_atBlank (h : AtBlank cs) : line cs = none := by
  rw [line, bind_some (optional_none (assignment_of_stops (h.stops_beq (by decide))))]
  exact bind_none (identifier_of_stops (h.stops_name.mono fun _ => Text.not_isIdentifierStart))

/-- The line that starts the fields is no instruction. -/
theorem line_fields (rest : List Char) :
    line (['f', 'i', 'e', 'l', 'd', 's', ':'] ++ rest) = none := by
  have hname : identifier (['f', 'i', 'e', 'l', 'd', 's'] ++ ':' :: rest) =
      some ("fields", ':' :: rest) :=
    @identifier_name "fields" (by decide) (':' :: rest)
      (stops_cons (Text.not_isIdentifierRest (by decide)))
  refine (bind_some (optional_none (assignment_of_stops (stops_cons (by decide))))).trans ?_
  exact bind_some hname

theorem TreeField.Renders.reads {f : TreeField} (h : f.Renders cs) (hw : f.WellFormed) :
    Reads field f cs := by
  obtain @⟨ds, before, after, hs, hds, hbefore, hafter, hne, hhs⟩ := h
  refine ⟨fun rest => stops_cons (by decide), fun rest hrest => ?_⟩
  have hdigits : Stops (isDigitOf 10)
      (before ++ (f.type.toList ++ (after ++ '0' :: 'x' :: (hs ++ rest)))) := by
    cases before with
    | nil => exact stops_of_isName hw.isName_type (fun _ => not_isDigitOf_of_isIdentifierStart) _
    | cons c before => exact (hbefore.stops_name fun hnil => by cases hnil).digits (by decide)
  have hname : Stops Text.isIdentifierRest (after ++ '0' :: 'x' :: (hs ++ rest)) :=
    hafter.stops_name fun hnil => absurd hnil hne
  simp only [List.cons_append, List.append_assoc]
  refine (bind_some (fieldIndex_numeral hw.index hds hdigits)).trans ?_
  rw [bind_some (spacing_append hbefore (stops_blank_name hw.isName_type _).spacing),
    bind_some (identifier_name hw.isName_type hname),
    bind_some (spacing_append hafter (stops_cons (by decide))),
    bind_some (word_numeral hhs (hrest.digits (by decide)))]
  rfl

theorem field_atBlank (h : AtBlank cs) : field cs = none :=
  bind_none (fieldIndex_of_stops (h.stops_beq (by decide)))

theorem Reads.readsLine {x : α} (h : Reads p x cs) : ReadsLine p x cs :=
  ⟨h.stops, fun rest hrest => ⟨rest, .inl rfl, h.eq_some rest hrest.stops_name⟩⟩

theorem Header.reads {kind : String} {inputs : List Nat} (h : Header kind inputs cs)
    (hkind : isName kind = true) (hinputs : ∀ x ∈ inputs, x < 0x10000) :
    Reads header (kind, inputs) cs := by
  obtain @⟨before, cs, after, hbefore, hitems, hafter⟩ := h
  refine ⟨fun rest => ?_, fun rest _ => ?_⟩
  · rw [List.append_assoc]
    exact stops_blank_name hkind _
  · have hparen : ∀ {ok : Char → Bool}, ok ')' = false → Stops ok (')' :: rest) := stops_cons
    have hunspaced : (after ++ ')' :: rest).dropWhile Text.isSpacing = ')' :: rest := by
      rw [List.dropWhile_append_of_pos hafter, dropWhile_of_stops (hparen (by decide))]
    obtain ⟨rest', hleaves, hread⟩ := hitems.spacing_separated
      (fun x hx cs hcs => hcs.reads (hinputs x hx))
      (hafter.stops_name fun _ => hparen (Text.not_isIdentifierRest (by decide)))
      (by rw [hunspaced]; exact hparen (by decide)) hbefore
      (by rw [hunspaced]; exact operand_of_stops (hparen (by decide)))
    simp only [List.append_assoc, List.cons_append, List.nil_append]
    rw [header,
      bind_some (identifier_name hkind (stops_cons (Text.not_isIdentifierRest (by decide))))]
    refine (bind_some (literal_append ['('] (before ++ (cs ++ (after ++ ')' :: rest))))).trans ?_
    refine (congrFun (bind_assoc spacing (fun _ => separated operand) _).symm _).trans ?_
    rw [bind_some hread, bind_some (spacing_eq rest'), hleaves.unspaced, hunspaced]
    exact bind_some (literal_append [')'] rest)

/-! ## Programs -/

section
variable {R : α → List Char → Prop} {xs : List α}

theorem OnLines.lineOver (h : OnLines R xs cs) (hrest : LineOver rest) : LineOver (cs ++ rest) := by
  cases h with
  | nil => exact hrest
  | cons hbefore =>
      rw [List.append_assoc]
      exact hbefore.lineOver _

/-- Items on lines of their own are read one after the other, whatever spaces were taken before. -/
theorem OnLines.repeats (hreads : ∀ x ∈ xs, ∀ cs, R x cs → ReadsLine p x cs)
    (h : OnLines R xs cs) (hrest : LineOver rest) (hnone : onNextLine p rest = none)
    {start : List Char} (hstart : Leaves (cs ++ rest) start) :
    ∃ rest', Leaves rest rest' ∧ Repeats (onNextLine p) start xs rest' := by
  -- the line before may have taken the spaces at the start, so the start varies
  induction h generalizing start with
  | nil => exact ⟨start, hstart, .stop ((onNextLine_leaves hstart).trans hnone)⟩
  | @cons x xs before cs more hbefore hx hmore ih =>
      have hx' := hreads x List.mem_cons_self cs hx
      rw [List.append_assoc, List.append_assoc] at hstart
      obtain ⟨bs, hbs, rfl⟩ := hbefore.leaves hstart
      obtain ⟨rest₁, hleaves, hread⟩ := hx'.eq_some (more ++ rest) (hmore.lineOver hrest)
      obtain ⟨rest', hrest', hrepeats⟩ :=
        ih (fun y hy => hreads y (List.mem_cons_of_mem x hy)) hleaves
      refine ⟨rest', hrest', .step ?_ ?_ hrepeats⟩
      · rw [onNextLine_lineBreak hbs (hx'.stops _).spacing (hx'.stops _).lineEnd, hread]
      · have hlength := hleaves.length_le
        have hpos := hbs.length_pos
        simp only [List.length_append] at hlength ⊢
        omega

end

theorem Leaves.blanks {rest' : List Char} (h : Leaves rest rest') (hrest : Blanks rest) :
    Blanks rest' := by
  obtain rfl | rfl := h
  · exact hrest
  · exact fun c hc => hrest c ((List.dropWhile_sublist _).subset hc)

section
variable {fs : List TreeField} {after : List Char} (h : Fields fs cs) (hafter : Blanks after)
include h hafter

theorem Fields.lineOver : LineOver (cs ++ after) := by
  cases h with
  | absent => exact hafter.lineOver
  | listed hbefore =>
      rw [List.append_assoc]
      exact hbefore.lineOver _

/-- There are no more instructions. -/
theorem Fields.onNextLine_line : onNextLine line (cs ++ after) = none := by
  cases h with
  | absent => exact onNextLine_blanks hafter fun _ => line_atBlank
  | listed hbefore _ =>
      rw [List.append_assoc, List.append_assoc]
      refine (onNextLine_lineBreak hbefore (stops_cons ?_) (stops_cons ?_)).trans
        (line_fields _) <;> decide

theorem Fields.optional_fieldSection (hwell : ∀ f ∈ fs, f.WellFormed) {start : List Char}
    (hstart : Leaves (cs ++ after) start) :
    ∃ fields rest', Parser.optional fieldSection start = some (fields, rest') ∧
      fields.getD [] = fs ∧ Blanks rest' := by
  cases h with
  | absent =>
      refine ⟨none, start, optional_none (bind_none ?_), rfl, hstart.blanks hafter⟩
      refine onNextLine_blanks (hstart.blanks hafter) fun cs hcs => ?_
      exact literal_of_stops (hcs.stops_beq (by decide))
  | @listed _ before cs hbefore hfields =>
      obtain ⟨rest', hrest', hrepeats⟩ := hfields.repeats
        (fun f hf cs hcs => (hcs.reads (hwell f hf)).readsLine) hafter.lineOver
        (onNextLine_blanks hafter fun _ => field_atBlank) (.inl rfl)
      refine ⟨some fs, rest', optional_some ?_, rfl, hrest'.blanks hafter⟩
      have hword : onNextLine (literal ['f', 'i', 'e', 'l', 'd', 's', ':']) start =
          some ((), cs ++ after) := by
        rw [onNextLine_leaves hstart, List.append_assoc, List.append_assoc]
        refine (onNextLine_lineBreak hbefore (stops_cons ?_) (stops_cons ?_)).trans
          (literal_append _ _) <;> decide
      rw [fieldSection, bind_some hword, many_of_repeats hrepeats]

end

theorem program_of_renders {t : Tree} (hw : t.WellFormed) (h : t.Renders cs) :
    program cs = some (t, []) := by
  obtain @⟨before, head, lines, fields, after, hbefore, hheader, hlines, hfields, hafter⟩ := h
  have hhead := hheader.reads hw.isName_kind hw.inputs
  have hover := hfields.lineOver hafter
  obtain ⟨rest, hrest, hrepeats⟩ := hlines.repeats (fun l hl cs hcs => hcs.reads (hw.lines l hl))
    hover (hfields.onNextLine_line hafter) (.inl rfl)
  obtain ⟨found, last, hsection, hfound, hlast⟩ :=
    hfields.optional_fieldSection hafter hw.fields hrest
  have hwhite : white last = some ((), []) := by
    have hend := @white_append last [] hlast stops_nil
    rwa [List.append_nil] at hend
  rw [program, bind_some (white_append hbefore (hhead.stops _)),
    bind_some (hhead.eq_some _ (hlines.lineOver hover).stops_name)]
  refine (bind_some (many_of_repeats hrepeats)).trans ?_
  refine (bind_some hsection).trans ?_
  refine (bind_some hwhite).trans ?_
  rw [hfound]
  rfl

theorem parse?_of_renders {t : Tree} (hw : t.WellFormed) {text : String}
    (h : t.Renders text.toList) : Tree.parse? text = some t := by
  rw [Tree.parse?, program_of_renders hw h]
  rfl

end Listing
end InlineCache
