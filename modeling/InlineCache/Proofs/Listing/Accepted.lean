import InlineCache.Listing.Resolve
import InlineCache.Proofs.Listing.Layout

/-!
# Nothing but layouts

A text that is read as a tree lays out that tree, and the tree can be written
(`wellFormed_renders_of_parse?`). With the other direction, that every layout is read
(`parse?_of_renders`), the reader accepts exactly the layouts of trees that can be written.

`Takes p R` says what a parser takes off the front of a text: what it returns, together with the
characters it took, is in `R`. What it leaves is no part of that, except behind an identifier, which
ends only where no character goes on with it.
-/

namespace InlineCache

open Listing Parser

namespace Listing
namespace Parser

variable {α β : Type} {p q : Parser α} {cs rest : List Char}

/-! ## Sequences and alternatives -/

theorem exists_of_bind {f : α → Parser β} {b : β} (h : (p >>= f) cs = some (b, rest)) :
    ∃ a mid, p cs = some (a, mid) ∧ f a mid = some (b, rest) := by
  cases hp : p cs with
  | none =>
      rw [bind_none hp] at h
      cases h
  | some r =>
      rw [bind_some hp] at h
      exact ⟨r.1, r.2, rfl, h⟩

theorem cases_orElse {a : α} (h : (p <|> q) cs = some (a, rest)) :
    p cs = some (a, rest) ∨ p cs = none ∧ q cs = some (a, rest) := by
  cases hp : p cs with
  | none =>
      rw [orElse_none hp] at h
      exact .inr ⟨rfl, h⟩
  | some r =>
      rw [orElse_some hp] at h
      exact .inl h

theorem exists_of_map {f : α → β} {b : β}
    (h : (do return f (← p) : Parser β) cs = some (b, rest)) :
    ∃ a, p cs = some (a, rest) ∧ b = f a := by
  obtain ⟨a, mid, hp, hpure⟩ := exists_of_bind h
  cases hpure
  exact ⟨a, hp, rfl⟩

theorem cases_optional {x : Option α} (h : optional p cs = some (x, rest)) :
    (∃ a, x = some a ∧ p cs = some (a, rest)) ∨ x = none ∧ rest = cs := by
  rcases cases_orElse h with h | ⟨-, h⟩
  · obtain ⟨a, hp, rfl⟩ := exists_of_map h
    exact .inl ⟨a, rfl, hp⟩
  · cases h
    exact .inr ⟨rfl, rfl⟩

theorem exists_of_discard {u : Unit} (h : (discard p : Parser Unit) cs = some (u, rest)) :
    ∃ a, p cs = some (a, rest) := by
  obtain ⟨a, hp, -⟩ := exists_of_map h
  exact ⟨a, hp⟩

/-! ## What is taken -/

/-- What the parser returns and the characters it takes for it are in the relation. -/
structure Takes (p : Parser α) (R : α → List Char → Prop) : Prop where
  exists_front {cs : List Char} {x : α} {rest : List Char} : p cs = some (x, rest) →
    ∃ front, cs = front ++ rest ∧ R x front

theorem takes_many {R : α → List Char → Prop} {Q : List α → List Char → Prop} (hp : Takes p R)
    (hnil : Q [] [])
    (hcons : ∀ {x xs front more}, R x front → Q xs more → Q (x :: xs) (front ++ more)) :
    Takes (many p) Q := by
  have hupTo : ∀ limit, Takes (manyUpTo p limit) Q := by
    intro limit
    induction limit with
    | zero =>
        refine ⟨fun h => ?_⟩
        cases h
        exact ⟨[], rfl, hnil⟩
    | succ limit ih =>
        refine ⟨fun {cs xs rest} h => ?_⟩
        rw [manyUpTo] at h
        cases hx : p cs with
        | none =>
            simp only [hx] at h
            cases h
            exact ⟨[], rfl, hnil⟩
        | some r =>
            simp only [hx] at h
            obtain ⟨xs', hmore, rfl⟩ := exists_of_map h
            obtain ⟨front, hfront, hR⟩ := hp.exists_front hx
            obtain ⟨more, hrest, hQ⟩ := ih.exists_front hmore
            exact ⟨front ++ more, by rw [hfront, hrest, List.append_assoc], hcons hR hQ⟩
  exact ⟨fun {cs _ _} h => (hupTo cs.length).exists_front h⟩

theorem takes_literal (s : List Char) : Takes (literal s) fun _ cs => cs = s := by
  refine ⟨fun {cs u rest} h => ?_⟩
  rw [literal] at h
  split at h
  · next hpre =>
      obtain ⟨more, rfl⟩ := List.isPrefixOf_iff_prefix.mp hpre
      cases h
      exact ⟨s, by rw [List.drop_left], rfl⟩
  · cases h

theorem takes_satisfy (ok : Char → Bool) :
    Takes (satisfy ok) fun c cs => cs = [c] ∧ ok c = true := by
  refine ⟨fun {cs c rest} h => ?_⟩
  cases cs with
  | nil => cases h
  | cons d cs =>
      rw [satisfy] at h
      split at h
      · next hd =>
          cases h
          exact ⟨[c], rfl, rfl, hd⟩
      · cases h

theorem takes_run (ok : Char → Bool) :
    Takes (run ok) fun ds cs => cs = ds ∧ ∀ d ∈ ds, ok d = true := by
  refine ⟨fun {cs ds rest} h => ?_⟩
  cases h
  exact ⟨cs.takeWhile ok, List.takeWhile_append_dropWhile.symm, rfl,
    List.all_eq_true.mp List.all_takeWhile⟩

theorem takes_spacing : Takes spacing fun _ cs => Spaces cs := by
  refine ⟨fun {cs u rest} h => ?_⟩
  obtain ⟨ds, hrun⟩ := exists_of_discard h
  obtain ⟨front, hcs, rfl, hall⟩ := (takes_run _).exists_front hrun
  exact ⟨front, hcs, hall⟩

theorem takes_white : Takes white fun _ cs => Blanks cs := by
  refine ⟨fun {cs u rest} h => ?_⟩
  obtain ⟨ds, hrun⟩ := exists_of_discard h
  obtain ⟨front, hcs, rfl, hall⟩ := (takes_run _).exists_front hrun
  exact ⟨front, hcs, hall⟩

/-! ## Line breaks -/

theorem takes_newline : Takes newline fun _ cs => LineBreak cs := by
  refine ⟨fun {cs u rest} h => ?_⟩
  rw [newline.eq_def] at h
  split at h
  · cases h
    exact ⟨['\r', '\n'], rfl, by decide⟩
  · next c cs _ =>
      split at h
      · next hc =>
          cases h
          exact ⟨[c], rfl, by simp [Margin, hc], c, List.mem_singleton_self c, hc⟩
      · cases h
  · cases h

theorem takes_lineEnd : Takes lineEnd fun _ cs => LineBreak cs := by
  refine ⟨fun {cs u rest} h => ?_⟩
  obtain ⟨_, mid, hspacing, hnewline⟩ := exists_of_bind h
  obtain ⟨sp, rfl, hsp⟩ := takes_spacing.exists_front hspacing
  obtain ⟨bs, rfl, hbs⟩ := takes_newline.exists_front hnewline
  obtain ⟨c, hc, hend⟩ := hbs.ends
  exact ⟨sp ++ bs, (List.append_assoc sp bs rest).symm, hsp.margin.append hbs.margin, c,
    List.mem_append_right sp hc, hend⟩

theorem takes_onNextLine {R : α → List Char → Prop} (hp : Takes p R) :
    Takes (onNextLine p) fun x cs => ∃ bs body, cs = bs ++ body ∧ LineBreak bs ∧ R x body := by
  refine ⟨fun {cs x rest} h => ?_⟩
  obtain ⟨_, mid, hends, h⟩ := exists_of_bind h
  obtain ⟨_, start, hspacing, hbody⟩ := exists_of_bind h
  obtain ⟨_, more, hend, hdiscard⟩ := exists_of_bind hends
  obtain ⟨us, hmany⟩ := exists_of_discard hdiscard
  obtain ⟨first, rfl, hfirst⟩ := takes_lineEnd.exists_front hend
  have hmargin : Takes (many lineEnd) fun _ cs => Margin cs :=
    takes_many takes_lineEnd (by decide) fun hbreak hmore => hbreak.margin.append hmore
  obtain ⟨ms, rfl, hms⟩ := hmargin.exists_front hmany
  obtain ⟨sp, rfl, hsp⟩ := takes_spacing.exists_front hspacing
  obtain ⟨body, rfl, hR⟩ := hp.exists_front hbody
  refine ⟨first ++ (ms ++ sp) ++ body, by simp, first ++ (ms ++ sp), body, rfl, ?_, hR⟩
  exact hfirst.append (hms.append hsp.margin)

theorem takes_onLines {R : α → List Char → Prop} (hp : Takes p R) :
    Takes (many (onNextLine p)) (OnLines R) := by
  refine takes_many (takes_onNextLine hp) .nil fun hline hmore => ?_
  obtain ⟨bs, body, rfl, hbs, hR⟩ := hline
  rw [List.append_assoc]
  exact .cons hbs hR hmore

theorem takes_separated {R : α → List Char → Prop} (hp : Takes p R) :
    Takes (separated p) (Items R) := by
  have hcomma : Takes (do spacing; literal [',']; spacing; p) fun x cs =>
      ∃ before after body, cs = before ++ ',' :: (after ++ body) ∧ Spaces before ∧ Spaces after ∧
        R x body := by
    refine ⟨fun h => ?_⟩
    obtain ⟨_, mid, hspacing, h⟩ := exists_of_bind h
    obtain ⟨_, mid', hliteral, h⟩ := exists_of_bind h
    obtain ⟨_, start, hspacing', hbody⟩ := exists_of_bind h
    obtain ⟨before, rfl, hbefore⟩ := takes_spacing.exists_front hspacing
    obtain ⟨_, rfl, rfl⟩ := (takes_literal _).exists_front hliteral
    obtain ⟨after, rfl, hafter⟩ := takes_spacing.exists_front hspacing'
    obtain ⟨body, rfl, hR⟩ := hp.exists_front hbody
    exact ⟨before ++ ',' :: (after ++ body), by simp, before, after, body, rfl, hbefore, hafter, hR⟩
  have hitems : Takes (many (do spacing; literal [',']; spacing; p)) (CommaItems R) := by
    refine takes_many hcomma .nil fun hitem hmore => ?_
    obtain ⟨before, after, body, rfl, hbefore, hafter, hR⟩ := hitem
    rw [List.append_assoc, List.cons_append, List.append_assoc]
    exact .cons hbefore hafter hR hmore
  refine ⟨fun {cs xs rest} h => ?_⟩
  rcases cases_orElse h with h | ⟨-, h⟩
  · obtain ⟨x, mid, hx, h⟩ := exists_of_bind h
    obtain ⟨xs', hmany, rfl⟩ := exists_of_map h
    obtain ⟨front, rfl, hR⟩ := hp.exists_front hx
    obtain ⟨more, rfl, hmore⟩ := hitems.exists_front hmany
    exact ⟨front ++ more, (List.append_assoc front more rest).symm, .cons hR hmore⟩
  · cases h
    exact ⟨[], rfl, .nil⟩

/-! ## Tokens -/

theorem takes_number (base : Nat) : Takes (number base) (Numeral base) := by
  refine ⟨fun {cs n rest} h => ?_⟩
  obtain ⟨c, mid, hc, hmore⟩ := exists_of_bind h
  obtain ⟨_, rfl, rfl, hdigit⟩ := (takes_satisfy _).exists_front hc
  split at hmore
  · next hzero =>
      cases hmore
      cases eq_of_beq hzero
      refine ⟨['0'], rfl, by simpa using hdigit, ?_, List.cons_ne_nil _ _, fun _ => rfl⟩
      simp [ofDigits, digitValue]
  · next hzero =>
      obtain ⟨ds, hrun, rfl⟩ := exists_of_map hmore
      obtain ⟨ds, rfl, rfl, hds⟩ := (takes_run _).exists_front hrun
      refine ⟨c :: ds, rfl, List.forall_mem_cons.mpr ⟨hdigit, hds⟩, rfl, List.cons_ne_nil _ _, ?_⟩
      intro hhead
      cases hhead
      exact absurd rfl hzero

theorem takes_numberBelow (bound : Nat) :
    Takes (numberBelow bound) fun n cs => Numeral 10 n cs ∧ n < bound := by
  refine ⟨fun {cs n rest} h => ?_⟩
  obtain ⟨m, mid, hnumber, h⟩ := exists_of_bind h
  split at h
  · next hlt =>
      cases h
      obtain ⟨ds, hcs, hds⟩ := (takes_number 10).exists_front hnumber
      exact ⟨ds, hcs, hds, hlt⟩
  · cases h

theorem takes_operand : Takes operand fun x cs => Operand x cs ∧ x < 0x10000 := by
  refine ⟨fun {cs x rest} h => ?_⟩
  obtain ⟨_, mid, hliteral, hnumber⟩ := exists_of_bind h
  obtain ⟨_, rfl, rfl⟩ := (takes_literal _).exists_front hliteral
  obtain ⟨ds, rfl, hds, hlt⟩ := (takes_numberBelow _).exists_front hnumber
  exact ⟨'%' :: ds, rfl, .mk hds, hlt⟩

theorem takes_fieldIndex : Takes fieldIndex fun index cs =>
    ∃ ds, cs = '#' :: ds ∧ Numeral 10 index ds ∧ index < 0x100000000 := by
  refine ⟨fun {cs x rest} h => ?_⟩
  obtain ⟨_, mid, hliteral, hnumber⟩ := exists_of_bind h
  obtain ⟨_, rfl, rfl⟩ := (takes_literal _).exists_front hliteral
  obtain ⟨ds, rfl, hds, hlt⟩ := (takes_numberBelow _).exists_front hnumber
  exact ⟨'#' :: ds, rfl, ds, rfl, hds, hlt⟩

theorem takes_word : Takes word fun w cs =>
    ∃ hs, cs = '0' :: 'x' :: hs ∧ Numeral 16 w.toNat hs := by
  refine ⟨fun {cs w rest} h => ?_⟩
  obtain ⟨_, mid, hliteral, h⟩ := exists_of_bind h
  obtain ⟨n, mid', hnumber, h⟩ := exists_of_bind h
  split at h
  · next hlt =>
      cases h
      obtain ⟨_, rfl, rfl⟩ := (takes_literal _).exists_front hliteral
      obtain ⟨hs, rfl, hhs⟩ := (takes_number 16).exists_front hnumber
      refine ⟨'0' :: 'x' :: hs, rfl, hs, rfl, ?_⟩
      rwa [Nat.toUInt64_eq, UInt64.toNat_ofNat_of_lt' hlt]
  · cases h

theorem takes_integer : Takes integer fun i cs =>
    TreeArg.Renders (.int i) cs ∧ TreeArg.WellFormed (.int i) := by
  refine ⟨fun {cs i rest} h => ?_⟩
  obtain ⟨minus, mid, hminus, hmore⟩ := exists_of_bind h
  obtain ⟨n, mid', hnumber, hfits⟩ := exists_of_bind hmore
  obtain ⟨ds, rfl, hds⟩ := (takes_number 10).exists_front hnumber
  rcases cases_optional hminus with ⟨_, rfl, hliteral⟩ | ⟨rfl, rfl⟩
  · simp only [Option.isSome_some, if_true] at hfits
    split at hfits
    · next hrange =>
        cases hfits
        obtain ⟨_, rfl, rfl⟩ := (takes_literal _).exists_front hliteral
        exact ⟨'-' :: ds, rfl, .minus hds, hrange⟩
    · cases hfits
  · simp only [Option.isSome_none, Bool.false_eq_true, if_false] at hfits
    split at hfits
    · next hrange =>
        cases hfits
        exact ⟨ds, rfl, .int hds, hrange⟩
    · cases hfits

/-- An identifier takes all it can. -/
theorem exists_of_identifier {s : String} (h : identifier cs = some (s, rest)) :
    cs = s.toList ++ rest ∧ isName s = true ∧ Stops Text.isIdentifierRest rest := by
  obtain ⟨c, mid, hc, hmore⟩ := exists_of_bind h
  obtain ⟨ds, hrun, rfl⟩ := exists_of_map hmore
  obtain ⟨_, rfl, rfl, hstart⟩ := (takes_satisfy _).exists_front hc
  cases hrun
  refine ⟨?_, ?_, stops_dropWhile _ _⟩
  · rw [String.toList_ofList, List.cons_append, List.cons_append,
      List.takeWhile_append_dropWhile]
    rfl
  · rw [isName, String.toList_ofList]
    exact Bool.and_eq_true_iff.mpr ⟨hstart, List.all_takeWhile⟩

/-! ## Lines -/

theorem not_isPrefix_of_literal {word name : List Char} {x : α}
    (h : (do literal word; return x : Parser α) (name ++ rest) = none) : ¬ word <+: name := by
  rintro ⟨more, rfl⟩
  rw [List.append_assoc, bind_some (literal_append word (more ++ rest))] at h
  cases h

theorem takes_arg : Takes arg fun a cs => a.Renders cs ∧ a.WellFormed := by
  refine ⟨fun {cs a rest} h => ?_⟩
  rcases cases_orElse h with hread | ⟨-, h⟩
  · obtain ⟨x, hoperand, rfl⟩ := exists_of_map hread
    obtain ⟨_, hcs, ⟨hds⟩, hlt⟩ := takes_operand.exists_front hoperand
    exact ⟨_, hcs, .operand hds, hlt⟩
  rcases cases_orElse h with hread | ⟨-, h⟩
  · obtain ⟨index, hfield, rfl⟩ := exists_of_map hread
    obtain ⟨_, hcs, ds, rfl, hds, hlt⟩ := takes_fieldIndex.exists_front hfield
    exact ⟨_, hcs, .field hds, hlt⟩
  rcases cases_orElse h with hread | ⟨htrue, h⟩
  · obtain ⟨_, hliteral, rfl⟩ := exists_of_map hread
    obtain ⟨_, hcs, rfl⟩ := (takes_literal _).exists_front hliteral
    exact ⟨_, hcs, .bool, trivial⟩
  rcases cases_orElse h with hread | ⟨hfalse, h⟩
  · obtain ⟨_, hliteral, rfl⟩ := exists_of_map hread
    obtain ⟨_, hcs, rfl⟩ := (takes_literal _).exists_front hliteral
    exact ⟨_, hcs, .bool, trivial⟩
  rcases cases_orElse h with hread | ⟨-, h⟩
  · obtain ⟨i, hinteger, rfl⟩ := exists_of_map hread
    exact takes_integer.exists_front hinteger
  · obtain ⟨s, hidentifier, rfl⟩ := exists_of_map h
    obtain ⟨hcs, hname, -⟩ := exists_of_identifier hidentifier
    rw [hcs] at htrue hfalse
    exact ⟨s.toList, hcs, .name, hname, not_isPrefix_of_literal htrue,
      not_isPrefix_of_literal hfalse⟩

theorem takes_assignment : Takes (optional assignment) fun x cs =>
    Assigned x cs ∧ ∀ n ∈ x, n < 0x10000 := by
  refine ⟨fun {cs x rest} h => ?_⟩
  rcases cases_optional h with ⟨n, rfl, hread⟩ | ⟨rfl, rfl⟩
  · obtain ⟨_, mid, hoperand, hread⟩ := exists_of_bind hread
    obtain ⟨_, mid', hspacing, hread⟩ := exists_of_bind hread
    obtain ⟨_, mid'', hliteral, hread⟩ := exists_of_bind hread
    obtain ⟨_, hspacing', rfl⟩ := exists_of_map hread
    obtain ⟨_, rfl, ⟨hds⟩, hlt⟩ := takes_operand.exists_front hoperand
    obtain ⟨before, rfl, hbefore⟩ := takes_spacing.exists_front hspacing
    obtain ⟨_, rfl, rfl⟩ := (takes_literal _).exists_front hliteral
    obtain ⟨after, rfl, hafter⟩ := takes_spacing.exists_front hspacing'
    refine ⟨_, ?_, .operand hds hbefore hafter, fun n hn => ?_⟩
    · simp
    · cases hn
      exact hlt
  · exact ⟨[], rfl, .absent, fun n hn => by cases hn⟩

theorem takes_line : Takes line fun l cs => l.Renders cs ∧ l.WellFormed := by
  refine ⟨fun {cs l rest} h => ?_⟩
  obtain ⟨x, mid, hassignment, hread⟩ := exists_of_bind h
  obtain ⟨op, behind, hop, hread⟩ := exists_of_bind hread
  split at hread
  · obtain ⟨_, _, hfail, -⟩ := exists_of_bind hread
    cases hfail
  next hne =>
  obtain ⟨_, start, hspacing, hread⟩ := exists_of_bind hread
  obtain ⟨args, hargs, rfl⟩ := exists_of_map hread
  obtain ⟨front, rfl, hfront, hx⟩ := takes_assignment.exists_front hassignment
  obtain ⟨rfl, hname, hstops⟩ := exists_of_identifier hop
  obtain ⟨before, rfl, hbefore⟩ := takes_spacing.exists_front hspacing
  obtain ⟨items, rfl, hitems⟩ := (takes_separated takes_arg).exists_front hargs
  obtain ⟨hitems, hwell⟩ := hitems.split
  refine ⟨front ++ (op.toList ++ (before ++ items)), by simp, .mk hfront hbefore hitems ?_, ?_⟩
  · rintro rfl
    exact @Stops.of_append _ items rest hstops
  · exact ⟨hx, hname, by simpa using hne, hwell⟩

theorem takes_field : Takes field fun f cs => f.Renders cs ∧ f.WellFormed := by
  refine ⟨fun {cs f rest} h => ?_⟩
  obtain ⟨index, mid, hindex, hread⟩ := exists_of_bind h
  obtain ⟨_, mid', hspacing, hread⟩ := exists_of_bind hread
  obtain ⟨type, behind, htype, hread⟩ := exists_of_bind hread
  obtain ⟨_, start, hspacing', hread⟩ := exists_of_bind hread
  obtain ⟨w, hword, rfl⟩ := exists_of_map hread
  obtain ⟨_, rfl, ds, rfl, hds, hlt⟩ := takes_fieldIndex.exists_front hindex
  obtain ⟨before, rfl, hbefore⟩ := takes_spacing.exists_front hspacing
  obtain ⟨rfl, hname, hstops⟩ := exists_of_identifier htype
  obtain ⟨after, rfl, hafter⟩ := takes_spacing.exists_front hspacing'
  obtain ⟨_, rfl, hs, rfl, hhs⟩ := takes_word.exists_front hword
  refine ⟨_, ?_, @TreeField.Renders.mk ⟨index, type, w⟩ ds before after hs hds hbefore hafter ?_
    hhs, hlt, hname⟩
  · simp
  · rintro rfl
    have hdigit := @isIdentifierRest_of_isDigitOf 10 (by decide) '0' (by decide)
    rw [hstops '0' rfl] at hdigit
    cases hdigit

theorem takes_header : Takes header fun x cs =>
    Header x.1 x.2 cs ∧ isName x.1 = true ∧ ∀ n ∈ x.2, n < 0x10000 := by
  refine ⟨fun {cs x rest} h => ?_⟩
  obtain ⟨kind, mid, hkind, hread⟩ := exists_of_bind h
  obtain ⟨_, mid₁, hopen, hread⟩ := exists_of_bind hread
  obtain ⟨_, mid₂, hspacing, hread⟩ := exists_of_bind hread
  obtain ⟨inputs, mid₃, hinputs, hread⟩ := exists_of_bind hread
  obtain ⟨_, mid₄, hspacing', hread⟩ := exists_of_bind hread
  obtain ⟨_, hclose, rfl⟩ := exists_of_map hread
  obtain ⟨rfl, hname, -⟩ := exists_of_identifier hkind
  obtain ⟨_, rfl, rfl⟩ := (takes_literal _).exists_front hopen
  obtain ⟨before, rfl, hbefore⟩ := takes_spacing.exists_front hspacing
  obtain ⟨items, rfl, hitems⟩ := (takes_separated takes_operand).exists_front hinputs
  obtain ⟨after, rfl, hafter⟩ := takes_spacing.exists_front hspacing'
  obtain ⟨_, rfl, rfl⟩ := (takes_literal _).exists_front hclose
  obtain ⟨hitems, hlt⟩ := hitems.split
  refine ⟨_, ?_, .mk hbefore hitems hafter, hname, hlt⟩
  simp

/-! ## Programs -/

theorem takes_fieldSection : Takes (optional fieldSection) fun x cs =>
    Fields (x.getD []) cs ∧ ∀ f ∈ x.getD [], f.WellFormed := by
  refine ⟨fun {cs x rest} h => ?_⟩
  rcases cases_optional h with ⟨fs, rfl, hread⟩ | ⟨rfl, rfl⟩
  · obtain ⟨_, mid, hword, hmany⟩ := exists_of_bind hread
    obtain ⟨_, rfl, bs, _, rfl, hbs, rfl⟩ := (takes_onNextLine (takes_literal _)).exists_front hword
    obtain ⟨lines, rfl, hlines⟩ := (takes_onLines takes_field).exists_front hmany
    obtain ⟨hlines, hwell⟩ := hlines.split
    exact ⟨_, by simp, .listed hbs hlines, hwell⟩
  · exact ⟨[], rfl, .absent, fun _ hf => absurd hf List.not_mem_nil⟩

end Parser

open Parser

/-- What is read as a tree lays out that tree, and the tree can be written. -/
theorem wellFormed_renders_of_parse? {text : String} {t : Tree} (h : Tree.parse? text = some t) :
    t.WellFormed ∧ t.Renders text.toList := by
  rw [Tree.parse?, Option.map_eq_some_iff] at h
  obtain ⟨⟨_, rest⟩, hread, rfl⟩ := h
  obtain ⟨_, mid, hwhite, hread⟩ := exists_of_bind hread
  obtain ⟨⟨kind, inputs⟩, mid₁, hheader, hread⟩ := exists_of_bind hread
  obtain ⟨lines, mid₂, hlines, hread⟩ := exists_of_bind hread
  obtain ⟨fields, mid₃, hfields, hread⟩ := exists_of_bind hread
  obtain ⟨_, mid₄, hwhite', hread⟩ := exists_of_bind hread
  obtain ⟨_, hend, rfl⟩ := exists_of_map hread
  obtain _ | ⟨c, mid₄⟩ := mid₄
  · obtain ⟨before, hbefore, hblanks⟩ := takes_white.exists_front hwhite
    obtain ⟨head, rfl, hhead, hname, hlt⟩ := takes_header.exists_front hheader
    obtain ⟨body, rfl, hbody⟩ := (takes_onLines takes_line).exists_front hlines
    obtain ⟨declared, rfl, hdeclared, hwell⟩ := takes_fieldSection.exists_front hfields
    obtain ⟨after, rfl, hafter⟩ := takes_white.exists_front hwhite'
    obtain ⟨hbody, hwell'⟩ := hbody.split
    rw [hbefore, List.append_nil]
    exact ⟨⟨hname, hlt, hwell', hwell⟩, .mk hblanks hhead hbody hdeclared hafter⟩
  · cases hend

/-- A tree that can be written has layouts. A text is read as that tree if and only if it is one of
them, and all of them come to the same program or the same error. -/
theorem parse_layouts {t : Tree} (hw : t.WellFormed) :
    (∃ text : String, t.Renders text.toList) ∧
      (∀ text : String, Tree.parse? text = some t ↔ t.Renders text.toList) ∧
      ∀ text text' : String, t.Renders text.toList → t.Renders text'.toList →
        parse text = parse text' := by
  refine ⟨⟨String.ofList t.layout, ?_⟩, fun text => ⟨fun h => ?_, parse?_of_renders hw⟩,
    fun text text' h h' => ?_⟩
  · rw [String.toList_ofList]
    exact t.renders_layout
  · exact (wellFormed_renders_of_parse? h).2
  · rw [parse, parse, parse?_of_renders hw h, parse?_of_renders hw h']

/-- Two instructions and a field. -/
def loadReturn : Tree where
  kind := "GetProp"
  inputs := [0]
  lines := [⟨some 1, "LoadField", [.operand 0, .int (-7), .name "Array"]⟩, ⟨none, "Return", []⟩]
  fields := [⟨0, "Shape", 0xab⟩]

/-- The same with tabs, tokens that touch, line ends of several kinds, and white space that is
neither spacing nor a line end. -/
def loadReturnText : String :=
  "\u3000GetProp( %0\t)\r\n\n %1=LoadField%0 ,\t-7, Array \u2028Return \n" ++
    "fields:\r\t#0Shape  0xAB\u00a0"

theorem parse_layouts_loadReturn : loadReturn.WellFormed ∧
    Tree.parse? loadReturnText = some loadReturn ∧
    parse loadReturnText = parse (String.ofList loadReturn.layout) := by
  have hwell : loadReturn.WellFormed := by decide
  have hheader : Header "GetProp" [0] "GetProp( %0\t)".toList :=
    @Header.mk "GetProp" [0] [' '] ['%', '0'] ['\t'] (by decide)
      (@Items.cons _ _ 0 [] ['%', '0'] [] (.mk (by decide)) .nil) (by decide)
  have hargs : Items TreeArg.Renders [.operand 0, .int (-7), .name "Array"]
      "%0 ,\t-7, Array".toList :=
    @Items.cons _ _ _ _ ['%', '0'] _ (.operand (by decide))
      (@CommaItems.cons _ _ _ _ [' '] ['\t'] ['-', '7'] _ (by decide) (by decide)
        (@TreeArg.Renders.minus 7 ['7'] (by decide))
        (@CommaItems.cons _ _ _ _ [] [' '] "Array".toList [] (by decide) (by decide) .name .nil))
  have hload : TreeLine.Renders ⟨some 1, "LoadField", [.operand 0, .int (-7), .name "Array"]⟩
      "%1=LoadField%0 ,\t-7, Array".toList :=
    @TreeLine.Renders.mk ⟨some 1, "LoadField", _⟩ ['%', '1', '='] [] _
      (@Assigned.operand 1 ['1'] [] [] (by decide) (by decide) (by decide)) (by decide) hargs
      (fun _ => stops_cons (Text.not_isIdentifierRest (by decide)))
  have hreturn : TreeLine.Renders ⟨none, "Return", []⟩ "Return ".toList :=
    @TreeLine.Renders.mk ⟨none, "Return", []⟩ [] [' '] [] .absent (by decide) .nil
      (fun hnil => by cases hnil)
  have hfield : TreeField.Renders ⟨0, "Shape", 0xab⟩ "#0Shape  0xAB".toList :=
    @TreeField.Renders.mk ⟨0, "Shape", 0xab⟩ ['0'] [] [' ', ' '] ['A', 'B'] (by decide) (by decide)
      (by decide) (by decide) (by decide)
  have hrenders := @Tree.Renders.mk loadReturn ['\u3000'] _ _ _ ['\u00a0'] (by decide) hheader
    (@OnLines.cons _ _ _ _ ['\r', '\n', '\n', ' '] _ _ (by decide) hload
      (@OnLines.cons _ _ _ _ [' ', '\u2028'] _ [] (by decide) hreturn .nil))
    (@Fields.listed _ ['\n'] _ (by decide)
      (@OnLines.cons _ _ _ _ ['\r', '\t'] _ [] (by decide) hfield .nil)) (by decide)
  have htext : loadReturn.Renders loadReturnText.toList := by
    convert hrenders using 1
    decide +kernel
  obtain ⟨-, hiff, hsame⟩ := parse_layouts hwell
  refine ⟨hwell, (hiff loadReturnText).mpr htext, hsame _ _ htext ?_⟩
  rw [String.toList_ofList]
  exact loadReturn.renders_layout

end Listing
end InlineCache
