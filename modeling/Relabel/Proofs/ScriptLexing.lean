import Mathlib.Data.List.TakeWhile
import Relabel.Proofs.Lexing

/-!
# Comments and strings in scripts

The lexemes of a script are line comments and closed block comments, closed string and template
literals, and characters (`Js.lexicon`). The templates for scripts have comments and strings as
their first alternatives and so step over the same lexemes (`Js.matchAt_cases`).
-/

open scoped Computability

namespace Relabel.Js

open Pattern Lexicon

def quotes : List Char :=
  ['"', '\'', '`']

theorem ne_slash_of_mem_quotes {quote : Char} (h : quote ∈ quotes) : quote ≠ '/' := by
  rintro rfl
  exact absurd h (by decide)

def onLine (c : Char) : Bool :=
  c != '\n'

/-- A comment at the start of a text, and what follows: up to the end of the line, or up to the
delimiter that closes it. -/
def comment? : List Char → Option (List Char × List Char)
  | '/' :: '/' :: inside => some ('/' :: '/' :: inside.takeWhile onLine, inside.dropWhile onLine)
  | text => Css.comment? text

/-- The content of a template literal up to the closing quote, and what follows. A backslash takes
the next character with it. -/
def template? : List Char → Option (List Char × List Char)
  | [] => none
  | '`' :: rest => some ([], rest)
  | '\\' :: c :: rest => (template? rest).map fun (body, rest) => ('\\' :: c :: body, rest)
  | c :: rest => (template? rest).map fun (body, rest) => (c :: body, rest)

/-- The quote and the content of a closed literal at the start of a text, and what follows. -/
def string? : List Char → Option (Char × List Char × List Char)
  | '`' :: inside => (template? inside).map fun found => ('`', found)
  | text => Css.string? text

/-- A comment goes to the end of its line, or to its closing delimiter. -/
theorem comment?_cases {text part rest : List Char} (h : comment? text = some (part, rest)) :
    (∃ inside, text = '/' :: '/' :: inside ∧ part = '/' :: '/' :: inside.takeWhile onLine ∧
      rest = inside.dropWhile onLine) ∨ Css.comment? text = some (part, rest) := by
  unfold comment? at h
  split at h
  · rename_i inside
    obtain ⟨rfl, rfl⟩ := Prod.mk.inj (Option.some.inj h)
    exact .inl ⟨inside, rfl, rfl, rfl⟩
  · exact .inr h

theorem comment?_eq_none {text : List Char} (h : comment? text = none) :
    Css.comment? text = none ∧ ∀ inside, text ≠ '/' :: '/' :: inside := by
  unfold comment? at h
  split at h
  · cases h
  · rename_i hline
    exact ⟨h, hline⟩

/-- A literal is a template literal, or a string as in style sheets. -/
theorem string?_cases {text body rest : List Char} {quote : Char}
    (h : string? text = some (quote, body, rest)) :
    (quote = '`' ∧ ∃ inside, text = '`' :: inside ∧ template? inside = some (body, rest)) ∨
      Css.string? text = some (quote, body, rest) := by
  unfold string? at h
  split at h
  · rename_i inside
    obtain ⟨found, hfound, heq⟩ := Option.map_eq_some_iff.mp h
    obtain ⟨rfl, rfl⟩ := Prod.mk.inj heq
    exact .inl ⟨rfl, inside, rfl, hfound⟩
  · exact .inr h

theorem string?_eq_none {text : List Char} (h : string? text = none) :
    Css.string? text = none ∧ ∀ inside, text = '`' :: inside → template? inside = none := by
  unfold string? at h
  split at h
  · rename_i inside
    refine ⟨by simp [Css.string?], ?_⟩
    rintro inside' ⟨rfl⟩
    exact Option.map_eq_none_iff.mp h
  · rename_i hquote
    exact ⟨h, fun inside heq => absurd heq (hquote inside)⟩

theorem eq_append_of_template? {text body rest : List Char}
    (h : template? text = some (body, rest)) : text = body ++ '`' :: rest := by
  fun_induction template? text generalizing body rest with
  | case1 => cases h
  | case2 rest' => cases h; rfl
  | case3 c rest' ih | case4 c rest' _ _ ih =>
    obtain ⟨⟨body', behind⟩, hlater, heq⟩ := Option.map_eq_some_iff.mp h
    cases heq
    rw [ih hlater]
    rfl

/-- Nothing of the text is lost when a comment is taken. -/
theorem eq_append_of_comment? {text part rest : List Char}
    (h : comment? text = some (part, rest)) : text = part ++ rest ∧ part ≠ [] := by
  rcases comment?_cases h with ⟨inside, rfl, rfl, rfl⟩ | hcomment
  · simp [List.takeWhile_append_dropWhile]
  · exact Css.eq_append_of_comment? hcomment

/-- Nothing of the text is lost when a literal is taken. -/
theorem eq_append_of_string? {text body rest : List Char} {quote : Char}
    (h : string? text = some (quote, body, rest)) :
    text = (Lexeme.string quote body).text ++ rest := by
  rcases string?_cases h with ⟨rfl, inside, rfl, hinside⟩ | hstring
  · rw [eq_append_of_template? hinside]
    simp [Lexeme.text]
  · exact Css.eq_append_of_string? hstring

theorem comment?_of_ne {c : Char} (h : c ≠ '/') (rest : List Char) :
    comment? (c :: rest) = none := by
  simp [comment?, Css.comment?, h]

def lexicon : Lexicon where
  comment? := comment?
  string? := string?
  openers := '/' :: quotes
  eq_append_of_comment? := eq_append_of_comment?
  eq_append_of_string? := eq_append_of_string?
  plain_of_notMem := by
    intro c hc rest
    simp only [quotes, List.mem_cons, List.not_mem_nil, or_false, not_or] at hc
    refine ⟨comment?_of_ne hc.1 rest, ?_⟩
    simp [string?, Css.string?, hc]

/-- A comment begins with a slash. -/
theorem exists_slash_of_comment_mem {text part : List Char}
    (h : .comment part ∈ lexicon.lexemes text) : ∃ later, part = '/' :: later := by
  fun_induction lexemes lexicon text with
  | case1 text first rest hfirst ih =>
    rcases List.mem_cons.mp h with rfl | hlater
    · rcases lexeme?_cases hfirst with ⟨_, ⟨rfl⟩, hcomment⟩ | ⟨_, _, ⟨⟩, -⟩ | ⟨_, ⟨⟩, -⟩
      rcases comment?_cases hcomment with ⟨_, -, rfl, -⟩ | hblock
      · exact ⟨_, rfl⟩
      · obtain ⟨_, _, -, -, rfl⟩ := Css.comment?_eq_some_iff.mp hblock
        exact ⟨_, rfl⟩
    · exact ih hlater
  | case2 => cases h

/-! ### The patterns of comments and strings -/

def linePattern : Pattern :=
  row [char '/', char '/', Pattern.star (.set (.compl (.single '\n')))]

def templateItem : Pattern :=
  .alt (row [.set (.compl (.union (.single '`') (.single '\\')))])
    (row [char '\\', row [.set .all]])

def templatePattern : Pattern :=
  row [char '`', Pattern.star templateItem, char '`']

def skipped : List Pattern :=
  [templatePattern, Css.stringPattern '\'', Css.stringPattern '"', Css.commentPattern, linePattern]

/-- In a template literal, lines may end. -/
theorem mem_language_templateItem {part : List Char} : part ∈ templateItem.language ↔
    (∃ x, x ≠ '`' ∧ x ≠ '\\' ∧ part = [x]) ∨ ∃ x, part = ['\\', x] := by
  rw [templateItem, mem_language_alt, language_row_singleton, mem_language_set,
    mem_language_row_cons]
  refine or_congr ?_ ?_
  · simp [CharSet.contains, CharSet.contains_single, and_assoc]
  · constructor
    · rintro ⟨_, hslash, _, hany, rfl⟩
      obtain rfl := mem_language_char.mp hslash
      rw [language_row_singleton, language_row_singleton] at hany
      obtain ⟨x, -, rfl⟩ := hany
      exact ⟨x, rfl⟩
    · rintro ⟨x, rfl⟩
      refine ⟨['\\'], mem_language_char.mpr rfl, [x], ?_, rfl⟩
      rw [language_row_singleton, language_row_singleton]
      exact ⟨x, rfl, rfl⟩

theorem mem_language_templatePattern {part : List Char} : part ∈ templatePattern.language ↔
    ∃ body ∈ templateItem.language∗, part = (Lexeme.string '`' body).text := by
  rw [templatePattern, mem_language_row_cons]
  constructor
  · rintro ⟨_, hopen, _, ⟨body, hbody, _, ⟨_, hclose, _, rfl, rfl⟩, rfl⟩, rfl⟩
    obtain rfl := mem_language_char.mp hopen
    obtain rfl := mem_language_char.mp hclose
    exact ⟨body, language_star templateItem ▸ hbody, rfl⟩
  · rintro ⟨body, hbody, rfl⟩
    rw [← language_star] at hbody
    exact ⟨['`'], mem_language_char.mpr rfl, body ++ ['`'], ⟨body, hbody, ['`'],
      ⟨['`'], mem_language_char.mpr rfl, [], rfl, rfl⟩, rfl⟩, rfl⟩

/-- What a template literal consists of is read up to the closing quote. -/
theorem template?_append {body : List Char} (hbody : body ∈ templateItem.language∗)
    (rest : List Char) : template? (body ++ '`' :: rest) = some (body, rest) := by
  obtain ⟨items, rfl, hitems⟩ := Language.mem_kstar.mp hbody
  clear hbody
  induction items with
  | nil => simp [template?]
  | cons item items ih =>
    obtain ⟨hitem, hitems⟩ := List.forall_mem_cons.mp hitems
    have hlater := ih hitems
    rw [List.flatten_cons, List.append_assoc]
    rcases mem_language_templateItem.mp hitem with ⟨x, hquote, hslash, rfl⟩ | ⟨x, rfl⟩
    · rw [List.singleton_append, template?, hlater]
      · rfl
      · exact hquote
      · intro _ _ hx
        exact absurd hx hslash
    · rw [List.cons_append, List.singleton_append, template?, hlater]
      rfl

/-- The content of a template literal consists of what template literals consist of. -/
theorem mem_kstar_of_template? {text body rest : List Char}
    (h : template? text = some (body, rest)) : body ∈ templateItem.language∗ := by
  fun_induction template? text generalizing body rest with
  | case1 => cases h
  | case2 rest' =>
    cases h
    exact Language.nil_mem_kstar _
  | case3 c rest' ih =>
    obtain ⟨⟨body', behind⟩, hlater, heq⟩ := Option.map_eq_some_iff.mp h
    cases heq
    exact append_mem_kstar (mem_language_templateItem.mpr (.inr ⟨c, rfl⟩)) (ih hlater)
  | case4 c rest' hquote hslash ih =>
    obtain ⟨⟨body', behind⟩, hlater, heq⟩ := Option.map_eq_some_iff.mp h
    cases heq
    have hnot : c ≠ '\\' := by
      rintro rfl
      -- a backslash that ends the text closes nothing
      cases rest' with
      | nil => cases hlater
      | cons x rest' => exact hslash x rest' rfl rfl
    exact append_mem_kstar (mem_language_templateItem.mpr (.inl ⟨c, hquote, hnot, rfl⟩))
      (ih hlater)

/-- Text on one line without quotes and backslashes makes a literal between quotes. -/
theorem lexeme?_of_plain {quote : Char} (hquote : quote ∈ quotes) {body : List Char}
    (hbody : ∀ x ∈ '\\' :: '\n' :: quotes, x ∉ body) (rest : List Char) :
    lexicon.lexeme? (quote :: (body ++ quote :: rest)) = some (.string quote body, rest) := by
  have hslash : '\\' ∉ body := hbody _ (by decide)
  have hline : '\n' ∉ body := hbody _ (by decide)
  have hnot : quote ∉ body := hbody _ (List.mem_cons_of_mem _ (List.mem_cons_of_mem _ hquote))
  have hquoted : quote = '"' ∨ quote = '\'' →
      Css.string? (quote :: (body ++ quote :: rest)) = some (quote, body, rest) := by
    intro hquote
    refine Css.string?_eq_some_iff.mpr ⟨hquote, _, rfl, Css.quoted?_append hquote ?_ rest⟩
    exact mem_kstar_of_forall fun x hx => Css.mem_language_stringItem.mpr (.inl
      ⟨x, ne_of_mem_of_not_mem hx hnot, ne_of_mem_of_not_mem hx hslash,
        ne_of_mem_of_not_mem hx hline, rfl⟩)
  have hstring : string? (quote :: (body ++ quote :: rest)) = some (quote, body, rest) := by
    simp only [quotes, List.mem_cons, List.not_mem_nil, or_false] at hquote
    rcases hquote with rfl | rfl | rfl
    · exact hquoted (.inl rfl)
    · exact hquoted (.inr rfl)
    · rw [string?, template?_append]
      · rfl
      · exact mem_kstar_of_forall fun x hx => mem_language_templateItem.mpr (.inl
          ⟨x, ne_of_mem_of_not_mem hx hnot, ne_of_mem_of_not_mem hx hslash, rfl⟩)
  exact lexeme?_of_string? (comment?_of_ne (ne_slash_of_mem_quotes hquote) _) hstring

/-! ### Matches of comments and strings -/

section Matches

variable {c d : Cursor}

/-- **A line comment is matched as it is read.** -/
theorem matchAt_line {inside : List Char} (h : c.rest = '/' :: '/' :: inside)
    (hd : c.Over ('/' :: '/' :: inside.takeWhile onLine) d) :
    (Program.ofPattern linePattern).matchAt c = some ⟨⟨c.offset, d.offset⟩, []⟩ := by
  have hline : ∀ x, (CharSet.compl (.single '\n')).contains x = onLine x := by
    intro x
    rw [CharSet.contains, CharSet.contains_single]
    rfl
  obtain ⟨e, he, hlater⟩ := Cursor.Over.split
    (show c.Over (['/', '/'] ++ inside.takeWhile onLine) d from hd)
  have hrest : d.rest = inside.dropWhile onLine := by
    have htext : inside.takeWhile onLine ++ d.rest = inside :=
      (List.cons.inj (List.cons.inj (hd.1.symm.trans h)).2).2
    exact List.append_cancel_left (htext.trans (List.takeWhile_append_dropWhile ..).symm)
  have hfound : linePattern.find .stop c [] = some (d, []) := by
    have hrow : linePattern = row (['/', '/'].map char ++
        [Pattern.star (.set (.compl (.single '\n')))]) := rfl
    rw [hrow, find_row_append, find_chars he]
    refine find_star_set hlater (fun x hx => ?_) (fun x hx => ?_) rfl
    · rw [hline]
      exact List.mem_takeWhile_imp hx
    · have hstop := List.head?_dropWhile_not onLine inside
      rw [hrest] at hx
      rw [hx] at hstop
      rw [hline, hstop]
  rw [Program.matchAt_eq_find rfl, hfound]
  rfl

theorem matchAt_line_eq_none (h : ∀ inside, c.rest ≠ '/' :: '/' :: inside) :
    (Program.ofPattern linePattern).matchAt c = none := by
  refine (Program.matchAt_eq_none_iff rfl).mpr fun d new hmatches => ?_
  obtain ⟨_, hpart, hover⟩ := hmatches.exists_mem_language
  obtain ⟨_, hfirst, _, ⟨_, hsecond, part, -, rfl⟩, rfl⟩ := mem_language_row_cons.mp hpart
  obtain rfl := mem_language_char.mp hfirst
  obtain rfl := mem_language_char.mp hsecond
  exact h (part ++ d.rest) hover.1

/-- **A template literal is matched as it is read.** -/
theorem matchAt_template {inside body : List Char} (h : c.rest = '`' :: inside)
    (hinside : template? inside = some (body, d.rest))
    (hd : c.Over (Lexeme.string '`' body).text d) :
    (Program.ofPattern templatePattern).matchAt c = some ⟨⟨c.offset, d.offset⟩, []⟩ := by
  refine matchAt_of_unique rfl rfl
    (mem_language_templatePattern.mpr ⟨body, mem_kstar_of_template? hinside, rfl⟩) hd ?_
  intro part hpart d' hd'
  obtain ⟨body', hbody', rfl⟩ := mem_language_templatePattern.mp hpart
  have hinside' : inside = body' ++ '`' :: d'.rest := by
    have htext := h.symm.trans hd'.1
    simpa [Lexeme.text] using htext
  rw [hinside', template?_append hbody'] at hinside
  obtain ⟨rfl, -⟩ := Prod.mk.inj (Option.some.inj hinside)
  rfl

theorem matchAt_template_eq_none (h : ∀ inside, c.rest = '`' :: inside → template? inside = none) :
    (Program.ofPattern templatePattern).matchAt c = none := by
  refine (Program.matchAt_eq_none_iff rfl).mpr fun d new hmatches => ?_
  obtain ⟨_, hpart, hover⟩ := hmatches.exists_mem_language
  obtain ⟨body, hbody, rfl⟩ := mem_language_templatePattern.mp hpart
  have hnone := h (body ++ '`' :: d.rest) (by simpa [Lexeme.text] using hover.1)
  rw [template?_append hbody] at hnone
  cases hnone

variable {last : Pattern}

theorem proper_of_mem_skipped : ∀ p ∈ skipped, p.proper = true := by
  simp only [skipped, List.forall_mem_cons]
  exact ⟨rfl, rfl, rfl, rfl, rfl, List.forall_mem_nil _⟩

/-- The alternatives for comments match the comment that begins at a position, if there is one. -/
theorem matchAt_comments (c : Cursor) :
    (∃ part d, comment? c.rest = some (part, d.rest) ∧ c.Over part d ∧
      ([linePattern, Css.commentPattern].findSome? fun p => (Program.ofPattern p).matchAt c) =
        some ⟨⟨c.offset, d.offset⟩, []⟩) ∨
    (comment? c.rest = none ∧
      ([linePattern, Css.commentPattern].findSome? fun p => (Program.ofPattern p).matchAt c) =
        none) := by
  cases hcomment : comment? c.rest with
  | some found =>
    obtain ⟨part, rest⟩ := found
    obtain ⟨d, hd, rfl⟩ := Cursor.exists_over (eq_append_of_comment? hcomment).1
    refine .inl ⟨part, d, rfl, hd, ?_⟩
    rcases comment?_cases hcomment with ⟨inside, hrest, rfl, -⟩ | hblock
    · rw [List.findSome?_cons, matchAt_line hrest hd]
    · have hline : ∀ inside, c.rest ≠ '/' :: '/' :: inside := by
        intro inside hrest
        rw [hrest] at hblock
        cases hblock
      rw [List.findSome?_cons, matchAt_line_eq_none hline, List.findSome?_cons,
        Css.matchAt_comment hblock hd]
  | none =>
    obtain ⟨hblock, hline⟩ := comment?_eq_none hcomment
    refine .inr ⟨rfl, ?_⟩
    rw [List.findSome?_cons, matchAt_line_eq_none hline, List.findSome?_cons,
      Css.matchAt_comment_eq_none hblock, List.findSome?_nil]

/-- The alternatives for literals match the literal that begins at a position, if there is one. -/
theorem matchAt_literals (c : Cursor) :
    (∃ quote body d, string? c.rest = some (quote, body, d.rest) ∧
      c.Over (Lexeme.string quote body).text d ∧
      ([Css.stringPattern '"', Css.stringPattern '\'', templatePattern].findSome? fun p =>
        (Program.ofPattern p).matchAt c) = some ⟨⟨c.offset, d.offset⟩, []⟩) ∨
    (string? c.rest = none ∧
      ([Css.stringPattern '"', Css.stringPattern '\'', templatePattern].findSome? fun p =>
        (Program.ofPattern p).matchAt c) = none) := by
  cases hstring : string? c.rest with
  | some found =>
    obtain ⟨quote, body, rest⟩ := found
    obtain ⟨d, hd, rfl⟩ := Cursor.exists_over (eq_append_of_string? hstring)
    refine .inl ⟨quote, body, d, rfl, hd, ?_⟩
    rcases string?_cases hstring with ⟨rfl, inside, hrest, hinside⟩ | hquoted
    · have hnot : Css.string? c.rest = none := by
        rw [hrest]
        rfl
      rw [List.findSome?_cons, Css.matchAt_string_eq_none (.inl rfl) (by simp [hnot]),
        List.findSome?_cons, Css.matchAt_string_eq_none (.inr rfl) (by simp [hnot]),
        List.findSome?_cons, matchAt_template hrest hinside hd]
    · obtain ⟨rfl | rfl, -⟩ := Css.string?_eq_some_iff.mp hquoted
      · rw [List.findSome?_cons, Css.matchAt_string hquoted hd]
      · rw [List.findSome?_cons, Css.matchAt_string_eq_none (.inl rfl) (by simp [hquoted]),
          List.findSome?_cons, Css.matchAt_string hquoted hd]
  | none =>
    obtain ⟨hquoted, htemplate⟩ := string?_eq_none hstring
    refine .inr ⟨rfl, ?_⟩
    rw [List.findSome?_cons, Css.matchAt_string_eq_none (.inl rfl) (by simp [hquoted]),
      List.findSome?_cons, Css.matchAt_string_eq_none (.inr rfl) (by simp [hquoted]),
      List.findSome?_cons, matchAt_template_eq_none htemplate, List.findSome?_nil]

/-- **Comments and strings are stepped over whole**, and where none begins the last alternative
decides. -/
theorem matchAt_cases (hlast : last.proper = true) (c : Cursor) :
    (∃ first d, lexicon.lexeme? c.rest = some (first, d.rest) ∧ first.isSkipped = true ∧
      c.Over first.text d ∧ (Program.ofPattern (choice last skipped)).matchAt c =
        some ⟨⟨c.offset, d.offset⟩, []⟩) ∨
    (comment? c.rest = none ∧ string? c.rest = none ∧
      (Program.ofPattern (choice last skipped)).matchAt c =
        (Program.ofPattern last).matchAt c) := by
  have hskipped : skipped.reverse = [linePattern, Css.commentPattern] ++
    [Css.stringPattern '"', Css.stringPattern '\'', templatePattern] := rfl
  rw [matchAt_choice hlast proper_of_mem_skipped, hskipped, List.findSome?_append]
  rcases matchAt_comments c with ⟨part, d, hcomment, hd, hmatch⟩ | ⟨hcomment, hmatch⟩
  · refine .inl ⟨.comment part, d, lexeme?_of_comment? hcomment, rfl, hd, ?_⟩
    rw [hmatch, Option.some_or, Option.some_or]
  · rw [hmatch, Option.none_or]
    rcases matchAt_literals c with ⟨quote, body, d, hstring, hd, hmatch⟩ | ⟨hstring, hmatch⟩
    · refine .inl ⟨.string quote body, d, lexeme?_of_string? hcomment hstring, rfl, hd, ?_⟩
      rw [hmatch, Option.some_or]
    · refine .inr ⟨hcomment, hstring, ?_⟩
      rw [hmatch, Option.none_or]

end Matches

/-! ### Captures in scripts -/

/-- The matcher for the captures of a pattern in scripts, where comments and literals are stepped
over. -/
def matcher (last : Pattern) : Matcher :=
  .ofPattern "main".toList (choice last skipped)

/-- `Consumes last`: every match of the pattern takes something, and nothing is looked at only. -/
structure Consumes (last : Pattern) : Prop where
  proper : last.proper = true
  nullable : last.nullable = false
  capture : 0 ∉ (matcher last).capture
  ahead : (matcher last).ahead = []

section Captures

variable {last : Pattern} {text : List Char}

theorem nodes_of_mem_skipped : ∀ p ∈ skipped, p.nodes = [] := by
  simp only [skipped, List.forall_mem_cons]
  exact ⟨rfl, rfl, rfl, rfl, rfl, List.forall_mem_nil _⟩

/-- A row consumes if its last items do and the others have no groups. -/
theorem consumes_row {lead back : List Pattern}
    (hlead : lead.all (fun p => p.proper && p.nodes.isEmpty) = true)
    (hback : ∀ p ∈ back, p.proper = true) (hnullable : (row back).nullable = false)
    (hcapture : 0 ∉ (Matcher.ofPattern "main".toList (row back)).capture)
    (hahead : (Matcher.ofPattern "main".toList (row back)).ahead = []) :
    Consumes (row (lead ++ back)) := by
  have hall : ∀ p ∈ lead, p.proper = true ∧ p.nodes = [] := by
    simpa [List.isEmpty_iff] using hlead
  have hgroups : (choice (row (lead ++ back)) skipped).groups = (row back).groups := by
    rw [groups_eq_map_nodes, nodes_choice nodes_of_mem_skipped,
      nodes_row_append fun p hp => (hall p hp).2, ← groups_eq_map_nodes]
  have hproper : ∀ p ∈ lead ++ back, p.proper = true := by
    intro p hp
    rcases List.mem_append.mp hp with hp | hp
    · exact (hall p hp).1
    · exact hback p hp
  refine ⟨proper_row hproper, ?_, ?_, ?_⟩
  · clear hlead hall hgroups hproper
    induction lead with
    | nil => exact hnullable
    | cons p lead ih =>
      change (p.nullable && (row (lead ++ back)).nullable) = false
      rw [ih, Bool.and_false]
  · rwa [matcher, Matcher.ofPattern, hgroups]
  · rwa [matcher, Matcher.ofPattern, hgroups]

theorem Consumes.nullable_choice (h : Consumes last) : (choice last skipped).nullable = false :=
  h.nullable

/-- Every match takes something, so scanning advances. -/
theorem Consumes.advances (h : Consumes last) : (matcher last).Advances :=
  Matcher.advances_of_ahead h.nullable_choice h.ahead

theorem Consumes.proper_choice (h : Consumes last) : (choice last skipped).proper = true :=
  h.proper

/-- **A walk through a script keeps between the lexemes** if the matches do. What is captured is
then a group of a match that begins between two lexemes. -/
theorem Consumes.exists_matches_of_mem_captureSpans (h : Consumes last)
    (hread : ∀ {before c d new}, lexicon.Lexed (.start text) before c → last.Matches c d new →
      ∃ ls, lexicon.Lexed c ls d) {span : Span} (hspan : span ∈ (matcher last).captureSpans text) :
    ∃ before c d new index, lexicon.Lexed (.start text) before c ∧ last.Matches c d new ∧
      (index, span) ∈ new := by
  rw [Matcher.captureSpans_eq_hits] at hspan
  obtain ⟨⟨m, offset⟩, hmem, hcapture⟩ := List.mem_filterMap.mp hspan
  have hinvariant := h.advances.hits_invariant
    (fun c => ∃ before, lexicon.Lexed (.start text) before c) ?_ ?_ ⟨[], .refl (.start text)⟩ _ hmem
  · obtain ⟨c, -, ⟨before, hbefore⟩, hmatch⟩ := hinvariant
    rcases Matcher.firstGroup?_mem hcapture with ⟨hzero, -⟩ | ⟨index, -, hindex⟩
    · exact absurd hzero h.capture
    rcases matchAt_cases h.proper c with ⟨first, d, -, -, -, hpass⟩ | ⟨-, -, hlast⟩
    · obtain rfl := Option.some.inj (hmatch.symm.trans hpass)
      cases hindex
    · obtain ⟨d, hmatches, -⟩ := Program.matchAt_sound (hlast.symm.trans hmatch)
      exact ⟨before, c, d, _, index, hbefore, hmatches, hindex⟩
  · rintro c x rest ⟨before, hbefore⟩ hnone hrest
    rcases matchAt_cases h.proper c with ⟨first, d, -, -, -, hpass⟩ | ⟨hcomment, hstring, -⟩
    · cases hnone.symm.trans hpass
    · exact ⟨_, hbefore.trans (.of_char hrest hcomment hstring)⟩
  · rintro c m d ⟨before, hbefore⟩ hmatch hresumes
    rcases matchAt_cases h.proper c with ⟨first, d', hfirst, -, hd', hpass⟩ | ⟨-, -, hlast⟩
    · cases hmatch.symm.trans hpass
      obtain rfl := hresumes.eq_of_ahead h.ahead ⟨_, hd'⟩ rfl
      exact ⟨_, hbefore.trans (.of_lexeme? hfirst hd')⟩
    · obtain ⟨d', hmatches, hspan⟩ := Program.matchAt_sound (hlast.symm.trans hmatch)
      obtain rfl := hresumes.eq_of_ahead h.ahead hmatches.reaches (congrArg Span.stop hspan)
      obtain ⟨ls, hls⟩ := hread hbefore hmatches
      exact ⟨_, hbefore.trans hls⟩

end Captures

end Relabel.Js
