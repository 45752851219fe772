import Relabel.Proofs.Attributes

/-!
# Guards in front of values

A pattern for values looks at the attributes with some names and captures what it is after in their
values; all other values are passed over (`Html.guardedPattern`). That values are passed over is all
that is needed to get past an attribute that is not looked at, so it is said of any pattern that
does so (`Html.PassesValues`). A pattern with a guard in front of its values is one of them
(`Html.Guard.passesValues`).
-/

namespace Relabel.Html

open Pattern

/-! ### Values behind a name -/

section Guarded

variable {named value : Pattern} {c d e f : Cursor} {new : Captures}

/-- What stands in front of the value of an attribute, for any pattern of names. -/
def assignmentOf (named : Pattern) : List Pattern :=
  [row [named], Pattern.star (.set .space), char '=', Pattern.star (.set .space)]

def guardedPattern (named value : Pattern) : Pattern :=
  choice barePattern [quotedPattern .single, quotedPattern .double,
    row (Tokens.opening :: (assignmentOf named ++ [value]))]

/-- `Assigned named c e f text`: behind a blank or the start of the text stands a name, from `e` on,
and up to `f` what assigns a value to it. -/
structure Assigned (named : Pattern) (c e f : Cursor) (text : List Char) : Prop where
  opens : Tokens.Opens c e
  mem : text ∈ named.language
  stretch : ∃ gap gap', (∀ y ∈ gap, Unicode.isSpace y = true) ∧
    (∀ y ∈ gap', Unicode.isSpace y = true) ∧ e.Over (text ++ (gap ++ '=' :: gap')) f

/-- A text to which a value is assigned behind the blank in front of an attribute, and what assigns
it, are told by the attribute: the text is its name. -/
theorem Assigned.eq_name (hplain : ∀ part ∈ named.language,
      part ≠ [] ∧ ∀ y ∈ part, y ≠ ' ' ∧ y ∉ delimiters) {name : Name} {text tail : List Char}
    (hrest : c.rest = ' ' :: (name.chars ++ tail))
    (htail : ∀ y ∈ tail.head?, y = ' ' ∨ y ∈ delimiters) (h : Assigned named c e f text) :
    c.Over [' '] e ∧ text = name.chars ∧ ∃ gap gap', (∀ y ∈ gap, Unicode.isSpace y = true) ∧
      (∀ y ∈ gap', Unicode.isSpace y = true) ∧ tail = gap ++ '=' :: (gap' ++ f.rest) := by
  obtain ⟨hopens, hmem, gap, gap', hgap, hgap', hover⟩ := h
  obtain ⟨hnonempty, hchars⟩ := hplain text hmem
  have hover := hover.1
  simp only [List.append_assoc, List.cons_append] at hover
  rcases hopens with ⟨-, rfl⟩ | ⟨x, hx, hspace⟩
  · -- a name does not begin with a blank
    obtain ⟨y, text, rfl⟩ := List.exists_cons_of_ne_nil hnonempty
    obtain ⟨hy, -⟩ := List.cons.inj (hrest.symm.trans hover)
    exact absurd hy.symm (hchars y List.mem_cons_self).1
  · obtain ⟨rfl, hlater⟩ := List.cons.inj (hrest.symm.trans hspace.1)
    refine ⟨hspace, ?_⟩
    rcases List.append_eq_append_iff.mp (hlater.trans hover) with
      ⟨more, hmore, htext⟩ | ⟨more, hmore, htext⟩
    · cases more with
      | nil =>
        rw [List.append_nil] at hmore
        exact ⟨hmore, gap, gap', hgap, hgap', by simpa using htext⟩
      | cons y more =>
        have hy := htail y (by rw [htext]; rfl)
        have hnot := hchars y (by simp [hmore])
        exact absurd hy (not_or.mpr hnot)
    · cases more with
      | nil =>
        rw [List.append_nil] at hmore
        exact ⟨hmore.symm, gap, gap', hgap, hgap', by simpa using htext.symm⟩
      | cons y more =>
        obtain ⟨hspace, hdelimiter⟩ := name.of_mem (y := y) (by simp [hmore])
        cases gap with
        | nil =>
          obtain ⟨rfl, -⟩ := List.cons.inj htext
          exact absurd (by decide) hdelimiter
        | cons z gap =>
          obtain ⟨rfl, -⟩ := List.cons.inj htext
          rw [hgap _ List.mem_cons_self] at hspace
          cases hspace

theorem Assigned.reaches {text : List Char} (h : Assigned named c e f text) : c.Reaches f := by
  obtain ⟨gap, gap', -, -, hover⟩ := h.stretch
  exact h.opens.reaches.trans ⟨_, hover⟩

theorem Assigned.offset_lt {text : List Char} (h : Assigned named c e f text) :
    c.offset < f.offset := by
  obtain ⟨gap, gap', -, -, hover⟩ := h.stretch
  exact Nat.lt_of_le_of_lt h.opens.reaches.offset_le (hover.offset_lt (by simp))

theorem lexical_assignmentOf (hnamed : named.lexical = true) :
    (row (assignmentOf named)).lexical = true := by
  refine lexical_row fun p hp => ?_
  simp only [assignmentOf, List.mem_cons, List.not_mem_nil, or_false] at hp
  rcases hp with rfl | rfl | rfl | rfl
  · exact lexical_row (by simpa using hnamed)
  · rfl
  · rfl
  · rfl

/-- A value is assigned by an equals sign, with white space around it or without. -/
theorem mem_language_assignmentOf {part : List Char} :
    part ∈ (row (assignmentOf named)).language ↔ ∃ text gap gap', text ∈ named.language ∧
      (∀ y ∈ gap, Unicode.isSpace y = true) ∧ (∀ y ∈ gap', Unicode.isSpace y = true) ∧
      part = text ++ (gap ++ '=' :: gap') := by
  simp only [assignmentOf, mem_language_row_cons, language_row_singleton, mem_language_char,
    mem_language_star_space]
  constructor
  · rintro ⟨text, htext, _, ⟨gap, hgap, _, ⟨_, rfl, gap', hgap', rfl⟩, rfl⟩, rfl⟩
    exact ⟨text, gap, gap', htext, hgap, hgap', by simp⟩
  · rintro ⟨text, gap, gap', htext, hgap, hgap', rfl⟩
    exact ⟨text, htext, _, ⟨gap, hgap, _, ⟨_, rfl, gap', hgap', rfl⟩, rfl⟩, by simp⟩

/-- A name with a value assigned to it is matched. -/
theorem guarded_of_assigned (hnamed : named.lexical = true) {text : List Char}
    (h : Assigned named c e f text) (hvalue : value.Matches f d new) :
    (guardedPattern named value).Matches c d new := by
  obtain ⟨gap, gap', hgap, hgap', hover⟩ := h.stretch
  have hassigned : (row (assignmentOf named)).Matches e f [] :=
    matches_of_mem_language (lexical_assignmentOf hnamed)
      (mem_language_assignmentOf.mpr ⟨text, gap, gap', h.mem, hgap, hgap', rfl⟩) hover
  refine .inl ⟨e, [], new, Tokens.matches_opening_iff.mpr ⟨rfl, h.opens⟩, ?_,
    (List.append_nil new).symm⟩
  exact matches_row_append.mpr
    ⟨f, [], new, hassigned, ⟨d, new, [], hvalue, ⟨rfl, rfl⟩, rfl⟩, (List.append_nil new).symm⟩

/-- A match is a value that is passed over, or a name with a value assigned to it. -/
theorem guarded_cases (hnamed : named.lexical = true)
    (h : (guardedPattern named value).Matches c d new) :
    (new = [] ∧ ∃ part, c.Over part d ∧
        (part ∈ barePattern.language ∨ ∃ q, part ∈ (quotedPattern q).language)) ∨
      ∃ e f text, Assigned named c e f text ∧ value.Matches f d new := by
  have hquoted : ∀ q, (quotedPattern q).Matches c d new → new = [] ∧ ∃ part, c.Over part d ∧
      (part ∈ barePattern.language ∨ ∃ q, part ∈ (quotedPattern q).language) := by
    intro q h
    obtain ⟨rfl, part, hpart, hover⟩ :=
      (matches_iff_mem_language (by rfl : (quotedPattern q).lexical = true)).mp h
    exact ⟨rfl, part, hover, .inr ⟨q, hpart⟩⟩
  rcases h with ⟨e, _, _, hopening, hlater, rfl⟩ | h | h | h
  · obtain ⟨rfl, hopens⟩ := Tokens.matches_opening_iff.mp hopening
    obtain ⟨f, _, _, hassigned, ⟨_, _, _, hvalue, ⟨rfl, rfl⟩, rfl⟩, rfl⟩ :=
      matches_row_append.mp hlater
    obtain ⟨rfl, front, hfront, hover⟩ :=
      (matches_iff_mem_language (lexical_assignmentOf hnamed)).mp hassigned
    obtain ⟨text, gap, gap', htext, hgap, hgap', rfl⟩ := mem_language_assignmentOf.mp hfront
    refine .inr ⟨e, f, text, ⟨hopens, htext, gap, gap', hgap, hgap', hover⟩, ?_⟩
    simpa using hvalue
  · exact .inl (hquoted .double h)
  · exact .inl (hquoted .single h)
  · obtain ⟨rfl, part, hpart, hover⟩ :=
      (matches_iff_mem_language (by rfl : barePattern.lexical = true)).mp h
    exact .inl ⟨rfl, part, hover, .inl hpart⟩

theorem groups_guardedPattern (hnamed : named.lexical = true) :
    (guardedPattern named value).groups = value.groups := by
  have hnone : (row [named]).groups = [] := groups_of_lexical (lexical_row (by simpa using hnamed))
  change ((row [named]).groups ++ (value.groups ++ [])) ++ [] = value.groups
  rw [hnone, List.nil_append, List.append_nil, List.append_nil]

theorem proper_guardedPattern (hnamed : named.proper = true) (hvalue : value.proper = true) :
    (guardedPattern named value).proper = true := by
  simp [guardedPattern, choice, barePattern, quotedPattern, assignmentOf, Tokens.opening, row, char,
    Pattern.star, proper, nullable, hnamed, hvalue]

end Guarded

/-! ### What is captured in a value -/

def enclosedPattern (content : Quote → Pattern) (q : Quote) : Pattern :=
  row [char q.char, .group q.group (some q.groupName) (content q), char q.char]

def valuePattern (content : Quote → Pattern) (keys : Pattern) : Pattern :=
  choice (bareKeyPattern keys) [enclosedPattern content .single, enclosedPattern content .double]

section Captured

variable {content : Quote → Pattern} {keys : Pattern} {q : Quote} {c d : Cursor} {new : Captures}

/-- The content of a quotation is captured. -/
theorem matches_enclosedPattern_iff (hcontent : ∀ q, (content q).lexical = true) :
    (enclosedPattern content q).Matches c d new ↔ ∃ e f, c.Over [q.char] e ∧
      (∃ body ∈ (content q).language, e.Over body f) ∧ f.Over [q.char] d ∧
      new = [(q.group, ⟨e.offset, f.offset⟩)] := by
  have hchar : ∀ p ∈ [char q.char], p.lexical = true := by simp [char, lexical]
  have hmatches : (row ([char q.char] ++ .group q.group (some q.groupName) (content q) ::
      [char q.char])).Matches c d new ↔ _ := matches_row_group hchar (hcontent q) hchar
  simp only [language_row_singleton, mem_language_char, exists_eq_left] at hmatches
  exact hmatches

/-- What is captured as a value stands in quotation marks, or is a key. -/
theorem matches_valuePattern (hkeys : keys.lexical = true)
    (h : (valuePattern content keys).Matches c d new) :
    (∃ q, (enclosedPattern content q).Matches c d new) ∨
      ∃ key ∈ keys.language, ∃ later, c.rest = key ++ later := by
  rcases h with h | h | ⟨g, _, _, ⟨_, hkey, -⟩, -, -⟩
  · exact .inl ⟨.double, h⟩
  · exact .inl ⟨.single, h⟩
  · obtain ⟨-, key, hmem, hover⟩ :=
      (matches_iff_mem_language (lexical_row (by simpa using hkeys))).mp hkey
    rw [language_row_singleton] at hmem
    exact .inr ⟨key, hmem, g.rest, hover.1⟩

theorem matches_of_enclosed (h : (enclosedPattern content q).Matches c d new) :
    (valuePattern content keys).Matches c d new := by
  cases q with
  | double => exact .inl h
  | single => exact .inr (.inl h)

theorem groups_bareKeyPattern (hkeys : keys.lexical = true) :
    (bareKeyPattern keys).groups = [(3, some "main_3".toList), (4, some aheadGroup)] := by
  change (3, some "main_3".toList) :: (row [keys]).groups ++ [(4, some aheadGroup)] = _
  rw [groups_of_lexical (lexical_row (by simpa using hkeys))]
  rfl

/-- Each quotation mark has its own group, and so have keys without them. -/
theorem groups_valuePattern (hcontent : ∀ q, (content q).lexical = true)
    (hkeys : keys.lexical = true) : (valuePattern content keys).groups =
      [(1, some "main_1".toList), (2, some "main_2".toList), (3, some "main_3".toList),
        (4, some aheadGroup)] := by
  change (1, some "main_1".toList) :: (content .double).groups ++ [] ++
    ((2, some "main_2".toList) :: (content .single).groups ++ [] ++
      (bareKeyPattern keys).groups) = _
  rw [groups_of_lexical (hcontent _), groups_of_lexical (hcontent _), groups_bareKeyPattern hkeys]
  rfl

theorem proper_valuePattern (hcontent : ∀ q, (content q).proper = true)
    (hkeys : keys.proper = true) : (valuePattern content keys).proper = true := by
  simp [valuePattern, choice, enclosedPattern, bareKeyPattern, bareEnd, row, char, proper, hcontent,
    hkeys]

end Captured

/-! ### Passing over values -/

/-- `PassesValues p`: the pattern matches every value in quotation marks, and where nothing opens it
matches nothing but values and captures none of them. -/
structure PassesValues (p : Pattern) : Prop where
  proper : p.proper = true
  quoted : ∀ {c d : Cursor} {q : Quote} {part : List Char}, part ∈ (quotedPattern q).language →
    c.Over part d → p.Matches c d []
  passed : ∀ {c d : Cursor} {new : Captures}, c.before ≠ none →
    (∀ y ∈ c.rest.head?, Unicode.isSpace y = false) → p.Matches c d new →
      new = [] ∧ ∃ part, c.Over part d ∧
        (part ∈ barePattern.language ∨ ∃ q, part ∈ (quotedPattern q).language)
  numbered : 0 ∉ (Matcher.ofPattern "main".toList p).capture ++
    (Matcher.ofPattern "main".toList p).ahead

theorem Name.quiet (name : Name) :
    ∀ y ∈ name.chars, Unicode.isSpace y = false ∧ y ∉ valueStarts := by
  intro y hy
  obtain ⟨hspace, hdelimiter⟩ := name.of_mem hy
  exact ⟨hspace, fun hmem => hdelimiter (List.mem_append_left _ hmem)⟩

/-- No token opens in the middle of a text unless white space comes next. -/
theorem not_opens {c e : Cursor} (hbefore : c.before ≠ none)
    (hrest : ∀ y ∈ c.rest.head?, Unicode.isSpace y = false) : ¬ Tokens.Opens c e := by
  rintro (⟨hstart, -⟩ | ⟨x, hx, hover⟩)
  · exact hbefore hstart
  · have hnot := hrest x (by rw [hover.1]; rfl)
    rw [hx] at hnot
    cases hnot

namespace PassesValues

variable {p : Pattern} (hp : PassesValues p) {c d e : Cursor}
include hp

theorem matchAt_eq_none_iff : (Matcher.ofPattern "main".toList p).program.matchAt c = none ↔
    ∀ d new, ¬ p.Matches c d new :=
  Program.matchAt_eq_none_iff hp.proper

/-- Where neither white space nor a value begins, nothing is matched. -/
theorem matchAt_quiet (hbefore : c.before ≠ none) (hrest : ∀ y ∈ c.rest.head?,
      Unicode.isSpace y = false ∧ y ∉ valueStarts) :
    (Matcher.ofPattern "main".toList p).program.matchAt c = none := by
  refine hp.matchAt_eq_none_iff.mpr fun d new h => ?_
  obtain ⟨-, part, hover, hvalue⟩ := hp.passed hbefore (fun y hy => (hrest y hy).1) h
  obtain ⟨y, later, rfl, hy⟩ := exists_cons_of_passed hvalue
  exact (hrest y (by rw [hover.1]; rfl)).2 hy

/-- An equals sign in front of a quotation mark is not matched. -/
theorem matchAt_assign {q : Quote} {rest : List Char} (hbefore : c.before ≠ none)
    (hrest : c.rest = '=' :: q.char :: rest) :
    (Matcher.ofPattern "main".toList p).program.matchAt c = none := by
  refine hp.matchAt_eq_none_iff.mpr fun d new h => ?_
  obtain ⟨-, part, hover, hvalue⟩ := hp.passed hbefore
    (fun y hy => by rw [hrest] at hy; cases hy; decide) h
  rcases hvalue with hbare | ⟨q', hquoted⟩
  · obtain ⟨gap, y, later, rfl, hgap, hy⟩ := exists_of_mem_language_barePattern hbare
    have heq : q.char :: rest = gap ++ y :: later ++ d.rest :=
      (List.cons.inj (hrest.symm.trans hover.1)).2
    cases gap with
    | nil =>
      obtain ⟨rfl, -⟩ := List.cons.inj heq
      cases q <;> exact absurd hy (by decide)
    | cons z gap =>
      obtain ⟨rfl, -⟩ := List.cons.inj heq
      have hspace := hgap _ List.mem_cons_self
      rw [q.not_isSpace] at hspace
      cases hspace
  · obtain ⟨body, -, rfl⟩ := mem_language_quotedPattern.mp hquoted
    have heq := (List.cons.inj (hrest.symm.trans hover.1)).1
    cases q' <;> exact absurd heq (by decide)

/-- A value in quotation marks is passed over whole. -/
theorem matchAt_quoted {v : Value} (hv : v.WellFormed) (hbefore : c.before ≠ none)
    (hover : c.Over v.render d) :
    (Matcher.ofPattern "main".toList p).program.matchAt c =
      some ⟨⟨c.offset, d.offset⟩, []⟩ := by
  have hmem : v.render ∈ (quotedPattern v.quote).language :=
    mem_language_quotedPattern.mpr ⟨v.text, hv.1, rfl⟩
  refine Program.matchAt_of_unique hp.proper (hp.quoted hmem hover) fun d' new h => ?_
  have hspace : ∀ y ∈ c.rest.head?, Unicode.isSpace y = false := by
    rw [hover.1]
    rintro y ⟨rfl⟩
    exact v.quote.not_isSpace
  obtain ⟨rfl, part, hover', hvalue⟩ := hp.passed hbefore hspace h
  refine ⟨?_, rfl⟩
  rcases hvalue with hbare | ⟨q, hquoted⟩
  · obtain ⟨gap, y, later, rfl, -⟩ := exists_of_mem_language_barePattern hbare
    have heq := (List.cons.inj (hover.1.symm.trans hover'.1)).1
    cases hquote : v.quote <;> rw [hquote] at heq <;> cases heq
  · obtain ⟨body, hbody, rfl⟩ := mem_language_quotedPattern.mp hquoted
    obtain ⟨hquote, hlater⟩ := List.cons.inj (hover.1.symm.trans hover'.1)
    obtain rfl := Quote.char_injective hquote
    have hsame : body = v.text := by
      simp only [List.append_eq, List.append_assoc, List.singleton_append] at hlater
      exact (Quote.text_unique hv.1 hbody hlater).symm
    subst hsame
    exact hover'.unique hover

/-- A match that records nothing captures nothing, and scanning resumes at its end. -/
theorem nothing_recorded (span : Span) :
    (Matcher.ofPattern "main".toList p).capture? ⟨span, []⟩ = none ∧
      (Matcher.ofPattern "main".toList p).target ⟨span, []⟩ = span.stop := by
  have hnone : ∀ indices : List Nat, 0 ∉ indices →
      Matcher.firstGroup? indices ⟨span, []⟩ = none := by
    intro indices hindices
    rw [Matcher.firstGroup?, List.findSome?_eq_none_iff]
    intro index hindex
    rw [Match.group?, if_neg (ne_of_mem_of_not_mem hindex hindices)]
    rfl
  have hzero := hp.numbered
  rw [List.mem_append, not_or] at hzero
  refine ⟨hnone _ hzero.1, ?_⟩
  rw [Matcher.target, Matcher.ahead?, hnone _ hzero.2]

section Rewrites

variable {change : List Char → Option (List Char)} {changed : Bool} {out : List Char}

/-- What is neither white space nor a value is passed over. -/
theorem rewrites_quiet {part : List Char}
    (hpart : ∀ y ∈ part, Unicode.isSpace y = false ∧ y ∉ valueStarts) (hbefore : c.before ≠ none)
    (hover : c.Over part d)
    (later : (Matcher.ofPattern "main".toList p).Rewrites change d changed out) :
    (Matcher.ofPattern "main".toList p).Rewrites change c changed (part ++ out) := by
  refine .skips hover ?_ later
  rintro front back e hsplit hback hfront hlater
  refine hp.matchAt_quiet ?_ fun y hy => ?_
  · rw [hfront.2.2]
    simp [hbefore]
  · obtain ⟨z, back, rfl⟩ := List.exists_cons_of_ne_nil hback
    rw [hlater.1] at hy
    cases hy
    exact hpart y (by simp [hsplit])

/-- What is assigned to a name is passed over. -/
theorem rewrites_assigned {value : Option Value} (hvalue : ∀ v ∈ value, v.WellFormed)
    (hbefore : c.before ≠ none) (hover : c.Over (Value.renderAssigned value) d)
    (later : (Matcher.ofPattern "main".toList p).Rewrites change d changed out) :
    (Matcher.ofPattern "main".toList p).Rewrites change c changed
      (Value.renderAssigned value ++ out) := by
  cases value with
  | none =>
    obtain rfl := hover.eq_of_nil
    exact later
  | some v =>
    have hquoted := hover.of_cons
    refine .skip hover.1 (hp.matchAt_assign (q := v.quote) hbefore hover.1) ?_
    have hmatch := hp.matchAt_quoted (hvalue v rfl) (Option.some_ne_none '=') hquoted
    obtain ⟨hcapture, htarget⟩ := hp.nothing_recorded ⟨_, d.offset⟩
    exact .pass hmatch ⟨⟨_, hquoted⟩, hquoted.offset_lt (List.cons_ne_nil _ _), htarget⟩ hcapture
      hquoted later

/-- The slash that may end the attributes is passed over. -/
theorem rewrites_slash {closing : Bool} (hbefore : c.before ≠ none)
    (hc : c.rest = slashIf closing) :
    (Matcher.ofPattern "main".toList p).Rewrites change c false (slashIf closing) := by
  obtain ⟨d, hover, hd⟩ := Cursor.exists_over (hc.trans (List.append_nil _).symm)
  have hslash : ∀ y ∈ slashIf closing, Unicode.isSpace y = false ∧ y ∉ valueStarts := by
    intro y hy
    cases closing with
    | false => cases hy
    | true =>
      obtain rfl := List.mem_singleton.mp hy
      decide
  have hend : d.before ≠ none := by
    rw [hover.2.2]
    simp [hbefore]
  rw [← List.append_nil (slashIf closing)]
  refine hp.rewrites_quiet hslash hbefore hover (.stop hd (hp.matchAt_quiet hend ?_))
  rw [hd]
  rintro y ⟨⟩

/-- An attribute that is not matched is passed over. -/
theorem rewrites_unmatched {a : Attribute} (ha : a.WellFormed) (hover : c.Over a.render d)
    (hnone : (Matcher.ofPattern "main".toList p).program.matchAt c = none)
    (later : (Matcher.ofPattern "main".toList p).Rewrites change d changed out) :
    (Matcher.ofPattern "main".toList p).Rewrites change c changed (a.render ++ out) := by
  obtain ⟨e, hname, hvalue⟩ := hover.of_cons.split
  have hbefore : e.before ≠ none := by
    rw [hname.2.2]
    simp [Cursor.advance]
  rw [Attribute.render, List.cons_append, List.append_assoc]
  exact .skip hover.1 hnone (hp.rewrites_quiet a.name.quiet (Option.some_ne_none ' ') hname
    (hp.rewrites_assigned ha hbefore hvalue later))

end Rewrites

end PassesValues

/-! ### Guards -/

/-- Names, and values behind them in which something is captured. -/
structure Guard where
  named : Pattern
  value : Pattern
  lexical : named.lexical = true
  proper_named : named.proper = true
  proper_value : value.proper = true
  numbered : ∀ group ∈ value.groups, group.1 ≠ 0

namespace Guard

variable {g : Guard} {c d e f : Cursor} {text : List Char}

def pattern (g : Guard) : Pattern :=
  guardedPattern g.named g.value

def matcher (g : Guard) : Matcher :=
  .ofPattern "main".toList g.pattern

theorem zero_notMem (g : Guard) : 0 ∉ g.matcher.capture ++ g.matcher.ahead := by
  have hgroups : g.pattern.groups = g.value.groups := groups_guardedPattern g.lexical
  simp only [matcher, Matcher.ofPattern, hgroups, List.mem_append, List.mem_map, List.mem_filter,
    List.mem_filterMap, not_or]
  constructor
  all_goals
    rintro ⟨entry, ⟨⟨group, hgroup, hentry⟩, -⟩, hzero⟩
    obtain ⟨name, -, rfl⟩ := Option.map_eq_some_iff.mp hentry
    exact g.numbered group hgroup hzero

/-- All values that are not guarded are passed over. -/
theorem passesValues (g : Guard) : PassesValues g.pattern where
  proper := proper_guardedPattern g.proper_named g.proper_value
  quoted := by
    intro c d q part hpart hover
    have h : (quotedPattern q).Matches c d [] := matches_of_mem_language rfl hpart hover
    cases q with
    | double => exact .inr (.inl h)
    | single => exact .inr (.inr (.inl h))
  passed := by
    intro c d new hbefore hrest h
    rcases guarded_cases g.lexical h with ⟨rfl, part, hover, hvalue⟩ | ⟨e, f, text, hassigned, -⟩
    · exact ⟨rfl, part, hover, hvalue⟩
    · exact absurd hassigned.opens (not_opens hbefore hrest)
  numbered := g.zero_notMem

/-- Scanning resumes behind the name, or where nothing was captured behind the value. -/
theorem advances (g : Guard) : g.matcher.Advances := by
  intro c m h
  obtain ⟨d, hmatches, hspan⟩ := Program.matchAt_sound h
  obtain ⟨span, captures⟩ := m
  obtain rfl : span = _ := hspan
  rcases guarded_cases g.lexical hmatches with ⟨hnone, part, hover, hvalue⟩ |
    ⟨e, f, text, hassigned, hvalue⟩
  · obtain rfl : captures = [] := hnone
    obtain ⟨y, later, rfl, -⟩ := exists_cons_of_passed hvalue
    exact ⟨d, ⟨_, hover⟩, hover.offset_lt (List.cons_ne_nil _ _),
      (g.passesValues.nothing_recorded _).2⟩
  · have hreaches := hassigned.reaches
    have hlt := hassigned.offset_lt
    cases hahead : g.matcher.ahead? ⟨⟨c.offset, d.offset⟩, captures⟩ with
    | none =>
      refine ⟨d, hreaches.trans hvalue.reaches, ?_, by rw [Matcher.target, hahead]⟩
      exact Nat.lt_of_lt_of_le hlt hvalue.reaches.offset_le
    | some ahead =>
      -- what is looked at only was recorded behind the name
      rcases Matcher.firstGroup?_mem hahead with ⟨hzero, -⟩ | ⟨index, -, hmem⟩
      · exact absurd (List.mem_append_right _ hzero) g.zero_notMem
      · obtain ⟨name, body, b, b', new, -, hb, -, -, rfl⟩ := hvalue.records _ hmem
        refine ⟨b, hreaches.trans hb, Nat.lt_of_lt_of_le hlt hb.offset_le, ?_⟩
        rw [Matcher.target, hahead]

end Guard

end Relabel.Html
