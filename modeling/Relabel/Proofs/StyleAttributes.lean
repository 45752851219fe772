import Relabel.Proofs.Pages

/-!
# Style attributes

The search for a style attribute in a start tag passes over one attribute after the other
(`Html.find_region_of_skipped`) until it comes to a style attribute or to the end of the tag. So the
match at a start tag captures the value of its first style attribute (`Html.matchAt_styled`), and
there is none if it has no style attribute (`Html.matchAt_unstyled`). Elsewhere in a page nothing is
matched but comments. Hence the values that are located in a page are those of its style attributes
(`style_attributes_located_exactly`).
-/

namespace Relabel

namespace Html

open Pattern

/-! ### The search in a start tag -/

section Search

variable {q : Quote} {text : List Char} {c d e f : Cursor} {new captures : Captures}
variable {a : Page.Attribute} {v : Value}

/-- A value is captured between quotation marks, up to the next one. -/
theorem matches_capturedValue : (capturedValue q).Matches c d new ↔ ∃ e f, c.Over [q.char] e ∧
    (∃ text, q.char ∉ text ∧ e.Over text f) ∧ f.Over [q.char] d ∧
      new = [(q.group, ⟨e.offset, f.offset⟩)] := by
  have hrow : capturedValue q = row ([char q.char] ++ .group q.group (some q.contentName)
    (row [Pattern.star (.set (notQuote q))]) :: [char q.char]) := rfl
  rw [hrow, matches_row_group (by simp [char, lexical]) rfl (by simp [char, lexical])]
  simp only [language_row_singleton, mem_language_char, exists_eq_left, mem_language_star_notQuote]

/-- A value in quotation marks is captured up to the first quotation mark. -/
theorem find_capturedValue (he : c.Over [q.char] e) (htext : q.char ∉ text) (hf : e.Over text f)
    (hd : f.Over [q.char] d) : (capturedValue q).find .stop c captures =
      some (d, (q.group, ⟨e.offset, f.offset⟩) :: captures) := by
  have hway : (capturedValue q).Matches c d [(q.group, ⟨e.offset, f.offset⟩)] :=
    matches_capturedValue.mpr ⟨e, f, he, ⟨text, htext, hf⟩, hd, rfl⟩
  refine (follows_find rfl).eq_of_only hway fun d' new' hway' => .inl ?_
  obtain ⟨e', f', he', ⟨text', htext', hf'⟩, hd', rfl⟩ := matches_capturedValue.mp hway'
  obtain rfl := he'.unique he
  have hsame : text' ++ q.char :: d'.rest = text ++ q.char :: d.rest := by
    rw [← List.singleton_append, ← hd'.1, ← hf'.1, hf.1, hd.1, List.singleton_append]
  obtain rfl := Quote.text_unique htext' htext hsame
  obtain rfl := hf'.unique hf
  exact ⟨hd'.unique hd, rfl⟩

theorem find_capturedValue_eq_none (h : ∀ y ∈ c.rest.head?, y ≠ q.char) :
    (capturedValue q).find .stop c captures = none := by
  refine (follows_find rfl).eq_none fun d new hway => ?_
  obtain ⟨e, f, he, -⟩ := matches_capturedValue.mp hway
  exact absurd rfl (h q.char (by rw [he.1]; rfl))

/-- The search for the value of a style attribute. -/
def styleValue : Next :=
  (Pattern.alt (capturedValue .double) (capturedValue .single)).find .stop

theorem styleValue_eq : styleValue c captures = ((capturedValue .double).find .stop c captures).or
    ((capturedValue .single).find .stop c captures) :=
  rfl

/-- **A value in quotation marks is found**, and captured without them. -/
theorem styleValue_of_over (he : c.Over [q.char] e) (htext : q.char ∉ text) (hf : e.Over text f)
    (hd : f.Over [q.char] d) :
    styleValue c captures = some (d, (q.group, ⟨e.offset, f.offset⟩) :: captures) := by
  rw [styleValue_eq]
  cases q with
  | double => rw [find_capturedValue he htext hf hd, Option.some_or]
  | single =>
    have hother : (capturedValue .double).find .stop c captures = none := by
      refine find_capturedValue_eq_none fun y hy => ?_
      rw [he.1] at hy
      cases hy
      decide
    rw [hother, find_capturedValue he htext hf hd, Option.none_or]

/-- Without quotation marks no value is found. -/
theorem styleValue_eq_none (h : ∀ q : Quote, ∀ y ∈ c.rest.head?, y ≠ q.char) :
    styleValue c captures = none := by
  rw [styleValue_eq, find_capturedValue_eq_none (h .double), find_capturedValue_eq_none (h .single),
    Option.none_or]

/-- To search for a style attribute is to search for its value behind its name. -/
theorem find_styleAttribute_eq :
    (row styleAttribute).find .stop = (row styleStart).find styleValue := by
  rw [styleAttribute, find_row_append]
  rfl

theorem exists_quote_of_styleValue (h : styleValue c captures ≠ none) :
    ∃ (q : Quote) (rest : List Char), c.rest = q.char :: rest := by
  by_contra hnot
  refine h (styleValue_eq_none fun q y hy => ?_)
  rintro rfl
  cases hrest : c.rest with
  | nil =>
    rw [hrest] at hy
    cases hy
  | cons y rest =>
    rw [hrest] at hy
    cases hy
    exact hnot ⟨q, rest, hrest⟩

/-- **A style attribute is found where it stands.** -/
theorem find_styleAttribute (ha : a.assigned.Closed) (hstyle : a.style? = some v)
    (he : c.Over (' ' :: (a.name.chars ++ ['=', v.quote.char])) e) (hf : e.Over v.text f)
    (hd : f.Over [v.quote.char] d) (hbehind : Behind d.rest) :
    (row styleAttribute).find .stop c captures =
      some (d, (v.quote.group, ⟨e.offset, f.offset⟩) :: captures) := by
  have hassigned := (style?_eq_some_iff.mp hstyle).1
  have hparts : ' ' :: (a.name.chars ++ ['=', v.quote.char]) =
      ' ' :: (a.name.chars ++ ['=']) ++ [v.quote.char] := by simp
  obtain ⟨b, hb, hquote⟩ := (hparts ▸ he).split
  have hwhole : c.rest = a.render ++ d.rest := by
    rw [he.1, hf.1, hd.1, Page.Attribute.render, hassigned, Page.Assigned.render, Value.render]
    simp
  rw [hassigned] at ha
  rw [find_styleAttribute_eq, ← styleValue_of_over hquote ha hf hd]
  refine find_of_only rfl rfl (mem_styleStart hstyle) hb fun part hpart b' hb' => ?_
  by_cases hnone : styleValue b' captures = none
  · exact .inr hnone
  · obtain ⟨q, rest, hrest⟩ := exists_quote_of_styleValue hnone
    rw [hb'.1, hrest] at hwhole
    obtain ⟨-, -, hsame⟩ := of_styleStart (hassigned ▸ ha) hbehind hpart hwhole
    exact .inl hsame

/-- An attribute without a style is not taken for one with a style. -/
theorem find_styleAttribute_eq_none (ha : a.assigned.Closed) (hstyle : a.style? = none)
    (hover : c.Over a.render d) (hbehind : Behind d.rest) :
    (row styleAttribute).find .stop c captures = none := by
  rw [find_styleAttribute_eq]
  refine find_eq_none rfl rfl fun part hpart b hb => ?_
  by_contra hnone
  obtain ⟨q, rest, hrest⟩ := exists_quote_of_styleValue hnone
  have hwhole := hb.1.symm.trans hover.1
  rw [hrest] at hwhole
  obtain ⟨v, hsome, -⟩ := of_styleStart ha hbehind hpart hwhole
  rw [hstyle] at hsome
  cases hsome

/-- A style attribute is looked for here, or else behind the next attribute. -/
theorem find_styleRegion : styleRegion.find .stop c captures =
    ((row styleAttribute).find .stop c captures).or
      (passedAttribute.find (styleRegion.find .stop) c captures) :=
  find_repeated rfl rfl false _ c captures

/-- What stands behind the name of an element begins with white space. -/
theorem exists_space_of_styleRegion (h : styleRegion.find .stop c captures ≠ none) :
    ∃ x rest, c.rest = x :: rest ∧ Unicode.isSpace x = true := by
  have hspace : ∀ {gap more : List Char} {d : Cursor},
      (gap ≠ [] ∧ ∀ x ∈ gap, Unicode.isSpace x = true) → c.Over (gap ++ more) d →
      ∃ x rest, c.rest = x :: rest ∧ Unicode.isSpace x = true := by
    rintro gap more d ⟨hne, hgap⟩ hover
    obtain ⟨x, gap, rfl⟩ := List.exists_cons_of_ne_nil hne
    exact ⟨x, _, hover.1, hgap x List.mem_cons_self⟩
  by_contra hnot
  refine h ?_
  rw [find_styleRegion, find_styleAttribute_eq]
  have hstyle : (row styleStart).find styleValue c captures = none := by
    refine find_eq_none rfl rfl fun part hpart d hover => ?_
    obtain ⟨gap, word, gap', gap'', hgap, -, -, -, rfl⟩ := mem_language_styleStart.mp hpart
    exact absurd (hspace hgap hover) hnot
  have hpassed : passedAttribute.find (styleRegion.find .stop) c captures = none := by
    refine find_eq_none rfl rfl fun part hpart d hover => ?_
    obtain ⟨gap, word, more, hgap, -, -, rfl⟩ := mem_language_passedAttribute.mp hpart
    exact absurd (hspace hgap hover) hnot
  rw [hstyle, hpassed, Option.none_or]

/-- **One attribute that is no style attribute is passed over.** -/
theorem find_region_of_skipped (ha : a.assigned.Closed) (hstyle : a.style? = none)
    (hover : c.Over a.render d) (hbehind : Behind d.rest) :
    styleRegion.find .stop c captures = styleRegion.find .stop d captures := by
  rw [find_styleRegion, find_styleAttribute_eq_none ha hstyle hover hbehind, Option.none_or]
  refine find_of_only rfl rfl (render_mem_passedAttribute ha) hover fun part hpart e he => ?_
  by_cases hnone : styleRegion.find .stop e captures = none
  · exact .inr hnone
  · obtain ⟨x, rest, hrest, hx⟩ := exists_space_of_styleRegion hnone
    have hwhole := he.1.symm.trans hover.1
    rw [hrest] at hwhole
    exact .inl (eq_render_of_passedAttribute ha hbehind hpart hx hwhole)

/-- **Attributes among which there is no style attribute are passed over.** -/
theorem find_region_of_earlier {earlier : List Page.Attribute}
    (hclosed : ∀ b ∈ earlier, b.assigned.Closed) (hnone : ∀ b ∈ earlier, b.style? = none)
    (hover : c.Over (earlier.flatMap Page.Attribute.render) d) (hbehind : Behind d.rest) :
    styleRegion.find .stop c captures = styleRegion.find .stop d captures := by
  induction earlier generalizing c with
  | nil => rw [hover.eq_of_nil]
  | cons b earlier ih =>
    obtain ⟨hb, hclosed⟩ := List.forall_mem_cons.mp hclosed
    obtain ⟨hstyle, hnone⟩ := List.forall_mem_cons.mp hnone
    rw [List.flatMap_cons] at hover
    obtain ⟨e, he, hlater⟩ := hover.split
    have hnext : Behind e.rest := by
      rw [hlater.1]
      exact hbehind.attributes earlier
    rw [find_region_of_skipped hb hstyle he hnext, ih hclosed hnone hlater]

/-- Where the tag is closed there is no style attribute. -/
theorem find_region_of_bracket {rest : List Char} (h : c.rest = '>' :: rest) :
    styleRegion.find .stop c captures = none := by
  by_contra hsome
  obtain ⟨x, later, hrest, hx⟩ := exists_space_of_styleRegion hsome
  obtain ⟨rfl, -⟩ := List.cons.inj (h.symm.trans hrest)
  exact absurd hx (by decide)

theorem contains_elementStart {y : Char} (h : isAsciiLetter y = true) :
    elementStart.contains y = true := by
  have hidentifier : isIdentifierChar y = true := by
    simp [isIdentifierChar, h]
  exact forall_isIdentifierChar
    (P := fun y => isAsciiLetter y = true → elementStart.contains y = true) (by decide +kernel)
    hidentifier h

theorem Name.exists_letter (name : Name) :
    ∃ z later, name.chars = z :: later ∧ isAsciiLetter z = true := by
  obtain ⟨z, later, hchars⟩ := name.exists_cons
  have hletter := name.letter
  rw [hchars] at hletter
  exact ⟨z, later, hchars, hletter⟩

/-- A tag opens with a bracket and the name of an element. -/
theorem mem_language_elementName {part : List Char} :
    part ∈ (row [char '<', .set elementStart, Pattern.star (.set elementChar)]).language ↔
      ∃ y later, elementStart.contains y = true ∧ (∀ x ∈ later, elementChar.contains x = true) ∧
        part = '<' :: y :: later := by
  simp only [mem_language_row_cons, language_row_singleton, mem_language_char, mem_language_set,
    Pattern.star, mem_language_repeated_set]
  constructor
  · rintro ⟨_, rfl, _, ⟨_, ⟨y, hy, rfl⟩, later, hlater, rfl⟩, rfl⟩
    exact ⟨y, later, hy, hlater, rfl⟩
  · rintro ⟨y, later, hy, hlater, rfl⟩
    exact ⟨_, rfl, _, ⟨_, ⟨y, hy, rfl⟩, later, hlater, rfl⟩, rfl⟩

/-- The name of an element is read as a whole. -/
theorem find_styleTag {name : Name} (hover : c.Over ('<' :: name.chars) d)
    (hbehind : Behind d.rest) :
    styleTagPattern.find .stop c captures = styleRegion.find .stop d captures := by
  obtain ⟨z, chars, hchars, hletter⟩ := name.exists_letter
  have hname : ∀ x ∈ chars, elementChar.contains x = true := by
    intro x hx
    exact contains_elementChar_of_identifier
      (name.isIdentifierChar_of_mem x (by rw [hchars]; exact List.mem_cons_of_mem z hx))
  rw [hchars] at hover
  rw [styleTagPattern, find_row_append]
  refine find_of_only rfl rfl
    (mem_language_elementName.mpr ⟨z, chars, contains_elementStart hletter, hname, rfl⟩) hover
    fun part hpart e he => ?_
  by_cases hnone : styleRegion.find .stop e captures = none
  · exact .inr hnone
  · obtain ⟨x, rest, hrest, hx⟩ := exists_space_of_styleRegion hnone
    obtain ⟨y, later, -, hlater, rfl⟩ := mem_language_elementName.mp hpart
    have hwhole := he.1.symm.trans hover.1
    rw [hrest] at hwhole
    obtain ⟨rfl, hrun⟩ := List.cons.inj (List.cons.inj hwhole).2
    have hsame : later = chars := by
      refine stretch_unique _ hlater hname ?_ ?_ hrun
      · rintro w ⟨rfl⟩
        simp [elementChar, CharSet.contains, hx]
      · intro w hw
        rcases hbehind.head w hw with rfl | rfl <;> decide
    exact .inl (by rw [hsame])

end Search

/-! ### Style attributes of a page -/

namespace Page

/-- If there is no first style, no attribute has one. -/
theorem of_firstStyle?_eq_none {offset : Nat} {attributes : List Attribute}
    (h : firstStyle? offset attributes = none) : ∀ a ∈ attributes, a.style? = none := by
  induction attributes generalizing offset with
  | nil => simp
  | cons a attributes ih =>
    rw [firstStyle?] at h
    split at h
    · cases h
    · rename_i hstyle
      exact List.forall_mem_cons.mpr ⟨hstyle, ih h⟩

/-- In front of the first style no attribute has one. -/
theorem of_firstStyle? {offset start : Nat} {value : List Char} {attributes : List Attribute}
    (h : firstStyle? offset attributes = some (value, start)) : ∃ earlier a later v,
      attributes = earlier ++ a :: later ∧ (∀ b ∈ earlier, b.style? = none) ∧ a.style? = some v ∧
      value = v.text ∧ start = offset + byteSize (earlier.flatMap Attribute.render ++
        ' ' :: (a.name.chars ++ ['=', v.quote.char])) := by
  induction attributes generalizing offset with
  | nil => cases h
  | cons a attributes ih =>
    rw [firstStyle?] at h
    split at h
    · rename_i v hstyle
      cases h
      exact ⟨[], a, attributes, v, rfl, by simp, hstyle, rfl, rfl⟩
    · rename_i hstyle
      obtain ⟨earlier, b, later, v, rfl, hearlier, hb, rfl, rfl⟩ := ih h
      refine ⟨a :: earlier, b, later, v, rfl, List.forall_mem_cons.mpr ⟨hstyle, hearlier⟩, hb, rfl,
        ?_⟩
      rw [List.flatMap_cons, List.append_assoc, byteSize_append a.render, Nat.add_assoc]

end Page

section Tag

variable {name : Name} {attributes : List Page.Attribute} {c d : Cursor}

theorem proper_styleTagPattern : styleTagPattern.proper = true :=
  rfl

/-- There is no match at a start tag without a style attribute. -/
theorem matchAt_unstyled (hclosed : ∀ a ∈ attributes, a.assigned.Closed)
    (hnone : ∀ a ∈ attributes, a.style? = none)
    (hover : c.Over (Page.Item.startTag name attributes).render d) :
    (Program.ofPattern styleTagPattern).matchAt c = none := by
  rw [Page.Item.render, ← List.cons_append] at hover
  obtain ⟨e, he, hlater⟩ := hover.split
  obtain ⟨f, hf, hbracket⟩ := hlater.split
  have hbehind : Behind f.rest := by
    rw [hbracket.1]
    exact .bracket d.rest
  have hnext : Behind e.rest := by
    rw [hf.1]
    exact hbehind.attributes attributes
  rw [Program.matchAt_eq_find proper_styleTagPattern, find_styleTag he hnext,
    find_region_of_earlier hclosed hnone hf hbehind, find_region_of_bracket hbracket.1]
  rfl

/-- **The match at a start tag with a style attribute** goes up to the end of its value, which is
captured. -/
theorem matchAt_styled (hclosed : ∀ a ∈ attributes, a.assigned.Closed) {value : List Char}
    {start : Nat} (hstyle : Page.firstStyle? (c.offset + byteSize ('<' :: name.chars)) attributes =
      some (value, start))
    (hover : c.Over (Page.Item.startTag name attributes).render d) :
    ∃ e f g front back, (Page.Item.startTag name attributes).render = '<' :: (front ++ back) ∧
      c.Over ('<' :: front) g ∧ g.Over back d ∧ c.Reaches e ∧ e.offset = start ∧
      e.Over value f ∧ ∃ q : Quote, (Program.ofPattern styleTagPattern).matchAt c =
        some ⟨⟨c.offset, g.offset⟩, [(q.group, ⟨e.offset, f.offset⟩)]⟩ := by
  obtain ⟨earlier, a, later, v, rfl, hearlier, ha, rfl, rfl⟩ := Page.of_firstStyle? hstyle
  obtain ⟨hclosed, hlater⟩ := List.forall_mem_append.mp hclosed
  obtain ⟨hstyleClosed, -⟩ := List.forall_mem_cons.mp hlater
  have hrender : (Page.Item.startTag name (earlier ++ a :: later)).render =
      ('<' :: name.chars) ++ (earlier.flatMap Page.Attribute.render ++
        ((' ' :: (a.name.chars ++ ['=', v.quote.char])) ++ (v.text ++ ([v.quote.char] ++
          (later.flatMap Page.Attribute.render ++ ['>']))))) := by
    simp [Page.Item.render, Page.Attribute.render, (style?_eq_some_iff.mp ha).1,
      Page.Assigned.render, Value.render]
  rw [hrender] at hover ⊢
  obtain ⟨b, hb, hover⟩ := hover.split
  obtain ⟨b', hb', hover⟩ := hover.split
  obtain ⟨e, he, hover⟩ := hover.split
  obtain ⟨f, hf, hover⟩ := hover.split
  obtain ⟨g, hg, hback⟩ := hover.split
  have hbehind : Behind g.rest := by
    rw [hback.1, List.append_assoc]
    exact (Behind.bracket d.rest).attributes later
  have hwhole : b'.rest = a.render ++ g.rest := by
    rw [he.1, hf.1, hg.1, Page.Attribute.render, (style?_eq_some_iff.mp ha).1,
      Page.Assigned.render, Value.render]
    simp
  have hattribute : Behind b'.rest := by
    rw [hwhole]
    simpa using hbehind.attributes [a]
  have hname : Behind b.rest := by
    rw [hb'.1]
    exact hattribute.attributes earlier
  refine ⟨e, f, g, name.chars ++ (earlier.flatMap Page.Attribute.render ++
    ((' ' :: (a.name.chars ++ ['=', v.quote.char])) ++ (v.text ++ [v.quote.char]))), _, ?_,
    ?_, hback, ⟨_, hb.trans (hb'.trans he)⟩, ?_, hf, v.quote, ?_⟩
  · simp
  · have hfront := hb.trans (hb'.trans (he.trans (hf.trans hg)))
    simpa using hfront
  · rw [(hb'.trans he).2.1, hb.2.1]
  · rw [Program.matchAt_eq_find proper_styleTagPattern, find_styleTag hb hname,
      find_region_of_earlier hclosed hearlier hb' hattribute, find_styleRegion,
      find_styleAttribute hstyleClosed ha he hf hg hbehind, Option.some_or]
    rfl

end Tag

section Walk

variable {host : List Char} {c d : Cursor}

theorem ahead_styleMatcher : styleMatcher.ahead = [] :=
  rfl

/-- Every match covers something, so scanning advances. -/
theorem advances_styleMatcher : styleMatcher.Advances :=
  Matcher.advances_of_ahead rfl ahead_styleMatcher

/-- Nothing is matched but what begins with an opening bracket. -/
theorem matchAt_without_bracket (h : ∀ y ∈ c.rest.head?, y ≠ '<') :
    styleMatcher.program.matchAt c = none := by
  have hbegins : ∀ {items : List Pattern} {d : Cursor} {new : Captures},
      ¬ (row (char '<' :: items)).Matches c d new := by
    rintro items d new ⟨e, first, second, ⟨y, rest, hrest, hy, -⟩, -⟩
    rw [CharSet.contains_single, beq_iff_eq] at hy
    exact h y (by rw [hrest]; rfl) hy
  refine (Program.matchAt_eq_none_iff rfl).mpr fun d new hway => ?_
  exact hway.elim hbegins hbegins

/-- Text without opening brackets is passed over. -/
theorem contents_of_text {part : List Char} (h : '<' ∉ part) (hover : c.Over part d) :
    styleMatcher.contents host c = styleMatcher.contents host d := by
  refine advances_styleMatcher.contents_skips hover ?_
  rintro front back e rfl hback - hlater
  obtain ⟨z, back, rfl⟩ := List.exists_cons_of_ne_nil hback
  refine matchAt_without_bracket fun y hy => ?_
  rw [hlater.1] at hy
  cases hy
  rintro rfl
  exact h (by simp)

/-- An opening bracket at which nothing is matched is passed over, with what follows it. -/
theorem contents_of_bracket {part : List Char} (h : '<' ∉ part) (hover : c.Over ('<' :: part) d)
    (hnone : styleMatcher.program.matchAt c = none) :
    styleMatcher.contents host c = styleMatcher.contents host d := by
  rw [advances_styleMatcher.contents_skip hnone hover.1]
  exact contents_of_text h hover.of_cons

/-- Nothing is captured in a comment. -/
theorem contents_of_comment {body : List Char} (h : ¬ "-->".toList <:+: body)
    (hover : c.Over (Page.Item.comment body).render d) :
    styleMatcher.contents host c = styleMatcher.contents host d := by
  have hcomment : comment? c.rest = some ((Page.Item.comment body).render, d.rest) := by
    refine comment?_eq_some_iff.mpr ⟨body ++ ("-->".toList ++ d.rest), body, ?_,
      upTo?_comment h d.rest, rfl⟩
    rw [hover.1, Page.Item.render, List.append_assoc, List.append_assoc]
  have hmatch : styleMatcher.program.matchAt c = some ⟨⟨c.offset, d.offset⟩, []⟩ :=
    matchAt_of_comment? proper_styleTagPattern hcomment hover
  rw [advances_styleMatcher.contents_found ahead_styleMatcher hmatch hover (List.cons_ne_nil _ _),
    Matcher.content?_of_absent rfl]
  rfl

/-- Nothing is captured in an end tag. -/
theorem contents_of_endTag {content : List Char} (h : '<' ∉ content)
    (hover : c.Over (Page.Item.endTag content).render d) :
    styleMatcher.contents host c = styleMatcher.contents host d := by
  refine contents_of_bracket (by simp [h]) hover ?_
  have hcomment : comment? c.rest = none := by
    rw [hover.1]
    exact comment?_eq_none (by decide) _
  refine (matchAt_of_comment?_eq_none proper_styleTagPattern hcomment).trans ?_
  refine (Program.matchAt_eq_none_iff proper_styleTagPattern).mpr fun e new hway => ?_
  obtain ⟨part, hpart, he⟩ := hway.exists_mem_language
  rw [styleTagPattern, language_row_append] at hpart
  obtain ⟨front, hfront, back, -, rfl⟩ := hpart
  obtain ⟨y, later, hy, -, rfl⟩ := mem_language_elementName.mp hfront
  obtain ⟨rfl, -⟩ := List.cons.inj (List.cons.inj (hover.1.symm.trans he.1)).2
  exact absurd hy (by decide)

theorem bracket_notMem_assigned {assigned : Page.Assigned} (h : assigned.WellFormed) :
    '<' ∉ assigned.render := by
  cases assigned with
  | nothing => exact List.not_mem_nil
  | quoted v =>
    have hquote : '<' ≠ v.quote.char := by
      cases v.quote <;> decide
    simp [Page.Assigned.render, Value.render, hquote, h.2]
  | bare text =>
    have htext : '<' ∉ text := fun hmem => (h.closed.of_mem_bare hmem).2 (by decide)
    simp [Page.Assigned.render, htext]

/-- No bracket opens inside a well-formed start tag. -/
theorem bracket_notMem_startTag (name : Name) {attributes : List Page.Attribute}
    (hwell : ∀ a ∈ attributes, a.assigned.WellFormed) :
    '<' ∉ name.chars ++ (attributes.flatMap Page.Attribute.render ++ ['>']) := by
  have hattributes : '<' ∉ attributes.flatMap Page.Attribute.render := by
    intro hmem
    obtain ⟨a, ha, hrender⟩ := List.mem_flatMap.mp hmem
    have hname : '<' ∉ a.name.chars := a.name.notMem_of_delimiter (by decide)
    simp [Page.Attribute.render, hname, bracket_notMem_assigned (hwell a ha)] at hrender
  have hname : '<' ∉ name.chars := name.notMem_of_delimiter (by decide)
  simp [hname, hattributes]

/-- What is matched at a start tag is no comment. -/
theorem matchAt_styleMatcher {name : Name} {attributes : List Page.Attribute}
    (hover : c.Over (Page.Item.startTag name attributes).render d) :
    styleMatcher.program.matchAt c = (Program.ofPattern styleTagPattern).matchAt c := by
  have hcomment : comment? c.rest = none := by
    obtain ⟨z, chars, hchars, hletter⟩ := name.exists_letter
    rw [hover.1, Page.Item.render, hchars]
    refine comment?_eq_none ?_ _
    rintro rfl
    cases hletter
  exact matchAt_of_comment?_eq_none proper_styleTagPattern hcomment

/-- **One start tag**: its style is captured, if it has one. -/
theorem contents_of_startTag {name : Name} {attributes : List Page.Attribute}
    (hwell : ∀ a ∈ attributes, a.assigned.WellFormed) (hc : (Cursor.start host).Reaches c)
    (hover : c.Over (Page.Item.startTag name attributes).render d) :
    styleMatcher.contents host c = (((Page.Item.startTag name attributes).style? c.offset).map
      fun (value, start) => (String.ofList value, start)).toList ++
        styleMatcher.contents host d := by
  have hbracket := bracket_notMem_startTag name hwell
  have hclosed : ∀ a ∈ attributes, a.assigned.Closed := fun a ha => (hwell a ha).closed
  have hlocated := matchAt_styleMatcher hover
  rw [Page.Item.style?]
  cases hstyle : Page.firstStyle? (c.offset + byteSize ('<' :: name.chars)) attributes with
  | none =>
    have hnone := matchAt_unstyled hclosed (Page.of_firstStyle?_eq_none hstyle) hover
    exact contents_of_bracket hbracket hover (hlocated.trans hnone)
  | some found =>
    obtain ⟨value, start⟩ := found
    obtain ⟨e, f, g, front, back, hrender, hfront, hback, he, rfl, hf, q, hmatch⟩ :=
      matchAt_styled hclosed hstyle hover
    have hrest : '<' ∉ back := by
      have hparts := (List.cons.inj hrender).2
      rw [hparts] at hbracket
      exact fun hmem => hbracket (List.mem_append_right front hmem)
    have hcapture : styleMatcher.capture? ⟨⟨c.offset, g.offset⟩,
        [(q.group, ⟨e.offset, f.offset⟩)]⟩ = some ⟨e.offset, f.offset⟩ := by
      cases q <;> rfl
    rw [advances_styleMatcher.contents_found ahead_styleMatcher (hlocated.trans hmatch) hfront
      (List.cons_ne_nil _ _), Matcher.content?_of_over hcapture (hc.trans he) hf,
      contents_of_text hrest hback]
    by_cases hempty : value = [] <;> simp [hempty, Option.filter]

/-- **One part of a page**: what is located in it is its style. -/
theorem contents_of_item {item : Page.Item} (hitem : item.WellFormed)
    (hc : (Cursor.start host).Reaches c) (hover : c.Over item.render d) :
    styleMatcher.contents host c =
      ((item.style? c.offset).map fun (value, start) => (String.ofList value, start)).toList ++
        styleMatcher.contents host d := by
  cases item with
  | text content => exact contents_of_text hitem hover
  | endTag content => exact contents_of_endTag hitem.1 hover
  | comment body => exact contents_of_comment hitem hover
  | startTag name attributes => exact contents_of_startTag hitem hc hover

/-- **What is located in a page are the styles of its start tags.** -/
theorem contents_eq_stylesFrom {page : Page} (hpage : page.WellFormed)
    (hc : (Cursor.start host).Reaches c) (hrest : c.rest = page.flatMap Page.Item.render) :
    styleMatcher.contents host c = (Page.stylesFrom c.offset page).map
      fun (value, start) => (String.ofList value, start) := by
  induction page generalizing c with
  | nil =>
    refine Matcher.contents_end (matchAt_without_bracket ?_) hrest
    rw [hrest]
    simp
  | cons item page ih =>
    obtain ⟨hitem, hpage⟩ := List.forall_mem_cons.mp hpage
    obtain ⟨d, hd, hlater⟩ := Cursor.exists_over hrest
    rw [contents_of_item hitem hc hd, ih hpage (hc.trans ⟨_, hd⟩) hlater, Page.stylesFrom, hd.2.1,
      List.map_append, Option.toList_map]

theorem find_eq_contents (host : List Char) : Locator.styleAttribute.find (String.ofList host) =
    (styleMatcher.contents host (.start host)).map fun (raw, start) =>
      Embed.wrapped .css raw start Locator.styleAttributeWrapper := by
  have hcontents : Locator.contents Locator.styleAttributePattern [1, 2] host =
      styleMatcher.contents host (.start host) :=
    Locator.contents_eq_walk parse_styleAttributePattern rfl rfl ahead_styleMatcher host
  rw [Locator.find, Locator.styleAttributes, String.toList_ofList, hcontents]

/-- **What is found on a page are its styles.** -/
theorem find_page {page : Page} (h : page.WellFormed) :
    Locator.styleAttribute.find page.render = page.styleEmbeds := by
  have hrest : (Cursor.start (page.flatMap Page.Item.render)).rest =
      page.flatMap Page.Item.render := rfl
  rw [Page.render, find_eq_contents, contents_eq_stylesFrom h (.refl _) hrest, List.map_map]
  refine List.map_congr_left fun entry _ => ?_
  simp only [Function.comp_apply, Embed.wrapped, Locator.styleAttributeWrapper, ← byteSize_toList,
    String.toList_ofList]

end Walk

end Html

/-- **Style attributes are located exactly.** On a well-formed page, what is located is the first
style in quotation marks of each start tag, unless it is empty, in the order of the page. Comments,
texts and the values of other attributes give none. -/
theorem style_attributes_located_exactly {page : Html.Page} (h : page.WellFormed) :
    (Locator.styleAttribute.locate page.render).outcome = .ok page.styleEmbeds :=
  congrArg Except.ok (Html.find_page h)

namespace Html.Page

def styleAssigned (assigned : Assigned) : Attribute :=
  ⟨.literal "style" rfl, assigned⟩

/-- A page with styles in a comment, in the value of another attribute and in a value without
quotation marks, with a tag whose first style is empty and with one that has a style late. -/
def lookalikes : Page :=
  [.text "x > y".toList, .comment "<p style='no'>".toList,
    .startTag paragraph
      [⟨.literal "alt" rfl,
          .quoted ⟨.double, "> style='b'".toList⟩⟩,
        ⟨.literal "data-style" rfl, .bare "style=".toList⟩,
        ⟨.literal "STYLE" rfl, .quoted ⟨.single, "é:x".toList⟩⟩,
        styleAssigned (.quoted ⟨.single, ['z']⟩)],
    .endTag ['p'],
    .startTag paragraph
      [styleAssigned (.quoted ⟨.single, []⟩), styleAssigned (.quoted ⟨.single, ['w']⟩)],
    .startTag paragraph [styleAssigned .nothing, styleAssigned (.bare ['u']),
      styleAssigned (.quoted ⟨.double, "c>'d".toList⟩)]]

theorem lookalikes_located : lookalikes.WellFormed ∧
    (Locator.styleAttribute.locate ("x > y<!--<p style='no'>-->" ++
      "<p alt=\"> style='b'\" data-style=style= STYLE='é:x' style='z'></p>" ++
      "<p style='' style='w'><p style style=u style=\"c>'d\">")).outcome =
      .ok [⟨.css, ":root\x7bé:x\x7d", ⟨72, 76⟩, some ⟨":root\x7b", "\x7d"⟩⟩,
        ⟨.css, ":root\x7bc>'d\x7d", ⟨138, 142⟩, some ⟨":root\x7b", "\x7d"⟩⟩] := by
  have hwell : lookalikes.WellFormed := by decide
  have hrender : lookalikes.render = "x > y<!--<p style='no'>-->" ++
      "<p alt=\"> style='b'\" data-style=style= STYLE='é:x' style='z'></p>" ++
      "<p style='' style='w'><p style style=u style=\"c>'d\">" := by decide +kernel
  have hembeds : lookalikes.styleEmbeds =
      [⟨.css, ":root\x7bé:x\x7d", ⟨72, 76⟩, some ⟨":root\x7b", "\x7d"⟩⟩,
        ⟨.css, ":root\x7bc>'d\x7d", ⟨138, 142⟩, some ⟨":root\x7b", "\x7d"⟩⟩] := by decide
  rw [← hrender, ← hembeds]
  exact ⟨hwell, style_attributes_located_exactly hwell⟩

end Html.Page

end Relabel
