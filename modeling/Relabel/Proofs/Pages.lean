import Relabel.Proofs.Flanked
import Relabel.Proofs.Locating

/-!
# Pages

A page is a sequence of texts, end tags, comments and start tags, whose attributes may have values
with and without quotation marks (`Html.Page`). Each start tag holds code if it has an attribute
`style` with a value in quotation marks. The first such attribute counts, and it counts for nothing
if its value is empty (`Html.Page.stylesFrom`).

The pattern for style attributes passes over other attributes one at a time, and there are many ways
to cut what stands in a tag. But what follows an attribute has to begin with white space, and what
follows the beginning of a style attribute with a quotation mark. There are no such places in a tag
but those behind an attribute and in front of a value, so both are read as they are written
(`Html.eq_render_of_passedAttribute`, `Html.of_styleStart`).
-/

namespace Relabel

namespace Html

open Pattern

/-! ### Pages -/

namespace Page

inductive Assigned where
  | nothing
  | quoted (v : Value)
  | bare (text : List Char)

namespace Assigned

def render : Assigned → List Char
  | .nothing => []
  | .quoted v => '=' :: v.render
  | .bare text => '=' :: text

/-- The characters of a value without quotation marks: neither white space nor quotation marks nor
brackets. -/
def isBare (x : Char) : Bool :=
  !(Unicode.isSpace x || ['"', '\'', '<', '>'].contains x)

def WellFormed : Assigned → Prop
  | .nothing => True
  | .quoted v => v.WellFormed
  | .bare text => text ≠ [] ∧ text.all isBare = true

instance : (assigned : Assigned) → Decidable assigned.WellFormed
  | .nothing => isTrue trivial
  | .quoted v => inferInstanceAs (Decidable v.WellFormed)
  | .bare _ => inferInstanceAs (Decidable (_ ∧ _))

/-- A value can be told from what follows it: no value in quotation marks has a mark of its own in
it. -/
def Closed : Assigned → Prop
  | .nothing => True
  | .quoted v => v.quote.char ∉ v.text
  | .bare text => text ≠ [] ∧ text.all isBare = true

instance : (assigned : Assigned) → Decidable assigned.Closed
  | .nothing => isTrue trivial
  | .quoted _ => inferInstanceAs (Decidable (_ ∉ _))
  | .bare _ => inferInstanceAs (Decidable (_ ∧ _))

/-- A well-formed value can be told from what follows it. -/
theorem WellFormed.closed {assigned : Assigned} (h : assigned.WellFormed) : assigned.Closed := by
  cases assigned with
  | nothing => trivial
  | quoted v => exact h.1
  | bare text => exact h

theorem Closed.of_mem_bare {text : List Char} (h : (bare text).Closed) {x : Char}
    (hx : x ∈ text) : Unicode.isSpace x = false ∧ x ∉ ['"', '\'', '<', '>'] := by
  simpa [isBare] using List.all_eq_true.mp h.2 x hx

end Assigned

structure Attribute where
  name : Name
  assigned : Assigned

namespace Attribute

def render (a : Attribute) : List Char :=
  ' ' :: (a.name.chars ++ a.assigned.render)

def isStyle (a : Attribute) : Bool :=
  a.name.chars.map Fragment.asciiLower == "style".toList

/-- The value in quotation marks of an attribute named `style`. -/
def style? (a : Attribute) : Option Value :=
  match a.assigned with
  | .quoted v => if a.isStyle then some v else none
  | _ => none

end Attribute

inductive Item where
  | text (content : List Char)
  | endTag (content : List Char)
  | comment (body : List Char)
  | startTag (name : Name) (attributes : List Attribute)

/-- The first value in quotation marks that some attributes assign to `style`, with the offset at
which it begins if the attributes begin at a given one. -/
def firstStyle? (offset : Nat) : List Attribute → Option (List Char × Nat)
  | [] => none
  | a :: later =>
    match a.style? with
    | some v => some (v.text, offset + byteSize (' ' :: (a.name.chars ++ ['=', v.quote.char])))
    | none => firstStyle? (offset + byteSize a.render) later

namespace Item

def render : Item → List Char
  | .text content => content
  | .endTag content => '<' :: '/' :: (content ++ ['>'])
  | .comment body => "<!--".toList ++ (body ++ "-->".toList)
  | .startTag name attributes =>
    '<' :: (name.chars ++ (attributes.flatMap Attribute.render ++ ['>']))

/-- No text has the character that opens a tag, no end tag has a bracket in it, and no comment has
what ends it. -/
def WellFormed : Item → Prop
  | .text content => '<' ∉ content
  | .endTag content => '<' ∉ content ∧ '>' ∉ content
  | .comment body => ¬ "-->".toList <:+: body
  | .startTag _ attributes => ∀ a ∈ attributes, a.assigned.WellFormed

instance : (item : Item) → Decidable item.WellFormed
  | .text content => inferInstanceAs (Decidable ('<' ∉ content))
  | .endTag _ => inferInstanceAs (Decidable (_ ∧ _))
  | .comment body => inferInstanceAs (Decidable (¬ "-->".toList <:+: body))
  | .startTag _ attributes =>
    inferInstanceAs (Decidable (∀ a ∈ attributes, a.assigned.WellFormed))

/-- The style of a start tag, unless it is empty, with the offset at which it begins if the tag
begins at a given one. -/
def style? (offset : Nat) : Item → Option (List Char × Nat)
  | .startTag name attributes =>
    (firstStyle? (offset + byteSize ('<' :: name.chars)) attributes).filter
      fun (value, _) => value ≠ []
  | _ => none

end Item

/-- The styles of some parts of a page that begin at an offset, with the offsets at which they
begin. -/
def stylesFrom (offset : Nat) : List Item → List (List Char × Nat)
  | [] => []
  | item :: later =>
    (item.style? offset).toList ++ stylesFrom (offset + byteSize item.render) later

end Page

abbrev Page := List Page.Item

namespace Page

def render (page : Page) : String :=
  String.ofList (page.flatMap Item.render)

def WellFormed (page : Page) : Prop :=
  ∀ item ∈ page, item.WellFormed

instance (page : Page) : Decidable page.WellFormed :=
  inferInstanceAs (Decidable (∀ item ∈ page, item.WellFormed))

/-- The code in the style attributes of a page. -/
def styleEmbeds (page : Page) : List Embed :=
  (stylesFrom 0 page).map fun (value, start) =>
    ⟨.css, ":root\x7b" ++ String.ofList value ++ "\x7d", ⟨start, start + byteSize value⟩,
      some ⟨":root\x7b", "\x7d"⟩⟩

end Page

/-! ### The pattern for style attributes -/

/-- The characters with which the name of an element can begin, up to case. -/
def elementStart : CharSet :=
  .anyCase (.range 'a' 'z')

def passedNameChar : CharSet :=
  .compl (['"', '\'', '>', '/', '='].foldl (fun s c => s.union (.single c)) .space)

def passedValueChar : CharSet :=
  .compl (['"', '\'', '>'].foldl (fun s c => s.union (.single c)) .space)

def plus (s : CharSet) : Pattern :=
  .repeated 1 none true (.set s)

def passedValue : Pattern :=
  .alt (quotedPattern .double) (.alt (quotedPattern .single) (row [plus passedValueChar]))

def passedAssignment : Pattern :=
  row [Pattern.star (.set .space), char '=', Pattern.star (.set .space), passedValue]

def passedAttribute : Pattern :=
  row [plus .space, plus passedNameChar, .repeated 0 (some 1) true passedAssignment]

def styleStart : List Pattern :=
  plus .space :: ("style".toList.map (literal locatorFlags) ++
    [Pattern.star (.set .space), char '=', Pattern.star (.set .space)])

def Quote.contentName : Quote → List Char
  | .double => "content_1".toList
  | .single => "content_2".toList

def capturedValue (q : Quote) : Pattern :=
  row [char q.char, .group q.group (some q.contentName) (row [Pattern.star (.set (notQuote q))]),
    char q.char]

def styleAttribute : List Pattern :=
  styleStart ++ [.alt (capturedValue .double) (capturedValue .single)]

/-- The pattern of what stands in a start tag behind its name, up to the value of its style
attribute. -/
def styleRegion : Pattern :=
  row (.repeated 0 none false passedAttribute :: styleAttribute)

def styleTagPattern : Pattern :=
  row ([char '<', .set elementStart, Pattern.star (.set elementChar)] ++
    .repeated 0 none false passedAttribute :: styleAttribute)

def styleMatcher : Matcher :=
  .ofPattern "content".toList (located styleTagPattern)

/-- The pattern of the locator is that of start tags with a style, or of comments. -/
theorem parse_styleAttributePattern :
    (Pattern.parse? false Locator.styleAttributePattern.toList).map Pattern.plain =
      some (located styleTagPattern) := by
  decide +kernel

section Languages

variable {part : List Char} {y : Char}

theorem contains_passedNameChar : passedNameChar.contains y = true ↔ Unicode.isSpace y = false ∧
    y ≠ '"' ∧ y ≠ '\'' ∧ y ≠ '>' ∧ y ≠ '/' ∧ y ≠ '=' := by
  simp [passedNameChar, CharSet.contains, CharSet.contains_single, and_assoc]

theorem contains_passedValueChar : passedValueChar.contains y = true ↔
    Unicode.isSpace y = false ∧ y ≠ '"' ∧ y ≠ '\'' ∧ y ≠ '>' := by
  simp [passedValueChar, CharSet.contains, CharSet.contains_single, and_assoc]

theorem mem_language_plus {s : CharSet} :
    part ∈ (plus s).language ↔ part ≠ [] ∧ ∀ x ∈ part, s.contains x = true := by
  rw [plus, mem_language_atLeast_set, Nat.one_le_iff_ne_zero, Ne, List.length_eq_zero_iff]

/-- A value that is passed over stands in quotation marks or has none. -/
theorem mem_language_passedValue : part ∈ passedValue.language ↔
    (∃ q, part ∈ (quotedPattern q).language) ∨
      part ≠ [] ∧ ∀ x ∈ part, passedValueChar.contains x = true := by
  rw [passedValue, mem_language_alt, mem_language_alt, language_row_singleton, mem_language_plus]
  constructor
  · rintro (hdouble | hsingle | hbare)
    · exact .inl ⟨.double, hdouble⟩
    · exact .inl ⟨.single, hsingle⟩
    · exact .inr hbare
  · rintro (⟨q, hquoted⟩ | hbare)
    · cases q with
      | double => exact .inl hquoted
      | single => exact .inr (.inl hquoted)
    · exact .inr (.inr hbare)

theorem mem_language_passedAssignment : part ∈ passedAssignment.language ↔ ∃ gap gap' value,
    (∀ x ∈ gap, Unicode.isSpace x = true) ∧ (∀ x ∈ gap', Unicode.isSpace x = true) ∧
      value ∈ passedValue.language ∧ part = gap ++ '=' :: (gap' ++ value) := by
  simp only [passedAssignment, mem_language_row_cons, mem_language_row_nil, mem_language_char,
    mem_language_star_space]
  constructor
  · rintro ⟨gap, hgap, _, ⟨_, rfl, _, ⟨gap', hgap', _, ⟨value, hvalue, _, rfl, rfl⟩, rfl⟩, rfl⟩,
      rfl⟩
    exact ⟨gap, gap', value, hgap, hgap', hvalue, by simp⟩
  · rintro ⟨gap, gap', value, hgap, hgap', hvalue, rfl⟩
    exact ⟨gap, hgap, _, ⟨_, rfl, _, ⟨gap', hgap', _, ⟨value, hvalue, _, rfl, rfl⟩, rfl⟩, rfl⟩,
      by simp⟩

/-- An attribute that is passed over is a name behind white space, with or without a value. -/
theorem mem_language_passedAttribute : part ∈ passedAttribute.language ↔ ∃ gap word more,
    (gap ≠ [] ∧ ∀ x ∈ gap, Unicode.isSpace x = true) ∧
      (word ≠ [] ∧ ∀ x ∈ word, passedNameChar.contains x = true) ∧
      (more = [] ∨ more ∈ passedAssignment.language) ∧ part = gap ++ (word ++ more) := by
  simp only [passedAttribute, mem_language_row_cons, language_row_singleton, mem_language_plus,
    mem_language_optional]
  constructor
  · rintro ⟨gap, hgap, _, ⟨word, hword, more, hmore, rfl⟩, rfl⟩
    exact ⟨gap, word, more, hgap, hword, hmore, rfl⟩
  · rintro ⟨gap, word, more, hgap, hword, hmore, rfl⟩
    exact ⟨gap, hgap, _, ⟨word, hword, more, hmore, rfl⟩, rfl⟩

/-- What stands in front of the value of a style attribute. -/
theorem mem_language_styleStart : part ∈ (row styleStart).language ↔ ∃ gap word gap' gap'',
    (gap ≠ [] ∧ ∀ x ∈ gap, Unicode.isSpace x = true) ∧
      Unicode.sameFoldText word "style".toList = true ∧
      (∀ x ∈ gap', Unicode.isSpace x = true) ∧ (∀ x ∈ gap'', Unicode.isSpace x = true) ∧
      part = gap ++ (word ++ (gap' ++ '=' :: gap'')) := by
  rw [styleStart, language_row_cons, language_row_append]
  simp only [Language.mem_mul, mem_language_plus, mem_language_folded, mem_language_row_cons,
    mem_language_row_nil, mem_language_char, mem_language_star_space]
  constructor
  · rintro ⟨gap, hgap, _, ⟨word, hword, _, ⟨gap', hgap', _, ⟨_, rfl, _, ⟨gap'', hgap'', _, rfl,
      rfl⟩, rfl⟩, rfl⟩, rfl⟩, rfl⟩
    exact ⟨gap, word, gap', gap'', hgap, hword, hgap', hgap'', by simp⟩
  · rintro ⟨gap, word, gap', gap'', hgap, hword, hgap', hgap'', rfl⟩
    exact ⟨gap, hgap, _, ⟨word, hword, _, ⟨gap', hgap', _, ⟨_, rfl, _, ⟨gap'', hgap'', _, rfl,
      rfl⟩, rfl⟩, rfl⟩, rfl⟩, by simp⟩

end Languages

/-! ### Attributes are read as they are written -/

section Readings

variable {gap gap' word back behind later part : List Char} {y : Char} {a : Page.Attribute}

/-- What can follow an attribute: a blank and another name, or the bracket that closes the tag. -/
inductive Behind : List Char → Prop
  | blank {z : Char} (rest : List Char) (h : passedNameChar.contains z = true) :
      Behind (' ' :: z :: rest)
  | bracket (rest : List Char) : Behind ('>' :: rest)

theorem Name.passed_of_mem (name : Name) : ∀ x ∈ name.chars, passedNameChar.contains x = true := by
  intro x hx
  obtain ⟨hspace, hdelimiter⟩ := name.of_mem hx
  refine contains_passedNameChar.mpr ⟨hspace, ?_, ?_, ?_, ?_, ?_⟩
  all_goals
    rintro rfl
    exact hdelimiter (by decide)

/-- More attributes can follow an attribute too. -/
theorem Behind.attributes (h : Behind behind) (attributes : List Page.Attribute) :
    Behind (attributes.flatMap Page.Attribute.render ++ behind) := by
  cases attributes with
  | nil => exact h
  | cons a attributes =>
    obtain ⟨z, later, hchars⟩ := a.name.exists_cons
    have hz := a.name.passed_of_mem z (by simp [hchars])
    rw [List.flatMap_cons, Page.Attribute.render, hchars]
    exact .blank _ hz

/-- Behind an attribute there is no character of its name or value, and nothing that could be
assigned to it. -/
theorem Behind.head (h : Behind behind) : ∀ x ∈ behind.head?, x = ' ' ∨ x = '>' := by
  cases h with
  | blank rest hz =>
    rintro x ⟨rfl⟩
    exact .inl rfl
  | bracket rest =>
    rintro x ⟨rfl⟩
    exact .inr rfl

theorem isSpace_of_mem_blank : ∀ x ∈ [' '], Unicode.isSpace x = true :=
  List.forall_mem_singleton.mpr (by decide)

/-- White space in front of something else is told from it. -/
theorem gap_unique {x z : Char} (hgap : ∀ x ∈ gap, Unicode.isSpace x = true)
    (hz : Unicode.isSpace z = false) (h : gap ++ x :: back = z :: later) :
    gap = [] ∧ x = z ∧ back = later := by
  cases gap with
  | nil => exact ⟨rfl, List.cons.inj h⟩
  | cons w gap =>
    obtain ⟨rfl, -⟩ := List.cons.inj h
    rw [hgap w List.mem_cons_self] at hz
    cases hz

/-- Nothing is assigned by what follows an attribute. -/
theorem Behind.not_assigned (h : Behind behind) (hgap : ∀ x ∈ gap, Unicode.isSpace x = true) :
    behind ≠ gap ++ '=' :: back := by
  intro heq
  cases h with
  | bracket rest => exact absurd (gap_unique hgap (by decide) heq.symm).2.1 (by decide)
  | @blank z rest hz =>
    obtain ⟨hspace, -, -, -, -, hequals⟩ := contains_passedNameChar.mp hz
    cases gap with
    | nil => cases (List.cons.inj heq).1
    | cons w gap =>
      refine hequals (gap_unique (fun x hx => ?_) hspace (List.cons.inj heq).2.symm).2.1.symm
      exact hgap x (List.mem_cons_of_mem w hx)

/-- The name of an attribute is read as a whole. -/
theorem name_unique {name : Name} (hgap : gap ≠ [] ∧ ∀ x ∈ gap, Unicode.isSpace x = true)
    (hword : word ≠ [] ∧ ∀ x ∈ word, passedNameChar.contains x = true)
    (hback : ∀ x ∈ back.head?, passedNameChar.contains x = false)
    (hbehind : ∀ x ∈ behind.head?, passedNameChar.contains x = false)
    (h : gap ++ (word ++ back) = ' ' :: (name.chars ++ behind)) :
    gap = [' '] ∧ word = name.chars ∧ back = behind := by
  have hnospace : ∀ {text rest : List Char}, text ≠ [] →
      (∀ x ∈ text, passedNameChar.contains x = true) →
      ∀ x ∈ (text ++ rest).head?, Unicode.isSpace x = false := by
    intro text rest hne htext x hx
    obtain ⟨z, text, rfl⟩ := List.exists_cons_of_ne_nil hne
    obtain rfl : z = x := Option.some.inj hx
    exact (contains_passedNameChar.mp (htext z List.mem_cons_self)).1
  have hname : name.chars ≠ [] := by
    obtain ⟨z, rest, hchars⟩ := name.exists_cons
    rw [hchars]
    exact List.cons_ne_nil z rest
  obtain rfl : gap = [' '] := stretch_unique _ hgap.2 isSpace_of_mem_blank
    (hnospace hword.1 hword.2) (hnospace hname name.passed_of_mem) h
  have hrest : word ++ back = name.chars ++ behind := (List.cons.inj h).2
  obtain rfl : word = name.chars :=
    stretch_unique _ hword.2 name.passed_of_mem hback hbehind hrest
  exact ⟨rfl, rfl, List.append_cancel_left hrest⟩

/-- The name of an attribute ends where its value, or what follows it, begins. -/
theorem head_assigned (hbehind : Behind behind) :
    ∀ x ∈ (a.assigned.render ++ behind).head?, passedNameChar.contains x = false := by
  have hhead : ∀ x, x = ' ' ∨ x = '>' ∨ x = '=' → passedNameChar.contains x = false := by
    rintro x (rfl | rfl | rfl) <;> decide
  intro x hx
  cases hassigned : a.assigned with
  | nothing =>
    rw [hassigned] at hx
    exact hhead x ((hbehind.head x hx).imp id .inl)
  | quoted v =>
    rw [hassigned] at hx
    exact hhead x (.inr (.inr (Option.some.inj hx).symm))
  | bare text =>
    rw [hassigned] at hx
    exact hhead x (.inr (.inr (Option.some.inj hx).symm))

/-- What is assigned to an attribute is read at once behind its name. -/
theorem assigned_unique (ha : a.assigned.Closed) (hbehind : Behind behind)
    (hgap : ∀ x ∈ gap, Unicode.isSpace x = true) (hgap' : ∀ x ∈ gap', Unicode.isSpace x = true)
    (h : gap ++ '=' :: (gap' ++ y :: later) = a.assigned.render ++ behind) :
    gap = [] ∧ gap' = [] ∧
      ((∃ v, a.assigned = .quoted v ∧ y :: later = v.render ++ behind) ∨
        ∃ text, a.assigned = .bare text ∧ y :: later = text ++ behind) := by
  cases hassigned : a.assigned with
  | nothing =>
    rw [hassigned] at h
    exact absurd h.symm (hbehind.not_assigned hgap)
  | quoted v =>
    rw [hassigned] at h
    obtain ⟨rfl, -, hvalue⟩ := gap_unique hgap (by decide) h
    obtain ⟨rfl, -, -⟩ := gap_unique hgap' v.quote.not_isSpace hvalue
    exact ⟨rfl, rfl, .inl ⟨v, rfl, hvalue⟩⟩
  | bare text =>
    rw [hassigned] at h ha
    obtain ⟨rfl, -, hvalue⟩ := gap_unique hgap (by decide) h
    obtain ⟨z, text, rfl⟩ := List.exists_cons_of_ne_nil ha.1
    obtain ⟨rfl, -, -⟩ := gap_unique hgap' (ha.of_mem_bare List.mem_cons_self).1 hvalue
    exact ⟨rfl, rfl, .inr ⟨z :: text, rfl, hvalue⟩⟩

theorem exists_cons_of_passedValue (h : part ∈ passedValue.language) :
    ∃ x rest, part = x :: rest := by
  rcases mem_language_passedValue.mp h with ⟨q, hquoted⟩ | ⟨hne, -⟩
  · obtain ⟨text, -, rfl⟩ := mem_language_quotedPattern.mp hquoted
    exact ⟨_, _, rfl⟩
  · exact List.exists_cons_of_ne_nil hne

theorem not_passedValueChar_quote (q : Quote) : passedValueChar.contains q.char = false := by
  cases q <;> decide

/-- A value in quotation marks is read as a whole. -/
theorem quoted_unique {v : Value} (hv : v.quote.char ∉ v.text) (hpart : part ∈ passedValue.language)
    (h : part ++ back = v.render ++ behind) : part = v.render := by
  rcases mem_language_passedValue.mp hpart with ⟨q, hquoted⟩ | ⟨hne, hchars⟩
  · obtain ⟨text, htext, rfl⟩ := mem_language_quotedPattern.mp hquoted
    obtain ⟨hquote, hlater⟩ := List.cons.inj h
    obtain rfl := Quote.char_injective hquote
    simp only [List.append_eq, List.append_assoc, List.singleton_append] at hlater
    rw [Value.render, Quote.text_unique htext hv hlater]
  · obtain ⟨x, part, rfl⟩ := List.exists_cons_of_ne_nil hne
    obtain ⟨rfl, -⟩ := List.cons.inj h
    have hquote := hchars _ List.mem_cons_self
    rw [not_passedValueChar_quote] at hquote
    cases hquote

theorem passed_of_bare {text : List Char} (h : (Page.Assigned.bare text).Closed) :
    ∀ x ∈ text, passedValueChar.contains x = true := by
  intro x hx
  obtain ⟨hspace, hdelimiters⟩ := h.of_mem_bare hx
  simp only [List.mem_cons, List.not_mem_nil, or_false, not_or] at hdelimiters
  exact contains_passedValueChar.mpr ⟨hspace, hdelimiters.1, hdelimiters.2.1, hdelimiters.2.2.2⟩

/-- A value without quotation marks is read up to white space. -/
theorem bare_unique {text : List Char} (htext : (Page.Assigned.bare text).Closed)
    (hbehind : Behind behind) (hpart : part ∈ passedValue.language)
    (hback : ∀ x ∈ back.head?, Unicode.isSpace x = true)
    (h : part ++ back = text ++ behind) : part = text := by
  have hchars := passed_of_bare htext
  rcases mem_language_passedValue.mp hpart with ⟨q, hquoted⟩ | ⟨-, hpart⟩
  · obtain ⟨inner, -, rfl⟩ := mem_language_quotedPattern.mp hquoted
    obtain ⟨z, text, rfl⟩ := List.exists_cons_of_ne_nil htext.1
    obtain ⟨rfl, -⟩ := List.cons.inj h
    have hquote := hchars _ List.mem_cons_self
    rw [not_passedValueChar_quote] at hquote
    cases hquote
  · refine stretch_unique _ hpart hchars (fun x hx => ?_) (fun x hx => ?_) h
    · simp [passedValueChar, CharSet.contains, hback x hx]
    · rcases hbehind.head x hx with rfl | rfl <;> decide

/-- **An attribute is passed over as a whole**, if white space follows what is passed over. -/
theorem eq_render_of_passedAttribute (ha : a.assigned.Closed) (hbehind : Behind behind)
    (hpart : part ∈ passedAttribute.language) {x : Char} (hx : Unicode.isSpace x = true)
    (h : part ++ x :: back = a.render ++ behind) : part = a.render := by
  have hspace : ∀ {x}, Unicode.isSpace x = true → passedNameChar.contains x = false := by
    intro x hx
    simp [passedNameChar, CharSet.contains, hx]
  obtain ⟨gap, word, more, hgap, hword, hmore, rfl⟩ := mem_language_passedAttribute.mp hpart
  rw [Page.Attribute.render, List.cons_append, List.append_assoc, List.append_assoc,
    List.append_assoc] at h
  rcases hmore with rfl | hmore
  · obtain ⟨rfl, rfl, hrest⟩ := name_unique hgap hword (by simpa using hspace hx)
      (head_assigned hbehind) h
    cases hassigned : a.assigned with
    | nothing => simp [Page.Attribute.render, hassigned, Page.Assigned.render]
    | quoted v =>
      rw [hassigned] at hrest
      obtain ⟨rfl, -⟩ := List.cons.inj hrest
      exact absurd hx (by decide)
    | bare text =>
      rw [hassigned] at hrest
      obtain ⟨rfl, -⟩ := List.cons.inj hrest
      exact absurd hx (by decide)
  · obtain ⟨gap', gap'', value, hgap', hgap'', hvalue, rfl⟩ :=
      mem_language_passedAssignment.mp hmore
    have hhead : ∀ z ∈ (gap' ++ '=' :: (gap'' ++ value) ++ x :: back).head?,
        passedNameChar.contains z = false := by
      cases gap' with
      | nil =>
        rintro z ⟨rfl⟩
        decide
      | cons w gap' =>
        rintro z ⟨rfl⟩
        exact hspace (hgap' w List.mem_cons_self)
    obtain ⟨rfl, rfl, hrest⟩ := name_unique hgap hword hhead (head_assigned hbehind) h
    obtain ⟨y, later, rfl⟩ := exists_cons_of_passedValue hvalue
    simp only [List.append_assoc, List.cons_append] at hrest
    obtain ⟨rfl, rfl, ⟨v, hassigned, hwritten⟩ | ⟨text, hassigned, hwritten⟩⟩ :=
      assigned_unique ha hbehind hgap' hgap'' hrest
    · rw [hassigned] at ha
      have hsame := quoted_unique ha hvalue hwritten
      simp [Page.Attribute.render, hassigned, Page.Assigned.render, hsame]
    · rw [hassigned] at ha
      have hsame := bare_unique ha hbehind hvalue (by simpa using hx) hwritten
      simp [Page.Attribute.render, hassigned, Page.Assigned.render, hsame]

/-- Every attribute can be passed over. -/
theorem render_mem_passedAttribute (ha : a.assigned.Closed) :
    a.render ∈ passedAttribute.language := by
  have hname : a.name.chars ≠ [] := by
    obtain ⟨z, rest, hchars⟩ := a.name.exists_cons
    rw [hchars]
    exact List.cons_ne_nil z rest
  refine mem_language_passedAttribute.mpr ⟨[' '], a.name.chars, a.assigned.render,
    ⟨List.cons_ne_nil _ _, isSpace_of_mem_blank⟩, ⟨hname, a.name.passed_of_mem⟩, ?_, rfl⟩
  cases hassigned : a.assigned with
  | nothing => exact .inl rfl
  | quoted v =>
    rw [hassigned] at ha
    refine .inr (mem_language_passedAssignment.mpr ⟨[], [], v.render, by simp, by simp, ?_, rfl⟩)
    exact mem_language_passedValue.mpr
      (.inl ⟨v.quote, mem_language_quotedPattern.mpr ⟨v.text, ha, rfl⟩⟩)
  | bare text =>
    rw [hassigned] at ha
    refine .inr (mem_language_passedAssignment.mpr ⟨[], [], text, by simp, by simp, ?_, rfl⟩)
    exact mem_language_passedValue.mpr (.inr ⟨ha.1, passed_of_bare ha⟩)

theorem isUncased_of_not_passed (h : passedNameChar.contains y = false) :
    Unicode.isUncased y = true := by
  rw [← Bool.not_eq_true, contains_passedNameChar] at h
  by_cases hspace : Unicode.isSpace y = true
  · exact Unicode.isUncased_of_isSpace hspace
  · by_cases hmem : y ∈ ['"', '\'', '>', '/', '=']
    · have hall : ['"', '\'', '>', '/', '='].all Unicode.isUncased = true := by decide
      exact List.all_eq_true.mp hall y hmem
    · simp only [List.mem_cons, List.not_mem_nil, or_false, not_or] at hmem
      exact absurd ⟨Bool.eq_false_iff.mpr hspace, hmem⟩ h

/-- What is equal to `style` up to case has characters of names only. -/
theorem passed_of_style (h : Unicode.sameFoldText word "style".toList = true) :
    ∀ x ∈ word, passedNameChar.contains x = true := by
  intro x hx
  obtain ⟨z, hz, hsame⟩ := exists_sameFold h hx
  have hpassed : passedNameChar.contains z = true := by
    have hall : "style".toList.all passedNameChar.contains = true := by decide
    exact List.all_eq_true.mp hall z hz
  by_contra hnot
  have huncased := isUncased_of_not_passed (Bool.eq_false_iff.mpr hnot)
  rw [Unicode.eq_of_sameFold hsame (.inl huncased)] at hnot
  exact hnot hpassed

/-- A name is `style` up to the case of ASCII letters if it is so up to case. -/
theorem isStyle_iff :
    a.isStyle = true ↔ Unicode.sameFoldText a.name.chars "style".toList = true := by
  have hidentifier : "style".toList.all isIdentifierChar = true := by decide
  rw [sameFoldText_iff a.name.isIdentifierChar_of_mem (List.all_eq_true.mp hidentifier),
    Page.Attribute.isStyle, beq_iff_eq]
  rfl

/-- An attribute has a style if it is named so and its value is in quotation marks. -/
theorem style?_eq_some_iff {v : Value} :
    a.style? = some v ↔ a.assigned = .quoted v ∧ a.isStyle = true := by
  rw [Page.Attribute.style?]
  cases a.assigned with
  | nothing => simp
  | quoted w => simp [and_comm]
  | bare text => simp

/-- **A style attribute is read as it is written**, if a quotation mark follows. -/
theorem of_styleStart (ha : a.assigned.Closed) (hbehind : Behind behind)
    (hpart : part ∈ (row styleStart).language) {q : Quote}
    (h : part ++ q.char :: back = a.render ++ behind) :
    ∃ v, a.style? = some v ∧ part = ' ' :: (a.name.chars ++ ['=']) := by
  obtain ⟨gap, word, gap', gap'', hgap, hword, hgap', hgap'', rfl⟩ :=
    mem_language_styleStart.mp hpart
  have hne : word ≠ [] := by
    rintro rfl
    cases hword
  have hhead : ∀ z ∈ (gap' ++ '=' :: (gap'' ++ q.char :: back)).head?,
      passedNameChar.contains z = false := by
    cases gap' with
    | nil =>
      rintro z ⟨rfl⟩
      decide
    | cons w gap' =>
      rintro z ⟨rfl⟩
      simp [passedNameChar, CharSet.contains, hgap' w List.mem_cons_self]
  simp only [Page.Attribute.render, List.cons_append, List.append_assoc] at h
  obtain ⟨rfl, rfl, hrest⟩ := name_unique hgap ⟨hne, passed_of_style hword⟩ hhead
    (head_assigned hbehind) h
  obtain ⟨rfl, rfl, ⟨v, hassigned, -⟩ | ⟨text, hassigned, hwritten⟩⟩ :=
    assigned_unique ha hbehind hgap' hgap'' hrest
  · exact ⟨v, style?_eq_some_iff.mpr ⟨hassigned, isStyle_iff.mpr hword⟩, rfl⟩
  · rw [hassigned] at ha
    obtain ⟨z, text, rfl⟩ := List.exists_cons_of_ne_nil ha.1
    obtain ⟨rfl, -⟩ := List.cons.inj hwritten
    have hquote := passed_of_bare ha _ List.mem_cons_self
    rw [not_passedValueChar_quote] at hquote
    cases hquote

/-- An attribute with a style begins like one. -/
theorem mem_styleStart {v : Value} (h : a.style? = some v) :
    ' ' :: (a.name.chars ++ ['=']) ∈ (row styleStart).language :=
  mem_language_styleStart.mpr ⟨[' '], a.name.chars, [], [],
    ⟨List.cons_ne_nil _ _, isSpace_of_mem_blank⟩, isStyle_iff.mp (style?_eq_some_iff.mp h).2,
    by simp, by simp, rfl⟩

end Readings

end Html

end Relabel
