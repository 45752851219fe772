import Relabel.Proofs.AttributeValues

/-!
# Start tags

A start tag ends at the first closing bracket outside quotation marks, and there is one way only to
read up to it (`Html.tagBody_unique`). A pattern of start tags (`Html.StartTags`) captures all
attributes of a tag if a pattern of its own matches them. At a start tag the attributes are then
captured as they stand, but for the slash at the end, which can fall on either side
(`Html.StartTags.exists_of_matches`).

One such pattern asks for a key in the value of an attribute. The key may be part of a token there,
so that more tags match than are changed.
-/

open scoped Computability

namespace Relabel.Html

open Pattern

/-! ### The pattern of start tags -/

def letters : CharSet :=
  .union (.range 'a' 'z') (.range 'A' 'Z')

def elementChar : CharSet :=
  .compl (['/', '>'].foldl (fun s c => s.union (.single c)) .space)

def tagChar : CharSet :=
  .compl (['"', '\''].foldl (fun s c => s.union (.single c)) (.single '>'))

def tagItem : Pattern :=
  choice (quotedPattern .single) [quotedPattern .double, row [.set tagChar]]

def quotedKeyPattern (keys : Pattern) (q : Quote) : Pattern :=
  row [char q.char, Pattern.star (.set (notQuote q)), row [keys], Pattern.star (.set (notQuote q)),
    char q.char]

/-- The pattern of the beginning of a value without quotation marks, up to a key. -/
def bareUpToKeyPattern (keys : Pattern) : Pattern :=
  row [char '=', Pattern.star (.set .space), Pattern.star (.set bareChar), row [keys]]

def keyedPattern (keys : Pattern) : Pattern :=
  choice (bareUpToKeyPattern keys) [quotedKeyPattern keys .single, quotedKeyPattern keys .double]

def regionPattern (keys : Pattern) : Pattern :=
  row [.set .space, .repeated 0 none false tagItem, keyedPattern keys, Pattern.star tagItem]

/-- A pattern of start tags: what the name of an element can begin with, and what is captured behind
the name. -/
structure StartTags where
  first : CharSet
  region : Pattern
  first_of_letter : ∀ y, isAsciiLetter y = true → first.contains y = true
  of_first : ∀ y, first.contains y = true → elementChar.contains y = true ∧ y ≠ '!'
  lexical : region.lexical = true
  proper : region.proper = true

def StartTags.pattern (t : StartTags) : Pattern :=
  row [char '<', .set t.first, Pattern.star (.set elementChar),
    .group 1 (some "main".toList) t.region, .repeated 0 (some 1) true (char '/'), char '>']

section Languages

variable {mapping : Mapping} {q : Quote} {part text : List Char} {y : Char}

theorem contains_tagChar : tagChar.contains y = true ↔ y ≠ '>' ∧ y ≠ '"' ∧ y ≠ '\'' := by
  simp [tagChar, CharSet.contains, CharSet.contains_single, and_assoc]

theorem contains_elementChar :
    elementChar.contains y = true ↔ Unicode.isSpace y = false ∧ y ≠ '/' ∧ y ≠ '>' := by
  simp [elementChar, CharSet.contains, CharSet.contains_single, and_assoc]

theorem contains_elementChar_of_identifier (h : isIdentifierChar y = true) :
    elementChar.contains y = true := by
  obtain ⟨hspace, hdelimiter⟩ := of_isIdentifierChar h
  refine contains_elementChar.mpr ⟨hspace, ?_, ?_⟩
  all_goals
    rintro rfl
    exact hdelimiter (by decide)

theorem contains_letters : letters.contains y = isAsciiLetter y :=
  rfl

/-- A start tag consists of plain characters and of quotations. -/
theorem mem_language_tagItem : part ∈ tagItem.language ↔
    (∃ y, (y ≠ '>' ∧ y ≠ '"' ∧ y ≠ '\'') ∧ part = [y]) ∨
      ∃ q, part ∈ (quotedPattern q).language := by
  have hchar : part ∈ (row [Pattern.set tagChar]).language ↔
      ∃ y, (y ≠ '>' ∧ y ≠ '"' ∧ y ≠ '\'') ∧ part = [y] := by
    rw [language_row_singleton, mem_language_set]
    simp only [contains_tagChar]
  rw [tagItem, mem_language_choice, ← hchar]
  constructor
  · rintro ⟨branch, hbranch, hpart⟩
    simp only [List.mem_cons, List.not_mem_nil, or_false] at hbranch
    rcases hbranch with rfl | rfl | rfl
    · exact .inr ⟨.single, hpart⟩
    · exact .inr ⟨.double, hpart⟩
    · exact .inl hpart
  · rintro (hpart | ⟨q, hpart⟩)
    · exact ⟨_, by simp, hpart⟩
    · cases q with
      | double => exact ⟨_, by simp, hpart⟩
      | single => exact ⟨_, by simp, hpart⟩

/-- What stands in a start tag in front of the bracket that closes it. -/
def tagBody : Language Char :=
  tagItem.language∗

theorem append_mem_tagBody (hpart : part ∈ tagBody) (htext : text ∈ tagBody) :
    part ++ text ∈ tagBody := by
  obtain ⟨parts, rfl, hparts⟩ := Language.mem_kstar.mp hpart
  obtain ⟨others, rfl, hothers⟩ := Language.mem_kstar.mp htext
  refine Language.mem_kstar.mpr ⟨parts ++ others, List.flatten_append.symm, ?_⟩
  exact List.forall_mem_append.mpr ⟨hparts, hothers⟩

theorem mem_tagBody_of_item (h : part ∈ tagItem.language) : part ∈ tagBody := by
  refine Language.mem_kstar.mpr ⟨[part], by simp, ?_⟩
  simpa using h

/-- What has neither brackets nor quotation marks can stand in a start tag. -/
theorem mem_tagBody_of_chars (h : ∀ y ∈ part, y ≠ '>' ∧ y ≠ '"' ∧ y ≠ '\'') : part ∈ tagBody := by
  refine Language.mem_kstar.mpr ⟨part.map fun y => [y], (List.flatMap_singleton' part).symm, ?_⟩
  intro one hone
  obtain ⟨y, hy, rfl⟩ := List.mem_map.mp hone
  exact mem_language_tagItem.mpr (.inl ⟨y, h y hy, rfl⟩)

theorem exists_cons_of_mem_tagItem (h : part ∈ tagItem.language) :
    ∃ y later, part = y :: later ∧ y ≠ '>' := by
  rcases mem_language_tagItem.mp h with ⟨y, hy, rfl⟩ | ⟨q, hquoted⟩
  · exact ⟨y, [], rfl, hy.1⟩
  · obtain ⟨body, -, rfl⟩ := mem_language_quotedPattern.mp hquoted
    refine ⟨_, _, rfl, ?_⟩
    cases q <;> decide

/-- An item is told from what follows it. -/
theorem tagItem_unique {item item' rest rest' : List Char} (hitem : item ∈ tagItem.language)
    (hitem' : item' ∈ tagItem.language) (h : item ++ rest = item' ++ rest') : item = item' := by
  have hmark : ∀ {y : Char} {q : Quote}, y ≠ '>' ∧ y ≠ '"' ∧ y ≠ '\'' → y ≠ q.char := by
    rintro y (_ | _) ⟨-, hdouble, hsingle⟩
    · exact hdouble
    · exact hsingle
  rcases mem_language_tagItem.mp hitem with ⟨y, hy, rfl⟩ | ⟨q, hquoted⟩
  · rcases mem_language_tagItem.mp hitem' with ⟨y', -, rfl⟩ | ⟨q', hquoted'⟩
    · rw [(List.cons.inj h).1]
    · obtain ⟨body', -, rfl⟩ := mem_language_quotedPattern.mp hquoted'
      exact absurd (List.cons.inj h).1 (hmark hy)
  · obtain ⟨body, hbody, rfl⟩ := mem_language_quotedPattern.mp hquoted
    rcases mem_language_tagItem.mp hitem' with ⟨y', hy', rfl⟩ | ⟨q', hquoted'⟩
    · exact absurd (List.cons.inj h).1.symm (hmark hy')
    · obtain ⟨body', hbody', rfl⟩ := mem_language_quotedPattern.mp hquoted'
      obtain ⟨hquote, hlater⟩ := List.cons.inj h
      obtain rfl := Quote.char_injective hquote
      simp only [List.append_eq, List.append_assoc, List.singleton_append] at hlater
      rw [Quote.text_unique hbody hbody' hlater]

/-- **A start tag ends at the first closing bracket outside quotation marks.** -/
theorem tagBody_unique {rest rest' : List Char} (hpart : part ∈ tagBody) (htext : text ∈ tagBody)
    (h : part ++ '>' :: rest = text ++ '>' :: rest') : part = text := by
  obtain ⟨parts, rfl, hparts⟩ := Language.mem_kstar.mp hpart
  obtain ⟨others, rfl, hothers⟩ := Language.mem_kstar.mp htext
  clear hpart htext
  induction parts generalizing others with
  | nil =>
    cases others with
    | nil => rfl
    | cons item others =>
      obtain ⟨y, later, rfl, hy⟩ := exists_cons_of_mem_tagItem (hothers item List.mem_cons_self)
      exact absurd (List.cons.inj h).1.symm hy
  | cons item parts ih =>
    obtain ⟨hitem, hlater⟩ := List.forall_mem_cons.mp hparts
    cases others with
    | nil =>
      obtain ⟨y, later, rfl, hy⟩ := exists_cons_of_mem_tagItem hitem
      exact absurd (List.cons.inj h).1 hy
    | cons item' others =>
      obtain ⟨hitem', hlater'⟩ := List.forall_mem_cons.mp hothers
      rw [List.flatten_cons, List.flatten_cons, List.append_assoc, List.append_assoc] at h
      obtain rfl := tagItem_unique hitem hitem' h
      rw [List.flatten_cons, List.flatten_cons,
        ih hlater others hlater' (List.append_cancel_left h)]

/-! ### Attributes in a start tag -/

theorem of_notMem_delimiters (h : y ∉ delimiters) : y ≠ '>' ∧ y ≠ '"' ∧ y ≠ '\'' := by
  refine ⟨?_, ?_, ?_⟩
  all_goals
    rintro rfl
    exact h (by decide)

theorem render_mem_tagBody {v : Value} (hv : v.WellFormed) : v.render ∈ tagBody :=
  mem_tagBody_of_item (mem_language_tagItem.mpr
    (.inr ⟨v.quote, mem_language_quotedPattern.mpr ⟨v.text, hv.1, rfl⟩⟩))

theorem chars_mem_tagBody (name : Name) : name.chars ∈ tagBody := by
  exact mem_tagBody_of_chars fun y hy => of_notMem_delimiters (name.of_mem hy).2

theorem assigned_mem_tagBody {a : Attribute} (ha : a.WellFormed) :
    Value.renderAssigned a.value ∈ tagBody := by
  cases hvalue : a.value with
  | none => exact mem_tagBody_of_chars (by simp [Value.renderAssigned])
  | some v =>
    have hequals : ['='] ∈ tagBody := mem_tagBody_of_chars (by simp)
    exact append_mem_tagBody hequals (render_mem_tagBody (ha v hvalue))

/-- A well-formed attribute can stand in a start tag. -/
theorem attribute_mem_tagBody {a : Attribute} (ha : a.WellFormed) : a.render ∈ tagBody := by
  have hblank : [' '] ∈ tagBody := mem_tagBody_of_chars (by simp)
  exact append_mem_tagBody hblank
    (append_mem_tagBody (chars_mem_tagBody a.name) (assigned_mem_tagBody ha))

theorem attributes_mem_tagBody {attributes : List Attribute}
    (h : ∀ a ∈ attributes, a.WellFormed) : attributes.flatMap Attribute.render ∈ tagBody := by
  induction attributes with
  | nil => exact mem_tagBody_of_chars (by simp)
  | cons a attributes ih =>
    obtain ⟨ha, hlater⟩ := List.forall_mem_cons.mp h
    exact append_mem_tagBody (attribute_mem_tagBody ha) (ih hlater)

/-- Attributes begin with a blank. -/
theorem exists_behind_blank {a : Attribute} {attributes : List Attribute}
    (h : ∀ b ∈ a :: attributes, b.WellFormed) : ∃ behind ∈ tagBody,
      (a :: attributes).flatMap Attribute.render = ' ' :: behind := by
  obtain ⟨ha, hlater⟩ := List.forall_mem_cons.mp h
  refine ⟨a.name.chars ++ (Value.renderAssigned a.value ++ attributes.flatMap Attribute.render),
    append_mem_tagBody (chars_mem_tagBody a.name)
      (append_mem_tagBody (assigned_mem_tagBody ha) (attributes_mem_tagBody hlater)), ?_⟩
  simp [Attribute.render]

theorem slashIf_mem_tagBody (closing : Bool) : slashIf closing ∈ tagBody := by
  refine mem_tagBody_of_chars ?_
  cases closing <;> simp [slashIf]

/-- The last attribute does not end with a slash. -/
theorem getLast?_attributes_ne (attributes : List Attribute) :
    (attributes.flatMap Attribute.render).getLast? ≠ some '/' := by
  induction attributes with
  | nil => simp
  | cons a attributes ih =>
    have hvalue : (Value.renderAssigned a.value).getLast? ≠ some '/' := by
      cases a.value with
      | none => simp [Value.renderAssigned]
      | some v =>
        rw [Value.renderAssigned, Value.render, ← List.cons_append, ← List.cons_append,
          List.getLast?_append, List.getLast?_singleton, Option.some_or]
        cases v.quote <;> decide
    have hname : a.name.chars.getLast? ≠ some '/' := fun hlast =>
      a.name.notMem_of_delimiter (by decide) (List.mem_of_getLast? hlast)
    rw [List.flatMap_cons, Attribute.render, ← List.singleton_append, List.getLast?_append,
      List.getLast?_append, List.getLast?_append]
    intro hlast
    rcases Option.or_eq_some_iff.mp hlast with hlast | ⟨-, hlast⟩
    · exact ih hlast
    · rcases Option.or_eq_some_iff.mp hlast with hlast | ⟨-, hlast⟩
      · rcases Option.or_eq_some_iff.mp hlast with hlast | ⟨-, hlast⟩
        · exact hvalue hlast
        · exact hname hlast
      · cases hlast

/-! ### Attributes of which one has a key -/

/-- A quotation has a key if its content has one. -/
theorem mem_language_quotedKeyPattern {keys : Pattern} :
    part ∈ (quotedKeyPattern keys q).language ↔
      ∃ body ∈ (holding (notQuote q) keys).language, part = q.char :: (body ++ [q.char]) := by
  simp only [quotedKeyPattern, holding, mem_language_row_cons, mem_language_row_nil,
    mem_language_char]
  constructor
  · rintro ⟨_, rfl, _, ⟨front, hfront, _, ⟨key, hkey, _,
      ⟨back, hback, _, ⟨_, rfl, _, rfl, rfl⟩, rfl⟩, rfl⟩, rfl⟩, rfl⟩
    exact ⟨_, ⟨front, hfront, _, ⟨key, hkey, back, ⟨back, hback, [], rfl, by simp⟩, rfl⟩, rfl⟩,
      by simp⟩
  · rintro ⟨_, ⟨front, hfront, _, ⟨key, hkey, _, ⟨back, hback, _, rfl, rfl⟩, rfl⟩, rfl⟩, rfl⟩
    exact ⟨_, rfl, _, ⟨front, hfront, _, ⟨key, hkey, _,
      ⟨back, hback, _, ⟨_, rfl, _, rfl, rfl⟩, rfl⟩, rfl⟩, rfl⟩, by simp⟩

theorem contains_bareChar (h : bareChar.contains y = true) : y ≠ '>' ∧ y ≠ '"' ∧ y ≠ '\'' := by
  simp only [bareChar, CharSet.contains, CharSet.contains_single, List.foldl_cons, List.foldl_nil,
    Bool.not_eq_true', Bool.or_eq_false_iff, beq_eq_false_iff_ne] at h
  tauto

/-- A value that has a key can stand in a tag. -/
theorem mem_tagBody_of_keyed (hne : mapping ≠ []) (hkeys : mapping.Identifiers)
    (h : part ∈ (keyedPattern mapping.keyPattern).language) : part ∈ tagBody := by
  have hquoted : ∀ q, part ∈ (quotedKeyPattern mapping.keyPattern q).language → part ∈ tagBody := by
    intro q hpart
    obtain ⟨body, hbody, rfl⟩ := mem_language_quotedKeyPattern.mp hpart
    exact mem_tagBody_of_item (mem_language_tagItem.mpr (.inr ⟨q,
      mem_language_quotedPattern.mpr ⟨body, ((mem_language_holding hne hkeys).mp hbody).1, rfl⟩⟩))
  rcases h with h | h | h
  · exact hquoted _ h
  · exact hquoted _ h
  · change part ∈ (bareUpToKeyPattern mapping.keyPattern).language at h
    simp only [bareUpToKeyPattern, mem_language_row_cons, language_row_singleton, mem_language_char,
      mem_language_star_space, Mapping.mem_language_keyPattern hne] at h
    obtain ⟨_, rfl, _, ⟨gap, hgap, _, ⟨bare, hbare, key, hkey, rfl⟩, rfl⟩, rfl⟩ := h
    have hequals : ['='] ∈ tagBody := mem_tagBody_of_chars (by simp)
    refine append_mem_tagBody hequals (append_mem_tagBody ?_ (append_mem_tagBody ?_ ?_))
    · refine mem_tagBody_of_chars fun y hy => ?_
      have hspace := hgap y hy
      refine ⟨?_, ?_, ?_⟩
      all_goals
        rintro rfl
        exact absurd hspace (by decide)
    · exact mem_tagBody_of_chars fun y hy =>
        contains_bareChar (mem_language_repeated_set.mp hbare y hy)
    · exact mem_tagBody_of_chars fun y hy => of_notMem_delimiters
        (of_isIdentifierChar ((hkeys.of_mem hkey).2 y hy)).2

/-- Attributes of which one has a key are white space and what can stand in a start tag. -/
theorem exists_of_mem_regionPattern (hne : mapping ≠ []) (hkeys : mapping.Identifiers)
    (h : part ∈ (regionPattern mapping.keyPattern).language) :
    ∃ x body, part = x :: body ∧ Unicode.isSpace x = true ∧ body ∈ tagBody := by
  simp only [regionPattern, mem_language_row_cons, language_row_singleton, mem_language_set,
    language_repeated, language_star] at h
  obtain ⟨_, ⟨x, hx, rfl⟩, _, ⟨front, hfront, _, ⟨keyed, hkeyed, back, hback, rfl⟩, rfl⟩, rfl⟩ := h
  exact ⟨x, front ++ (keyed ++ back), rfl, hx, append_mem_tagBody hfront
    (append_mem_tagBody (mem_tagBody_of_keyed hne hkeys hkeyed) hback)⟩

/-- Attributes of which one has a key in its value are captured. -/
theorem mem_regionPattern (hne : mapping ≠ []) (hkeys : mapping.Identifiers) {v : Value}
    (hv : v.WellFormed) (hkey : ∃ key, String.ofList key ∈ mapping.map Prod.fst ∧ key <:+: v.text)
    {x : Char} (hx : Unicode.isSpace x = true) {front back : List Char} (hfront : front ∈ tagBody)
    (hback : back ∈ tagBody) :
    x :: (front ++ (v.render ++ back)) ∈ (regionPattern mapping.keyPattern).language := by
  have hkeyed : v.render ∈ (keyedPattern mapping.keyPattern).language := by
    have hquoted := mem_language_quotedKeyPattern.mpr
      ⟨v.text, (mem_language_holding hne hkeys).mpr ⟨hv.1, hkey⟩, rfl⟩
    rw [Value.render]
    cases hquote : v.quote with
    | double =>
      rw [hquote] at hquoted
      exact .inl hquoted
    | single =>
      rw [hquote] at hquoted
      exact .inr (.inl hquoted)
  rw [tagBody, ← language_repeated false] at hfront
  rw [tagBody, ← language_star] at hback
  exact ⟨[x], ⟨x, hx, rfl⟩, _, ⟨front, hfront, _, ⟨v.render, hkeyed, _,
    ⟨back, hback, [], rfl, List.append_nil back⟩, rfl⟩, rfl⟩, rfl⟩

/-- Attributes of which one has a key in its value. -/
theorem attributes_mem_regionPattern (hne : mapping ≠ []) (hkeys : mapping.Identifiers)
    {attributes : List Attribute} (hwell : ∀ a ∈ attributes, a.WellFormed)
    (hkey : ∃ a ∈ attributes, ∃ v ∈ a.value,
      ∃ key, String.ofList key ∈ mapping.map Prod.fst ∧ key <:+: v.text) :
    attributes.flatMap Attribute.render ∈ (regionPattern mapping.keyPattern).language := by
  obtain ⟨a, ha, v, hv, hkey⟩ := hkey
  obtain ⟨front, back, rfl⟩ := List.append_of_mem ha
  obtain ⟨hfront, hlater⟩ := List.forall_mem_append.mp hwell
  obtain ⟨hwella, hback⟩ := List.forall_mem_cons.mp hlater
  have hname : a.name.chars ++ ['='] ∈ tagBody :=
    append_mem_tagBody (chars_mem_tagBody a.name) (mem_tagBody_of_chars (by simp))
  have hmem := fun before (hbefore : before ∈ tagBody) => mem_regionPattern hne hkeys
    (hwella v hv) hkey (by decide : Unicode.isSpace ' ' = true) hbefore
    (attributes_mem_tagBody hback)
  have hrender : a.render = ' ' :: (a.name.chars ++ ['='] ++ v.render) := by
    rw [Attribute.render, Option.mem_def.mp hv]
    simp [Value.renderAssigned]
  rw [List.flatMap_append, List.flatMap_cons, hrender]
  cases front with
  | nil => simpa using hmem _ hname
  | cons b front =>
    -- the blank in front of the first attribute is the one that the pattern begins with
    obtain ⟨behind, hbehind, hfirst⟩ := exists_behind_blank hfront
    have hblank : [' '] ∈ tagBody := mem_tagBody_of_chars (by simp)
    rw [hfirst]
    simpa using hmem _ (append_mem_tagBody hbehind (append_mem_tagBody hblank hname))

theorem lexical_regionPattern {keys : Pattern} (hkeys : keys.lexical = true) :
    (regionPattern keys).lexical = true := by
  simp [regionPattern, tagItem, keyedPattern, quotedKeyPattern, bareUpToKeyPattern, quotedPattern,
    choice, row, char, Pattern.star, lexical, hkeys]

theorem proper_regionPattern {keys : Pattern} (hkeys : keys.proper = true) :
    (regionPattern keys).proper = true := by
  simp [regionPattern, tagItem, keyedPattern, quotedKeyPattern, bareUpToKeyPattern, quotedPattern,
    choice, row, char, Pattern.star, proper, nullable, hkeys]

end Languages

/-- What stands between the name of an element and the end of its tag: nothing, or a blank and more,
which does not end with a slash. -/
structure IsInside (inner : List Char) : Prop where
  blank : inner = [] ∨ ∃ behind ∈ tagBody, inner = ' ' :: behind
  last : inner.getLast? ≠ some '/'

/-- Well-formed attributes can stand between the name of an element and the end of its tag. -/
theorem isInside_attributes {attributes : List Attribute} (h : ∀ a ∈ attributes, a.WellFormed) :
    IsInside (attributes.flatMap Attribute.render) := by
  refine ⟨?_, getLast?_attributes_ne attributes⟩
  cases attributes with
  | nil => exact .inl rfl
  | cons a attributes => exact .inr (exists_behind_blank h)

/-! ### What is matched -/

namespace StartTags

variable {t : StartTags} {c d e f : Cursor} {new : Captures}

/-- What a pattern takes for the name of an element. -/
def isElement (t : StartTags) (name : List Char) : Bool :=
  name.head?.any t.first.contains && name.all elementChar.contains

theorem mem_language_tagStart {part : List Char} :
    part ∈ (row [char '<', .set t.first, Pattern.star (.set elementChar)]).language ↔
      ∃ name, t.isElement name = true ∧ part = '<' :: name := by
  simp only [mem_language_row_cons, language_row_singleton, mem_language_char, mem_language_set,
    Pattern.star, mem_language_repeated_set]
  constructor
  · rintro ⟨_, rfl, _, ⟨_, ⟨y, hy, rfl⟩, later, hlater, rfl⟩, rfl⟩
    refine ⟨y :: later, ?_, rfl⟩
    simpa [isElement, hy, (t.of_first y hy).1] using hlater
  · rintro ⟨name, hname, rfl⟩
    rw [isElement, Bool.and_eq_true, List.all_eq_true] at hname
    cases name with
    | nil => cases hname.1
    | cons y later =>
      exact ⟨_, rfl, _,
        ⟨_, ⟨y, hname.1, rfl⟩, later, (List.forall_mem_cons.mp hname.2).2, rfl⟩, rfl⟩

theorem mem_language_tagEnd {part : List Char} :
    part ∈ (row [.repeated 0 (some 1) true (char '/'), char '>']).language ↔
      ∃ closing, part = slashIf closing ++ ['>'] := by
  simp only [mem_language_row_cons, language_row_singleton, mem_language_optional,
    mem_language_char]
  constructor
  · rintro ⟨slash, rfl | rfl, _, rfl, rfl⟩
    · exact ⟨false, rfl⟩
    · exact ⟨true, rfl⟩
  · rintro ⟨closing, rfl⟩
    cases closing with
    | false => exact ⟨[], .inl rfl, _, rfl, rfl⟩
    | true => exact ⟨['/'], .inr rfl, _, rfl, rfl⟩

/-- **A match is a start tag**, its attributes captured. -/
theorem matches_pattern_iff : t.pattern.Matches c d new ↔
    ∃ e f name closing, (t.isElement name = true ∧ c.Over ('<' :: name) e) ∧
      (∃ region ∈ t.region.language, e.Over region f) ∧
      f.Over (slashIf closing ++ ['>']) d ∧ new = [(1, ⟨e.offset, f.offset⟩)] := by
  have hmatches : (row ([char '<', .set t.first, Pattern.star (.set elementChar)] ++
      .group 1 (some "main".toList) t.region ::
        [.repeated 0 (some 1) true (char '/'), char '>'])).Matches c d new ↔ _ :=
    matches_row_group (by simp [char, Pattern.star, Pattern.lexical]) t.lexical
      (by simp [char, Pattern.lexical])
  simp only [mem_language_tagStart, mem_language_tagEnd] at hmatches
  refine hmatches.trans ?_
  constructor
  · rintro ⟨e, f, ⟨_, ⟨name, hname, rfl⟩, hstart⟩, hregion, ⟨_, ⟨closing, rfl⟩, hend⟩, rfl⟩
    exact ⟨e, f, name, closing, ⟨hname, hstart⟩, hregion, hend, rfl⟩
  · rintro ⟨e, f, name, closing, ⟨hname, hstart⟩, hregion, hend, rfl⟩
    exact ⟨e, f, ⟨_, ⟨name, hname, rfl⟩, hstart⟩, hregion, ⟨_, ⟨closing, rfl⟩, hend⟩, rfl⟩

/-! ### The match at a start tag -/

variable {name : Name} {inner : List Char} {closing : Bool} {rest : List Char}

theorem contains_elementChar_of_mem (name : Name) :
    ∀ y ∈ name.chars, elementChar.contains y = true := by
  intro y hy
  exact contains_elementChar_of_identifier (name.isIdentifierChar_of_mem y hy)

/-- A name is taken for the name of an element. -/
theorem isElement_chars (name : Name) : t.isElement name.chars = true := by
  obtain ⟨y, later, hchars⟩ := name.exists_cons
  have hletter := name.letter
  rw [hchars] at hletter
  rw [isElement, Bool.and_eq_true, List.all_eq_true]
  refine ⟨?_, contains_elementChar_of_mem name⟩
  rw [hchars]
  exact t.first_of_letter y hletter

/-- The name of an element ends where the attributes begin, or the tag ends. -/
theorem not_elementChar_behind_name (hinner : IsInside inner) :
    ∀ y ∈ (inner ++ (slashIf closing ++ '>' :: rest)).head?, elementChar.contains y = false := by
  rcases hinner.blank with rfl | ⟨behind, -, rfl⟩
  · cases closing with
    | false =>
      rintro y ⟨rfl⟩
      decide
    | true =>
      rintro y ⟨rfl⟩
      decide
  · rintro y ⟨rfl⟩
    decide

/-- `t.Reads text`: what can be captured in a text is a blank and what can stand in a tag. -/
def Reads (t : StartTags) (text : List Char) : Prop :=
  ∀ part ∈ t.region.language, part <:+: text →
    ∃ x body, part = x :: body ∧ Unicode.isSpace x = true ∧ body ∈ tagBody

/-- **What is matched at a start tag**: its attributes are captured, perhaps with the slash that
ends them, up to the bracket that closes the tag. -/
theorem exists_of_matches (hinner : IsInside inner) (hreads : t.Reads c.rest)
    (hrest : c.rest = '<' :: (name.chars ++ (inner ++ (slashIf closing ++ '>' :: rest))))
    (h : t.pattern.Matches c d new) :
    inner ≠ [] ∧ ∃ e f inside outside, slashIf closing = slashIf inside ++ slashIf outside ∧
      c.Over ('<' :: name.chars) e ∧ e.Over (inner ++ slashIf inside) f ∧
      f.Over (slashIf outside ++ ['>']) d ∧ new = [(1, ⟨e.offset, f.offset⟩)] := by
  obtain ⟨e, f, element, outside, ⟨helement, hstart⟩, ⟨region, hregion, hover⟩, hend, rfl⟩ :=
    matches_pattern_iff.mp h
  obtain ⟨x, body, rfl, hx, hbody⟩ := hreads region hregion
    ⟨'<' :: element, f.rest, by rw [hstart.1, hover.1, List.append_assoc]⟩
  have hsplit : name.chars ++ (inner ++ (slashIf closing ++ '>' :: rest)) =
      element ++ x :: (body ++ (slashIf outside ++ '>' :: d.rest)) := by
    have htext := hstart.1
    rw [hover.1, hend.1, hrest] at htext
    simpa using htext
  have hname : name.chars = element := by
    rw [isElement, Bool.and_eq_true, List.all_eq_true] at helement
    refine stretch_unique _ (contains_elementChar_of_mem name) helement.2
      (not_elementChar_behind_name hinner) ?_ hsplit
    rintro y ⟨rfl⟩
    rw [← Bool.not_eq_true, contains_elementChar, hx]
    simp
  subst hname
  have hlater := List.append_cancel_left hsplit
  rcases hinner.blank with rfl | ⟨behind, hbehind, rfl⟩
  · cases closing <;> obtain ⟨rfl, -⟩ := List.cons.inj hlater <;> exact absurd hx (by decide)
  · refine ⟨List.cons_ne_nil _ _, e, f, ?_⟩
    obtain ⟨rfl, hlater⟩ := List.cons.inj hlater
    have hrests : (behind ++ slashIf closing) ++ '>' :: rest =
        (body ++ slashIf outside) ++ '>' :: d.rest := by
      simpa using hlater
    have hsame : behind ++ slashIf closing = body ++ slashIf outside :=
      tagBody_unique (append_mem_tagBody hbehind (slashIf_mem_tagBody closing))
        (append_mem_tagBody hbody (slashIf_mem_tagBody outside)) hrests
    cases outside with
    | false =>
      obtain rfl : behind ++ slashIf closing = body := hsame.trans (List.append_nil body)
      exact ⟨closing, false, (List.append_nil _).symm, hstart, hover, hend, rfl⟩
    | true =>
      cases closing with
      | true =>
        obtain rfl := List.append_cancel_right hsame
        refine ⟨false, true, rfl, hstart, ?_, hend, rfl⟩
        rwa [show slashIf false = [] from rfl, List.append_nil]
      | false =>
        obtain rfl : behind = body ++ ['/'] := (List.append_nil behind).symm.trans hsame
        have hlast := hinner.last
        rw [← List.cons_append, List.getLast?_concat] at hlast
        exact absurd rfl hlast

/-- A tag with something to capture is matched. -/
theorem exists_matches (hregion : inner ∈ t.region.language)
    (hrest : c.rest = '<' :: (name.chars ++ (inner ++ (slashIf closing ++ '>' :: rest)))) :
    ∃ d new, t.pattern.Matches c d new := by
  obtain ⟨e, hstart, he⟩ := Cursor.exists_over (show c.rest = ('<' :: name.chars) ++ _ from hrest)
  obtain ⟨f, hover, hf⟩ := Cursor.exists_over he
  have hclosing : f.rest = (slashIf closing ++ ['>']) ++ rest := by simpa using hf
  obtain ⟨d, hend, -⟩ := Cursor.exists_over hclosing
  exact ⟨d, _, matches_pattern_iff.mpr ⟨e, f, name.chars, closing,
    ⟨isElement_chars name, hstart⟩, ⟨_, hregion, hover⟩, hend, rfl⟩⟩

end StartTags

end Relabel.Html
