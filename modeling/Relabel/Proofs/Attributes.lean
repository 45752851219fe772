import Relabel.Proofs.CaseFolding
import Relabel.Proofs.Tokens

/-!
# Attributes of a start tag

The attributes of a start tag have a name and perhaps a value in quotation marks. Which attributes
are looked at is told by their names, up to the case of ASCII letters: the pattern of some names
ignores the case of all letters, but a name has no others
(`Html.mem_language_namePattern_iff_isNamed`).

The pattern for values captures the value of an attribute with one of the names if it has a key, and
passes over all other values, so that nothing in a value is taken for an attribute.
-/

open scoped Computability

namespace Relabel.Html

open Pattern

/-! ### Names, values and attributes -/

/-- The characters of names: ASCII letters and digits, and hyphens. -/
def isNameChar (c : Char) : Bool :=
  isAsciiLetter c || isAsciiDigit c || c == '-'

/-- The name of an element or an attribute, which begins with a letter. -/
structure Name where
  chars : List Char
  letter : chars.head?.any isAsciiLetter = true
  all : ∀ c ∈ chars, isNameChar c = true

namespace Name

def toString (name : Name) : String :=
  String.ofList name.chars

def isSpelledBy (text : String) : Bool :=
  text.toList.head?.any isAsciiLetter && text.toList.all isNameChar

def literal (text : String) (h : isSpelledBy text = true) : Name where
  chars := text.toList
  letter := (Bool.and_eq_true_iff.mp h).1
  all := List.all_eq_true.mp (Bool.and_eq_true_iff.mp h).2

end Name

def paragraph : Name :=
  .literal "p" rfl

theorem chars_paragraph : paragraph.chars = ['p'] :=
  rfl

def valueStarts : List Char :=
  ['"', '\'', '=']

/-- The characters that have a meaning in a start tag or a template, white space apart. -/
def delimiters : List Char :=
  valueStarts ++ ['/', '<', '>', '%']

inductive Quote where
  | double
  | single
deriving DecidableEq, Repr

namespace Quote

def char : Quote → Char
  | .double => '"'
  | .single => '\''

/-- The number of the group for the content of a quotation. -/
def group : Quote → Nat
  | .double => 1
  | .single => 2

def groupName : Quote → List Char
  | .double => "main_1".toList
  | .single => "main_2".toList

theorem char_injective {q q' : Quote} (h : q.char = q'.char) : q = q' := by
  cases q <;> cases q' <;> first | rfl | cases h

theorem not_isSpace (q : Quote) : Unicode.isSpace q.char = false := by
  cases q <;> decide

theorem mem_delimiters (q : Quote) : q.char ∈ delimiters := by
  cases q <;> decide

/-- A quotation ends at the first quotation mark. -/
theorem text_unique {q : Quote} {text text' rest rest' : List Char} (htext : q.char ∉ text)
    (htext' : q.char ∉ text') (h : text ++ q.char :: rest = text' ++ q.char :: rest') :
    text = text' :=
  delimited_unique htext htext' h

end Quote

structure Value where
  quote : Quote
  text : List Char

namespace Value

def render (v : Value) : List Char :=
  v.quote.char :: (v.text ++ [v.quote.char])

/-- What is written for a value behind a name. -/
def renderAssigned : Option Value → List Char
  | some v => '=' :: v.render
  | none => []

/-- A value has neither its own quotation mark in it nor the character that opens a tag. -/
def WellFormed (v : Value) : Prop :=
  v.quote.char ∉ v.text ∧ '<' ∉ v.text

instance (v : Value) : Decidable v.WellFormed :=
  inferInstanceAs (Decidable (_ ∧ _))

end Value

/-- An attribute of a start tag, with or without a value. -/
structure Attribute where
  name : Name
  value : Option Value

namespace Attribute

def render (a : Attribute) : List Char :=
  ' ' :: (a.name.chars ++ Value.renderAssigned a.value)

def WellFormed (a : Attribute) : Prop :=
  ∀ v ∈ a.value, v.WellFormed

instance (a : Attribute) : Decidable a.WellFormed :=
  inferInstanceAs (Decidable (∀ v ∈ a.value, v.WellFormed))

def isNamed (names : List Name) (a : Attribute) : Bool :=
  Fragment.hasName (names.map Name.toString) a.name.toString

/-- Whether an attribute has one of some names and a key among the tokens of its value. -/
def mentions (names : List Name) (mapping : Mapping) (a : Attribute) : Bool :=
  a.isNamed names && a.value.any fun v => mapping.mentionedIn v.text

/-- The attribute with the keys among the tokens of its value replaced, if it has one of some
names. -/
def rename (names : List Name) (mapping : Mapping) (a : Attribute) : Attribute :=
  if a.isNamed names then
    { a with value := a.value.map fun v => { v with text := mapping.renameTokens v.text } }
  else a

variable {names : List Name} {mapping : Mapping} {a : Attribute}

/-- Where no key is mentioned, nothing is renamed. -/
theorem rename_of_not_mentions (h : a.mentions names mapping = false) :
    a.rename names mapping = a := by
  obtain ⟨name, value⟩ := a
  cases value with
  | none =>
    rw [rename]
    split <;> rfl
  | some v =>
    rw [rename]
    split
    · rename_i hnamed
      rw [mentions, hnamed, Bool.true_and] at h
      have hkept := Mapping.renameTokens_of_not_mentionedIn h
      simp only [Option.map_some, hkept]
    · rfl

theorem map_rename_of_not_mentions {attributes : List Attribute}
    (h : attributes.any (mentions names mapping) = false) :
    attributes.map (rename names mapping) = attributes := by
  refine (List.map_congr_left fun a ha => ?_).trans (List.map_id attributes)
  exact rename_of_not_mentions (by simpa using List.any_eq_false.mp h a ha)

end Attribute

def slashIf (closing : Bool) : List Char :=
  if closing then ['/'] else []

/-! ### Characters of names -/

theorem isIdentifierChar_of_isNameChar {y : Char} (h : isNameChar y = true) :
    isIdentifierChar y = true := by
  rw [isNameChar, Bool.or_eq_true, Bool.or_eq_true] at h
  simp only [isIdentifierChar, Bool.or_eq_true]
  tauto

/-- No character of an identifier has a meaning in a start tag. -/
theorem of_isIdentifierChar {y : Char} (h : isIdentifierChar y = true) :
    Unicode.isSpace y = false ∧ y ∉ delimiters :=
  forall_isIdentifierChar (P := fun y => Unicode.isSpace y = false ∧ y ∉ delimiters) (by decide) h

theorem Name.isIdentifierChar_of_mem (name : Name) :
    ∀ y ∈ name.chars, isIdentifierChar y = true := by
  intro y hy
  exact isIdentifierChar_of_isNameChar (name.all y hy)

/-- A name has neither white space nor delimiters in it. -/
theorem Name.of_mem (name : Name) {y : Char} (h : y ∈ name.chars) :
    Unicode.isSpace y = false ∧ y ∉ delimiters :=
  of_isIdentifierChar (name.isIdentifierChar_of_mem y h)

theorem Name.notMem_of_delimiter (name : Name) {y : Char} (h : y ∈ delimiters) :
    y ∉ name.chars :=
  fun hmem => (name.of_mem hmem).2 h

theorem Name.exists_cons (name : Name) : ∃ y later, name.chars = y :: later := by
  obtain ⟨chars, hletter, -⟩ := name
  cases chars with
  | nil => cases hletter
  | cons y later => exact ⟨y, later, rfl⟩

/-- Up to case, a character of an identifier is equal to those that it is equal to in lower case. -/
theorem sameFold_iff {x y : Char} (hx : isIdentifierChar x = true)
    (hy : isIdentifierChar y = true) :
    Unicode.sameFold x y = true ↔ Fragment.asciiLower x = Fragment.asciiLower y := by
  have hvariants := forall_isIdentifierChar (P := (fun x =>
    ((Unicode.caseVariants x).all fun z =>
      !isIdentifierChar z || Fragment.asciiLower x == Fragment.asciiLower z) = true ∧
    ∀ m : Fin 128, isIdentifierChar (Char.ofNat m) = true →
      Fragment.asciiLower x = Fragment.asciiLower (Char.ofNat m) →
        Unicode.sameFold x (Char.ofNat m) = true)) (c := x) (by decide +kernel) hx
  constructor
  · intro h
    rw [Unicode.sameFold, Bool.or_eq_true, beq_iff_eq, List.contains_iff_mem] at h
    rcases h with rfl | hvariant
    · rfl
    · have hlower := List.all_eq_true.mp hvariants.1 y hvariant
      simpa [hy] using hlower
  · exact forall_isIdentifierChar (P := fun y => Fragment.asciiLower x = Fragment.asciiLower y →
      Unicode.sameFold x y = true) (c := y) hvariants.2 hy

/-- Of identifiers, two are equal up to case if they are so in ASCII. -/
theorem sameFoldText_iff {text other : List Char} (htext : ∀ c ∈ text, isIdentifierChar c = true)
    (hother : ∀ c ∈ other, isIdentifierChar c = true) : Unicode.sameFoldText text other = true ↔
      text.map Fragment.asciiLower = other.map Fragment.asciiLower := by
  induction text generalizing other with
  | nil => cases other <;> simp [Unicode.sameFoldText]
  | cons x text ih =>
    cases other with
    | nil => simp [Unicode.sameFoldText]
    | cons y other =>
      obtain ⟨hx, htext⟩ := List.forall_mem_cons.mp htext
      obtain ⟨hy, hother⟩ := List.forall_mem_cons.mp hother
      rw [Unicode.sameFoldText, Bool.and_eq_true, sameFold_iff hx hy, ih htext hother,
        List.map_cons, List.map_cons, List.cons.injEq]

/-- Every character of a text is equal, up to case, to one of a text that is equal up to case. -/
theorem exists_sameFold {text other : List Char} (h : Unicode.sameFoldText text other = true)
    {x : Char} (hx : x ∈ text) : ∃ y ∈ other, Unicode.sameFold x y = true := by
  induction text generalizing other with
  | nil => cases hx
  | cons z text ih =>
    cases other with
    | nil => cases h
    | cons y other =>
      rw [Unicode.sameFoldText, Bool.and_eq_true] at h
      rcases List.mem_cons.mp hx with rfl | hmem
      · exact ⟨y, List.mem_cons_self, h.1⟩
      · obtain ⟨w, hw, hfold⟩ := ih h.2 hmem
        exact ⟨w, List.mem_cons_of_mem _ hw, hfold⟩

/-- Delimiters have no case, so none of them is equal to another character up to case. -/
theorem isUncased_of_mem_delimiters {y : Char} (h : y = ' ' ∨ y ∈ delimiters) :
    Unicode.isUncased y = true := by
  have hall : (' ' :: delimiters).all Unicode.isUncased = true := by decide
  exact List.all_eq_true.mp hall y (List.mem_cons.mpr h)

/-! ### The pattern of values -/

def notQuote (q : Quote) : CharSet :=
  .compl (.single q.char)

def bareChar : CharSet :=
  .compl (['"', '\'', '=', '<', '>', '\x60'].foldl (fun s c => s.union (.single c)) .space)

def quotedPattern (q : Quote) : Pattern :=
  row [char q.char, Pattern.star (.set (notQuote q)), char q.char]

def barePattern : Pattern :=
  row [char '=', Pattern.star (.set .space), .repeated 1 none true (.set bareChar)]

def namePattern (names : List Name) : Pattern :=
  .oneOf (.initial true) (names.map Name.chars).reverse

/-- What stands in front of the value of an attribute with one of some names. -/
def assignment (names : List Name) : List Pattern :=
  [row [namePattern names], Pattern.star (.set .space), char '=', Pattern.star (.set .space)]

def bareEnd : Pattern :=
  .alt (row [.set .space]) (.alt (row [char '/']) (row [.look .textEnd]))

/-- The pattern of a value in quotation marks that has a key, its content captured. -/
def heldPattern (keys : Pattern) (q : Quote) : Pattern :=
  row [char q.char, .group q.group (some q.groupName) (holding (notQuote q) keys), char q.char]

def bareKeyPattern (keys : Pattern) : Pattern :=
  row [.group 3 (some "main_3".toList) (row [keys]), .group 4 (some "ahead".toList) bareEnd]

def attributePattern (names : List Name) (keys : Pattern) : Pattern :=
  row (Tokens.opening :: (assignment names ++
    [choice (bareKeyPattern keys) [heldPattern keys .single, heldPattern keys .double]]))

/-- The pattern for values: those of other attributes are passed over. -/
def valuesPattern (names : List Name) (keys : Pattern) : Pattern :=
  choice barePattern [quotedPattern .single, quotedPattern .double, attributePattern names keys]

section Languages

variable {names : List Name} {mapping : Mapping} {q : Quote} {part : List Char} {y : Char}

theorem contains_notQuote : (notQuote q).contains y = true ↔ y ≠ q.char := by
  rw [notQuote, CharSet.contains, CharSet.contains_single]
  simp

/-- What a quotation holds has any characters but its own quotation mark. -/
theorem mem_language_star_notQuote :
    part ∈ (Pattern.star (.set (notQuote q))).language ↔ q.char ∉ part := by
  rw [Pattern.star, mem_language_repeated_set]
  simp only [contains_notQuote]
  exact ⟨fun h hmem => h _ hmem rfl, fun h y hy hsame => h (hsame ▸ hy)⟩

theorem mem_language_star_space :
    part ∈ (Pattern.star (.set .space)).language ↔ ∀ y ∈ part, Unicode.isSpace y = true := by
  rw [Pattern.star, mem_language_repeated_set]
  rfl

/-- A value in quotation marks is what stands up to the next mark. -/
theorem mem_language_quotedPattern : part ∈ (quotedPattern q).language ↔
    ∃ body, q.char ∉ body ∧ part = q.char :: (body ++ [q.char]) := by
  simp only [quotedPattern, mem_language_row_cons, mem_language_row_nil, mem_language_char,
    mem_language_star_notQuote]
  constructor
  · rintro ⟨_, rfl, _, ⟨body, hbody, _, ⟨_, rfl, _, rfl, rfl⟩, rfl⟩, rfl⟩
    exact ⟨body, hbody, by simp⟩
  · rintro ⟨body, hbody, rfl⟩
    exact ⟨_, rfl, _, ⟨body, hbody, _, ⟨_, rfl, _, rfl, rfl⟩, rfl⟩, by simp⟩

/-- A value without quotation marks has at least one character behind the equals sign. -/
theorem exists_of_mem_language_barePattern (h : part ∈ barePattern.language) :
    ∃ gap y later, part = '=' :: (gap ++ y :: later) ∧ (∀ x ∈ gap, Unicode.isSpace x = true) ∧
      bareChar.contains y = true := by
  simp only [barePattern, mem_language_row_cons, language_row_singleton, mem_language_char,
    mem_language_star_space] at h
  obtain ⟨_, rfl, _, ⟨gap, hgap, bare, ⟨n, hn, -, hbare⟩, rfl⟩, rfl⟩ := h
  obtain ⟨n, rfl⟩ := Nat.exists_eq_add_one_of_ne_zero (Nat.ne_of_gt hn)
  rw [pow_succ'] at hbare
  obtain ⟨_, ⟨y, hy, rfl⟩, later, -, rfl⟩ := hbare
  exact ⟨gap, y, later, rfl, hgap, hy⟩

/-- A value that is passed over begins with a quotation mark or an equals sign. -/
theorem exists_cons_of_passed
    (h : part ∈ barePattern.language ∨ ∃ q, part ∈ (quotedPattern q).language) :
    ∃ y later, part = y :: later ∧ y ∈ valueStarts := by
  rcases h with hbare | ⟨q, hquoted⟩
  · obtain ⟨gap, y, later, rfl, -⟩ := exists_of_mem_language_barePattern hbare
    exact ⟨_, _, rfl, by decide⟩
  · obtain ⟨body, -, rfl⟩ := mem_language_quotedPattern.mp hquoted
    refine ⟨_, _, rfl, ?_⟩
    cases q <;> decide

/-- A quotation mark is not part of a key. -/
theorem quote_notMem_key (hkeys : mapping.Identifiers)
    (hkey : String.ofList part ∈ mapping.map Prod.fst) : q.char ∉ part := by
  intro hmem
  exact (of_isIdentifierChar ((hkeys.of_mem hkey).2 _ hmem)).2 q.mem_delimiters

/-- A value has a key if the key stands somewhere in it. -/
theorem mem_language_holding (hne : mapping ≠ []) (hkeys : mapping.Identifiers) :
    part ∈ (holding (notQuote q) mapping.keyPattern).language ↔ q.char ∉ part ∧
      ∃ key, String.ofList key ∈ mapping.map Prod.fst ∧ key <:+: part := by
  simp only [holding, mem_language_row_cons, language_row_singleton,
    mem_language_star_notQuote, Mapping.mem_language_keyPattern hne]
  constructor
  · rintro ⟨front, hfront, _, ⟨key, hkey, back, hback, rfl⟩, rfl⟩
    have hnot := quote_notMem_key (q := q) hkeys hkey
    exact ⟨by simp [hfront, hnot, hback], key, hkey, front, back, by simp⟩
  · rintro ⟨hpart, key, hkey, front, back, rfl⟩
    simp only [List.mem_append, not_or] at hpart
    exact ⟨front, hpart.1.1, _, ⟨key, hkey, back, hpart.2, rfl⟩, by simp⟩

/-- Names are matched up to case. -/
theorem mem_language_namePattern (hne : names ≠ []) :
    part ∈ (namePattern names).language ↔
      ∃ name ∈ names, Unicode.sameFoldText part name.chars = true := by
  have htexts : (names.map Name.chars).reverse ≠ [] := by simpa using hne
  rw [namePattern, mem_language_oneOf htexts]
  simp only [List.mem_reverse, List.mem_map, exists_exists_and_eq_and, writtenAs,
    Flags.ignoreCase_initial, if_true]

/-- **The names are told up to the case of ASCII letters.** -/
theorem mem_language_namePattern_iff_isNamed (hne : names ≠ []) {a : Attribute} :
    a.name.chars ∈ (namePattern names).language ↔ a.isNamed names = true := by
  rw [mem_language_namePattern hne, Attribute.isNamed, Fragment.hasName, List.any_map,
    List.any_eq_true]
  refine exists_congr fun name => and_congr_right fun _ => ?_
  rw [sameFoldText_iff a.name.isIdentifierChar_of_mem name.isIdentifierChar_of_mem,
    Function.comp_apply, beq_iff_eq, Name.toString, Name.toString, String.toList_ofList,
    String.toList_ofList, eq_comm]

/-- What is written like a name is not empty, and has no delimiters and blanks in it. -/
theorem of_mem_language_namePattern (hne : names ≠ [])
    (h : part ∈ (namePattern names).language) :
    part ≠ [] ∧ ∀ y ∈ part, y ≠ ' ' ∧ y ∉ delimiters := by
  obtain ⟨name, -, hsame⟩ := (mem_language_namePattern hne).mp h
  refine ⟨?_, fun y hy => ?_⟩
  · rintro rfl
    obtain ⟨z, later, hchars⟩ := name.exists_cons
    rw [hchars] at hsame
    cases hsame
  · obtain ⟨z, hz, hfold⟩ := exists_sameFold hsame hy
    refine not_or.mp fun hdelimiter => ?_
    obtain rfl := Unicode.eq_of_sameFold hfold (.inl (isUncased_of_mem_delimiters hdelimiter))
    obtain ⟨hspace, hnot⟩ := name.of_mem hz
    rcases hdelimiter with rfl | hmem
    · cases hspace
    · exact hnot hmem

end Languages

end Relabel.Html
