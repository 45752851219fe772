import Relabel.Proofs.Flanked
import Relabel.Proofs.Locating

/-!
# Bodies of elements

The bodies of `style` and `script` elements are those that a scanner finds which goes through a
document from left to right and never goes back (`Html.pieces`). At each position it tries to take a
comment, then an element, and otherwise passes over one character. An element is a start tag, which
ends at the first closing bracket outside quotation marks, and what follows up to the first end tag.

The pattern of an element is made of parts that can be read in one way only, and of the body, which
is as short as it can be. So the search for it does what the scanner does
(`Html.matchAt_of_element?`), and what is located are the bodies that the scanner yields
(`element_bodies_located_by_scanner`).
-/

open scoped Computability

namespace Relabel

/-! ### The scanner -/

namespace Scanner

def folded (word : List Char) : Scanner := fun text =>
  if Unicode.sameFoldText (text.take word.length) word then
    some (text.take word.length, text.drop word.length)
  else none

/-- Takes what is left of a start tag, up to the first closing bracket outside quotation marks. A
quotation mark is given if its quotation is not closed yet. -/
def tagEnd : Option Char → Scanner
  | _, [] => none
  | none, x :: text =>
    if x = '>' then some ([x], text)
    else (tagEnd (if x = '"' ∨ x = '\'' then some x else none) text).map fun (part, rest) =>
      (x :: part, rest)
  | some mark, x :: text =>
    (tagEnd (if x = mark then none else some mark) text).map fun (part, rest) => (x :: part, rest)

/-- Takes what stands in a start tag behind its name: the bracket that closes the tag, with white
space and attributes in front of it or not. -/
def attributes : Scanner
  | [] => none
  | x :: text =>
    if x = '>' then some ([x], text)
    else if Unicode.isSpace x then (tagEnd none text).map fun (part, rest) => (x :: part, rest)
    else none

def blanks : Scanner
  | [] => none
  | x :: text =>
    if x = '>' then some ([x], text)
    else if Unicode.isSpace x then (blanks text).map fun (part, rest) => (x :: part, rest)
    else none

def startTag (tag : List Char) : Scanner :=
  (char '<').andThen ((folded tag).andThen attributes)

def endTag (tag : List Char) : Scanner :=
  (char '<').andThen ((char '/').andThen ((folded tag).andThen blanks))

end Scanner

namespace Html

open Pattern

structure Element where
  opening : List Char
  body : List Char
  closing : List Char

def Element.render (e : Element) : List Char :=
  e.opening ++ (e.body ++ e.closing)

def atEndTag (tag text : List Char) : Bool :=
  (Scanner.endTag tag text).isSome

/-- Takes an element off the front of a text: a start tag, and what follows up to the first end
tag. -/
def element? (tag text : List Char) : Option (Element × List Char) := do
  let (opening, rest) ← Scanner.startTag tag text
  let (body, rest) ← firstWhere? (atEndTag tag) rest
  let (closing, rest) ← Scanner.endTag tag rest
  return (⟨opening, body, closing⟩, rest)

/-- An element is a start tag, a body up to the first end tag, and that end tag. -/
theorem element?_eq_some_iff {tag text rest : List Char} {e : Element} :
    element? tag text = some (e, rest) ↔ ∃ inner later,
      Scanner.startTag tag text = some (e.opening, inner) ∧
      firstWhere? (atEndTag tag) inner = some (e.body, later) ∧
      Scanner.endTag tag later = some (e.closing, rest) := by
  simp only [element?, Option.bind_eq_bind, Option.bind_eq_some_iff, Prod.exists, Option.pure_def,
    Option.some.injEq, Prod.mk.injEq]
  constructor
  · rintro ⟨opening, inner, hopening, body, later, hbody, closing, _, hclosing, rfl, rfl⟩
    exact ⟨inner, later, hopening, hbody, hclosing⟩
  · rintro ⟨inner, later, hopening, hbody, hclosing⟩
    exact ⟨_, inner, hopening, _, later, hbody, _, rest, hclosing, rfl, rfl⟩

/-! ### What the scanners take -/

section Scanners

variable {text part rest body : List Char}

theorem eq_of_map_cons {x : Char} {found : Option (List Char × List Char)}
    (h : (found.map fun (part, rest) => (x :: part, rest)) = some (part, rest)) :
    ∃ part', found = some (part', rest) ∧ part = x :: part' := by
  obtain ⟨⟨part', rest'⟩, rfl, heq⟩ := Option.map_eq_some_iff.mp h
  cases heq
  exact ⟨part', rfl, rfl⟩

theorem length_eq_of_sameFoldText {word : List Char}
    (h : Unicode.sameFoldText part word = true) : part.length = word.length := by
  induction word generalizing part with
  | nil =>
    cases part with
    | nil => rfl
    | cons x part => cases h
  | cons k word ih =>
    cases part with
    | nil => cases h
    | cons x part =>
      rw [Unicode.sameFoldText, Bool.and_eq_true] at h
      rw [List.length_cons, List.length_cons, ih h.2]

/-- A word is taken if the text begins with it, up to case. -/
theorem folded_eq_some_iff {word : List Char} : Scanner.folded word text = some (part, rest) ↔
    Unicode.sameFoldText part word = true ∧ text = part ++ rest := by
  rw [Scanner.folded, Option.ite_none_right_eq_some, Option.some.injEq, Prod.mk.injEq]
  constructor
  · rintro ⟨hsame, rfl, rfl⟩
    exact ⟨hsame, (List.take_append_drop _ _).symm⟩
  · rintro ⟨hsame, rfl⟩
    have hlength := length_eq_of_sameFoldText hsame
    rw [← hlength, List.take_left, List.drop_left]
    exact ⟨hsame, rfl, rfl⟩

/-- A quotation that was opened goes up to its next quotation mark. -/
theorem tagEnd_inside {mark : Char} (h : mark ∉ body) (text : List Char) :
    Scanner.tagEnd (some mark) (body ++ mark :: text) =
      (Scanner.tagEnd none text).map fun (part, rest) => (body ++ mark :: part, rest) := by
  induction body with
  | nil =>
    rw [List.nil_append, Scanner.tagEnd, if_pos rfl]
    rfl
  | cons x body ih =>
    obtain ⟨hx, hbody⟩ := not_or.mp (mt List.mem_cons.mpr h)
    rw [List.cons_append, Scanner.tagEnd, if_neg (Ne.symm hx), ih hbody, Option.map_map]
    rfl

/-- An item of a start tag does not end it. -/
theorem tagEnd_item {item : List Char} (h : item ∈ tagItem.language) (text : List Char) :
    Scanner.tagEnd none (item ++ text) =
      (Scanner.tagEnd none text).map fun (part, rest) => (item ++ part, rest) := by
  rcases mem_language_tagItem.mp h with ⟨y, ⟨hbracket, hquotes⟩, rfl⟩ | ⟨q, hquoted⟩
  · rw [List.singleton_append, Scanner.tagEnd, if_neg hbracket, if_neg (not_or.mpr hquotes)]
    rfl
  · obtain ⟨body, hbody, rfl⟩ := mem_language_quotedPattern.mp hquoted
    have hmark : ¬ q.char = '>' ∧ (q.char = '"' ∨ q.char = '\'') := by
      cases q <;> decide
    rw [List.cons_append, List.append_assoc, List.singleton_append, Scanner.tagEnd,
      if_neg hmark.1, if_pos hmark.2, tagEnd_inside hbody, Option.map_map]
    simp only [Function.comp_def, List.cons_append, List.append_assoc, List.nil_append]

theorem tagEnd_of_mem_tagBody (h : body ∈ tagBody) (rest : List Char) :
    Scanner.tagEnd none (body ++ '>' :: rest) = some (body ++ ['>'], rest) := by
  obtain ⟨items, rfl, hitems⟩ := Language.mem_kstar.mp h
  clear h
  induction items with
  | nil => simp [Scanner.tagEnd]
  | cons item items ih =>
    obtain ⟨hitem, hlater⟩ := List.forall_mem_cons.mp hitems
    rw [List.flatten_cons, List.append_assoc, tagEnd_item hitem, ih hlater]
    simp

/-- What may stand in front of the items of a start tag: the rest of a quotation, if one is open. -/
def quoteRest : Option Char → List Char → Prop
  | none, front => front = []
  | some mark, front => ∃ inner, mark ∉ inner ∧ front = inner ++ [mark]

/-- What is taken of a start tag is the rest of the open quotation, items and the bracket that
closes the tag. -/
theorem of_tagEnd {mark : Option Char} (hmark : ∀ m ∈ mark, m = '"' ∨ m = '\'')
    (h : Scanner.tagEnd mark text = some (part, rest)) : text = part ++ rest ∧
      ∃ front body, quoteRest mark front ∧ body ∈ tagBody ∧ part = front ++ (body ++ ['>']) := by
  induction text generalizing mark part with
  | nil =>
    rw [Scanner.tagEnd] at h
    cases h
  | cons x text ih =>
    cases mark with
    | none =>
      rw [Scanner.tagEnd] at h
      split at h
      · rename_i hx
        subst hx
        cases h
        exact ⟨rfl, [], [], rfl, mem_tagBody_of_chars (by simp), rfl⟩
      · rename_i hx
        obtain ⟨part', hlater, rfl⟩ := eq_of_map_cons h
        split at hlater
        · rename_i hquote
          obtain ⟨rfl, _, body, ⟨inner, hinner, rfl⟩, hbody, rfl⟩ :=
            ih (by simpa using hquote) hlater
          refine ⟨rfl, [], (x :: (inner ++ [x])) ++ body, rfl, append_mem_tagBody ?_ hbody, by simp⟩
          refine mem_tagBody_of_item (mem_language_tagItem.mpr (.inr ?_))
          rcases hquote with rfl | rfl
          · exact ⟨.double, mem_language_quotedPattern.mpr ⟨inner, hinner, rfl⟩⟩
          · exact ⟨.single, mem_language_quotedPattern.mpr ⟨inner, hinner, rfl⟩⟩
        · rename_i hquote
          obtain ⟨rfl, _, body, rfl, hbody, rfl⟩ := ih (by simp) hlater
          refine ⟨rfl, [], [x] ++ body, rfl, append_mem_tagBody ?_ hbody, rfl⟩
          refine mem_tagBody_of_chars fun y hy => ?_
          obtain rfl := List.mem_singleton.mp hy
          exact ⟨hx, not_or.mp hquote⟩
    | some m =>
      rw [Scanner.tagEnd] at h
      obtain ⟨part', hlater, rfl⟩ := eq_of_map_cons h
      split at hlater
      · rename_i hclosed
        subst hclosed
        obtain ⟨rfl, _, body, rfl, hbody, rfl⟩ := ih (by simp) hlater
        exact ⟨rfl, [x], body, ⟨[], List.not_mem_nil, rfl⟩, hbody, rfl⟩
      · rename_i hopen
        obtain ⟨rfl, _, body, ⟨inner, hinner, rfl⟩, hbody, rfl⟩ := ih hmark hlater
        refine ⟨rfl, x :: (inner ++ [m]), body, ⟨x :: inner, ?_, rfl⟩, hbody, rfl⟩
        rw [List.mem_cons]
        exact not_or.mpr ⟨Ne.symm hopen, hinner⟩

/-- What is left of a start tag ends at the first closing bracket outside quotation marks. -/
theorem tagEnd_eq_some_iff : Scanner.tagEnd none text = some (part, rest) ↔
    (∃ body ∈ tagBody, part = body ++ ['>']) ∧ text = part ++ rest := by
  constructor
  · intro h
    obtain ⟨htext, _, body, rfl, hbody, hpart⟩ := of_tagEnd (by simp) h
    exact ⟨⟨body, hbody, hpart⟩, htext⟩
  · rintro ⟨⟨body, hbody, rfl⟩, rfl⟩
    rw [List.append_assoc]
    exact tagEnd_of_mem_tagBody hbody rest

/-- Behind the name of an element stands the closing bracket, or white space and more. -/
theorem attributes_eq_some_iff : Scanner.attributes text = some (part, rest) ↔
    (part = ['>'] ∨ ∃ x, Unicode.isSpace x = true ∧ ∃ body ∈ tagBody, part = x :: (body ++ ['>'])) ∧
      text = part ++ rest := by
  have hbracket : ∀ {x}, Unicode.isSpace x = true → x ≠ '>' := by
    rintro x hx rfl
    exact absurd hx (by decide)
  constructor
  · intro h
    cases text with
    | nil => cases h
    | cons x text =>
      rw [Scanner.attributes] at h
      split at h
      · rename_i hx
        cases h
        exact ⟨.inl (by rw [hx]), rfl⟩
      · split at h
        · rename_i hspace
          obtain ⟨part', hlater, rfl⟩ := eq_of_map_cons h
          obtain ⟨⟨body, hbody, rfl⟩, rfl⟩ := tagEnd_eq_some_iff.mp hlater
          exact ⟨.inr ⟨x, hspace, body, hbody, rfl⟩, rfl⟩
        · cases h
  · rintro ⟨rfl | ⟨x, hspace, body, hbody, rfl⟩, rfl⟩
    · rfl
    · rw [List.cons_append, Scanner.attributes, if_neg (hbracket hspace), if_pos hspace,
        tagEnd_eq_some_iff.mpr ⟨⟨body, hbody, rfl⟩, rfl⟩]
      rfl

theorem blanks_eq_some_iff : Scanner.blanks text = some (part, rest) ↔
    (∃ gap, (∀ x ∈ gap, Unicode.isSpace x = true) ∧ part = gap ++ ['>']) ∧
      text = part ++ rest := by
  constructor
  · intro h
    induction text generalizing part with
    | nil => cases h
    | cons x text ih =>
      rw [Scanner.blanks] at h
      split at h
      · rename_i hx
        cases h
        exact ⟨⟨[], by simp, by rw [hx]; rfl⟩, rfl⟩
      · split at h
        · rename_i hspace
          obtain ⟨part', hlater, rfl⟩ := eq_of_map_cons h
          obtain ⟨⟨gap, hgap, rfl⟩, rfl⟩ := ih hlater
          exact ⟨⟨x :: gap, List.forall_mem_cons.mpr ⟨hspace, hgap⟩, rfl⟩, rfl⟩
        · cases h
  · rintro ⟨⟨gap, hgap, rfl⟩, rfl⟩
    induction gap with
    | nil => rfl
    | cons x gap ih =>
      obtain ⟨hspace, hgap⟩ := List.forall_mem_cons.mp hgap
      have hbracket : x ≠ '>' := by
        rintro rfl
        exact absurd hspace (by decide)
      rw [List.cons_append, List.cons_append, Scanner.blanks, if_neg hbracket, if_pos hspace,
        ih hgap]
      rfl

end Scanners

/-! ### The pattern of an element -/

def startTagItems (tag : List Char) : List Pattern :=
  char '<' :: (tag.map (literal locatorFlags) ++
    [.repeated 0 (some 1) true (row [.set .space, Pattern.star tagItem]), char '>'])

def endTagItems (tag : List Char) : List Pattern :=
  char '<' :: char '/' :: (tag.map (literal locatorFlags) ++
    [Pattern.star (.set .space), char '>'])

def elementPattern (tag : List Char) : Pattern :=
  row (startTagItems tag ++ .group 1 (some "content".toList) (row [lazyAny]) :: endTagItems tag)

section Element

variable {tag : List Char}

theorem scannedBy_folded (word : List Char) :
    (row (word.map (literal locatorFlags))).ScannedBy (.folded word) := by
  intro text part rest
  rw [mem_language_folded, folded_eq_some_iff]

theorem scannedBy_attributes :
    (row [.repeated 0 (some 1) true (row [.set .space, Pattern.star tagItem]), char '>']).ScannedBy
      .attributes := by
  intro text part rest
  rw [attributes_eq_some_iff]
  refine and_congr_left fun _ => ?_
  rw [mem_language_row_cons]
  simp only [mem_language_optional, language_row_singleton, mem_language_char,
    mem_language_row_cons, mem_language_set, CharSet.contains, language_star]
  constructor
  · rintro (rfl | ⟨x, hx, body, hbody, rfl⟩)
    · exact ⟨[], .inl rfl, ['>'], rfl, rfl⟩
    · exact ⟨x :: body, .inr ⟨[x], ⟨x, hx, rfl⟩, body, hbody, rfl⟩, ['>'], rfl, rfl⟩
  · rintro ⟨_, rfl | ⟨_, ⟨x, hx, rfl⟩, body, hbody, rfl⟩, _, rfl, rfl⟩
    · exact .inl rfl
    · exact .inr ⟨x, hx, body, hbody, rfl⟩

theorem scannedBy_blanks : (row [Pattern.star (.set .space), char '>']).ScannedBy .blanks := by
  intro text part rest
  rw [blanks_eq_some_iff, mem_language_row_cons]
  simp only [language_row_singleton, mem_language_char, mem_language_star_space]
  refine and_congr_left fun _ => ?_
  constructor
  · rintro ⟨gap, hgap, rfl⟩
    exact ⟨gap, hgap, ['>'], rfl, rfl⟩
  · rintro ⟨gap, hgap, _, rfl, rfl⟩
    exact ⟨gap, hgap, rfl⟩

/-- The scanner for start tags takes what the pattern matches. -/
theorem scannedBy_startTag (tag : List Char) :
    (row (startTagItems tag)).ScannedBy (.startTag tag) :=
  (scannedBy_char '<').cons ((scannedBy_folded tag).append scannedBy_attributes)

/-- The scanner for end tags takes what the pattern matches. -/
theorem scannedBy_endTag (tag : List Char) : (row (endTagItems tag)).ScannedBy (.endTag tag) :=
  (scannedBy_char '<').cons
    ((scannedBy_char '/').cons ((scannedBy_folded tag).append scannedBy_blanks))

theorem forall_startTagItems {P : Pattern → Prop} (hchar : ∀ x, P (char x))
    (hliteral : ∀ x, P (literal locatorFlags x))
    (hattributes : P (.repeated 0 (some 1) true (row [.set .space, Pattern.star tagItem]))) :
    ∀ p ∈ startTagItems tag, P p := by
  simpa [startTagItems, or_imp, forall_and, hchar, hattributes] using fun x _ => hliteral x

theorem forall_endTagItems {P : Pattern → Prop} (hchar : ∀ x, P (char x))
    (hliteral : ∀ x, P (literal locatorFlags x)) (hblanks : P (Pattern.star (.set .space))) :
    ∀ p ∈ endTagItems tag, P p := by
  simpa [endTagItems, or_imp, forall_and, hchar, hblanks] using fun x _ => hliteral x

theorem lexical_startTag : (row (startTagItems tag)).lexical = true :=
  lexical_row (forall_startTagItems (fun _ => rfl) (fun _ => rfl) rfl)

theorem proper_startTag : (row (startTagItems tag)).proper = true :=
  proper_row (forall_startTagItems (fun _ => rfl) (fun _ => rfl) rfl)

theorem lexical_endTag : (row (endTagItems tag)).lexical = true :=
  lexical_row (forall_endTagItems (fun _ => rfl) (fun _ => rfl) rfl)

theorem proper_endTag : (row (endTagItems tag)).proper = true :=
  proper_row (forall_endTagItems (fun _ => rfl) (fun _ => rfl) rfl)

theorem proper_elementPattern : (elementPattern tag).proper = true := by
  refine proper_row fun p hp => ?_
  rcases List.mem_append.mp hp with hstart | hlater
  · exact forall_startTagItems (P := fun p => p.proper = true) (fun _ => rfl) (fun _ => rfl) rfl p
      hstart
  · rcases List.mem_cons.mp hlater with rfl | hend
    · rfl
    · exact forall_endTagItems (P := fun p => p.proper = true) (fun _ => rfl) (fun _ => rfl) rfl p
        hend

variable {c d : Cursor}

/-- The search behind a start tag. -/
def bodyNext (tag : List Char) (c : Cursor) : Next := fun d captures =>
  (row (endTagItems tag)).find .stop d ((1, ⟨c.offset, d.offset⟩) :: captures)

/-- To search for an element is to search for its start tag, and then for the nearest end tag. -/
theorem find_elementPattern : (elementPattern tag).find .stop = (row (startTagItems tag)).find
    fun d captures => lazyAny.find (bodyNext tag d) d captures := by
  rw [elementPattern, find_row_append]
  rfl

/-- The search for a body can stop where an end tag can be taken. -/
theorem bodyNext_isSome (captures : Captures) :
    (bodyNext tag c d captures).isSome = atEndTag tag d.rest := by
  rw [atEndTag]
  cases hscan : Scanner.endTag tag d.rest with
  | none =>
    rw [bodyNext, (scannedBy_endTag tag).find_eq_none lexical_endTag proper_endTag hscan]
    rfl
  | some found =>
    obtain ⟨e, he, hrest⟩ := Cursor.exists_over ((scannedBy_endTag tag ..).mp hscan).2
    rw [bodyNext, (scannedBy_endTag tag).find_eq lexical_endTag proper_endTag
      (hscan.trans (by rw [hrest])) he]
    rfl

/-- **An element that the scanner takes is matched, and its body is captured.** -/
theorem matchAt_of_element? {e : Element} (h : element? tag c.rest = some (e, d.rest))
    (hover : c.Over e.render d) : ∃ f g, c.Over e.opening f ∧ f.Over e.body g ∧
      (Program.ofPattern (elementPattern tag)).matchAt c =
        some ⟨⟨c.offset, d.offset⟩, [(1, ⟨f.offset, g.offset⟩)]⟩ := by
  obtain ⟨inner, later, hopening, hbody, hclosing⟩ := element?_eq_some_iff.mp h
  obtain ⟨f, hf, hlater⟩ := hover.split
  obtain ⟨g, hg, hd⟩ := hlater.split
  have hinner : inner = f.rest :=
    List.append_cancel_left (((scannedBy_startTag tag ..).mp hopening).2.symm.trans hf.1)
  subst hinner
  have hlater : later = g.rest :=
    List.append_cancel_left ((of_firstWhere? hbody).1.symm.trans hg.1)
  subst hlater
  refine ⟨f, g, hf, hg, ?_⟩
  rw [Program.matchAt_eq_find proper_elementPattern, find_elementPattern,
    (scannedBy_startTag tag).find_eq lexical_startTag proper_startTag hopening hf,
    find_lazy (fun e => bodyNext_isSome []) hbody hg, bodyNext,
    (scannedBy_endTag tag).find_eq lexical_endTag proper_endTag hclosing hd]
  rfl

/-- Where no element can be taken, none is matched. -/
theorem matchAt_of_element?_eq_none (h : element? tag c.rest = none) :
    (Program.ofPattern (elementPattern tag)).matchAt c = none := by
  rw [Program.matchAt_eq_find proper_elementPattern, find_elementPattern, Option.map_eq_none_iff]
  cases hopening : Scanner.startTag tag c.rest with
  | none => exact (scannedBy_startTag tag).find_eq_none lexical_startTag proper_startTag hopening
  | some found =>
    obtain ⟨opening, inner⟩ := found
    obtain ⟨f, hf, rfl⟩ := Cursor.exists_over ((scannedBy_startTag tag ..).mp hopening).2
    rw [(scannedBy_startTag tag).find_eq lexical_startTag proper_startTag hopening hf]
    refine find_lazy_eq_none (fun e => bodyNext_isSome []) ?_
    -- behind a body there is an end tag, so it is the body that is missing
    refine Option.eq_none_iff_forall_not_mem.mpr ?_
    rintro ⟨body, later⟩ hbody
    obtain ⟨⟨closing, rest⟩, hclosing⟩ := Option.isSome_iff_exists.mp (of_firstWhere? hbody).2
    have helement := (element?_eq_some_iff (e := ⟨opening, body, closing⟩)).mpr
      ⟨f.rest, later, hopening, hbody, hclosing⟩
    rw [h] at helement
    cases helement

/-- Nothing of the text is lost when an element is taken. -/
theorem eq_append_of_element? {text rest : List Char} {e : Element}
    (h : element? tag text = some (e, rest)) : e.render ≠ [] ∧ text = e.render ++ rest := by
  obtain ⟨inner, later, hopening, hbody, hclosing⟩ := element?_eq_some_iff.mp h
  obtain ⟨front, _, back, hfront, -, hparts⟩ := Scanner.andThen_eq_some_iff.mp hopening
  obtain ⟨hfront, -⟩ := (scannedBy_char '<' ..).mp hfront
  obtain rfl := mem_language_char.mp hfront
  have hbegins : text = e.opening ++ inner := ((scannedBy_startTag tag ..).mp hopening).2
  have hinner : inner = e.body ++ later := (of_firstWhere? hbody).1
  have hends : later = e.closing ++ rest := ((scannedBy_endTag tag ..).mp hclosing).2
  rw [Element.render, hbegins, hinner, hends]
  refine ⟨?_, by simp⟩
  rw [hparts]
  exact List.cons_ne_nil _ _

end Element

/-! ### Scanning a document -/

/-- What the scanner takes at one position. -/
inductive Piece where
  | comment (text : List Char)
  | element (e : Element)
  | char (x : Char)

namespace Piece

def render : Piece → List Char
  | .comment text => text
  | .element e => e.render
  | .char x => [x]

/-- The body of an element, unless it is empty, with the offset at which it begins if the piece
begins at a given one. -/
def body? (offset : Nat) : Piece → Option (List Char × Nat)
  | .element e => if e.body = [] then none else some (e.body, offset + byteSize e.opening)
  | _ => none

end Piece

/-- Takes a comment, an element or one character. -/
def piece? (tag : List Char) : List Char → Option (Piece × List Char)
  | [] => none
  | x :: rest =>
    match comment? (x :: rest) with
    | some (text, rest) => some (.comment text, rest)
    | none =>
      match element? tag (x :: rest) with
      | some (e, rest) => some (.element e, rest)
      | none => some (.char x, rest)

/-- The scanner takes a comment, or else an element, or else one character. -/
theorem piece?_cases {tag text rest : List Char} {piece : Piece}
    (h : piece? tag text = some (piece, rest)) :
    (∃ part, piece = .comment part ∧ comment? text = some (part, rest)) ∨
      (comment? text = none ∧ ∃ e, piece = .element e ∧ element? tag text = some (e, rest)) ∨
      comment? text = none ∧ element? tag text = none ∧
        ∃ x, piece = .char x ∧ text = x :: rest := by
  cases text with
  | nil => cases h
  | cons x text =>
    rw [piece?] at h
    split at h
    · rename_i hcomment
      cases h
      exact .inl ⟨_, rfl, hcomment⟩
    · rename_i hcomment
      split at h
      · rename_i helement
        cases h
        exact .inr (.inl ⟨hcomment, _, rfl, helement⟩)
      · rename_i helement
        cases h
        exact .inr (.inr ⟨hcomment, helement, x, rfl, rfl⟩)

/-- Scanning loses nothing, and each piece takes something. -/
theorem eq_append_of_piece? {tag text rest : List Char} {piece : Piece}
    (h : piece? tag text = some (piece, rest)) :
    piece.render ≠ [] ∧ text = piece.render ++ rest := by
  rcases piece?_cases h with ⟨part, rfl, hcomment⟩ | ⟨-, e, rfl, helement⟩ | ⟨-, -, x, rfl, rfl⟩
  · exact eq_append_of_comment? hcomment
  · exact eq_append_of_element? helement
  · exact ⟨List.cons_ne_nil _ _, rfl⟩

/-- **The scanner**: the pieces of a text, from left to right. -/
def pieces (tag text : List Char) : List Piece :=
  match _h : piece? tag text with
  | some (piece, rest) => piece :: pieces tag rest
  | none => []
termination_by text.length
decreasing_by
  obtain ⟨hne, htext⟩ := eq_append_of_piece? _h
  have := List.length_pos_iff.mpr hne
  rw [htext, List.length_append]
  omega

/-- The bodies in some pieces that begin at an offset, with the offsets at which they begin. -/
def bodiesFrom (offset : Nat) : List Piece → List (List Char × Nat)
  | [] => []
  | piece :: later =>
    (piece.body? offset).toList ++ bodiesFrom (offset + byteSize piece.render) later

/-- The bodies, not empty, of the elements with a given tag, with the offsets at which they
begin. -/
def bodies (tag host : List Char) : List (List Char × Nat) :=
  bodiesFrom 0 (pieces tag host)

/-! ### What is located -/

def bodyMatcher (tag : List Char) : Matcher :=
  .ofPattern "content".toList (located (elementPattern tag))

section Walk

variable {tag host : List Char} {c d : Cursor}

theorem groups_located_element :
    (located (elementPattern tag)).groups = [(1, some "content".toList)] := by
  have hstart : ∀ p ∈ startTagItems tag, p.nodes = [] :=
    forall_startTagItems (fun _ => rfl) (fun _ => rfl) rfl
  have hend : (row (endTagItems tag)).nodes = [] := nodes_of_lexical lexical_endTag
  have hnodes : (elementPattern tag).nodes =
      (row (.group 1 (some "content".toList) (row [lazyAny]) :: endTagItems tag)).nodes :=
    nodes_row_append hstart
  rw [located, groups, groups_eq_map_nodes (elementPattern tag), hnodes]
  change [] ++ List.map _ (_ :: ([] ++ (row (endTagItems tag)).nodes)) = _
  rw [hend]
  rfl

theorem capture_bodyMatcher : (bodyMatcher tag).capture = [1] := by
  rw [bodyMatcher, Matcher.ofPattern, groups_located_element]
  rfl

theorem ahead_bodyMatcher : (bodyMatcher tag).ahead = [] := by
  rw [bodyMatcher, Matcher.ofPattern, groups_located_element]
  rfl

/-- Every match covers something, so scanning advances. -/
theorem advances_bodyMatcher : (bodyMatcher tag).Advances :=
  Matcher.advances_of_ahead rfl ahead_bodyMatcher

/-- **One step of the walk**: what the scanner takes is matched, or passed over. -/
theorem contents_of_piece? {piece : Piece} (hc : (Cursor.start host).Reaches c)
    (h : piece? tag c.rest = some (piece, d.rest)) (hover : c.Over piece.render d) :
    (bodyMatcher tag).contents host c =
      ((piece.body? c.offset).map fun (body, start) => (String.ofList body, start)).toList ++
        (bodyMatcher tag).contents host d := by
  have hproper : (elementPattern tag).proper = true := proper_elementPattern
  have hne := (eq_append_of_piece? h).1
  rcases piece?_cases h with ⟨part, rfl, hcomment⟩ | ⟨hcomment, e, rfl, helement⟩ |
    ⟨hcomment, helement, x, rfl, hrest⟩
  · rw [advances_bodyMatcher.contents_found ahead_bodyMatcher
      (matchAt_of_comment? hproper hcomment hover) hover hne, Matcher.content?_of_absent]
    · rfl
    · rw [Matcher.capture?, capture_bodyMatcher]
      rfl
  · obtain ⟨f, g, hf, hg, hmatch⟩ := matchAt_of_element? helement hover
    rw [← matchAt_of_comment?_eq_none hproper hcomment] at hmatch
    rw [advances_bodyMatcher.contents_found ahead_bodyMatcher hmatch hover hne,
      Matcher.content?_of_over _ (hc.trans ⟨_, hf⟩) hg, Piece.body?, ← hf.2.1]
    · split <;> rfl
    · rw [Matcher.capture?, capture_bodyMatcher]
      rfl
  · have hnone := matchAt_of_element?_eq_none helement
    rw [← matchAt_of_comment?_eq_none hproper hcomment] at hnone
    rw [advances_bodyMatcher.contents_skip hnone hrest, ← hover.unique (.advance hrest)]
    rfl

theorem contents_of_end (h : c.rest = []) : (bodyMatcher tag).contents host c = [] := by
  refine Matcher.contents_end ?_ h
  have hcomment : comment? c.rest = none := by
    rw [h]
    rfl
  have helement : element? tag c.rest = none := by
    rw [h]
    rfl
  exact (matchAt_of_comment?_eq_none proper_elementPattern hcomment).trans
    (matchAt_of_element?_eq_none helement)

/-- **The walk yields the bodies that the scanner yields.** -/
theorem contents_eq_bodiesFrom (hc : (Cursor.start host).Reaches c) :
    (bodyMatcher tag).contents host c = (bodiesFrom c.offset (pieces tag c.rest)).map
      fun (body, start) => (String.ofList body, start) := by
  induction hlength : c.rest.length using Nat.strongRecOn generalizing c with
  | ind length ih =>
    rw [pieces]
    split
    · rename_i piece rest hpiece
      obtain ⟨hne, htext⟩ := eq_append_of_piece? hpiece
      obtain ⟨d, hd, rfl⟩ := Cursor.exists_over htext
      have hshorter := Cursor.Reaches.length_lt ⟨_, hd⟩ (hd.offset_lt hne)
      rw [contents_of_piece? hc hpiece hd, ih _ (hlength ▸ hshorter) (hc.trans ⟨_, hd⟩) rfl,
        bodiesFrom, hd.2.1, List.map_append, Option.toList_map]
    · rename_i hpiece
      cases hrest : c.rest with
      | nil => exact contents_of_end hrest
      | cons x rest =>
        rw [hrest, piece?] at hpiece
        split at hpiece
        · cases hpiece
        · split at hpiece
          · cases hpiece
          · cases hpiece

/-- What a locator finds for a tag are the bodies that the scanner takes. -/
theorem elementBodies_eq {name : String} {kind : EmbedKind}
    (hparse : (Pattern.parse? false (Locator.elementPattern name).toList).map Pattern.plain =
      some (located (elementPattern name.toList))) (host : String) :
    Locator.elementBodies name kind host = (bodies name.toList host.toList).map
      fun (body, start) => ⟨kind, String.ofList body, ⟨start, start + byteSize body⟩, none⟩ := by
  have hcontents : Locator.contents (Locator.elementPattern name) [1] host.toList =
      (bodyMatcher name.toList).contents host.toList (.start host.toList) := by
    rw [← capture_bodyMatcher]
    exact Locator.contents_eq_walk hparse proper_elementPattern rfl ahead_bodyMatcher host.toList
  rw [Locator.elementBodies, hcontents, contents_eq_bodiesFrom (.refl _), List.map_map]
  refine List.map_congr_left fun entry _ => ?_
  simp only [Function.comp_apply, Embed.plain, ← byteSize_toList, String.toList_ofList]

end Walk

end Html

/-- **Element bodies are located as a scanner would.** On every host, what is located are the
bodies that a single pass from left to right reads, each where it stands. -/
theorem element_bodies_located_by_scanner (host : String) :
    (Locator.styleTag.locate host).outcome =
        .ok ((Html.bodies "style".toList host.toList).map fun (body, start) =>
          ⟨.css, String.ofList body, ⟨start, start + byteSize body⟩, none⟩) ∧
      (Locator.scriptTag.locate host).outcome =
        .ok ((Html.bodies "script".toList host.toList).map fun (body, start) =>
          ⟨.js, String.ofList body, ⟨start, start + byteSize body⟩, none⟩) :=
  ⟨congrArg Except.ok (Html.elementBodies_eq (by decide +kernel) host),
    congrArg Except.ok (Html.elementBodies_eq (by decide +kernel) host)⟩

end Relabel
