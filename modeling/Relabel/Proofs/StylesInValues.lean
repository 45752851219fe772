import Relabel.Proofs.Framing
import Relabel.Proofs.StyleAttributes

/-!
# Styles in the values of other attributes

A start tag without a style attribute is not matched, but the search for style attributes goes on
behind its opening bracket. What is located in the tag is what is located there
(`values_yield_their_own_styles`). So the values of its attributes are searched as if they were
markup: a tag with a style attribute in a value is found (`style_located_in_value`), and nothing is
found if no tag opens in a value.
-/

namespace Relabel

namespace Embed

/-- Embedded code in a text with something in front of it. -/
def shift (n : Nat) (e : Embed) : Embed :=
  { e with span := e.span.shift n }

end Embed

/-! ### Locating behind a frame -/

namespace Matcher

variable {matcher : Matcher}

/-- What is captured in a text is captured, moved, behind a frame. -/
theorem content?_shift (frame text : List Char) (found : Match) :
    matcher.content? (frame ++ text) (found.shift (byteSize frame)) =
      (matcher.content? text found).map fun entry => (entry.1, byteSize frame + entry.2) := by
  rw [content?, content?, capture?_shift]
  cases matcher.capture? found with
  | none => rfl
  | some span =>
    have hempty : (span.shift (byteSize frame)).isEmpty = span.isEmpty := by
      simp [Span.isEmpty]
    simp only [Option.map_some, Option.bind_eq_bind, Option.bind_some, hempty, span.slice?_append]
    split
    · rfl
    · cases span.slice? text <;> rfl

/-- Behind a frame the same is captured, further to the right. -/
theorem Advances.contents_moved (hm : matcher.Advances) (hlocal : matcher.Local)
    {frame text : List Char} {c : Cursor} (hc : (Cursor.start text).MovedBy (byteSize frame) c) :
    matcher.contents (frame ++ text) c = (matcher.contents text (.start text)).map
      fun entry => (entry.1, byteSize frame + entry.2) := by
  rw [contents, contents, hm.hits_moved hlocal hc, List.filterMap_map, List.map_filterMap]
  exact List.filterMap_congr fun entry _ => content?_shift frame text entry.1

end Matcher

namespace Html

open Pattern

/-! ### Texts in which no tag opens -/

/-- Whether an opening bracket stands in front of a character with which the name of an element can
begin. -/
def opensTag : List Char → Bool
  | [] => false
  | x :: rest => x == '<' && rest.head?.any elementStart.contains || opensTag rest

/-- Where no bracket stands, no tag opens. -/
theorem opensTag_append_of_notMem {part : List Char} (h : '<' ∉ part) (rest : List Char) :
    opensTag (part ++ rest) = opensTag rest := by
  induction part with
  | nil => rfl
  | cons x part ih =>
    rw [List.mem_cons, not_or] at h
    have hx : (x == '<') = false := beq_eq_false_iff_ne.mpr (Ne.symm h.1)
    rw [List.cons_append, opensTag, hx, Bool.false_and, Bool.false_or, ih h.2]

theorem opensTag_append {rest : List Char} (h : ∀ y ∈ rest.head?, elementStart.contains y = false)
    (text : List Char) : opensTag (text ++ rest) = (opensTag text || opensTag rest) := by
  induction text with
  | nil => rfl
  | cons x text ih =>
    have hhead : (text ++ rest).head?.any elementStart.contains =
        text.head?.any elementStart.contains := by
      cases text with
      | cons y text => rfl
      | nil =>
        cases hrest : rest.head? with
        | none => simp [hrest]
        | some y => simp [hrest, h y hrest]
    rw [List.cons_append, opensTag, opensTag, hhead, ih, Bool.or_assoc]

/-- If no tag opens in a text, none opens further on. -/
theorem opensTag_of_over {c d : Cursor} {part : List Char} (hover : c.Over part d)
    (h : opensTag c.rest = false) : opensTag d.rest = false := by
  have hrest := hover.1
  induction part generalizing c with
  | nil => rwa [hover.eq_of_nil]
  | cons x part ih =>
    rw [hrest, List.cons_append, opensTag, Bool.or_eq_false_iff] at h
    exact ih hover.of_cons h.2 rfl

/-- Whether a tag opens in the value of an attribute. -/
def Page.Attribute.opensTag (a : Page.Attribute) : Bool :=
  match a.assigned with
  | .quoted v => Html.opensTag v.text
  | _ => false

/-- A tag opens in an attribute only if it opens in its value. -/
theorem opensTag_attribute {a : Page.Attribute} (ha : a.assigned.Closed) (rest : List Char) :
    opensTag (a.render ++ rest) = (a.opensTag || opensTag rest) := by
  have hname : '<' ∉ ' ' :: a.name.chars := by
    simp [a.name.notMem_of_delimiter (show '<' ∈ delimiters by decide)]
  rw [Page.Attribute.render, ← List.cons_append, List.append_assoc,
    opensTag_append_of_notMem hname, Page.Attribute.opensTag]
  cases hassigned : a.assigned with
  | nothing => rfl
  | bare text =>
    rw [hassigned] at ha
    have htext : '<' ∉ '=' :: text := by
      simpa using fun hmem => (ha.of_mem_bare hmem).2 (by decide)
    rw [Page.Assigned.render, opensTag_append_of_notMem htext]
    rfl
  | quoted v =>
    have hquote : '<' ∉ ['=', v.quote.char] := by
      cases v.quote <;> decide
    have hclosing : ∀ y ∈ ([v.quote.char] ++ rest).head?, elementStart.contains y = false := by
      rintro y ⟨rfl⟩
      cases v.quote <;> decide +kernel
    have hparts : (Page.Assigned.quoted v).render ++ rest =
        ['=', v.quote.char] ++ (v.text ++ ([v.quote.char] ++ rest)) := by
      simp [Page.Assigned.render, Value.render]
    have hmark : '<' ∉ [v.quote.char] := fun hmem => hquote (List.mem_cons_of_mem _ hmem)
    rw [hparts, opensTag_append_of_notMem hquote, opensTag_append hclosing,
      opensTag_append_of_notMem hmark]

/-- No tag opens in a start tag behind its opening bracket but in the values of its attributes. -/
theorem opensTag_attributes {attributes : List Page.Attribute}
    (hclosed : ∀ a ∈ attributes, a.assigned.Closed) :
    opensTag (attributes.flatMap Page.Attribute.render ++ ['>']) =
      attributes.any Page.Attribute.opensTag := by
  induction attributes with
  | nil => rfl
  | cons a attributes ih =>
    obtain ⟨ha, hclosed⟩ := List.forall_mem_cons.mp hclosed
    rw [List.flatMap_cons, List.append_assoc, opensTag_attribute ha, ih hclosed, List.any_cons]

/-! ### What is located in them -/

section Located

variable {host : List Char} {c : Cursor}

/-- What is captured does not depend on where a text stands. -/
theorem local_styleMatcher : styleMatcher.Local :=
  Matcher.local_ofPattern _ rfl rfl

/-- Where no tag opens, nothing is matched but comments. -/
theorem content?_of_unopened {found : Match} (h : opensTag c.rest = false)
    (hmatch : styleMatcher.program.matchAt c = some found) :
    styleMatcher.content? host found = none := by
  obtain ⟨d, hway, -⟩ := Program.matchAt_sound hmatch
  obtain ⟨span, captures⟩ := found
  rcases hway with hcomment | htag
  · obtain rfl : captures = [] := hcomment.eq_nil_of_bare rfl
    exact Matcher.content?_of_absent rfl
  · obtain ⟨part, hpart, hover⟩ := htag.exists_mem_language
    rw [styleTagPattern, language_row_append] at hpart
    obtain ⟨front, hfront, back, -, rfl⟩ := hpart
    obtain ⟨y, later, hy, -, rfl⟩ := mem_language_elementName.mp hfront
    rw [hover.1] at h
    simp [opensTag, hy] at h

/-- **Where no tag opens, nothing is located.** -/
theorem contents_of_unopened (h : opensTag c.rest = false) : styleMatcher.contents host c = [] := by
  refine List.filterMap_eq_nil_iff.mpr fun entry hentry => ?_
  obtain ⟨e, -, hopens, hmatch⟩ :=
    advances_styleMatcher.hits_invariant (fun e => opensTag e.rest = false)
      (fun e x rest he _ hrest => opensTag_of_over (.advance hrest) he)
      (fun e m d he _ hd => hd.reaches.elim fun part hover => opensTag_of_over hover he)
      h entry hentry
  exact content?_of_unopened hopens hmatch

end Located

/-- What stands in a start tag behind its opening bracket. -/
def Page.Item.inside (name : Name) (attributes : List Page.Attribute) : List Char :=
  name.chars ++ (attributes.flatMap Page.Attribute.render ++ ['>'])

section StartTag

variable {name : Name} {attributes : List Page.Attribute}

/-- What is located in a start tag without a style attribute is what is located behind its opening
bracket. -/
theorem find_startTag (hclosed : ∀ a ∈ attributes, a.assigned.Closed)
    (hnone : ∀ a ∈ attributes, a.style? = none) :
    Locator.styleAttribute.find (String.ofList (Page.Item.startTag name attributes).render) =
      (Locator.styleAttribute.find (String.ofList (Page.Item.inside name attributes))).map
        (Embed.shift 1) := by
  obtain ⟨d, hover, -⟩ := Cursor.exists_over (List.append_nil _).symm
  have hunmatched : styleMatcher.program.matchAt
      (.start (Page.Item.startTag name attributes).render) = none := by
    rw [matchAt_styleMatcher hover, matchAt_unstyled hclosed hnone hover]
  have hmoved : (Cursor.start (Page.Item.inside name attributes)).MovedBy (byteSize ['<'])
      ((Cursor.start (Page.Item.startTag name attributes).render).advance '<'
        (Page.Item.inside name attributes)) := ⟨rfl, rfl⟩
  have hcontents := (advances_styleMatcher.contents_skip hunmatched rfl).trans
    (advances_styleMatcher.contents_moved local_styleMatcher hmoved)
  rw [find_eq_contents, find_eq_contents]
  refine (congrArg (List.map _) hcontents).trans ?_
  rw [List.map_map, List.map_map]
  refine List.map_congr_left fun entry _ => ?_
  simp only [Function.comp_apply, Embed.wrapped, Embed.shift, Span.shift, Nat.add_assoc]
  rfl

/-- Nothing is located behind the opening bracket if no tag opens in a value. -/
theorem find_inside (hclosed : ∀ a ∈ attributes, a.assigned.Closed)
    (hunopened : ∀ a ∈ attributes, a.opensTag = false) :
    Locator.styleAttribute.find (String.ofList (Page.Item.inside name attributes)) = [] := by
  have hname : '<' ∉ name.chars := name.notMem_of_delimiter (by decide)
  have hinside : opensTag (Page.Item.inside name attributes) = false := by
    rw [Page.Item.inside, opensTag_append_of_notMem hname, opensTag_attributes hclosed,
      List.any_eq_false]
    simpa using hunopened
  rw [find_eq_contents, contents_of_unopened hinside, List.map_nil]

end StartTag

end Html

/-- **Values yield their own styles.** What is located in a start tag without a style attribute is
what is located in the text behind its opening bracket, which is searched like any other. If this
text is a page, its styles are located. Nothing is located if in no value of an attribute an opening
bracket stands in front of a letter, up to case. -/
theorem values_yield_their_own_styles {name : Html.Name} {attributes : List Html.Page.Attribute}
    (hclosed : ∀ a ∈ attributes, a.assigned.Closed) (hother : ∀ a ∈ attributes, a.style? = none) :
    let tag := String.ofList (Html.Page.Item.startTag name attributes).render
    let inside := String.ofList (Html.Page.Item.inside name attributes)
    (Locator.styleAttribute.locate tag).outcome =
      .ok ((Locator.styleAttribute.find inside).map (Embed.shift 1)) ∧
    (∀ page : Html.Page, page.WellFormed → page.render = inside →
      (Locator.styleAttribute.locate tag).outcome = .ok (page.styleEmbeds.map (Embed.shift 1))) ∧
    ((∀ a ∈ attributes, a.opensTag = false) →
      (Locator.styleAttribute.locate tag).outcome = .ok []) := by
  intro tag inside
  have htag : (Locator.styleAttribute.locate tag).outcome =
      .ok ((Locator.styleAttribute.find inside).map (Embed.shift 1)) :=
    congrArg Except.ok (Html.find_startTag hclosed hother)
  refine ⟨htag, fun page hpage hinside => ?_, fun hunopened => ?_⟩
  · rw [htag, ← hinside, Html.find_page hpage]
  · rw [htag, Html.find_inside hclosed hunopened, List.map_nil]

namespace Html.Page

def labelled (v : Value) : Attribute :=
  ⟨.literal "label" rfl, .quoted v⟩

/-- A value with style attributes behind brackets that open no tag, and one with a page in it. -/
theorem values_yield_their_own_styles_labelled :
    (Locator.styleAttribute.locate "<p label='< style=\"x\"><1 style=\"y\"'>").outcome = .ok [] ∧
    (Locator.styleAttribute.locate
      "<p label='<!--<p style=\"x\">-->é<p STYLE=\"y\">'>").outcome =
      .ok [⟨.css, ":root\x7by\x7d", ⟨42, 43⟩, some ⟨":root\x7b", "\x7d"⟩⟩] := by
  constructor
  · have hclosed : ∀ a ∈ [labelled ⟨.single, "< style=\"x\"><1 style=\"y\"".toList⟩],
        a.assigned.Closed := by decide
    obtain ⟨-, -, hnothing⟩ := @values_yield_their_own_styles paragraph _ hclosed
      (List.forall_mem_singleton.mpr rfl)
    exact hnothing (by decide +kernel)
  · have hclosed : ∀ a ∈ [labelled ⟨.single, "<!--<p style=\"x\">-->é<p STYLE=\"y\">".toList⟩],
        a.assigned.Closed := by decide
    obtain ⟨-, hpage, -⟩ := @values_yield_their_own_styles paragraph _ hclosed
      (List.forall_mem_singleton.mpr rfl)
    exact hpage [.text "p label='".toList, .comment "<p style=\"x\">".toList, .text ['é'],
      .startTag paragraph [⟨.literal "STYLE" rfl,
        .quoted ⟨.double, ['y']⟩⟩], .text "'>".toList] (by decide) (by decide)

/-- A tag in a value is found. -/
theorem style_located_in_value :
    (∀ a ∈ [labelled ⟨.single, "<a style=\"x\">".toList⟩],
      a.assigned.Closed ∧ a.isStyle = false) ∧
    String.ofList (Item.startTag paragraph [labelled ⟨.single, "<a style=\"x\">".toList⟩]).render =
      "<p label='<a style=\"x\">'>" ∧
    (Locator.styleAttribute.locate "<p label='<a style=\"x\">'>").outcome =
      .ok [⟨.css, ":root\x7bx\x7d", ⟨20, 21⟩, some ⟨":root\x7b", "\x7d"⟩⟩] := by
  refine ⟨by decide, by decide, congrArg Except.ok ?_⟩
  rw [Locator.find, Locator.styleAttributes, Locator.contents_eq (by decide +kernel)]
  decide +kernel

end Html.Page

end Relabel
