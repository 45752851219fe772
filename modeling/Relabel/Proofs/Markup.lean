import Relabel.Proofs.Tags

/-!
# Renaming in documents

A document is a sequence of texts, comments, start tags and end tags (`Html.Document`). Comments are
passed over, and nothing is matched at a text or at an end tag, so a walk goes from part to part and
captures the attributes of start tags only. What becomes of a document is told by what becomes of
the attributes of its start tags (`Html.StartTags.Renames.changed?_rewrite`).

To rename tokens, the values of the attributes with the names asked for are captured inside a start
tag, and inside a value its tokens. Each level rewrites what the level above has captured, so from
the three walks follows what becomes of a document as a whole
(`Html.Markup.changed?_replaceInRegions`).
-/

namespace Relabel.Html

open Pattern

/-! ### Documents -/

inductive Item where
  | text (content : List Char)
  | comment (body : List Char)
  | startTag (name : Name) (attributes : List Attribute) (closing : Bool)
  | endTag (name : Name)

namespace Item

def render : Item → List Char
  | .text content => content
  | .comment body => "<!--".toList ++ (body ++ "-->".toList)
  | .startTag name attributes closing =>
    '<' :: (name.chars ++ (attributes.flatMap Attribute.render ++ (slashIf closing ++ ['>'])))
  | .endTag name => '<' :: '/' :: (name.chars ++ ['>'])

/-- No text has the character that opens a tag, and no comment what ends it. -/
def WellFormed : Item → Prop
  | .text content => '<' ∉ content
  | .comment body => ¬ "-->".toList <:+: body
  | .startTag _ attributes _ => ∀ a ∈ attributes, a.WellFormed
  | .endTag _ => True

instance : (item : Item) → Decidable item.WellFormed
  | .text content => inferInstanceAs (Decidable ('<' ∉ content))
  | .comment body => inferInstanceAs (Decidable (¬ "-->".toList <:+: body))
  | .startTag _ attributes _ => inferInstanceAs (Decidable (∀ a ∈ attributes, a.WellFormed))
  | .endTag _ => isTrue trivial

/-- Whether an attribute with one of some names has a key among the tokens of its value. -/
def mentions (names : List Name) (mapping : Mapping) : Item → Bool
  | .startTag _ attributes _ => attributes.any (Attribute.mentions names mapping)
  | _ => false

/-- The part with its attributes changed, if it is a start tag. -/
def mapAttributes (f : Attribute → Attribute) : Item → Item
  | .startTag name attributes closing => .startTag name (attributes.map f) closing
  | item => item

end Item

abbrev Document := List Item

namespace Document

def render (document : Document) : String :=
  String.ofList (document.flatMap Item.render)

def WellFormed (document : Document) : Prop :=
  ∀ item ∈ document, item.WellFormed

instance (document : Document) : Decidable document.WellFormed :=
  inferInstanceAs (Decidable (∀ item ∈ document, item.WellFormed))

/-- Whether there is something to rename in a document. -/
def mentions (names : List Name) (mapping : Mapping) (document : Document) : Bool :=
  document.any (Item.mentions names mapping)

/-- The document with the keys replaced in the values of attributes with one of some names. -/
def rename (names : List Name) (mapping : Mapping) (document : Document) : Document :=
  document.map (Item.mapAttributes (Attribute.rename names mapping))

/-- Where nothing is mentioned, nothing is renamed. -/
theorem rename_of_not_mentions {names : List Name} {mapping : Mapping} {document : Document}
    (h : document.mentions names mapping = false) : document.rename names mapping = document := by
  refine (List.map_congr_left fun item hitem => ?_).trans (List.map_id document)
  have hnot := List.any_eq_false.mp h item hitem
  cases item with
  | startTag name attributes closing =>
    rw [Item.mapAttributes,
      Attribute.map_rename_of_not_mentions (by simpa [Item.mentions] using hnot)]
    rfl
  | text content => rfl
  | comment body => rfl
  | endTag name => rfl

end Document

/-! ### Comments -/

/-- A comment goes up to the first place where it can end. -/
theorem upTo?_comment {body : List Char} (h : ¬ "-->".toList <:+: body) (rest : List Char) :
    upTo? "-->".toList (body ++ ("-->".toList ++ rest)) = some (body, rest) := by
  induction body with
  | nil => rfl
  | cons x body ih =>
    -- what ends the comment cannot begin in its body, since its last character occurs once in it
    have hnot : ¬ "-->".toList.isPrefixOf (x :: (body ++ ("-->".toList ++ rest))) = true := by
      intro hbegins
      match body with
      | [] => simp [List.isPrefixOf] at hbegins
      | [y] => simp [List.isPrefixOf] at hbegins
      | y :: z :: body =>
        have hbody : "-->".toList <+: x :: y :: z :: body :=
          List.prefix_of_prefix_length_le (List.isPrefixOf_iff_prefix.mp hbegins)
            (List.prefix_append (x :: y :: z :: body) _) (by simp)
        exact h hbody.isInfix
    have hlater : ¬ "-->".toList <:+: body := by
      intro hinside
      exact h (hinside.trans (List.suffix_cons x body).isInfix)
    rw [List.cons_append, upTo?, if_neg hnot, ih hlater]
    rfl

/-! ### What is matched in a document -/

def commentPattern : Pattern :=
  delimited "<!--".toList "-->".toList

namespace StartTags

def matcher (t : StartTags) : Matcher :=
  .ofPattern "main".toList (choice t.pattern [commentPattern])

variable {t : StartTags} {c d e f : Cursor} {new : Captures}

theorem proper_choice (t : StartTags) : (choice t.pattern [commentPattern]).proper = true := by
  rw [choice, List.foldl_cons, List.foldl_nil, Pattern.proper, commentPattern, proper_delimited]
  simp [pattern, row, char, Pattern.star, Pattern.proper, nullable, t.proper]

theorem groups_choice (t : StartTags) :
    (choice t.pattern [commentPattern]).groups = [(1, some "main".toList)] := by
  have hcomment : commentPattern.groups = [] := rfl
  have hregion : t.region.groups = [] := groups_of_lexical t.lexical
  rw [choice, List.foldl_cons, List.foldl_nil, groups, hcomment]
  simp [pattern, row, groups, char, Pattern.star, hregion]

theorem capture_eq : t.matcher.capture = [1] := by
  rw [matcher, Matcher.ofPattern, groups_choice]
  rfl

/-- Scanning resumes at the end of a match. -/
theorem resumes (hreaches : c.Reaches d) (hlt : c.offset < d.offset) :
    t.matcher.Resumes ⟨⟨c.offset, d.offset⟩, new⟩ c d := by
  refine ⟨hreaches, hlt, ?_⟩
  rw [Matcher.target, Matcher.ahead?, matcher, Matcher.ofPattern, groups_choice]
  rfl

/-- A match is a comment or a start tag. -/
theorem matches_cases (h : (choice t.pattern [commentPattern]).Matches c d new) :
    (new = [] ∧ ∃ body, c.Over ("<!--".toList ++ (body ++ "-->".toList)) d) ∨
      t.pattern.Matches c d new := by
  rcases h with hcomment | htag
  · obtain ⟨part, hpart, hover⟩ := hcomment.exists_mem_language
    obtain ⟨body, rfl⟩ := mem_language_delimited.mp hpart
    exact .inl ⟨hcomment.eq_nil_of_bare rfl, body, hover⟩
  · exact .inr htag

/-- Nothing is matched but what begins with an opening bracket, behind which stands an exclamation
mark or what the name of an element begins with. -/
theorem exists_rest_of_matches (h : (choice t.pattern [commentPattern]).Matches c d new) :
    ∃ y rest, c.rest = '<' :: y :: rest ∧ (y = '!' ∨ t.first.contains y = true) := by
  rcases matches_cases h with ⟨-, body, hover⟩ | htag
  · exact ⟨_, _, hover.1, .inl rfl⟩
  · obtain ⟨e, f, name, closing, ⟨hname, hstart⟩, -⟩ := matches_pattern_iff.mp htag
    rw [isElement, Bool.and_eq_true] at hname
    cases name with
    | nil => cases hname.1
    | cons y later => exact ⟨y, _, hstart.1, .inr hname.1⟩

/-- Where the name of an element follows, a match is a start tag: a name does not begin with an
exclamation mark. -/
theorem matches_pattern_of_name {name : Name} {rest : List Char}
    (hrest : c.rest = '<' :: (name.chars ++ rest))
    (h : (choice t.pattern [commentPattern]).Matches c d new) : t.pattern.Matches c d new := by
  rcases matches_cases h with ⟨-, body, hcomment⟩ | htag
  · obtain ⟨y, later, hchars⟩ := name.exists_cons
    rw [hchars] at hrest
    have hmark : y = '!' := (List.cons.inj (List.cons.inj (hrest.symm.trans hcomment.1)).2).1
    have hname := name.all y (by simp [hchars])
    rw [hmark] at hname
    cases hname
  · exact htag

/-- Every match covers something, so scanning advances. -/
theorem advances (t : StartTags) : t.matcher.Advances := by
  intro c m h
  obtain ⟨d, hmatches, hspan⟩ := Program.matchAt_sound h
  obtain ⟨span, captures⟩ := m
  obtain rfl : span = _ := hspan
  rcases matches_cases hmatches with ⟨-, body, hover⟩ | htag
  · exact ⟨d, resumes ⟨_, hover⟩ (hover.offset_lt (List.cons_ne_nil _ _))⟩
  · obtain ⟨e, f, name, closing, ⟨-, hstart⟩, ⟨region, -, hover⟩, hend, -⟩ :=
      matches_pattern_iff.mp htag
    have hall := hstart.trans (hover.trans hend)
    exact ⟨d, resumes ⟨_, hall⟩ (hall.offset_lt (List.cons_ne_nil _ _))⟩

theorem matchAt_eq_none_iff : t.matcher.program.matchAt c = none ↔
    ∀ d new, ¬ (choice t.pattern [commentPattern]).Matches c d new :=
  Program.matchAt_eq_none_iff t.proper_choice

/-- Nothing is matched where no bracket opens. -/
theorem matchAt_quiet (h : ∀ y ∈ c.rest.head?, y ≠ '<') : t.matcher.program.matchAt c = none := by
  refine matchAt_eq_none_iff.mpr fun d new hmatches => ?_
  obtain ⟨y, rest, hrest, -⟩ := exists_rest_of_matches hmatches
  exact h '<' (by rw [hrest]; rfl) rfl

/-- In text without opening brackets nothing is matched. -/
theorem matchAt_text {part front back : List Char} (h : '<' ∉ part) (hparts : part = front ++ back)
    (hback : back ≠ []) (hover : c.Over back d) : t.matcher.program.matchAt c = none := by
  obtain ⟨z, back, rfl⟩ := List.exists_cons_of_ne_nil hback
  refine matchAt_quiet fun y hy => ?_
  rw [hover.1] at hy
  cases hy
  rintro rfl
  exact h (by simp [hparts])

/-- A comment is matched as a whole. -/
theorem matchAt_comment {body : List Char} (h : ¬ "-->".toList <:+: body)
    (hover : c.Over (Item.comment body).render d) :
    t.matcher.program.matchAt c = some ⟨⟨c.offset, d.offset⟩, []⟩ := by
  have hrest : c.rest = "<!--".toList ++ (body ++ ("-->".toList ++ d.rest)) := by
    simpa [Item.render] using hover.1
  change (Program.ofPattern (.alt commentPattern t.pattern)).matchAt c = _
  rw [Program.matchAt_alt t.proper_choice, commentPattern,
    matchAt_delimited (upTo?_comment h d.rest) hrest hover, Option.some_or]

/-- **The match at a start tag**: there is none if its attributes are not what can be captured, and
otherwise they are captured, perhaps with the slash that ends them. -/
theorem matchAt_tag {name : Name} {inner : List Char} {closing : Bool} {rest : List Char}
    (hinner : IsInside inner) (hreads : t.Reads c.rest)
    (hrest : c.rest = '<' :: (name.chars ++ (inner ++ (slashIf closing ++ '>' :: rest)))) :
    (t.matcher.program.matchAt c = none ∧ inner ∉ t.region.language) ∨
      inner ≠ [] ∧ ∃ d e f inside outside, slashIf closing = slashIf inside ++ slashIf outside ∧
        c.Over ('<' :: name.chars) e ∧ e.Over (inner ++ slashIf inside) f ∧
        f.Over (slashIf outside ++ ['>']) d ∧ t.matcher.program.matchAt c =
          some ⟨⟨c.offset, d.offset⟩, [(1, ⟨e.offset, f.offset⟩)]⟩ := by
  cases hmatch : t.matcher.program.matchAt c with
  | none =>
    refine .inl ⟨rfl, fun hregion => ?_⟩
    obtain ⟨d, new, hmatches⟩ := exists_matches hregion hrest
    exact matchAt_eq_none_iff.mp hmatch d new (.inr hmatches)
  | some m =>
    obtain ⟨d, hmatches, hspan⟩ := Program.matchAt_sound hmatch
    obtain ⟨span, captures⟩ := m
    obtain rfl : span = _ := hspan
    obtain ⟨hsome, e, f, inside, outside, hslash, hstart, hregion, hend, hnew⟩ :=
      exists_of_matches hinner hreads hrest (matches_pattern_of_name hrest hmatches)
    exact .inr ⟨hsome, d, e, f, inside, outside, hslash, hstart, hregion, hend,
      congrArg (fun captures => some (Match.mk _ captures)) hnew⟩

/-! ### Rewriting a document -/

section Rewrites

variable {change : List Char → Option (List Char)} {changed : Bool} {out : List Char}

/-- Text without opening brackets is passed over. -/
theorem rewrites_text {part : List Char} (h : '<' ∉ part) (hover : c.Over part d)
    (later : t.matcher.Rewrites change d changed out) :
    t.matcher.Rewrites change c changed (part ++ out) :=
  .skips hover (fun _ _ _ hparts hback _ hlater => matchAt_text h hparts hback hlater) later

/-- An opening bracket at which nothing is matched is passed over, with what follows it. -/
theorem rewrites_bracket {part : List Char} (h : '<' ∉ part) (hover : c.Over ('<' :: part) d)
    (hnone : t.matcher.program.matchAt c = none)
    (later : t.matcher.Rewrites change d changed out) :
    t.matcher.Rewrites change c changed ('<' :: (part ++ out)) :=
  .skip hover.1 hnone (rewrites_text h hover.of_cons later)

/-- A comment is passed over. -/
theorem rewrites_comment {body : List Char} (h : ¬ "-->".toList <:+: body)
    (hover : c.Over (Item.comment body).render d)
    (later : t.matcher.Rewrites change d changed out) :
    t.matcher.Rewrites change c changed ((Item.comment body).render ++ out) := by
  refine .pass (matchAt_comment h hover) (resumes ⟨_, hover⟩ (hover.offset_lt ?_)) ?_ hover later
  · exact List.cons_ne_nil _ _
  · rw [Matcher.capture?, capture_eq]
    rfl

/-- An end tag is passed over. -/
theorem rewrites_endTag {name : Name} (hover : c.Over (Item.endTag name).render d)
    (later : t.matcher.Rewrites change d changed out) :
    t.matcher.Rewrites change c changed ((Item.endTag name).render ++ out) := by
  have hname : '<' ∉ name.chars := name.notMem_of_delimiter (by decide)
  refine rewrites_bracket (by simp [hname]) hover ?_ later
  refine matchAt_eq_none_iff.mpr fun d' new h => ?_
  obtain ⟨y, rest, hrest, hy⟩ := exists_rest_of_matches h
  obtain ⟨rfl, -⟩ := List.cons.inj (List.cons.inj (hrest.symm.trans hover.1)).2
  rcases hy with hmark | hfirst
  · cases hmark
  · exact absurd (t.of_first _ hfirst).1 (by decide)

/-- **One start tag**: what is captured in it is changed, and the rest stays. -/
theorem rewrites_tag {name : Name} {inner : List Char} {closing : Bool} (hinner : IsInside inner)
    (hbracket : '<' ∉ inner) (hreads : t.Reads c.rest)
    (hover : c.Over ('<' :: (name.chars ++ (inner ++ (slashIf closing ++ ['>'])))) d)
    {mentions : Bool} {renamed : List Char} (hkept : mentions = false → renamed = inner)
    (hmatched : mentions = true → inner ∈ t.region.language)
    (hchanged : inner ≠ [] → ∀ closing, change (inner ++ slashIf closing) =
      if mentions then some (renamed ++ slashIf closing) else none)
    (later : t.matcher.Rewrites change d changed out) :
    t.matcher.Rewrites change c (mentions || changed)
      ('<' :: (name.chars ++ (renamed ++ (slashIf closing ++ ['>']))) ++ out) := by
  have hrest : c.rest = '<' :: (name.chars ++ (inner ++ (slashIf closing ++ '>' :: d.rest))) := by
    simpa using hover.1
  rcases matchAt_tag hinner hreads hrest with ⟨hnone, hregion⟩ |
    ⟨hsome, d', e, f, inside, outside, hslash, hstart, hregion, hend, hmatch⟩
  · have hmentions : mentions = false := by
      rw [← Bool.not_eq_true]
      exact fun h => hregion (hmatched h)
    rw [hkept hmentions, hmentions, Bool.false_or]
    refine rewrites_bracket ?_ hover hnone later
    have hname : '<' ∉ name.chars := name.notMem_of_delimiter (by decide)
    have hslash : '<' ∉ slashIf closing := by
      cases closing <;> decide
    simp [hname, hbracket, hslash]
  · -- the slash that ends the tag is inside or outside of what is captured
    have hall := hstart.trans (hregion.trans hend)
    have hparts : '<' :: (name.chars ++ (inner ++ (slashIf closing ++ ['>']))) =
        '<' :: name.chars ++ (inner ++ slashIf inside ++ (slashIf outside ++ ['>'])) := by
      simp [hslash]
    obtain rfl := hall.unique (hparts ▸ hover)
    have hcapture : t.matcher.capture?
        ⟨⟨c.offset, d'.offset⟩, [(1, ⟨e.offset, f.offset⟩)]⟩ = some ⟨e.offset, f.offset⟩ := by
      rw [Matcher.capture?, capture_eq]
      rfl
    have hhit := Matcher.Rewrites.hit hmatch
      (resumes ⟨_, hall⟩ (hall.offset_lt (List.cons_ne_nil _ _))) hcapture hstart hregion hend later
    rw [hchanged hsome inside] at hhit
    cases mentions with
    | true => simpa [hslash] using hhit
    | false =>
      rw [hkept rfl]
      simpa [hslash] using hhit

end Rewrites

end StartTags

/-- No bracket opens in well-formed attributes. -/
theorem bracket_notMem_attributes {attributes : List Attribute}
    (hwell : ∀ a ∈ attributes, a.WellFormed) : '<' ∉ attributes.flatMap Attribute.render := by
  intro hmem
  obtain ⟨a, ha, hrender⟩ := List.mem_flatMap.mp hmem
  have hname : '<' ∉ a.name.chars := a.name.notMem_of_delimiter (by decide)
  have hvalue : '<' ∉ Value.renderAssigned a.value := by
    cases hvalue : a.value with
    | none => simp [Value.renderAssigned]
    | some v =>
      have hquote : '<' ≠ v.quote.char := by
        cases v.quote <;> decide
      simp [Value.renderAssigned, Value.render, hquote, (hwell a ha v hvalue).2]
  simp [Attribute.render, hname, hvalue] at hrender

/-! ### Renaming attributes -/

/-- What becomes of attributes: which of them change, and how they are then written. -/
structure Renaming where
  mentions : Attribute → Bool
  render : Attribute → List Char
  render_of_not_mentions : ∀ a, mentions a = false → render a = a.render

namespace Renaming

variable (r : Renaming)

/-- Whether a part of a document changes. -/
def changes : Item → Bool
  | .startTag _ attributes _ => attributes.any r.mentions
  | _ => false

/-- A part of a document as it becomes. -/
def renderItem : Item → List Char
  | .startTag name attributes closing =>
    '<' :: (name.chars ++ (attributes.flatMap r.render ++ (slashIf closing ++ ['>'])))
  | item => item.render

variable {r}

theorem flatMap_render_of_not_mentions {attributes : List Attribute}
    (h : attributes.any r.mentions = false) :
    attributes.flatMap r.render = attributes.flatMap Attribute.render := by
  refine List.flatMap_congr fun a ha => ?_
  exact r.render_of_not_mentions a (by simpa using List.any_eq_false.mp h a ha)

/-- A document in which nothing changes is written as it was. -/
theorem flatMap_renderItem_of_not_changes {document : Document}
    (h : document.any r.changes = false) :
    document.flatMap r.renderItem = document.flatMap Item.render := by
  refine List.flatMap_congr fun item hitem => ?_
  have hnot := List.any_eq_false.mp h item hitem
  cases item with
  | startTag name attributes closing =>
    rw [renderItem, flatMap_render_of_not_mentions (by simpa [changes] using hnot), Item.render]
  | text content => rfl
  | comment body => rfl
  | endTag name => rfl

/-- A document whose attributes change is written with its attributes changed. -/
theorem flatMap_renderItem (r : Renaming) {f : Attribute → Attribute}
    (h : ∀ a, r.render a = (f a).render) (document : Document) :
    document.flatMap r.renderItem =
      (document.map (Item.mapAttributes f)).flatMap Item.render := by
  rw [List.flatMap_map]
  refine List.flatMap_congr fun item _ => ?_
  cases item with
  | startTag name attributes closing =>
    rw [renderItem, Item.mapAttributes, Item.render, List.flatMap_map, funext h]
  | text content => rfl
  | comment body => rfl
  | endTag name => rfl

end Renaming

namespace StartTags

variable {t : StartTags} {r : Renaming} {change : List Char → Option (List Char)}
variable {c d : Cursor} {changed : Bool} {out : List Char}

/-- `t.Renames r change`: the attributes of a tag are captured if some of them change, and what is
captured is changed as it should be. -/
structure Renames (t : StartTags) (r : Renaming) (change : List Char → Option (List Char)) :
    Prop where
  reads : ∀ text, t.Reads text
  captured : ∀ {attributes : List Attribute}, (∀ a ∈ attributes, a.WellFormed) →
    attributes.any r.mentions = true → attributes.flatMap Attribute.render ∈ t.region.language
  changed : ∀ {attributes : List Attribute}, (∀ a ∈ attributes, a.WellFormed) →
    attributes ≠ [] → ∀ closing, change (attributes.flatMap Attribute.render ++ slashIf closing) =
      if attributes.any r.mentions then some (attributes.flatMap r.render ++ slashIf closing)
      else none

namespace Renames

/-- **One part of a document.** -/
theorem rewrites_item (h : t.Renames r change) {item : Item} (hwell : item.WellFormed)
    (hover : c.Over item.render d) (later : t.matcher.Rewrites change d changed out) :
    t.matcher.Rewrites change c (r.changes item || changed) (r.renderItem item ++ out) := by
  cases item with
  | text content => exact rewrites_text hwell hover later
  | comment body => exact rewrites_comment hwell hover later
  | startTag name attributes closing =>
    refine rewrites_tag (isInside_attributes hwell) (bracket_notMem_attributes hwell) (h.reads _)
      hover Renaming.flatMap_render_of_not_mentions (h.captured hwell) (fun hsome => ?_) later
    refine h.changed hwell ?_
    rintro rfl
    exact hsome rfl
  | endTag name => exact rewrites_endTag hover later

/-- **A whole document is rewritten part by part.** -/
theorem rewrites_document (h : t.Renames r change) {document : Document}
    (hwell : document.WellFormed) (hc : c.rest = document.flatMap Item.render) :
    t.matcher.Rewrites change c (document.any r.changes) (document.flatMap r.renderItem) := by
  induction document generalizing c with
  | nil =>
    refine .stop hc (matchAt_quiet ?_)
    rw [hc]
    rintro y ⟨⟩
  | cons item document ih =>
    obtain ⟨hitem, hlater⟩ := List.forall_mem_cons.mp hwell
    obtain ⟨d, hover, hd⟩ := Cursor.exists_over (hc.trans List.flatMap_cons)
    rw [List.any_cons, List.flatMap_cons]
    exact h.rewrites_item hitem hover (ih hlater hd)

/-- **A document is renamed**, or there is no new text if nothing changes. -/
theorem changed?_rewrite (h : t.Renames r change) {document : Document}
    (hwell : document.WellFormed) :
    (t.matcher.rewrite change (document.flatMap Item.render)).changed? =
      if document.any r.changes then some (document.flatMap r.renderItem) else none :=
  (h.rewrites_document hwell rfl).changed?_rewrite t.advances

end Renames

end StartTags

/-! ### Renaming tokens in values -/

namespace Markup

variable {names : List Name} {mapping : Mapping}

def valueTags (keys : Pattern) (hlexical : keys.lexical = true) (hproper : keys.proper = true) :
    StartTags where
  first := letters
  region := regionPattern keys
  first_of_letter := fun _ h => h
  of_first := by
    intro y hy
    rw [contains_letters] at hy
    refine ⟨contains_elementChar_of_identifier (by simp [isIdentifierChar, hy]), ?_⟩
    rintro rfl
    cases hy
  lexical := lexical_regionPattern hlexical
  proper := proper_regionPattern hproper

def tags (mapping : Mapping) : StartTags :=
  valueTags mapping.keyPattern mapping.lexical_keyPattern mapping.proper_keyPattern

/-- Attributes with one of some names have the keys among the tokens of their values replaced. -/
def tokenRenaming (names : List Name) (mapping : Mapping) : Renaming where
  mentions := Attribute.mentions names mapping
  render := fun a => (a.rename names mapping).render
  render_of_not_mentions := fun _ h => congrArg _ (Attribute.rename_of_not_mentions h)

/-- Something changes if a token is a key. -/
theorem any_changes (document : Document) :
    document.any (tokenRenaming names mapping).changes = document.mentions names mapping := by
  refine congrArg document.any (funext fun item => ?_)
  cases item <;> rfl

/-- What is written is the renamed document. -/
theorem flatMap_renderItem (document : Document) :
    document.flatMap (tokenRenaming names mapping).renderItem =
      (document.rename names mapping).flatMap Item.render := by
  rw [Document.rename, (tokenRenaming names mapping).flatMap_renderItem fun _ => rfl]

/-- The attributes as they become, if one of them has a key, else nothing. -/
def renameAttributes? (names : List Name) (mapping : Mapping) (region : List Char) :
    Option (List Char) :=
  ((Values.matcher names mapping).rewrite mapping.renameTokens? region).changed?

/-- **Tokens are renamed in tags**: what is captured is changed as it should be. -/
theorem renames (hnames : names ≠ []) (hne : mapping ≠ []) (hkeys : mapping.Identifiers) :
    (tags mapping).Renames (tokenRenaming names mapping) (renameAttributes? names mapping) where
  reads := fun _ _ hpart _ => exists_of_mem_regionPattern hne hkeys hpart
  captured := by
    intro attributes hwell hany
    obtain ⟨a, ha, hmentions⟩ := List.any_eq_true.mp hany
    change a.mentions names mapping = true at hmentions
    rw [Attribute.mentions, Bool.and_eq_true, Option.any_eq_true] at hmentions
    obtain ⟨-, v, hv, hmentioned⟩ := hmentions
    exact attributes_mem_regionPattern hne hkeys hwell
      ⟨a, ha, v, hv, Mapping.exists_infix_of_mentionedIn hmentioned⟩
  changed := by
    intro attributes hwell hsome closing
    rw [renameAttributes?, Values.changed?_rewrite hnames hne hkeys hwell hsome, List.flatMap_map]
    rfl

/-- **The three levels together rename a document**, or yield no text if there is nothing to
rename. -/
theorem changed?_replaceInRegions (hnames : names ≠ []) (hne : mapping ≠ [])
    (hkeys : mapping.Identifiers) {document : Document} (hwell : document.WellFormed) :
    (Matcher.replaceInRegions (Tokens.flanked hne hkeys.words).matcher
      (Lookup.ofMapping mapping true) [(tags mapping).matcher, Values.matcher names mapping]
      (document.flatMap Item.render)).2.changed? =
      if document.mentions names mapping then
        some ((document.rename names mapping).flatMap Item.render)
      else none := by
  have htokens : (fun text => (Matcher.replaceInRegions (Tokens.flanked hne hkeys.words).matcher
      (Lookup.ofMapping mapping true) [] text).2.changed?) = mapping.renameTokens? :=
    funext Tokens.changed?_replaceCaptures
  have hregions : (fun region => (Matcher.replaceInRegions (Tokens.flanked hne hkeys.words).matcher
      (Lookup.ofMapping mapping true) [Values.matcher names mapping] region).2.changed?) =
      renameAttributes? names mapping := by
    funext region
    rw [Matcher.replaceInRegions_eq_rewrite, htokens]
    rfl
  rw [Matcher.replaceInRegions_eq_rewrite, hregions,
    (renames hnames hne hkeys).changed?_rewrite hwell, any_changes, flatMap_renderItem]

end Markup

/-! ### The expression for values -/

section Expression

variable {names : List Name}

theorem filter_names (names : List Name) :
    (names.map Name.toString).filter (fun name => name != "") = names.map Name.toString := by
  refine List.filter_eq_self.mpr fun text htext => ?_
  obtain ⟨name, -, rfl⟩ := List.mem_map.mp htext
  obtain ⟨y, later, hchars⟩ := name.exists_cons
  rw [bne_iff_ne, Name.toString, hchars]
  simp

/-- The written form of some names. -/
theorem names_eq (h : names ≠ []) : Fragment.names (names.map Name.toString) = some (String.ofList
    ("(?:".toList ++ joinBars ((names.map Name.chars).map escape) ++ [')'])) := by
  rw [Fragment.names, filter_names, List.map_map, List.map_map]
  simp only [List.isEmpty_iff, List.map_eq_nil_iff, h, if_false]
  simp [Function.comp_def, Name.toString]

theorem percent_notMem_names : '%' ∉
    "(?:".toList ++ joinBars ((names.map Name.chars).map escape) ++ [')'] := by
  have hjoined : '%' ∉ joinBars ((names.map Name.chars).map escape) := by
    intro hmem
    rcases mem_joinBars hmem with hbar | ⟨text, htext, hmem⟩
    · cases hbar
    · rw [List.map_map] at htext
      obtain ⟨name, -, rfl⟩ := List.mem_map.mp htext
      obtain ⟨y, hy, hescaped⟩ := List.mem_flatMap.mp hmem
      have hpercent : y = '%' := by
        split at hescaped
        · simpa [eq_comm] using hescaped
        · simpa [eq_comm] using hescaped
      exact name.notMem_of_delimiter (by decide) (hpercent ▸ hy)
  rw [List.mem_append, List.mem_append]
  rintro ((hopening | hmem) | hclosing)
  · exact absurd hopening (by decide)
  · exact hjoined hmem
  · exact absurd hclosing (by decide)

theorem keyed_eq (keys : Pattern) : ofBranches (bareUpToKeyPattern keys)
    [quotedKeyPattern keys .single, quotedKeyPattern keys .double] = keyedPattern keys :=
  ofBranches_of_apart rfl

theorem held_eq (keys : Pattern) : ofBranches (bareKeyPattern keys)
    [heldPattern keys .single, heldPattern keys .double] =
      choice (bareKeyPattern keys) [heldPattern keys .single, heldPattern keys .double] :=
  ofBranches_of_apart rfl

set_option maxRecDepth 4000 in
/-- The template for start tags as it is read, whatever fills its slots. -/
theorem readTemplate_valueTags (keys : Flags → Pattern)
    (hlexical : (keys (.initial false)).lexical = true)
    (hproper : (keys (.initial false)).proper = true) :
    ((Reader.start false).readTemplate keys (Fragment.htmlComment ++ "|" ++ valueTag).toList).bind
      Reader.finish = some (choice (Markup.valueTags _ hlexical hproper).pattern
        [commentPattern]) := by
  have hchoice : ofBranches (Markup.valueTags _ hlexical hproper).pattern [commentPattern] =
      choice (Markup.valueTags _ hlexical hproper).pattern [commentPattern] :=
    ofBranches_of_apart rfl
  rw [← hchoice, StartTags.pattern]
  dsimp only [Markup.valueTags]
  rw [regionPattern, ← keyed_eq]
  simp only [Fragment.htmlComment, valueTag, tagStart, tagPart, String.toList_append]
  rfl

/-- The template for start tags, with the keys in its slots. -/
theorem spells?_tags (mapping : Mapping) :
    Template.spells? (Fragment.htmlComment ++ "|" ++ valueTag).toList mapping =
      some (choice (Markup.tags mapping).pattern [commentPattern]) :=
  readTemplate_valueTags (fun flags => .oneOf flags (Lookup.ofMapping mapping true).texts)
    (lexical_oneOf _ _) (proper_oneOf _ _)

set_option maxRecDepth 4000 in
/-- The template for values, with the keys in its slots. -/
theorem spells?_values (names : List Name) (mapping : Mapping) : Template.spells?
    ("(?:^|\\s)(?i:" ++ String.ofList ("(?:".toList ++
      joinBars ((names.map Name.chars).map escape) ++ [')']) ++
      ")\\s*=\\s*(?:\"(?P<main_1>[^\"]*(?:%s)[^\"]*)\"" ++
      "|'(?P<main_2>[^']*(?:%s)[^']*)'|(?P<main_3>%s)(?P<ahead>\\s|/|$))|" ++ anyValue).toList
      mapping = some (valuesPattern names mapping.keyPattern) := by
  have hchoice : ofBranches barePattern [quotedPattern .single, quotedPattern .double,
      attributePattern names mapping.keyPattern] = valuesPattern names mapping.keyPattern :=
    ofBranches_of_apart rfl
  have hfront : (Reader.start false).read "(?:^|\\s)(?i:".toList =
      some (((Reader.start false).read "(?:^|\\s)(?i:".toList).get (by decide)) := by
    simp
  rw [← hchoice, attributePattern, ← held_eq]
  simp only [anyValue, String.toList_append, String.toList_ofList]
  -- the names are read as one item; what stands around them is evaluated
  rw [Template.spells?, List.append_assoc, List.append_assoc, List.append_assoc,
    Reader.readTemplate_append (by decide), hfront, Option.bind_some,
    Reader.readTemplate_oneOf rfl rfl percent_notMem_names]
  rfl

theorem hasSlot_valueTags : hasSlot (Fragment.htmlComment ++ "|" ++ valueTag).toList = true := by
  simp only [Fragment.htmlComment, valueTag, tagStart, tagPart, String.toList_append]
  rfl

def tokenPattern (keys : Pattern) : Pattern :=
  row [Tokens.opening, .group 1 (some "main".toList) (row [keys]),
    .group 2 (some aheadGroup) Tokens.closing]

/-- The expression for the tokens in the values of attributes with one of some names. -/
theorem exists_tokenExpression (hnames : names ≠ []) :
    ∃ e, multiValueAttributes ⟨names.map Name.toString⟩ = .ok [e] ∧
      e.Spells (fun mapping => [choice (Markup.tags mapping).pattern [commentPattern],
        valuesPattern names mapping.keyPattern])
      fun mapping => tokenPattern mapping.keyPattern := by
  unfold multiValueAttributes
  rw [names_eq hnames]
  refine Fragment.exists_narrowed hasSlot_valueTags ?_ rfl spells?_tags (spells?_values names)
    fun _ => rfl
  simp only [anyValue, String.toList_append, String.toList_ofList]
  rw [List.append_assoc, List.append_assoc, List.append_assoc]
  exact hasSlot_append (hasSlot_append rfl)

end Expression

/-- **Identifiers in attribute values are renamed exactly.** In every start tag of a document, the
tokens that are keys are replaced in the values of the attributes with one of the names, up to the
case of ASCII letters. Nothing else changes, and there is no new text if no token is replaced. -/
theorem attribute_tokens_renamed_exactly {names : List Name} {mapping : Mapping}
    {document : Document} (hnames : names ≠ []) (hne : mapping ≠ []) (hkeys : mapping.Identifiers)
    (hwell : document.WellFormed) :
    ∃ e result, multiValueAttributes ⟨names.map Name.toString⟩ = .ok [e] ∧
      (e.replaceAll document.render mapping).outcome = .ok result ∧
      result.isSome = document.mentions names mapping ∧
      result.getD document.render = (document.rename names mapping).render := by
  obtain ⟨e, he, hspells⟩ := exists_tokenExpression hnames
  have hplain : Options.Plain (.multiValueAttributes ⟨names.map Name.toString⟩) := by
    intro text htext
    obtain ⟨name, -, rfl⟩ := List.mem_map.mp htext
    rw [Name.toString, String.toList_ofList]
    exact hasSlot_of_notMem (name.notMem_of_delimiter (by decide))
  have hregular : e.Regular := Grammar.html.expressions_ensures hplain _ he e List.mem_cons_self
  have hreplaced := (hspells.run hregular hne document.render).2
  have hchanged := Markup.changed?_replaceInRegions hnames hne hkeys hwell
  rw [← String.toList_ofList (l := document.flatMap Item.render)] at hchanged
  refine ⟨e, _, he, hreplaced.trans (congrArg (Except.ok ∘ Option.map String.ofList) hchanged), ?_⟩
  cases hmentions : document.mentions names mapping with
  | true => exact ⟨rfl, rfl⟩
  | false =>
    rw [Document.rename_of_not_mentions hmentions]
    exact ⟨rfl, rfl⟩

/-- A document in which tokens are swapped: in the attribute named in capitals, and not in a
comment, another attribute or the text. -/
def swapped : Document :=
  [.comment " class='a' ".toList,
    .startTag paragraph
      [⟨.literal "CLASS" rfl, some ⟨.double, "a b\nab".toList⟩⟩,
        ⟨.literal "id" rfl, some ⟨.single, ">a".toList⟩⟩,
        ⟨.literal "hidden" rfl, none⟩] true,
    .text " class='a'>".toList, .endTag paragraph]

theorem attribute_tokens_renamed_swapped :
    ∃ e, multiValueAttributes ⟨["class"]⟩ = .ok [e] ∧
      (e.replaceAll "<!-- class='a' --><p CLASS=\"a b\nab\" id='>a' hidden/> class='a'></p>"
        [("a", "b"), ("b", "a")]).outcome =
      .ok (some "<!-- class='a' --><p CLASS=\"b a\nab\" id='>a' hidden/> class='a'></p>") := by
  have hkeys : Mapping.Identifiers [("a", "b"), ("b", "a")] := by
    decide
  obtain ⟨e, result, he, hreplaced, hsome, hrenamed⟩ :=
    @attribute_tokens_renamed_exactly [.literal "class" rfl] [("a", "b"), ("b", "a")]
      swapped (by simp) (by simp) hkeys (by decide)
  refine ⟨e, he, ?_⟩
  have hrender : swapped.render =
      "<!-- class='a' --><p CLASS=\"a b\nab\" id='>a' hidden/> class='a'></p>" := by
    decide
  have hmentions : swapped.mentions [.literal "class" rfl] [("a", "b"), ("b", "a")] =
      true := by
    decide
  obtain ⟨text, rfl⟩ := Option.isSome_iff_exists.mp (hsome.trans hmentions)
  rw [← hrender, hreplaced]
  exact congrArg (fun text => Except.ok (some text)) (hrenamed.trans (by decide))

end Relabel.Html
