import Relabel.Proofs.Markup

/-!
# Names of attributes

The expression for the names of attributes ignores case. Its outer pattern captures the attributes
of a start tag if a key is found in them outside of quotation marks. Its inner pattern passes over
values and captures a name that is a key, up to case (`Html.matchAt_name`). What stands behind a
name is only looked at, so the blank in front of the next attribute is still there when the walk
goes on. Both patterns are read with their sets closed under case variants; written plainly they
find the same (`Html.outcome_findAll`, `Html.outcome_replaceAll`).
-/

open scoped Computability

namespace Relabel.Html

open Pattern

/-! ### The patterns -/

/-- Whether a character neither ends the name of an attribute nor stands between attributes. -/
def isWithinName (y : Char) : Bool :=
  !(Unicode.isSpace y || y == '=' || y == '/')

/-- A pattern for names of attributes. -/
structure NameKeys where
  pattern : Pattern
  lexical : pattern.lexical = true
  proper : pattern.proper = true
  nonempty : [] ∉ pattern.language
  within : ∀ part ∈ pattern.language, ∀ y ∈ part, isWithinName y = true ∧ y ≠ '>'

/-- The pattern of attributes among which a key is found. What is not a key is put through
`fold`. -/
def keyRegionPattern (fold : Pattern → Pattern) (keys : Pattern) : Pattern :=
  row [.set .space, .repeated 0 none false (fold tagItem), row [keys], Pattern.star (fold tagItem)]

def keyTagPattern (fold : Pattern → Pattern) (keys : Pattern) : Pattern :=
  row [fold (char '<'), .set (.anyCase letters), fold (Pattern.star (.set elementChar)),
    .group 1 (some "main".toList) (keyRegionPattern fold keys),
    .repeated 0 (some 1) true (fold (char '/')), fold (char '>')]

def nameEnd : Pattern :=
  choice (row [.look .textEnd])
    [row [char '/'], row [.set .space], row [Pattern.star (.set .space), char '=']]

def keyNamePattern (fold : Pattern → Pattern) (keys : Pattern) : Pattern :=
  row [Tokens.opening, .group 1 (some "main".toList) (row [keys]),
    .group 2 (some aheadGroup) (fold nameEnd)]

theorem contains_anyCase_letters {y : Char} (h : (CharSet.anyCase letters).contains y = true) :
    elementChar.contains y = true ∧ y ≠ '!' := by
  rw [CharSet.contains, Bool.or_eq_true, List.any_eq_true] at h
  rcases h with hletter | ⟨d, hd, -⟩
  · refine ⟨contains_elementChar_of_identifier ?_, ?_⟩
    · rw [contains_letters] at hletter
      simp [isIdentifierChar, hletter]
    · rintro rfl
      cases hletter
  · -- what has a case variant is neither white space nor punctuation
    have hcased := (Unicode.isUncased_of_mem_caseVariants hd).1
    have hne : ∀ x, Unicode.isUncased x = true → y ≠ x := by
      rintro x hx rfl
      rw [hcased] at hx
      cases hx
    refine ⟨contains_elementChar.mpr ⟨?_, hne '/' rfl, hne '>' rfl⟩, hne '!' rfl⟩
    rw [← Bool.not_eq_true]
    intro hspace
    exact hne y (Unicode.isUncased_of_isSpace hspace) rfl

/-- Start tags with one of some texts among their attributes. -/
def mentionTags (keys : Pattern) (hlexical : keys.lexical = true) (hproper : keys.proper = true) :
    StartTags where
  first := .anyCase letters
  region := keyRegionPattern id keys
  first_of_letter := by
    intro y hy
    rw [CharSet.contains, contains_letters, hy, Bool.true_or]
  of_first := fun _ => contains_anyCase_letters
  lexical := by
    simp [keyRegionPattern, tagItem, quotedPattern, choice, row, char, Pattern.star,
      Pattern.lexical, hlexical]
  proper := by
    simp [keyRegionPattern, tagItem, quotedPattern, choice, row, char, Pattern.star,
      Pattern.proper, nullable, hproper]

def keyTags (keys : NameKeys) : StartTags :=
  mentionTags keys.pattern keys.lexical keys.proper

/-- Names that are keys; values are passed over. -/
def keyNames (keys : NameKeys) : Flanked where
  passed := [barePattern, quotedPattern .single, quotedPattern .double]
  front := [Tokens.opening]
  main := row [keys.pattern]
  behind := nameEnd
  passed_bare := by
    simp only [List.forall_mem_cons]
    exact ⟨rfl, rfl, rfl, List.forall_mem_nil _⟩
  bare := by
    simp [Tokens.opening, nameEnd, choice, row, nodes, char, Pattern.star,
      nodes_of_lexical keys.lexical]
  passed_nonempty := by
    intro p hp hnil
    simp only [List.mem_cons, List.not_mem_nil, or_false] at hp
    have hpassed : [] ∈ barePattern.language ∨ ∃ q, [] ∈ (quotedPattern q).language := by
      rcases hp with rfl | rfl | rfl
      · exact .inl hnil
      · exact .inr ⟨_, hnil⟩
      · exact .inr ⟨_, hnil⟩
    obtain ⟨y, later, hcons, -⟩ := exists_cons_of_passed hpassed
    cases hcons
  main_nonempty := by
    rw [language_row_singleton]
    exact keys.nonempty
  proper := by
    simp [Tokens.opening, nameEnd, choice, row, Pattern.proper, nullable, char, Pattern.star,
      keys.proper]

section Regions

variable {keys : Pattern} {part : List Char}

/-- What the attributes of a tag with a key among them consist of. -/
theorem mem_language_keyRegionPattern : part ∈ (keyRegionPattern id keys).language ↔
    ∃ x front key back, Unicode.isSpace x = true ∧ front ∈ tagBody ∧ key ∈ keys.language ∧
      back ∈ tagBody ∧ part = x :: (front ++ (key ++ back)) := by
  simp only [keyRegionPattern, id_eq, mem_language_row_cons, language_row_singleton,
    mem_language_set, language_repeated, language_star]
  constructor
  · rintro ⟨_, ⟨x, hx, rfl⟩, _, ⟨front, hfront, _, ⟨key, hkey, back, hback, rfl⟩, rfl⟩, rfl⟩
    exact ⟨x, front, key, back, hx, hfront, hkey, hback, rfl⟩
  · rintro ⟨x, front, key, back, hx, hfront, hkey, hback, rfl⟩
    exact ⟨_, ⟨x, hx, rfl⟩, _, ⟨front, hfront, _, ⟨key, hkey, back, hback, rfl⟩, rfl⟩, rfl⟩

/-- Attributes of which one has a name that is a key. -/
theorem attributes_mem_keyRegionPattern {attributes : List Attribute}
    (hwell : ∀ a ∈ attributes, a.WellFormed)
    (hkey : ∃ a ∈ attributes, a.name.chars ∈ keys.language) :
    attributes.flatMap Attribute.render ∈ (keyRegionPattern id keys).language := by
  obtain ⟨a, ha, hkey⟩ := hkey
  obtain ⟨front, back, rfl⟩ := List.append_of_mem ha
  obtain ⟨hfront, hlater⟩ := List.forall_mem_append.mp hwell
  obtain ⟨hwella, hback⟩ := List.forall_mem_cons.mp hlater
  have hbehind := append_mem_tagBody (assigned_mem_tagBody hwella) (attributes_mem_tagBody hback)
  have hspace : Unicode.isSpace ' ' = true := by decide
  rw [mem_language_keyRegionPattern, List.flatMap_append, List.flatMap_cons]
  cases front with
  | nil =>
    refine ⟨' ', [], a.name.chars, _, hspace, mem_tagBody_of_chars (by simp), hkey, hbehind, ?_⟩
    simp [Attribute.render]
  | cons b front =>
    -- the blank in front of the first attribute is the one that the pattern begins with
    obtain ⟨body, hbody, hfirst⟩ := exists_behind_blank hfront
    have hblank : [' '] ∈ tagBody := mem_tagBody_of_chars (by simp)
    refine ⟨' ', body ++ [' '], a.name.chars, _, hspace, append_mem_tagBody hbody hblank, hkey,
      hbehind, ?_⟩
    rw [hfirst]
    simp [Attribute.render]

end Regions

/-! ### What is matched at a name -/

section Matches

variable {keys : NameKeys} {c d e f : Cursor} {new : Captures}

theorem isWithinName_iff {y : Char} :
    isWithinName y = true ↔ Unicode.isSpace y = false ∧ y ≠ '=' ∧ y ≠ '/' := by
  simp [isWithinName, and_assoc]

theorem isWithinName_eq_false_iff {y : Char} :
    isWithinName y = false ↔ Unicode.isSpace y = true ∨ y = '=' ∨ y = '/' := by
  rw [isWithinName, Bool.not_eq_false', Bool.or_eq_true, Bool.or_eq_true, beq_iff_eq, beq_iff_eq,
    or_assoc]

/-- A name ends where its characters do. -/
theorem exists_matches_nameEnd_iff :
    (∃ d, nameEnd.Matches f d []) ↔ ∀ y ∈ f.rest.head?, isWithinName y = false := by
  constructor
  · rintro ⟨d, hassigned | hspace | hslash | hend⟩ y hy
    · obtain ⟨-, part, hpart, hover⟩ := (matches_iff_mem_language rfl).mp hassigned
      simp only [mem_language_row_cons, language_row_singleton, mem_language_char,
        mem_language_star_space] at hpart
      obtain ⟨gap, hgap, _, rfl, rfl⟩ := hpart
      rw [hover.1] at hy
      cases gap with
      | nil =>
        cases hy
        rfl
      | cons z gap =>
        cases hy
        exact isWithinName_eq_false_iff.mpr (.inl (hgap _ List.mem_cons_self))
    · obtain ⟨_, _, _, ⟨x, rest, hrest, hx, rfl, rfl⟩, ⟨rfl, rfl⟩, -⟩ := hspace
      rw [hrest] at hy
      cases hy
      exact isWithinName_eq_false_iff.mpr (.inl hx)
    · obtain ⟨-, part, hpart, hover⟩ := (matches_iff_mem_language rfl).mp hslash
      rw [language_row_singleton, mem_language_char] at hpart
      subst hpart
      rw [hover.1] at hy
      cases hy
      rfl
    · obtain ⟨_, _, _, ⟨hlook, rfl, rfl⟩, ⟨rfl, rfl⟩, -⟩ := hend
      rw [Look.holds, hy] at hlook
      cases hlook
  · intro h
    cases hrest : f.rest with
    | nil =>
      have hend : Look.textEnd.holds f.before f.rest.head? = true := by
        rw [hrest]
        rfl
      exact ⟨f, .inr (.inr (.inr ⟨f, [], [], ⟨hend, rfl, rfl⟩, ⟨rfl, rfl⟩, rfl⟩))⟩
    | cons x rest =>
      have hover : f.Over [x] (f.advance x rest) := .advance hrest
      refine ⟨f.advance x rest, ?_⟩
      rcases isWithinName_eq_false_iff.mp (h x (by rw [hrest]; rfl)) with hx | rfl | rfl
      · exact .inr (.inl ⟨_, [], [], ⟨x, rest, hrest, hx, rfl, rfl⟩, ⟨rfl, rfl⟩, rfl⟩)
      · refine .inl (matches_of_mem_language rfl ?_ hover)
        rw [mem_language_row_cons, language_row_singleton]
        exact ⟨[], mem_language_star_space.mpr (by simp), ['='], mem_language_char.mpr rfl, rfl⟩
      · refine .inr (.inr (.inl (matches_of_mem_language rfl ?_ hover)))
        rw [language_row_singleton]
        exact mem_language_char.mpr rfl

/-- **What is captured at a name**: the whole name, if it is a key. -/
theorem captured_iff {name tail : List Char} (hrest : c.rest = ' ' :: (name ++ tail))
    (hname : ∀ y ∈ name, isWithinName y = true) (htail : ∀ y ∈ tail.head?, isWithinName y = false) :
    (∃ d, (keyNames keys).Captured c e f d) ↔
      name ∈ keys.pattern.language ∧ c.Over [' '] e ∧ e.Over name f := by
  have hmain : ∀ {e f}, (row [keys.pattern]).Matches e f [] ↔
      ∃ key ∈ keys.pattern.language, e.Over key f := by
    intro e f
    rw [matches_iff_mem_language (lexical_row (by simpa using keys.lexical)),
      language_row_singleton]
    simp
  constructor
  · rintro ⟨d, ⟨_, _, _, hopening, ⟨rfl, rfl⟩, -⟩, hkey, hbehind⟩
    obtain ⟨key, hkey, hover⟩ := hmain.mp hkey
    have hwithin : ∀ y ∈ key, isWithinName y = true := fun y hy => (keys.within key hkey y hy).1
    rcases (Tokens.matches_opening_iff.mp hopening).2 with ⟨-, rfl⟩ | ⟨x, hx, hspace⟩
    · -- a key does not begin with a blank
      cases key with
      | nil => exact absurd hkey keys.nonempty
      | cons y key =>
        obtain ⟨rfl, -⟩ := List.cons.inj (hrest.symm.trans hover.1)
        cases hwithin ' ' List.mem_cons_self
    · obtain ⟨rfl, hlater⟩ := List.cons.inj (hrest.symm.trans hspace.1)
      obtain rfl : name = key := stretch_unique _ hname hwithin htail
        (exists_matches_nameEnd_iff.mp ⟨d, hbehind⟩) (hlater.trans hover.1)
      exact ⟨hkey, hspace, hover⟩
  · rintro ⟨hkey, hblank, hover⟩
    have hf : f.rest = tail := by
      have hsplit := hblank.1
      rw [hover.1, hrest] at hsplit
      simpa using hsplit.symm
    obtain ⟨d, hd⟩ := exists_matches_nameEnd_iff.mpr (hf ▸ htail)
    have hopens : Tokens.Opens c e := .inr ⟨' ', by decide, hblank⟩
    exact ⟨d, ⟨e, [], [], Tokens.matches_opening_iff.mpr ⟨rfl, hopens⟩, ⟨rfl, rfl⟩, rfl⟩,
      hmain.mpr ⟨name, hkey, hover⟩, hd⟩

/-- A match captures a name that is a key, or is a value that is passed over. -/
theorem matches_keyNames (h : (keyNames keys).pattern.Matches c d new) :
    (∃ e f, (keyNames keys).Captured c e f d ∧ new = (Flanked.found c e f d).captures) ∨
      new = [] ∧ ∃ part, c.Over part d ∧
        (part ∈ barePattern.language ∨ ∃ q, part ∈ (quotedPattern q).language) := by
  obtain ⟨branch, hbranch, hmatches⟩ := matches_choice h
  rcases List.mem_cons.mp hbranch with rfl | hpassed
  · exact .inl (Flanked.matches_branch_iff.mp hmatches)
  · obtain ⟨part, hpart, hover⟩ := hmatches.exists_mem_language
    refine .inr ⟨hmatches.eq_nil_of_bare ((keyNames keys).passed_bare _ hpassed), part, hover, ?_⟩
    change branch ∈ [barePattern, quotedPattern .single, quotedPattern .double] at hpassed
    simp only [List.mem_cons, List.not_mem_nil, or_false] at hpassed
    rcases hpassed with rfl | rfl | rfl
    · exact .inl hpart
    · exact .inr ⟨_, hpart⟩
    · exact .inr ⟨_, hpart⟩

/-- The pattern for names can be searched for without marks. -/
theorem proper_keyNames (keys : NameKeys) : (keyNames keys).pattern.proper = true := by
  have hbranch := (keyNames keys).proper_branch
  change (((quotedPattern .double).proper && ((quotedPattern .single).proper &&
    (barePattern.proper && (keyNames keys).branch.proper)))) = true
  rw [hbranch]
  rfl

/-- Values are passed over, so nothing in them is taken for a name. -/
theorem passesValues_keyNames (keys : NameKeys) : PassesValues (keyNames keys).pattern where
  proper := proper_keyNames keys
  quoted := by
    intro c d q part hpart hover
    have h : (quotedPattern q).Matches c d [] := matches_of_mem_language rfl hpart hover
    cases q with
    | double => exact .inl h
    | single => exact .inr (.inl h)
  passed := by
    intro c d new hbefore hrest h
    rcases matches_keyNames h with ⟨e, f, hcaptured, -⟩ | hpassed
    · obtain ⟨_, _, _, hopening, ⟨rfl, rfl⟩, -⟩ := hcaptured.front
      exact absurd (Tokens.matches_opening_iff.mp hopening).2 (not_opens hbefore hrest)
    · exact hpassed
  numbered := by
    change 0 ∉ (keyNames keys).matcher.capture ++ (keyNames keys).matcher.ahead
    rw [Flanked.capture_matcher, Flanked.ahead_matcher]
    decide

/-- **The match at a name**: if it is a key it is captured, else there is no match. -/
theorem matchAt_name (keys : NameKeys) {name tail : List Char}
    (hrest : c.rest = ' ' :: (name ++ tail)) (hname : ∀ y ∈ name, isWithinName y = true)
    (htail : ∀ y ∈ tail.head?, isWithinName y = false) :
    (name ∈ keys.pattern.language ∧ ∃ e f d, c.Over [' '] e ∧ e.Over name f ∧
      (keyNames keys).Captured c e f d ∧
      (keyNames keys).matcher.program.matchAt c = some (Flanked.found c e f d)) ∨
    (name ∉ keys.pattern.language ∧ (keyNames keys).matcher.program.matchAt c = none) := by
  cases hmatch : (keyNames keys).matcher.program.matchAt c with
  | none =>
    refine .inr ⟨fun hkey => ?_, rfl⟩
    obtain ⟨e, hblank, he⟩ := Cursor.exists_over (show c.rest = [' '] ++ _ from hrest)
    obtain ⟨f, hover, -⟩ := Cursor.exists_over he
    obtain ⟨d, hcaptured⟩ := (captured_iff hrest hname htail).mpr ⟨hkey, hblank, hover⟩
    have hbranch := Flanked.matches_branch_iff.mpr ⟨e, f, hcaptured, rfl⟩
    exact (passesValues_keyNames keys).matchAt_eq_none_iff.mp hmatch d _
      (.inr (.inr (.inr hbranch)))
  | some m =>
    obtain ⟨d, hmatches, hspan⟩ := Program.matchAt_sound hmatch
    obtain ⟨span, captures⟩ := m
    obtain rfl : span = _ := hspan
    rcases matches_keyNames hmatches with ⟨e, f, hcaptured, hnew⟩ | ⟨-, part, hover, hvalue⟩
    · obtain ⟨hkey, hblank, hover⟩ := (captured_iff hrest hname htail).mp ⟨d, hcaptured⟩
      exact .inl ⟨hkey, e, f, d, hblank, hover, hcaptured,
        congrArg (fun captures => some (Match.mk _ captures)) hnew⟩
    · exact absurd hvalue (Values.not_passed_of_blank hrest hover)

end Matches

/-! ### Rewriting the names -/

section Rewrites

variable {keys : NameKeys} {change : List Char → Option (List Char)}
variable {c d : Cursor} {changed : Bool} {out : List Char}

/-- A name that is a key is captured and changed. -/
theorem rewrites_key {name : List Char} (hname : ∀ y ∈ name, isWithinName y = true)
    (hkey : name ∈ keys.pattern.language) (hover : c.Over (' ' :: name) d)
    (hd : ∀ y ∈ d.rest.head?, isWithinName y = false)
    (later : (keyNames keys).matcher.Rewrites change d changed out) :
    (keyNames keys).matcher.Rewrites change c ((change name).isSome || changed)
      (' ' :: ((change name).getD name ++ out)) := by
  rcases matchAt_name keys hover.1 hname hd with
    ⟨-, e, f, d', hblank, hpart, hcaptured, hmatch⟩ | ⟨hnot, -⟩
  · obtain rfl : f = d := (hblank.trans hpart).unique hover
    exact .hit hmatch hcaptured.resumes Flanked.capture?_found hblank hpart (.refl f) later
  · exact absurd hkey hnot

/-- A name that is no key is passed over. -/
theorem rewrites_other {name : List Char} (hname : ∀ y ∈ name, isWithinName y = true)
    (hquiet : ∀ y ∈ name, Unicode.isSpace y = false ∧ y ∉ valueStarts)
    (hkey : name ∉ keys.pattern.language) (hover : c.Over (' ' :: name) d)
    (hd : ∀ y ∈ d.rest.head?, isWithinName y = false)
    (later : (keyNames keys).matcher.Rewrites change d changed out) :
    (keyNames keys).matcher.Rewrites change c changed (' ' :: (name ++ out)) := by
  rcases matchAt_name keys hover.1 hname hd with ⟨hmem, -⟩ | ⟨-, hnone⟩
  · exact absurd hmem hkey
  · exact .skip hover.1 hnone ((passesValues_keyNames keys).rewrites_quiet hquiet
      (Option.some_ne_none ' ') hover.of_cons later)

/-- A name has none of the characters that end names. -/
theorem Name.isWithinName_of_mem (name : Name) : ∀ y ∈ name.chars, isWithinName y = true := by
  intro y hy
  obtain ⟨hspace, hdelimiter⟩ := name.of_mem hy
  refine isWithinName_iff.mpr ⟨hspace, ?_, ?_⟩
  all_goals
    rintro rfl
    exact hdelimiter (by decide)

/-- What follows an attribute is no part of a name. -/
theorem not_isWithinName_behind (attributes : List Attribute) (closing : Bool) :
    ∀ y ∈ (attributes.flatMap Attribute.render ++ slashIf closing).head?,
      isWithinName y = false := by
  cases attributes with
  | nil =>
    cases closing with
    | false =>
      rintro y ⟨⟩
    | true =>
      rintro y ⟨rfl⟩
      rfl
  | cons a attributes =>
    rintro y ⟨rfl⟩
    rfl

/-- An attribute with its name changed. -/
def Attribute.renderChanged (change : List Char → Option (List Char)) (a : Attribute) :
    List Char :=
  ' ' :: ((change a.name.chars).getD a.name.chars ++ Value.renderAssigned a.value)

/-- **One attribute.** -/
theorem rewrites_attribute {a : Attribute} (ha : a.WellFormed)
    (hchange : a.name.chars ∉ keys.pattern.language → change a.name.chars = none)
    (hover : c.Over a.render d) (hd : ∀ y ∈ d.rest.head?, isWithinName y = false)
    (later : (keyNames keys).matcher.Rewrites change d changed out) :
    (keyNames keys).matcher.Rewrites change c ((change a.name.chars).isSome || changed)
      (a.renderChanged change ++ out) := by
  obtain ⟨e, hname, hvalue⟩ := Cursor.Over.split
    (show c.Over ((' ' :: a.name.chars) ++ _) d from hover)
  have hbefore : e.before ≠ none := by
    rw [hname.2.2, List.getLast?_cons]
    simp
  have he : ∀ y ∈ e.rest.head?, isWithinName y = false := by
    rw [hvalue.1]
    cases a.value with
    | none => exact hd
    | some v =>
      rintro y ⟨rfl⟩
      rfl
  have hassigned := (passesValues_keyNames keys).rewrites_assigned ha hbefore hvalue later
  rw [Attribute.renderChanged, List.cons_append, List.append_assoc]
  by_cases hkey : a.name.chars ∈ keys.pattern.language
  · exact rewrites_key a.name.isWithinName_of_mem hkey hname he hassigned
  · rw [hchange hkey]
    exact rewrites_other a.name.isWithinName_of_mem a.name.quiet hkey hname he hassigned

/-- **The names of all attributes of a tag are rewritten**, up to the slash that may end it. -/
theorem rewrites_attributes {attributes : List Attribute}
    (hwell : ∀ a ∈ attributes, a.WellFormed) (hchange : ∀ a ∈ attributes,
      a.name.chars ∉ keys.pattern.language → change a.name.chars = none) {closing : Bool}
    (hbefore : attributes = [] → c.before ≠ none)
    (hc : c.rest = attributes.flatMap Attribute.render ++ slashIf closing) :
    (keyNames keys).matcher.Rewrites change c
      (attributes.any fun a => (change a.name.chars).isSome)
      (attributes.flatMap (Attribute.renderChanged change) ++ slashIf closing) := by
  induction attributes generalizing c with
  | nil => exact (passesValues_keyNames keys).rewrites_slash (hbefore rfl) hc
  | cons a attributes ih =>
    obtain ⟨ha, hwell⟩ := List.forall_mem_cons.mp hwell
    obtain ⟨hfirst, hchange⟩ := List.forall_mem_cons.mp hchange
    rw [List.flatMap_cons, List.append_assoc] at hc
    obtain ⟨d, hover, hd⟩ := Cursor.exists_over hc
    have hnext : d.before ≠ none := by
      rw [hover.2.2, Attribute.render, List.getLast?_cons]
      simp
    rw [List.any_cons, List.flatMap_cons, List.append_assoc]
    refine rewrites_attribute ha hfirst hover ?_ (ih hwell hchange (fun _ => hnext) hd)
    rw [hd]
    exact not_isWithinName_behind attributes closing

/-- **The names of a tag are renamed**, up to the slash that may end it. -/
theorem changed?_rewrite_names {attributes : List Attribute}
    (hwell : ∀ a ∈ attributes, a.WellFormed) (hsome : attributes ≠ []) (hchange : ∀ a ∈ attributes,
      a.name.chars ∉ keys.pattern.language → change a.name.chars = none) (closing : Bool) :
    ((keyNames keys).matcher.rewrite change
        (attributes.flatMap Attribute.render ++ slashIf closing)).changed? =
      if attributes.any fun a => (change a.name.chars).isSome then
        some (attributes.flatMap (Attribute.renderChanged change) ++ slashIf closing)
      else none :=
  (rewrites_attributes hwell hchange (fun h => absurd h hsome) rfl).changed?_rewrite
    (Flanked.advances _)

end Rewrites

/-! ### Keys of a mapping, up to case -/

section Keys

variable {mapping : Mapping} {part : List Char}

def foldedKeyPattern (mapping : Mapping) : Pattern :=
  .oneOf (.initial true) (Lookup.ofMapping mapping false).texts

/-- Keys are matched up to case. -/
theorem mem_language_foldedKeyPattern (hne : mapping ≠ []) :
    part ∈ (foldedKeyPattern mapping).language ↔
      ∃ entry ∈ mapping, Unicode.sameFoldText part entry.1.toList = true := by
  have htexts : (Lookup.ofMapping mapping false).texts ≠ [] := by
    simpa [Lookup.texts, Lookup.ofMapping, ← List.length_eq_zero_iff] using hne
  rw [foldedKeyPattern, mem_language_oneOf htexts]
  simp only [Lookup.texts, List.mem_reverse, List.mem_map, exists_exists_and_eq_and,
    Lookup.mem_keys, writtenAs, Flags.ignoreCase_initial, if_true]

/-- The keys of a mapping can be names of attributes. -/
def Nameable (mapping : Mapping) : Prop :=
  ∀ entry ∈ mapping, entry.1 ≠ "" ∧ ∀ y ∈ entry.1.toList, isWithinName y = true ∧ y ≠ '>'

theorem isUncased_of_not_isWithinName {y : Char} (h : isWithinName y = false) :
    Unicode.isUncased y = true := by
  rcases isWithinName_eq_false_iff.mp h with hspace | rfl | rfl
  · exact Unicode.isUncased_of_isSpace hspace
  · rfl
  · rfl

def keysOf (hne : mapping ≠ []) (hkeys : Nameable mapping) : NameKeys where
  pattern := (foldedKeyPattern mapping).plain
  lexical := (lexical_plain _).trans (lexical_oneOf _ _)
  proper := (proper_plain _).trans (proper_oneOf _ _)
  nonempty := by
    rw [language_plain, mem_language_foldedKeyPattern hne]
    rintro ⟨⟨key, value⟩, hentry, hsame⟩
    obtain ⟨hempty, -⟩ := hkeys _ hentry
    cases hchars : key.toList with
    | nil => exact hempty (String.toList_eq_nil_iff.mp hchars)
    | cons y later =>
      rw [hchars] at hsame
      cases hsame
  within := by
    intro part hpart y hy
    rw [language_plain, mem_language_foldedKeyPattern hne] at hpart
    obtain ⟨entry, hentry, hsame⟩ := hpart
    obtain ⟨z, hz, hfold⟩ := exists_sameFold hsame hy
    obtain ⟨hwithin, hbracket⟩ := (hkeys entry hentry).2 z hz
    -- what ends a name or a tag has no case, so the key would have it in it too
    constructor
    · rw [← Bool.not_eq_false]
      intro hends
      obtain rfl := Unicode.eq_of_sameFold hfold (.inl (isUncased_of_not_isWithinName hends))
      rw [hwithin] at hends
      cases hends
    · rintro rfl
      exact hbracket (Unicode.eq_of_sameFold hfold (.inl rfl)).symm

/-- As a pattern for names, keys are matched up to case. -/
theorem mem_language_keysOf {hne : mapping ≠ []} {hkeys : Nameable mapping} :
    part ∈ (keysOf hne hkeys).pattern.language ↔
      ∃ entry ∈ mapping, Unicode.sameFoldText part entry.1.toList = true := by
  rw [keysOf, language_plain, mem_language_foldedKeyPattern hne]

/-- What becomes of a captured name. -/
def resolved (mapping : Mapping) (part : List Char) : Option (List Char) :=
  ((Lookup.ofMapping mapping false).get? part).map String.toList

/-- What a name resolves to is the value of a key that it stands for. -/
theorem exists_mem_of_get? {value : String}
    (h : (Lookup.ofMapping mapping false).get? part = some value) :
    ∃ key, (key, value) ∈ mapping ∧ Lookup.standsFor false part key.toList = true := by
  obtain ⟨key, hlookup, hstands⟩ := Lookup.get?_eq_some h
  obtain ⟨before, behind, rfl, -⟩ := List.lookup_eq_some_iff.mp hlookup
  exact ⟨key, by simp, hstands⟩

end Keys

/-! ### The expression for names -/

section Expression

theorem hasSlot_tags : hasSlot (Fragment.htmlComment ++ "|" ++ startTag).toList = true := by
  simp only [Fragment.htmlComment, startTag, tagStart, tagPart, String.toList_append]
  rfl

theorem hasSlot_names : hasSlot attributeName.toList = true := by
  simp only [attributeName, anyValue, String.toList_append]
  rfl

def nameExpression : Expression :=
  ⟨.nested ⟨Fragment.htmlComment ++ "|" ++ startTag, hasSlot_tags⟩ []
    ⟨attributeName, hasSlot_names⟩, Fragment.group, false⟩

/-- The intent for names of attributes has one expression. -/
theorem attributes_eq : attributes = .ok [nameExpression] := by
  rw [attributes, Fragment.nested, Template.ofString_of_hasSlot hasSlot_tags,
    Template.ofString_of_hasSlot hasSlot_names]
  rfl

def foldedTags (keys : Pattern) : Pattern :=
  choice (keyTagPattern ignoringCase keys) [commentPattern.ignoringCase]

def foldedNames (keys : Pattern) : Pattern :=
  choice (keyNamePattern ignoringCase keys)
    ([barePattern, quotedPattern .single, quotedPattern .double].map ignoringCase)

set_option maxRecDepth 8000 in
/-- The outer template as it is read, whatever fills its slots. -/
theorem readTemplate_tags (keys : Flags → Pattern) :
    ((Reader.start true).readTemplate keys (Fragment.htmlComment ++ "|" ++ startTag).toList).bind
      Reader.finish = some (foldedTags (keys (.initial true))) := by
  rw [foldedTags, ← ofBranches_of_apart rfl]
  simp only [Fragment.htmlComment, startTag, tagStart, tagPart, String.toList_append]
  rfl

set_option maxRecDepth 8000 in
/-- The inner template as it is read, whatever fills its slots. -/
theorem readTemplate_names (keys : Flags → Pattern) :
    ((Reader.start true).readTemplate keys attributeName.toList).bind Reader.finish =
      some (foldedNames (keys (.initial true))) := by
  rw [foldedNames, ← ofBranches_of_apart rfl]
  simp only [attributeName, anyValue, String.toList_append]
  rfl

variable {keys : NameKeys} {p : Pattern}

/-- Written plainly, the outer pattern is that of tags with keys, or of comments. -/
theorem plain_foldedTags (hp : p.plain = keys.pattern) :
    (foldedTags p).plain = choice (keyTags keys).pattern [commentPattern] := by
  change choice (keyTagPattern id p.plain) [commentPattern] =
    choice (keyTagPattern id keys.pattern) [commentPattern]
  rw [hp]

/-- Written plainly, the inner pattern is that of names that are keys. -/
theorem plain_foldedNames (hp : p.plain = keys.pattern) :
    (foldedNames p).plain = (keyNames keys).pattern := by
  change choice (keyNamePattern id p.plain) (keyNames keys).passed =
    choice (keyNamePattern id keys.pattern) (keyNames keys).passed
  rw [hp]

theorem proper_foldedTags (hp : p.plain = keys.pattern) : (foldedTags p).proper = true := by
  rw [← proper_plain, plain_foldedTags hp, StartTags.proper_choice]

theorem proper_foldedNames (hp : p.plain = keys.pattern) : (foldedNames p).proper = true := by
  rw [← proper_plain, plain_foldedNames hp, proper_keyNames]

/-- **What the expression finds** for a pattern of names. -/
theorem outcome_findAll {pattern : String} (hp : p.plain = keys.pattern)
    (htags : Template.pattern ⟨_, hasSlot_tags⟩ pattern.toList false = .ok (foldedTags p))
    (hnames : Template.pattern ⟨_, hasSlot_names⟩ pattern.toList false = .ok (foldedNames p))
    (text : String) : (nameExpression.findAll text pattern).outcome =
      .ok ((((keyTags keys).matcher.captured text.toList).flatMap
        (keyNames keys).matcher.captured).map fun part =>
          String.ofList (Unicode.lowercase part)) := by
  have houter := Matcher.captured_plain Fragment.group.toList (proper_foldedTags hp)
  have hinner := Matcher.captured_plain Fragment.group.toList (proper_foldedNames hp)
  rw [plain_foldedTags hp] at houter
  rw [plain_foldedNames hp] at hinner
  have hregions : Matcher.regions ([foldedTags p].map (.ofPattern Fragment.group.toList))
      text.toList = (keyTags keys).matcher.captured text.toList := by
    rw [List.map_cons, List.map_nil, Matcher.regions, ← houter]
    exact List.flatMap_singleton' _
  rw [nameExpression, Expression.findAll_nested text (.cons htags .nil) hnames, hregions, ← hinner]
  rfl

/-- **What the expression replaces**: names in the attributes of start tags. -/
theorem outcome_replaceAll {mapping : Mapping} (hne : mapping ≠ []) (hkeys : Nameable mapping)
    (text : String) : (nameExpression.replaceAll text mapping).outcome =
      .ok (((keyTags (keysOf hne hkeys)).matcher.rewrite (fun region =>
        ((keyNames (keysOf hne hkeys)).matcher.rewrite (resolved mapping) region).changed?)
          text.toList).changed?.map String.ofList) := by
  have hp : (foldedKeyPattern mapping).plain = (keysOf hne hkeys).pattern := rfl
  have houter := Matcher.rewrite_plain Fragment.group.toList (proper_foldedTags hp)
  have hinner := Matcher.rewrite_plain Fragment.group.toList (proper_foldedNames hp)
  rw [plain_foldedTags hp] at houter
  rw [plain_foldedNames hp] at hinner
  have htags : Template.pattern ⟨_, hasSlot_tags⟩ (Lookup.ofMapping mapping false).pattern false =
      .ok (foldedTags (foldedKeyPattern mapping)) :=
    Template.pattern_of_readTemplate (readTemplate_tags _)
  have hnames : Template.pattern ⟨_, hasSlot_names⟩ (Lookup.ofMapping mapping false).pattern
      false = .ok (foldedNames (foldedKeyPattern mapping)) :=
    Template.pattern_of_readTemplate (readTemplate_names _)
  have hregion : (fun region => (Matcher.replaceInRegions (.ofPattern Fragment.group.toList
      (foldedNames (foldedKeyPattern mapping))) (Lookup.ofMapping mapping false) []
        region).2.changed?) = fun region => ((keyNames (keysOf hne hkeys)).matcher.rewrite
          (resolved mapping) region).changed? := by
    funext region
    refine congrArg Spliced.changed? ((Matcher.replaceCaptures_eq_rewrite _ _ _).trans ?_)
    rw [← hinner]
    rfl
  rw [nameExpression, Expression.replaceAll_nested text hne (.cons htags .nil) hnames,
    List.map_cons, List.map_nil, Matcher.replaceInRegions_eq_rewrite, hregion, ← houter]
  rfl

end Expression

end Relabel.Html
