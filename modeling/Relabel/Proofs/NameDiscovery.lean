import Relabel.Proofs.AttributeNames
import Relabel.Proofs.LowercaseForms

/-!
# Names that are found

The names of attributes are found with a pattern that takes every name (`Html.anyNamePattern`), and
are reported in lower case. They may have characters of any script. A mapping for what is reported
replaces the name if the name is equal to it up to case, so finding and replacing fit together
unless the name has a character that is not equal to its lowercase form
(`Html.found_name_renamed_unless_unfolded`).
-/

namespace Relabel.Html

open Pattern

/-! ### Names in any script -/

/-- Whether a character can stand in a name in any script: neither white space nor a delimiter. -/
def isWideNameChar (y : Char) : Bool :=
  !(Unicode.isSpace y || ['"', '\'', '\x60', '=', '<', '>', '/'].contains y)

/-- A name of an attribute, in any script. -/
structure WideName where
  chars : List Char
  nonempty : chars.isEmpty = false
  valid : ∀ y ∈ chars, isWideNameChar y = true

namespace WideName

variable (name : WideName)

def toString : String :=
  String.ofList name.chars

def lower : String :=
  String.ofList (Unicode.lowercase name.chars)

/-- A name has neither white space nor delimiters in it. -/
theorem of_mem : ∀ y ∈ name.chars,
    Unicode.isSpace y = false ∧ y ∉ ['"', '\'', '\x60', '=', '<', '>', '/'] := by
  intro y hy
  have hvalid := name.valid y hy
  rwa [isWideNameChar, Bool.not_eq_true', Bool.or_eq_false_iff, List.contains_eq_mem,
    decide_eq_false_iff_not] at hvalid

theorem isWithinName_of_mem : ∀ y ∈ name.chars, isWithinName y = true ∧ y ≠ '>' := by
  intro y hy
  obtain ⟨hspace, hdelimiter⟩ := name.of_mem y hy
  refine ⟨isWithinName_iff.mpr ⟨hspace, ?_, ?_⟩, ?_⟩
  all_goals
    rintro rfl
    exact hdelimiter (by decide)

theorem quiet : ∀ y ∈ name.chars, Unicode.isSpace y = false ∧ y ∉ valueStarts := by
  intro y hy
  refine (name.of_mem y hy).imp_right fun hdelimiter hstart => ?_
  simp only [valueStarts, List.mem_cons, List.not_mem_nil, or_false] at hstart
  rcases hstart with rfl | rfl | rfl
  all_goals exact hdelimiter (by decide)

theorem ne_nil : name.chars ≠ [] :=
  List.isEmpty_eq_false_iff.mp name.nonempty

theorem lowercase_ne_nil : Unicode.lowercase name.chars ≠ [] := by
  intro hnil
  have hlength := Unicode.length_le_lowercaseAfter name.chars []
  rw [← Unicode.lowercase, hnil] at hlength
  exact name.ne_nil (List.length_eq_zero_iff.mp (Nat.le_zero.mp hlength))

/-- The lowercase form of a name can be a name. -/
theorem nameable_lower (value : String) : Nameable [(name.lower, value)] := by
  intro entry hentry
  obtain rfl := List.mem_singleton.mp hentry
  rw [lower, String.toList_ofList]
  refine ⟨fun hempty => ?_, fun y hy => ⟨?_, ?_⟩⟩
  · have hchars := congrArg String.toList hempty
    rw [String.toList_ofList] at hchars
    exact name.lowercase_ne_nil hchars
  · rw [← Bool.not_eq_false]
    intro hends
    have hmem := Unicode.mem_of_mem_lowercaseAfter (isUncased_of_not_isWithinName hends) hy
    rw [(name.isWithinName_of_mem y hmem).1] at hends
    cases hends
  · rintro rfl
    exact (name.isWithinName_of_mem '>' (Unicode.mem_of_mem_lowercaseAfter rfl hy)).2 rfl

end WideName

def nameChar : CharSet :=
  .compl (['=', '/', '>'].foldl (fun s c => s.union (.single c)) .space)

def anyNamePattern : Pattern :=
  row [.repeated 1 none true (.set nameChar)]

/-- The pattern that finds all names matches every text that could be one. -/
theorem mem_language_anyNamePattern {part : List Char} : part ∈ anyNamePattern.language ↔
    part ≠ [] ∧ ∀ y ∈ part, isWithinName y = true ∧ y ≠ '>' := by
  have hcontains : ∀ y, nameChar.contains y = true ↔ isWithinName y = true ∧ y ≠ '>' := by
    intro y
    simp [nameChar, CharSet.contains, CharSet.contains_single, isWithinName]
  rw [anyNamePattern, language_row_singleton, mem_language_atLeast_set, Nat.one_le_iff_ne_zero,
    ne_eq, List.length_eq_zero_iff]
  simp only [hcontains]

def anyName : NameKeys where
  pattern := anyNamePattern
  lexical := rfl
  proper := rfl
  nonempty := fun h => (mem_language_anyNamePattern.mp h).1 rfl
  within := fun _ h => (mem_language_anyNamePattern.mp h).2

/-- The pattern that finds all names, as it is read under some settings. -/
def anyNameUnder (flags : Flags) : Pattern :=
  row [.repeated 1 none (true != flags.swapGreed)
    (.set (if flags.ignoreCase then nameChar.ignoringCase else nameChar))]

/-- In a group, the pattern is read into one item. -/
theorem read_anyName (r : Reader) (hmode : r.mode = .item) (hsets : r.sets = [])
    (hblanks : r.level.flags.ignoreBlanks = false) :
    r.read ("(?:".toList ++ "[^\\s=/>]+".toList ++ [')']) =
      some (r.push (anyNameUnder r.level.flags)) := by
  obtain ⟨outer, ⟨kind, ⟨ignoreCase, dotAll, multiLine, ignoreBlanks, swapGreed, returns⟩, branches,
    items, repeatable⟩, sets, mode, count, names⟩ := r
  cases hmode
  cases hsets
  cases hblanks
  cases ignoreCase with
  | false => rfl
  | true => rfl

/-- The outer template, with the pattern in its slots. -/
theorem pattern_tags_anyName : Template.pattern ⟨_, hasSlot_tags⟩ "[^\\s=/>]+".toList false =
    .ok (foldedTags anyNamePattern.ignoringCase) :=
  Template.pattern_of_read read_anyName (readTemplate_tags anyNameUnder)

/-- The inner template, with the pattern in its slots. -/
theorem pattern_names_anyName : Template.pattern ⟨_, hasSlot_names⟩ "[^\\s=/>]+".toList false =
    .ok (foldedNames anyNamePattern.ignoringCase) :=
  Template.pattern_of_read read_anyName (readTemplate_names anyNameUnder)

/-! ### A tag with one name -/

section Tag

variable {keys : NameKeys} {name : WideName}

def WideName.tag (name : WideName) : List Char :=
  '<' :: (paragraph.chars ++ (' ' :: name.chars ++ (slashIf false ++ ['>'])))

theorem WideName.ne_quotes {y : Char} (hy : y ∈ name.chars) : y ≠ '>' ∧ y ≠ '"' ∧ y ≠ '\'' := by
  obtain ⟨-, hdelimiter⟩ := name.of_mem y hy
  refine ⟨?_, ?_, ?_⟩
  all_goals
    rintro rfl
    exact hdelimiter (by decide)

theorem isInside_name (name : WideName) : IsInside (' ' :: name.chars) := by
  constructor
  · exact .inr ⟨name.chars, mem_tagBody_of_chars fun _ => WideName.ne_quotes, rfl⟩
  · intro hlast
    rcases List.mem_cons.mp (List.mem_of_getLast? hlast) with hblank | hmem
    · cases hblank
    · exact (name.of_mem '/' hmem).2 (by decide)

/-- There are no quotation marks in the tag, so it is read character by character. -/
theorem reads_tag (keys : NameKeys) (name : WideName) : (keyTags keys).Reads name.tag := by
  intro part hpart hinfix
  obtain ⟨x, front, key, back, hx, hfront, hkey, hback, rfl⟩ :=
    mem_language_keyRegionPattern.mp hpart
  refine ⟨x, _, rfl, hx, append_mem_tagBody hfront (append_mem_tagBody ?_ hback)⟩
  refine mem_tagBody_of_chars fun y hy => ⟨(keys.within key hkey y hy).2, ?_⟩
  have hmem : y ∈ name.tag := hinfix.subset (by simp [hy])
  simp only [WideName.tag, List.mem_cons, List.mem_append] at hmem
  rcases hmem with rfl | hp | (rfl | hname) | hslash | rfl | hnil
  · decide
  · obtain rfl := List.mem_singleton.mp hp
    decide
  · decide
  · exact (WideName.ne_quotes hname).2
  · cases hslash
  · decide
  · cases hnil

/-- The name stands among what is captured in the tag. -/
theorem name_mem_region (hkey : name.chars ∈ keys.pattern.language) :
    ' ' :: name.chars ∈ (keyTags keys).region.language :=
  mem_language_keyRegionPattern.mpr ⟨' ', [], name.chars, [], rfl, mem_tagBody_of_chars (by simp),
    hkey, mem_tagBody_of_chars (by simp), by simp⟩

/-- The attributes of the tag are captured if the name is a key. -/
theorem captured_tag (hkey : name.chars ∈ keys.pattern.language) :
    (keyTags keys).matcher.captured name.tag = [' ' :: name.chars] := by
  rcases StartTags.matchAt_tag (t := keyTags keys) (c := .start name.tag) (isInside_name name)
      (reads_tag keys name) rfl with ⟨-, hregion⟩ |
      ⟨-, d, e, f, inside, outside, hslash, hstart, hregion, hend, hmatch⟩
  · exact absurd (name_mem_region hkey) hregion
  · obtain ⟨hinside, houtside⟩ := List.append_eq_nil_iff.mp hslash.symm
    rw [hinside, List.append_nil] at hregion
    rw [houtside, List.nil_append] at hend
    have hall := hstart.trans (hregion.trans hend)
    have hd : d.rest = [] := by
      simpa [WideName.tag, Cursor.start, slashIf] using hall.1
    refine (StartTags.advances _).captured_of_last hmatch
      (StartTags.resumes ⟨_, hall⟩ (hall.offset_lt (List.cons_ne_nil _ _))) hd
      (StartTags.matchAt_quiet (by simp [hd])) ?_ hstart hregion
    rw [Matcher.capture?, StartTags.capture_eq]
    rfl

/-- The name is captured if it is a key. -/
theorem captured_name (hkey : name.chars ∈ keys.pattern.language) :
    (keyNames keys).matcher.captured (' ' :: name.chars) = [name.chars] := by
  have hrest : (Cursor.start (' ' :: name.chars)).rest = ' ' :: (name.chars ++ []) := by
    simp [Cursor.start]
  rcases matchAt_name keys hrest (fun y hy => (name.isWithinName_of_mem y hy).1) (by simp) with
      ⟨-, e, f, d, hblank, hpart, hcaptured, hmatch⟩ | ⟨hnot, -⟩
  · have hall := hblank.trans hpart
    have hf : f.rest = [] := by
      simpa [Cursor.start] using hall.1
    have hbefore : f.before ≠ none := by
      rw [hall.2.2]
      simp
    exact (Flanked.advances _).captured_of_last hmatch hcaptured.resumes hf
      ((passesValues_keyNames keys).matchAt_quiet hbefore (by simp [hf])) Flanked.capture?_found
      hblank hpart
  · exact absurd hkey hnot

section Rewrites

variable {change : List Char → Option (List Char)} {value : List Char} {mentions : Bool}

/-- The name is changed if it is a key, also in front of a slash. -/
theorem changed?_rewrite_name (hmentions : mentions = true ↔ name.chars ∈ keys.pattern.language)
    (hchange : mentions = true → change name.chars = some value) (closing : Bool) :
    ((keyNames keys).matcher.rewrite change (' ' :: name.chars ++ slashIf closing)).changed? =
      if mentions then some (' ' :: value ++ slashIf closing) else none := by
  have hwithin : ∀ y ∈ name.chars, isWithinName y = true :=
    fun y hy => (name.isWithinName_of_mem y hy).1
  obtain ⟨d, hover, hd⟩ :=
    Cursor.exists_over (c := (.start (' ' :: name.chars ++ slashIf closing))) rfl
  have hbefore : d.before ≠ none := by
    rw [hover.2.2]
    simp
  have hhead : ∀ y ∈ d.rest.head?, isWithinName y = false := by
    rw [hd]
    exact not_isWithinName_behind [] closing
  have hslash : (keyNames keys).matcher.Rewrites change d false (slashIf closing) :=
    (passesValues_keyNames keys).rewrites_slash hbefore hd
  cases hcase : mentions with
  | false =>
    have hkey : name.chars ∉ keys.pattern.language := by
      rw [← hmentions, hcase]
      exact Bool.false_ne_true
    exact (rewrites_other hwithin name.quiet hkey hover hhead hslash).changed?_rewrite
      (Flanked.advances _)
  | true =>
    have hkey := rewrites_key hwithin (hmentions.mp hcase) hover hhead hslash
    rw [hchange hcase] at hkey
    exact hkey.changed?_rewrite (Flanked.advances _)

/-- **What becomes of the tag.** -/
theorem changed?_rewrite_tag (hmentions : mentions = true ↔ name.chars ∈ keys.pattern.language)
    (hchange : mentions = true → change name.chars = some value) :
    ((keyTags keys).matcher.rewrite (fun region =>
        ((keyNames keys).matcher.rewrite change region).changed?) name.tag).changed? =
      if mentions then some ("<p ".toList ++ value ++ ['>']) else none := by
  have hstart : (Cursor.start name.tag).rest = name.tag ++ [] := by simp [Cursor.start]
  obtain ⟨d, hover, hd⟩ := Cursor.exists_over hstart
  have hbracket : '<' ∉ ' ' :: name.chars := by
    rintro (_ | ⟨_, hmem⟩)
    exact (name.of_mem '<' hmem).2 (by decide)
  have hinner : ∀ closing, ((keyNames keys).matcher.rewrite change
      (' ' :: name.chars ++ slashIf closing)).changed? = if mentions then
        some ((' ' :: if mentions then value else name.chars) ++ slashIf closing) else none := by
    intro closing
    rw [changed?_rewrite_name hmentions hchange]
    cases mentions with
    | false => rfl
    | true => rfl
  have hwhole : (keyTags keys).matcher.Rewrites (fun region =>
      ((keyNames keys).matcher.rewrite change region).changed?) (.start name.tag)
        (mentions || false) ('<' :: (paragraph.chars ++ ((' ' :: if mentions then value
          else name.chars) ++ (slashIf false ++ ['>']))) ++ []) := by
    refine StartTags.rewrites_tag (isInside_name name) hbracket (reads_tag keys name) hover ?_
      (fun h => name_mem_region (hmentions.mp h)) (fun _ => hinner)
      (.stop hd (StartTags.matchAt_quiet (by simp [hd])))
    intro hkept
    rw [hkept]
    rfl
  rw [hwhole.changed?_rewrite (StartTags.advances _), Bool.or_false]
  cases mentions with
  | false => rfl
  | true => simp [chars_paragraph, slashIf]

end Rewrites

end Tag

/-! ### Finding names and replacing what is found -/

section Found

variable (name : WideName)

theorem WideName.toList_text : ("<p " ++ name.toString ++ ">").toList = name.tag := by
  simp [WideName.toString, WideName.tag, chars_paragraph, slashIf]

/-- The name is found, in lower case. -/
theorem outcome_findAll_name :
    (nameExpression.findAll ("<p " ++ name.toString ++ ">") "[^\\s=/>]+").outcome =
      .ok [name.lower] := by
  have hkey : name.chars ∈ anyName.pattern.language :=
    mem_language_anyNamePattern.mpr ⟨name.ne_nil, name.isWithinName_of_mem⟩
  have hplain : anyNamePattern.ignoringCase.plain = anyName.pattern := rfl
  rw [outcome_findAll hplain pattern_tags_anyName pattern_names_anyName,
    name.toList_text, captured_tag hkey, List.flatMap_singleton, captured_name hkey]
  rfl

/-- What is found stands for the name, unless it is not equal to it up to case. -/
theorem resolved_lower {value : String} (h : name.chars.any Unicode.isUnfolded = false) :
    resolved [(name.lower, value)] name.chars = some value.toList := by
  have hwritten : writtenAs (!false) name.chars name.lower.toList = true := by
    rw [WideName.lower, String.toList_ofList]
    exact Unicode.sameFoldText_lowercase_iff.mpr h
  have hsome : ((Lookup.ofMapping [(name.lower, value)] false).get? name.chars).isSome = true :=
    Lookup.get?_isSome (by simp) hwritten
  obtain ⟨found, hget⟩ := Option.isSome_iff_exists.mp hsome
  obtain ⟨key, hmem, -⟩ := exists_mem_of_get? hget
  obtain ⟨-, rfl⟩ := Prod.mk.inj (List.mem_singleton.mp hmem)
  rw [resolved, hget, Option.map_some]

/-- The name is replaced if it is equal to what was found up to case. -/
theorem outcome_replaceAll_name (value : String) :
    (nameExpression.replaceAll ("<p " ++ name.toString ++ ">") [(name.lower, value)]).outcome =
      .ok (if name.chars.any Unicode.isUnfolded then none else some ("<p " ++ value ++ ">")) := by
  have hne : [(name.lower, value)] ≠ [] := List.cons_ne_nil _ _
  have hmentions : (!name.chars.any Unicode.isUnfolded) = true ↔
      name.chars ∈ (keysOf hne (name.nameable_lower value)).pattern.language := by
    rw [mem_language_keysOf, Bool.not_eq_true', ← Unicode.sameFoldText_lowercase_iff]
    simp [WideName.lower]
  have hresolved : (!name.chars.any Unicode.isUnfolded) = true →
      resolved [(name.lower, value)] name.chars = some value.toList := by
    rw [Bool.not_eq_true']
    exact resolved_lower name
  rw [outcome_replaceAll hne (name.nameable_lower value), name.toList_text,
    changed?_rewrite_tag hmentions hresolved]
  cases name.chars.any Unicode.isUnfolded with
  | true => rfl
  | false => simp [← String.toList_inj]

end Found

/-- **A name that is found is replaced**, whatever its script, unless one of its characters is not
equal to its lowercase form up to case. What is found is the name in lower case. If the name is not
equal to it up to case there is no new text. -/
theorem found_name_renamed_unless_unfolded (name : WideName) (value : String) :
    ∃ e, attributes = .ok [e] ∧
      (e.findAll ("<p " ++ name.toString ++ ">") "[^\\s=/>]+").outcome = .ok [name.lower] ∧
      (e.replaceAll ("<p " ++ name.toString ++ ">") [(name.lower, value)]).outcome =
        .ok (if name.chars.any Unicode.isUnfolded then none else some ("<p " ++ value ++ ">")) :=
  ⟨nameExpression, attributes_eq, outcome_findAll_name name, outcome_replaceAll_name name value⟩

/-- A name in Greek, which ends with a sigma. -/
def road : WideName :=
  ⟨"ΟΔΟΣ".toList, rfl, List.all_eq_true.mp (by decide)⟩

theorem found_name_renamed_road :
    ∃ e, attributes = .ok [e] ∧
      (e.findAll "<p ΟΔΟΣ>" "[^\\s=/>]+").outcome = .ok ["οδος"] ∧
      (e.replaceAll "<p ΟΔΟΣ>" [("οδος", "a=b")]).outcome = .ok (some "<p a=b>") := by
  have htext : "<p " ++ road.toString ++ ">" = "<p ΟΔΟΣ>" := by decide
  have hlower : road.lower = "οδος" := by decide
  have hfolded : road.chars.any Unicode.isUnfolded = false := by decide
  obtain ⟨e, he, hfound, hreplaced⟩ := found_name_renamed_unless_unfolded road "a=b"
  rw [htext, hlower] at hfound hreplaced
  rw [hfolded] at hreplaced
  exact ⟨e, he, hfound, hreplaced⟩

/-- A name of one character, the dotted capital I. -/
def dotted : WideName :=
  ⟨['\u0130'], rfl, List.all_eq_true.mp (by decide)⟩

/-- The dotted capital I is found as two characters, which do not stand for it. -/
theorem found_name_not_renamed :
    ∃ e, attributes = .ok [e] ∧
      (e.findAll "<p \u0130>" "[^\\s=/>]+").outcome = .ok ["i\u0307"] ∧
      (e.replaceAll "<p \u0130>" [("i\u0307", "x")]).outcome = .ok none := by
  have hfound := outcome_findAll_name dotted
  have hreplaced := outcome_replaceAll_name dotted "x"
  have htext : "<p " ++ dotted.toString ++ ">" = "<p \u0130>" := by decide
  have hlower : dotted.lower = "i\u0307" := by decide
  rw [htext, hlower] at hfound hreplaced
  exact ⟨nameExpression, attributes_eq, hfound, hreplaced⟩

end Relabel.Html
