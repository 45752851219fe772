import Relabel.Proofs.Determined
import Relabel.Proofs.Iterating
import Relabel.Proofs.LocatedSpans
import Relabel.Proofs.Markup

/-!
# Locating, position by position

What a locator finds are the captures of the successive matches of a pattern. If the pattern matches
no empty text, these are the hits of a walk (`Program.allMatches_eq_hits`), so there is an equation
for each thing that can happen at a position (`Matcher.contents`): nothing is matched there and the
next position is tried, or something is matched, of which the capture is taken unless it is empty.
The pattern may as well be written plainly (`Locator.contents_eq_walk`).

Every locator passes over comments (`Html.located`). Where a comment begins and ends, nothing else
is tried (`Html.matchAt_of_comment?`).
-/

namespace Relabel

section Hits

variable {group : List Char} {p : Pattern}

/-- **The successive matches of a pattern without empty matches are the hits of a walk**: none of
them is an echo. -/
theorem Program.allMatches_eq_hits (hp : p.nullable = false)
    (hahead : (Matcher.ofPattern group p).ahead = []) (text : List Char) :
    (ofPattern p).allMatches text =
      ((Matcher.ofPattern group p).hits (.start text)).map Prod.fst := by
  have hprogram : (Matcher.ofPattern group p).program = ofPattern p := rfl
  have hwalk := Matcher.dropEchoes_walk hprogram hahead text
  rw [dropEchoes_of_nonempty] at hwalk
  · exact hwalk.symm
  · refine List.forall_mem_map.mpr fun entry hentry => ?_
    obtain ⟨c, d, -, hmatches, hspan⟩ := (Matcher.walk_visited hprogram hentry).matched
    have hne : c.offset ≠ d.offset := by
      intro hsame
      obtain rfl := (Cursor.Reaches.refl c).eq_of_offset_eq hmatches.reaches hsame
      exact Nat.lt_irrefl _ (hmatches.length_lt hp)
    simp [Span.isEmpty, hspan, hne]

end Hits

namespace Matcher

variable {matcher : Matcher} {host part : List Char} {c d e f : Cursor} {found : Match}

/-- The capture of a match, unless it is empty, with the offset at which it begins. -/
def content? (matcher : Matcher) (host : List Char) (found : Match) : Option (String × Nat) := do
  let span ← matcher.capture? found
  if span.isEmpty then none
  else
    let text ← span.slice? host
    return (String.ofList text, span.start)

/-- The captures of the matches from a position on, but for empty ones. -/
def contents (matcher : Matcher) (host : List Char) (c : Cursor) : List (String × Nat) :=
  (matcher.hits c).filterMap fun entry => matcher.content? host entry.1

theorem content?_of_absent (h : matcher.capture? found = none) :
    matcher.content? host found = none := by
  rw [content?, h]
  rfl

/-- What is captured between two positions is the text between them, unless that is empty. -/
theorem content?_of_over (h : matcher.capture? found = some ⟨e.offset, f.offset⟩)
    (he : (Cursor.start host).Reaches e) (hf : e.Over part f) : matcher.content? host found =
      if part = [] then none else some (String.ofList part, e.offset) := by
  have hslice : Span.slice? host ⟨e.offset, f.offset⟩ = some part := hf.slice? he
  rw [content?, h]
  by_cases hpart : part = []
  · subst hpart
    obtain rfl := hf.eq_of_nil
    simp [Span.isEmpty]
  · have hne : Span.isEmpty ⟨e.offset, f.offset⟩ = false := by
      simp [Span.isEmpty, Nat.ne_of_lt (hf.offset_lt hpart)]
    simp [hne, hslice, hpart]

theorem contents_end (h : matcher.program.matchAt c = none) (hrest : c.rest = []) :
    matcher.contents host c = [] := by
  rw [contents, hits_end h hrest]
  rfl

/-- Where nothing matches, what is captured is captured from the next position on. -/
theorem Advances.contents_skip (hm : matcher.Advances) {x : Char} {rest : List Char}
    (h : matcher.program.matchAt c = none) (hrest : c.rest = x :: rest) :
    matcher.contents host c = matcher.contents host (c.advance x rest) := by
  rw [contents, hm.hits_skip h hrest]
  rfl

/-- Text at no position of which something is matched is passed over. -/
theorem Advances.contents_skips (hm : matcher.Advances) (hover : c.Over part d)
    (h : ∀ front back e, part = front ++ back → back ≠ [] → c.Over front e → e.Over back d →
      matcher.program.matchAt e = none) :
    matcher.contents host c = matcher.contents host d := by
  rw [contents, hm.hits_skips hover h]
  rfl

/-- A match adds what it captures to what is captured behind it. -/
theorem Advances.contents_found (hm : matcher.Advances) (hahead : matcher.ahead = [])
    {captures : Captures}
    (h : matcher.program.matchAt c = some ⟨⟨c.offset, d.offset⟩, captures⟩)
    (hover : c.Over part d) (hpart : part ≠ []) : matcher.contents host c =
      (matcher.content? host ⟨⟨c.offset, d.offset⟩, captures⟩).toList ++
        matcher.contents host d := by
  have hresumes : matcher.Resumes ⟨⟨c.offset, d.offset⟩, captures⟩ c d :=
    ⟨⟨part, hover⟩, hover.offset_lt hpart, target_of_ahead hahead _⟩
  rw [contents, hm.hits_found h hresumes, List.filterMap_cons]
  cases matcher.content? host ⟨⟨c.offset, d.offset⟩, captures⟩ <;> rfl

end Matcher

/-- **What is located is what a walk captures**, also with the pattern written plainly. -/
theorem Locator.contents_eq_walk {pattern : String} {group : List Char} {q : Pattern}
    (hparse : (Pattern.parse? false pattern.toList).map Pattern.plain = some q)
    (hproper : q.proper = true) (hnullable : q.nullable = false)
    (hahead : (Matcher.ofPattern group q).ahead = []) (host : List Char) :
    contents pattern (Matcher.ofPattern group q).capture host =
      (Matcher.ofPattern group q).contents host (.start host) := by
  obtain ⟨p, hp, rfl⟩ := Option.map_eq_some_iff.mp hparse
  rw [Pattern.proper_plain] at hproper
  have hahead' : (Matcher.ofPattern group p).ahead = (Matcher.ofPattern group p.plain).ahead := by
    rw [Matcher.ofPattern, Matcher.ofPattern, Pattern.groups_plain]
  have hwalk : ∀ c, (Matcher.ofPattern group p).hits c = (Matcher.ofPattern group p.plain).hits c :=
    fun c => Matcher.walkFrom_congr hahead' (fun c => (p.matchAt_plain hproper c).symm) _ c
  rw [Pattern.nullable_plain] at hnullable
  rw [contents, hp, Matcher.contents, ← hwalk]
  simp only [Program.allMatches_eq_hits hnullable (hahead'.trans hahead), List.filterMap_map]
  rfl

namespace Html

open Pattern

def locatorFlags : Flags :=
  { Flags.initial true with dotAll := true }

/-- The letters of a word in a row match the word up to case. -/
theorem mem_language_folded {word part : List Char} :
    part ∈ (row (word.map (literal locatorFlags))).language ↔
      Unicode.sameFoldText part word = true := by
  have hrow : row (word.map (literal locatorFlags)) = spelled locatorFlags word := by
    induction word with
    | nil => rfl
    | cons k word ih =>
      rw [spelled_cons, ← ih]
      rfl
  rw [hrow, mem_language_spelled]
  rfl

/-! ### Comments are passed over -/

/-- Takes a comment off the front of a text, up to the first place where it can end. -/
def comment? : Scanner := fun text => do
  let inner ← "<!--".toList.isPrefixOf? text
  let (body, rest) ← upTo? "-->".toList inner
  return ("<!--".toList ++ (body ++ "-->".toList), rest)

/-- A comment begins with its opening delimiter and goes up to the first closing one. -/
theorem comment?_eq_some_iff {text part rest : List Char} : comment? text = some (part, rest) ↔
    ∃ inner body, text = "<!--".toList ++ inner ∧ upTo? "-->".toList inner = some (body, rest) ∧
      part = "<!--".toList ++ (body ++ "-->".toList) := by
  simp only [comment?, Option.bind_eq_bind, Option.bind_eq_some_iff, Prod.exists, Option.pure_def,
    Option.some.injEq, Prod.mk.injEq, List.isPrefixOf?_eq_some_iff_append_eq]
  constructor
  · rintro ⟨inner, rfl, body, _, hbody, rfl, rfl⟩
    exact ⟨inner, body, rfl, hbody, rfl⟩
  · rintro ⟨inner, body, rfl, hbody, rfl⟩
    exact ⟨inner, rfl, body, rest, hbody, rfl, rfl⟩

theorem eq_append_of_comment? {text part rest : List Char}
    (h : comment? text = some (part, rest)) : part ≠ [] ∧ text = part ++ rest := by
  obtain ⟨inner, body, rfl, hbody, rfl⟩ := comment?_eq_some_iff.mp h
  refine ⟨List.cons_ne_nil _ _, ?_⟩
  rw [eq_append_of_upTo? hbody]
  simp only [List.append_assoc]

theorem comment?_eq_none {y : Char} (h : y ≠ '!') (rest : List Char) :
    comment? ('<' :: y :: rest) = none := by
  rw [Option.eq_none_iff_forall_not_mem]
  rintro ⟨part, rest'⟩ hcomment
  obtain ⟨inner, -, htext, -, -⟩ := comment?_eq_some_iff.mp hcomment
  exact h (List.cons.inj (List.cons.inj htext).2).1

def located (p : Pattern) : Pattern :=
  .alt (row ("<!--".toList.map char ++ lazyAny :: "-->".toList.map char)) p

variable {p : Pattern} {c d : Cursor} {part : List Char}

theorem proper_located (hp : p.proper = true) : (located p).proper = true :=
  hp

/-- A comment is tried first. -/
theorem matchAt_located (hp : p.proper = true) (c : Cursor) :
    (Program.ofPattern (located p)).matchAt c =
      ((Program.ofPattern commentPattern).matchAt c).or ((Program.ofPattern p).matchAt c) := by
  rw [located, Program.matchAt_alt (proper_located hp), Program.matchAt_eq_find rfl, commentPattern,
    Program.matchAt_eq_find (proper_delimited _ _)]
  rfl

/-- Where a comment begins and ends, it is matched. -/
theorem matchAt_of_comment? (hp : p.proper = true) (h : comment? c.rest = some (part, d.rest))
    (hover : c.Over part d) : (Program.ofPattern (located p)).matchAt c =
      some ⟨⟨c.offset, d.offset⟩, []⟩ := by
  obtain ⟨inner, body, hrest, hbody, rfl⟩ := comment?_eq_some_iff.mp h
  rw [matchAt_located hp, commentPattern, matchAt_delimited hbody hrest hover, Option.some_or]

/-- Elsewhere the other pattern decides. -/
theorem matchAt_of_comment?_eq_none (hp : p.proper = true) (h : comment? c.rest = none) :
    (Program.ofPattern (located p)).matchAt c = (Program.ofPattern p).matchAt c := by
  have hnone : (Program.ofPattern commentPattern).matchAt c = none := by
    refine (Program.matchAt_eq_none_iff (proper_delimited _ _)).mpr fun d new hmatches => ?_
    obtain ⟨part, hpart, hover⟩ := hmatches.exists_mem_language
    obtain ⟨body, rfl⟩ := mem_language_delimited.mp hpart
    obtain ⟨found, hfound⟩ := Option.isSome_iff_exists.mp (upTo?_isSome body "-->".toList d.rest)
    have hrest : c.rest = "<!--".toList ++ (body ++ ("-->".toList ++ d.rest)) := by
      simpa only [List.append_assoc] using hover.1
    rw [comment?_eq_some_iff.mpr ⟨_, _, hrest, hfound, rfl⟩] at h
    cases h
  rw [matchAt_located hp, hnone, Option.none_or]

end Html

end Relabel
