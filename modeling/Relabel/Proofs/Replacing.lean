import Relabel.Expression.Basic
import Relabel.Proofs.Scanning

/-!
# Finding and replacing agree

Finding walks through the regions of a text level by level; replacing goes down into one region
after the other and puts the pieces together on the way back. Both visit the same occurrences. They
are listed once, as spans of the whole text (`Matcher.occurrences`), and what is found and what is
replaced is read off that list.
-/

namespace Relabel

namespace Lookup

def resolve? (lookup : Lookup) (text : List Char) (s : Span) : Option String :=
  (s.slice? text).bind lookup.get?

/-- The edit that puts the value of the identifier at a span in its place. -/
def edit? (lookup : Lookup) (text : List Char) (s : Span) : Option Edit :=
  (lookup.resolve? text s).map fun value => ⟨s, value.toList⟩

theorem edit?_eq_none_iff {lookup : Lookup} {text : List Char} {s : Span} :
    lookup.edit? text s = none ↔ lookup.resolve? text s = none := by
  simp [edit?]

/-- An edit replaces the span that it was made for. -/
theorem edit?_span {lookup : Lookup} {text : List Char} {s : Span} {e : Edit}
    (h : lookup.edit? text s = some e) : e.span = s := by
  obtain ⟨value, -, rfl⟩ := Option.map_eq_some_iff.mp h
  rfl

/-- An identifier in a part of a text resolves as it does in the text. -/
theorem edit?_shift {lookup : Lookup} {text part inner : List Char} {s t : Span}
    (hpart : s.slice? text = some part) (hinner : t.slice? part = some inner) :
    lookup.edit? text (t.shift s.start) = (lookup.edit? part t).map (Edit.shift s.start) := by
  simp only [edit?, resolve?, hinner, Span.slice?_shift hpart hinner, Option.bind_some,
    Option.map_map]
  rfl

end Lookup

namespace Span

/-- What `find` lists in a part of a text, as spans of the text. -/
def within (text : List Char) (find : List Char → List Span) (s : Span) : List Span :=
  match s.slice? text with
  | some part => (find part).map (shift s.start)
  | none => []

theorem within_eq {text part : List Char} {s : Span} (h : s.slice? text = some part)
    (find : List Char → List Span) : s.within text find = (find part).map (shift s.start) := by
  unfold within
  rw [h]

/-- What is listed in a part of a text is moved to where the part stands. -/
theorem mem_within_iff {text : List Char} {find : List Char → List Span} {s t : Span} :
    t ∈ s.within text find ↔
      ∃ part, s.slice? text = some part ∧ ∃ u ∈ find part, t = u.shift s.start := by
  unfold within
  split
  · rename_i part hpart
    rw [List.mem_map]
    constructor
    · rintro ⟨u, hu, rfl⟩
      exact ⟨part, hpart, u, hu, rfl⟩
    · rintro ⟨part', hpart', u, hu, rfl⟩
      cases hpart.symm.trans hpart'
      exact ⟨u, hu, rfl⟩
  · rename_i hnone
    simp [hnone]

/-- Going further into parts of a part is the same in the text as in that part. -/
theorem flatMap_within_shift {text part : List Char} {s : Span} {inner : List Span}
    (hpart : s.slice? text = some part)
    (hinner : ∀ t ∈ inner, ∃ p, t.slice? part = some p) (find : List Char → List Span) :
    (inner.map (shift s.start)).flatMap (within text find) =
      (inner.flatMap (within part find)).map (shift s.start) := by
  rw [List.flatMap_map, List.map_flatMap]
  refine List.flatMap_congr fun t ht => ?_
  obtain ⟨p, hp⟩ := hinner t ht
  rw [within_eq hp, within_eq (slice?_shift hpart hp), List.map_map]
  refine List.map_congr_left fun u hu => ?_
  simp [shift_shift]

end Span

namespace Matcher

/-! ### Occurrences -/

/-- The captures of a matcher inside some regions of a text, as spans of the text. -/
def narrow (text : List Char) (regions : List Span) (level : Matcher) : List Span :=
  regions.flatMap (Span.within text level.captureSpans)

/-- What some matchers, one inside the captures of the other, narrow a text down to. -/
def occurrences (levels : List Matcher) (text : List Char) : List Span :=
  levels.foldl (narrow text) [⟨0, byteSize text⟩]

/-- At every level and in every region the text that hits give back lies behind their captures. -/
def AheadFollowsWithin : List Matcher → List Char → Prop
  | [], _ => True
  | level :: levels, text =>
    level.AheadFollows text ∧ ∀ region ∈ level.captured text, AheadFollowsWithin levels region

/-- The occurrences in a text, collected region by region. -/
def spansWithin : List Matcher → List Char → List Span
  | [], text => [⟨0, byteSize text⟩]
  | level :: levels, text =>
    (level.captureSpans text).flatMap (Span.within text (spansWithin levels))

/-- Every occurrence is a slice of the text. -/
theorem spansWithin_slice {levels : List Matcher} {text : List Char} {t : Span}
    (ht : t ∈ spansWithin levels text) : ∃ part, t.slice? text = some part := by
  induction levels generalizing text t with
  | nil =>
    obtain rfl := List.mem_singleton.mp ht
    exact ⟨text, Span.slice?_whole text⟩
  | cons level levels ih =>
    obtain ⟨s, -, hs⟩ := List.mem_flatMap.mp ht
    obtain ⟨part, hpart, u, hu, rfl⟩ := Span.mem_within_iff.mp hs
    obtain ⟨inner, hinner⟩ := ih hu
    exact ⟨inner, Span.slice?_shift hpart hinner⟩

/-- **Occurrences follow one another.** Those of one region lie inside it, and regions follow one
another. -/
theorem spansWithin_pairwise {levels : List Matcher} {text : List Char}
    (hlevels : ∀ level ∈ levels, level.Compiled) (hahead : AheadFollowsWithin levels text) :
    (spansWithin levels text).Pairwise fun r s => r.stop ≤ s.start := by
  induction levels generalizing text with
  | nil => simp [spansWithin]
  | cons level levels ih =>
    obtain ⟨hlevel, hregions⟩ := hahead
    have hcompiled := hlevels level List.mem_cons_self
    rw [spansWithin, List.pairwise_flatMap]
    refine ⟨fun s hs => ?_, (hcompiled.captureSpans_pairwise hlevel).imp ?_⟩
    · obtain ⟨part, hpart⟩ := hcompiled.captureSpans_slice hs
      rw [Span.within_eq hpart, List.pairwise_map]
      refine (ih (fun l hl => hlevels l (List.mem_cons_of_mem _ hl))
        (hregions part (mem_captured hs hpart))).imp fun h => ?_
      simpa using h
    · intro r s hrs t ht u hu
      obtain ⟨part, hpart, t', ht', rfl⟩ := Span.mem_within_iff.mp ht
      obtain ⟨-, -, u', -, rfl⟩ := Span.mem_within_iff.mp hu
      obtain ⟨inner, hinner⟩ := spansWithin_slice ht'
      have hstop := (Span.stop_le_of_slice? hinner).2.1
      have hsize := (Span.stop_le_of_slice? hpart).2.2
      simp only [Span.shift_start, Span.shift_stop]
      omega

/-- Going down level by level and going down region by region list the same occurrences. -/
theorem foldl_narrow {levels : List Matcher} {text : List Char} {regions : List Span}
    (hlevels : ∀ level ∈ levels, level.Compiled)
    (hregions : ∀ r ∈ regions, ∃ part, r.slice? text = some part) :
    levels.foldl (narrow text) regions =
      regions.flatMap (Span.within text (spansWithin levels)) := by
  induction levels generalizing regions with
  | nil =>
    have hself : regions.flatMap (Span.within text (spansWithin [])) =
        regions.flatMap fun r => [r] := by
      refine List.flatMap_congr fun r hr => ?_
      obtain ⟨part, hpart⟩ := hregions r hr
      obtain ⟨-, -, hstop⟩ := Span.stop_le_of_slice? hpart
      simp [Span.within_eq hpart, spansWithin, Span.shift, ← hstop]
    rw [hself, List.foldl_nil, List.flatMap_singleton']
  | cons level levels ih =>
    have hcompiled := hlevels level List.mem_cons_self
    have hnarrowed : ∀ r ∈ narrow text regions level, ∃ part, r.slice? text = some part := by
      intro r hr
      obtain ⟨s, -, hs⟩ := List.mem_flatMap.mp hr
      obtain ⟨part, hpart, u, hu, rfl⟩ := Span.mem_within_iff.mp hs
      obtain ⟨inner, hinner⟩ := hcompiled.captureSpans_slice hu
      exact ⟨inner, Span.slice?_shift hpart hinner⟩
    rw [List.foldl_cons, ih (fun l hl => hlevels l (List.mem_cons_of_mem _ hl)) hnarrowed, narrow,
      List.flatMap_assoc]
    refine List.flatMap_congr fun r hr => ?_
    obtain ⟨part, hpart⟩ := hregions r hr
    rw [Span.within_eq hpart, Span.within_eq hpart,
      Span.flatMap_within_shift hpart fun t ht => hcompiled.captureSpans_slice ht]
    rfl

/-- Narrowing level by level comes to collecting region by region. -/
theorem occurrences_eq {levels : List Matcher} {text : List Char}
    (hlevels : ∀ level ∈ levels, level.Compiled) :
    occurrences levels text = spansWithin levels text := by
  have hwhole := Span.slice?_whole text
  have hshift : Span.shift 0 = id := by
    funext s
    simp
  rw [occurrences, foldl_narrow hlevels (by simpa using ⟨text, hwhole⟩)]
  simp [Span.within_eq hwhole, hshift]

/-! ### Replacing at the occurrences -/

/-- The edits that put the values of the identifiers at the occurrences in their place. -/
def editsWithin (lookup : Lookup) (levels : List Matcher) (text : List Char) : List Edit :=
  (spansWithin levels text).filterMap (lookup.edit? text)

/-- The edits offered at one level: each region in which something was replaced, as a whole. -/
def regionEdits (inner : Matcher) (lookup : Lookup) (level : Matcher) (levels : List Matcher)
    (text : List Char) : List Edit :=
  (level.captureSpans text).filterMap fun s =>
    (s.slice? text).bind fun region =>
      (replaceInRegions inner lookup levels region).2.changed?.map (Edit.mk s)

/-- No edit is left out for overlapping an earlier one, in a text or in any of its regions. -/
def NoneDropped (inner : Matcher) (lookup : Lookup) : List Matcher → List Char → Prop
  | [], text => (inner.replaceCaptures lookup text).applied =
      ((inner.captureSpans text).filterMap (lookup.edit? text)).length
  | level :: levels, text =>
    (replaceInRegions inner lookup (level :: levels) text).2.applied =
        (regionEdits inner lookup level levels text).length ∧
      ∀ region ∈ level.captured text, NoneDropped inner lookup levels region

/-- Replacing captures is splicing the edits at the captures. -/
theorem replaceCaptures_eq (matcher : Matcher) (lookup : Lookup) (text : List Char) :
    matcher.replaceCaptures lookup text =
      splice text ((matcher.captureSpans text).filterMap (lookup.edit? text)) := by
  unfold replaceCaptures captureSpans
  rw [List.filterMap_filterMap]
  refine congrArg (splice text) (List.filterMap_congr fun hit _ => ?_)
  cases hit.capture with
  | none => rfl
  | some s =>
    simp only [Lookup.edit?, Lookup.resolve?, Option.bind_eq_bind, Option.bind_some]
    cases s.slice? text with
    | none => rfl
    | some identifier =>
      simp only [Option.bind_some]
      cases lookup.get? identifier <;> rfl

/-- What replacing in regions comes to at one level. -/
theorem replaceInRegions_cons (inner : Matcher) (lookup : Lookup) (level : Matcher)
    (levels : List Matcher) (text : List Char) :
    replaceInRegions inner lookup (level :: levels) text =
      (((level.captured text).map fun region =>
          (replaceInRegions inner lookup levels region).1).foldr (· + ·) 0,
        splice text (regionEdits inner lookup level levels text)) := by
  rw [replaceInRegions, captured_eq, regionEdits, captureSpans]
  simp only [List.filterMap_filterMap, List.map_filterMap]
  refine Prod.ext (congrArg (List.foldr (· + ·) 0) ?_) (congrArg (splice text) ?_)
  · refine List.filterMap_congr fun hit _ => ?_
    cases hit.capture with
    | none => rfl
    | some s =>
      simp only [Option.bind_eq_bind, Option.bind_some]
      cases s.slice? text <;> rfl
  · refine List.filterMap_congr fun hit _ => ?_
    cases hit.capture with
    | none => rfl
    | some s =>
      simp only [Option.bind_eq_bind, Option.bind_some]
      cases s.slice? text <;> rfl

/-- The occurrences at the last level are the captures there. -/
theorem spansWithin_singleton {matcher : Matcher} {text : List Char} (hm : matcher.Compiled) :
    spansWithin [matcher] text = matcher.captureSpans text := by
  have hself : [].foldl (narrow text) (matcher.captureSpans text) = spansWithin [matcher] text :=
    foldl_narrow (by simp) fun r hr => hm.captureSpans_slice hr
  exact hself.symm

/-- The edits in a text are the edits in its regions, moved to where these stand. -/
theorem editsWithin_cons {lookup : Lookup} {level : Matcher} {levels : List Matcher}
    {text : List Char} (hlevel : level.Compiled) :
    editsWithin lookup (level :: levels) text = (level.captureSpans text).flatMap fun s =>
      ((s.slice? text).elim [] (editsWithin lookup levels)).map (Edit.shift s.start) := by
  rw [editsWithin, spansWithin, List.filterMap_flatMap]
  refine List.flatMap_congr fun s hs => ?_
  obtain ⟨part, hpart⟩ := hlevel.captureSpans_slice hs
  rw [hpart, Span.within_eq hpart, List.filterMap_map, Option.elim_some, editsWithin,
    List.map_filterMap]
  refine List.filterMap_congr fun t ht => ?_
  obtain ⟨inner, hinner⟩ := spansWithin_slice ht
  exact Lookup.edit?_shift hpart hinner

/-- What is known of replacing in the regions of a text: it counts the edits at the occurrences,
patches the text with them, reports a change exactly if there is one, and drops nothing. -/
structure Replaced (inner : Matcher) (lookup : Lookup) (levels : List Matcher) (text : List Char) :
    Prop where
  count : (replaceInRegions inner lookup levels text).1 =
    (editsWithin lookup (levels ++ [inner]) text).length
  patched : Patched 0 text (editsWithin lookup (levels ++ [inner]) text)
    (replaceInRegions inner lookup levels text).2.text
  unchanged : (replaceInRegions inner lookup levels text).2.applied = 0 ↔
    editsWithin lookup (levels ++ [inner]) text = []
  kept : NoneDropped inner lookup levels text

/-- The last level: its captures are replaced. -/
theorem replaced_nil {inner : Matcher} {lookup : Lookup} {text : List Char}
    (hinner : inner.Compiled) (hahead : inner.AheadFollows text) :
    Replaced inner lookup [] text := by
  have hedits : editsWithin lookup ([] ++ [inner]) text =
      (inner.captureSpans text).filterMap (lookup.edit? text) := by
    rw [List.nil_append, editsWithin, spansWithin_singleton hinner]
  obtain ⟨out, hpatched, hspliced⟩ := splice_patched text
    ((inner.captureSpans text).filterMap (lookup.edit? text))
    (by
      intro e he
      obtain ⟨s, hs, hedit⟩ := List.mem_filterMap.mp he
      rw [Lookup.edit?_span hedit]
      exact hinner.captureSpans_slice hs)
    (by
      rw [List.pairwise_filterMap]
      refine (hinner.captureSpans_pairwise hahead).imp fun {r s} hrs e he f hf => ?_
      rwa [Lookup.edit?_span he, Lookup.edit?_span hf])
  have hresult : replaceInRegions inner lookup [] text =
      (((inner.captureSpans text).filterMap (lookup.edit? text)).length,
        ⟨((inner.captureSpans text).filterMap (lookup.edit? text)).length, out⟩) := by
    rw [replaceInRegions, replaceCaptures_eq, hspliced]
  constructor
  · rw [hresult, hedits]
  · rw [hresult, hedits]
    exact hpatched
  · rw [hresult, hedits]
    exact List.length_eq_zero_iff
  · rw [NoneDropped, replaceCaptures_eq, hspliced]

/-- At a level, a region is written anew if something in it was replaced. -/
theorem mem_regionEdits_iff {inner : Matcher} {lookup : Lookup} {level : Matcher}
    {levels : List Matcher} {text : List Char} {e : Edit} :
    e ∈ regionEdits inner lookup level levels text ↔
      e.span ∈ level.captureSpans text ∧ ∃ region, e.span.slice? text = some region ∧
        (replaceInRegions inner lookup levels region).2.applied ≠ 0 ∧
        (replaceInRegions inner lookup levels region).2.text = e.text := by
  simp only [regionEdits, List.mem_filterMap, Option.bind_eq_some_iff, Option.map_eq_some_iff,
    Spliced.changed?]
  constructor
  · rintro ⟨s, hs, region, hregion, new, hnew, rfl⟩
    split at hnew
    · cases hnew
    · rename_i happlied
      exact ⟨hs, region, hregion, happlied, Option.some.inj hnew⟩
  · rintro ⟨hs, region, hregion, happlied, htext⟩
    exact ⟨e.span, hs, region, hregion, e.text, by rw [if_neg happlied, htext], rfl⟩

/-- The edits in the regions that changed are all the edits there are. -/
theorem flatMap_regionEdits {inner : Matcher} {lookup : Lookup} {level : Matcher}
    {levels : List Matcher} {text : List Char} (hlevel : level.Compiled)
    (hregions : ∀ region ∈ level.captured text, Replaced inner lookup levels region) :
    (regionEdits inner lookup level levels text).flatMap (fun e =>
        ((e.span.slice? text).elim [] (editsWithin lookup (levels ++ [inner]))).map
          (Edit.shift e.span.start)) =
      editsWithin lookup (level :: levels ++ [inner]) text := by
  rw [List.cons_append, editsWithin_cons hlevel, regionEdits, List.filterMap_eq_flatMap_toList,
    List.flatMap_assoc]
  refine List.flatMap_congr fun s hs => ?_
  obtain ⟨region, hregion⟩ := hlevel.captureSpans_slice hs
  have hreplaced := hregions region (mem_captured hs hregion)
  simp only [hregion, Option.bind_some, Option.elim_some, Spliced.changed?]
  split
  · rename_i happlied
    rw [hreplaced.unchanged.mp happlied]
    rfl
  · simp [hregion]

/-- One level more: each region is replaced as a whole. -/
theorem replaced_cons {inner : Matcher} {lookup : Lookup} {level : Matcher}
    {levels : List Matcher} {text : List Char} (hlevel : level.Compiled)
    (hahead : level.AheadFollows text)
    (hregions : ∀ region ∈ level.captured text, Replaced inner lookup levels region) :
    Replaced inner lookup (level :: levels) text := by
  obtain ⟨out, hpatched, hspliced⟩ := splice_patched text
    (regionEdits inner lookup level levels text)
    (fun e he => hlevel.captureSpans_slice (mem_regionEdits_iff.mp he).1)
    (by
      rw [regionEdits, List.pairwise_filterMap]
      refine (hlevel.captureSpans_pairwise hahead).imp fun {r s} hrs e he f hf => ?_
      obtain ⟨_, -, he'⟩ := Option.bind_eq_some_iff.mp he
      obtain ⟨_, -, hf'⟩ := Option.bind_eq_some_iff.mp hf
      obtain ⟨_, -, rfl⟩ := Option.map_eq_some_iff.mp he'
      obtain ⟨_, -, rfl⟩ := Option.map_eq_some_iff.mp hf'
      exact hrs)
  have hflat := flatMap_regionEdits hlevel hregions
  have hresult := replaceInRegions_cons inner lookup level levels text
  rw [hspliced] at hresult
  constructor
  · -- Each region counts its own edits.
    rw [hresult, List.cons_append, editsWithin_cons hlevel, List.length_flatMap]
    have hcounts := congrArg (List.map fun region : Option (List Char) =>
      (region.elim [] (editsWithin lookup (levels ++ [inner]))).length)
      (hlevel.map_slice?_captureSpans text)
    rw [List.map_map, List.map_map] at hcounts
    simp only [List.length_map]
    refine congrArg (List.foldr (· + ·) 0)
      ((List.map_congr_left fun region hregion => ?_).trans hcounts.symm)
    exact (hregions region hregion).count
  · rw [hresult, ← hflat]
    refine hpatched.flatten _ fun e he front old back hcut => ?_
    obtain ⟨-, region, hregion, -, htext⟩ := mem_regionEdits_iff.mp he
    have hold : e.span.slice? text = some old := by
      rw [Span.slice?, hcut]
      rfl
    obtain rfl : region = old := Option.some.inj (hregion.symm.trans hold)
    rw [hold, ← htext]
    exact (hregions region (mem_captured (mem_regionEdits_iff.mp he).1 hregion)).patched
  · rw [hresult, List.length_eq_zero_iff, ← hflat]
    constructor
    · intro hnil
      rw [hnil]
      rfl
    · -- A region that changed has an edit inside.
      intro hnil
      refine List.eq_nil_iff_forall_not_mem.mpr fun e he => ?_
      obtain ⟨hspan, region, hregion, happlied, -⟩ := mem_regionEdits_iff.mp he
      have hinner := List.flatMap_eq_nil_iff.mp hnil e he
      rw [hregion, List.map_eq_nil_iff] at hinner
      exact happlied ((hregions region (mem_captured hspan hregion)).unchanged.mpr hinner)
  · refine ⟨by rw [hresult], fun region hregion => (hregions region hregion).kept⟩

/-- **Replacing in regions replaces the occurrences**, at any depth. -/
theorem replaced_of_aheadFollows {inner : Matcher} (lookup : Lookup) {levels : List Matcher}
    {text : List Char} (hlevels : ∀ level ∈ levels, level.Compiled) (hinner : inner.Compiled)
    (hahead : AheadFollowsWithin (levels ++ [inner]) text) :
    Replaced inner lookup levels text := by
  induction levels generalizing text with
  | nil => exact replaced_nil hinner hahead.1
  | cons level levels ih =>
    refine replaced_cons (hlevels level List.mem_cons_self) hahead.1 fun region hregion => ?_
    exact ih (fun l hl => hlevels l (List.mem_cons_of_mem _ hl)) (hahead.2 region hregion)

/-! ### Finding the occurrences -/

/-- What is captured in the innermost regions is what stands at the occurrences. -/
theorem map_slice?_spansWithin {inner : Matcher} {levels : List Matcher} {text : List Char}
    (hlevels : ∀ level ∈ levels, level.Compiled) (hinner : inner.Compiled) :
    (spansWithin (levels ++ [inner]) text).map (Span.slice? text) =
      ((regions levels text).flatMap inner.captured).map some := by
  induction levels generalizing text with
  | nil =>
    rw [List.nil_append, spansWithin_singleton hinner, hinner.map_slice?_captureSpans]
    simp [regions]
  | cons level levels ih =>
    have hlevel := hlevels level List.mem_cons_self
    rw [List.cons_append, spansWithin, List.map_flatMap, regions, List.flatMap_assoc,
      List.map_flatMap, captured_eq, List.filterMap_eq_flatMap_toList, List.flatMap_assoc]
    refine List.flatMap_congr fun s hs => ?_
    obtain ⟨part, hpart⟩ := hlevel.captureSpans_slice hs
    rw [hpart, Span.within_eq hpart, Option.toList_some, List.flatMap_singleton,
      ← ih (fun l hl => hlevels l (List.mem_cons_of_mem _ hl)), List.map_map]
    refine List.map_congr_left fun t ht => ?_
    obtain ⟨found, hfound⟩ := spansWithin_slice ht
    rw [Function.comp_apply, Span.slice?_shift hpart hfound, hfound]

end Matcher

end Relabel
