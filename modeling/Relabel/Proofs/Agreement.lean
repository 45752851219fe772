import Relabel.Proofs.GroupOrder
import Relabel.Proofs.Replacing

/-!
# Expressions replace what they find

The agreement of finding and replacing, for direct and for nested expressions. Both are run with the
pattern of all keys. What is found is the text at the occurrences; what is replaced are the
occurrences whose text resolves, all of them and nothing else.
-/

namespace Relabel

theorem Traced.bind_ok {α β : Type} {a : α} {events : List Event} (next : α → Traced β) :
    ((⟨.ok a, events⟩ : Traced α) >>= next) =
      ⟨(next a).outcome, events ++ (next a).events⟩ :=
  rfl

namespace Matcher

/-- What compiling a template reports: that no group bears the wanted name, if so. -/
def absence (group : String) (matcher : Matcher) : List Event :=
  if matcher.capture.isEmpty then [.groupAbsent group] else []

/-- All that compiling reports is that the group is absent. -/
theorem mem_absence {group : String} {matcher : Matcher} {event : Event}
    (h : event ∈ absence group matcher) : event = .groupAbsent group := by
  unfold absence at h
  split at h
  · simpa using h
  · cases h

/-- A template that is a pattern compiles to the matcher of that pattern. -/
theorem compile_of_ok {template : Template} {pattern : List Char} {group : String}
    {caseSensitive : Bool} {p : Pattern} (h : template.pattern pattern caseSensitive = .ok p) :
    compile template pattern group caseSensitive =
      ⟨.ok (ofPattern group.toList p), absence group (ofPattern group.toList p)⟩ := by
  unfold compile absence
  rw [h]
  by_cases hempty : (ofPattern group.toList p).capture.isEmpty = true
  · simp only [Traced.ofExcept, Traced.bind_ok, hempty, if_true]
    rfl
  · simp only [Traced.ofExcept, Traced.bind_ok, hempty]
    rfl

end Matcher

namespace Expression

variable {group : String} {caseSensitive : Bool}

/-- Compiling templates that are all patterns. -/
theorem mapM_compile {templates : List Template} {pattern : List Char} {patterns : List Pattern}
    (h : List.Forall₂ (fun template p => template.pattern pattern caseSensitive = .ok p)
      templates patterns) :
    (templates.mapM fun template => Matcher.compile template pattern group caseSensitive) =
      ⟨.ok (patterns.map (Matcher.ofPattern group.toList)),
        patterns.flatMap fun p => Matcher.absence group (Matcher.ofPattern group.toList p)⟩ := by
  induction h with
  | nil => rfl
  | cons hp _ ih =>
    rw [List.mapM_cons, Matcher.compile_of_ok hp, ih]
    simp only [Traced.bind_ok, Traced.outcome_pure, Traced.events_pure, List.append_nil,
      List.map_cons, List.flatMap_cons]

section Direct

variable {template : Template} {mapping : Mapping} {p : Pattern}

/-- **What one template finds** is what it captures. -/
theorem findAll_direct {pattern : String} (text : String)
    (h : template.pattern pattern.toList caseSensitive = .ok p) :
    ((⟨.direct template, group, caseSensitive⟩ : Expression).findAll text pattern).outcome =
      .ok (((Matcher.ofPattern group.toList p).captured text.toList).map
        (report ⟨.direct template, group, caseSensitive⟩)) := by
  simp only [findAll, matcher, Matcher.compile_of_ok h, Traced.bind_ok, Traced.outcome_pure]

/-- **What one template replaces** are its captures; the number of them is reported last. -/
theorem replaceAll_direct (text : String) (hmapping : mapping ≠ [])
    (h : template.pattern (Lookup.ofMapping mapping caseSensitive).pattern caseSensitive = .ok p) :
    (⟨.direct template, group, caseSensitive⟩ : Expression).replaceAll text mapping =
      ⟨.ok (((Matcher.ofPattern group.toList p).replaceCaptures
          (Lookup.ofMapping mapping caseSensitive) text.toList).changed?.map String.ofList),
        Matcher.absence group (Matcher.ofPattern group.toList p) ++
          [.directReplaced ((Matcher.ofPattern group.toList p).replaceCaptures
            (Lookup.ofMapping mapping caseSensitive) text.toList).applied]⟩ := by
  have hempty : mapping.isEmpty = false := by simpa using hmapping
  simp only [replaceAll, hempty, matcher, Matcher.compile_of_ok h, Traced.bind_ok]
  rfl

end Direct

section Nested

variable {outer inner : Template} {within : List Template} {levels : List Pattern} {q : Pattern}

/-- What nested templates find is what the last one captures in the innermost regions. -/
theorem findAll_nested {pattern : String} (text : String)
    (hlevels : List.Forall₂
      (fun template p => template.pattern pattern.toList caseSensitive = .ok p)
      (outer :: within) levels)
    (hinner : inner.pattern pattern.toList caseSensitive = .ok q) :
    ((⟨.nested outer within inner, group, caseSensitive⟩ : Expression).findAll text
        pattern).outcome =
      .ok (((Matcher.regions (levels.map (Matcher.ofPattern group.toList)) text.toList).flatMap
        (Matcher.ofPattern group.toList q).captured).map
          (report ⟨.nested outer within inner, group, caseSensitive⟩)) := by
  simp only [findAll, matcher, mapM_compile hlevels, Matcher.compile_of_ok hinner, Traced.bind_ok,
    Traced.outcome_pure]

/-- What nested templates replace are the captures of the last one in the innermost regions. -/
theorem replaceAll_nested {mapping : Mapping} (text : String) (hmapping : mapping ≠ [])
    (hlevels : List.Forall₂ (fun template p =>
      template.pattern (Lookup.ofMapping mapping caseSensitive).pattern caseSensitive = .ok p)
      (outer :: within) levels)
    (hinner : inner.pattern (Lookup.ofMapping mapping caseSensitive).pattern caseSensitive =
      .ok q) :
    (⟨.nested outer within inner, group, caseSensitive⟩ : Expression).replaceAll text mapping =
      ⟨.ok ((Matcher.replaceInRegions (Matcher.ofPattern group.toList q)
          (Lookup.ofMapping mapping caseSensitive) (levels.map (Matcher.ofPattern group.toList))
          text.toList).2.changed?.map String.ofList),
        (levels ++ [q]).flatMap
            (fun p => Matcher.absence group (Matcher.ofPattern group.toList p)) ++
          [.nestedReplaced levels.length (Matcher.replaceInRegions
            (Matcher.ofPattern group.toList q) (Lookup.ofMapping mapping caseSensitive)
            (levels.map (Matcher.ofPattern group.toList)) text.toList).1]⟩ := by
  have hempty : mapping.isEmpty = false := by simpa using hmapping
  simp only [replaceAll, hempty, matcher, mapM_compile hlevels, Matcher.compile_of_ok hinner,
    Traced.bind_ok, Traced.emit, Traced.outcome_pure, Traced.events_pure, List.length_map,
    List.flatMap_append, List.flatMap_cons, List.flatMap_nil, List.append_nil, List.append_assoc]
  rfl

end Nested

end Expression

/-- There are as many edits as identifiers that resolve. -/
theorem Lookup.length_filterMap_edit? (lookup : Lookup) (text : List Char) (spans : List Span) :
    (spans.filterMap (lookup.edit? text)).length =
      spans.countP fun s => (lookup.resolve? text s).isSome := by
  rw [List.length_filterMap_eq_countP]
  simp [edit?]

theorem Lookup.ite_filterMap_edit?_eq_none_iff {lookup : Lookup} {text : List Char}
    {spans : List Span} {out : String} :
    (if spans.filterMap (lookup.edit? text) = [] then none else some out) = none ↔
      ∀ s ∈ spans, lookup.resolve? text s = none := by
  rw [ite_eq_left_iff]
  simp [edit?_eq_none_iff]

namespace Matcher

/-- What finding and replacing in the regions of a text come to, said of the occurrences. -/
structure Agrees (inner : Matcher) (lookup : Lookup) (levels : List Matcher) (text : List Char)
    (found : List Span) : Prop where
  texts : found.map (Span.slice? text) = ((regions levels text).flatMap inner.captured).map some
  start_le_stop : ∀ r ∈ found, r.start ≤ r.stop
  pairwise : found.Pairwise fun r s => r.stop ≤ s.start
  patched : Patched 0 text (found.filterMap (lookup.edit? text))
    (replaceInRegions inner lookup levels text).2.text
  changed : (replaceInRegions inner lookup levels text).2.changed?.map String.ofList =
    if found.filterMap (lookup.edit? text) = [] then none
    else some (String.ofList (replaceInRegions inner lookup levels text).2.text)
  count : (replaceInRegions inner lookup levels text).1 =
    found.countP fun r => (lookup.resolve? text r).isSome
  kept : NoneDropped inner lookup levels text

/-- **Finding and replacing agree on the occurrences**, at any depth of nesting. -/
theorem agrees_occurrences {inner : Matcher} (lookup : Lookup) {levels : List Matcher}
    {text : List Char} (hlevels : ∀ level ∈ levels, level.Compiled) (hinner : inner.Compiled)
    (hahead : AheadFollowsWithin (levels ++ [inner]) text) :
    Agrees inner lookup levels text (occurrences (levels ++ [inner]) text) := by
  have hall : ∀ level ∈ levels ++ [inner], level.Compiled :=
    List.forall_mem_append.mpr ⟨hlevels, by simpa using hinner⟩
  have hreplaced := replaced_of_aheadFollows lookup hlevels hinner hahead
  rw [occurrences_eq hall]
  constructor
  · exact map_slice?_spansWithin hlevels hinner
  · intro r hr
    obtain ⟨part, hpart⟩ := spansWithin_slice hr
    exact (Span.stop_le_of_slice? hpart).1
  · exact spansWithin_pairwise hall hahead
  · exact hreplaced.patched
  · unfold Spliced.changed?
    by_cases hnone : (spansWithin (levels ++ [inner]) text).filterMap (lookup.edit? text) = []
    · rw [if_pos hnone, if_pos (hreplaced.unchanged.mpr hnone)]
      rfl
    · rw [if_neg hnone, if_neg fun hzero => hnone (hreplaced.unchanged.mp hzero)]
      rfl
  · rw [hreplaced.count, editsWithin, Lookup.length_filterMap_edit?]
  · exact hreplaced.kept

/-- The same for patterns that are bound to one group. -/
theorem agrees_ofPattern {wanted : List Char} (lookup : Lookup) {levels : List Pattern}
    {q : Pattern} {text : List Char}
    (hahead : AheadFollowsWithin ((levels ++ [q]).map (ofPattern wanted)) text) :
    Agrees (ofPattern wanted q) lookup (levels.map (ofPattern wanted)) text
      (occurrences ((levels ++ [q]).map (ofPattern wanted)) text) := by
  rw [List.map_append, List.map_singleton] at hahead ⊢
  refine agrees_occurrences lookup ?_ (compiled_ofPattern wanted q) hahead
  simpa using fun p _ => compiled_ofPattern wanted p

theorem occurrences_singleton {matcher : Matcher} {text : List Char} (hm : matcher.Compiled) :
    occurrences [matcher] text = matcher.captureSpans text := by
  rw [occurrences_eq (by simpa using hm), spansWithin_singleton hm]

end Matcher

/-- Patterns that keep their captures in front of what follows do so at every level. -/
theorem Matcher.aheadFollowsWithin_of_ordered {wanted : List Char} {patterns : List Pattern}
    (h : ∀ p ∈ patterns, p.WellNumbered ∧
      p.ordered (isCaptureGroup wanted) (isAheadGroup wanted) = true) (text : List Char) :
    AheadFollowsWithin (patterns.map (ofPattern wanted)) text := by
  induction patterns generalizing text with
  | nil => trivial
  | cons p patterns ih =>
    obtain ⟨hnumbered, hordered⟩ := h p List.mem_cons_self
    refine ⟨aheadFollows_of_ordered hnumbered hordered text, fun region _ => ?_⟩
    exact ih (fun q hq => h q (List.mem_cons_of_mem _ hq)) region

/-- **A direct expression replaces what it finds, in a single pass.** Let `captures` be the captures
of the hits in scan order, and suppose that no hit gives text back in front of the end of its
capture. Then what is found is exactly the text at the captures; the captures follow one another
without overlap; the new text is the old one with every capture that resolves replaced by its value
and nothing else changed; there is no new text exactly if nothing resolves; and as many replacements
are reported as captures resolve. -/
theorem direct_replaces_what_it_finds {template : Template} {group : String}
    {caseSensitive : Bool} {mapping : Mapping} {p : Pattern} (text : String)
    (hmapping : mapping ≠ [])
    (hpattern : template.pattern (Lookup.ofMapping mapping caseSensitive).pattern caseSensitive =
      .ok p)
    (hahead : (Matcher.ofPattern group.toList p).AheadFollows text.toList) :
    let e : Expression := ⟨.direct template, group, caseSensitive⟩
    let lookup := Lookup.ofMapping mapping caseSensitive
    let captures := (Matcher.ofPattern group.toList p).captureSpans text.toList
    let edits := captures.filterMap (lookup.edit? text.toList)
    (∃ texts : List (List Char), captures.map (Span.slice? text.toList) = texts.map some ∧
      (e.findAll text (String.ofList lookup.pattern)).outcome = .ok (texts.map e.report)) ∧
    (∀ r ∈ captures, r.start ≤ r.stop) ∧ (captures.Pairwise fun r s => r.stop ≤ s.start) ∧
    (∃ out, Patched 0 text.toList edits out ∧ (e.replaceAll text mapping).outcome =
      .ok (if edits = [] then none else some (String.ofList out))) ∧
    ((e.replaceAll text mapping).outcome = .ok none ↔
      ∀ r ∈ captures, lookup.resolve? text.toList r = none) ∧
    ∃ absences, (∀ event ∈ absences, event = .groupAbsent group) ∧
      (e.replaceAll text mapping).events = absences ++
        [.directReplaced (captures.countP fun r => (lookup.resolve? text.toList r).isSome)] := by
  intro e lookup captures edits
  have hcompiled := Matcher.compiled_ofPattern group.toList p
  have hagrees :
      Matcher.Agrees (Matcher.ofPattern group.toList p) lookup [] text.toList captures := by
    have h := Matcher.agrees_occurrences lookup (List.forall_mem_nil _) hcompiled
      ⟨hahead, fun _ _ => trivial⟩
    rwa [List.nil_append, Matcher.occurrences_singleton hcompiled] at h
  have hrun : e.replaceAll text mapping = _ := Expression.replaceAll_direct text hmapping hpattern
  have houtcome := (congrArg Traced.outcome hrun).trans (congrArg Except.ok hagrees.changed)
  refine ⟨⟨_, hagrees.texts, ?_⟩, hagrees.start_le_stop, hagrees.pairwise,
    ⟨_, hagrees.patched, houtcome⟩, ?_,
    Matcher.absence group (Matcher.ofPattern group.toList p), fun _ => Matcher.mem_absence, ?_⟩
  · rw [Matcher.regions, List.flatMap_singleton]
    exact Expression.findAll_direct text (by rwa [String.toList_ofList])
  · rw [houtcome, Except.ok.injEq, Lookup.ite_filterMap_edit?_eq_none_iff]
  · rw [hrun, ← hagrees.count]
    rfl

/-- The keys of two names that are swapped. -/
theorem Lookup.pattern_swap :
    (Lookup.ofMapping [("a", "b"), ("b", "a")] true).pattern = ['a', '|', 'b'] := by
  have hle : keyLe "a" "b" = true := by decide
  have hkeys : (Lookup.ofMapping [("a", "b"), ("b", "a")] true).keys = ["a", "b"] := by
    simp [Lookup.ofMapping, List.mergeSort, List.MergeSort.Internal.splitInTwo, hle]
  rw [Lookup.pattern, hkeys]
  decide

/-- Two classes swapped in a selector: the character that ends one class begins the next one. -/
theorem direct_replaces_swapped_classes :
    ∃ p, (⟨"\\.(?P<main>%s)(?P<ahead>[.\x7b])", by decide⟩ : Template).pattern
        (Lookup.ofMapping [("a", "b"), ("b", "a")] true).pattern true = .ok p ∧
      (Matcher.ofPattern "main".toList p).AheadFollows ".a.b\x7b\x7d".toList ∧
      (((Matcher.ofPattern "main".toList p).captureSpans ".a.b\x7b\x7d".toList).Pairwise
        fun r s => r.stop ≤ s.start) := by
  obtain ⟨p, hp, hnumbered, hordered⟩ : ∃ p,
      (⟨"\\.(?P<main>%s)(?P<ahead>[.\x7b])", by decide⟩ : Template).pattern ['a', '|', 'b'] true =
        .ok p ∧ p.WellNumbered ∧
      p.ordered (isCaptureGroup "main".toList) (isAheadGroup "main".toList) = true :=
    ⟨_, rfl, by decide, by decide⟩
  have hahead := Matcher.aheadFollows_of_ordered hnumbered hordered ".a.b\x7b\x7d".toList
  rw [← Lookup.pattern_swap] at hp
  exact ⟨p, hp, hahead, (direct_replaces_what_it_finds ".a.b\x7b\x7d" (by simp) hp hahead).2.2.1⟩

/-- **A nested expression replaces what it finds, at any depth.** Let `found` be the occurrences
that the levels, one inside the regions of the other, narrow the text down to, as spans of the whole
text, and suppose that at every level no hit gives text back in front of the end of its capture.
Then what is found is exactly the text at the occurrences; they follow one another in document order
without overlap; the new text is the old one with every occurrence that resolves replaced by its
value and nothing else changed; as many replacements are reported as occurrences resolve; and there
is no new text exactly if that number is zero. -/
theorem nested_replaces_what_it_finds {outer inner : Template} {within : List Template}
    {group : String} {caseSensitive : Bool} {mapping : Mapping} {levels : List Pattern}
    {q : Pattern} (text : String) (hmapping : mapping ≠ [])
    (hlevels : List.Forall₂ (fun template p =>
      template.pattern (Lookup.ofMapping mapping caseSensitive).pattern caseSensitive = .ok p)
      (outer :: within) levels)
    (hinner : inner.pattern (Lookup.ofMapping mapping caseSensitive).pattern caseSensitive = .ok q)
    (hahead : Matcher.AheadFollowsWithin ((levels ++ [q]).map (Matcher.ofPattern group.toList))
      text.toList) :
    let e : Expression := ⟨.nested outer within inner, group, caseSensitive⟩
    let lookup := Lookup.ofMapping mapping caseSensitive
    let found := Matcher.occurrences ((levels ++ [q]).map (Matcher.ofPattern group.toList))
      text.toList
    let edits := found.filterMap (lookup.edit? text.toList)
    let count := found.countP fun r => (lookup.resolve? text.toList r).isSome
    (∃ texts : List (List Char), found.map (Span.slice? text.toList) = texts.map some ∧
      (e.findAll text (String.ofList lookup.pattern)).outcome = .ok (texts.map e.report)) ∧
    (∀ r ∈ found, r.start ≤ r.stop) ∧ (found.Pairwise fun r s => r.stop ≤ s.start) ∧
    (∃ out, Patched 0 text.toList edits out ∧ (e.replaceAll text mapping).outcome =
      .ok (if edits = [] then none else some (String.ofList out))) ∧
    (∃ absences, (∀ event ∈ absences, event = .groupAbsent group) ∧
      (e.replaceAll text mapping).events =
        absences ++ [.nestedReplaced (outer :: within).length count]) ∧
    ((e.replaceAll text mapping).outcome = .ok none ↔ count = 0) := by
  intro e lookup found edits count
  have hagrees : Matcher.Agrees (Matcher.ofPattern group.toList q) lookup
      (levels.map (Matcher.ofPattern group.toList)) text.toList found :=
    Matcher.agrees_ofPattern _ hahead
  have hrun : e.replaceAll text mapping = _ :=
    Expression.replaceAll_nested text hmapping hlevels hinner
  have houtcome := (congrArg Traced.outcome hrun).trans (congrArg Except.ok hagrees.changed)
  refine ⟨⟨_, hagrees.texts, ?_⟩, hagrees.start_le_stop, hagrees.pairwise,
    ⟨_, hagrees.patched, houtcome⟩, ⟨(levels ++ [q]).flatMap fun p =>
      Matcher.absence group (Matcher.ofPattern group.toList p), ?_, ?_⟩, ?_⟩
  · refine Expression.findAll_nested text ?_ ?_
    · rwa [String.toList_ofList]
    · rwa [String.toList_ofList]
  · intro event hevent
    obtain ⟨p, -, hp⟩ := List.mem_flatMap.mp hevent
    exact Matcher.mem_absence hp
  · have hcount : _ = count := hagrees.count
    rw [hrun, ← hcount, hlevels.length_eq]
  · rw [houtcome, Except.ok.injEq, Lookup.ite_filterMap_edit?_eq_none_iff]
    simp [count]

/-- Tokens inside quoted attribute values: the blank between two tokens belongs to both hits. -/
theorem nested_replaces_swapped_tokens :
    ∃ p q, (⟨"class=\"(?P<main>[^\"]*(?:%s)[^\"]*)\"", by decide⟩ : Template).pattern
        (Lookup.ofMapping [("a", "b"), ("b", "a")] true).pattern true = .ok p ∧
      (⟨"(?:^|\\s)(?P<main>%s)(?P<ahead>\\s|$)", by decide⟩ : Template).pattern
        (Lookup.ofMapping [("a", "b"), ("b", "a")] true).pattern true = .ok q ∧
      Matcher.AheadFollowsWithin ([p, q].map (Matcher.ofPattern "main".toList))
        "class=\"a b\"".toList ∧
      (Matcher.occurrences ([p, q].map (Matcher.ofPattern "main".toList))
        "class=\"a b\"".toList).Pairwise fun r s => r.stop ≤ s.start := by
  obtain ⟨p, hp, hpn, hpo⟩ : ∃ p,
      (⟨"class=\"(?P<main>[^\"]*(?:%s)[^\"]*)\"", by decide⟩ : Template).pattern ['a', '|', 'b']
        true = .ok p ∧ p.WellNumbered ∧
      p.ordered (isCaptureGroup "main".toList) (isAheadGroup "main".toList) = true :=
    ⟨_, rfl, by decide, by decide⟩
  obtain ⟨q, hq, hqn, hqo⟩ : ∃ q,
      (⟨"(?:^|\\s)(?P<main>%s)(?P<ahead>\\s|$)", by decide⟩ : Template).pattern
        ['a', '|', 'b'] true =
        .ok q ∧ q.WellNumbered ∧
      q.ordered (isCaptureGroup "main".toList) (isAheadGroup "main".toList) = true :=
    ⟨_, rfl, by decide, by decide⟩
  have hahead := Matcher.aheadFollowsWithin_of_ordered
    (List.forall_mem_cons.mpr ⟨⟨hpn, hpo⟩, List.forall_mem_singleton.mpr ⟨hqn, hqo⟩⟩)
    "class=\"a b\"".toList
  rw [← Lookup.pattern_swap] at hp hq
  exact ⟨p, q, hp, hq, hahead, (nested_replaces_what_it_finds "class=\"a b\"" (by simp)
    (.cons hp .nil) hq hahead).2.2.1⟩

end Relabel
