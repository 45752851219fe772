import Relabel.Proofs.Filling
import Relabel.Proofs.Progress
import Relabel.Proofs.UnfailingExpressions

/-!
# Decorated values

A parallel expression finds what a direct one finds. It differs in what it writes: a decorated value
over all that a hit consumed, where a direct expression writes the value over the capture. Hits
consume stretches that follow one another, so none of them is left out. If the decoration is what
stands around the captures already, it makes no difference whether it is written again: an edit may
be narrowed to what it changes (`Patched.narrow`).
-/

namespace Relabel

/-! ### Slots in a decoration -/

/-- Where there is no slot, nothing is filled in. -/
theorem fillSlots_of_hasSlot {text : List Char} (h : hasSlot text = false) (filling : List Char) :
    fillSlots filling text = text := by
  fun_induction fillSlots filling text with
  | case1 rest ih => cases h
  | case2 c rest hslot ih =>
    rw [hasSlot] at h
    · rw [ih h]
    · exact hslot
  | case3 => rfl

/-- A decoration with one slot puts its two parts around a value, whatever the value is. -/
theorem fillSlots_decoration {left right : List Char} (hleft : hasSlot left = false)
    (hright : hasSlot right = false) (value : List Char) :
    fillSlots value (left ++ '%' :: 's' :: right) = left ++ (value ++ right) := by
  rw [fillSlots_append_of_apart (by simp), fillSlots_of_hasSlot hleft, fillSlots,
    fillSlots_of_hasSlot hright]

/-! ### Edits that restate what stands there -/

/-- Neighbouring slices make up one slice. -/
theorem Span.slice?_join {text part part' : List Char} {start middle stop : Nat}
    (h : (⟨start, middle⟩ : Span).slice? text = some part)
    (h' : (⟨middle, stop⟩ : Span).slice? text = some part') :
    (⟨start, stop⟩ : Span).slice? text = some (part ++ part') := by
  obtain ⟨front, back, htext, hstart, hmiddle⟩ := slice?_eq_some_iff.mp h
  obtain ⟨front', back', htext', hstart', hstop⟩ := slice?_eq_some_iff.mp h'
  simp only at hstart hmiddle hstart' hstop
  have hcut : splitBytes? middle text = some (front ++ part, back) :=
    splitBytes?_eq_some_iff.mpr ⟨by simp [htext], by rw [byteSize_append]; omega⟩
  have hcut' : splitBytes? middle text = some (front', part' ++ back') :=
    splitBytes?_eq_some_iff.mpr ⟨htext', hstart'.symm⟩
  obtain ⟨-, rfl⟩ := Prod.mk.inj (Option.some.inj (hcut.symm.trans hcut'))
  refine slice?_eq_some_iff.mpr ⟨front, back', by simp [htext], hstart, ?_⟩
  rw [byteSize_append]
  simp only
  omega

/-- `Edit.Narrows base text wide narrow`: the two edits do the same to a text that begins at byte
`base`. What the wide edit writes around the text of the narrow one stands there already. -/
def Edit.Narrows (base : Nat) (text : List Char) (wide narrow : Edit) : Prop :=
  ∀ front old back, wide.span.cut? base text = some (front, old, back) →
    ∃ left middle right, old = left ++ (middle ++ right) ∧
      wide.text = left ++ (narrow.text ++ right) ∧
      narrow.span = ⟨wide.span.start + byteSize left,
        wide.span.start + byteSize left + byteSize middle⟩

/-- **Edits may be narrowed to what they change.** -/
theorem Patched.narrow {base : Nat} {text out : List Char} {edits edits' : List Edit}
    (h : Patched base text edits out)
    (hnarrows : List.Forall₂ (Edit.Narrows base text) edits edits') :
    Patched base text edits' out := by
  induction h generalizing edits' with
  | kept base text =>
    obtain rfl := List.forall₂_nil_left_iff.mp hnarrows
    exact .kept base text
  | @edit base front old back result edits new rest ih =>
    obtain ⟨narrow, others, hnarrow, hothers, rfl⟩ := List.forall₂_cons_left_iff.mp hnarrows
    obtain ⟨left, middle, right, rfl, rfl, hspan⟩ :=
      hnarrow front old back (Span.cut?_eq_some_iff.mpr ⟨rfl, rfl, rfl⟩)
    -- the later edits are cut out of what follows this one
    have hlater : List.Forall₂
        (Edit.Narrows (base + byteSize front + byteSize (left ++ (middle ++ right))) back)
        edits others := by
      refine hothers.imp ?_
      intro wide narrow' hnarrow' front' old' back' hcut
      obtain ⟨rfl, hstart, hstop⟩ := Span.cut?_eq_some_iff.mp hcut
      refine hnarrow' (front ++ (left ++ (middle ++ right) ++ front')) old' back' ?_
      refine Span.cut?_eq_some_iff.mpr ⟨by simp, ?_, hstop⟩
      simp only [byteSize_append] at hstart ⊢
      omega
    have hrest : Patched (base + byteSize (front ++ left) + byteSize middle) (right ++ back) others
        (right ++ result) := by
      refine Patched.prepend right ?_
      have hsize : base + byteSize (front ++ left) + byteSize middle + byteSize right =
          base + byteSize front + byteSize (left ++ (middle ++ right)) := by
        simp only [byteSize_append]
        omega
      rw [hsize]
      exact ih hlater
    have hstart : base + byteSize front + byteSize left = base + byteSize (front ++ left) := by
      rw [byteSize_append, Nat.add_assoc]
    obtain ⟨span, written⟩ := narrow
    simp only [hstart] at hspan
    subst hspan
    simpa using Patched.edit written hrest

/-! ### Hits that resolve -/

/-- A hit with a capture that resolves. -/
structure Resolved where
  consumed : Span
  capture : Span
  value : String
deriving DecidableEq, Repr

namespace Resolved

/-- `r.Framed text left right`: in what the hit consumed, these texts stand in front of the capture
and behind it. -/
def Framed (text left right : List Char) (r : Resolved) : Prop :=
  (⟨r.consumed.start, r.capture.start⟩ : Span).slice? text = some left ∧
    (⟨r.capture.stop, r.consumed.stop⟩ : Span).slice? text = some right

def plainEdit (r : Resolved) : Edit :=
  ⟨r.capture, r.value.toList⟩

/-- Writes the value and what decorates it over what was consumed. -/
def decoratedEdit (left right : List Char) (r : Resolved) : Edit :=
  ⟨r.consumed, left ++ (r.value.toList ++ right)⟩

/-- If a hit is framed by what decorates its value, it does not matter which of the two edits is
made. -/
theorem Framed.narrows {text left right part : List Char} {r : Resolved}
    (h : r.Framed text left right) (hpart : r.capture.slice? text = some part) :
    Edit.Narrows 0 text (r.decoratedEdit left right) r.plainEdit := by
  intro front old back hcut
  have hconsumed := Span.slice?_join h.1 (Span.slice?_join hpart h.2)
  have hold : r.consumed.slice? text = some old := by
    rw [Span.slice?]
    exact Option.map_eq_some_iff.mpr ⟨_, hcut, rfl⟩
  refine ⟨left, part, right, Option.some.inj (hold.symm.trans hconsumed), rfl, ?_⟩
  have hstart := (Span.stop_le_of_slice? h.1).2.2
  have hstop := (Span.stop_le_of_slice? hpart).2.2
  simp only at hstart
  rw [plainEdit, decoratedEdit]
  simp only [← hstart, ← hstop]

end Resolved

namespace Matcher

variable {matcher : Matcher} {lookup : Lookup} {text : List Char}

/-- The hits in a text with a capture that resolves, in scan order. -/
def resolved (matcher : Matcher) (lookup : Lookup) (text : List Char) : List Resolved :=
  (matcher.scan text).filterMap fun hit => hit.capture.bind fun span =>
    (lookup.resolve? text span).map (Resolved.mk hit.consumed span)

theorem mem_resolved {r : Resolved} (h : r ∈ matcher.resolved lookup text) :
    ∃ hit ∈ matcher.scan text, hit.consumed = r.consumed ∧ hit.capture = some r.capture := by
  obtain ⟨hit, hhit, hresolved⟩ := List.mem_filterMap.mp h
  obtain ⟨span, hspan, hvalue⟩ := Option.bind_eq_some_iff.mp hresolved
  obtain ⟨value, -, rfl⟩ := Option.map_eq_some_iff.mp hvalue
  exact ⟨hit, hhit, rfl, hspan⟩

/-- Replacing captures is writing a value over each that resolves. -/
theorem replaceCaptures_eq_resolved :
    matcher.replaceCaptures lookup text =
      splice text ((matcher.resolved lookup text).map Resolved.plainEdit) := by
  rw [replaceCaptures_eq, captureSpans, resolved, List.filterMap_filterMap, List.map_filterMap]
  refine congrArg (splice text) (List.filterMap_congr fun hit _ => ?_)
  cases hit.capture with
  | none => rfl
  | some span => simp [Lookup.edit?, Resolved.plainEdit, Function.comp_def]

/-- A parallel expression writes over what each hit consumed, if that covers the capture. -/
theorem replaceConsumed_eq_resolved {left right : List Char} (hleft : hasSlot left = false)
    (hright : hasSlot right = false)
    (hcovers : ∀ r ∈ matcher.resolved lookup text, r.consumed.covers r.capture = true) :
    matcher.replaceConsumed (left ++ '%' :: 's' :: right) lookup text =
      splice text ((matcher.resolved lookup text).map (Resolved.decoratedEdit left right)) := by
  rw [replaceConsumed, resolved, List.map_filterMap]
  refine congrArg (splice text) (List.filterMap_congr fun hit hhit => ?_)
  cases hcapture : hit.capture with
  | none => rfl
  | some span =>
    cases hvalue : lookup.resolve? text span with
    | none =>
      rw [Lookup.resolve?, Option.bind_eq_none_iff] at hvalue
      simp only [Option.bind_eq_bind, Option.bind_some, Lookup.resolve?]
      cases hslice : span.slice? text with
      | none => rfl
      | some identifier => simp [hvalue identifier hslice]
    | some value =>
      have hmem : ⟨hit.consumed, span, value⟩ ∈ matcher.resolved lookup text :=
        List.mem_filterMap.mpr ⟨hit, hhit, by simp [hcapture, hvalue]⟩
      have hcover : hit.consumed.covers span = true := hcovers _ hmem
      obtain ⟨identifier, hslice, hget⟩ := Option.bind_eq_some_iff.mp hvalue
      simp [hslice, hget, hvalue, hcover, fillSlots_decoration hleft hright,
        Resolved.decoratedEdit]

namespace Compiled

theorem resolved_capture_slice (hm : matcher.Compiled) {r : Resolved}
    (h : r ∈ matcher.resolved lookup text) : ∃ part, r.capture.slice? text = some part := by
  obtain ⟨hit, hhit, -, hcapture⟩ := mem_resolved h
  exact hm.captureSpans_slice (List.mem_filterMap.mpr ⟨hit, hhit, hcapture⟩)

/-- What hits consume follows one another. -/
theorem resolved_pairwise (hm : matcher.Compiled) :
    (matcher.resolved lookup text).Pairwise fun r s => r.consumed.stop ≤ s.consumed.start := by
  rw [resolved, List.pairwise_filterMap]
  refine hm.consumed_pairwise.imp ?_
  intro a b hab r hr s hs
  obtain ⟨_, -, hr⟩ := Option.bind_eq_some_iff.mp hr
  obtain ⟨_, -, rfl⟩ := Option.map_eq_some_iff.mp hr
  obtain ⟨_, -, hs⟩ := Option.bind_eq_some_iff.mp hs
  obtain ⟨_, -, rfl⟩ := Option.map_eq_some_iff.mp hs
  exact hab.2

/-- All decorated values are written. -/
theorem patched_decorated (hm : matcher.Compiled) (left right : List Char) :
    ∃ out, Patched 0 text
        ((matcher.resolved lookup text).map (Resolved.decoratedEdit left right)) out ∧
      splice text ((matcher.resolved lookup text).map (Resolved.decoratedEdit left right)) =
        ⟨(matcher.resolved lookup text).length, out⟩ := by
  have hpatched := splice_patched text
    ((matcher.resolved lookup text).map (Resolved.decoratedEdit left right)) ?_ ?_
  · rwa [List.length_map] at hpatched
  · refine List.forall_mem_map.mpr fun r hr => ?_
    obtain ⟨hit, hhit, hconsumed, -⟩ := mem_resolved hr
    obtain ⟨part, hpart⟩ := hm.consumed_slice hit hhit
    refine ⟨part, ?_⟩
    rw [Resolved.decoratedEdit, ← hconsumed]
    exact hpart
  · rw [List.pairwise_map]
    exact hm.resolved_pairwise

/-- All values are written over captures that lie in what was consumed. -/
theorem patched_plain (hm : matcher.Compiled)
    (hcovers : ∀ r ∈ matcher.resolved lookup text, r.consumed.covers r.capture = true) :
    ∃ out, Patched 0 text ((matcher.resolved lookup text).map Resolved.plainEdit) out ∧
      splice text ((matcher.resolved lookup text).map Resolved.plainEdit) =
        ⟨(matcher.resolved lookup text).length, out⟩ := by
  have hpatched := splice_patched text ((matcher.resolved lookup text).map Resolved.plainEdit) ?_ ?_
  · rwa [List.length_map] at hpatched
  · exact List.forall_mem_map.mpr fun r hr => hm.resolved_capture_slice hr
  · rw [List.pairwise_map]
    refine hm.resolved_pairwise.imp_of_mem ?_
    intro r s hr hs hrs
    have hstop := hcovers r hr
    have hstart := hcovers s hs
    simp only [Span.covers, Bool.and_eq_true, decide_eq_true_eq] at hstop hstart
    simp only [Resolved.plainEdit]
    omega

/-- Where the decoration stands around every capture already, writing it again changes nothing. -/
theorem splice_decorated_eq (hm : matcher.Compiled) {left right : List Char}
    (hcovers : ∀ r ∈ matcher.resolved lookup text, r.consumed.covers r.capture = true)
    (hframed : ∀ r ∈ matcher.resolved lookup text, r.Framed text left right) :
    splice text ((matcher.resolved lookup text).map (Resolved.decoratedEdit left right)) =
      splice text ((matcher.resolved lookup text).map Resolved.plainEdit) := by
  obtain ⟨out, hpatched, hsplice⟩ := patched_decorated hm left right
  obtain ⟨out', hpatched', hsplice'⟩ := hm.patched_plain hcovers
  have hnarrows : List.Forall₂ (Edit.Narrows 0 text)
      ((matcher.resolved lookup text).map (Resolved.decoratedEdit left right))
      ((matcher.resolved lookup text).map Resolved.plainEdit) := by
    rw [List.forall₂_map_left_iff, List.forall₂_map_right_iff, List.forall₂_same]
    intro r hr
    obtain ⟨part, hpart⟩ := hm.resolved_capture_slice hr
    exact (hframed r hr).narrows hpart
  rw [hsplice, hsplice', (hpatched.narrow hnarrows).unique hpatched']

end Compiled

end Matcher

/-! ### Parallel expressions -/

/-- There is a new text if something was applied. -/
theorem Spliced.changed?_length {α : Type} (applied : List α) (out : List Char) :
    (⟨applied.length, out⟩ : Spliced).changed?.map String.ofList =
      if applied = [] then none else some (String.ofList out) := by
  cases applied <;> simp [changed?]

namespace Expression

variable {template : Template} {decoration group : String} {caseSensitive : Bool}
variable {mapping : Mapping} {p : Pattern}

/-- What an expression that decorates values makes of a text, and what it reports. -/
theorem replaceAll_parallel (text : String) (hmapping : mapping ≠ [])
    (h : template.pattern (Lookup.ofMapping mapping caseSensitive).pattern caseSensitive = .ok p) :
    (⟨.parallel template decoration, group, caseSensitive⟩ : Expression).replaceAll text mapping =
      ⟨.ok (((Matcher.ofPattern group.toList p).replaceConsumed decoration.toList
          (Lookup.ofMapping mapping caseSensitive) text.toList).changed?.map String.ofList),
        Matcher.absence group (Matcher.ofPattern group.toList p) ++
          [.parallelReplaced ((Matcher.ofPattern group.toList p).replaceConsumed decoration.toList
            (Lookup.ofMapping mapping caseSensitive) text.toList).applied]⟩ := by
  have hempty : mapping.isEmpty = false := by simpa using hmapping
  simp only [replaceAll, hempty, matcher, Matcher.compile_of_ok h, Traced.bind_ok]
  rfl

/-- A template that is no pattern once it is filled fails before anything is replaced. -/
theorem compile_of_error {pattern : List Char} {error : Error}
    (h : template.pattern pattern caseSensitive = .error error) :
    Matcher.compile template pattern group caseSensitive = ⟨.error error, []⟩ := by
  unfold Matcher.compile
  rw [h]
  rfl

end Expression

/-- **A parallel expression agrees with a direct one if its decoration restates what stands around
the captures.** For every template, group, text and non-empty mapping and every decoration with one
slot, both find the same with the same report, for every pattern, and both fail alike if the
template is no pattern for the keys. Otherwise, let `resolved` be the hits whose captures resolve,
and suppose that each of these captures lies in what its hit consumed. Then the parallel expression
replaces what every one of them consumed by the two parts of the decoration around the value, which
is inserted as it is, and nothing else; their number is reported. If moreover the two parts of the
decoration are what stood around each capture, the outcome is that of the direct expression, which
reports the same number. -/
theorem parallel_agrees_with_direct (template : Template) (group : String) (caseSensitive : Bool)
    (text : String) {mapping : Mapping} (hmapping : mapping ≠ []) {left right : List Char}
    (hleft : hasSlot left = false) (hright : hasSlot right = false) :
    let direct : Expression := ⟨.direct template, group, caseSensitive⟩
    let parallel : Expression :=
      ⟨.parallel template (String.ofList (left ++ '%' :: 's' :: right)), group, caseSensitive⟩
    let lookup := Lookup.ofMapping mapping caseSensitive
    (∀ pattern, parallel.findAll text pattern = direct.findAll text pattern) ∧
    (∀ error, template.pattern lookup.pattern caseSensitive = .error error →
      (parallel.replaceAll text mapping).outcome = .error error ∧
        (direct.replaceAll text mapping).outcome = .error error) ∧
    ∀ p, template.pattern lookup.pattern caseSensitive = .ok p →
      let resolved := (Matcher.ofPattern group.toList p).resolved lookup text.toList
      (∀ r ∈ resolved, r.consumed.covers r.capture = true) →
        (∃ out, Patched 0 text.toList
            (resolved.map fun r => ⟨r.consumed, left ++ (r.value.toList ++ right)⟩) out ∧
          (parallel.replaceAll text mapping).outcome =
            .ok (if resolved = [] then none else some (String.ofList out)) ∧
          (parallel.replaceAll text mapping).events.getLast? =
            some (.parallelReplaced resolved.length)) ∧
        ((∀ r ∈ resolved, r.Framed text.toList left right) →
          (parallel.replaceAll text mapping).outcome = (direct.replaceAll text mapping).outcome ∧
          (direct.replaceAll text mapping).events.getLast? =
            some (.directReplaced resolved.length)) := by
  intro direct parallel lookup
  have hempty : mapping.isEmpty = false := by simpa using hmapping
  refine ⟨fun pattern => rfl, ?_, ?_⟩
  · intro error herror
    have hcompile : Matcher.compile template lookup.pattern group caseSensitive =
        ⟨.error error, []⟩ := Expression.compile_of_error herror
    constructor
    · simp only [parallel, Expression.replaceAll, hempty, Expression.matcher]
      exact congrArg (fun run : Traced Matcher => (run >>= _).outcome) hcompile
    · simp only [direct, Expression.replaceAll, hempty, Expression.matcher]
      exact congrArg (fun run : Traced Matcher => (run >>= _).outcome) hcompile
  · intro p hp resolved hcovers
    have hm := Matcher.compiled_ofPattern group.toList p
    have hparallel : parallel.replaceAll text mapping = _ :=
      Expression.replaceAll_parallel text hmapping hp
    have hdirect : direct.replaceAll text mapping = _ :=
      Expression.replaceAll_direct text hmapping hp
    rw [String.toList_ofList, Matcher.replaceConsumed_eq_resolved hleft hright hcovers] at hparallel
    rw [Matcher.replaceCaptures_eq_resolved] at hdirect
    obtain ⟨out, hpatched, hsplice⟩ :=
      Matcher.Compiled.patched_decorated hm left right
    refine ⟨⟨out, hpatched, ?_, ?_⟩, fun hframed => ⟨?_, ?_⟩⟩
    · rw [hparallel, hsplice, Spliced.changed?_length]
    · rw [hparallel, hsplice, List.getLast?_concat]
    · rw [hparallel, hdirect, hm.splice_decorated_eq hcovers hframed]
    · obtain ⟨out', -, hsplice'⟩ := hm.patched_plain hcovers
      rw [hdirect, hsplice', List.getLast?_concat]

/-- Two hits, one of them behind a character of two bytes, and a value that looks like a slot. -/
theorem parallel_agrees_with_direct_slot :
    ∃ p, (⟨"\\.(?P<main>%s)", by decide⟩ : Template).pattern
        (Lookup.ofMapping [("a", "%s")] true).pattern true = .ok p ∧
      (Matcher.ofPattern "main".toList p).resolved (Lookup.ofMapping [("a", "%s")] true)
        ".aé.a".toList = [⟨⟨0, 2⟩, ⟨1, 2⟩, "%s"⟩, ⟨⟨4, 6⟩, ⟨5, 6⟩, "%s"⟩] ∧
      hasSlot ['.'] = false ∧ hasSlot [] = false ∧
      ((⟨.parallel ⟨"\\.(?P<main>%s)", by decide⟩ ".%s", "main", true⟩ : Expression).replaceAll
        ".aé.a" [("a", "%s")]).outcome =
        ((⟨.direct ⟨"\\.(?P<main>%s)", by decide⟩, "main", true⟩ : Expression).replaceAll
          ".aé.a" [("a", "%s")]).outcome := by
  have hrun : ((⟨"\\.(?P<main>%s)", by decide⟩ : Template).pattern ['a'] true).toOption.any
      (fun p => (Matcher.ofPattern "main".toList p).resolved (Lookup.ofMapping [("a", "%s")] true)
        ".aé.a".toList == [⟨⟨0, 2⟩, ⟨1, 2⟩, "%s"⟩, ⟨⟨4, 6⟩, ⟨5, 6⟩, "%s"⟩]) = true := by
    decide +kernel
  have hkeys : (Lookup.ofMapping [("a", "%s")] true).pattern = ['a'] :=
    Lookup.pattern_singleton "a" "%s" true
  obtain ⟨p, hp, hpassed⟩ := exists_ok_of_any hrun
  have hresolved := beq_iff_eq.mp hpassed
  obtain ⟨-, -, hagree⟩ := @parallel_agrees_with_direct ⟨"\\.(?P<main>%s)", by decide⟩ "main" true
    ".aé.a" [("a", "%s")] (by simp) ['.'] [] (by decide) (by decide)
  rw [← hkeys] at hp
  have hframed := (hagree p hp (by rw [hresolved]; decide)).2
  refine ⟨p, hp, hresolved, by decide, by decide, (hframed ?_).1⟩
  rw [hresolved]
  simp only [Resolved.Framed]
  decide

end Relabel
