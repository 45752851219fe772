import Relabel.Proofs.Progress

/-!
# Substituting in one pass

A rewrite says for each hit whether something is to be replaced, which span of the text, and by
what. It may name any slice of the text: nothing keeps the spans apart or in order, and a template
that gives back text in front of its capture reports captures that overlap or repeat. Of the edits,
taken in the order of the hits, one is chosen unless it begins before the end of the one chosen last
(`Edit.chosen`).

`Pass` is the loop that does so with nothing but slices of the text, each of which may be ill-formed
and then fails the loop. One edit keeps what is known of the loop (`Pass.Stands.step`), so a whole
run does (`Pass.Stands.run`): no slice fails, and what comes out is what splicing yields. Hits begin
one behind the other, so a rewrite that remembers earlier hits is still a function of the hit.
-/

namespace Relabel

/-! ### The choice -/

namespace Edit

/-- Chooses an edit unless it begins before the end of the one chosen last. -/
def choose (taken : List Edit) (e : Edit) : List Edit :=
  if ∀ last ∈ taken.getLast?, last.span.stop ≤ e.span.start then taken ++ [e] else taken

/-- The edits that are chosen, gone through in order. -/
def chosen (edits : List Edit) : List Edit :=
  edits.foldl choose []

theorem foldl_choose_sublist (taken edits : List Edit) :
    (edits.foldl choose taken).Sublist (taken ++ edits) := by
  induction edits generalizing taken with
  | nil => rw [List.foldl_nil, List.append_nil]
  | cons e edits ih =>
    rw [List.foldl_cons]
    refine (ih (choose taken e)).trans ?_
    rw [choose]
    split
    · rw [List.append_assoc, List.singleton_append]
    · exact (List.sublist_cons_self e edits).append_left taken

/-- Choosing edits leaves some of them out. -/
theorem chosen_sublist (edits : List Edit) : (chosen edits).Sublist edits :=
  foldl_choose_sublist [] edits

end Edit

/-! ### The loop -/

/-- The state of a pass through a text: what it has written, the end of the span replaced last, and
how many were replaced. -/
structure Pass where
  output : List Char
  last : Nat
  count : Nat

namespace Pass

/-- Takes one edit. What lies between the end of the last span and this one is copied, if it is a
slice of the text. -/
def step (text : List Char) (pass : Pass) (e : Edit) : Option Pass :=
  if e.span.start < pass.last then some pass
  else do
    let gap ← Span.slice? text ⟨pass.last, e.span.start⟩
    return ⟨pass.output ++ (gap ++ e.text), e.span.stop, pass.count + 1⟩

/-- Ends a pass. The text itself is handed on if nothing was replaced; otherwise what is left of it
is copied, if that is a slice. -/
def finish (text : List Char) (pass : Pass) : Option (Option (List Char) × Nat) :=
  if pass.count = 0 then some (none, 0)
  else do
    let tail ← Span.slice? text ⟨pass.last, byteSize text⟩
    return (some (pass.output ++ tail), pass.count)

end Pass

/-- Applies edits to a text by copying slices of it: the new text, if there is one, and how many
edits were applied. It fails if a slice is ill-formed. -/
def substitute? (text : List Char) (edits : List Edit) : Option (Option (List Char) × Nat) := do
  let pass ← edits.foldlM (Pass.step text) ⟨[], 0, 0⟩
  pass.finish text

namespace Pass

variable {text front rest : List Char} {taken edits : List Edit} {e : Edit} {pass : Pass}

/-- What a pass comes to if the rest of the text is spliced. -/
def followedBy (pass : Pass) (spliced : Spliced) : Spliced :=
  ⟨pass.count + spliced.applied, pass.output ++ spliced.text⟩

/-- `pass.Stands text taken front rest`: the pass has come to the end of `front`, has written it
with the edits of `taken` applied, and compares with the last of them. -/
structure Stands (text : List Char) (taken : List Edit) (front rest : List Char) (pass : Pass) :
    Prop where
  cut : text = front ++ rest
  last : pass.last = byteSize front
  limit : ∀ start, pass.last ≤ start ↔ ∀ e ∈ taken.getLast?, e.span.stop ≤ start
  patched : Patched 0 front taken pass.output
  count : pass.count = taken.length

theorem stands_start (text : List Char) : Stands text [] [] text ⟨[], 0, 0⟩ where
  cut := rfl
  last := rfl
  limit := by simp
  patched := .kept 0 []
  count := rfl

/-- An edit that begins before the end of the last one is left out. -/
theorem Stands.step_skip (h : pass.Stands text taken front rest)
    (hstart : e.span.start < pass.last) :
    pass.step text e = some pass ∧ Edit.choose taken e = taken ∧
      ∀ later, spliceFrom pass.last rest (e :: later) = spliceFrom pass.last rest later := by
  refine ⟨?_, ?_, ?_⟩
  · rw [step, if_pos hstart]
  · rw [Edit.choose, if_neg]
    rw [← h.limit]
    omega
  · intro later
    have hcut : e.span.cut? pass.last rest = none := by
      rw [Span.cut?, if_neg]
      omega
    rw [spliceFrom, hcut]

/-- Any other edit is applied. The text in front of it is a slice because the last span ended at a
position of the text and this one begins at a later one. -/
theorem Stands.step_apply (h : pass.Stands text taken front rest)
    (hstart : pass.last ≤ e.span.start) {part : List Char}
    (hpart : e.span.slice? text = some part) :
    ∃ gap back, rest = gap ++ (part ++ back) ∧
      pass.step text e = some ⟨pass.output ++ (gap ++ e.text), e.span.stop, pass.count + 1⟩ ∧
      Stands text (taken ++ [e]) (front ++ (gap ++ part)) back
        ⟨pass.output ++ (gap ++ e.text), e.span.stop, pass.count + 1⟩ ∧
      ∀ later, spliceFrom pass.last rest (e :: later) =
        ⟨(spliceFrom e.span.stop back later).applied + 1,
          gap ++ (e.text ++ (spliceFrom e.span.stop back later).text)⟩ := by
  obtain ⟨rfl, hlast, -, hpatched, hcount⟩ := h
  obtain ⟨gap, back, hcut⟩ := Span.cut?_of_slice? hpart (hlast ▸ hstart)
  obtain ⟨rfl, hgap, hstop⟩ := Span.cut?_eq_some_iff.mp hcut
  have hslice :
      Span.slice? (front ++ (gap ++ (part ++ back))) ⟨pass.last, e.span.start⟩ = some gap :=
    Span.slice?_eq_some_iff.mpr ⟨front, part ++ back, rfl, hlast, by rw [hlast]; exact hgap⟩
  refine ⟨gap, back, rfl, ?_, ⟨by simp, ?_, by simp, ?_, by simp [hcount]⟩, ?_⟩
  · rw [step, if_neg (by omega), hslice]
    rfl
  · simp only [byteSize_append]
    omega
  · have hcut' : e.span.cut? (0 + byteSize front) (gap ++ part) = some (gap, part, []) :=
      Span.cut?_eq_some_iff.mpr ⟨by simp, by rw [Nat.zero_add]; exact hgap, hstop⟩
    have hedit := Patched.of_cut hcut' (.kept _ [])
    rw [List.append_nil] at hedit
    exact hpatched.append hedit
  · intro later
    rw [spliceFrom, hlast, hcut]
    simp only [List.append_assoc]

/-- **One edit.** The slice that the loop copies is well-formed, the loop goes on as the choice
does, and splicing what is left comes to the same before and after. -/
theorem Stands.step (h : pass.Stands text taken front rest)
    (hpart : ∃ part, e.span.slice? text = some part) :
    ∃ pass' front' rest', pass.step text e = some pass' ∧
      pass'.Stands text (Edit.choose taken e) front' rest' ∧
      ∀ later, pass'.followedBy (spliceFrom pass'.last rest' later) =
        pass.followedBy (spliceFrom pass.last rest (e :: later)) := by
  obtain ⟨part, hpart⟩ := hpart
  by_cases hstart : e.span.start < pass.last
  · obtain ⟨hstep, hchoose, hsplice⟩ := h.step_skip hstart
    refine ⟨pass, front, rest, hstep, ?_, ?_⟩
    · rw [hchoose]
      exact h
    · intro later
      rw [hsplice]
  · have hstart' := Nat.le_of_not_lt hstart
    obtain ⟨gap, back, rfl, hstep, hstands, hsplice⟩ := h.step_apply hstart' hpart
    refine ⟨_, front ++ (gap ++ part), back, hstep, ?_, ?_⟩
    · rw [Edit.choose, if_pos ((h.limit _).mp hstart')]
      exact hstands
    · intro later
      rw [hsplice]
      simp only [followedBy, List.append_assoc, Spliced.mk.injEq, and_true]
      omega

/-- **A run of the loop.** It never fails, it applies the edits that are chosen, and what it has
written at its end, with what is left of the text, is what splicing yields. -/
theorem Stands.run (h : pass.Stands text taken front rest)
    (hedits : ∀ e ∈ edits, ∃ part, e.span.slice? text = some part) :
    ∃ pass' front' rest', edits.foldlM (Pass.step text) pass = some pass' ∧
      pass'.Stands text (edits.foldl Edit.choose taken) front' rest' ∧
      pass.followedBy (spliceFrom pass.last rest edits) =
        ⟨pass'.count, pass'.output ++ rest'⟩ := by
  induction edits generalizing pass taken front rest with
  | nil => exact ⟨pass, front, rest, rfl, h, rfl⟩
  | cons e edits ih =>
    obtain ⟨hfirst, hothers⟩ := List.forall_mem_cons.mp hedits
    obtain ⟨next, front', rest', hstep, hnext, hsplice⟩ := h.step hfirst
    obtain ⟨final, front'', rest'', hrun, hfinal, hcomes⟩ := ih hnext hothers
    refine ⟨final, front'', rest'', ?_, ?_, ?_⟩
    · rw [List.foldlM_cons, hstep]
      exact hrun
    · rw [List.foldl_cons]
      exact hfinal
    · rw [← hsplice, hcomes]

end Pass

section Substitution

variable {text : List Char} {edits : List Edit}

/-- A pass from the start of a text applies the edits that are chosen and is what splicing does. -/
theorem exists_pass (hedits : ∀ e ∈ edits, ∃ part, e.span.slice? text = some part) :
    ∃ pass front rest, edits.foldlM (Pass.step text) ⟨[], 0, 0⟩ = some pass ∧
      pass.Stands text (Edit.chosen edits) front rest ∧
      splice text edits = ⟨pass.count, pass.output ++ rest⟩ := by
  obtain ⟨pass, front, rest, hrun, hstands, hcomes⟩ := (Pass.stands_start text).run hedits
  refine ⟨pass, front, rest, hrun, hstands, ?_⟩
  rw [← hcomes, Pass.followedBy, Nat.zero_add, List.nil_append, splice]

/-- **No slice is ill-formed**, and copying slices does what splicing does. -/
theorem substitute?_eq (hedits : ∀ e ∈ edits, ∃ part, e.span.slice? text = some part) :
    substitute? text edits = some ((splice text edits).changed?, (splice text edits).applied) := by
  obtain ⟨pass, front, rest, hrun, hstands, hsplice⟩ := exists_pass hedits
  have htail : Span.slice? text ⟨pass.last, byteSize text⟩ = some rest := by
    rw [hstands.cut, hstands.last, byteSize_append]
    exact Span.slice?_eq_some_iff.mpr ⟨front, [], by simp, rfl, rfl⟩
  rw [substitute?, hrun, hsplice, Option.bind_eq_bind, Option.bind_some, Pass.finish,
    Spliced.changed?]
  by_cases hcount : pass.count = 0
  · simp only [hcount, if_true]
  · simp only [hcount, if_false, htail]
    rfl

/-- The edits that are chosen are applied, and nothing else. -/
theorem splice_chosen (hedits : ∀ e ∈ edits, ∃ part, e.span.slice? text = some part) :
    Patched 0 text (Edit.chosen edits) (splice text edits).text ∧
      (splice text edits).applied = (Edit.chosen edits).length := by
  obtain ⟨pass, front, rest, -, hstands, hsplice⟩ := exists_pass hedits
  have hpatched := hstands.patched.append (.kept (0 + byteSize front) rest)
  rw [List.append_nil, ← hstands.cut] at hpatched
  rw [hsplice]
  exact ⟨hpatched, hstands.count⟩

end Substitution

theorem Spliced.changed?_eq_none_iff {s : Spliced} : s.changed? = none ↔ s.applied = 0 := by
  simp [changed?]

/-- If nothing is applied the text stays as it is. -/
theorem getD_changed? {text : List Char} {edits : List Edit}
    (hedits : ∀ e ∈ edits, ∃ part, e.span.slice? text = some part) :
    (splice text edits).changed?.getD text = (splice text edits).text := by
  rw [Spliced.changed?]
  split
  · rename_i happlied
    obtain ⟨hpatched, hlength⟩ := splice_chosen hedits
    have hnil : Edit.chosen edits = [] :=
      List.eq_nil_of_length_eq_zero (hlength.symm.trans happlied)
    rw [hnil] at hpatched
    exact (Patched.kept 0 text).unique hpatched
  · rfl

/-- **Substitution is safe and greedy.** For every compiled template, every text and every rewrite
that names slices of the text, let `edits` be what it answers to the hits, in their order. Copying
slices of the text does not fail and does what splicing does. The result is the text with the spans
of the chosen edits replaced and nothing else, where an edit is chosen unless it begins before the
end of the one chosen last. The count is the number of edits chosen, of which there are no more than
hits that are answered, and the text itself is the result exactly if the count is zero. What hits
capture and what they consume are slices of the text, so the rewrites of expressions are such. -/
theorem substitution_safe_and_greedy {template : Template} {pattern : List Char} {group : String}
    {caseSensitive : Bool} {matcher : Matcher}
    (hmatcher : (Matcher.compile template pattern group caseSensitive).outcome = .ok matcher)
    (text : List Char) {rewrite : Hit → Option Edit}
    (hrewrite : ∀ hit ∈ matcher.scan text, ∀ e, rewrite hit = some e →
      ∃ part, e.span.slice? text = some part) :
    let edits := (matcher.scan text).filterMap rewrite
    let result := (splice text edits).changed?
    let count := (splice text edits).applied
    substitute? text edits = some (result, count) ∧
      Patched 0 text (Edit.chosen edits) (result.getD text) ∧
      count = (Edit.chosen edits).length ∧
      count ≤ (matcher.scan text).countP (fun hit => (rewrite hit).isSome) ∧
      (result = none ↔ count = 0) ∧
      ∀ hit ∈ matcher.scan text, (∃ part, hit.consumed.slice? text = some part) ∧
        ∀ span, hit.capture = some span → ∃ part, span.slice? text = some part := by
  intro edits result count
  obtain ⟨p, -, rfl⟩ := Matcher.eq_ofPattern_of_compile hmatcher
  have hm := Matcher.compiled_ofPattern group.toList p
  have hedits : ∀ e ∈ edits, ∃ part, e.span.slice? text = some part := by
    intro e he
    obtain ⟨hit, hhit, hanswer⟩ := List.mem_filterMap.mp he
    exact hrewrite hit hhit e hanswer
  obtain ⟨hpatched, hlength⟩ := splice_chosen hedits
  refine ⟨substitute?_eq hedits, ?_, hlength, ?_, Spliced.changed?_eq_none_iff, ?_⟩
  · rw [getD_changed? hedits]
    exact hpatched
  · rw [← List.length_filterMap_eq_countP]
    calc count = (Edit.chosen edits).length := hlength
      _ ≤ edits.length := (Edit.chosen_sublist edits).length_le
  · intro hit hhit
    refine ⟨hm.consumed_slice hit hhit, ?_⟩
    intro span hspan
    exact hm.captureSpans_slice (List.mem_filterMap.mpr ⟨hit, hhit, hspan⟩)

/-- Writes an `x` over the capture of a hit. -/
def Hit.crossOut (hit : Hit) : Option Edit :=
  hit.capture.map fun span => ⟨span, ['x']⟩

/-- Edits of `abcdéf`, each of which begins before the end of the one in front of it. -/
def Edit.overlapping : List Edit :=
  [⟨⟨2, 4⟩, ['x']⟩, ⟨⟨3, 6⟩, ['x']⟩, ⟨⟨4, 7⟩, ['x']⟩]

/-- A template that gives back text in front of its capture, so that each capture overlaps the next:
of three captures the second one is left alone. -/
theorem substitution_safe_and_greedy_overlapping :
    ∃ matcher, (Matcher.compile ⟨".(?P<ahead>.)(?P<main>%s)", by decide⟩ ['.', '.'] "main"
        true).outcome = .ok matcher ∧
      (∀ hit ∈ matcher.scan "abcdéf".toList, ∀ e, hit.crossOut = some e →
        ∃ part, e.span.slice? "abcdéf".toList = some part) ∧
      (matcher.scan "abcdéf".toList).filterMap Hit.crossOut = Edit.overlapping ∧
      Edit.chosen Edit.overlapping = [⟨⟨2, 4⟩, ['x']⟩, ⟨⟨4, 7⟩, ['x']⟩] ∧
      substitute? "abcdéf".toList Edit.overlapping = some (some "abxx".toList, 2) := by
  have hrun : ((Matcher.compile ⟨".(?P<ahead>.)(?P<main>%s)", by decide⟩ ['.', '.'] "main"
      true).outcome.toOption.any fun matcher =>
        (matcher.scan "abcdéf".toList).filterMap Hit.crossOut == Edit.overlapping) = true := by
    decide
  obtain ⟨matcher, hmatcher, hpassed⟩ := exists_ok_of_any hrun
  have hedits := beq_iff_eq.mp hpassed
  have hslices : ∀ e ∈ Edit.overlapping, (e.span.slice? "abcdéf".toList).isSome = true := by
    decide
  have hrewrite : ∀ hit ∈ matcher.scan "abcdéf".toList, ∀ e, hit.crossOut = some e →
      ∃ part, e.span.slice? "abcdéf".toList = some part := by
    intro hit hhit e he
    refine Option.isSome_iff_exists.mp (hslices e ?_)
    rw [← hedits]
    exact List.mem_filterMap.mpr ⟨hit, hhit, he⟩
  obtain ⟨hsubstitute, -⟩ := substitution_safe_and_greedy hmatcher "abcdéf".toList hrewrite
  rw [hedits] at hsubstitute
  exact ⟨matcher, hmatcher, hrewrite, hedits, by decide, hsubstitute⟩

end Relabel
