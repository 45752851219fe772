import Mathlib.Data.List.Basic
import Relabel.Expression.Matcher
import Relabel.Proofs.Matches

/-!
# Scanning

The hits of a matcher follow one another: each begins where scanning resumed after the hit before,
or further on. Their captures follow one another too, provided that no hit gives text back that lies
in front of the end of its capture (`Matcher.AheadFollows`). Without that, the next capture may
overlap.
-/

namespace Relabel.Matcher

def captureSpans (matcher : Matcher) (text : List Char) : List Span :=
  (matcher.scan text).filterMap Hit.capture

/-- In every hit, the text that is looked at without being consumed starts at or behind the end of
the capture, if both groups took part. -/
def AheadFollows (matcher : Matcher) (text : List Char) : Prop :=
  ∀ entry ∈ matcher.walk text, ∀ capture ahead, matcher.capture? entry.1 = some capture →
    matcher.ahead? entry.1 = some ahead → capture.stop ≤ ahead.start

/-- Captures are read off a walk through the text. -/
theorem captureSpans_eq (matcher : Matcher) (text : List Char) :
    matcher.captureSpans text =
      (matcher.walk text).filterMap fun entry => matcher.capture? entry.1 := by
  unfold captureSpans scan
  rw [List.filterMap_map]
  rfl

/-- The captured texts are the slices of the text at the captures. -/
theorem captured_eq (matcher : Matcher) (text : List Char) :
    matcher.captured text = (matcher.captureSpans text).filterMap (Span.slice? text) := by
  unfold captureSpans captured
  rw [List.filterMap_filterMap]

/-! ### Progress -/

/-- Scanning resumes behind the start of the match, and not in front of the target. -/
theorem resume_spec {matcher : Matcher} {c : Cursor} {found : Match} {offset : Nat}
    {next : Option Cursor} (h : matcher.resume c found = (offset, next)) :
    found.span.start < offset ∧ matcher.target found ≤ offset ∧
      ∀ d, next = some d → c.Reaches d ∧ d.offset = offset := by
  unfold resume at h
  split at h
  · rename_i hprogress
    cases h
    exact ⟨hprogress, Nat.le_refl _, fun d hd => Cursor.seek?_reaches hd⟩
  · rename_i hstuck
    split at h
    · rename_i d hseek
      obtain ⟨hreaches, hstart⟩ := Cursor.seek?_reaches hseek
      split at h
      · rename_i first rest hrest
        cases h
        have hpos := first.utf8Size_pos
        refine ⟨?_, ?_, ?_⟩
        · simp only [Cursor.advance]
          omega
        · simp only [Cursor.advance]
          omega
        · rintro _ ⟨rfl⟩
          exact ⟨hreaches.trans ⟨[first], .advance hrest⟩, rfl⟩
      · cases h
        exact ⟨by omega, by omega, by simp⟩
    · cases h
      exact ⟨by omega, by omega, by simp⟩

/-- What is known of each match of a walk through a text for a pattern, with the offset at which
scanning resumes: it is a match of the pattern in that text, and scanning makes progress. -/
structure Visited (p : Pattern) (matcher : Matcher) (text : List Char) (entry : Match × Nat) :
    Prop where
  matched : ∃ c d, (Cursor.start text).Reaches c ∧ p.Matches c d entry.1.captures ∧
    entry.1.span = ⟨c.offset, d.offset⟩
  progress : entry.1.span.start < entry.2
  past_target : matcher.target entry.1 ≤ entry.2

/-- **A walk visits matches that follow one another.** The induction is on the fuel; what carries it
is that the next search starts where scanning resumed. -/
theorem walkFrom_spec {p : Pattern} {matcher : Matcher} (text : List Char)
    (hprogram : matcher.program = .ofPattern p) (fuel : Nat) {c : Cursor}
    (hc : (Cursor.start text).Reaches c) :
    (∀ entry ∈ matcher.walkFrom fuel c,
      Visited p matcher text entry ∧ c.offset ≤ entry.1.span.start) ∧
    (matcher.walkFrom fuel c).Pairwise fun x y => x.2 ≤ y.1.span.start := by
  induction fuel generalizing c with
  | zero => simp [walkFrom]
  | succ fuel ih =>
    rw [walkFrom]
    split
    · simp
    · rename_i found hfound
      rw [hprogram] at hfound
      obtain ⟨e, d, hreaches, hmatches, hspan⟩ := Program.search_sound hfound
      have hstart : c.offset ≤ found.span.start := by
        rw [hspan]
        exact hreaches.offset_le
      have hmatched : ∃ c d, (Cursor.start text).Reaches c ∧ p.Matches c d found.captures ∧
          found.span = ⟨c.offset, d.offset⟩ := ⟨e, d, hc.trans hreaches, hmatches, hspan⟩
      split
      · rename_i offset next hresume
        obtain ⟨hprogress, htarget, hnext⟩ := resume_spec hresume
        obtain ⟨hnextReaches, hoffset⟩ := hnext next rfl
        obtain ⟨hvisited, hordered⟩ := ih (hc.trans hnextReaches)
        refine ⟨?_, List.pairwise_cons.mpr ⟨?_, hordered⟩⟩
        · intro entry hentry
          rcases List.mem_cons.mp hentry with rfl | hmem
          · exact ⟨⟨hmatched, hprogress, htarget⟩, hstart⟩
          · exact ⟨(hvisited entry hmem).1, by have := (hvisited entry hmem).2; omega⟩
        · intro entry hentry
          have := (hvisited entry hentry).2
          simp only
          omega
      · rename_i offset hresume
        obtain ⟨hprogress, htarget, -⟩ := resume_spec hresume
        simp only [List.mem_singleton, forall_eq, List.pairwise_singleton, and_true]
        exact ⟨⟨hmatched, hprogress, htarget⟩, hstart⟩

/-! ### Captures -/

/-- What the first group recorded is the whole match or what some group recorded. -/
theorem firstGroup?_mem {indices : List Nat} {found : Match} {s : Span}
    (h : firstGroup? indices found = some s) :
    0 ∈ indices ∧ s = found.span ∨ ∃ index ∈ indices, (index, s) ∈ found.captures := by
  obtain ⟨index, hindex, hgroup⟩ := List.exists_of_findSome?_eq_some h
  unfold Match.group? at hgroup
  split at hgroup
  · rename_i hzero
    exact .inl ⟨hzero ▸ hindex, (Option.some.inj hgroup).symm⟩
  · obtain ⟨front, back, hcaptures, -⟩ := List.lookup_eq_some_iff.mp hgroup
    exact .inr ⟨index, hindex, by simp [hcaptures]⟩

/-- A group of a visited match records a slice of the text inside the match. -/
theorem Visited.group_slice {p : Pattern} {matcher : Matcher} {text : List Char}
    {entry : Match × Nat} (h : Visited p matcher text entry) {indices : List Nat} {s : Span}
    (hs : firstGroup? indices entry.1 = some s) :
    entry.1.span.start ≤ s.start ∧ s.stop ≤ entry.1.span.stop ∧
      ∃ part, s.slice? text = some part := by
  obtain ⟨c, d, hc, hmatches, hspan⟩ := h.matched
  rcases firstGroup?_mem hs with ⟨-, rfl⟩ | ⟨index, -, hmem⟩
  · obtain ⟨part, hpart⟩ := hmatches.reaches
    exact ⟨Nat.le_refl _, Nat.le_refl _, part, by rw [hspan]; exact Cursor.Over.slice? hc hpart⟩
  · have hrecords := hmatches.records _ hmem
    obtain ⟨hstart, -, hstop⟩ := hrecords.bounds
    obtain ⟨name, body, e, f, new, -, he, -, hbody, rfl⟩ := hrecords
    obtain ⟨part, hpart⟩ := hbody.reaches
    rw [hspan]
    exact ⟨hstart, hstop, part, Cursor.Over.slice? (hc.trans he) hpart⟩

/-- A capture ends before scanning resumes, unless its hit gives back text in front of that end. -/
theorem Visited.capture_stop_le {p : Pattern} {matcher : Matcher} {text : List Char}
    {entry : Match × Nat} (h : Visited p matcher text entry) {capture : Span}
    (hcapture : matcher.capture? entry.1 = some capture)
    (hahead : ∀ ahead, matcher.ahead? entry.1 = some ahead → capture.stop ≤ ahead.start) :
    capture.stop ≤ entry.2 := by
  refine Nat.le_trans ?_ h.past_target
  unfold target
  split
  · rename_i ahead hsome
    exact hahead ahead hsome
  · exact (h.group_slice hcapture).2.1

/-- The matcher runs the program of some pattern. -/
def Compiled (matcher : Matcher) : Prop :=
  ∃ p, matcher.program = .ofPattern p

theorem compiled_ofPattern (group : List Char) (p : Pattern) : (ofPattern group p).Compiled :=
  ⟨p, rfl⟩

/-- Every match of a walk is a match of the pattern in the text. -/
theorem walk_visited {p : Pattern} {matcher : Matcher} {text : List Char} {entry : Match × Nat}
    (hprogram : matcher.program = .ofPattern p) (h : entry ∈ matcher.walk text) :
    Visited p matcher text entry :=
  ((walkFrom_spec text hprogram _ (.refl _)).1 entry h).1

section Text

variable {matcher : Matcher} {text : List Char}

/-- Every capture is a slice of the text. -/
theorem Compiled.captureSpans_slice (hm : matcher.Compiled) {s : Span}
    (hs : s ∈ matcher.captureSpans text) : ∃ part, s.slice? text = some part := by
  obtain ⟨p, hprogram⟩ := hm
  rw [captureSpans_eq] at hs
  obtain ⟨entry, hentry, hcapture⟩ := List.mem_filterMap.mp hs
  exact ((walk_visited hprogram hentry).group_slice hcapture).2.2

/-- **Captures follow one another** if what hits give back lies behind their captures. -/
theorem Compiled.captureSpans_pairwise (hm : matcher.Compiled)
    (hahead : matcher.AheadFollows text) :
    (matcher.captureSpans text).Pairwise fun r s => r.stop ≤ s.start := by
  obtain ⟨p, hprogram⟩ := hm
  have hordered := (walkFrom_spec text hprogram (text.length + 1) (.refl _)).2
  rw [captureSpans_eq, List.pairwise_filterMap]
  refine hordered.imp_of_mem ?_
  intro x y hx hy hxy r hr s hs
  have hstop := (walk_visited hprogram hx).capture_stop_le hr fun ahead => hahead x hx r ahead hr
  have hstart := ((walk_visited hprogram hy).group_slice hs).1
  omega

/-- The captured texts are the slices at the captures. -/
theorem Compiled.map_slice?_captureSpans (hm : matcher.Compiled) (text : List Char) :
    (matcher.captureSpans text).map (Span.slice? text) = (matcher.captured text).map some := by
  rw [captured_eq, List.map_filterMap, ← List.filterMap_eq_map']
  refine List.filterMap_congr fun s hs => ?_
  obtain ⟨part, hpart⟩ := hm.captureSpans_slice hs
  simp [hpart]

theorem mem_captured {s : Span} {part : List Char} (hs : s ∈ matcher.captureSpans text)
    (hpart : s.slice? text = some part) : part ∈ matcher.captured text := by
  rw [captured_eq]
  exact List.mem_filterMap.mpr ⟨s, hs, hpart⟩

end Text

end Relabel.Matcher
