import Relabel.Proofs.Languages
import Relabel.Proofs.Walking

/-!
# Captures between flanks

Most templates have one shape: an item is captured between what stands in front of it and what
stands behind it, and where another item begins that item is passed over. What stands behind is
looked at without being consumed, so scanning resumes right behind the capture. `Flanked` is this
shape. A match in it either passes over an item and captures nothing, or has a capture that is
flanked as it should be (`Flanked.matchAt_cases`), and in both cases scanning advances
(`Flanked.advances`).
-/

namespace Relabel

namespace Pattern

variable {p : Pattern} {c d : Cursor} {new : Captures}

theorem nodes_choice {others : List Pattern} (h : ∀ q ∈ others, q.nodes = []) :
    (choice p others).nodes = p.nodes := by
  induction others generalizing p with
  | nil => rfl
  | cons q others ih =>
    obtain ⟨hq, hothers⟩ := List.forall_mem_cons.mp h
    rw [choice_cons, ih hothers, nodes, hq, List.nil_append]

theorem nodes_row_append {front back : List Pattern} (h : ∀ q ∈ front, q.nodes = []) :
    (row (front ++ back)).nodes = (row back).nodes := by
  induction front with
  | nil => rfl
  | cons q front ih =>
    obtain ⟨hq, hfront⟩ := List.forall_mem_cons.mp h
    change q.nodes ++ (row (front ++ back)).nodes = _
    rw [hq, List.nil_append, ih hfront]

/-- A match of two rows is a match of the first and then of the second. -/
theorem matches_row_append {front back : List Pattern} :
    (row (front ++ back)).Matches c d new ↔ ∃ e first second, (row front).Matches c e first ∧
      (row back).Matches e d second ∧ new = second ++ first := by
  induction front generalizing c new with
  | nil =>
    constructor
    · intro h
      exact ⟨c, [], new, ⟨rfl, rfl⟩, h, (List.append_nil new).symm⟩
    · rintro ⟨_, _, second, ⟨rfl, rfl⟩, h, rfl⟩
      rwa [List.append_nil]
  | cons p front ih =>
    constructor
    · rintro ⟨b, one, others, hone, hothers, rfl⟩
      obtain ⟨e, first, second, hfirst, hsecond, rfl⟩ := ih.mp hothers
      exact ⟨e, first ++ one, second, ⟨b, one, first, hone, hfirst, rfl⟩, hsecond, by simp⟩
    · rintro ⟨e, _, second, ⟨b, one, first, hone, hfirst, rfl⟩, hsecond, rfl⟩
      exact ⟨b, one, second ++ first, hone,
        ih.mpr ⟨e, first, second, hfirst, hsecond, rfl⟩, by simp⟩

theorem lexical_row {items : List Pattern} (h : ∀ p ∈ items, p.lexical = true) :
    (row items).lexical = true := by
  induction items with
  | nil => rfl
  | cons p items ih =>
    obtain ⟨hp, hitems⟩ := List.forall_mem_cons.mp h
    change (p.lexical && (row items).lexical) = true
    rw [hp, ih hitems]
    rfl

/-- One group in a row of patterns without groups and conditions. -/
theorem matches_row_group {front back : List Pattern} {main : Pattern} {index : Nat}
    {name : Option (List Char)} (hfront : ∀ p ∈ front, p.lexical = true)
    (hmain : main.lexical = true) (hback : ∀ p ∈ back, p.lexical = true) :
    (row (front ++ .group index name main :: back)).Matches c d new ↔
      ∃ e f, (∃ part ∈ (row front).language, c.Over part e) ∧
        (∃ part ∈ main.language, e.Over part f) ∧ (∃ part ∈ (row back).language, f.Over part d) ∧
        new = [(index, ⟨e.offset, f.offset⟩)] := by
  rw [matches_row_append]
  constructor
  · rintro ⟨e, _, _, hbefore, ⟨f, _, _, ⟨_, hinner, rfl⟩, hbehind, rfl⟩, rfl⟩
    obtain ⟨rfl, hfirst⟩ := (matches_iff_mem_language (lexical_row hfront)).mp hbefore
    obtain ⟨rfl, hcaptured⟩ := (matches_iff_mem_language hmain).mp hinner
    obtain ⟨rfl, hlast⟩ := (matches_iff_mem_language (lexical_row hback)).mp hbehind
    exact ⟨e, f, hfirst, hcaptured, hlast, rfl⟩
  · rintro ⟨e, f, hbefore, hinner, hbehind, rfl⟩
    exact ⟨e, [], _, (matches_iff_mem_language (lexical_row hfront)).mpr ⟨rfl, hbefore⟩,
      ⟨f, _, [], ⟨[], (matches_iff_mem_language hmain).mpr ⟨rfl, hinner⟩, rfl⟩,
        (matches_iff_mem_language (lexical_row hback)).mpr ⟨rfl, hbehind⟩, rfl⟩, rfl⟩

end Pattern

/-- An item to be captured between what stands in front of it and what stands behind it, and the
items that are passed over. Nothing but the capture and what stands behind it is in a group. -/
structure Flanked where
  passed : List Pattern
  front : List Pattern
  main : Pattern
  behind : Pattern
  passed_bare : ∀ p ∈ passed, p.nodes = []
  bare : ∀ p ∈ main :: behind :: front, p.nodes = []
  passed_nonempty : ∀ p ∈ passed, [] ∉ p.language
  main_nonempty : [] ∉ main.language
  proper : ∀ p ∈ main :: behind :: front, p.proper = true

namespace Flanked

open Pattern

variable (s : Flanked) {c d e f : Cursor} {new : Captures}

def branch : Pattern :=
  row (s.front ++ [.group 1 (some "main".toList) s.main, .group 2 (some aheadGroup) s.behind])

def pattern : Pattern :=
  choice s.branch s.passed

def matcher : Matcher :=
  .ofPattern "main".toList s.pattern

theorem compiled : s.matcher.Compiled :=
  Matcher.compiled_ofPattern _ _

/-- `s.Captured c e f d`: what stands between `e` and `f` is captured, in front of it stands what
begins at `c`, behind it what ends at `d`. -/
structure Captured (s : Flanked) (c e f d : Cursor) : Prop where
  front : (row s.front).Matches c e []
  main : s.main.Matches e f []
  behind : s.behind.Matches f d []

def found (c e f d : Cursor) : Match :=
  ⟨⟨c.offset, d.offset⟩, [(2, ⟨f.offset, d.offset⟩), (1, ⟨e.offset, f.offset⟩)]⟩

/-- An item that is passed over as a match. -/
def pass (c d : Cursor) : Match :=
  ⟨⟨c.offset, d.offset⟩, []⟩

theorem nodes_front : (row s.front).nodes = [] := by
  have hfront : ∀ p ∈ s.front, p.nodes = [] := fun p hp =>
    s.bare p (List.mem_cons_of_mem _ (List.mem_cons_of_mem _ hp))
  have h : (row (s.front ++ [])).nodes = (row []).nodes := nodes_row_append hfront
  rwa [List.append_nil] at h

theorem proper_branch : s.branch.proper = true := by
  have hmain := s.proper s.main List.mem_cons_self
  have hbehind := s.proper s.behind (List.mem_cons_of_mem _ List.mem_cons_self)
  refine proper_row fun p hp => ?_
  rcases List.mem_append.mp hp with hfront | hcapture
  · exact s.proper p (List.mem_cons_of_mem _ (List.mem_cons_of_mem _ hfront))
  · rcases List.mem_cons.mp hcapture with rfl | hahead
    · exact hmain
    · obtain rfl := List.mem_singleton.mp hahead
      exact hbehind

variable {s}

/-- **What the branch matches** is a capture between its flanks. -/
theorem matches_branch_iff :
    s.branch.Matches c d new ↔ ∃ e f, s.Captured c e f d ∧ new = (found c e f d).captures := by
  have hmain := s.bare s.main List.mem_cons_self
  have hbehind := s.bare s.behind (List.mem_cons_of_mem _ List.mem_cons_self)
  rw [branch, matches_row_append]
  constructor
  · rintro ⟨e, _, _, hfront, ⟨f, _, _, ⟨_, hinner, rfl⟩,
      ⟨_, _, _, ⟨_, hahead, rfl⟩, ⟨rfl, rfl⟩, rfl⟩, rfl⟩, rfl⟩
    obtain rfl := hfront.eq_nil_of_bare s.nodes_front
    obtain rfl := hinner.eq_nil_of_bare hmain
    obtain rfl := hahead.eq_nil_of_bare hbehind
    exact ⟨e, f, ⟨hfront, hinner, hahead⟩, rfl⟩
  · rintro ⟨e, f, ⟨hfront, hinner, hahead⟩, rfl⟩
    exact ⟨e, [], _, hfront, ⟨f, _, _, ⟨[], hinner, rfl⟩,
      ⟨d, _, [], ⟨[], hahead, rfl⟩, ⟨rfl, rfl⟩, rfl⟩, rfl⟩, rfl⟩

/-- The branch matches if there is a capture, and then it finds one. -/
theorem matchAt_branch (s : Flanked) (c : Cursor) :
    (∃ e f d, s.Captured c e f d ∧
      (Program.ofPattern s.branch).matchAt c = some (found c e f d)) ∨
    ((Program.ofPattern s.branch).matchAt c = none ∧ ∀ e f d, ¬ s.Captured c e f d) := by
  cases hmatch : (Program.ofPattern s.branch).matchAt c with
  | none =>
    refine .inr ⟨rfl, fun e f d hcaptured => ?_⟩
    exact (Program.matchAt_eq_none_iff s.proper_branch).mp hmatch d _
      (matches_branch_iff.mpr ⟨e, f, hcaptured, rfl⟩)
  | some m =>
    obtain ⟨d, hmatches, hspan⟩ := Program.matchAt_sound hmatch
    obtain ⟨e, f, hcaptured, hnew⟩ := matches_branch_iff.mp hmatches
    obtain ⟨span, captures⟩ := m
    obtain rfl : span = _ := hspan
    obtain rfl : captures = _ := hnew
    exact .inl ⟨e, f, d, hcaptured, rfl⟩

/-- The capture is the first group, and what is looked at the second. -/
theorem groups_pattern :
    s.pattern.groups = [(1, some "main".toList), (2, some aheadGroup)] := by
  have hmain := s.bare s.main List.mem_cons_self
  have hbehind := s.bare s.behind (List.mem_cons_of_mem _ List.mem_cons_self)
  have hfront : ∀ p ∈ s.front, p.nodes = [] := fun p hp =>
    s.bare p (List.mem_cons_of_mem _ (List.mem_cons_of_mem _ hp))
  rw [groups_eq_map_nodes, pattern, nodes_choice s.passed_bare, branch, nodes_row_append hfront]
  simp [row, nodes, hmain, hbehind]

theorem capture_matcher : s.matcher.capture = [1] := by
  rw [matcher, Matcher.ofPattern, groups_pattern]
  rfl

theorem ahead_matcher : s.matcher.ahead = [2] := by
  rw [matcher, Matcher.ofPattern, groups_pattern]
  rfl

/-- What is found is the capture. -/
theorem capture?_found : s.matcher.capture? (found c e f d) = some ⟨e.offset, f.offset⟩ := by
  rw [Matcher.capture?, capture_matcher]
  rfl

/-- What is passed over has no capture. -/
theorem capture?_pass : s.matcher.capture? (pass c d) = none := by
  rw [Matcher.capture?, capture_matcher]
  rfl

theorem Captured.lt (h : s.Captured c e f d) : e.offset < f.offset :=
  h.main.offset_lt s.main_nonempty

/-- Scanning resumes right behind a capture. -/
theorem Captured.resumes (h : s.Captured c e f d) : s.matcher.Resumes (found c e f d) c f := by
  refine ⟨h.front.reaches.trans h.main.reaches, ?_, ?_⟩
  · exact Nat.lt_of_le_of_lt h.front.reaches.offset_le h.lt
  · rw [Matcher.target, Matcher.ahead?, ahead_matcher]
    rfl

/-- Scanning resumes behind what was passed over. -/
theorem resumes_pass (h : c.Reaches d) (hlt : c.offset < d.offset) :
    s.matcher.Resumes (pass c d) c d := by
  refine ⟨h, hlt, ?_⟩
  rw [Matcher.target, Matcher.ahead?, ahead_matcher]
  rfl

/-- **A match passes over an item or is a capture between its flanks.** -/
theorem matchAt_cases {m : Match} (h : s.matcher.program.matchAt c = some m) :
    (∃ d, c.Reaches d ∧ c.offset < d.offset ∧ m = pass c d) ∨
      ∃ e f d, s.Captured c e f d ∧ m = found c e f d := by
  obtain ⟨d, hmatches, hspan⟩ := Program.matchAt_sound h
  obtain ⟨span, captures⟩ := m
  obtain rfl : span = _ := hspan
  obtain ⟨branch, hbranch, hmatches⟩ := matches_choice hmatches
  rcases List.mem_cons.mp hbranch with rfl | hpassed
  · obtain ⟨e, f, hcaptured, hnew⟩ := matches_branch_iff.mp hmatches
    exact .inr ⟨e, f, d, hcaptured, congrArg _ hnew⟩
  · have hnil := hmatches.eq_nil_of_bare (s.passed_bare _ hpassed)
    exact .inl ⟨d, hmatches.reaches, hmatches.offset_lt (s.passed_nonempty _ hpassed),
      congrArg _ hnil⟩

/-- **Scanning advances.** -/
theorem advances (s : Flanked) : s.matcher.Advances := by
  intro c m h
  rcases matchAt_cases h with ⟨d, hreaches, hlt, rfl⟩ | ⟨e, f, d, hcaptured, rfl⟩
  · exact ⟨d, resumes_pass hreaches hlt⟩
  · exact ⟨f, hcaptured.resumes⟩

/-- What stands behind a capture is looked at from the end of the capture on. -/
theorem aheadFollows (s : Flanked) (text : List Char) : s.matcher.AheadFollows text := by
  intro entry hentry capture ahead hcapture hahead
  obtain ⟨c, -, -, hmatch⟩ := s.advances.hits_invariant (fun _ => True)
    (fun _ _ _ _ _ _ => trivial) (fun _ _ _ _ _ _ => trivial) trivial entry hentry
  rcases matchAt_cases hmatch with ⟨d, -, -, hpass⟩ | ⟨e, f, d, -, hfound⟩
  · rw [hpass, capture?_pass] at hcapture
    cases hcapture
  · rw [hfound, capture?_found] at hcapture
    rw [hfound, Matcher.ahead?, ahead_matcher] at hahead
    cases hcapture
    cases hahead
    exact Nat.le_refl _

/-- What a walk finds is among the captures. -/
theorem mem_captureSpans_of_mem_hits {text : List Char} {offset : Nat}
    (h : (found c e f d, offset) ∈ s.matcher.hits (.start text)) :
    ⟨e.offset, f.offset⟩ ∈ s.matcher.captureSpans text := by
  rw [Matcher.captureSpans_eq_hits]
  exact List.mem_filterMap.mpr ⟨_, h, capture?_found⟩

/-- The captures can be computed from the pattern alone. -/
theorem captureSpans_eq_trace {p : Pattern} (hs : s.pattern = p) (hp : p.proper = true)
    (text : List Char) : s.matcher.captureSpans text =
      ((Matcher.ofPattern "main".toList p).trace p (text.length + 1) (.start text)).filterMap
        (Matcher.ofPattern "main".toList p).capture? := by
  subst hs
  exact s.advances.captureSpans_eq_trace hp rfl text

end Flanked

end Relabel
