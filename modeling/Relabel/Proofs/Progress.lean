import Relabel.Proofs.Builtin

/-!
# Scanning comes to an end

A scan is a run of steps: search from an offset, take the match, go on at the offset that the match
leaves (`Matcher.Scans`). The fuel of a walk plays no part in it. A step leads from a position of
the text to a later one, or to the offset one byte behind the end (`Matcher.resume_cases`); so every
scan ends, and it ends because nothing is left to be found (`Matcher.scans_iff`). What it yields are
slices of the text that follow one another, whatever the template says and wherever its matches give
text back.
-/

namespace Relabel

/-- `IsPosition text offset`: the offset lies between two characters of the text, or at one of its
ends. -/
def IsPosition (text : List Char) (offset : Nat) : Prop :=
  ∃ front back, text = front ++ back ∧ byteSize front = offset

theorem IsPosition.le_byteSize {text : List Char} {offset : Nat} (h : IsPosition text offset) :
    offset ≤ byteSize text := by
  obtain ⟨front, back, rfl, rfl⟩ := h
  rw [byteSize_append]
  exact Nat.le_add_right _ _

/-- Every position of a text can be reached. -/
theorem IsPosition.exists_reaches {text : List Char} {offset : Nat} (h : IsPosition text offset) :
    ∃ c, (Cursor.start text).Reaches c ∧ c.offset = offset := by
  obtain ⟨front, back, htext, hsize⟩ := h
  obtain ⟨c, hover, -⟩ := Cursor.exists_over (c := .start text) htext
  refine ⟨c, ⟨front, hover⟩, ?_⟩
  rw [hover.2.1, hsize]
  exact Nat.zero_add offset

namespace Cursor.Reaches

variable {text : List Char} {o c d : Cursor}

theorem isPosition (h : (Cursor.start text).Reaches c) : IsPosition text c.offset := by
  obtain ⟨front, hrest, hoffset, -⟩ := h
  refine ⟨front, c.rest, hrest, ?_⟩
  rw [hoffset]
  exact (Nat.zero_add _).symm

/-- At the end of a text, the offset is its size. -/
theorem offset_of_rest_nil (h : (Cursor.start text).Reaches c) (hrest : c.rest = []) :
    c.offset = byteSize text := by
  obtain ⟨front, htext, hoffset, -⟩ := h
  have hall : text = front ++ c.rest := htext
  rw [hall, hrest, List.append_nil, hoffset]
  exact Nat.zero_add _

/-- Of two positions of a text, the one with the larger offset lies behind the other. -/
theorem of_offset_le (hc : o.Reaches c) (hd : o.Reaches d) (h : c.offset ≤ d.offset) :
    c.Reaches d := by
  obtain ⟨part, hpart⟩ := hc
  rcases hpart.reaches_or hd with hreaches | ⟨front, back, -, hback, -, hover⟩
  · exact hreaches
  · have hlt := hover.offset_lt hback
    omega

end Cursor.Reaches

namespace Matcher

/-! ### Scans as runs of steps -/

/-- `matcher.Scans text offset entries`: a scan that goes on at an offset finds these matches, each
with the offset at which the scan goes on after it, and then ends. It searches from positions of the
text only; at the offset one byte behind the end it stops without a search. -/
inductive Scans (matcher : Matcher) (text : List Char) : Nat → List (Match × Nat) → Prop where
  | ended : Scans matcher text (byteSize text + 1) []
  | exhausted {c : Cursor} (reached : (Cursor.start text).Reaches c)
      (nothing : matcher.program.search c = none) : Scans matcher text c.offset []
  | step {c : Cursor} {found : Match} {entries : List (Match × Nat)}
      (reached : (Cursor.start text).Reaches c) (search : matcher.program.search c = some found)
      (rest : Scans matcher text (matcher.resume c found).1 entries) :
      Scans matcher text c.offset ((found, (matcher.resume c found).1) :: entries)

variable {p : Pattern} {matcher : Matcher} {text : List Char} {c : Cursor} {found : Match}

/-- A match leaves a position behind the start of its search. -/
theorem exists_reaches_target (hprogram : matcher.program = .ofPattern p)
    (hfound : matcher.program.search c = some found) :
    ∃ e, c.Reaches e ∧ e.offset = matcher.target found := by
  rw [hprogram] at hfound
  obtain ⟨e, d, hreaches, hmatches, hspan⟩ := Program.search_sound hfound
  unfold target
  split
  · rename_i ahead hahead
    rcases firstGroup?_mem hahead with ⟨-, rfl⟩ | ⟨index, -, hmem⟩
    · exact ⟨e, hreaches, by rw [hspan]⟩
    · obtain ⟨name, body, e', f, new, -, he', -, -, rfl⟩ := hmatches.records _ hmem
      exact ⟨e', hreaches.trans he', rfl⟩
  · exact ⟨d, hreaches.trans hmatches.reaches, by rw [hspan]⟩

/-- **One step of a scan.** After a match, the scan goes on at a position behind the one it searched
from, or one byte behind the end of the text. -/
theorem resume_cases (hprogram : matcher.program = .ofPattern p)
    (hc : (Cursor.start text).Reaches c) (hfound : matcher.program.search c = some found) :
    (∃ d, matcher.resume c found = (d.offset, some d) ∧ c.Reaches d ∧ c.offset < d.offset) ∨
      matcher.resume c found = (byteSize text + 1, none) := by
  obtain ⟨target, htarget, hoffset⟩ := exists_reaches_target hprogram hfound
  rw [hprogram] at hfound
  obtain ⟨e, d, hreaches, hmatches, hspan⟩ := Program.search_sound hfound
  have hstart : found.span.start = e.offset := by rw [hspan]
  have hle := hreaches.offset_le
  by_cases hprogress : found.span.start < matcher.target found
  · refine .inl ⟨target, ?_, htarget, by omega⟩
    rw [resume, if_pos hprogress, ← hoffset, htarget.seek?]
  · rw [resume, if_neg hprogress, hstart, hreaches.seek?]
    cases hrest : e.rest with
    | nil =>
      refine .inr ?_
      simp only [hrest, (hc.trans hreaches).offset_of_rest_nil hrest]
    | cons next rest =>
      refine .inl ⟨e.advance next rest, ?_, hreaches.trans ⟨[next], .advance hrest⟩, ?_⟩
      · simp only [hrest]
      · have hpos := next.utf8Size_pos
        simp only [Cursor.advance]
        omega

/-- **A walk with enough fuel is a scan.** The induction is on the fuel. Each step leaves fewer
characters, so what is left always has fuel enough, and a walk never stops for lack of it. -/
theorem scans_walkFrom (hprogram : matcher.program = .ofPattern p) {fuel : Nat}
    (hc : (Cursor.start text).Reaches c) (hfuel : c.rest.length < fuel) :
    matcher.Scans text c.offset (matcher.walkFrom fuel c) := by
  induction fuel generalizing c with
  | zero => omega
  | succ fuel ih =>
    rw [walkFrom]
    cases hfound : matcher.program.search c with
    | none => exact .exhausted hc hfound
    | some found =>
      have hstep : ∀ entries, matcher.Scans text (matcher.resume c found).1 entries →
          matcher.Scans text c.offset ((found, (matcher.resume c found).1) :: entries) :=
        fun _ => .step hc hfound
      rcases resume_cases hprogram hc hfound with ⟨d, hresume, hd, hlt⟩ | hresume
      · have hlength := hd.length_lt hlt
        simp only [hresume] at hstep ⊢
        exact hstep _ (ih (hc.trans hd) (by omega))
      · simp only [hresume] at hstep ⊢
        exact hstep _ .ended

/-- There is one scan from an offset on. -/
theorem Scans.unique {offset : Nat} {entries entries' : List (Match × Nat)}
    (h : matcher.Scans text offset entries) (h' : matcher.Scans text offset entries') :
    entries = entries' := by
  induction h generalizing entries' with
  | ended =>
    generalize hoffset : byteSize text + 1 = offset at h'
    cases h' with
    | ended => rfl
    | exhausted reached _ | step reached _ _ =>
      have hle := reached.isPosition.le_byteSize
      omega
  | @exhausted c reached nothing =>
    generalize hoffset : c.offset = offset at h'
    cases h' with
    | ended =>
      have hle := reached.isPosition.le_byteSize
      omega
    | exhausted _ _ => rfl
    | step reached' search _ =>
      obtain rfl := reached.eq_of_offset_eq reached' hoffset
      rw [nothing] at search
      cases search
  | @step c found entries reached search rest ih =>
    generalize hoffset : c.offset = offset at h'
    cases h' with
    | ended =>
      have hle := reached.isPosition.le_byteSize
      omega
    | exhausted reached' nothing =>
      obtain rfl := reached.eq_of_offset_eq reached' hoffset
      rw [nothing] at search
      cases search
    | step reached' search' rest' =>
      obtain rfl := reached.eq_of_offset_eq reached' hoffset
      obtain rfl := Option.some.inj (search.symm.trans search')
      rw [ih rest']

/-- **The walk through a text is the scan of it**, to its end. -/
theorem scans_iff (hprogram : matcher.program = .ofPattern p) {entries : List (Match × Nat)} :
    matcher.Scans text 0 entries ↔ entries = matcher.walk text := by
  have hwalk : matcher.Scans text 0 (matcher.walk text) :=
    scans_walkFrom hprogram (.refl (Cursor.start text)) (Nat.lt_succ_self _)
  constructor
  · intro h
    exact h.unique hwalk
  · rintro rfl
    exact hwalk

/-- A scan goes on at positions of the text, or one byte behind its end. -/
theorem Scans.isPosition (hprogram : matcher.program = .ofPattern p) {offset : Nat}
    {entries : List (Match × Nat)} (h : matcher.Scans text offset entries) :
    ∀ entry ∈ entries, IsPosition text entry.2 ∨ entry.2 = byteSize text + 1 := by
  induction h with
  | ended | exhausted _ _ => simp
  | @step c found entries reached search rest ih =>
    refine List.forall_mem_cons.mpr ⟨?_, ih⟩
    rcases resume_cases hprogram reached search with ⟨d, hresume, hd, -⟩ | hresume
    · exact .inl (by rw [hresume]; exact (reached.trans hd).isPosition)
    · exact .inr (by rw [hresume])

/-- Every match of a scan was searched for from a position of the text. -/
theorem Scans.searched {offset : Nat} {entries : List (Match × Nat)}
    (h : matcher.Scans text offset entries) :
    ∀ from' ∈ (offset :: entries.map Prod.snd).dropLast, IsPosition text from' := by
  induction h with
  | ended | exhausted _ _ => simp
  | @step c found entries reached search rest ih =>
    rw [List.map_cons, List.dropLast_cons_of_ne_nil (List.cons_ne_nil _ _)]
    exact List.forall_mem_cons.mpr ⟨reached.isPosition, ih⟩

theorem length_walkFrom_le (matcher : Matcher) (fuel : Nat) (c : Cursor) :
    (matcher.walkFrom fuel c).length ≤ fuel := by
  induction fuel generalizing c with
  | zero => exact Nat.le_refl 0
  | succ fuel ih =>
    rw [walkFrom]
    split
    · exact Nat.zero_le _
    · split
      · exact Nat.succ_le_succ (ih _)
      · exact Nat.succ_le_succ (Nat.zero_le fuel)

/-! ### What is consumed -/

/-- What a hit consumes is a slice of the text. -/
theorem Visited.consumed_slice {entry : Match × Nat} (h : Visited p matcher text entry)
    (hresumed : IsPosition text entry.2 ∨ entry.2 = byteSize text + 1) :
    ∃ part, (matcher.hit entry.1 entry.2).consumed.slice? text = some part := by
  obtain ⟨c, d, hc, hmatches, hspan⟩ := h.matched
  have hprogress := h.progress
  have hbound := (hc.trans hmatches.reaches).isPosition.le_byteSize
  obtain ⟨e, he, hreaches⟩ : ∃ e : Cursor, e.offset = min entry.2 entry.1.span.stop ∧
      c.Reaches e := by
    by_cases hwhole : entry.1.span.stop ≤ entry.2
    · refine ⟨d, ?_, hmatches.reaches⟩
      rw [Nat.min_eq_right hwhole, hspan]
    · rw [hspan] at hprogress hwhole
      rcases hresumed with hposition | hend
      · obtain ⟨e, he, hoffset⟩ := hposition.exists_reaches
        refine ⟨e, ?_, hc.of_offset_le he (by simp only at hprogress; omega)⟩
        rw [hoffset, hspan]
        simp only at hwhole ⊢
        omega
      · simp only at hwhole
        omega
  obtain ⟨part, hover⟩ := hreaches
  refine ⟨part, ?_⟩
  rw [hit, ← he, hspan]
  exact hover.slice? hc

/-- What hits consume are slices of the text. -/
theorem Compiled.consumed_slice (hm : matcher.Compiled) :
    ∀ hit ∈ matcher.scan text, ∃ part, hit.consumed.slice? text = some part := by
  obtain ⟨p, hprogram⟩ := hm
  refine List.forall_mem_map.mpr fun entry hentry => ?_
  exact (walk_visited hprogram hentry).consumed_slice
    (((scans_iff hprogram).mpr rfl).isPosition hprogram entry hentry)

/-- What hits consume follows one another, and the matches begin one behind the other. -/
theorem Compiled.consumed_pairwise (hm : matcher.Compiled) :
    (matcher.scan text).Pairwise fun a b =>
      a.consumed.start < b.consumed.start ∧ a.consumed.stop ≤ b.consumed.start := by
  obtain ⟨p, hprogram⟩ := hm
  have hordered := (walkFrom_spec text hprogram (text.length + 1) (.refl _)).2
  rw [scan, List.pairwise_map]
  refine hordered.imp_of_mem ?_
  intro x y hx hy hxy
  have hprogress := (walk_visited hprogram hx).progress
  exact ⟨Nat.lt_of_lt_of_le hprogress hxy, Nat.le_trans (Nat.min_le_left _ _) hxy⟩

/-- The offsets at which a scan goes on increase. -/
theorem Compiled.offsets_pairwise (hm : matcher.Compiled) :
    (0 :: (matcher.walk text).map Prod.snd).Pairwise (· < ·) := by
  obtain ⟨p, hprogram⟩ := hm
  have hordered := (walkFrom_spec text hprogram (text.length + 1) (.refl _)).2
  rw [List.pairwise_cons, List.pairwise_map]
  constructor
  · refine List.forall_mem_map.mpr fun entry hentry => ?_
    exact Nat.lt_of_le_of_lt (Nat.zero_le _) (walk_visited hprogram hentry).progress
  · refine hordered.imp_of_mem ?_
    intro x y _ hy hxy
    exact Nat.lt_of_le_of_lt hxy (walk_visited hprogram hy).progress

/-- A compiled template is the matcher of its pattern. -/
theorem eq_ofPattern_of_compile {template : Template} {pattern : List Char} {group : String}
    {caseSensitive : Bool}
    (h : (compile template pattern group caseSensitive).outcome = .ok matcher) :
    ∃ p, template.pattern pattern caseSensitive = .ok p ∧ matcher = ofPattern group.toList p := by
  obtain ⟨p, hp⟩ := exists_pattern_of_compile h
  rw [compile_of_ok hp] at h
  exact ⟨p, hp, (Except.ok.inj h).symm⟩

end Matcher

theorem exists_ok_of_any {ε α : Type} {result : Except ε α} {check : α → Bool}
    (h : result.toOption.any check = true) : ∃ value, result = .ok value ∧ check value = true := by
  cases result with
  | error error => cases h
  | ok value => exact ⟨value, rfl, h⟩

/-- **Scanning makes progress and nothing it consumes overlaps.** For every compiled template and
every text, the walk through the text is the one scan of it that runs to its end: it stops where
nothing more is found or one byte behind the end of the text, and every search starts at a position
of the text. There is at most one match more than the text has characters. The offsets at which the
scan goes on increase, and are positions of the text or the offset one byte behind its end, which
can only be the last. The matches begin one behind the other; what they consume are slices of the
text, each of which ends before the next one begins. -/
theorem scanning_progresses {template : Template} {pattern : List Char} {group : String}
    {caseSensitive : Bool} {matcher : Matcher}
    (hmatcher : (Matcher.compile template pattern group caseSensitive).outcome = .ok matcher)
    (text : List Char) :
    let offsets := 0 :: (matcher.walk text).map Prod.snd
    (∀ entries, matcher.Scans text 0 entries ↔ entries = matcher.walk text) ∧
      (matcher.scan text).length ≤ text.length + 1 ∧
      offsets.Pairwise (· < ·) ∧
      (∀ offset ∈ offsets, IsPosition text offset ∨ offset = byteSize text + 1) ∧
      (∀ offset ∈ offsets.dropLast, IsPosition text offset) ∧
      ((matcher.walk text).map fun entry => entry.1.span.start).Pairwise (· < ·) ∧
      (∀ hit ∈ matcher.scan text, ∃ part, hit.consumed.slice? text = some part) ∧
      (matcher.scan text).Pairwise fun a b => a.consumed.stop ≤ b.consumed.start := by
  obtain ⟨p, -, rfl⟩ := Matcher.eq_ofPattern_of_compile hmatcher
  have hprogram : (Matcher.ofPattern group.toList p).program = .ofPattern p := rfl
  have hm : (Matcher.ofPattern group.toList p).Compiled := ⟨p, hprogram⟩
  have hscans : (Matcher.ofPattern group.toList p).Scans text 0 _ :=
    (Matcher.scans_iff hprogram).mpr rfl
  refine ⟨fun entries => Matcher.scans_iff hprogram, ?_, hm.offsets_pairwise, ?_,
    hscans.searched, ?_, hm.consumed_slice, hm.consumed_pairwise.imp And.right⟩
  · rw [Matcher.scan, List.length_map]
    exact Matcher.length_walkFrom_le _ _ _
  · refine List.forall_mem_cons.mpr ⟨.inl ⟨[], text, rfl, rfl⟩, ?_⟩
    exact List.forall_mem_map.mpr (hscans.isPosition hprogram)
  · rw [List.pairwise_map]
    exact (List.pairwise_map.mp hm.consumed_pairwise).imp And.left

/-- A template that matches the empty text, and gives back all that it matches: there is a match at
every position, so one more than there are characters. -/
theorem scanning_progresses_empty :
    ∃ matcher, (Matcher.compile ⟨"(?P<ahead>)(?P<main>%s)", by decide⟩ [] "main" true).outcome =
        .ok matcher ∧
      (matcher.walk ['é', 'a']).map Prod.snd = [2, 3, byteSize ['é', 'a'] + 1] ∧
      (∀ entries, matcher.Scans ['é', 'a'] 0 entries ↔ entries = matcher.walk ['é', 'a']) ∧
      (matcher.scan ['é', 'a']).Pairwise fun a b => a.consumed.stop ≤ b.consumed.start := by
  have hrun : ((Matcher.compile ⟨"(?P<ahead>)(?P<main>%s)", by decide⟩ [] "main"
      true).outcome.toOption.any fun matcher =>
        (matcher.walk ['é', 'a']).map Prod.snd == [2, 3, byteSize ['é', 'a'] + 1]) = true := by
    decide +kernel
  obtain ⟨matcher, hmatcher, hoffsets⟩ := exists_ok_of_any hrun
  obtain ⟨hscans, -, -, -, -, -, -, hpairwise⟩ := scanning_progresses hmatcher ['é', 'a']
  exact ⟨matcher, hmatcher, beq_iff_eq.mp hoffsets, hscans, hpairwise⟩

end Relabel
