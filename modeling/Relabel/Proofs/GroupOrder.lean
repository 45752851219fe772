import Mathlib.Data.List.Nodup
import Relabel.Proofs.Scanning

/-!
# The order of groups

A check on the syntax of a pattern that tells, for two kinds of groups, that in no match a group of
the first kind ends behind the start of a group of the second kind. A matcher whose pattern passes
it, with the captures as the first kind and the text looked ahead at as the second, gives nothing
back in front of the end of a capture, whatever the text.
-/

namespace Relabel

namespace Pattern

/-- Whether no group of the pattern is of a kind. -/
def lacks (kind : Nat × Option (List Char) → Bool) (p : Pattern) : Bool :=
  p.groups.all fun group => !kind group

/-- Whether the groups of kind `first` lie in front of those of kind `second` wherever both can take
part in one match. -/
def ordered (first second : Nat × Option (List Char) → Bool) : Pattern → Bool
  | .empty => true
  | .set _ => true
  | .look _ => true
  | .seq a b =>
    a.ordered first second && b.ordered first second && (a.lacks second || b.lacks first)
  | .alt a b => a.ordered first second && b.ordered first second
  | .group index name a =>
    a.ordered first second && (!first (index, name) || (!second (index, name) && a.lacks second)) &&
      (!second (index, name) || a.lacks first)
  | .repeated _ _ _ a => a.ordered first second && (a.lacks first || a.lacks second)

theorem lacks_iff {kind : Nat × Option (List Char) → Bool} {p : Pattern} :
    p.lacks kind = true ↔ ∀ group ∈ p.groups, kind group = false := by
  simp [lacks]

theorem lacks_congr {kind kind' : Nat × Option (List Char) → Bool} {p : Pattern}
    (h : ∀ group ∈ p.groups, kind group = kind' group) : p.lacks kind = p.lacks kind' := by
  unfold lacks
  rw [Bool.eq_iff_iff, List.all_eq_true, List.all_eq_true]
  exact forall₂_congr fun group hgroup => by rw [h group hgroup]

/-- The check asks for the kinds of the groups of the pattern only. -/
theorem ordered_congr {first second first' second' : Nat × Option (List Char) → Bool}
    {p : Pattern} (hfirst : ∀ group ∈ p.groups, first group = first' group)
    (hsecond : ∀ group ∈ p.groups, second group = second' group) :
    p.ordered first second = p.ordered first' second' := by
  induction p with
  | empty => rfl
  | set s => rfl
  | look l => rfl
  | seq a b iha ihb =>
    simp only [groups, List.forall_mem_append] at hfirst hsecond
    simp only [ordered, iha hfirst.1 hsecond.1, ihb hfirst.2 hsecond.2, lacks_congr hsecond.1,
      lacks_congr hfirst.2]
  | alt a b iha ihb =>
    simp only [groups, List.forall_mem_append] at hfirst hsecond
    simp only [ordered, iha hfirst.1 hsecond.1, ihb hfirst.2 hsecond.2]
  | group index name a iha =>
    simp only [groups, List.forall_mem_cons] at hfirst hsecond
    simp only [ordered, iha hfirst.2 hsecond.2, hfirst.1, hsecond.1, lacks_congr hsecond.2,
      lacks_congr hfirst.2]
  | repeated min max greedy a iha =>
    simp only [groups] at hfirst hsecond
    simp only [ordered, iha hfirst hsecond, lacks_congr hsecond, lacks_congr hfirst]

/-- A pattern without groups of the first kind is in order. -/
theorem ordered_of_lacks {first second : Nat × Option (List Char) → Bool} {p : Pattern}
    (h : p.lacks first = true) : p.ordered first second = true := by
  rw [lacks_iff] at h
  induction p with
  | empty => rfl
  | set s => rfl
  | look l => rfl
  | seq a b iha ihb =>
    simp only [groups, List.forall_mem_append] at h
    simp [ordered, iha h.1, ihb h.2, lacks_iff.mpr h.2]
  | alt a b iha ihb =>
    simp only [groups, List.forall_mem_append] at h
    simp [ordered, iha h.1, ihb h.2]
  | group index name a iha =>
    simp only [groups, List.forall_mem_cons] at h
    simp [ordered, iha h.2, h.1, lacks_iff.mpr h.2]
  | repeated min max greedy a iha =>
    simp only [groups] at h
    simp [ordered, iha h, lacks_iff.mpr h]

/-- A match records nothing under the number of a kind that the pattern lacks. -/
theorem Matches.not_mem_of_lacks {p : Pattern} {c d : Cursor} {new : Captures} {kind : Nat → Bool}
    (h : p.Matches c d new) (hlacks : p.lacks (fun group => kind group.1) = true)
    {entry : Nat × Span} (hentry : entry ∈ new) : kind entry.1 = false := by
  obtain ⟨name, body, -, -, -, hnode, -⟩ := h.records entry hentry
  have hgroup : (entry.1, name) ∈ p.groups := by
    rw [groups_eq_map_nodes]
    exact List.mem_map.mpr ⟨_, hnode, rfl⟩
  exact lacks_iff.mp hlacks _ hgroup

/-- **The check is sound**: in a match of a pattern that passes it, what groups of the first kind
record ends before what groups of the second kind record begins. -/
theorem Matches.stop_le_start (first second : Nat → Bool) {p : Pattern} {c d : Cursor}
    {new : Captures}
    (hordered : p.ordered (fun group => first group.1) (fun group => second group.1) = true)
    (h : p.Matches c d new) : ∀ x ∈ new, ∀ y ∈ new, first x.1 = true → second y.1 = true →
      x.2.stop ≤ y.2.start := by
  induction p generalizing c d new with
  | empty =>
    obtain ⟨-, rfl⟩ := h
    simp
  | set s =>
    obtain ⟨-, -, -, -, -, rfl⟩ := h
    simp
  | look l =>
    obtain ⟨-, -, rfl⟩ := h
    simp
  | seq a b iha ihb =>
    simp only [ordered, Bool.and_eq_true, Bool.or_eq_true] at hordered
    obtain ⟨⟨ha, hb⟩, hlacks⟩ := hordered
    obtain ⟨e, front, back, hfront, hback, rfl⟩ := h
    intro x hx y hy hfirst hsecond
    rcases List.mem_append.mp hx with hx | hx
    · rcases List.mem_append.mp hy with hy | hy
      · exact ihb hb hback x hx y hy hfirst hsecond
      · rcases hlacks with hlacks | hlacks
        · rw [hfront.not_mem_of_lacks hlacks hy] at hsecond
          cases hsecond
        · rw [hback.not_mem_of_lacks hlacks hx] at hfirst
          cases hfirst
    · rcases List.mem_append.mp hy with hy | hy
      · have hxe := (hfront.records x hx).bounds.2.2
        have hey := (hback.records y hy).bounds.1
        omega
      · exact iha ha hfront x hx y hy hfirst hsecond
  | alt a b iha ihb =>
    simp only [ordered, Bool.and_eq_true] at hordered
    rcases h with h | h
    · exact iha hordered.1 h
    · exact ihb hordered.2 h
  | group index name a iha =>
    simp only [ordered, Bool.and_eq_true, Bool.or_eq_true, Bool.not_eq_true'] at hordered
    obtain ⟨⟨ha, hisFirst⟩, hisSecond⟩ := hordered
    obtain ⟨inner, hinner, rfl⟩ := h
    intro x hx y hy hfirst hsecond
    rcases List.mem_cons.mp hx with rfl | hx
    · rcases hisFirst with hno | ⟨hno, hlacks⟩
      · rw [hno] at hfirst
        cases hfirst
      · rcases List.mem_cons.mp hy with rfl | hy
        · rw [hno] at hsecond
          cases hsecond
        · rw [hinner.not_mem_of_lacks hlacks hy] at hsecond
          cases hsecond
    · rcases List.mem_cons.mp hy with rfl | hy
      · rcases hisSecond with hno | hlacks
        · rw [hno] at hsecond
          cases hsecond
        · rw [hinner.not_mem_of_lacks hlacks hx] at hfirst
          cases hfirst
      · exact iha ha hinner x hx y hy hfirst hsecond
  | repeated min max greedy a iha =>
    simp only [ordered, Bool.and_eq_true, Bool.or_eq_true] at hordered
    intro x hx y hy hfirst hsecond
    -- A loop holds groups of one of the two kinds only.
    rcases hordered.2 with hlacks | hlacks
    · rw [h.not_mem_of_lacks hlacks hx] at hfirst
      cases hfirst
    · rw [h.not_mem_of_lacks hlacks hy] at hsecond
      cases hsecond

/-- The groups of the pattern bear different numbers, none of them that of the whole match. -/
def WellNumbered (p : Pattern) : Prop :=
  (0 :: p.groups.map Prod.fst).Nodup

instance (p : Pattern) : Decidable p.WellNumbered :=
  inferInstanceAs (Decidable (0 :: p.groups.map Prod.fst).Nodup)

theorem WellNumbered.ne_zero {p : Pattern} (h : p.WellNumbered) {group : Nat × Option (List Char)}
    (hgroup : group ∈ p.groups) : group.1 ≠ 0 := by
  intro hzero
  exact (List.nodup_cons.mp h).1 (hzero ▸ List.mem_map_of_mem hgroup)

/-- In a pattern with different numbers, a number stands for one group. -/
theorem WellNumbered.eq_of_fst_eq {p : Pattern} (h : p.WellNumbered)
    {g g' : Nat × Option (List Char)} (hg : g ∈ p.groups) (hg' : g' ∈ p.groups)
    (heq : g.1 = g'.1) : g = g' :=
  List.inj_on_of_nodup_map (List.nodup_cons.mp h).2 hg hg' heq

end Pattern

/-! ### Captures and what follows them -/

/-- Whether a group belongs to the capture of a matcher for `wanted`. -/
def isCaptureGroup (wanted : List Char) (group : Nat × Option (List Char)) : Bool :=
  group.2.any (isBranchOf wanted)

/-- Whether scanning resumes at a group in a matcher for `wanted`. -/
def isAheadGroup (wanted : List Char) (group : Nat × Option (List Char)) : Bool :=
  group.2.any fun name => !isBranchOf wanted name && isBranchOf aheadGroup name

namespace Matcher

variable {wanted : List Char} {p : Pattern}

/-- The numbers of the groups with a name of some kind. -/
theorem mem_map_fst_filter_iff (kind : List Char → Bool) {groups : List (Nat × Option (List Char))}
    {index : Nat} :
    index ∈ ((groups.filterMap fun (index, name) => name.map fun name => (index, name)).filter
        fun (entry : Nat × List Char) => kind entry.2).map Prod.fst ↔
      ∃ group ∈ groups, group.2.any kind = true ∧ group.1 = index := by
  simp only [List.mem_map, List.mem_filter, List.mem_filterMap]
  constructor
  · rintro ⟨⟨i, name⟩, ⟨⟨⟨j, found⟩, hmem, hname⟩, hkind⟩, rfl⟩
    obtain ⟨name', rfl, heq⟩ := Option.map_eq_some_iff.mp hname
    cases heq
    exact ⟨_, hmem, hkind, rfl⟩
  · rintro ⟨⟨j, found⟩, hmem, hkind, rfl⟩
    obtain ⟨name, rfl, hname⟩ := (Option.any_eq_true _ _).mp hkind
    exact ⟨(j, name), ⟨⟨_, hmem, rfl⟩, hname⟩, rfl⟩

/-- The groups of the capture are the branches of the wanted name. -/
theorem mem_capture_iff {index : Nat} :
    index ∈ (ofPattern wanted p).capture ↔
      ∃ group ∈ p.groups, isCaptureGroup wanted group = true ∧ group.1 = index :=
  mem_map_fst_filter_iff _

/-- Scanning resumes at the branches of its group, unless they belong to the capture. -/
theorem mem_ahead_iff {index : Nat} :
    index ∈ (ofPattern wanted p).ahead ↔
      ∃ group ∈ p.groups, isAheadGroup wanted group = true ∧ group.1 = index :=
  mem_map_fst_filter_iff fun name => !isBranchOf wanted name && isBranchOf aheadGroup name

/-- In a pattern with different numbers, a group is of a kind if its number is that of a group of
the kind. -/
theorem decide_mem_eq (hnumbered : p.WellNumbered) {indices : List Nat}
    {kind : Nat × Option (List Char) → Bool}
    (hindices : ∀ index, index ∈ indices ↔ ∃ group ∈ p.groups, kind group = true ∧ group.1 = index)
    {group : Nat × Option (List Char)} (hgroup : group ∈ p.groups) :
    decide (group.1 ∈ indices) = kind group := by
  rw [Bool.eq_iff_iff, decide_eq_true_iff, hindices]
  constructor
  · rintro ⟨other, hother, hkind, heq⟩
    rwa [hnumbered.eq_of_fst_eq hgroup hother heq.symm]
  · intro hkind
    exact ⟨group, hgroup, hkind, rfl⟩

/-- A group of a match is recorded under its number. -/
theorem mem_captures_of_firstGroup? (hnumbered : p.WellNumbered) {indices : List Nat}
    {kind : Nat × Option (List Char) → Bool}
    (hindices : ∀ index, index ∈ indices ↔ ∃ group ∈ p.groups, kind group = true ∧ group.1 = index)
    {found : Match} {s : Span} (h : firstGroup? indices found = some s) :
    ∃ index ∈ indices, (index, s) ∈ found.captures := by
  rcases firstGroup?_mem h with ⟨hzero, -⟩ | hmem
  · obtain ⟨group, hgroup, -, heq⟩ := (hindices 0).mp hzero
    exact absurd heq (hnumbered.ne_zero hgroup)
  · exact hmem

/-- **A matcher whose pattern passes the check gives nothing back in front of a capture's end.** -/
theorem aheadFollows_of_ordered (hnumbered : p.WellNumbered)
    (hordered : p.ordered (isCaptureGroup wanted) (isAheadGroup wanted) = true)
    (text : List Char) : (ofPattern wanted p).AheadFollows text := by
  intro entry hentry capture ahead hcapture hahead
  obtain ⟨c, d, -, hmatches, -⟩ := (walk_visited rfl hentry).matched
  obtain ⟨i, hi, hmem⟩ := mem_captures_of_firstGroup? hnumbered (fun _ => mem_capture_iff) hcapture
  obtain ⟨j, hj, hmem'⟩ := mem_captures_of_firstGroup? hnumbered (fun _ => mem_ahead_iff) hahead
  have hbyNumber : p.ordered (fun group => decide (group.1 ∈ (ofPattern wanted p).capture))
      (fun group => decide (group.1 ∈ (ofPattern wanted p).ahead)) = true := by
    rw [← hordered]
    exact Pattern.ordered_congr
      (fun group hgroup => decide_mem_eq hnumbered (fun _ => mem_capture_iff) hgroup)
      (fun group hgroup => decide_mem_eq hnumbered (fun _ => mem_ahead_iff) hgroup)
  exact Pattern.Matches.stop_le_start (fun i => decide (i ∈ (ofPattern wanted p).capture))
    (fun j => decide (j ∈ (ofPattern wanted p).ahead)) hbyNumber hmatches _ hmem _ hmem'
    (decide_eq_true hi) (decide_eq_true hj)

end Matcher

end Relabel
