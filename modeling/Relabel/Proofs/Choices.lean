import Mathlib.Data.List.Forall2
import Mathlib.Data.List.Perm.Basic
import Relabel.Pattern.Choice
import Relabel.Proofs.GroupOrder

/-!
# The groups of a choice

A choice whose branches begin alike is built with their beginning in front of it, so it is not the
branches side by side. `ofBranches_cases` says in which two forms it comes. In both it has the
groups of its branches, in the order in which they stand there, and no group that is not one of a
branch.
-/

namespace Relabel.Pattern

variable {first second kind : Nat × Option (List Char) → Bool}

/-! ### Sequences -/

theorem groups_sequence (l : List Pattern) : (sequence l).groups = l.flatMap groups := by
  induction l with
  | nil => rfl
  | cons p l ih =>
    cases l with
    | nil => simp [sequence]
    | cons q l => simp [sequence, groups, ih]

theorem nodes_sequence (l : List Pattern) : (sequence l).nodes = l.flatMap nodes := by
  induction l with
  | nil => rfl
  | cons p l ih =>
    cases l with
    | nil => simp [sequence]
    | cons q l => simp [sequence, nodes, ih]

theorem flatMap_groups_items (p : Pattern) : p.items.flatMap groups = p.groups := by
  induction p with
  | empty => rfl
  | seq a b iha ihb => simp [items, groups, iha, ihb]
  | set | look | alt | group | repeated => simp [items]

theorem flatMap_nodes_items (p : Pattern) : p.items.flatMap nodes = p.nodes := by
  induction p with
  | empty => rfl
  | seq a b iha ihb => simp [items, nodes, iha, ihb]
  | set | look | alt | group | repeated => simp [items]

theorem lacks_eq_of_groups_eq {p q : Pattern} (h : p.groups = q.groups) :
    p.lacks kind = q.lacks kind := by
  rw [lacks, lacks, h]

/-- A sequence is in order if its items are, and none of the second kind stands before one of the
first. -/
theorem ordered_sequence_cons (p : Pattern) (l : List Pattern) :
    (sequence (p :: l)).ordered first second = true ↔
      p.ordered first second = true ∧ (sequence l).ordered first second = true ∧
        (p.lacks second = true ∨ (sequence l).lacks first = true) := by
  cases l with
  | nil => simp [sequence, ordered, lacks, groups]
  | cons q l => simp [sequence, ordered, and_assoc]

theorem lacks_sequence_append (l m : List Pattern) :
    (sequence (l ++ m)).lacks kind = true ↔
      (sequence l).lacks kind = true ∧ (sequence m).lacks kind = true := by
  simp only [lacks_iff, groups_sequence, List.flatMap_append, List.forall_mem_append]

theorem ordered_sequence_append (l m : List Pattern) :
    (sequence (l ++ m)).ordered first second = true ↔
      (sequence l).ordered first second = true ∧ (sequence m).ordered first second = true ∧
        ((sequence l).lacks second = true ∨ (sequence m).lacks first = true) := by
  induction l with
  | nil => simp [sequence, ordered, lacks, groups]
  | cons p l ih =>
    have hcons : (sequence (p :: l)).lacks second = true ↔
        p.lacks second = true ∧ (sequence l).lacks second = true :=
      lacks_sequence_append [p] l
    rw [List.cons_append, ordered_sequence_cons, ordered_sequence_cons, ih, lacks_sequence_append,
      hcons]
    tauto

/-- A pattern is in order if and only if the sequence of its items is. -/
theorem ordered_sequence_items (p : Pattern) :
    (sequence p.items).ordered first second = true ↔ p.ordered first second = true := by
  induction p with
  | empty => exact Iff.rfl
  | seq a b iha ihb =>
    have hgroups : ∀ q : Pattern, (sequence q.items).groups = q.groups := fun q => by
      rw [groups_sequence, flatMap_groups_items]
    rw [items, ordered_sequence_append, iha, ihb, lacks_eq_of_groups_eq (hgroups a),
      lacks_eq_of_groups_eq (hgroups b)]
    simp [ordered, and_assoc]
  | set | look | alt | group | repeated => exact Iff.rfl

/-! ### Normal forms -/

/-- Normal forms have the same groups. -/
theorem groups_normal (p : Pattern) : p.normal.groups = p.groups := by
  induction p with
  | empty | set | look => rfl
  | seq a b iha ihb =>
    simp [normal, groups, groups_sequence, flatMap_groups_items, iha, ihb]
  | alt a b iha ihb =>
    rw [normal]
    split
    · rename_i s t hs ht
      have ha : a.groups = [] := by rw [← iha, hs, groups]
      have hb : b.groups = [] := by rw [← ihb, ht, groups]
      simp [groups, ha, hb]
    · simp [groups, iha, ihb]
  | group index name a iha => simp [normal, groups, iha]
  | repeated min max greedy a iha => simp [normal, groups, iha]

theorem lacks_normal (p : Pattern) : p.normal.lacks kind = p.lacks kind :=
  lacks_eq_of_groups_eq (groups_normal p)

/-- Normal forms have their groups in the same order. -/
theorem ordered_normal (p : Pattern) :
    p.normal.ordered first second = true ↔ p.ordered first second = true := by
  induction p with
  | empty | set | look => exact Iff.rfl
  | seq a b iha ihb =>
    have hgroups : ∀ q : Pattern, (sequence q.normal.items).groups = q.groups := fun q => by
      rw [groups_sequence, flatMap_groups_items, groups_normal]
    rw [normal, ordered_sequence_append, ordered_sequence_items, ordered_sequence_items, iha, ihb,
      lacks_eq_of_groups_eq (hgroups a), lacks_eq_of_groups_eq (hgroups b)]
    simp [ordered, and_assoc]
  | alt a b iha ihb =>
    rw [normal]
    split
    · rename_i s t hs ht
      have ha : a.ordered first second = true := iha.mp (by rw [hs, ordered])
      have hb : b.ordered first second = true := ihb.mp (by rw [ht, ordered])
      simp [ordered, ha, hb]
    · simp [ordered, iha, ihb]
  | group index name a iha =>
    simp only [normal, ordered, lacks_normal, Bool.and_eq_true, iha]
  | repeated min max greedy a iha =>
    simp only [normal, ordered, lacks_normal, Bool.and_eq_true, iha]

theorem normal_eq_of_alike {a b : Pattern} (h : alike a b = true) : a.normal = b.normal := by
  simp only [alike, Bool.or_eq_true, Bool.and_eq_true, decide_eq_true_eq] at h
  rcases h with rfl | ⟨-, hnormal⟩
  · rfl
  · exact hnormal

/-! ### What branches share -/

/-- The items counted as shared are alike. -/
theorem forall₂_alike_take {as bs : List Pattern} {n : Nat} (h : n ≤ sharedLength as bs) :
    List.Forall₂ (fun a b => alike a b = true) (as.take n) (bs.take n) := by
  induction as generalizing bs n with
  | nil =>
    obtain rfl : n = 0 := by simpa [sharedLength] using h
    simp
  | cons a as ih =>
    cases n with
    | zero => simp
    | succ n =>
      cases bs with
      | nil => simp [sharedLength] at h
      | cons b bs =>
        rw [sharedLength] at h
        split at h
        · rename_i halike
          exact .cons halike (ih (by omega))
        · omega

theorem foldl_min_le {α : Type} (f : α → Nat) (l : List α) (n : Nat) :
    l.foldl (fun count a => min count (f a)) n ≤ n ∧
      ∀ a ∈ l, l.foldl (fun count a => min count (f a)) n ≤ f a := by
  induction l generalizing n with
  | nil => simp
  | cons b l ih =>
    obtain ⟨hn, hl⟩ := ih (min n (f b))
    rw [List.foldl_cons]
    refine ⟨by omega, fun a ha => ?_⟩
    rcases List.mem_cons.mp ha with rfl | ha
    · omega
    · exact hl a ha

/-- What all branches share with the last one, each of them does. -/
theorem sharedByAll_le {last branch : Pattern} {earlier : List Pattern} (h : branch ∈ earlier) :
    sharedByAll last earlier ≤ sharedLength last.items branch.items := by
  unfold sharedByAll
  split
  · exact (foldl_min_le _ earlier _).2 branch h
  · exact Nat.zero_le _

/-- `Begins shared branch rest`: a branch consists of items like `shared` and then of `rest`. -/
def Begins (shared : List Pattern) (branch rest : Pattern) : Prop :=
  ∃ front back, branch.items = front ++ back ∧ rest = sequence back ∧
    List.Forall₂ (fun a b => alike a b = true) shared front

/-- **The two forms of a choice**: its branches side by side, or what all of them begin with and
then a choice between the rests. -/
theorem ofBranches_cases (last : Pattern) (earlier : List Pattern) :
    ofBranches last earlier = choice last earlier ∨
      ∃ shared back rests, ofBranches last earlier =
          .seq (sequence shared) (choice (sequence back) rests) ∧
        last.items = shared ++ back ∧ List.Forall₂ (Begins shared) earlier rests := by
  cases earlier with
  | nil => exact .inl rfl
  | cons branch earlier =>
    rw [ofBranches]
    split
    · refine .inr ⟨_, _, _, rfl, (List.take_append_drop _ _).symm, ?_⟩
      rw [List.forall₂_map_right_iff]
      refine List.forall₂_same.mpr fun b hb => ?_
      exact ⟨_, _, (List.take_append_drop _ _).symm, rfl, forall₂_alike_take (sharedByAll_le hb)⟩
    · exact .inl rfl

theorem flatMap_groups_eq_of_alike {as bs : List Pattern}
    (h : List.Forall₂ (fun a b => alike a b = true) as bs) :
    as.flatMap groups = bs.flatMap groups := by
  induction h with
  | nil => rfl
  | cons hab _ ih =>
    rw [List.flatMap_cons, List.flatMap_cons, ih, ← groups_normal, normal_eq_of_alike hab,
      groups_normal]

/-- Whether a sequence is in order does not depend on how its items are written. -/
theorem ordered_sequence_of_alike {as bs : List Pattern}
    (h : List.Forall₂ (fun a b => alike a b = true) as bs) :
    (sequence as).ordered first second = true ↔ (sequence bs).ordered first second = true := by
  induction h with
  | nil => exact Iff.rfl
  | @cons a b as bs hab hrest ih =>
    have hgroups : a.groups = b.groups := by
      rw [← groups_normal, normal_eq_of_alike hab, groups_normal]
    have hrests : (sequence as).groups = (sequence bs).groups := by
      rw [groups_sequence, groups_sequence, flatMap_groups_eq_of_alike hrest]
    rw [ordered_sequence_cons, ordered_sequence_cons, ih, ← ordered_normal a,
      normal_eq_of_alike hab, ordered_normal, lacks_eq_of_groups_eq hgroups,
      lacks_eq_of_groups_eq hrests]

/-- The groups of a branch are those that all share and those of its rest. -/
theorem Begins.groups_eq {shared : List Pattern} {branch rest : Pattern}
    (h : Begins shared branch rest) : branch.groups = (sequence shared).groups ++ rest.groups := by
  obtain ⟨front, back, hitems, rfl, halike⟩ := h
  rw [groups_sequence, groups_sequence, flatMap_groups_eq_of_alike halike, ← List.flatMap_append,
    ← hitems, flatMap_groups_items]

/-- A branch is in order if what it shares and its rest are, one behind the other. -/
theorem Begins.ordered_iff {shared : List Pattern} {branch rest : Pattern}
    (h : Begins shared branch rest) : branch.ordered first second = true ↔
      (sequence shared).ordered first second = true ∧ rest.ordered first second = true ∧
        ((sequence shared).lacks second = true ∨ rest.lacks first = true) := by
  obtain ⟨front, back, hitems, rfl, halike⟩ := h
  have hgroups : (sequence shared).groups = (sequence front).groups := by
    rw [groups_sequence, groups_sequence, flatMap_groups_eq_of_alike halike]
  rw [← ordered_sequence_items, hitems, ordered_sequence_append, ordered_sequence_of_alike halike,
    lacks_eq_of_groups_eq hgroups]

theorem Begins.of_items {shared back : List Pattern} {branch : Pattern}
    (h : branch.items = shared ++ back) : Begins shared branch (sequence back) :=
  ⟨shared, back, h, rfl, List.forall₂_same.mpr fun a _ => by simp [alike]⟩

/-! ### The groups of a choice -/

/-- A choice lacks what all its branches lack. -/
theorem lacks_choice (last : Pattern) (earlier : List Pattern) :
    (choice last earlier).lacks kind = true ↔
      last.lacks kind = true ∧ ∀ branch ∈ earlier, branch.lacks kind = true := by
  induction earlier generalizing last with
  | nil => simp [choice]
  | cons branch earlier ih =>
    have halt : (alt branch last).lacks kind = true ↔
        branch.lacks kind = true ∧ last.lacks kind = true := by
      simp only [lacks_iff, groups, List.forall_mem_append]
    have hstep := ih (.alt branch last)
    rw [List.forall_mem_cons, ← and_assoc, and_comm (a := last.lacks kind = true), ← halt]
    exact hstep

/-- A choice is in order if all its branches are. -/
theorem ordered_choice (last : Pattern) (earlier : List Pattern) :
    (choice last earlier).ordered first second = true ↔
      last.ordered first second = true ∧
        ∀ branch ∈ earlier, branch.ordered first second = true := by
  induction earlier generalizing last with
  | nil => simp [choice]
  | cons branch earlier ih =>
    have halt : (alt branch last).ordered first second = true ↔
        branch.ordered first second = true ∧ last.ordered first second = true := by
      simp [ordered]
    have hstep := ih (.alt branch last)
    rw [List.forall_mem_cons, ← and_assoc, and_comm (a := last.ordered first second = true), ← halt]
    exact hstep

/-- The groups of a choice are those of its branches. -/
theorem nodes_choice_perm (last : Pattern) (earlier : List Pattern) :
    (choice last earlier).nodes.Perm (last.nodes ++ earlier.flatMap nodes) := by
  induction earlier generalizing last with
  | nil => simp [choice]
  | cons branch earlier ih =>
    refine (ih (.alt branch last)).trans ?_
    rw [nodes, List.flatMap_cons, ← List.append_assoc]
    exact List.perm_append_comm.append_right _

theorem forall_mem_of_forall₂ {α β : Type} {R : α → β → Prop} {P : α → Prop} {Q : β → Prop}
    {as : List α} {bs : List β} (h : List.Forall₂ R as bs) (hR : ∀ a b, R a b → P a → Q b)
    (has : ∀ a ∈ as, P a) : ∀ b ∈ bs, Q b := by
  induction h with
  | nil => simp
  | cons hab _ ih =>
    rw [List.forall_mem_cons] at has ⊢
    exact ⟨hR _ _ hab has.1, ih has.2⟩

theorem forall_mem_iff_of_forall₂ {α β : Type} {R : α → β → Prop} {P : α → Prop} {Q : β → Prop}
    {as : List α} {bs : List β} (h : List.Forall₂ R as bs) (hR : ∀ a b, R a b → (P a ↔ Q b)) :
    (∀ a ∈ as, P a) ↔ ∀ b ∈ bs, Q b :=
  ⟨forall_mem_of_forall₂ h fun a b hab => (hR a b hab).mp,
    forall_mem_of_forall₂ h.flip fun b a hab => (hR a b hab).mpr⟩

theorem Begins.lacks_iff {shared : List Pattern} {branch rest : Pattern}
    (h : Begins shared branch rest) : branch.lacks kind = true ↔
      (sequence shared).lacks kind = true ∧ rest.lacks kind = true := by
  rw [Pattern.lacks_iff, Pattern.lacks_iff, Pattern.lacks_iff, h.groups_eq, List.forall_mem_append]

/-- A choice lacks what all its branches lack. -/
theorem lacks_ofBranches (last : Pattern) (earlier : List Pattern) :
    (ofBranches last earlier).lacks kind = true ↔
      last.lacks kind = true ∧ ∀ branch ∈ earlier, branch.lacks kind = true := by
  rcases ofBranches_cases last earlier with h | ⟨shared, back, rests, h, hlast, hearlier⟩
  · rw [h, lacks_choice]
  · have hseq : ∀ a b : Pattern, (seq a b).lacks kind = true ↔
        a.lacks kind = true ∧ b.lacks kind = true := fun a b => by
      simp only [Pattern.lacks_iff, groups, List.forall_mem_append]
    rw [h, hseq, lacks_choice, (Begins.of_items hlast).lacks_iff,
      forall_mem_iff_of_forall₂ hearlier fun _ _ hbegins => hbegins.lacks_iff]
    constructor
    · rintro ⟨hshared, hback, hrests⟩
      exact ⟨⟨hshared, hback⟩, fun rest hrest => ⟨hshared, hrests rest hrest⟩⟩
    · rintro ⟨⟨hshared, hback⟩, hrests⟩
      exact ⟨hshared, hback, fun rest hrest => (hrests rest hrest).2⟩

/-- A choice is in order if all its branches are: what they share is in front of all their rests. -/
theorem ordered_ofBranches (last : Pattern) (earlier : List Pattern) :
    (ofBranches last earlier).ordered first second = true ↔
      last.ordered first second = true ∧
        ∀ branch ∈ earlier, branch.ordered first second = true := by
  rcases ofBranches_cases last earlier with h | ⟨shared, back, rests, h, hlast, hearlier⟩
  · rw [h, ordered_choice]
  · rw [h, ordered, Bool.and_eq_true, Bool.and_eq_true, Bool.or_eq_true, ordered_choice,
      lacks_choice, (Begins.of_items hlast).ordered_iff,
      forall_mem_iff_of_forall₂ hearlier fun _ _ hbegins => hbegins.ordered_iff]
    constructor
    · rintro ⟨⟨hshared, hback, hrests⟩, hlacks | ⟨hlacksBack, hlacksRests⟩⟩
      · exact ⟨⟨hshared, hback, .inl hlacks⟩,
          fun rest hrest => ⟨hshared, hrests rest hrest, .inl hlacks⟩⟩
      · exact ⟨⟨hshared, hback, .inr hlacksBack⟩,
          fun rest hrest => ⟨hshared, hrests rest hrest, .inr (hlacksRests rest hrest)⟩⟩
    · rintro ⟨⟨hshared, hback, hlacks⟩, hrests⟩
      refine ⟨⟨hshared, hback, fun rest hrest => (hrests rest hrest).2.1⟩, ?_⟩
      by_cases hfront : (sequence shared).lacks second = true
      · exact .inl hfront
      · exact .inr ⟨hlacks.resolve_left hfront,
          fun rest hrest => (hrests rest hrest).2.2.resolve_left hfront⟩

/-- The groups of a choice are among those of its branches, each at most as often. -/
theorem nodes_ofBranches_subperm (last : Pattern) (earlier : List Pattern) :
    (ofBranches last earlier).nodes.Subperm (last.nodes ++ earlier.flatMap nodes) := by
  rcases ofBranches_cases last earlier with h | ⟨shared, back, rests, h, hlast, hearlier⟩
  · rw [h]
    exact (nodes_choice_perm last earlier).subperm
  · have hrests : (rests.flatMap nodes).Sublist (earlier.flatMap nodes) := by
      clear h
      induction hearlier with
      | nil => exact .slnil
      | cons hbegins _ ih =>
        obtain ⟨front, tail, hitems, rfl, -⟩ := hbegins
        rw [List.flatMap_cons, List.flatMap_cons, nodes_sequence, ← flatMap_nodes_items, hitems,
          List.flatMap_append]
        exact (List.sublist_append_right _ _).append ih
    have hnodes : last.nodes = (sequence shared).nodes ++ (sequence back).nodes := by
      rw [nodes_sequence, nodes_sequence, ← List.flatMap_append, ← hlast, flatMap_nodes_items]
    rw [h, nodes, hnodes, List.append_assoc]
    refine (List.subperm_append_left _).mpr ((nodes_choice_perm _ _).subperm.trans ?_)
    exact (List.subperm_append_left _).mpr hrests.subperm

end Relabel.Pattern
