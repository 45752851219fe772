import Mathlib.Data.List.Perm.Subperm
import Relabel.Proofs.Choices
import Relabel.Proofs.Reading

/-!
# Reading in lockstep

Three facts about every pattern that is read, each proved for one operation on the open groups and
carried through texts from there.

* Its groups bear different numbers (`parse?_wellNumbered`).
* If two readers go over one text, the pattern of the one *reflects* that of the other: which groups
  it has and how they are ordered can be told from the other, whatever stood in the groups before.
* If the text opens no group with a name of some kind, then all groups of that kind come from
  elsewhere, and what is known of their bodies stays true.
-/

namespace Relabel.Pattern

/-! ### Numbers -/

theorem nodes_foldl_seq (items : List Pattern) (tail : Pattern) :
    (items.foldl (fun tail item => .seq item tail) tail).nodes =
      items.reverse.flatMap nodes ++ tail.nodes := by
  induction items generalizing tail with
  | nil => rfl
  | cons item items ih => simp [ih, nodes]

theorem nodes_ofItems (items : List Pattern) :
    (ofItems items).nodes = items.reverse.flatMap nodes := by
  rw [ofItems, nodes_foldl_seq, nodes, List.append_nil]

/-- A repetition has no groups but those of what is repeated. -/
theorem nodes_times_sublist (min : Nat) (max : Option Nat) (greedy : Bool) (p : Pattern) :
    (times min max greedy p).nodes.Sublist p.nodes := by
  unfold times
  split
  · exact List.nil_sublist _
  · split
    · exact List.Sublist.refl _
    · exact List.Sublist.refl _

/-- The groups of the items and branches of an open group. -/
def Level.nodes (level : Level) : List (Nat × Option (List Char) × Pattern) :=
  (level.items ++ level.branches).flatMap Pattern.nodes

/-- Putting branches together adds no groups. -/
theorem Level.nodes_body_subperm (level : Level) : level.body.nodes.Subperm level.nodes := by
  refine (nodes_ofBranches_subperm _ _).trans ?_
  rw [Level.nodes, List.flatMap_append, nodes_ofItems]
  exact ((level.items.reverse_perm.flatMap_right _).append_right _).subperm

/-- The numbers of an open group and of the groups in it. -/
def Level.numbers (level : Level) : List Nat :=
  (match level.kind with
    | .plain => []
    | .capture index _ => [index]) ++ level.nodes.map Prod.fst

theorem Level.numbers_pattern_subperm (level : Level) :
    (level.pattern.nodes.map Prod.fst).Subperm level.numbers := by
  have hbody : (level.body.nodes.map Prod.fst).Subperm (level.nodes.map Prod.fst) := by
    obtain ⟨part, hperm, hsub⟩ := level.nodes_body_subperm
    exact ⟨part.map Prod.fst, hperm.map _, hsub.map _⟩
  unfold Level.pattern Level.numbers
  cases level.kind with
  | plain => exact hbody
  | capture index name => exact (List.subperm_cons index).mpr hbody

theorem Level.numbers_push_perm (level : Level) (item : Pattern) :
    (level.push item).numbers.Perm (item.nodes.map Prod.fst ++ level.numbers) := by
  simp only [Level.numbers, Level.nodes, Level.push, List.cons_append, List.flatMap_cons,
    List.map_append]
  rw [← List.append_assoc, ← List.append_assoc]
  exact List.perm_append_comm.append_right _

namespace Reader

/-- The numbers of all groups, open or not. -/
def numbers (r : Reader) : List Nat :=
  (r.level :: r.outer).flatMap Level.numbers

/-- The groups bear different numbers among those given out. -/
def Numbered (r : Reader) : Prop :=
  r.numbers.Subperm (List.range' 1 r.groupCount)

theorem numbered_start (ignoreCase : Bool) : (start ignoreCase).Numbered :=
  List.Subperm.refl _

end Reader

/-- An operation gives out a new number or none. -/
theorem Op.apply_numbered {op : Op} {r r' : Reader} (h : op.apply r = some r') (hr : r.Numbered) :
    r'.Numbered := by
  cases op with
  | set s =>
    cases h
    exact hr
  | look l =>
    cases h
    exact hr
  | expect =>
    simp only [apply] at h
    split at h <;> cases h
    exact hr
  | again min max greedy =>
    obtain ⟨level, hlevel, rfl⟩ := Option.map_eq_some_iff.mp h
    unfold Level.repeatLast at hlevel
    split at hlevel
    · rename_i last earlier hitems
      cases hlevel
      refine List.Subperm.trans (List.Sublist.subperm ?_) hr
      simp only [Reader.numbers, Level.numbers, Level.nodes, hitems, List.cons_append,
        List.flatMap_cons, List.map_append]
      have htimes :=
        (nodes_times_sublist min max (greedy != r.level.flags.swapGreed) last).map Prod.fst
      exact (((List.Sublist.refl _).append (htimes.append (List.Sublist.refl _)))).append
        (List.Sublist.refl _)
    · cases hlevel
  | branch =>
    cases h
    refine List.Subperm.trans (List.Perm.subperm ?_) hr
    simp only [Reader.numbers, Level.numbers, Level.nodes, Level.branch, List.nil_append,
      List.flatMap_cons, nodes_ofItems, List.flatMap_append]
    exact ((((r.level.items.reverse_perm.flatMap_right _).append_right _).map _).append_left
      _).append_right _
  | settings flags =>
    cases h
    exact hr
  | plain flags =>
    cases h
    exact hr
  | capture name =>
    simp only [apply] at h
    split at h <;> cases h
    have hmore : (List.range' 1 (r.groupCount + 1)).Perm
        ((r.groupCount + 1) :: List.range' 1 r.groupCount) := by
      rw [List.range'_concat, Nat.one_mul, Nat.add_comm 1]
      exact List.perm_append_singleton _ _
    exact ((List.subperm_cons _).mpr hr).trans hmore.symm.subperm
  | close =>
    simp only [apply, Reader.closeGroup] at h
    split at h
    · rename_i parent outer houter
      cases h
      refine List.Subperm.trans ?_ hr
      simp only [Reader.numbers, houter, List.flatMap_cons]
      refine ((parent.numbers_push_perm _).append_right _).subperm.trans ?_
      rw [List.append_assoc]
      exact (List.subperm_append_right _).mpr r.level.numbers_pattern_subperm
    · cases h

theorem Op.applyAll_numbered {ops : List Op} {r r' : Reader} (h : applyAll ops r = some r')
    (hr : r.Numbered) : r'.Numbered := by
  induction ops generalizing r with
  | nil =>
    cases h
    exact hr
  | cons op ops ih =>
    obtain ⟨t, ht, h⟩ := Option.bind_eq_some_iff.mp h
    exact ih h (apply_numbered ht hr)

namespace Reader

/-- One character keeps the numbers of groups different. -/
theorem step_numbered {r r' : Reader} {c : Char} (h : r.step c = some r') (hr : r.Numbered) :
    r'.Numbered := by
  obtain ⟨ops, hops⟩ := step_ops h
  obtain ⟨t, ht, hr'⟩ := hops r r' (.refl r) h
  have htNumbered : t.Numbered := Op.applyAll_numbered ht hr
  rw [hr']
  exact htNumbered

/-- A text keeps the numbers of groups different. -/
theorem read_numbered {r r' : Reader} {text : List Char} (h : r.read text = some r')
    (hr : r.Numbered) : r'.Numbered := by
  induction text generalizing r with
  | nil =>
    cases h
    exact hr
  | cons c text ih =>
    obtain ⟨t, ht, h⟩ := Option.bind_eq_some_iff.mp h
    exact ih h (step_numbered ht hr)

end Reader

/-- **The groups of a pattern that is read bear different numbers**, none of them zero. -/
theorem parse?_wellNumbered {ignoreCase : Bool} {text : List Char} {p : Pattern}
    (h : parse? ignoreCase text = some p) : p.WellNumbered := by
  unfold parse? at h
  split at h
  · rename_i r hr
    obtain ⟨ops, t, -, ht, houter, rfl⟩ := Reader.finish_some h
    have hnumbered := Op.applyAll_numbered ht
      (Reader.read_numbered hr (Reader.numbered_start ignoreCase))
    have hsub : (t.level.pattern.nodes.map Prod.fst).Subperm (List.range' 1 t.groupCount) := by
      refine t.level.numbers_pattern_subperm.trans ?_
      simpa [Reader.Numbered, Reader.numbers, houter] using hnumbered
    have hgroups : t.level.pattern.groups.map Prod.fst = t.level.pattern.nodes.map Prod.fst := by
      rw [groups_eq_map_nodes, List.map_map]
      rfl
    rw [WellNumbered, hgroups]
    refine List.nodup_cons.mpr ⟨fun hzero => ?_, ?_⟩
    · have hrange := List.mem_range'.mp (hsub.subset hzero)
      omega
    · obtain ⟨part, hperm, hpart⟩ := hsub
      exact hperm.nodup_iff.mp (List.Nodup.sublist hpart List.nodup_range')
  · cases h

/-! ### Patterns that reflect others -/

def named (kind : List Char → Bool) (group : Nat × Option (List Char)) : Bool :=
  group.2.any kind

/-- `p.Reflects q`: groups by name that `q` does not have `p` does not have either, and those that
are in order in `q` are in order in `p`. -/
structure Reflects (p q : Pattern) : Prop where
  lacks : ∀ kind, q.lacks (named kind) = true → p.lacks (named kind) = true
  ordered : ∀ first second, q.ordered (named first) (named second) = true →
    p.ordered (named first) (named second) = true

namespace Reflects

variable {a a' b b' : Pattern}

theorem refl (p : Pattern) : p.Reflects p :=
  ⟨fun _ h => h, fun _ _ h => h⟩

/-- Sequences reflect one another item by item. -/
theorem seq (ha : a.Reflects a') (hb : b.Reflects b') : (a.seq b).Reflects (a'.seq b') := by
  constructor
  · intro kind h
    simp only [lacks_iff, groups, List.forall_mem_append] at h ⊢
    exact ⟨lacks_iff.mp (ha.lacks kind (lacks_iff.mpr h.1)),
      lacks_iff.mp (hb.lacks kind (lacks_iff.mpr h.2))⟩
  · intro first second h
    simp only [Pattern.ordered, Bool.and_eq_true, Bool.or_eq_true] at h ⊢
    exact ⟨⟨ha.ordered _ _ h.1.1, hb.ordered _ _ h.1.2⟩,
      h.2.imp (ha.lacks second) (hb.lacks first)⟩

/-- Groups of one name reflect one another if their bodies do. -/
theorem group (ha : a.Reflects a') (index index' : Nat) (name : Option (List Char)) :
    (Pattern.group index name a).Reflects (.group index' name a') := by
  constructor
  · intro kind h
    simp only [lacks_iff, groups, List.forall_mem_cons] at h ⊢
    exact ⟨h.1, lacks_iff.mp (ha.lacks kind (lacks_iff.mpr h.2))⟩
  · intro first second h
    simp only [Pattern.ordered, Bool.and_eq_true, Bool.or_eq_true] at h ⊢
    exact ⟨⟨ha.ordered _ _ h.1.1, h.1.2.imp id (And.imp id (ha.lacks second))⟩,
      h.2.imp id (ha.lacks first)⟩

theorem repeated (ha : a.Reflects a') (min : Nat) (max : Option Nat) (greedy : Bool) :
    (Pattern.repeated min max greedy a).Reflects (.repeated min max greedy a') := by
  constructor
  · intro kind h
    exact ha.lacks kind h
  · intro first second h
    simp only [Pattern.ordered, Bool.and_eq_true, Bool.or_eq_true] at h ⊢
    exact ⟨ha.ordered _ _ h.1, h.2.imp (ha.lacks first) (ha.lacks second)⟩

theorem times (ha : a.Reflects a') (min : Nat) (max : Option Nat) (greedy : Bool) :
    (Pattern.times min max greedy a).Reflects (.times min max greedy a') := by
  unfold Pattern.times
  split
  · exact refl _
  · split
    · exact ha
    · exact ha.repeated min max greedy

theorem ofItems {items items' : List Pattern} (h : List.Forall₂ Reflects items items') :
    (Pattern.ofItems items).Reflects (.ofItems items') := by
  have hfold : ∀ tail tail' : Pattern, tail.Reflects tail' →
      (items.foldl (fun tail item => .seq item tail) tail).Reflects
        (items'.foldl (fun tail item => .seq item tail) tail') := by
    induction h with
    | nil => exact fun _ _ htail => htail
    | cons hitem _ ih => exact fun _ _ htail => ih _ _ (hitem.seq htail)
  exact hfold _ _ (refl _)

/-- Choices reflect one another branch by branch, also if beginnings are shared. -/
theorem ofBranches {branches branches' : List Pattern} (ha : a.Reflects a')
    (h : List.Forall₂ Reflects branches branches') :
    (Pattern.ofBranches a branches).Reflects (.ofBranches a' branches') := by
  constructor
  · intro kind h'
    rw [lacks_ofBranches] at h' ⊢
    exact ⟨ha.lacks kind h'.1,
      forall_mem_of_forall₂ h.flip (fun q p hpq => Reflects.lacks hpq kind) h'.2⟩
  · intro first second h'
    rw [ordered_ofBranches] at h' ⊢
    exact ⟨ha.ordered _ _ h'.1,
      forall_mem_of_forall₂ h.flip (fun q p hpq => Reflects.ordered hpq first second) h'.2⟩

/-- A pattern without named groups reflects any other. -/
theorem of_lacks {p q : Pattern} (h : ∀ kind, p.lacks (named kind) = true) : p.Reflects q :=
  ⟨fun kind _ => h kind, fun first _ _ => ordered_of_lacks (h first)⟩

end Reflects

/-- The name that a closed group bears, if it records what it matches. -/
def GroupKind.label : GroupKind → Option (Option (List Char))
  | .plain => none
  | .capture _ name => some name

/-- `a.Reflects b`: the open group `a` is of the kind of `b` and under the same settings, and what
has been read into it reflects what has been read into `b`. -/
structure Level.Reflects (a b : Level) : Prop where
  label : a.kind.label = b.kind.label
  flags : a.flags = b.flags
  items : List.Forall₂ Pattern.Reflects a.items b.items
  branches : List.Forall₂ Pattern.Reflects a.branches b.branches

/-- What a closed group stands for reflects what the other one does. -/
theorem Level.Reflects.pattern {a b : Level} (h : a.Reflects b) :
    a.pattern.Reflects b.pattern := by
  have hbody : a.body.Reflects b.body := .ofBranches (.ofItems h.items) h.branches
  have hlabel := h.label
  unfold Level.pattern
  cases ha : a.kind with
  | plain =>
    cases hb : b.kind with
    | plain => exact hbody
    | capture index name => simp [ha, hb, GroupKind.label] at hlabel
  | capture index name =>
    cases hb : b.kind with
    | plain => simp [ha, hb, GroupKind.label] at hlabel
    | capture index' name' =>
      obtain rfl : name = name' := by simpa [ha, hb, GroupKind.label] using hlabel
      exact hbody.group index index' name

theorem Level.Reflects.push {a b : Level} {p q : Pattern} (h : a.Reflects b) (hpq : p.Reflects q) :
    (a.push p).Reflects (b.push q) :=
  ⟨h.label, h.flags, .cons hpq h.items, h.branches⟩

/-- `s.Reflects below r`: two readers do the same next, and the open groups of `s`, down to those
that lie `below`, reflect the open groups of `r`. -/
structure Reader.Reflects (below : List Level) (s r : Reader) : Prop where
  mode : s.mode = r.mode
  sets : s.sets = r.sets
  level : s.level.Reflects r.level
  outer : ∃ front, s.outer = front ++ below ∧ List.Forall₂ Level.Reflects front r.outer

/-- Readers of which one reflects the other do the same next. -/
theorem Reader.Reflects.agrees {below : List Level} {s r : Reader} (h : s.Reflects below r) :
    r.Agrees s :=
  ⟨h.mode, h.sets, h.level.flags⟩

/-- **An operation keeps reflections.** -/
theorem Op.apply_reflects {below : List Level} {op : Op} {r r' s s' : Reader}
    (h : s.Reflects below r) (hr : op.apply r = some r') (hs : op.apply s = some s') :
    s'.Reflects below r' := by
  obtain ⟨hmode, hsets, hlevel, front, hfront, houter⟩ := h
  cases op with
  | set t =>
    cases hr
    cases hs
    exact ⟨rfl, hsets, hlevel.push (.refl _), front, hfront, houter⟩
  | look l =>
    cases hr
    cases hs
    exact ⟨rfl, hsets, hlevel.push (.refl _), front, hfront, houter⟩
  | expect =>
    simp only [apply] at hr hs
    split at hr <;> cases hr
    split at hs <;> cases hs
    exact ⟨rfl, hsets, hlevel, front, hfront, houter⟩
  | again min max greedy =>
    obtain ⟨level, hrlevel, rfl⟩ := Option.map_eq_some_iff.mp hr
    obtain ⟨level', hslevel, rfl⟩ := Option.map_eq_some_iff.mp hs
    unfold Level.repeatLast at hrlevel hslevel
    split at hrlevel
    · rename_i last earlier hritems
      split at hslevel
      · rename_i last' earlier' hsitems
        have hitems := hlevel.items
        rw [hritems, hsitems] at hitems
        rw [hlevel.flags] at hslevel
        cases hrlevel
        cases hslevel
        cases hitems with
        | cons hlast hearlier =>
          exact ⟨rfl, hsets, ⟨hlevel.label, rfl,
            .cons (hlast.times min max _) hearlier, hlevel.branches⟩, front, hfront, houter⟩
      · cases hslevel
    · cases hrlevel
  | branch =>
    cases hr
    cases hs
    exact ⟨rfl, hsets, ⟨hlevel.label, hlevel.flags, .nil,
      .cons (.ofItems hlevel.items) hlevel.branches⟩, front, hfront, houter⟩
  | settings flags =>
    cases hr
    cases hs
    exact ⟨rfl, hsets, ⟨hlevel.label, rfl, hlevel.items, hlevel.branches⟩, front, hfront, houter⟩
  | plain flags =>
    cases hr
    cases hs
    exact ⟨rfl, hsets, ⟨rfl, rfl, .nil, .nil⟩, s.level :: front, by simp [Reader.openGroup, hfront],
      .cons hlevel houter⟩
  | capture name =>
    simp only [apply] at hr hs
    split at hr <;> cases hr
    split at hs <;> cases hs
    exact ⟨rfl, hsets, ⟨rfl, hlevel.flags, .nil, .nil⟩, s.level :: front,
      by simp [Reader.openCapture, Reader.openGroup, hfront], .cons hlevel houter⟩
  | close =>
    simp only [apply, Reader.closeGroup] at hr hs
    split at hr
    · rename_i parent outer hrouter
      cases hr
      rw [hrouter] at houter
      cases houter with
      | @cons parent' _ front' _ hparent hrest =>
        rw [hfront, List.cons_append] at hs
        cases hs
        exact ⟨rfl, hsets, hparent.push hlevel.pattern, front', rfl, hrest⟩
    · cases hr

/-- The same operations keep reflection. -/
theorem Op.applyAll_reflects {below : List Level} {ops : List Op} {r r' s s' : Reader}
    (h : s.Reflects below r) (hr : applyAll ops r = some r') (hs : applyAll ops s = some s') :
    s'.Reflects below r' := by
  induction ops generalizing r s with
  | nil =>
    cases hr
    cases hs
    exact h
  | cons op ops ih =>
    obtain ⟨t, ht, hr⟩ := Option.bind_eq_some_iff.mp hr
    obtain ⟨u, hu, hs⟩ := Option.bind_eq_some_iff.mp hs
    exact ih (apply_reflects h ht hu) hr hs

namespace Reader

theorem Reflects.settled {below : List Level} {s r : Reader} (h : s.Reflects below r) (mode : Mode)
    (sets : List SetLevel) : (s.settled mode sets).Reflects below (r.settled mode sets) :=
  ⟨rfl, rfl, h.level, h.outer⟩

/-- One character keeps reflection. -/
theorem Reflects.step {below : List Level} {r r' s s' : Reader} {c : Char}
    (h : s.Reflects below r) (hr : r.step c = some r') (hs : s.step c = some s') :
    s'.Reflects below r' := by
  obtain ⟨ops, hops⟩ := step_ops hr
  obtain ⟨t, ht, hr'⟩ := hops r r' (.refl r) hr
  obtain ⟨u, hu, hs'⟩ := hops s s' h.agrees hs
  rw [hr', hs']
  exact (Op.applyAll_reflects h ht hu).settled r'.mode r'.sets

/-- A text keeps reflection. -/
theorem Reflects.read {below : List Level} {r r' s s' : Reader} {text : List Char}
    (h : s.Reflects below r) (hr : r.read text = some r') (hs : s.read text = some s') :
    s'.Reflects below r' := by
  induction text generalizing r s with
  | nil =>
    cases hr
    cases hs
    exact h
  | cons c text ih =>
    obtain ⟨t, ht, hr⟩ := Option.bind_eq_some_iff.mp hr
    obtain ⟨u, hu, hs⟩ := Option.bind_eq_some_iff.mp hs
    exact ih (h.step ht hu) hr hs

/-- Patterns read in lockstep reflect each other. -/
theorem Reflects.finish {r s : Reader} {p q : Pattern} (h : s.Reflects [] r)
    (hr : r.finish = some q) (hs : s.finish = some p) : p.Reflects q := by
  obtain ⟨ops, t, hops, ht, -, rfl⟩ := finish_some hr
  obtain ⟨ops', u, hops', hu, -, rfl⟩ := finish_some hs
  rw [h.mode, hops] at hops'
  cases hops'
  exact (Op.applyAll_reflects h ht hu).level.pattern

end Reader

/-! ### The names of groups -/

namespace Op

/-- The name that an operation gives to a group. -/
def opened : Op → List (List Char)
  | .capture name => name.toList
  | _ => []

/-- An operation names the group that it opens, and with a new name. -/
theorem apply_names {op : Op} {r r' : Reader} (h : op.apply r = some r') :
    r'.names = op.opened ++ r.names ∧ ∀ name ∈ op.opened, name ∉ r.names := by
  cases op with
  | set | look | branch | settings | plain =>
    cases h
    simp [opened, Reader.push, Reader.openGroup]
  | expect =>
    simp only [apply] at h
    split at h <;> cases h
    simp [opened, Reader.goto]
  | again min max greedy =>
    obtain ⟨level, -, rfl⟩ := Option.map_eq_some_iff.mp h
    simp [opened]
  | capture name =>
    simp only [apply] at h
    split at h
    · cases h
    · rename_i hfresh
      cases h
      refine ⟨rfl, fun n hn hmem => hfresh ?_⟩
      obtain rfl := Option.mem_toList.mp hn
      simpa using hmem
  | close =>
    simp only [apply, Reader.closeGroup] at h
    split at h <;> cases h
    simp [opened]

/-- Names that operations give are new, and they are kept. -/
theorem applyAll_names {ops : List Op} {r r' : Reader} (h : applyAll ops r = some r') :
    (∀ name ∈ r.names, name ∈ r'.names) ∧
      ∀ op ∈ ops, ∀ name ∈ op.opened, name ∈ r'.names ∧ name ∉ r.names := by
  induction ops generalizing r with
  | nil =>
    cases h
    simp
  | cons op ops ih =>
    obtain ⟨t, ht, h⟩ := Option.bind_eq_some_iff.mp h
    obtain ⟨htnames, hfresh⟩ := apply_names ht
    obtain ⟨hkept, hopened⟩ := ih h
    have hmem : ∀ name ∈ r.names, name ∈ t.names := fun name hname => by simp [htnames, hname]
    refine ⟨fun name hname => hkept name (hmem name hname), ?_⟩
    intro op' hop' name hname
    rcases List.mem_cons.mp hop' with rfl | hop'
    · exact ⟨hkept name (by simp [htnames, hname]), hfresh name hname⟩
    · obtain ⟨hr', ht'⟩ := hopened op' hop' name hname
      exact ⟨hr', fun hname => ht' (hmem name hname)⟩

end Op

/-! ### The bodies of groups -/

/-- `p.GroupsHold kind body`: every group of the pattern with a name of a kind has that body. -/
def GroupsHold (p : Pattern) (kind : List Char → Bool) (body : Pattern) : Prop :=
  ∀ node ∈ p.nodes, node.2.1.any kind = true → node.2.2 = body

/-- The same of all that an open group holds, which itself has no name of the kind. -/
structure Level.GroupsHold (kind : List Char → Bool) (body : Pattern) (level : Level) : Prop where
  label : level.kind.label.join.any kind = false
  items : ∀ p ∈ level.items, p.GroupsHold kind body
  branches : ∀ p ∈ level.branches, p.GroupsHold kind body

section

variable {kind : List Char → Bool} {body : Pattern}

theorem GroupsHold.of_subset {p : Pattern} {ps : List Pattern}
    (h : ∀ q ∈ ps, q.GroupsHold kind body)
    (hnodes : p.nodes ⊆ ps.flatMap nodes) : p.GroupsHold kind body := by
  intro node hnode hname
  obtain ⟨q, hq, hmem⟩ := List.mem_flatMap.mp (hnodes hnode)
  exact h q hq node hmem hname

theorem Level.GroupsHold.pattern {level : Level} (h : level.GroupsHold kind body) :
    level.pattern.GroupsHold kind body := by
  have hbody : level.body.GroupsHold kind body :=
    .of_subset (List.forall_mem_append.mpr ⟨h.items, h.branches⟩) level.nodes_body_subperm.subset
  have hlabel := h.label
  unfold Level.pattern
  cases hkind : level.kind with
  | plain => exact hbody
  | capture index name =>
    intro node hnode hname
    rcases List.mem_cons.mp hnode with rfl | hnode
    · rw [hkind] at hlabel
      rw [show name.any kind = false from hlabel] at hname
      cases hname
    · exact hbody node hnode hname

theorem Level.GroupsHold.push {level : Level} {p : Pattern} (h : level.GroupsHold kind body)
    (hp : p.GroupsHold kind body) : (level.push p).GroupsHold kind body :=
  ⟨h.label, List.forall_mem_cons.mpr ⟨hp, h.items⟩, h.branches⟩

/-- The same of all open groups of a reader. -/
def Reader.GroupsHold (kind : List Char → Bool) (body : Pattern) (r : Reader) : Prop :=
  ∀ level ∈ r.level :: r.outer, level.GroupsHold kind body

/-- An operation that gives no name of the kind keeps what groups of the kind hold. -/
theorem Op.apply_groupsHold {op : Op} {r r' : Reader} (h : op.apply r = some r')
    (hr : r.GroupsHold kind body) (hop : ∀ name ∈ op.opened, kind name = false) :
    r'.GroupsHold kind body := by
  obtain ⟨hlevel, houter⟩ := List.forall_mem_cons.mp hr
  cases op with
  | set | look =>
    cases h
    exact List.forall_mem_cons.mpr ⟨hlevel.push (by simp [Pattern.GroupsHold, nodes]), houter⟩
  | expect =>
    simp only [apply] at h
    split at h <;> cases h
    exact hr
  | again min max greedy =>
    obtain ⟨level, hrepeat, rfl⟩ := Option.map_eq_some_iff.mp h
    unfold Level.repeatLast at hrepeat
    split at hrepeat
    · rename_i last earlier hitems
      cases hrepeat
      have hall := hlevel.items
      rw [hitems, List.forall_mem_cons] at hall
      refine List.forall_mem_cons.mpr ⟨⟨hlevel.label, List.forall_mem_cons.mpr ⟨?_, hall.2⟩,
        hlevel.branches⟩, houter⟩
      exact fun node hnode => hall.1 node ((nodes_times_sublist min max _ last).subset hnode)
    · cases hrepeat
  | branch =>
    cases h
    have hitems : (ofItems r.level.items).GroupsHold kind body := by
      refine .of_subset hlevel.items ?_
      rw [nodes_ofItems]
      exact (r.level.items.reverse_perm.flatMap_right _).subset
    exact List.forall_mem_cons.mpr ⟨⟨hlevel.label, List.forall_mem_nil _,
      List.forall_mem_cons.mpr ⟨hitems, hlevel.branches⟩⟩, houter⟩
  | settings flags =>
    cases h
    exact List.forall_mem_cons.mpr ⟨⟨hlevel.label, hlevel.items, hlevel.branches⟩, houter⟩
  | plain flags =>
    cases h
    exact List.forall_mem_cons.mpr ⟨⟨rfl, List.forall_mem_nil _, List.forall_mem_nil _⟩, hr⟩
  | capture name =>
    simp only [apply] at h
    split at h <;> cases h
    refine List.forall_mem_cons.mpr ⟨⟨?_, List.forall_mem_nil _, List.forall_mem_nil _⟩, hr⟩
    cases name with
    | none => rfl
    | some name => exact hop name (by simp [opened])
  | close =>
    simp only [apply, Reader.closeGroup] at h
    split at h
    · rename_i parent outer hparent
      cases h
      rw [hparent, List.forall_mem_cons] at houter
      exact List.forall_mem_cons.mpr ⟨houter.1.push hlevel.pattern, houter.2⟩
    · cases h

theorem Op.applyAll_groupsHold {ops : List Op} {r r' : Reader} (h : applyAll ops r = some r')
    (hr : r.GroupsHold kind body) (hops : ∀ op ∈ ops, ∀ name ∈ op.opened, kind name = false) :
    r'.GroupsHold kind body := by
  induction ops generalizing r with
  | nil =>
    cases h
    exact hr
  | cons op ops ih =>
    obtain ⟨t, ht, h⟩ := Option.bind_eq_some_iff.mp h
    obtain ⟨hop, hops⟩ := List.forall_mem_cons.mp hops
    exact ih h (apply_groupsHold ht hr hop) hops

/-- A step of a reader keeps what is known of the bodies, if a reader in lockstep with it gives no
name of the kind to a group. -/
theorem Reader.GroupsHold.step {r r' s s' : Reader} {c : Char} (hs : s.GroupsHold kind body)
    (hagrees : r.Agrees s) (hr' : r.step c = some r') (hs' : s.step c = some s')
    (hnames : ∀ name ∈ r'.names, name ∈ r.names ∨ kind name = false) : s'.GroupsHold kind body := by
  obtain ⟨ops, hops⟩ := step_ops hr'
  obtain ⟨t, ht, hrt⟩ := hops r r' (.refl r) hr'
  obtain ⟨u, hu, hsu⟩ := hops s s' hagrees hs'
  have hopened : ∀ op ∈ ops, ∀ name ∈ op.opened, kind name = false := by
    intro op hop name hname
    obtain ⟨hmem, hfresh⟩ := (Op.applyAll_names ht).2 op hop name hname
    exact (hnames name (by rw [hrt]; exact hmem)).resolve_left hfresh
  have hhold := Op.applyAll_groupsHold hu hs hopened
  rw [hsu]
  exact hhold

/-- What holds of all open groups holds of the pattern in the end. -/
theorem Reader.GroupsHold.finish {r : Reader} {p : Pattern} (hr : r.GroupsHold kind body)
    (h : r.finish = some p) : p.GroupsHold kind body := by
  obtain ⟨ops, t, hending, ht, -, rfl⟩ := finish_some h
  have hopened : ∀ op ∈ ops, ∀ name ∈ op.opened, kind name = false := by
    unfold ending at hending
    split at hending <;> cases hending <;> simp [Op.opened]
  exact (Op.applyAll_groupsHold ht hr hopened t.level List.mem_cons_self).pattern

end

end Relabel.Pattern
