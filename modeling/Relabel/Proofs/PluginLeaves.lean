import Relabel.Proofs.Unchanged

/-!
# Plugins as lists of families

Bundles of plugins can be nested, and every bundle merges once more what its children have merged
already. None of this can be seen from outside: the languages, the embedded code and the expressions
of a plugin are those of its families from left to right, however they are grouped
(`Plugin.results_of_leaves`).

The reason is that merging is associative, and repeated tags are where that could fail. The tags of
a set are in the order in which they were first met (`appendNew`), and what is filed under a tag is
in the order of arrival (`ExpressionSet.filed`); a set that names each tag once is determined by
these two (`ExpressionSet.eq_of_keys_of_filed`).
-/

namespace Relabel

/-! ### Lists of tags without repetitions -/

/-- Some tags, then those of a second list that were not met before. -/
def appendNew (seen tags : List String) : List String :=
  tags.foldl (fun seen tag => if seen.contains tag then seen else seen ++ [tag]) seen

section AppendNew

variable {seen : List String} {tag : String}

theorem dedup_eq_appendNew (tags : List String) : dedup tags = appendNew [] tags :=
  rfl

theorem appendNew_cons (seen : List String) (tag : String) (tags : List String) :
    appendNew seen (tag :: tags) = appendNew (appendNew seen [tag]) tags :=
  rfl

/-- Lists of tags are gone through one after another. -/
theorem appendNew_append (seen front back : List String) :
    appendNew seen (front ++ back) = appendNew (appendNew seen front) back :=
  List.foldl_append

theorem appendNew_singleton_of_mem (h : tag ∈ seen) : appendNew seen [tag] = seen :=
  if_pos (List.contains_iff_mem.mpr h)

theorem appendNew_singleton_of_notMem (h : tag ∉ seen) : appendNew seen [tag] = seen ++ [tag] :=
  if_neg fun hseen => h (List.contains_iff_mem.mp hseen)

/-- Every tag is met. -/
theorem mem_appendNew {tags : List String} :
    tag ∈ appendNew seen tags ↔ tag ∈ seen ∨ tag ∈ tags := by
  induction tags generalizing seen with
  | nil => simp [appendNew]
  | cons other tags ih =>
    rw [appendNew_cons, ih, List.mem_cons, ← or_assoc]
    by_cases hother : other ∈ seen
    · rw [appendNew_singleton_of_mem hother]
      have hmem : tag = other → tag ∈ seen := fun h => h ▸ hother
      tauto
    · rw [appendNew_singleton_of_notMem hother, List.mem_append, List.mem_singleton]

/-- No tag is listed twice. -/
theorem nodup_appendNew {tags : List String} (h : seen.Nodup) : (appendNew seen tags).Nodup := by
  induction tags generalizing seen with
  | nil => exact h
  | cons tag tags ih =>
    rw [appendNew_cons]
    apply ih
    by_cases htag : tag ∈ seen
    · rwa [appendNew_singleton_of_mem htag]
    · rw [appendNew_singleton_of_notMem htag]
      exact List.nodup_append.mpr ⟨h, List.nodup_singleton tag,
        fun other hother other' hother' heq =>
          htag (List.mem_singleton.mp hother' ▸ heq ▸ hother)⟩

theorem nodup_dedup (tags : List String) : (dedup tags).Nodup :=
  nodup_appendNew List.nodup_nil

/-- It makes no difference whether the second list is cleared of its own repetitions before. -/
theorem appendNew_assoc (seen front back : List String) :
    appendNew seen (appendNew front back) = appendNew (appendNew seen front) back := by
  induction back generalizing front with
  | nil => rfl
  | cons tag back ih =>
    rw [appendNew_cons front, ih, appendNew_cons (appendNew seen front)]
    by_cases htag : tag ∈ front
    · have hseen : tag ∈ appendNew seen front := mem_appendNew.mpr (.inr htag)
      rw [appendNew_singleton_of_mem htag, appendNew_singleton_of_mem hseen]
    · rw [appendNew_singleton_of_notMem htag, appendNew_append]

/-- Tags that are repeated in the second list make no difference. -/
theorem appendNew_dedup (seen tags : List String) :
    appendNew seen (dedup tags) = appendNew seen tags :=
  appendNew_assoc seen [] tags

/-- The tags that are added are those of the second list that are new, each once. -/
theorem appendNew_eq_append (seen tags : List String) :
    appendNew seen tags = seen ++ (tags.removeAll seen).eraseDups := by
  induction tags generalizing seen with
  | nil => simp [appendNew]
  | cons tag tags ih =>
    rw [appendNew_cons, ih, List.cons_removeAll]
    by_cases htag : tag ∈ seen
    · have hseen : ¬ seen.contains tag = false := by simpa using htag
      rw [appendNew_singleton_of_mem htag, if_neg hseen]
    · have hseen : seen.contains tag = false := by simpa using htag
      have hrest : tags.removeAll (seen ++ [tag]) =
          (tags.removeAll seen).filter fun other => !other == tag := by
        rw [List.removeAll, List.removeAll, List.filter_filter]
        apply List.filter_congr
        intro other _
        simp [Bool.and_comm, Bool.beq_eq_decide_eq]
      rw [appendNew_singleton_of_notMem htag, if_pos hseen, List.eraseDups_cons, hrest,
        List.append_assoc, List.singleton_append]

theorem appendNew_of_nodup {tags : List String} (h : (seen ++ tags).Nodup) :
    appendNew seen tags = seen ++ tags := by
  induction tags generalizing seen with
  | nil => exact (List.append_nil seen).symm
  | cons tag tags ih =>
    have hsplit : ((seen ++ [tag]) ++ tags).Nodup := by simpa using h
    have htag : tag ∉ seen := fun hmem =>
      (List.nodup_append.mp h).2.2 tag hmem tag List.mem_cons_self rfl
    rw [appendNew_cons, appendNew_singleton_of_notMem htag, ih hsplit, List.append_assoc,
      List.singleton_append]

/-- Of equal tags the first is kept. -/
theorem dedup_eq_eraseDups (tags : List String) : dedup tags = tags.eraseDups := by
  rw [dedup_eq_appendNew, appendNew_eq_append, List.nil_append, List.removeAll_nil]

end AppendNew

/-! ### Sets of expressions -/

namespace ExpressionSet

def keys (set : ExpressionSet) : List String :=
  set.map Prod.fst

/-- What is filed under a tag, entry by entry. -/
def filed (set : ExpressionSet) (tag : String) : List Expression :=
  (set.filter fun entry => entry.1 = tag).flatMap Prod.snd

variable {set other : ExpressionSet} {tag : String}

theorem keys_cons (entry : String × List Expression) (set : ExpressionSet) :
    keys (entry :: set) = entry.1 :: keys set :=
  rfl

theorem nodup_keys_nil : (keys []).Nodup :=
  List.nodup_nil

theorem filed_cons (entry : String × List Expression) (set : ExpressionSet) (tag : String) :
    filed (entry :: set) tag = (if entry.1 = tag then entry.2 else []) ++ filed set tag := by
  by_cases htag : entry.1 = tag <;> simp [filed, htag]

theorem filed_eq_nil (h : tag ∉ set.keys) : set.filed tag = [] := by
  have hfilter : (set.filter fun entry => entry.1 = tag) = [] := by
    apply List.filter_eq_nil_iff.mpr
    intro entry hentry htag
    exact h (List.mem_map.mpr ⟨entry, hentry, of_decide_eq_true htag⟩)
  rw [filed, hfilter, List.flatMap_nil]

/-- Under each tag of a set that names it once is one entry, wherever it stands. -/
theorem filed_of_perm (h : other.keys.Nodup) (hperm : set.Perm other) :
    set.filed tag = other.filed tag := by
  have hentries : (set.filter fun entry => entry.1 = tag).Perm
      (other.filter fun entry => entry.1 = tag) := hperm.filter _
  have hlength : (other.filter fun entry => entry.1 = tag).length ≤ 1 := by
    have hcount := List.nodup_iff_count_le_one.mp h tag
    rwa [keys, List.count, List.countP_map, List.countP_eq_length_filter] at hcount
  have hsame : (set.filter fun entry => entry.1 = tag) =
      other.filter fun entry => entry.1 = tag := by
    cases hfilter : other.filter fun entry => entry.1 = tag with
    | nil =>
      rw [hfilter] at hentries
      exact hentries.eq_nil
    | cons entry rest =>
      rw [hfilter] at hentries hlength
      obtain rfl : rest = [] := List.length_eq_zero_iff.mp (by simpa using hlength)
      exact List.perm_singleton.mp hentries
  rw [filed, filed, hsame]

/-- In a set with each tag once, looking a tag up yields what is filed under it. -/
theorem lookup_eq_filed {set : ExpressionSet} (h : set.keys.Nodup) (htag : tag ∈ set.keys) :
    set.lookup tag = some (set.filed tag) := by
  induction set with
  | nil => cases htag
  | cons entry set ih =>
    obtain ⟨hentry, hset⟩ := List.nodup_cons.mp h
    rw [filed_cons]
    by_cases heq : entry.1 = tag
    · subst heq
      rw [if_pos rfl, filed_eq_nil hentry, List.append_nil]
      exact List.lookup_cons_self
    · have hrest : tag ∈ keys set := (List.mem_cons.mp htag).resolve_left (Ne.symm heq)
      rw [if_neg heq, List.nil_append, ← ih hset hrest, List.lookup_cons,
        beq_eq_false_iff_ne.mpr (Ne.symm heq)]

/-- A set with each tag once is determined by its tags and what is filed under them. -/
theorem eq_map_keys (h : set.keys.Nodup) : set = set.keys.map fun tag => (tag, set.filed tag) := by
  induction set with
  | nil => rfl
  | cons entry set ih =>
    obtain ⟨hentry, hset⟩ := List.nodup_cons.mp h
    have hrest : (keys set).map (fun tag => (tag, filed (entry :: set) tag)) =
        (keys set).map fun tag => (tag, filed set tag) := by
      apply List.map_congr_left
      intro tag htag
      have hne : entry.1 ≠ tag := fun heq => hentry (heq ▸ htag)
      rw [filed_cons, if_neg hne, List.nil_append]
    calc entry :: set = entry :: (keys set).map (fun tag => (tag, filed set tag)) := by
          rw [← ih hset]
      _ = (keys (entry :: set)).map fun tag => (tag, filed (entry :: set) tag) := by
          rw [← hrest, keys_cons, List.map_cons, filed_cons entry set entry.1, if_pos rfl,
            filed_eq_nil hentry, List.append_nil]

theorem filed_map {tags : List String} (h : tags.Nodup) (es : List Expression) :
    filed (tags.map fun tag => (tag, es)) tag = if tag ∈ tags then es else [] := by
  induction tags with
  | nil => rfl
  | cons other tags ih =>
    obtain ⟨hother, htags⟩ := List.nodup_cons.mp h
    rw [List.map_cons, filed_cons, ih htags]
    by_cases heq : other = tag
    · subst heq
      rw [if_pos rfl, if_neg hother, if_pos List.mem_cons_self, List.append_nil]
    · have hmem : tag ∈ other :: tags ↔ tag ∈ tags :=
        List.mem_cons.trans (or_iff_right (Ne.symm heq))
      rw [if_neg heq, List.nil_append]
      exact if_congr hmem.symm rfl rfl

/-- A set that names each tag once is determined by its tags and by what is filed under them. -/
theorem eq_of_keys_of_filed (h : set.keys.Nodup) (hkeys : set.keys = other.keys)
    (hfiled : ∀ tag, set.filed tag = other.filed tag) : set = other := by
  calc set = set.keys.map fun tag => (tag, set.filed tag) := eq_map_keys h
    _ = other.keys.map fun tag => (tag, other.filed tag) := by simp only [hkeys, hfiled]
    _ = other := (eq_map_keys (hkeys ▸ h)).symm

/-- Adding expressions adds their tag, unless it is there. -/
theorem keys_add (set : ExpressionSet) (tag : String) (es : List Expression) :
    (set.add tag es).keys = appendNew set.keys [tag] := by
  induction set with
  | nil => rfl
  | cons entry set ih =>
    rw [add]
    split
    · rename_i heq
      rw [appendNew_singleton_of_mem (heq ▸ List.mem_cons_self)]
      rfl
    · rename_i hne
      rw [keys_cons, keys_cons, ih]
      by_cases htag : tag ∈ keys set
      · rw [appendNew_singleton_of_mem htag,
          appendNew_singleton_of_mem (List.mem_cons_of_mem entry.1 htag)]
      · have hnot : tag ∉ entry.1 :: keys set :=
          List.not_mem_cons_of_ne_of_not_mem (Ne.symm hne) htag
        rw [appendNew_singleton_of_notMem htag, appendNew_singleton_of_notMem hnot,
          List.cons_append]

/-- Added expressions are filed behind those that a tag has already. -/
theorem filed_add (h : set.keys.Nodup) (language tag : String) (es : List Expression) :
    (set.add language es).filed tag = set.filed tag ++ if language = tag then es else [] := by
  induction set with
  | nil => exact (filed_cons (language, es) [] tag).trans (List.append_nil _)
  | cons entry set ih =>
    obtain ⟨hentry, hset⟩ := List.nodup_cons.mp h
    rw [add]
    split
    · rename_i heq
      subst heq
      rw [filed_cons, filed_cons]
      split
      · rename_i htag
        rw [← htag, filed_eq_nil hentry, List.append_nil, List.append_nil]
      · rw [List.append_nil]
    · rw [filed_cons, filed_cons, ih hset, List.append_assoc]

/-- Merging adds the tags that are new. -/
theorem keys_merge (set other : ExpressionSet) :
    (set.merge other).keys = appendNew set.keys other.keys := by
  induction other generalizing set with
  | nil => rfl
  | cons entry other ih =>
    calc (set.merge (entry :: other)).keys
        = appendNew (set.add entry.1 entry.2).keys (keys other) :=
          ih (set.add entry.1 entry.2)
      _ = appendNew set.keys (keys (entry :: other)) := by rw [keys_add]; rfl

theorem nodup_keys_merge (h : set.keys.Nodup) : (set.merge other).keys.Nodup := by
  rw [keys_merge]
  exact nodup_appendNew h

/-- **What is merged is filed behind what a tag has already.** -/
theorem filed_merge (h : set.keys.Nodup) (other : ExpressionSet) (tag : String) :
    (set.merge other).filed tag = set.filed tag ++ other.filed tag := by
  induction other generalizing set with
  | nil => exact (List.append_nil _).symm
  | cons entry other ih =>
    have hadd : (set.add entry.1 entry.2).keys.Nodup := by
      rw [keys_add]
      exact nodup_appendNew h
    calc (set.merge (entry :: other)).filed tag
        = (set.add entry.1 entry.2).filed tag ++ filed other tag := ih hadd
      _ = set.filed tag ++ filed (entry :: other) tag := by
          rw [filed_add h, filed_cons, List.append_assoc]

/-- **The entries of a set may be merged in any order**, if it names each tag once: what is filed
under a tag stays the same. -/
theorem filed_merge_of_perm (h : set.keys.Nodup) (hother : other.keys.Nodup)
    {entries : ExpressionSet} (hperm : entries.Perm other) (tag : String) :
    (set.merge entries).filed tag = set.filed tag ++ other.filed tag := by
  rw [filed_merge h, filed_of_perm hother hperm]

theorem nil_merge (h : other.keys.Nodup) : merge [] other = other := by
  apply eq_of_keys_of_filed (nodup_keys_merge nodup_keys_nil)
  · rw [keys_merge]
    exact appendNew_of_nodup h
  · intro tag
    rw [filed_merge nodup_keys_nil]
    rfl

/-- Merging is associative, if the sets in front name each tag once. -/
theorem merge_assoc {middle : ExpressionSet} (h : set.keys.Nodup) (hmiddle : middle.keys.Nodup)
    (other : ExpressionSet) : set.merge (middle.merge other) = (set.merge middle).merge other := by
  apply eq_of_keys_of_filed (nodup_keys_merge h)
  · rw [keys_merge, keys_merge, keys_merge, keys_merge, appendNew_assoc]
  · intro tag
    rw [filed_merge h, filed_merge hmiddle, filed_merge (nodup_keys_merge h), filed_merge h,
      List.append_assoc]

end ExpressionSet

/-! ### Families one after another -/

theorem flatMap_filter {α β : Type} (p : α → Bool) (g : α → List β) (xs : List α) :
    (xs.filter p).flatMap g = xs.flatMap fun x => if p x = true then g x else [] := by
  induction xs with
  | nil => rfl
  | cons x xs ih =>
    rw [List.filter_cons, List.flatMap_cons, ← ih]
    split
    · rw [List.flatMap_cons]
    · rw [List.nil_append]

namespace Family

/-- The expressions of a family, none if they cannot be built. -/
def built (factory : Factory) (options : Options) (f : Family) : List Expression :=
  (factory f options).toOption.getD []

/-- Some expressions, under every tag of a family. -/
def filing (f : Family) (es : List Expression) : ExpressionSet :=
  (dedup f.languages).map fun language => (language, es)

/-- Adds the expressions of some families, one after another, to a set. -/
def gather (factory : Factory) (options : Options) (set : ExpressionSet) (fs : List Family) :
    Traced ExpressionSet :=
  fs.foldlM (fun set f => return set.merge (← f.expressions factory options)) set

variable {factory : Factory} {options : Options} {set : ExpressionSet}

theorem gather_cons (f : Family) (fs : List Family) : gather factory options set (f :: fs) =
    f.expressions factory options >>= fun found => gather factory options (set.merge found) fs := by
  simp only [gather, List.foldlM_cons, bind_assoc, pure_bind]

/-- Families are gathered one after another. -/
theorem gather_append (front back : List Family) : gather factory options set (front ++ back) =
    gather factory options set front >>= fun found => gather factory options found back :=
  List.foldlM_append

/-- What stands in front of a set may be merged before or after the families are gathered. -/
theorem gather_merge {middle : ExpressionSet} (h : set.keys.Nodup) (hmiddle : middle.keys.Nodup)
    (fs : List Family) : gather factory options (set.merge middle) fs =
      gather factory options middle fs >>= fun found => pure (set.merge found) := by
  induction fs generalizing middle with
  | nil => rfl
  | cons f fs ih =>
    rw [gather_cons, gather_cons, bind_assoc]
    apply bind_congr
    intro found
    rw [← ExpressionSet.merge_assoc h hmiddle]
    exact ih (ExpressionSet.nodup_keys_merge hmiddle)

/-- Gathering into a set is gathering by itself and merging then. -/
theorem gather_eq_merge (h : set.keys.Nodup) (fs : List Family) : gather factory options set fs =
    gather factory options [] fs >>= fun found => pure (set.merge found) :=
  gather_merge h ExpressionSet.nodup_keys_nil fs

theorem keys_filing (f : Family) (es : List Expression) :
    (f.filing es).keys = dedup f.languages := by
  rw [filing, ExpressionSet.keys, List.map_map]
  exact List.map_id _

/-- A family that repeats a tag files its expressions once under it. -/
theorem filed_filing (f : Family) (es : List Expression) (tag : String) :
    (f.filing es).filed tag = if f.languages.contains tag then es else [] := by
  have hmem : tag ∈ dedup f.languages ↔ f.languages.contains tag = true :=
    mem_dedup.trans List.contains_iff_mem.symm
  rw [filing, ExpressionSet.filed_map (nodup_dedup f.languages)]
  exact if_congr hmem rfl rfl

/-- The expressions of one family are gathered like those of several. -/
theorem expressions_eq_gather (factory : Factory) (f : Family) (options : Options) :
    f.expressions factory options = gather factory options [] [f] := by
  have hmerge : ∀ es : List Expression, ExpressionSet.merge [] (f.filing es) = f.filing es := by
    intro es
    apply ExpressionSet.nil_merge
    rw [keys_filing]
    exact nodup_dedup f.languages
  have hexpressions : f.expressions factory options = Traced.ofExcept (factory f options) >>=
      fun es => Traced.emit (.expressionsResolved options.intent f.languages es.length) >>=
        fun _ => pure (f.filing es) := rfl
  rw [gather_cons, hexpressions]
  simp only [bind_assoc, pure_bind, hmerge]
  rfl

/-- The expressions of a family are filed under each of its tags, if they can be built. -/
theorem outcome_expressions (factory : Factory) (f : Family) (options : Options) :
    (f.expressions factory options).outcome = (factory f options).map f.filing := by
  rw [expressions, Traced.outcome_bind]
  cases factory f options <;> rfl

/-- Gathering fails if the expressions of some family cannot be built. -/
theorem outcome_gather_error_iff {fs : List Family} :
    (∃ e, (gather factory options set fs).outcome = .error e) ↔
      ∃ f ∈ fs, ∃ e, factory f options = .error e := by
  induction fs generalizing set with
  | nil => simp [gather]
  | cons f fs ih =>
    rw [List.exists_mem_cons_iff, gather_cons, Traced.outcome_bind, outcome_expressions]
    cases hes : factory f options with
    | error e => exact ⟨fun _ => .inl ⟨e, rfl⟩, fun _ => ⟨e, rfl⟩⟩
    | ok es =>
      refine Iff.trans ih (Iff.symm (or_iff_right ?_))
      rintro ⟨e, he⟩
      cases he

/-- The tags and the expressions that come together. -/
theorem gather_of_ok {fs : List Family} {all : ExpressionSet} (h : set.keys.Nodup)
    (hall : (gather factory options set fs).outcome = .ok all) :
    all.keys = appendNew set.keys (fs.flatMap languages) ∧ ∀ tag, all.filed tag =
      set.filed tag ++ (fs.filter fun f => f.languages.contains tag).flatMap
        fun f => f.built factory options := by
  induction fs generalizing set with
  | nil =>
    obtain rfl := Except.ok.inj hall
    exact ⟨rfl, fun tag => (List.append_nil _).symm⟩
  | cons f fs ih =>
    rw [gather_cons, Traced.outcome_bind, outcome_expressions] at hall
    cases hes : factory f options with
    | error e =>
      rw [hes] at hall
      cases hall
    | ok es =>
      rw [hes] at hall
      obtain ⟨hkeys, hfiled⟩ := ih (ExpressionSet.nodup_keys_merge h) hall
      refine ⟨?_, fun tag => ?_⟩
      · rw [hkeys, ExpressionSet.keys_merge, keys_filing, appendNew_dedup, ← appendNew_append,
          List.flatMap_cons]
      · have hbuilt : f.built factory options = es := by rw [built, hes]; rfl
        rw [hfiled, ExpressionSet.filed_merge h, filed_filing, flatMap_filter, flatMap_filter,
          List.flatMap_cons, hbuilt, List.append_assoc]

end Family

/-! ### The leaves of a plugin -/

namespace Plugin

mutual

def leaves : Plugin → List Family
  | .family f => [f]
  | .bundle children => leavesOfAll children

def leavesOfAll : List Plugin → List Family
  | [] => []
  | p :: rest => leaves p ++ leavesOfAll rest

end

theorem leavesOfAll_append (front back : List Plugin) :
    leavesOfAll (front ++ back) = leavesOfAll front ++ leavesOfAll back := by
  induction front with
  | nil => simp [leavesOfAll]
  | cons p front ih => rw [List.cons_append, leavesOfAll, leavesOfAll, ih, List.append_assoc]

/-- Pushing a plugin puts its families behind the others. -/
theorem leaves_push (children : List Plugin) (child : Plugin) :
    ((bundle children).push child).leaves = (bundle children).leaves ++ child.leaves := by
  rw [push, leaves, leavesOfAll_append, leavesOfAll, leavesOfAll, List.append_nil, leaves]

mutual

/-- A nested bundle clears repetitions that the outer one would clear in any case. -/
theorem appendNew_languages (seen : List String) : (p : Plugin) →
    appendNew seen p.languages = appendNew seen (p.leaves.flatMap Family.languages)
  | .family f => by rw [languages, leaves, List.flatMap_singleton]
  | .bundle children => by
    rw [languages, appendNew_dedup, leaves]
    exact appendNew_languagesOfAll seen children

theorem appendNew_languagesOfAll (seen : List String) : (children : List Plugin) →
    appendNew seen (languagesOfAll children) =
      appendNew seen ((leavesOfAll children).flatMap Family.languages)
  | [] => by rw [languagesOfAll, leavesOfAll, List.flatMap_nil]
  | p :: rest => by
    rw [languagesOfAll, leavesOfAll, List.flatMap_append, appendNew_append, appendNew_append,
      appendNew_languages seen p]
    exact appendNew_languagesOfAll _ rest

end

theorem languages_bundle (children : List Plugin) : (bundle children).languages =
    ((bundle children).leaves.flatMap Family.languages).eraseDups := by
  rw [languages, dedup_eq_appendNew, appendNew_languagesOfAll, ← dedup_eq_appendNew,
    dedup_eq_eraseDups, leaves]

/-- A plugin handles the languages of its families. -/
theorem mem_languages {p : Plugin} {tag : String} :
    tag ∈ p.languages ↔ tag ∈ p.leaves.flatMap Family.languages := by
  have hmem := congrArg (tag ∈ ·) (appendNew_languages [] p)
  simpa [mem_appendNew] using hmem

mutual

/-- A plugin finds what its families find, one after another. -/
theorem embeds_eq_mapM (document : Document) : (p : Plugin) → embeds document p =
    p.leaves.mapM (fun f : Family => f.embeds document) >>= fun found => pure found.flatten
  | .family f => by simp [embeds, leaves]
  | .bundle children => by
    rw [embeds, leaves]
    exact embedsOfAll_eq_mapM document children

theorem embedsOfAll_eq_mapM (document : Document) : (children : List Plugin) →
    embedsOfAll document children =
      (leavesOfAll children).mapM (fun f : Family => f.embeds document) >>=
        fun found => pure found.flatten
  | [] => by
    rw [embedsOfAll, leavesOfAll]
    rfl
  | p :: rest => by
    rw [embedsOfAll, leavesOfAll, List.mapM_append, embeds_eq_mapM document p,
      embedsOfAll_eq_mapM document rest]
    simp only [bind_assoc, pure_bind, List.flatten_append]

end

/-- The embedded code is what the families for the language of the document find. -/
theorem outcome_embeds (p : Plugin) (document : Document) : (p.embeds document).outcome =
    .ok ((p.leaves.filter fun f => f.languages.contains document.kind).flatMap fun f =>
      f.locators.flatMap fun locator => locator.find document.content) := by
  have hleaves := Traced.outcome_mapM_of_ok fun (f : Family) (_ : f ∈ p.leaves) =>
    f.outcome_embeds document
  rw [embeds_eq_mapM, Traced.outcome_bind, hleaves, flatMap_filter, List.flatMap_def]
  rfl

mutual

/-- The expressions of a plugin are gathered from its families. -/
theorem expressionsFrom_eq_gather (factory : Factory) (options : Options) : (p : Plugin) →
    expressionsFrom factory options p = Family.gather factory options [] p.leaves
  | .family f => by rw [expressionsFrom, leaves, Family.expressions_eq_gather]
  | .bundle children => by
    rw [expressionsFrom, leaves]
    exact expressionsOfAll_eq_gather factory options ExpressionSet.nodup_keys_nil children

/-- The expressions of some plugins are gathered from their families. -/
theorem expressionsOfAll_eq_gather (factory : Factory) (options : Options) {set : ExpressionSet}
    (h : set.keys.Nodup) : (children : List Plugin) →
    expressionsOfAll factory options set children =
      Family.gather factory options set (leavesOfAll children)
  | [] => by
    rw [expressionsOfAll, leavesOfAll]
    rfl
  | p :: rest => by
    rw [expressionsOfAll, leavesOfAll, Family.gather_append, Family.gather_eq_merge h, bind_assoc,
      expressionsFrom_eq_gather factory options p]
    apply bind_congr
    intro found
    rw [pure_bind]
    exact expressionsOfAll_eq_gather factory options (ExpressionSet.nodup_keys_merge h) rest

end

theorem leavesOfAll_map_family (fs : List Family) : leavesOfAll (fs.map .family) = fs := by
  induction fs with
  | nil => rw [List.map_nil, leavesOfAll]
  | cons f fs ih => rw [List.map_cons, leavesOfAll, leaves, ih, List.singleton_append]

/-- The expressions of a plugin, by its families. -/
theorem expressions_of_leaves {p : Plugin} {factory : Factory} {options : Options}
    {set : ExpressionSet} (h : (p.expressionsFrom factory options).outcome = .ok set) :
    set.keys.Nodup ∧ (∀ tag, tag ∈ set.keys ↔ tag ∈ p.languages) ∧ ∀ tag, set.filed tag =
      (p.leaves.filter fun f => f.languages.contains tag).flatMap fun f =>
        f.built factory options := by
  rw [expressionsFrom_eq_gather] at h
  obtain ⟨hkeys, hfiled⟩ := Family.gather_of_ok ExpressionSet.nodup_keys_nil h
  have hdedup : set.keys = dedup (p.leaves.flatMap Family.languages) := hkeys
  refine ⟨hdedup ▸ nodup_dedup _, ?_, hfiled⟩
  intro tag
  rw [hdedup, mem_dedup, mem_languages]

/-- A plugin is what its families are from left to right. The languages of a bundle are those of the
families, each where it comes first. The embedded code is what the families for the language of the
document find, one after another. The expressions, whatever builds them, can be built if those of
all families can, and then the tags are the languages and under each tag is what the families for it
have, each once; a bundle gets the same from them in whatever order it goes through the tags. So
plugins with the same families, such as a bundle and its flat form, cannot be told apart. -/
theorem results_of_leaves (p : Plugin) (factory : Factory) (options : Options)
    (document : Document) :
    (∀ children, p = bundle children →
      p.languages = (p.leaves.flatMap Family.languages).eraseDups ∧
        ∀ child, (p.push child).leaves = p.leaves ++ child.leaves) ∧
    (p.embeds document).outcome =
      .ok ((p.leaves.filter fun f => f.languages.contains document.kind).flatMap fun f =>
        f.locators.flatMap fun locator => locator.find document.content) ∧
    ((∃ e, (p.expressionsFrom factory options).outcome = .error e) ↔
      ∃ f ∈ p.leaves, ∃ e, factory f options = .error e) ∧
    (∀ set, (p.expressionsFrom factory options).outcome = .ok set →
      (set.map Prod.fst).Nodup ∧ (∀ tag, tag ∈ set.map Prod.fst ↔ tag ∈ p.languages) ∧
      (∀ tag ∈ p.languages, set.lookup tag =
        some ((p.leaves.filter fun f => f.languages.contains tag).flatMap fun f =>
          f.built factory options)) ∧
      ∀ front entries : ExpressionSet, (front.map Prod.fst).Nodup → entries.Perm set →
        ∀ tag, (front.merge entries).filed tag = front.filed tag ++
          (p.leaves.filter fun f => f.languages.contains tag).flatMap fun f =>
            f.built factory options) ∧
    (bundle (p.leaves.map .family)).leaves = p.leaves ∧
    ∀ q : Plugin, q.leaves = p.leaves →
      q.embeds document = p.embeds document ∧
      q.expressionsFrom factory options = p.expressionsFrom factory options ∧
      ∀ children others, p = bundle children → q = bundle others → q.languages = p.languages := by
  refine ⟨?_, outcome_embeds p document, ?_, ?_, ?_, ?_⟩
  · rintro children rfl
    exact ⟨languages_bundle children, leaves_push children⟩
  · rw [expressionsFrom_eq_gather]
    exact Family.outcome_gather_error_iff
  · intro set hset
    obtain ⟨hnodup, hkeys, hfiled⟩ := expressions_of_leaves hset
    refine ⟨hnodup, hkeys, ?_, ?_⟩
    · intro tag htag
      rw [ExpressionSet.lookup_eq_filed hnodup ((hkeys tag).mpr htag), hfiled tag]
    · intro front entries hfront hperm tag
      rw [ExpressionSet.filed_merge_of_perm hfront hnodup hperm, hfiled tag]
  · rw [leaves, leavesOfAll_map_family]
  · intro q hleaves
    refine ⟨?_, ?_, ?_⟩
    · rw [embeds_eq_mapM, embeds_eq_mapM, hleaves]
    · rw [expressionsFrom_eq_gather, expressionsFrom_eq_gather, hleaves]
    · rintro children others rfl rfl
      rw [languages_bundle, languages_bundle, hleaves]

/-- The usual plugins in another grouping, with an empty bundle between them. -/
theorem results_of_leaves_regrouped :
    let regrouped := bundle [bundle [bundle [.family (.css .default)], .family (.html .default)],
      bundle [], .family (.js .default)]
    regrouped.leaves = builtin.leaves ∧
      regrouped.languages = builtin.languages ∧
      regrouped.embeds ⟨"html", "<style>p\x7b\x7d</style>"⟩ =
        builtin.embeds ⟨"html", "<style>p\x7b\x7d</style>"⟩ ∧
      regrouped.expressions .attributes = builtin.expressions .attributes := by
  intro regrouped
  have hleaves : regrouped.leaves = builtin.leaves := by
    simp [regrouped, builtin, leaves, leavesOfAll]
  obtain ⟨-, -, -, -, -, hsame⟩ :=
    results_of_leaves builtin Family.build .attributes ⟨"html", "<style>p\x7b\x7d</style>"⟩
  obtain ⟨hembeds, hexpressions, hlanguages⟩ := hsame regrouped hleaves
  exact ⟨hleaves, hlanguages _ _ rfl rfl, hembeds, hexpressions⟩

end Plugin

end Relabel
