import Relabel.Expression.Lookup
import Relabel.Proofs.Insertion

/-!
# Captured keys

A choice between literal texts matches these texts and no others, as they are written or up to case.
So if the capture of a matcher holds the pattern of all keys and nothing else, what is captured is a
key and resolves.
-/

namespace Relabel

/-- Whether a text is written like another one, with or without regard to case. -/
def writtenAs (ignoreCase : Bool) (part text : List Char) : Bool :=
  if ignoreCase then Unicode.sameFoldText part text else part == text

theorem CharSet.contains_single (k c : Char) : (single k).contains c = (c == k) := by
  rw [Bool.eq_iff_iff, beq_iff_eq]
  simp only [single, contains, Bool.and_eq_true, decide_eq_true_eq]
  exact ⟨fun h => Char.le_antisymm h.2 h.1, fun h => h ▸ ⟨Char.le_refl c, Char.le_refl c⟩⟩

/-- A character closed under case variants is matched up to case. -/
theorem CharSet.contains_folded_single (ignoreCase : Bool) (k c : Char) :
    ((single k).folded ignoreCase).contains c = writtenAs ignoreCase [c] [k] := by
  cases ignoreCase with
  | false => simp [folded, contains_single, writtenAs]
  | true =>
    simp only [folded, if_true, contains, contains_single, writtenAs, Unicode.sameFoldText,
      Unicode.sameFold, Bool.and_true, List.contains_eq_any_beq]
    simp only [BEq.comm]

theorem writtenAs_cons {ignoreCase : Bool} {c k : Char} {part text : List Char}
    (hfirst : writtenAs ignoreCase [c] [k] = true) (hrest : writtenAs ignoreCase part text = true) :
    writtenAs ignoreCase (c :: part) (k :: text) = true := by
  cases ignoreCase with
  | false => simp_all [writtenAs]
  | true => simp_all [writtenAs, Unicode.sameFoldText]

namespace Pattern

/-! ### What literal texts match -/

theorem spelled_cons (flags : Flags) (c : Char) (text : List Char) :
    spelled flags (c :: text) = .seq (literal flags c) (spelled flags text) := by
  simp [spelled, ofItems]

/-- A text that is meant literally matches how it is written, with or without regard to case. -/
theorem matches_spelled {flags : Flags} {text : List Char} {c d : Cursor} {new : Captures}
    (h : (spelled flags text).Matches c d new) :
    ∃ part, c.Over part d ∧ writtenAs flags.ignoreCase part text = true := by
  induction text generalizing c new with
  | nil =>
    obtain ⟨rfl, -⟩ := h
    exact ⟨[], .refl _, by cases hcase : flags.ignoreCase <;> rfl⟩
  | cons k text ih =>
    rw [spelled_cons] at h
    obtain ⟨e, first, second, ⟨next, rest, hrest, hnext, rfl, -⟩, hsecond, -⟩ := h
    obtain ⟨part, hpart, hwritten⟩ := ih hsecond
    rw [CharSet.contains_folded_single] at hnext
    exact ⟨next :: part, (Cursor.Over.advance hrest).trans hpart, writtenAs_cons hnext hwritten⟩

theorem choice_cons (last branch : Pattern) (earlier : List Pattern) :
    choice last (branch :: earlier) = choice (.alt branch last) earlier :=
  rfl

/-- A choice matches what one of its branches does. -/
theorem matches_choice {last : Pattern} {earlier : List Pattern} {c d : Cursor} {new : Captures}
    (h : (choice last earlier).Matches c d new) :
    ∃ branch ∈ last :: earlier, branch.Matches c d new := by
  induction earlier generalizing last with
  | nil => exact ⟨last, List.mem_cons_self, h⟩
  | cons branch earlier ih =>
    rw [choice_cons] at h
    obtain ⟨found, hfound, hmatches⟩ := ih h
    rcases List.mem_cons.mp hfound with rfl | hmem
    · rcases hmatches with hbranch | hlast
      · exact ⟨branch, by simp, hbranch⟩
      · exact ⟨last, by simp, hlast⟩
    · exact ⟨found, by simp [hmem], hmatches⟩

/-- A literal text matches in one way only, so nothing is put in front of a choice between such. -/
theorem canShare_items_spelled (flags : Flags) (text : List Char) :
    canShare (spelled flags text).items = false := by
  have hitems : (spelled flags text).items.any branching = false := by
    induction text with
    | nil => rfl
    | cons c text ih =>
      rw [spelled_cons, items, List.any_append, ih]
      rfl
  rw [canShare, hitems, Bool.and_false]

/-- Branches that are spelled out share nothing that could match in more than one way. -/
theorem ofBranches_spelled (flags : Flags) (last : List Char) (earlier : List Pattern) :
    ofBranches (spelled flags last) earlier = choice (spelled flags last) earlier := by
  cases earlier with
  | nil => rfl
  | cons branch earlier =>
    have hcount : sharedByAll (spelled flags last) (branch :: earlier) = 0 := by
      simp [sharedByAll, canShare_items_spelled]
    simp [ofBranches, hcount]

/-- **A choice between literal texts matches one of them.** -/
theorem matches_oneOf {flags : Flags} {texts : List (List Char)} {c d : Cursor} {new : Captures}
    (hne : texts ≠ []) (h : (oneOf flags texts).Matches c d new) :
    ∃ text ∈ texts, ∃ part, c.Over part d ∧ writtenAs flags.ignoreCase part text = true := by
  cases texts with
  | nil => exact absurd rfl hne
  | cons last earlier =>
    rw [oneOf, ofBranches_spelled] at h
    obtain ⟨branch, hbranch, hmatches⟩ := matches_choice h
    rw [← List.map_cons] at hbranch
    obtain ⟨text, htext, rfl⟩ := List.mem_map.mp hbranch
    exact ⟨text, htext, matches_spelled hmatches⟩

end Pattern

/-- **A capture that holds a choice between literal texts is one of them.** -/
theorem Matcher.captured_writtenAs {wanted : List Char} {p : Pattern} {flags : Pattern.Flags}
    {texts : List (List Char)} (hnumbered : p.WellNumbered) (hne : texts ≠ [])
    (hholds : p.GroupsHold (isBranchOf wanted) (.seq (.oneOf flags texts) .empty))
    {text part : List Char} (hpart : part ∈ (ofPattern wanted p).captured text) :
    ∃ key ∈ texts, writtenAs flags.ignoreCase part key = true := by
  rw [captured_eq, captureSpans_eq] at hpart
  obtain ⟨s, hs, hslice⟩ := List.mem_filterMap.mp hpart
  obtain ⟨entry, hentry, hcapture⟩ := List.mem_filterMap.mp hs
  obtain ⟨c, d, hc, hmatches, -⟩ := (walk_visited rfl hentry).matched
  obtain ⟨index, hindex, hrecorded⟩ :=
    mem_captures_of_firstGroup? hnumbered (fun _ => mem_capture_iff) hcapture
  obtain ⟨name, body, e, f, new, hnode, he, -, hbody, hspan⟩ := hmatches.records _ hrecorded
  -- The number decides the group, hence its name and with it its body.
  have hgroup : (index, name) ∈ p.groups := by
    rw [Pattern.groups_eq_map_nodes]
    exact List.mem_map_of_mem hnode
  obtain ⟨group, hmem, hwanted, hnumber⟩ := mem_capture_iff.mp hindex
  obtain rfl := hnumbered.eq_of_fst_eq hmem hgroup hnumber
  obtain rfl := hholds _ hnode hwanted
  obtain ⟨m, first, second, hkeys, ⟨rfl, -⟩, -⟩ := hbody
  obtain ⟨key, hkey, part', hover, hwritten⟩ := Pattern.matches_oneOf hne hkeys
  have hslice' := Cursor.Over.slice? (hc.trans he) hover
  obtain rfl : part' = part := Option.some.inj (hslice'.symm.trans (hspan ▸ hslice))
  exact ⟨key, hkey, hwritten⟩

namespace Lookup

/-! ### Resolving a key -/

/-- Whether an identifier in a text stands for a key: it is the key if case matters. Otherwise it
has the same lowercase form or is equal to it up to case. -/
def standsFor (caseSensitive : Bool) (identifier key : List Char) : Bool :=
  if caseSensitive then identifier == key
  else Unicode.lowercase key == Unicode.lowercase identifier || Unicode.sameFoldText identifier key

variable {mapping : Mapping} {caseSensitive : Bool}

theorem mem_keys {key : String} :
    key ∈ (ofMapping mapping caseSensitive).keys ↔ key ∈ mapping.map Prod.fst :=
  List.mem_mergeSort

theorem lookup_isSome {key : String} (h : key ∈ mapping.map Prod.fst) :
    (mapping.lookup key).isSome = true := by
  obtain ⟨⟨key', value⟩, hmem, rfl⟩ := List.mem_map.mp h
  rw [List.lookup_isSome_iff]
  exact ⟨_, hmem, beq_self_eq_true _⟩

/-- If a key satisfies a condition, the first that does has a value. -/
theorem first?_isSome {condition : List Char → Bool} {key : String}
    (hkey : key ∈ (ofMapping mapping caseSensitive).keys) (h : condition key.toList = true) :
    ((ofMapping mapping caseSensitive).first? condition).isSome = true := by
  unfold first?
  split
  · rename_i found hfound
    exact lookup_isSome (mem_keys.mp (List.mem_of_find?_eq_some hfound))
  · rename_i hnone
    exact absurd h (by simpa using List.find?_eq_none.mp hnone key hkey)

theorem first?_eq_some {condition : List Char → Bool} {value : String}
    (h : (ofMapping mapping caseSensitive).first? condition = some value) :
    ∃ key, mapping.lookup key = some value ∧ condition key.toList = true := by
  unfold first? at h
  split at h
  · rename_i key hkey
    have hcondition := List.find?_some hkey
    exact ⟨key, h, hcondition⟩
  · cases h

/-- Without regard to case, lowercase forms come first and what is equal up to case second. -/
theorem get?_of_insensitive (part : List Char) :
    (ofMapping mapping false).get? part =
      ((ofMapping mapping false).first? fun key =>
        Unicode.lowercase key == Unicode.lowercase part).or
          ((ofMapping mapping false).first? fun key => Unicode.sameFoldText part key) := by
  have hcase : (ofMapping mapping false).caseSensitive = false := rfl
  rw [get?, hcase, if_neg Bool.false_ne_true]
  dsimp only
  split
  · rename_i hfound
    rw [hfound, Option.some_or]
  · rename_i hnone
    rw [hnone, Option.none_or]

/-- A text that is written like a key resolves. -/
theorem get?_isSome {key : String} {part : List Char} (hkey : key ∈ mapping.map Prod.fst)
    (hwritten : writtenAs (!caseSensitive) part key.toList = true) :
    ((ofMapping mapping caseSensitive).get? part).isSome = true := by
  cases caseSensitive with
  | true =>
    obtain rfl : part = key.toList := by simpa [writtenAs] using hwritten
    simpa [get?, ofMapping] using lookup_isSome hkey
  | false =>
    have hfold : Unicode.sameFoldText part key.toList = true := hwritten
    rw [get?_of_insensitive, Option.isSome_or, Bool.or_eq_true]
    exact .inr (first?_isSome (mem_keys.mpr hkey) hfold)

/-- What a text resolves to is the value of a key that it stands for. -/
theorem get?_eq_some {part : List Char} {value : String}
    (h : (ofMapping mapping caseSensitive).get? part = some value) :
    ∃ key, mapping.lookup key = some value ∧ standsFor caseSensitive part key.toList = true := by
  cases caseSensitive with
  | true =>
    exact ⟨String.ofList part, h, by simp [standsFor]⟩
  | false =>
    rw [get?_of_insensitive, Option.or_eq_some_iff] at h
    rcases h with h | ⟨-, h⟩
    · obtain ⟨key, hkey, hlowered⟩ := first?_eq_some h
      exact ⟨key, hkey, by simp_all [standsFor]⟩
    · obtain ⟨key, hkey, hfold⟩ := first?_eq_some h
      exact ⟨key, hkey, by simp [standsFor, hfold]⟩

end Lookup

end Relabel
