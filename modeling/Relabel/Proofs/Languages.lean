import Mathlib.Computability.Language
import Relabel.Proofs.Finding
import Relabel.Proofs.Keys

/-!
# The language of a pattern

A pattern without groups and conditions matches a stretch of text whatever stands around it. It is
told by its language, the texts that it matches (`Pattern.matches_iff_mem_language`), and languages
are put together as the patterns are: by product, sum and Kleene star.

Which of several matches a search prefers does not follow from the language. It matters for what is
enclosed by two delimiters, such as a comment: the search stops at the first closing delimiter
(`Pattern.matchAt_delimited`).
-/

open scoped Computability

namespace Relabel

namespace Pattern

/-- The texts that a pattern matches if its conditions are disregarded. -/
def language : Pattern → Language Char
  | .empty => 1
  | .set s => {part | ∃ x, s.contains x = true ∧ part = [x]}
  | .look _ => 1
  | .seq a b => a.language * b.language
  | .alt a b => a.language + b.language
  | .group _ _ a => a.language
  | .repeated min max _ a =>
    {part | ∃ n, min ≤ n ∧ (∀ m, max = some m → n ≤ min ∨ n ≤ m) ∧ part ∈ a.language ^ n}

/-- Whether a pattern has neither groups nor conditions. -/
def lexical : Pattern → Bool
  | .empty => true
  | .set _ => true
  | .look _ => false
  | .seq a b => a.lexical && b.lexical
  | .alt a b => a.lexical && b.lexical
  | .group _ _ _ => false
  | .repeated _ _ _ a => a.lexical

/-- What a pattern matches is one of its texts. -/
theorem Matches.exists_mem_language {p : Pattern} {c d : Cursor} {new : Captures}
    (h : p.Matches c d new) : ∃ part ∈ p.language, c.Over part d := by
  induction p generalizing c d new with
  | empty =>
    obtain ⟨rfl, -⟩ := h
    exact ⟨[], rfl, .refl _⟩
  | set s =>
    obtain ⟨next, rest, hrest, hnext, rfl, -⟩ := h
    exact ⟨[next], ⟨next, hnext, rfl⟩, .advance hrest⟩
  | look l =>
    obtain ⟨-, rfl, -⟩ := h
    exact ⟨[], rfl, .refl _⟩
  | seq a b iha ihb =>
    obtain ⟨e, first, second, hfirst, hsecond, -⟩ := h
    obtain ⟨part, hpart, hover⟩ := iha hfirst
    obtain ⟨part', hpart', hover'⟩ := ihb hsecond
    exact ⟨part ++ part', Language.append_mem_mul hpart hpart', hover.trans hover'⟩
  | alt a b iha ihb =>
    rcases h with h | h
    · obtain ⟨part, hpart, hover⟩ := iha h
      exact ⟨part, .inl hpart, hover⟩
    · obtain ⟨part, hpart, hover⟩ := ihb h
      exact ⟨part, .inr hpart, hover⟩
  | group index name a iha =>
    obtain ⟨inner, hinner, -⟩ := h
    exact iha hinner
  | repeated min max greedy a iha =>
    obtain ⟨n, hmin, hmax, hcopies⟩ := h
    suffices hpower : ∃ part ∈ a.language ^ n, c.Over part d by
      obtain ⟨part, hpart, hover⟩ := hpower
      exact ⟨part, ⟨n, hmin, hmax, hpart⟩, hover⟩
    clear hmin hmax
    induction n generalizing c new with
    | zero =>
      obtain ⟨rfl, -⟩ := hcopies
      exact ⟨[], rfl, .refl _⟩
    | succ n ih =>
      obtain ⟨e, first, others, hfirst, hothers, -⟩ := hcopies
      obtain ⟨part, hpart, hover⟩ := iha hfirst
      obtain ⟨part', hpart', hover'⟩ := ih hothers
      rw [pow_succ']
      exact ⟨part ++ part', Language.append_mem_mul hpart hpart', hover.trans hover'⟩

/-- A pattern without groups and conditions matches each of its texts, wherever it stands. -/
theorem matches_of_mem_language {p : Pattern} (hp : p.lexical = true) {c d : Cursor}
    {part : List Char} (hpart : part ∈ p.language) (hover : c.Over part d) : p.Matches c d [] := by
  induction p generalizing c d part with
  | empty =>
    obtain rfl : part = [] := hpart
    exact ⟨hover.eq_of_nil, rfl⟩
  | set s =>
    obtain ⟨x, hx, rfl⟩ := hpart
    exact ⟨x, d.rest, hover.1, hx, hover.unique (.advance hover.1), rfl⟩
  | look l => cases hp
  | seq a b iha ihb =>
    rw [lexical, Bool.and_eq_true] at hp
    obtain ⟨first, hfirst, second, hsecond, rfl⟩ := hpart
    obtain ⟨e, he, hd⟩ := hover.split
    exact ⟨e, [], [], iha hp.1 hfirst he, ihb hp.2 hsecond hd, rfl⟩
  | alt a b iha ihb =>
    rw [lexical, Bool.and_eq_true] at hp
    rcases hpart with hpart | hpart
    · exact .inl (iha hp.1 hpart hover)
    · exact .inr (ihb hp.2 hpart hover)
  | group index name a iha => cases hp
  | repeated min max greedy a iha =>
    obtain ⟨n, hmin, hmax, hpower⟩ := hpart
    refine ⟨n, hmin, hmax, ?_⟩
    clear hmin hmax
    induction n generalizing c part with
    | zero =>
      obtain rfl : part = [] := hpower
      exact ⟨hover.eq_of_nil, rfl⟩
    | succ n ih =>
      rw [pow_succ'] at hpower
      obtain ⟨first, hfirst, others, hothers, rfl⟩ := hpower
      obtain ⟨e, he, hd⟩ := hover.split
      exact ⟨e, [], [], iha hp hfirst he, ih hd hothers, rfl⟩

theorem nodes_of_lexical {p : Pattern} (hp : p.lexical = true) : p.nodes = [] := by
  induction p with
  | empty => rfl
  | set s => rfl
  | look l => rfl
  | seq a b iha ihb | alt a b iha ihb =>
    rw [lexical, Bool.and_eq_true] at hp
    rw [nodes, iha hp.1, ihb hp.2, List.append_nil]
  | group index name a iha => cases hp
  | repeated min max greedy a iha => exact iha hp

theorem groups_of_lexical {p : Pattern} (hp : p.lexical = true) : p.groups = [] := by
  rw [groups_eq_map_nodes, nodes_of_lexical hp, List.map_nil]

/-- Whether a pattern has no set with a character. -/
def avoids (x : Char) : Pattern → Bool
  | .empty => true
  | .set s => !s.contains x
  | .look _ => true
  | .seq a b => a.avoids x && b.avoids x
  | .alt a b => a.avoids x && b.avoids x
  | .group _ _ a => a.avoids x
  | .repeated _ _ _ a => a.avoids x

/-- A pattern matches no text with a character that it avoids. -/
theorem notMem_of_avoids {p : Pattern} {x : Char} (hp : p.avoids x = true) {part : List Char}
    (hpart : part ∈ p.language) : x ∉ part := by
  induction p generalizing part with
  | empty | look l =>
    obtain rfl : part = [] := hpart
    exact List.not_mem_nil
  | set s =>
    obtain ⟨y, hy, rfl⟩ := hpart
    rw [List.mem_singleton]
    rintro rfl
    rw [avoids, hy] at hp
    cases hp
  | seq a b iha ihb =>
    rw [avoids, Bool.and_eq_true] at hp
    obtain ⟨first, hfirst, second, hsecond, rfl⟩ := hpart
    rw [List.mem_append]
    exact not_or.mpr ⟨iha hp.1 hfirst, ihb hp.2 hsecond⟩
  | alt a b iha ihb =>
    rw [avoids, Bool.and_eq_true] at hp
    exact hpart.elim (iha hp.1) (ihb hp.2)
  | group index name a iha => exact iha hp hpart
  | repeated min max greedy a iha =>
    obtain ⟨n, -, -, hpower⟩ := hpart
    induction n generalizing part with
    | zero =>
      obtain rfl : part = [] := hpower
      exact List.not_mem_nil
    | succ n ih =>
      rw [pow_succ'] at hpower
      obtain ⟨first, hfirst, others, hothers, rfl⟩ := hpower
      rw [List.mem_append]
      exact not_or.mpr ⟨iha hp hfirst, ih hothers⟩

/-- A pattern without groups records nothing. -/
theorem Matches.eq_nil_of_bare {p : Pattern} {c d : Cursor} {new : Captures} (hp : p.nodes = [])
    (h : p.Matches c d new) : new = [] := by
  refine List.eq_nil_iff_forall_not_mem.mpr fun entry hentry => ?_
  obtain ⟨name, body, e, f, new, hnode, -⟩ := h.records entry hentry
  rw [hp] at hnode
  cases hnode

/-- A pattern that does not match the empty text consumes something. -/
theorem Matches.offset_lt {p : Pattern} {c d : Cursor} {new : Captures} (hp : [] ∉ p.language)
    (h : p.Matches c d new) : c.offset < d.offset := by
  obtain ⟨part, hpart, hover⟩ := h.exists_mem_language
  refine hover.offset_lt ?_
  rintro rfl
  exact hp hpart

/-- **A pattern without groups and conditions matches the texts of its language**, and records
nothing. -/
theorem matches_iff_mem_language {p : Pattern} (hp : p.lexical = true) {c d : Cursor}
    {new : Captures} : p.Matches c d new ↔ new = [] ∧ ∃ part ∈ p.language, c.Over part d := by
  constructor
  · intro h
    exact ⟨h.eq_nil_of_bare (nodes_of_lexical hp), h.exists_mem_language⟩
  · rintro ⟨rfl, part, hpart, hover⟩
    exact matches_of_mem_language hp hpart hover

/-- If a pattern without groups and conditions matches in one way only, that is the match. -/
theorem matchAt_of_unique {p : Pattern} (hp : p.lexical = true) (hproper : p.proper = true)
    {c d : Cursor} {part : List Char} (hpart : part ∈ p.language) (hd : c.Over part d)
    (hunique : ∀ part' ∈ p.language, ∀ d', c.Over part' d' → part' = part) :
    (Program.ofPattern p).matchAt c = some ⟨⟨c.offset, d.offset⟩, []⟩ := by
  refine Program.matchAt_of_unique hproper (matches_of_mem_language hp hpart hd) ?_
  intro d' new' hmatches
  obtain ⟨rfl, part', hpart', hd'⟩ := (matches_iff_mem_language hp).mp hmatches
  obtain rfl := hunique part' hpart' d' hd'
  exact ⟨hd'.unique hd, rfl⟩

/-! ### Languages of common patterns -/

def char (c : Char) : Pattern :=
  .set (.single c)

def row (items : List Pattern) : Pattern :=
  items.foldr .seq .empty

def star (p : Pattern) : Pattern :=
  .repeated 0 none true p

theorem language_char (c : Char) : (char c).language = {[c]} := by
  ext part
  change (∃ x, (CharSet.single c).contains x = true ∧ part = [x]) ↔ part = [c]
  simp [CharSet.contains_single]

theorem mem_language_char {x : Char} {part : List Char} :
    part ∈ (char x).language ↔ part = [x] := by
  rw [language_char]
  exact Iff.rfl

theorem mem_language_alt {a b : Pattern} {part : List Char} :
    part ∈ (Pattern.alt a b).language ↔ part ∈ a.language ∨ part ∈ b.language :=
  Iff.rfl

theorem mem_language_row_nil {part : List Char} : part ∈ (row []).language ↔ part = [] :=
  Iff.rfl

/-- A text of a row falls into a text of its first pattern and one of the others. -/
theorem mem_language_row_cons {p : Pattern} {items : List Pattern} {part : List Char} :
    part ∈ (row (p :: items)).language ↔
      ∃ front ∈ p.language, ∃ back ∈ (row items).language, front ++ back = part :=
  Iff.rfl

theorem language_row_cons (p : Pattern) (items : List Pattern) :
    (row (p :: items)).language = p.language * (row items).language :=
  rfl

theorem language_row_singleton (p : Pattern) : (row [p]).language = p.language :=
  mul_one p.language

theorem mem_language_set {s : CharSet} {part : List Char} :
    part ∈ (Pattern.set s).language ↔ ∃ x, s.contains x = true ∧ part = [x] :=
  Iff.rfl

theorem language_repeated (greedy : Bool) (p : Pattern) :
    (Pattern.repeated 0 none greedy p).language = p.language∗ := by
  ext part
  rw [Language.kstar_eq_iSup_pow, Language.mem_iSup]
  constructor
  · rintro ⟨n, -, -, hpower⟩
    exact ⟨n, hpower⟩
  · rintro ⟨n, hpower⟩
    exact ⟨n, Nat.zero_le n, by simp, hpower⟩

theorem language_star (p : Pattern) : p.star.language = p.language∗ :=
  language_repeated true p

/-- At most one copy. -/
theorem mem_language_optional {greedy : Bool} {p : Pattern} {part : List Char} :
    part ∈ (Pattern.repeated 0 (some 1) greedy p).language ↔ part = [] ∨ part ∈ p.language := by
  constructor
  · rintro ⟨n, -, hmax, hpower⟩
    have hle : n = 0 ∨ n = 1 := by
      have := hmax 1 rfl
      omega
    rcases hle with rfl | rfl
    · exact .inl hpower
    · rw [pow_one] at hpower
      exact .inr hpower
  · rintro (rfl | hpart)
    · exact ⟨0, Nat.le_refl 0, fun _ _ => .inl (Nat.le_refl 0), rfl⟩
    · refine ⟨1, Nat.zero_le 1, ?_, ?_⟩
      · rintro m ⟨rfl⟩
        exact .inr (Nat.le_refl 1)
      · rwa [pow_one]

theorem append_mem_kstar {l : Language Char} {front back : List Char} (hfront : front ∈ l)
    (hback : back ∈ l∗) : front ++ back ∈ l∗ := by
  obtain ⟨parts, rfl, hparts⟩ := Language.mem_kstar.mp hback
  exact Language.mem_kstar.mpr ⟨front :: parts, rfl, List.forall_mem_cons.mpr ⟨hfront, hparts⟩⟩

theorem mem_kstar_of_forall {l : Language Char} {part : List Char} (h : ∀ x ∈ part, [x] ∈ l) :
    part ∈ l∗ := by
  induction part with
  | nil => exact Language.nil_mem_kstar l
  | cons x part ih =>
    obtain ⟨hx, hpart⟩ := List.forall_mem_cons.mp h
    exact append_mem_kstar hx (ih hpart)

/-- A given number of characters of a set. -/
theorem mem_language_set_pow {s : CharSet} {n : Nat} :
    ∀ {part : List Char}, part ∈ (Pattern.set s).language ^ n ↔
      part.length = n ∧ ∀ x ∈ part, s.contains x = true := by
  induction n with
  | zero =>
    intro part
    rw [pow_zero, Language.mem_one, List.length_eq_zero_iff]
    exact ⟨fun h => ⟨h, by simp [h]⟩, And.left⟩
  | succ n ih =>
    intro part
    rw [pow_succ', Language.mem_mul]
    constructor
    · rintro ⟨_, ⟨x, hx, rfl⟩, later, hlater, rfl⟩
      obtain ⟨hlength, hchars⟩ := ih.mp hlater
      exact ⟨by simp [hlength], List.forall_mem_cons.mpr ⟨hx, hchars⟩⟩
    · rintro ⟨hlength, hchars⟩
      cases part with
      | nil => cases hlength
      | cons x later =>
        obtain ⟨hx, hchars⟩ := List.forall_mem_cons.mp hchars
        exact ⟨[x], ⟨x, hx, rfl⟩, later, ih.mpr ⟨Nat.succ.inj hlength, hchars⟩, rfl⟩

/-- At least a given number of characters of a set. -/
theorem mem_language_atLeast_set {min : Nat} {greedy : Bool} {s : CharSet} {part : List Char} :
    part ∈ (Pattern.repeated min none greedy (.set s)).language ↔
      min ≤ part.length ∧ ∀ x ∈ part, s.contains x = true := by
  constructor
  · rintro ⟨n, hmin, -, hpart⟩
    obtain ⟨rfl, hchars⟩ := mem_language_set_pow.mp hpart
    exact ⟨hmin, hchars⟩
  · rintro ⟨hmin, hchars⟩
    exact ⟨part.length, hmin, by simp, mem_language_set_pow.mpr ⟨rfl, hchars⟩⟩

/-- Any number of characters of a set. -/
theorem mem_language_repeated_set {greedy : Bool} {s : CharSet} {part : List Char} :
    part ∈ (Pattern.repeated 0 none greedy (.set s)).language ↔
      ∀ x ∈ part, s.contains x = true := by
  rw [mem_language_atLeast_set]
  exact and_iff_right (Nat.zero_le _)

theorem writtenAs_cons_cons {ignoreCase : Bool} {c k : Char} {part text : List Char} :
    writtenAs ignoreCase (c :: part) (k :: text) = true ↔
      writtenAs ignoreCase [c] [k] = true ∧ writtenAs ignoreCase part text = true := by
  cases ignoreCase with
  | false => simp [writtenAs]
  | true => simp [writtenAs, Unicode.sameFoldText]

/-- The texts of a literal are those that are written like it. -/
theorem mem_language_spelled {flags : Flags} {text part : List Char} :
    part ∈ (spelled flags text).language ↔ writtenAs flags.ignoreCase part text = true := by
  induction text generalizing part with
  | nil =>
    change part = [] ↔ _
    cases part with
    | nil => cases hcase : flags.ignoreCase <;> simp [writtenAs, Unicode.sameFoldText]
    | cons c part => cases hcase : flags.ignoreCase <;> simp [writtenAs, Unicode.sameFoldText]
  | cons k text ih =>
    rw [spelled_cons, language, Language.mem_mul]
    constructor
    · rintro ⟨_, ⟨x, hx, rfl⟩, later, hlater, rfl⟩
      rw [CharSet.contains_folded_single] at hx
      exact writtenAs_cons_cons.mpr ⟨hx, ih.mp hlater⟩
    · intro h
      cases part with
      | nil => cases hcase : flags.ignoreCase <;> simp [hcase, writtenAs, Unicode.sameFoldText] at h
      | cons x part =>
        obtain ⟨hx, hlater⟩ := writtenAs_cons_cons.mp h
        rw [← CharSet.contains_folded_single] at hx
        exact ⟨[x], ⟨x, hx, rfl⟩, part, ih.mpr hlater, rfl⟩

/-- The texts of a choice are those of its branches. -/
theorem mem_language_choice {last : Pattern} {earlier : List Pattern} {part : List Char} :
    part ∈ (choice last earlier).language ↔ ∃ branch ∈ last :: earlier, part ∈ branch.language := by
  induction earlier generalizing last with
  | nil => simp [choice]
  | cons branch earlier ih =>
    rw [choice_cons, ih]
    simp only [List.mem_cons, exists_eq_or_imp, language, Language.mem_add]
    tauto

/-- **A choice between literal texts spells these texts.** -/
theorem mem_language_oneOf {flags : Flags} {texts : List (List Char)} (hne : texts ≠ [])
    {part : List Char} : part ∈ (oneOf flags texts).language ↔
      ∃ text ∈ texts, writtenAs flags.ignoreCase part text = true := by
  cases texts with
  | nil => exact absurd rfl hne
  | cons last earlier =>
    rw [oneOf, ofBranches_spelled, mem_language_choice, ← List.map_cons]
    simp only [List.mem_map, exists_exists_and_eq_and, mem_language_spelled]

/-- What sequences and choices of characters have in common, choices between texts have too. -/
theorem oneOf_of_closed {P : Pattern → Prop} (empty : P .empty) (set : ∀ s, P (.set s))
    (seq : ∀ a b, P a → P b → P (.seq a b)) (alt : ∀ a b, P a → P b → P (.alt a b)) (flags : Flags)
    (texts : List (List Char)) : P (oneOf flags texts) := by
  have hspelled : ∀ text, P (spelled flags text) := by
    intro text
    induction text with
    | nil => exact empty
    | cons k text ih =>
      rw [spelled_cons]
      exact seq _ _ (set _) ih
  cases texts with
  | nil => exact empty
  | cons last earlier =>
    rw [oneOf, ofBranches_spelled]
    have hlast : P (spelled flags last) := hspelled last
    generalize spelled flags last = last at hlast
    induction earlier generalizing last with
    | nil => exact hlast
    | cons text earlier ih => exact ih _ (alt _ _ (hspelled text) hlast)

theorem lexical_oneOf (flags : Flags) (texts : List (List Char)) :
    (oneOf flags texts).lexical = true := by
  refine oneOf_of_closed (P := fun p => p.lexical = true) rfl (fun _ => rfl) ?_ ?_ flags texts
  · intro a b ha hb
    rw [lexical, ha, hb, Bool.and_self]
  · intro a b ha hb
    rw [lexical, ha, hb, Bool.and_self]

theorem proper_oneOf (flags : Flags) (texts : List (List Char)) :
    (oneOf flags texts).proper = true := by
  refine oneOf_of_closed (P := fun p => p.proper = true) rfl (fun _ => rfl) ?_ ?_ flags texts
  · intro a b ha hb
    rw [proper, ha, hb, Bool.and_self]
  · intro a b ha hb
    rw [proper, ha, hb, Bool.and_self]

end Pattern

/-! ### What stands between delimiters -/

/-- A stretch of characters of one kind is told from what follows it. -/
theorem stretch_unique (kind : Char → Bool) {part part' back back' : List Char}
    (hpart : ∀ c ∈ part, kind c = true) (hpart' : ∀ c ∈ part', kind c = true)
    (hback : ∀ c ∈ back.head?, kind c = false) (hback' : ∀ c ∈ back'.head?, kind c = false)
    (h : part ++ back = part' ++ back') : part = part' := by
  have hnone : ∀ back : List Char, (∀ c ∈ back.head?, kind c = false) →
      back.takeWhile kind = [] := by
    intro back hback
    cases back with
    | nil => rfl
    | cons x back => rw [List.takeWhile_cons, hback x rfl, if_neg Bool.false_ne_true]
  calc part = (part ++ back).takeWhile kind := by
        rw [List.takeWhile_append_of_pos hpart, hnone back hback, List.append_nil]
    _ = (part' ++ back').takeWhile kind := by rw [h]
    _ = part' := by rw [List.takeWhile_append_of_pos hpart', hnone back' hback', List.append_nil]

/-- A stretch without a character ends at the first of them. -/
theorem delimited_unique {x : Char} {part part' back back' : List Char} (hpart : x ∉ part)
    (hpart' : x ∉ part') (h : part ++ x :: back = part' ++ x :: back') : part = part' := by
  refine stretch_unique (· != x) ?_ ?_ ?_ ?_ h
  · exact fun y hy => bne_iff_ne.mpr (ne_of_mem_of_not_mem hy hpart)
  · exact fun y hy => bne_iff_ne.mpr (ne_of_mem_of_not_mem hy hpart')
  · simp
  · simp

/-- What stands in front of the first occurrence of a delimiter, and what stands behind it. -/
def upTo? (closing : List Char) : List Char → Option (List Char × List Char)
  | [] => if closing = [] then some ([], []) else none
  | x :: rest =>
    if closing.isPrefixOf (x :: rest) then some ([], (x :: rest).drop closing.length)
    else (upTo? closing rest).map fun (body, rest) => (x :: body, rest)

/-- What is split at a delimiter is the whole text. -/
theorem eq_append_of_upTo? {closing text body rest : List Char}
    (h : upTo? closing text = some (body, rest)) : text = body ++ (closing ++ rest) := by
  induction text generalizing body with
  | nil =>
    rw [upTo?] at h
    split at h
    · rename_i hclosing
      cases h
      simp [hclosing]
    · cases h
  | cons x text ih =>
    rw [upTo?] at h
    split at h
    · rename_i hclosing
      cases h
      exact (List.prefix_iff_eq_append.mp (List.isPrefixOf_iff_prefix.mp hclosing)).symm
    · obtain ⟨⟨body', rest'⟩, hlater, heq⟩ := Option.map_eq_some_iff.mp h
      cases heq
      rw [ih hlater, List.cons_append]

/-- What follows does not matter once the delimiter was found. -/
theorem upTo?_append {closing text body rest : List Char}
    (h : upTo? closing text = some (body, rest)) (more : List Char) :
    upTo? closing (text ++ more) = some (body, rest ++ more) := by
  induction text generalizing body with
  | nil =>
    rw [upTo?] at h
    split at h
    · rename_i hclosing
      cases h
      subst hclosing
      cases more <;> rfl
    · cases h
  | cons x text ih =>
    rw [upTo?] at h
    rw [List.cons_append, upTo?, ← List.cons_append]
    split at h
    · rename_i hclosing
      cases h
      have hbegins := List.isPrefixOf_iff_prefix.mp hclosing
      rw [if_pos (List.isPrefixOf_iff_prefix.mpr (hbegins.trans (List.prefix_append _ _))),
        List.drop_append_of_le_length hbegins.length_le]
    · rename_i hclosing
      obtain ⟨⟨body', rest'⟩, hlater, heq⟩ := Option.map_eq_some_iff.mp h
      cases heq
      -- the delimiter fits into the text, so it is not completed by what follows
      have hlength : closing.length ≤ (x :: text).length := by
        rw [eq_append_of_upTo? hlater]
        simp only [List.length_cons, List.length_append]
        omega
      have hnot : ¬ closing.isPrefixOf (x :: text ++ more) = true := by
        intro hbegins
        exact hclosing (List.isPrefixOf_iff_prefix.mpr (List.prefix_of_prefix_length_le
          (List.isPrefixOf_iff_prefix.mp hbegins) (List.prefix_append _ _) hlength))
      rw [if_neg hnot, ih hlater]
      rfl

theorem upTo?_isSome (body closing rest : List Char) :
    (upTo? closing (body ++ (closing ++ rest))).isSome = true := by
  induction body with
  | nil =>
    rw [List.nil_append]
    cases htext : closing ++ rest with
    | nil => simp [upTo?, (List.append_eq_nil_iff.mp htext).1]
    | cons x text => simp [upTo?, List.isPrefixOf_iff_prefix, ← htext]
  | cons x body ih =>
    rw [List.cons_append, upTo?]
    split
    · rfl
    · simpa using ih

namespace Pattern

/-- The pattern of what stands between two delimiters, up to the first place where it can end. -/
def delimited (opening closing : List Char) : Pattern :=
  row (opening.map char ++ row [.repeated 0 none false (.set .all)] :: closing.map char)

theorem language_row_append (items items' : List Pattern) :
    (row (items ++ items')).language = (row items).language * (row items').language := by
  induction items with
  | nil => exact (one_mul _).symm
  | cons p items ih => rw [List.cons_append, language_row_cons, language_row_cons, ih, mul_assoc]

theorem language_row_chars (text : List Char) : (row (text.map char)).language = {text} := by
  induction text with
  | nil => rfl
  | cons x text ih =>
    rw [List.map_cons, language_row_cons, ih, language_char]
    exact Set.image2_singleton

/-- What stands between delimiters is any text between them. -/
theorem mem_language_delimited {opening closing part : List Char} :
    part ∈ (delimited opening closing).language ↔ ∃ body, part = opening ++ (body ++ closing) := by
  have hany : (row [Pattern.repeated 0 none false (.set .all)]).language =
      (⊤ : Set (List Char)) := by
    rw [language_row_cons]
    refine (mul_one _).trans (Set.eq_univ_of_forall fun body => ?_)
    exact mem_language_repeated_set.mpr fun _ _ => rfl
  rw [delimited, language_row_append, language_row_cons, language_row_chars, language_row_chars,
    hany]
  constructor
  · rintro ⟨_, rfl, _, ⟨body, -, _, rfl, rfl⟩, rfl⟩
    exact ⟨body, rfl⟩
  · rintro ⟨body, rfl⟩
    exact ⟨opening, rfl, _, ⟨body, trivial, closing, rfl, rfl⟩, rfl⟩

/-- To search for two rows is to search for one and then for the other. -/
theorem find_row_append (items items' : List Pattern) (next : Next) :
    (row (items ++ items')).find next = (row items).find ((row items').find next) := by
  induction items with
  | nil => rfl
  | cons p items ih => exact congrArg p.find ih

/-- Characters in a row are found where they stand. -/
theorem find_chars {text : List Char} {c d : Cursor} (h : c.Over text d) (next : Next)
    (captures : Captures) : (row (text.map char)).find next c captures = next d captures := by
  induction text generalizing c with
  | nil =>
    obtain rfl := h.eq_of_nil
    rfl
  | cons x text ih =>
    have hrest : c.rest = x :: (text ++ d.rest) := h.1
    have hfirst : (row ((x :: text).map char)).find next c captures =
        (row (text.map char)).find next (c.advance x (text ++ d.rest)) captures := by
      change Next.set _ _ c captures = _
      rw [Next.set, hrest]
      simp only [CharSet.contains_single, beq_self_eq_true, if_true]
      rfl
    rw [hfirst, ih h.of_cons]

/-- A text that does not stand there is not found. -/
theorem find_chars_of_not_prefix {text : List Char} {c : Cursor} (h : ¬ text <+: c.rest)
    (next : Next) (captures : Captures) : (row (text.map char)).find next c captures = none := by
  induction text generalizing c with
  | nil => exact absurd List.nil_prefix h
  | cons x text ih =>
    change Next.set _ _ c captures = _
    rw [Next.set]
    cases hrest : c.rest with
    | nil => rfl
    | cons y rest =>
      by_cases hsame : y = x
      · subst hsame
        rw [hrest, List.prefix_cons_inj] at h
        simp only [CharSet.contains_single, beq_self_eq_true, if_true]
        exact ih h
      · simp [CharSet.contains_single, hsame]

/-- A lazy search passes over what does not begin with the delimiter. -/
theorem find_upTo {closing text body rest : List Char} (h : upTo? closing text = some (body, rest))
    {c d : Cursor} (hc : c.rest = text) (hd : c.Over (body ++ closing) d) {next : Next}
    {captures : Captures} {found : Cursor × Captures} (hnext : next d captures = some found) :
    (Pattern.repeated 0 none false (.set .all)).find ((row (closing.map char)).find next) c
      captures = some found := by
  induction text generalizing c body with
  | nil =>
    rw [upTo?] at h
    split at h
    · rename_i hclosing
      cases h
      rw [List.nil_append] at hd
      rw [find_repeated rfl rfl, find_chars hd, hnext]
      rfl
    · cases h
  | cons x text ih =>
    rw [upTo?] at h
    split at h
    · cases h
      rw [List.nil_append] at hd
      rw [find_repeated rfl rfl, find_chars hd, hnext]
      rfl
    · rename_i hclosing
      obtain ⟨⟨body', rest'⟩, hlater, heq⟩ := Option.map_eq_some_iff.mp h
      cases heq
      have hbegins : ¬ closing <+: c.rest := by
        rw [hc, ← List.isPrefixOf_iff_prefix]
        exact hclosing
      have htext : text = body' ++ closing ++ d.rest :=
        (List.cons.inj (hc.symm.trans hd.1)).2
      rw [find_repeated rfl rfl, find_chars_of_not_prefix hbegins]
      change Next.set .all _ c captures = _
      rw [Next.set, hc]
      exact ih hlater rfl (htext ▸ hd.of_cons)

theorem proper_row {items : List Pattern} (h : ∀ p ∈ items, p.proper = true) :
    (row items).proper = true := by
  induction items with
  | nil => rfl
  | cons p items ih =>
    obtain ⟨hp, hitems⟩ := List.forall_mem_cons.mp h
    rw [row, List.foldr_cons, proper, hp, Bool.true_and]
    exact ih hitems

theorem proper_delimited (opening closing : List Char) :
    (delimited opening closing).proper = true := by
  refine proper_row fun p hp => ?_
  simp only [List.mem_append, List.mem_cons, List.mem_map] at hp
  rcases hp with ⟨x, -, rfl⟩ | rfl | ⟨x, -, rfl⟩
  · rfl
  · rfl
  · rfl

/-- **What stands between two delimiters is found up to the first closing delimiter.** -/
theorem matchAt_delimited {opening closing text body rest : List Char}
    (h : upTo? closing text = some (body, rest)) {c d : Cursor} (hc : c.rest = opening ++ text)
    (hd : c.Over (opening ++ (body ++ closing)) d) :
    (Program.ofPattern (delimited opening closing)).matchAt c =
      some ⟨⟨c.offset, d.offset⟩, []⟩ := by
  obtain ⟨e, he, hlater⟩ := hd.split
  have htext : e.rest = text := List.append_cancel_left (he.1.symm.trans hc)
  have hfound : (delimited opening closing).find .stop c [] = some (d, []) := by
    rw [delimited, find_row_append, find_chars he]
    exact find_upTo h htext hlater rfl
  rw [Program.matchAt_eq_find (proper_delimited opening closing), hfound]
  rfl

/-- A greedy repetition takes all the characters of a set. -/
theorem find_star_set {s : CharSet} {part : List Char} {c d : Cursor} (hover : c.Over part d)
    (hpart : ∀ x ∈ part, s.contains x = true) (hend : ∀ x ∈ d.rest.head?, s.contains x = false)
    {next : Next} {captures : Captures} {found : Cursor × Captures}
    (hnext : next d captures = some found) :
    (Pattern.star (.set s)).find next c captures = some found := by
  induction part generalizing c with
  | nil =>
    obtain rfl := hover.eq_of_nil
    have hstop : (Pattern.set s).find ((Pattern.star (.set s)).find next) d captures = none := by
      rw [Pattern.find, Next.set]
      cases hrest : d.rest with
      | nil => rfl
      | cons x rest => simp [hend x (by rw [hrest]; rfl)]
    rw [Pattern.star, find_repeated rfl rfl, ← Pattern.star, hstop, hnext]
    rfl
  | cons x part ih =>
    obtain ⟨hx, hpart⟩ := List.forall_mem_cons.mp hpart
    have hstep : (Pattern.set s).find ((Pattern.star (.set s)).find next) c captures =
        some found := by
      rw [Pattern.find, Next.set, hover.1, List.cons_append]
      simp only [hx, if_true]
      exact ih hover.of_cons hpart
    rw [Pattern.star, find_repeated rfl rfl, ← Pattern.star, hstep]
    rfl

/-- The first branch of a choice that matches decides. -/
theorem matchAt_choice {last : Pattern} {earlier : List Pattern} (hlast : last.proper = true)
    (hearlier : ∀ p ∈ earlier, p.proper = true) (c : Cursor) :
    (Program.ofPattern (choice last earlier)).matchAt c =
      (earlier.reverse.findSome? fun p => (Program.ofPattern p).matchAt c).or
        ((Program.ofPattern last).matchAt c) := by
  induction earlier generalizing last with
  | nil => rfl
  | cons p earlier ih =>
    obtain ⟨hp, hearlier⟩ := List.forall_mem_cons.mp hearlier
    have hproper : (Pattern.alt p last).proper = true := by
      rw [proper, hp, hlast]
      rfl
    rw [List.reverse_cons, List.findSome?_append, Option.or_assoc, choice_cons,
      ih hproper hearlier, Program.matchAt_alt hproper]
    cases hmatch : (Program.ofPattern p).matchAt c <;> simp [hmatch]

end Pattern

end Relabel
