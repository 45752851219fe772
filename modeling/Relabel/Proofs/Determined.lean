import Relabel.Proofs.Languages

/-!
# Searches that can go one way only

A search for a pattern and then for a rest goes the ways of the pattern one after the other until
the rest succeeds (`Next.Follows`, `Pattern.follows_find`). Where the rest can succeed behind one of
these ways only, preferences do not matter, and the search goes that way
(`Pattern.find_of_only`). In particular, a pattern whose texts are told from what follows them can
be read by a scanner, without going back (`Pattern.ScannedBy`).

Where anything may stand in front of the rest and as little as possible is taken, the search goes to
the first place at which the rest succeeds (`Pattern.find_lazy`).
-/

namespace Relabel

namespace Next

variable {step other : Next → Next} {way way' : Cursor → Cursor → Captures → Prop}
variable {next : Next} {c d : Cursor} {new captures : Captures}

/-- `Follows step way`: to search for something and then for a rest is to go one of the ways of
`way`, and then for the rest. -/
structure Follows (step : Next → Next) (way : Cursor → Cursor → Captures → Prop) : Prop where
  sound : ∀ {next : Next} {c : Cursor} {captures : Captures} {found : Cursor × Captures},
    step next c captures = some found →
      ∃ d new, way c d new ∧ next d (new ++ captures) = some found
  complete : ∀ {next : Next} {c d : Cursor} {new captures : Captures}, way c d new →
    (next d (new ++ captures)).isSome = true → (step next c captures).isSome = true

theorem of_more {greedy : Bool} {again leave : Option (Cursor × Captures)}
    {found : Cursor × Captures} (h : more greedy again leave = some found) :
    again = some found ∨ leave = some found := by
  unfold more at h
  split at h
  · exact (Option.or_eq_some_iff.mp h).imp id And.right
  · exact ((Option.or_eq_some_iff.mp h).imp id And.right).symm

namespace Follows

/-- The ways can be described otherwise. -/
theorem congr (h : Follows step way) (hway : ∀ c d new, way c d new ↔ way' c d new) :
    Follows step way' := by
  obtain rfl : way = way' := by
    funext c d new
    exact propext (hway c d new)
  exact h

/-- One step after another goes one way and then another. -/
theorem comp (h : Follows step way) (h' : Follows other way') :
    Follows (fun next => step (other next)) fun c d new =>
      ∃ e first second, way c e first ∧ way' e d second ∧ new = second ++ first where
  sound := by
    intro next c captures found hfound
    obtain ⟨e, first, hfirst, hlater⟩ := h.sound hfound
    obtain ⟨d, second, hsecond, hnext⟩ := h'.sound hlater
    exact ⟨d, second ++ first, ⟨e, first, second, hfirst, hsecond, rfl⟩,
      List.append_assoc second first captures ▸ hnext⟩
  complete := by
    rintro next c d new captures ⟨e, first, second, hfirst, hsecond, rfl⟩ hnext
    rw [List.append_assoc] at hnext
    exact h.complete hfirst (h'.complete hsecond hnext)

/-- So many steps go as many ways in a row. -/
theorem iterate (h : Follows step way) (n : Nat) : Follows step^[n] (Copies way n) := by
  induction n with
  | zero =>
    constructor
    · intro next c captures found hfound
      exact ⟨c, [], ⟨rfl, rfl⟩, hfound⟩
    · rintro next c d new captures ⟨rfl, rfl⟩ hnext
      exact hnext
  | succ n ih =>
    have hstep : step^[n + 1] = fun next => step (step^[n] next) := by
      funext next
      exact Function.iterate_succ_apply' step n next
    rw [hstep]
    exact h.comp ih

theorem atMost (h : Follows step way) (greedy : Bool) (n : Nat) :
    Follows (fun next => Next.atMost step greedy next n) fun c d new =>
      ∃ m ≤ n, Copies way m c d new := by
  induction n with
  | zero =>
    constructor
    · intro next c captures found hfound
      exact ⟨c, [], ⟨0, Nat.le_refl 0, rfl, rfl⟩, hfound⟩
    · rintro next c d new captures ⟨m, hm, hcopies⟩ hnext
      obtain rfl := Nat.le_zero.mp hm
      obtain ⟨rfl, rfl⟩ := hcopies
      exact hnext
  | succ n ih =>
    constructor
    · intro next c captures found hfound
      rcases of_more hfound with hagain | hleave
      · obtain ⟨e, first, hfirst, hlater⟩ := h.sound hagain
        obtain ⟨d, others, ⟨m, hm, hcopies⟩, hnext⟩ := ih.sound hlater
        refine ⟨d, others ++ first, ⟨m + 1, by omega, e, first, others, hfirst, hcopies, rfl⟩, ?_⟩
        rwa [List.append_assoc]
      · exact ⟨c, [], ⟨0, Nat.zero_le _, rfl, rfl⟩, hleave⟩
    · rintro next c d new captures ⟨m, hm, hcopies⟩ hnext
      refine (more_isSome _ _ _).trans (Bool.or_eq_true_iff.mpr ?_)
      cases m with
      | zero =>
        obtain ⟨rfl, rfl⟩ := hcopies
        exact .inr hnext
      | succ m =>
        obtain ⟨e, first, others, hfirst, hothers, rfl⟩ := hcopies
        rw [List.append_assoc] at hnext
        exact .inl (h.complete hfirst (ih.complete ⟨m, by omega, hothers⟩ hnext))

/-- A loop of which each turn consumes something has fuel enough. -/
theorem loop (h : Follows step way)
    (hway : ∀ c d new, way c d new → d.rest.length < c.rest.length) (greedy : Bool) :
    Follows (Next.loop step greedy) fun c d new => ∃ m, Copies way m c d new := by
  constructor
  · intro next c captures found hfound
    unfold Next.loop at hfound
    generalize c.rest.length + 1 = fuel at hfound
    induction fuel generalizing c captures with
    | zero => cases hfound
    | succ fuel ih =>
      rcases of_more hfound with hagain | hleave
      · obtain ⟨e, first, hfirst, hlater⟩ := h.sound hagain
        obtain ⟨d, others, ⟨m, hcopies⟩, hnext⟩ := ih hlater
        refine ⟨d, others ++ first, ⟨m + 1, e, first, others, hfirst, hcopies, rfl⟩, ?_⟩
        rwa [List.append_assoc]
      · exact ⟨c, [], ⟨0, rfl, rfl⟩, hleave⟩
  · rintro next c d new captures ⟨m, hcopies⟩ hnext
    unfold Next.loop
    have hfuel : c.rest.length < c.rest.length + 1 := Nat.lt_succ_self _
    generalize c.rest.length + 1 = fuel at hfuel
    induction fuel generalizing c m new captures with
    | zero => omega
    | succ fuel ih =>
      refine (more_isSome _ _ _).trans (Bool.or_eq_true_iff.mpr ?_)
      cases m with
      | zero =>
        obtain ⟨rfl, rfl⟩ := hcopies
        exact .inr hnext
      | succ m =>
        obtain ⟨e, first, others, hfirst, hothers, rfl⟩ := hcopies
        have hshorter := hway c e first hfirst
        rw [List.append_assoc] at hnext
        exact .inl (h.complete hfirst (ih m hothers hnext (by omega)))

/-- If every way leads to failure, there is nothing to be found. -/
theorem eq_none (h : Follows step way)
    (hnone : ∀ d new, way c d new → next d (new ++ captures) = none) :
    step next c captures = none := by
  cases hfound : step next c captures with
  | none => rfl
  | some found =>
    obtain ⟨d, new, hway, hnext⟩ := h.sound hfound
    rw [hnone d new hway] at hnext
    cases hnext

/-- **If the rest can succeed behind one way only, the search goes that way.** -/
theorem eq_of_only (h : Follows step way) (hd : way c d new)
    (honly : ∀ e other, way c e other →
      (e = d ∧ other = new) ∨ next e (other ++ captures) = none) :
    step next c captures = next d (new ++ captures) := by
  cases hfound : step next c captures with
  | none =>
    cases hnext : next d (new ++ captures) with
    | none => rfl
    | some found =>
      have hsome := h.complete hd (by rw [hnext]; rfl : (next d (new ++ captures)).isSome = true)
      rw [hfound] at hsome
      cases hsome
  | some found =>
    obtain ⟨e, other, hway, hnext⟩ := h.sound hfound
    rcases honly e other hway with ⟨rfl, rfl⟩ | hnone
    · exact hnext.symm
    · rw [hnone] at hnext
      cases hnext

end Follows

end Next

namespace Pattern

open Next

theorem follows_set (s : CharSet) : Follows (Next.set s) (Pattern.set s).Matches where
  sound := by
    intro next c captures found hfound
    unfold Next.set at hfound
    split at hfound
    · rename_i first text hrest
      split at hfound
      · rename_i hfirst
        exact ⟨_, [], ⟨first, text, hrest, hfirst, rfl, rfl⟩, hfound⟩
      · cases hfound
    · cases hfound
  complete := by
    rintro next c d new captures ⟨first, text, hrest, hfirst, rfl, rfl⟩ hnext
    unfold Next.set
    rw [hrest]
    simp only [hfirst, if_true]
    exact hnext

theorem follows_look (l : Look) : Follows (Next.look l) (Pattern.look l).Matches where
  sound := by
    intro next c captures found hfound
    unfold Next.look at hfound
    split at hfound
    · rename_i hholds
      exact ⟨c, [], ⟨hholds, rfl, rfl⟩, hfound⟩
    · cases hfound
  complete := by
    rintro next c d new captures ⟨hholds, rfl, rfl⟩ hnext
    unfold Next.look
    rw [if_pos hholds]
    exact hnext

theorem follows_group {body : Next → Next} {p : Pattern} (h : Follows body p.Matches) (index : Nat)
    (name : Option (List Char)) :
    Follows (Next.group index body) (Pattern.group index name p).Matches where
  sound := by
    intro next c captures found hfound
    obtain ⟨d, inner, hinner, hnext⟩ := h.sound hfound
    exact ⟨d, (index, ⟨c.offset, d.offset⟩) :: inner, ⟨inner, hinner, rfl⟩, hnext⟩
  complete := by
    rintro next c d new captures ⟨inner, hinner, rfl⟩ hnext
    exact h.complete hinner hnext

/-- **A search goes the ways of its pattern.** -/
theorem follows_find {p : Pattern} (hp : p.proper = true) : Follows p.find p.Matches := by
  induction p with
  | empty =>
    constructor
    · intro next c captures found hfound
      exact ⟨c, [], ⟨rfl, rfl⟩, hfound⟩
    · rintro next c d new captures ⟨rfl, rfl⟩ hnext
      exact hnext
  | set s => exact follows_set s
  | look l => exact follows_look l
  | seq a b iha ihb =>
    rw [proper, Bool.and_eq_true] at hp
    exact (iha hp.1).comp (ihb hp.2)
  | alt a b iha ihb =>
    rw [proper, Bool.and_eq_true] at hp
    constructor
    · intro next c captures found hfound
      rcases Option.or_eq_some_iff.mp hfound with hleft | ⟨-, hright⟩
      · obtain ⟨d, new, hway, hnext⟩ := (iha hp.1).sound hleft
        exact ⟨d, new, .inl hway, hnext⟩
      · obtain ⟨d, new, hway, hnext⟩ := (ihb hp.2).sound hright
        exact ⟨d, new, .inr hway, hnext⟩
    · intro next c d new captures hway hnext
      refine (Option.isSome_or ..).trans (Bool.or_eq_true_iff.mpr ?_)
      exact hway.imp (fun h => (iha hp.1).complete h hnext) fun h => (ihb hp.2).complete h hnext
  | group index name a iha => exact follows_group (iha hp) index name
  | repeated min max greedy a iha =>
    cases max with
    | some max =>
      refine (((iha hp).iterate min).comp ((iha hp).atMost greedy (max - min))).congr ?_
      intro c d new
      constructor
      · rintro ⟨e, first, second, hfirst, ⟨m, hm, hsecond⟩, rfl⟩
        refine ⟨min + m, by omega, ?_, hfirst.add hsecond⟩
        rintro _ ⟨rfl⟩
        omega
      · rintro ⟨n, hmin, hmax, hcopies⟩
        obtain ⟨m, rfl⟩ := Nat.exists_eq_add_of_le hmin
        obtain ⟨e, first, second, hfirst, hsecond, rfl⟩ := hcopies.split
        have hle := hmax max rfl
        exact ⟨e, first, second, hfirst, ⟨m, by omega, hsecond⟩, rfl⟩
    | none =>
      rw [proper, Bool.and_eq_true, Bool.not_eq_true'] at hp
      have hconsumes : ∀ c d new, a.Matches c d new → d.rest.length < c.rest.length :=
        fun c d new hway => hway.length_lt hp.2
      refine (((iha hp.1).iterate min).comp ((iha hp.1).loop hconsumes greedy)).congr ?_
      intro c d new
      constructor
      · rintro ⟨e, first, second, hfirst, ⟨m, hsecond⟩, rfl⟩
        exact ⟨min + m, by omega, by simp, hfirst.add hsecond⟩
      · rintro ⟨n, hmin, -, hcopies⟩
        obtain ⟨m, rfl⟩ := Nat.exists_eq_add_of_le hmin
        obtain ⟨e, first, second, hfirst, hsecond, rfl⟩ := hcopies.split
        exact ⟨e, first, second, hfirst, ⟨m, hsecond⟩, rfl⟩

section Lexical

variable {p : Pattern} {next : Next} {c d : Cursor} {captures : Captures} {part : List Char}

/-- A pattern without groups is not found if no text of it can be followed by what must follow. -/
theorem find_eq_none (hp : p.lexical = true) (hproper : p.proper = true)
    (hnone : ∀ part ∈ p.language, ∀ e, c.Over part e → next e captures = none) :
    p.find next c captures = none := by
  refine (follows_find hproper).eq_none fun d new hway => ?_
  obtain ⟨rfl, part, hpart, hover⟩ := (matches_iff_mem_language hp).mp hway
  exact hnone part hpart d hover

/-- **If the rest can succeed behind one text of a pattern only, the search goes on there.** -/
theorem find_of_only (hp : p.lexical = true) (hproper : p.proper = true)
    (hpart : part ∈ p.language) (hover : c.Over part d)
    (honly : ∀ part' ∈ p.language, ∀ e, c.Over part' e → part' = part ∨ next e captures = none) :
    p.find next c captures = next d captures := by
  refine (follows_find hproper).eq_of_only (matches_of_mem_language hp hpart hover) ?_
  intro e other hway
  obtain ⟨rfl, part', hpart', hover'⟩ := (matches_iff_mem_language hp).mp hway
  rcases honly part' hpart' e hover' with rfl | hnone
  · exact .inl ⟨hover'.unique hover, rfl⟩
  · exact .inr hnone

end Lexical

end Pattern

/-! ### Scanners -/

/-- Takes something off the front of a text: yields what it takes, and what is left. -/
abbrev Scanner := List Char → Option (List Char × List Char)

namespace Scanner

def andThen (first second : Scanner) : Scanner := fun text => do
  let (part, rest) ← first text
  let (part', rest) ← second rest
  return (part ++ part', rest)

def char (x : Char) : Scanner
  | y :: rest => if y = x then some ([y], rest) else none
  | [] => none

/-- What two scanners take off, one after the other. -/
theorem andThen_eq_some_iff {first second : Scanner} {text part rest : List Char} :
    first.andThen second text = some (part, rest) ↔ ∃ front later back,
      first text = some (front, later) ∧ second later = some (back, rest) ∧
        part = front ++ back := by
  simp only [andThen, Option.bind_eq_bind, Option.bind_eq_some_iff, Prod.exists, Option.pure_def,
    Option.some.injEq, Prod.mk.injEq]
  constructor
  · rintro ⟨front, later, hfront, back, _, hback, rfl, rfl⟩
    exact ⟨front, later, back, hfront, hback, rfl⟩
  · rintro ⟨front, later, back, hfront, hback, rfl⟩
    exact ⟨front, later, hfront, back, rest, hback, rfl, rfl⟩

end Scanner

/-- What stands in front of the first place at which a condition holds of what follows, and what
follows. -/
def firstWhere? (ok : List Char → Bool) : Scanner
  | [] => if ok [] then some ([], []) else none
  | x :: text =>
    if ok (x :: text) then some ([], x :: text)
    else (firstWhere? ok text).map fun (front, rest) => (x :: front, rest)

/-- The place that is found is one, and nothing of the text is lost. -/
theorem of_firstWhere? {ok : List Char → Bool} {text front rest : List Char}
    (h : firstWhere? ok text = some (front, rest)) : text = front ++ rest ∧ ok rest = true := by
  induction text generalizing front with
  | nil =>
    rw [firstWhere?] at h
    split at h
    · rename_i hok
      cases h
      exact ⟨rfl, hok⟩
    · cases h
  | cons x text ih =>
    rw [firstWhere?] at h
    split at h
    · rename_i hok
      cases h
      exact ⟨rfl, hok⟩
    · obtain ⟨⟨front', rest'⟩, hlater, heq⟩ := Option.map_eq_some_iff.mp h
      cases heq
      obtain ⟨rfl, hok⟩ := ih hlater
      exact ⟨rfl, hok⟩

namespace Pattern

/-- `p.ScannedBy scan`: the texts of a pattern are told from what follows them, by a scanner. -/
def ScannedBy (p : Pattern) (scan : Scanner) : Prop :=
  ∀ text part rest, scan text = some (part, rest) ↔ part ∈ p.language ∧ text = part ++ rest

theorem scannedBy_char (x : Char) : (char x).ScannedBy (Scanner.char x) := by
  intro text part rest
  rw [mem_language_char]
  cases text with
  | nil =>
    constructor
    · intro h
      cases h
    · rintro ⟨rfl, heq⟩
      cases heq
  | cons y text =>
    simp only [Scanner.char, Option.ite_none_right_eq_some, Option.some.injEq, Prod.mk.injEq]
    constructor
    · rintro ⟨rfl, rfl, rfl⟩
      exact ⟨rfl, rfl⟩
    · rintro ⟨rfl, heq⟩
      obtain ⟨rfl, rfl⟩ := List.cons.inj heq
      exact ⟨rfl, rfl, rfl⟩

/-- Rows of patterns are scanned one after the other. -/
theorem ScannedBy.append {items items' : List Pattern} {scan scan' : Scanner}
    (h : (row items).ScannedBy scan) (h' : (row items').ScannedBy scan') :
    (row (items ++ items')).ScannedBy (scan.andThen scan') := by
  intro text part rest
  rw [Scanner.andThen_eq_some_iff, language_row_append, Language.mem_mul]
  constructor
  · rintro ⟨front, later, back, hfront, hback, rfl⟩
    obtain ⟨hfront', rfl⟩ := (h ..).mp hfront
    obtain ⟨hback', rfl⟩ := (h' ..).mp hback
    exact ⟨⟨front, hfront', back, hback', rfl⟩, (List.append_assoc ..).symm⟩
  · rintro ⟨⟨front, hfront, back, hback, rfl⟩, rfl⟩
    exact ⟨front, back ++ rest, back, (h ..).mpr ⟨hfront, List.append_assoc ..⟩,
      (h' ..).mpr ⟨hback, rfl⟩, rfl⟩

theorem ScannedBy.cons {p : Pattern} {items : List Pattern} {scan scan' : Scanner}
    (h : p.ScannedBy scan) (h' : (row items).ScannedBy scan') :
    (row (p :: items)).ScannedBy (scan.andThen scan') := by
  have hrow : (row [p]).ScannedBy scan := by
    intro text part rest
    rw [language_row_singleton]
    exact h text part rest
  exact hrow.append h'

section Search

variable {p : Pattern} {scan : Scanner} {next : Next} {c d : Cursor} {captures : Captures}

/-- **A search for what a scanner takes goes on behind it.** -/
theorem ScannedBy.find_eq (h : p.ScannedBy scan) (hp : p.lexical = true)
    (hproper : p.proper = true) {part : List Char} (hscan : scan c.rest = some (part, d.rest))
    (hover : c.Over part d) : p.find next c captures = next d captures := by
  refine find_of_only hp hproper ((h ..).mp hscan).1 hover fun part' hpart' e hover' => .inl ?_
  have hother := (h ..).mpr ⟨hpart', hover'.1⟩
  exact (Prod.mk.inj (Option.some.inj (hother.symm.trans hscan))).1

/-- What a scanner does not take is not found. -/
theorem ScannedBy.find_eq_none (h : p.ScannedBy scan) (hp : p.lexical = true)
    (hproper : p.proper = true) (hscan : scan c.rest = none) :
    p.find next c captures = none := by
  refine Pattern.find_eq_none hp hproper fun part hpart e hover => ?_
  rw [(h ..).mpr ⟨hpart, hover.1⟩] at hscan
  cases hscan

def lazyAny : Pattern :=
  .repeated 0 none false (.set .all)

variable {ok : List Char → Bool}

/-- **A lazy search goes to the first place at which the rest succeeds.** -/
theorem find_lazy (hnext : ∀ e, (next e captures).isSome = ok e.rest) {front : List Char}
    (hfirst : firstWhere? ok c.rest = some (front, d.rest)) (hover : c.Over front d) :
    lazyAny.find next c captures = next d captures := by
  induction front generalizing c with
  | nil =>
    obtain rfl := hover.eq_of_nil
    obtain ⟨found, hfound⟩ := Option.isSome_iff_exists.mp
      ((hnext d).trans (of_firstWhere? hfirst).2)
    rw [lazyAny, find_repeated rfl rfl, hfound]
    rfl
  | cons x front ih =>
    rw [hover.1, List.cons_append, firstWhere?] at hfirst
    split at hfirst
    · cases hfirst
    · rename_i hnot
      obtain ⟨⟨front', rest'⟩, hlater, heq⟩ := Option.map_eq_some_iff.mp hfirst
      cases heq
      have hnone : next c captures = none := by
        rw [← Option.not_isSome_iff_eq_none, hnext, hover.1]
        exact hnot
      rw [lazyAny, find_repeated rfl rfl, hnone, ← lazyAny]
      change (Next.set .all _ c captures : Option _) = _
      rw [Next.set, hover.1]
      exact ih hlater hover.of_cons

/-- If the condition holds nowhere, there is nowhere to stop. -/
theorem find_lazy_eq_none (hnext : ∀ e, (next e captures).isSome = ok e.rest)
    (hfirst : firstWhere? ok c.rest = none) : lazyAny.find next c captures = none := by
  have hnot : ∀ e, ok e.rest = false → next e captures = none := by
    intro e he
    rw [← Option.not_isSome_iff_eq_none, hnext, he]
    exact Bool.false_ne_true
  obtain ⟨offset, before, rest⟩ := c
  induction rest generalizing offset before with
  | nil =>
    rw [firstWhere?, ite_eq_right_iff] at hfirst
    rw [lazyAny, find_repeated rfl rfl, hnot _ (by simpa using hfirst)]
    rfl
  | cons x rest ih =>
    rw [firstWhere?] at hfirst
    split at hfirst
    · cases hfirst
    · rename_i hok
      rw [lazyAny, find_repeated rfl rfl, hnot _ (Bool.not_eq_true _ ▸ hok), ← lazyAny]
      exact ih _ _ (Option.map_eq_none_iff.mp hfirst)

end Search

end Pattern

end Relabel
