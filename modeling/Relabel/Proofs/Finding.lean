import Mathlib.Logic.Function.Iterate
import Relabel.Proofs.Backtracking

/-!
# A search finds the preferred match

`Pattern.find` tries the ways of a pattern in order of preference until the rest succeeds. For
patterns that repeat without bound only what cannot be empty, the program of the pattern answers as
`find` does (`Program.matchAt_eq_find`): its guards are numbered apart, so marks change nothing. Two
things follow. Preferences can be read off the equations of `find`, one for each kind of pattern;
and there is a match at a position whenever the pattern matches there at all
(`Program.matchAt_isSome_iff`).
-/

namespace Relabel

namespace Pattern

/-- The search for a pattern and then for `next`, in order of preference. -/
def find : Pattern → Next → Next
  | .empty, next => next
  | .set s, next => Next.set s next
  | .look l, next => Next.look l next
  | .seq a b, next => a.find (b.find next)
  | .alt a b, next => fun c captures => (a.find next c captures).or (b.find next c captures)
  | .group index _ a, next => Next.group index a.find next
  | .repeated min (some max) greedy a, next =>
    a.find^[min] (Next.atMost a.find greedy next (max - min))
  | .repeated min none greedy a, next => a.find^[min] (Next.loop a.find greedy next)

/-- Whether only what cannot be empty is repeated without bound. -/
def proper : Pattern → Bool
  | .empty => true
  | .set _ => true
  | .look _ => true
  | .seq a b => a.proper && b.proper
  | .alt a b => a.proper && b.proper
  | .group _ _ a => a.proper
  | .repeated _ (some _) _ a => a.proper
  | .repeated _ none _ a => a.proper && !a.nullable

theorem Matches.length_le {p : Pattern} {c d : Cursor} {new : Captures} (h : p.Matches c d new) :
    d.rest.length ≤ c.rest.length :=
  h.reaches.length_le

/-- What cannot be empty consumes something. -/
theorem Matches.length_lt {p : Pattern} {c d : Cursor} {new : Captures} (h : p.Matches c d new)
    (hp : p.nullable = false) : d.rest.length < c.rest.length := by
  induction p generalizing c d new with
  | empty => cases hp
  | set s =>
    obtain ⟨next, rest, hrest, -, rfl, -⟩ := h
    simp [hrest, Cursor.advance]
  | look l => cases hp
  | seq a b iha ihb =>
    obtain ⟨e, first, second, hfirst, hsecond, -⟩ := h
    have hle := hfirst.length_le
    have hle' := hsecond.length_le
    rw [nullable, Bool.and_eq_false_iff] at hp
    rcases hp with ha | hb
    · have := iha hfirst ha
      omega
    · have := ihb hsecond hb
      omega
  | alt a b iha ihb =>
    rw [nullable, Bool.or_eq_false_iff] at hp
    rcases h with h | h
    · exact iha h hp.1
    · exact ihb h hp.2
  | group index name a iha =>
    obtain ⟨inner, hinner, -⟩ := h
    exact iha hinner hp
  | repeated min max greedy a iha =>
    rw [nullable, Bool.or_eq_false_iff, beq_eq_false_iff_ne] at hp
    obtain ⟨n, hmin, -, hcopies⟩ := h
    obtain ⟨n, rfl⟩ := Nat.exists_eq_add_one_of_ne_zero (by omega : n ≠ 0)
    obtain ⟨e, first, others, hfirst, hothers, -⟩ := hcopies
    have hlt := iha hfirst hp.2
    have hle : d.rest.length ≤ e.rest.length :=
      hothers.lift (motive := fun c d _ => d.rest.length ≤ c.rest.length) (fun _ => Nat.le_refl _)
        fun _ _ _ _ _ hstep hrest => Nat.le_trans hrest hstep.length_le
    omega

end Pattern

/-- Copies in a row, taken apart. -/
theorem Copies.split {one : Cursor → Cursor → Captures → Prop} {m n : Nat} {c e : Cursor}
    {new : Captures} (h : Copies one (m + n) c e new) :
    ∃ d first others, Copies one m c d first ∧ Copies one n d e others ∧ new = others ++ first := by
  induction m generalizing c new with
  | zero =>
    rw [Nat.zero_add] at h
    exact ⟨c, [], new, ⟨rfl, rfl⟩, h, by simp⟩
  | succ m ih =>
    rw [Nat.succ_add] at h
    obtain ⟨b, turn, later, hturn, hlater, rfl⟩ := h
    obtain ⟨d, first, others, hfirst, hothers, rfl⟩ := ih hlater
    exact ⟨d, first ++ turn, others, ⟨b, turn, first, hturn, hfirst, rfl⟩, hothers, by simp⟩

namespace Program

/-! ### Where the program of a pattern leads -/

section Copies

variable {build : StateM Nat Program} {way : Cursor → Cursor → Captures → Prop}

/-- Copies of what is built lead as many ways in a row. -/
theorem leads_copies (hbuild : ∀ id c d, (build.run id).1.Leads c d ↔ ∃ new, way c d new)
    (tail : Program) (n id : Nat) {c d : Cursor} :
    ((copies build tail n).run id).1.Leads c d ↔
      ∃ e new, Copies way n c e new ∧ tail.Leads e d := by
  induction n generalizing id c with
  | zero =>
    constructor
    · intro h
      exact ⟨c, [], ⟨rfl, rfl⟩, h⟩
    · rintro ⟨e, new, ⟨rfl, -⟩, h⟩
      exact h
  | succ n ih =>
    constructor
    · rintro ⟨b, hfirst, hrest⟩
      obtain ⟨first, hfirst⟩ := (hbuild id c b).mp hfirst
      obtain ⟨e, others, hothers, htail⟩ := (ih (build.run id).2).mp hrest
      exact ⟨e, others ++ first, ⟨b, first, others, hfirst, hothers, rfl⟩, htail⟩
    · rintro ⟨e, _, ⟨b, first, others, hfirst, hothers, rfl⟩, htail⟩
      exact ⟨b, (hbuild id c b).mpr ⟨first, hfirst⟩,
        (ih (build.run id).2).mpr ⟨e, others, hothers, htail⟩⟩

theorem leads_optional {guard : Guard} {greedy : Bool} {a : Program} {c d : Cursor} :
    (optional guard greedy a).Leads c d ↔ a.Leads c d ∨ d = c := by
  unfold optional
  cases greedy with
  | true => exact Iff.rfl
  | false => exact or_comm

/-- Optional copies lead up to as many ways in a row. -/
theorem leads_optionalCopies (hbuild : ∀ id c d, (build.run id).1.Leads c d ↔ ∃ new, way c d new)
    (looping greedy : Bool) (n id : Nat) {c d : Cursor} :
    ((optionalCopies build looping greedy n).run id).1.Leads c d ↔
      ∃ m ≤ n, ∃ new, Copies way m c d new := by
  induction n generalizing id c with
  | zero =>
    constructor
    · intro h
      exact ⟨0, Nat.le_refl 0, [], h, rfl⟩
    · rintro ⟨m, hm, new, h⟩
      obtain rfl : m = 0 := by omega
      exact h.1
  | succ n ih =>
    refine leads_optional.trans ?_
    constructor
    · rintro (⟨e, hfirst, hrest⟩ | rfl)
      · obtain ⟨first, hfirst⟩ := (hbuild (id + 1) c e).mp hfirst
        obtain ⟨m, hm, others, hothers⟩ := (ih (build.run (id + 1)).2).mp hrest
        exact ⟨m + 1, Nat.succ_le_succ hm, _, e, first, others, hfirst, hothers, rfl⟩
      · exact ⟨0, Nat.zero_le _, [], rfl, rfl⟩
    · rintro ⟨m, hm, new, h⟩
      cases m with
      | zero => exact .inr h.1
      | succ m =>
        obtain ⟨e, first, others, hfirst, hothers, -⟩ := h
        exact .inl ⟨e, (hbuild (id + 1) c e).mpr ⟨first, hfirst⟩,
          (ih (build.run (id + 1)).2).mpr ⟨m, Nat.le_of_succ_le_succ hm, others, hothers⟩⟩

/-- A loop leads any number of ways in a row. -/
theorem leads_loop {a : Program} (ha : ∀ c d, a.Leads c d ↔ ∃ new, way c d new) (guard : Guard)
    (greedy : Bool) {c d : Cursor} :
    (loop guard greedy a).Leads c d ↔ ∃ n new, Copies way n c d new := by
  constructor
  · intro h
    refine Relation.ReflTransGen.head_induction_on h ⟨0, [], rfl, rfl⟩ ?_
    rintro c e hstep - ⟨n, others, hothers⟩
    obtain ⟨first, hfirst⟩ := (ha c e).mp hstep
    exact ⟨n + 1, _, e, first, others, hfirst, hothers, rfl⟩
  · rintro ⟨n, new, h⟩
    induction n generalizing c new with
    | zero =>
      obtain ⟨rfl, -⟩ := h
      exact Relation.ReflTransGen.refl
    | succ n ih =>
      obtain ⟨e, first, others, hfirst, hothers, -⟩ := h
      exact Relation.ReflTransGen.head ((ha c e).mpr ⟨first, hfirst⟩) (ih others hothers)

/-- A turn and then a loop are one copy or more. -/
theorem leads_turns {a : Program} (ha : ∀ c d, a.Leads c d ↔ ∃ new, way c d new) (guard : Guard)
    (greedy : Bool) {c d : Cursor} :
    (seq a (loop guard greedy a)).Leads c d ↔ ∃ n new, Copies way (n + 1) c d new := by
  constructor
  · rintro ⟨e, hfirst, hrest⟩
    obtain ⟨first, hfirst⟩ := (ha c e).mp hfirst
    obtain ⟨n, others, hothers⟩ := (leads_loop ha guard greedy).mp hrest
    exact ⟨n, _, e, first, others, hfirst, hothers, rfl⟩
  · rintro ⟨n, _, e, first, others, hfirst, hothers, -⟩
    exact ⟨e, (ha c e).mpr ⟨first, hfirst⟩,
      (leads_loop ha guard greedy).mpr ⟨n, others, hothers⟩⟩

end Copies

section Repeated

variable {a : Pattern}

/-- Where a repetition with an upper bound leads, if it is known where its body does. -/
theorem leads_build_bounded (hbody : ∀ looping id c d, ((build looping a).run id).1.Leads c d ↔
      ∃ new, a.Matches c d new) (looping greedy : Bool) (min max id : Nat) {c d : Cursor} :
    ((build looping (.repeated min (some max) greedy a)).run id).1.Leads c d ↔
      ∃ new, (Pattern.repeated min (some max) greedy a).Matches c d new := by
  refine (leads_copies (hbody looping) _ min _).trans ?_
  constructor
  · rintro ⟨e, first, hfirst, htail⟩
    obtain ⟨m, hm, others, hothers⟩ :=
      (leads_optionalCopies (hbody looping) looping greedy (max - min) id).mp htail
    refine ⟨_, min + m, Nat.le_add_right _ _, ?_, hfirst.add hothers⟩
    intro max' hmax
    cases hmax
    omega
  · rintro ⟨new, n, hmin, hmax, hcopies⟩
    have hle := hmax max rfl
    obtain ⟨m, rfl⟩ := Nat.exists_eq_add_of_le hmin
    obtain ⟨e, first, others, hfirst, hothers, -⟩ := hcopies.split
    exact ⟨e, first, hfirst, (leads_optionalCopies (hbody looping) looping greedy _ id).mpr
      ⟨m, by omega, others, hothers⟩⟩

/-- Where a repetition without an upper bound leads, if it is known where its body does. -/
theorem leads_build_unbounded (hbody : ∀ looping id c d, ((build looping a).run id).1.Leads c d ↔
      ∃ new, a.Matches c d new) (looping greedy : Bool) (min id : Nat) {c d : Cursor} :
    ((build looping (.repeated min none greedy a)).run id).1.Leads c d ↔
      ∃ new, (Pattern.repeated min none greedy a).Matches c d new := by
  have hunbounded : (∃ new, (Pattern.repeated min none greedy a).Matches c d new) ↔
      ∃ m new, min ≤ m ∧ Copies a.Matches m c d new := by
    constructor
    · rintro ⟨new, m, hle, -, hcopies⟩
      exact ⟨m, new, hle, hcopies⟩
    · rintro ⟨m, new, hle, hcopies⟩
      exact ⟨new, m, hle, by simp, hcopies⟩
  rw [hunbounded]
  cases min with
  | zero =>
    rw [build]
    by_cases hnullable : a.nullable = true
    · simp only [hnullable, if_true]
      refine leads_optional.trans ?_
      constructor
      · rintro (hturns | rfl)
        · obtain ⟨m, new, hcopies⟩ := (leads_turns (hbody true (id + 2)) _ greedy).mp hturns
          exact ⟨m + 1, new, Nat.zero_le _, hcopies⟩
        · exact ⟨0, [], Nat.le_refl _, rfl, rfl⟩
      · rintro ⟨m, new, -, hcopies⟩
        cases m with
        | zero => exact .inr hcopies.1
        | succ m => exact .inl ((leads_turns (hbody true (id + 2)) _ greedy).mpr ⟨m, new, hcopies⟩)
    · simp only [hnullable]
      refine (leads_loop (hbody looping (id + 1)) _ greedy).trans ?_
      simp
  | succ n =>
    refine (leads_copies (hbody looping) _ n _).trans ?_
    have hturn := hbody (looping || a.nullable) (id + 1)
    constructor
    · rintro ⟨e, first, hfirst, hturns⟩
      obtain ⟨m, others, hothers⟩ := (leads_turns hturn _ greedy).mp hturns
      exact ⟨n + (m + 1), _, by omega, hfirst.add hothers⟩
    · rintro ⟨m, new, hle, hcopies⟩
      obtain ⟨m, rfl⟩ := Nat.exists_eq_add_of_le hle
      have hcopies' : Copies a.Matches (n + (m + 1)) c d new := by
        rwa [show n + (m + 1) = n + 1 + m by omega]
      obtain ⟨e, first, others, hfirst, hothers, -⟩ := hcopies'.split
      exact ⟨e, first, hfirst, (leads_turns hturn _ greedy).mpr ⟨m, others, hothers⟩⟩

end Repeated

/-- **The program of a pattern leads along the matches of the pattern**, all of them. -/
theorem leads_build (looping : Bool) (p : Pattern) (id : Nat) {c d : Cursor} :
    ((build looping p).run id).1.Leads c d ↔ ∃ new, p.Matches c d new := by
  induction p generalizing looping id c d with
  | empty => exact ⟨fun h => ⟨[], h, rfl⟩, fun ⟨_, h, _⟩ => h⟩
  | set s =>
    constructor
    · rintro ⟨first, text, hrest, hfirst, rfl⟩
      exact ⟨[], first, text, hrest, hfirst, rfl, rfl⟩
    · rintro ⟨_, first, text, hrest, hfirst, rfl, -⟩
      exact ⟨first, text, hrest, hfirst, rfl⟩
  | look l => exact ⟨fun ⟨hl, h⟩ => ⟨[], hl, h, rfl⟩, fun ⟨_, hl, h, _⟩ => ⟨hl, h⟩⟩
  | seq a b iha ihb =>
    constructor
    · rintro ⟨e, ha, hb⟩
      obtain ⟨first, ha⟩ := (iha looping id).mp ha
      obtain ⟨second, hb⟩ := (ihb looping _).mp hb
      exact ⟨_, e, first, second, ha, hb, rfl⟩
    · rintro ⟨_, e, first, second, ha, hb, -⟩
      exact ⟨e, (iha looping id).mpr ⟨first, ha⟩, (ihb looping _).mpr ⟨second, hb⟩⟩
  | alt a b iha ihb =>
    constructor
    · rintro (ha | hb)
      · obtain ⟨new, ha⟩ := (iha looping (id + 1)).mp ha
        exact ⟨new, .inl ha⟩
      · obtain ⟨new, hb⟩ := (ihb looping _).mp hb
        exact ⟨new, .inr hb⟩
    · rintro ⟨new, ha | hb⟩
      · exact .inl ((iha looping (id + 1)).mpr ⟨new, ha⟩)
      · exact .inr ((ihb looping _).mpr ⟨new, hb⟩)
  | group index name a iha =>
    refine (iha looping id).trans ⟨fun ⟨inner, h⟩ => ⟨_, inner, h, rfl⟩, ?_⟩
    rintro ⟨_, inner, h, -⟩
    exact ⟨inner, h⟩
  | repeated min max greedy a iha =>
    have hbody : ∀ looping id c d, ((build looping a).run id).1.Leads c d ↔
        ∃ new, a.Matches c d new := fun looping id c d => iha looping id
    cases max with
    | some max => exact leads_build_bounded hbody looping greedy min max id
    | none => exact leads_build_unbounded hbody looping greedy min id

/-! ### The program of a proper pattern -/

/-- To search for copies is to search for one after another. -/
theorem find_copies {build : StateM Nat Program} {step : Next → Next}
    (hbuild : ∀ id, (build.run id).1.find = step) (tail : Program) (next : Next) (n id : Nat) :
    ((copies build tail n).run id).1.find next = step^[n] (tail.find next) := by
  induction n generalizing id with
  | zero => rfl
  | succ n ih =>
    rw [Function.iterate_succ_apply', ← ih (build.run id).2, ← hbuild id]
    rfl

theorem find_optional (guard : Guard) (greedy : Bool) (a : Program) (next : Next) :
    (optional guard greedy a).find next = fun c captures =>
      Next.more greedy (a.find next c captures) (next c captures) := by
  unfold optional
  cases greedy with
  | true => rfl
  | false => rfl

/-- To search for optional copies is to prefer one turn more, or none. -/
theorem find_optionalCopies {build : StateM Nat Program} {step : Next → Next}
    (hbuild : ∀ id, (build.run id).1.find = step) (looping greedy : Bool) (next : Next)
    (n id : Nat) : ((optionalCopies build looping greedy n).run id).1.find next =
      Next.atMost step greedy next n := by
  induction n generalizing id with
  | zero => rfl
  | succ n ih =>
    refine (find_optional _ greedy _ next).trans ?_
    rw [Next.atMost, ← ih (build.run (id + 1)).2, ← hbuild (id + 1)]
    rfl

/-- The program of a proper pattern searches as the pattern does. -/
theorem find_build {p : Pattern} (hp : p.proper = true) (id : Nat) :
    ((build false p).run id).1.find = p.find := by
  induction p generalizing id with
  | empty => rfl
  | set s => rfl
  | look l => rfl
  | seq a b iha ihb =>
    rw [Pattern.proper, Bool.and_eq_true] at hp
    funext next
    rw [Pattern.find, ← iha hp.1 id, ← ihb hp.2 ((build false a).run id).2]
    rfl
  | alt a b iha ihb =>
    rw [Pattern.proper, Bool.and_eq_true] at hp
    funext next
    rw [Pattern.find, ← iha hp.1 (id + 1), ← ihb hp.2 ((build false a).run (id + 1)).2]
    rfl
  | group index name a iha =>
    funext next
    rw [Pattern.find, ← iha hp id]
    rfl
  | repeated min max greedy a iha =>
    funext next
    cases max with
    | some max =>
      refine (find_copies (iha hp) _ next min _).trans ?_
      rw [Pattern.find, ← find_optionalCopies (iha hp) false greedy next (max - min) id]
      rfl
    | none =>
      rw [Pattern.proper, Bool.and_eq_true, Bool.not_eq_true'] at hp
      cases min with
      | zero =>
        rw [build]
        simp only [hp.2]
        rw [Pattern.find, Function.iterate_zero_apply, ← iha hp.1 (id + 1)]
        rfl
      | succ n =>
        rw [build]
        simp only [hp.2, Bool.or_false]
        refine (find_copies (iha hp.1) _ next n _).trans ?_
        rw [Pattern.find, Function.iterate_succ_apply]
        refine congrArg (a.find^[n]) ?_
        change ((build false a).run (id + 1)).1.find
          (Next.loop ((build false a).run (id + 1)).1.find greedy next) = _
        rw [iha hp.1 (id + 1)]

theorem plain_copies {build : StateM Nat Program} (hbuild : ∀ id, (build.run id).1.Plain)
    {tail : Program} (htail : tail.Plain) (n id : Nat) :
    ((copies build tail n).run id).1.Plain := by
  induction n generalizing id with
  | zero => exact htail
  | succ n ih => exact ⟨hbuild id, ih (build.run id).2⟩

theorem plain_optional {id : Nat} {greedy : Bool} {a : Program} (ha : a.Plain) :
    (optional (.memo id) greedy a).Plain := by
  unfold optional
  cases greedy with
  | true => exact ⟨⟨id, rfl⟩, ha, trivial⟩
  | false => exact ⟨⟨id, rfl⟩, trivial, ha⟩

theorem plain_optionalCopies {build : StateM Nat Program} (hbuild : ∀ id, (build.run id).1.Plain)
    (greedy : Bool) (n id : Nat) :
    ((optionalCopies build false greedy n).run id).1.Plain := by
  induction n generalizing id with
  | zero => exact trivial
  | succ n ih => exact plain_optional ⟨hbuild (id + 1), ih (build.run (id + 1)).2⟩

/-- What cannot be empty is built into a program that consumes something. -/
theorem consumes_build {p : Pattern} (hp : p.nullable = false) (looping : Bool) (id : Nat) :
    ((build looping p).run id).1.Consumes := by
  intro c d h
  obtain ⟨new, hmatches⟩ := (leads_build looping p id).mp h
  exact hmatches.length_lt hp

/-- A proper pattern is built into a plain program. -/
theorem plain_build {p : Pattern} (hp : p.proper = true) (id : Nat) :
    ((build false p).run id).1.Plain := by
  induction p generalizing id with
  | empty => exact trivial
  | set s => exact trivial
  | look l => exact trivial
  | seq a b iha ihb =>
    rw [Pattern.proper, Bool.and_eq_true] at hp
    exact ⟨iha hp.1 id, ihb hp.2 _⟩
  | alt a b iha ihb =>
    rw [Pattern.proper, Bool.and_eq_true] at hp
    exact ⟨⟨id, rfl⟩, iha hp.1 (id + 1), ihb hp.2 _⟩
  | group index name a iha => exact iha hp id
  | repeated min max greedy a iha =>
    cases max with
    | some max => exact plain_copies (iha hp) (plain_optionalCopies (iha hp) greedy _ id) min _
    | none =>
      rw [Pattern.proper, Bool.and_eq_true, Bool.not_eq_true'] at hp
      have hloop : (loop (.memo id) greedy ((build false a).run (id + 1)).1).Plain :=
        ⟨⟨id, rfl⟩, consumes_build hp.2 false (id + 1), iha hp.1 (id + 1)⟩
      cases min with
      | zero =>
        rw [build]
        simp only [hp.2]
        exact hloop
      | succ n =>
        rw [build]
        simp only [hp.2, Bool.or_false]
        have hturn : (Program.seq ((build false a).run (id + 1)).1
            (loop (.memo id) greedy ((build false a).run (id + 1)).1)).Plain :=
          ⟨iha hp.1 (id + 1), hloop⟩
        exact plain_copies (iha hp.1) hturn n _

/-! ### Numbers are not used twice -/

/-- The choice points of a program bear numbers of one kind, and each number stands for one choice,
whatever the program stands in front of. -/
structure Fresh (kind : Nat → Prop) (p : Program) : Prop where
  numbers : ∀ ok, ∀ choice ∈ p.choices ok, kind choice.1
  coherent : ∀ ok, Coherent (p.choices ok)

/-- Choices can be put together if no number stands in both lists. -/
theorem Coherent.append {first second : List (Nat × (Cursor → Prop))} (h : Coherent first)
    (h' : Coherent second) (hapart : ∀ choice ∈ first, ∀ other ∈ second, choice.1 ≠ other.1) :
    Coherent (first ++ second) := by
  intro id ok ok' hmem hmem'
  rcases List.mem_append.mp hmem with hmem | hmem
  · rcases List.mem_append.mp hmem' with hmem' | hmem'
    · exact h id ok ok' hmem hmem'
    · exact absurd rfl (hapart (id, ok) hmem (id, ok') hmem')
  · rcases List.mem_append.mp hmem' with hmem' | hmem'
    · exact absurd rfl (hapart (id, ok') hmem' (id, ok) hmem)
    · exact h' id ok ok' hmem hmem'

theorem Coherent.cons {choices : List (Nat × (Cursor → Prop))} (h : Coherent choices) {id : Nat}
    (ok : Cursor → Prop) (hnew : ∀ choice ∈ choices, choice.1 ≠ id) :
    Coherent ((id, ok) :: choices) := by
  have hone : Coherent [(id, ok)] := by
    intro id' ok' ok'' hmem hmem'
    rw [List.mem_singleton] at hmem hmem'
    rw [(Prod.mk.inj hmem).2, (Prod.mk.inj hmem').2]
  refine hone.append h fun choice hmem other hother hsame => ?_
  rw [List.mem_singleton.mp hmem] at hsame
  exact hnew other hother hsame.symm

namespace Fresh

variable {kind kind' : Nat → Prop} {a b : Program} {id : Nat}

theorem mono (h : Fresh kind a) (hkind : ∀ n, kind n → kind' n) : Fresh kind' a :=
  ⟨fun ok choice hchoice => hkind _ (h.numbers ok choice hchoice), h.coherent⟩

theorem ofNoChoice (h : ∀ ok, a.choices ok = []) : Fresh kind a := by
  constructor
  · intro ok choice hchoice
    rw [h] at hchoice
    cases hchoice
  · intro ok id ok' ok'' hmem
    rw [h] at hmem
    cases hmem

theorem empty : Fresh kind .empty :=
  ofNoChoice fun _ => rfl

theorem group {index : Nat} (h : Fresh kind a) : Fresh kind (.group index a) :=
  ⟨h.numbers, h.coherent⟩

/-- Two programs in a row, with different numbers. -/
theorem seq (ha : Fresh kind a) (hb : Fresh kind' b) (hapart : ∀ n, kind n → ¬ kind' n) :
    Fresh (fun n => kind n ∨ kind' n) (.seq a b) := by
  constructor
  · intro ok choice hchoice
    rcases List.mem_append.mp hchoice with hmem | hmem
    · exact .inl (ha.numbers _ choice hmem)
    · exact .inr (hb.numbers _ choice hmem)
  · intro ok
    refine (ha.coherent _).append (hb.coherent _) fun choice hchoice other hother hsame => ?_
    exact hapart _ (ha.numbers _ choice hchoice) (hsame ▸ hb.numbers _ other hother)

/-- A choice between two programs, under a number of its own. -/
theorem alt (ha : Fresh kind a) (hb : Fresh kind' b) (hapart : ∀ n, kind n → ¬ kind' n)
    (hid : ¬ kind id ∧ ¬ kind' id) :
    Fresh (fun n => n = id ∨ kind n ∨ kind' n) (.alt (.memo id) a b) := by
  constructor
  · intro ok choice hchoice
    rcases List.mem_cons.mp hchoice with rfl | hmem
    · exact .inl rfl
    · rcases List.mem_append.mp hmem with hmem | hmem
      · exact .inr (.inl (ha.numbers _ choice hmem))
      · exact .inr (.inr (hb.numbers _ choice hmem))
  · intro ok
    refine ((ha.coherent _).append (hb.coherent _) ?_).cons _ ?_
    · intro choice hchoice other hother hsame
      exact hapart _ (ha.numbers _ choice hchoice) (hsame ▸ hb.numbers _ other hother)
    · rintro choice hchoice rfl
      rcases List.mem_append.mp hchoice with hmem | hmem
      · exact hid.1 (ha.numbers _ choice hmem)
      · exact hid.2 (hb.numbers _ choice hmem)

/-- A loop, under a number of its own. -/
theorem loop (ha : Fresh kind a) (hid : ¬ kind id) (greedy : Bool) :
    Fresh (fun n => n = id ∨ kind n) (.loop (.memo id) greedy a) := by
  constructor
  · intro ok choice hchoice
    rcases List.mem_cons.mp hchoice with rfl | hmem
    · exact .inl rfl
    · exact .inr (ha.numbers _ choice hmem)
  · intro ok
    refine (ha.coherent _).cons _ ?_
    rintro choice hchoice rfl
    exact hid (ha.numbers _ choice hchoice)

/-- The first turn of a loop may be written in front of it: its choices stand in front of the loop
as those of every other turn do. -/
theorem turn {greedy : Bool} (h : Fresh kind (.loop (.memo id) greedy a)) :
    Fresh kind (.seq a (.loop (.memo id) greedy a)) := by
  have hsubset : ∀ ok, (Program.seq a (.loop (.memo id) greedy a)).choices ok ⊆
      (Program.loop (.memo id) greedy a).choices ok := by
    intro ok choice hchoice
    rcases List.mem_append.mp hchoice with hmem | hmem
    · exact List.mem_cons_of_mem _ hmem
    · exact hmem
  refine ⟨fun ok choice hchoice => h.numbers ok choice (hsubset ok hchoice), ?_⟩
  intro ok id' ok' ok'' hmem hmem'
  exact h.coherent ok id' ok' ok'' (hsubset ok hmem) (hsubset ok hmem')

end Fresh

/-- `Counted build`: whatever number the counter is at, what an action builds bears the numbers that
it takes from the counter. -/
def Counted (build : StateM Nat Program) : Prop :=
  ∀ id, id ≤ (build.run id).2 ∧
    Fresh (fun n => id ≤ n ∧ n < (build.run id).2) (build.run id).1

/-- Copies of what is built bear the numbers that were taken for them. -/
theorem fresh_copies {build : StateM Nat Program} (hbuild : Counted build) {tail : Program}
    {kind : Nat → Prop} (htail : Fresh kind tail) (n : Nat) {id : Nat}
    (hid : ∀ n, kind n → n < id) :
    id ≤ ((copies build tail n).run id).2 ∧
      Fresh (fun m => kind m ∨ (id ≤ m ∧ m < ((copies build tail n).run id).2))
        ((copies build tail n).run id).1 := by
  induction n generalizing id with
  | zero => exact ⟨Nat.le_refl _, htail.mono fun _ h => .inl h⟩
  | succ n ih =>
    obtain ⟨hle, hfirst⟩ := hbuild id
    obtain ⟨hle', hrest⟩ := ih fun n hn => Nat.lt_of_lt_of_le (hid n hn) hle
    have hstop : ((copies build tail (n + 1)).run id).2 =
        ((copies build tail n).run (build.run id).2).2 := rfl
    refine ⟨Nat.le_trans hle hle', (hfirst.seq hrest ?_).mono ?_⟩
    · rintro m hm (htail | hm')
      · have := hid m htail
        omega
      · omega
    · rintro m (hm | htail | hm)
      · exact .inr (by omega)
      · exact .inl htail
      · exact .inr (by omega)

theorem fresh_optional {kind : Nat → Prop} {a : Program} (ha : Fresh kind a) {id : Nat}
    (hid : ¬ kind id) (greedy : Bool) :
    Fresh (fun n => n = id ∨ kind n) (optional (.memo id) greedy a) := by
  have hnothing : Fresh (fun _ => False) Program.empty := .empty
  unfold optional
  cases greedy with
  | true =>
    refine (ha.alt hnothing (fun _ _ h => h) ⟨hid, fun h => h⟩).mono ?_
    rintro n (h | h | h)
    · exact .inl h
    · exact .inr h
    · exact h.elim
  | false =>
    refine (hnothing.alt ha (fun _ h => h.elim) ⟨fun h => h, hid⟩).mono ?_
    rintro n (h | h | h)
    · exact .inl h
    · exact h.elim
    · exact .inr h

/-- Optional copies bear the numbers that were taken for them. -/
theorem counted_optionalCopies {build : StateM Nat Program} (hbuild : Counted build)
    (greedy : Bool) (n : Nat) : Counted (optionalCopies build false greedy n) := by
  induction n with
  | zero => exact fun id => ⟨Nat.le_refl _, .empty⟩
  | succ n ih =>
    intro id
    obtain ⟨hle, hfirst⟩ := hbuild (id + 1)
    obtain ⟨hle', hrest⟩ := ih (build.run (id + 1)).2
    have hturn := hfirst.seq hrest fun m h h' => by omega
    have hstop : ((optionalCopies build false greedy (n + 1)).run id).2 =
        ((optionalCopies build false greedy n).run (build.run (id + 1)).2).2 := rfl
    refine ⟨by omega, (fresh_optional hturn (by omega) greedy).mono ?_⟩
    rintro m (rfl | h | h)
    · omega
    · omega
    · omega

/-- Proper patterns are built with numbers from the counter. -/
theorem counted_build {p : Pattern} (hp : p.proper = true) : Counted (build false p) := by
  induction p with
  | empty => exact fun id => ⟨Nat.le_refl _, .empty⟩
  | set s => exact fun id => ⟨Nat.le_refl _, .ofNoChoice fun _ => rfl⟩
  | look l => exact fun id => ⟨Nat.le_refl _, .ofNoChoice fun _ => rfl⟩
  | seq a b iha ihb =>
    rw [Pattern.proper, Bool.and_eq_true] at hp
    intro id
    obtain ⟨hle, ha⟩ := iha hp.1 id
    obtain ⟨hle', hb⟩ := ihb hp.2 ((build false a).run id).2
    have hstop : ((build false (.seq a b)).run id).2 =
        ((build false b).run ((build false a).run id).2).2 := rfl
    refine ⟨by omega, (ha.seq hb fun n h h' => by omega).mono fun n h => ?_⟩
    omega
  | alt a b iha ihb =>
    rw [Pattern.proper, Bool.and_eq_true] at hp
    intro id
    obtain ⟨hle, ha⟩ := iha hp.1 (id + 1)
    obtain ⟨hle', hb⟩ := ihb hp.2 ((build false a).run (id + 1)).2
    have hstop : ((build false (.alt a b)).run id).2 =
        ((build false b).run ((build false a).run (id + 1)).2).2 := rfl
    refine ⟨by omega, (ha.alt hb (fun n h h' => by omega) ⟨by omega, by omega⟩).mono fun n h => ?_⟩
    omega
  | group index name a iha =>
    intro id
    exact ⟨(iha hp id).1, (iha hp id).2.group⟩
  | repeated min max greedy a iha =>
    intro id
    cases max with
    | some max =>
      obtain ⟨hle, htail⟩ := counted_optionalCopies (iha hp) greedy (max - min) id
      obtain ⟨hle', hcopies⟩ := fresh_copies (iha hp) htail min fun n h => h.2
      refine ⟨Nat.le_trans hle hle', hcopies.mono fun n h => ?_⟩
      have hstop : ((build false (.repeated min (some max) greedy a)).run id).2 =
          ((copies (build false a) ((optionalCopies (build false a) false greedy (max - min)).run
            id).1 min).run
              ((optionalCopies (build false a) false greedy (max - min)).run id).2).2 := rfl
      omega
    | none =>
      rw [Pattern.proper, Bool.and_eq_true, Bool.not_eq_true'] at hp
      obtain ⟨hle, hbody⟩ := iha hp.1 (id + 1)
      have hloop := hbody.loop (by omega : ¬ (id + 1 ≤ id ∧ id < _))
      cases min with
      | zero =>
        rw [build]
        simp only [hp.2]
        refine ⟨Nat.le_trans (Nat.le_succ id) hle, (hloop greedy).mono ?_⟩
        rintro n (rfl | h)
        · exact ⟨Nat.le_refl _, hle⟩
        · exact ⟨by omega, h.2⟩
      | succ n =>
        rw [build]
        simp only [hp.2, Bool.or_false]
        have hbefore : ∀ m, (m = id ∨ (id + 1 ≤ m ∧ m < ((build false a).run (id + 1)).2)) →
            m < ((build false a).run (id + 1)).2 := by
          intro m hm
          omega
        obtain ⟨hle', hcopies⟩ := fresh_copies (iha hp.1) (hloop greedy).turn n hbefore
        refine ⟨Nat.le_trans (Nat.le_trans (Nat.le_succ id) hle) hle', hcopies.mono ?_⟩
        rintro m (hm | hm)
        · exact ⟨by omega, Nat.lt_of_lt_of_le (hbefore m hm) hle'⟩
        · exact ⟨by omega, hm.2⟩

/-! ### Matches at a position -/

/-- **The match at a position is the preferred one.** -/
theorem matchAt_eq_find {p : Pattern} (hp : p.proper = true) (c : Cursor) :
    (ofPattern p).matchAt c = (p.find .stop c []).map fun found =>
      ⟨⟨c.offset, found.1.offset⟩, found.2⟩ := by
  have hfuel : c.rest.length < c.rest.length + 2 := by omega
  have hmirrors := run_mirrors ((counted_build hp 0).2.coherent fun _ => True) (plain_build hp 0)
    (Cursor.Reaches.refl c) hfuel (List.Subset.refl _) fun d _ => mirrors_stop c _ d
  have hfound := ((hmirrors []).2 ∅ (by simp [SoundMarks])).1
  rw [find_build hp] at hfound
  rw [← hfound, matchAt, ofPattern]
  cases (((build false p).run 0).1.run (c.rest.length + 2) _ c [] ∅).1 with
  | none => rfl
  | some found => rfl

/-- **There is a match at a position if the pattern matches there at all.** -/
theorem matchAt_isSome_iff {p : Pattern} (hp : p.proper = true) {c : Cursor} :
    ((ofPattern p).matchAt c).isSome = true ↔ ∃ d new, p.Matches c d new := by
  have hsome : (((build false p).run 0).1.find .stop c []).isSome = true ↔
      ((build false p).run 0).1.Succeeds (fun _ => True) c :=
    find_isSome_iff (plain_build hp 0) fun _ _ _ => iff_of_true rfl trivial
  rw [matchAt_eq_find hp, Option.isSome_map, ← find_build hp 0, hsome]
  simp only [Succeeds, and_true]
  exact exists_congr fun d => leads_build false p 0

/-- The match of a choice is that of the first branch that matches. -/
theorem matchAt_alt {a b : Pattern} (h : (Pattern.alt a b).proper = true) (c : Cursor) :
    (ofPattern (.alt a b)).matchAt c =
      ((ofPattern a).matchAt c).or ((ofPattern b).matchAt c) := by
  have hproper := h
  rw [Pattern.proper, Bool.and_eq_true] at hproper
  rw [matchAt_eq_find h, matchAt_eq_find hproper.1, matchAt_eq_find hproper.2, Pattern.find,
    Option.map_or]

/-- There is no match at a position if the pattern does not match there. -/
theorem matchAt_eq_none_iff {p : Pattern} (hp : p.proper = true) {c : Cursor} :
    (ofPattern p).matchAt c = none ↔ ∀ d new, ¬ p.Matches c d new := by
  rw [← Option.isNone_iff_eq_none, ← Option.not_isSome, Bool.not_eq_true', ← Bool.not_eq_true,
    matchAt_isSome_iff hp]
  simp

/-- If a pattern matches in one way only, that is the match. -/
theorem matchAt_of_unique {p : Pattern} (hp : p.proper = true) {c d : Cursor} {new : Captures}
    (h : p.Matches c d new) (hunique : ∀ d' new', p.Matches c d' new' → d' = d ∧ new' = new) :
    (ofPattern p).matchAt c = some ⟨⟨c.offset, d.offset⟩, new⟩ := by
  obtain ⟨found, hfound⟩ :=
    Option.isSome_iff_exists.mp ((matchAt_isSome_iff hp).mpr ⟨d, new, h⟩)
  obtain ⟨d', hmatches, hspan⟩ := matchAt_sound hfound
  obtain ⟨rfl, hnew⟩ := hunique d' found.captures hmatches
  rw [hfound, ← hspan, ← hnew]

end Program

/-- One turn more or none: a repetition without bound, taken apart. -/
theorem Pattern.find_repeated {p : Pattern} (hp : p.proper = true) (hnullable : p.nullable = false)
    (greedy : Bool) (next : Next) (c : Cursor) (captures : Captures) :
    (Pattern.repeated 0 none greedy p).find next c captures = Next.more greedy
      (p.find ((Pattern.repeated 0 none greedy p).find next) c captures) (next c captures) := by
  have hloop : (Program.loop (.memo 0) greedy ((Program.build false p).run 0).1).find next c
      captures = _ := Program.find_loop (Program.consumes_build hnullable false 0)
  rw [Program.find, Program.find_build hp 0] at hloop
  exact hloop

end Relabel
