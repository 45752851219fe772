import Mathlib.Logic.Relation
import Relabel.Proofs.Matches

/-!
# Marks change no answer

A `memo` guard keeps a run from failing twice in the same way. `Program.find` is the search without
guards and marks: it tries the ways of a program in order of preference until the rest succeeds. A
run whose marks are sound answers as `find` does (`Program.run_mirrors`), for programs whose guards
are all of that kind and whose loops consume something in each turn.

What makes a mark sound is that it was set where its choice point fails, and that the same number
always stands for the same choice in front of the same rest (`Program.Coherent`).
-/

namespace Relabel

/-- What is left to be matched from a position on, if nothing is marked. -/
abbrev Next := Cursor → Captures → Option (Cursor × Captures)

namespace Next

def stop : Next := fun c captures => some (c, captures)

def set (s : CharSet) (next : Next) : Next := fun c captures =>
  match c.rest with
  | first :: text => if s.contains first then next (c.advance first text) captures else none
  | [] => none

def look (l : Look) (next : Next) : Next := fun c captures =>
  if l.holds c.before c.rest.head? then next c captures else none

/-- What a body matches, recorded under a number, and then `next`. -/
def group (index : Nat) (body : Next → Next) (next : Next) : Next := fun c captures =>
  body (fun d captures => next d ((index, ⟨c.offset, d.offset⟩) :: captures)) c captures

/-- One turn more or none, whichever is preferred, and the other one if that fails. -/
def more (greedy : Bool) (again leave : Option (Cursor × Captures)) :
    Option (Cursor × Captures) :=
  if greedy then again.or leave else leave.or again

/-- At most so many turns of a body, and then `next`. -/
def atMost (body : Next → Next) (greedy : Bool) (next : Next) : Nat → Next
  | 0 => next
  | n + 1 => fun c captures =>
    more greedy (body (atMost body greedy next n) c captures) (next c captures)

/-- Turns of a loop, fewer than `fuel`, and then `next`. -/
def turns (body : Next → Next) (greedy : Bool) (next : Next) : Nat → Next
  | 0 => fun _ _ => none
  | fuel + 1 => fun c captures =>
    more greedy (body (turns body greedy next fuel) c captures) (next c captures)

/-- Any number of turns of a body that consumes something in each of them, and then `next`. -/
def loop (body : Next → Next) (greedy : Bool) (next : Next) : Next := fun c captures =>
  turns body greedy next (c.rest.length + 1) c captures

theorem more_isSome (greedy : Bool) (again leave : Option (Cursor × Captures)) :
    (more greedy again leave).isSome = (again.isSome || leave.isSome) := by
  unfold more
  cases greedy with
  | true => rw [if_pos rfl, Option.isSome_or]
  | false => rw [if_neg Bool.false_ne_true, Option.isSome_or, Bool.or_comm]

end Next

namespace Program

/-- The search for a program and then for `next`, without guards and marks: the ways of the program
are tried in order of preference. -/
def find : Program → Next → Next
  | .empty, next => next
  | .set s, next => Next.set s next
  | .look l, next => Next.look l next
  | .seq a b, next => a.find (b.find next)
  | .alt _ a b, next => fun c captures => (a.find next c captures).or (b.find next c captures)
  | .group index a, next => Next.group index a.find next
  | .loop _ greedy a, next => Next.loop a.find greedy next

/-- `p.Leads c d`: the program can match what lies between two positions. -/
def Leads : Program → Cursor → Cursor → Prop
  | .empty, c, d => d = c
  | .set s, c, d => ∃ first text, c.rest = first :: text ∧ s.contains first = true ∧
      d = c.advance first text
  | .look l, c, d => l.holds c.before c.rest.head? = true ∧ d = c
  | .seq a b, c, d => ∃ e, a.Leads c e ∧ b.Leads e d
  | .alt _ a b, c, d => a.Leads c d ∨ b.Leads c d
  | .group _ a, c, d => a.Leads c d
  | .loop _ _ a, c, d => Relation.ReflTransGen a.Leads c d

/-- `p.Succeeds ok c`: the program leads from a position to one that is `ok`. -/
def Succeeds (p : Program) (ok : Cursor → Prop) (c : Cursor) : Prop :=
  ∃ d, p.Leads c d ∧ ok d

/-- A program leads forward only. -/
theorem Leads.reaches {p : Program} {c d : Cursor} (h : p.Leads c d) : c.Reaches d := by
  induction p generalizing c d with
  | empty =>
    obtain rfl := h
    exact .refl _
  | set s =>
    obtain ⟨first, text, hrest, -, rfl⟩ := h
    exact ⟨[first], .advance hrest⟩
  | look l =>
    obtain ⟨-, rfl⟩ := h
    exact .refl _
  | seq a b iha ihb =>
    obtain ⟨e, ha, hb⟩ := h
    exact (iha ha).trans (ihb hb)
  | alt guard a b iha ihb =>
    rcases h with h | h
    · exact iha h
    · exact ihb h
  | group index a iha => exact iha h
  | loop guard greedy a iha =>
    have hturns : Relation.ReflTransGen a.Leads c d := h
    induction hturns with
    | refl => exact .refl _
    | tail _ hstep ih => exact (ih ‹_›).trans (iha hstep)

def Consumes (p : Program) : Prop :=
  ∀ c d, p.Leads c d → d.rest.length < c.rest.length

/-- All guards of the program are `memo` guards, and its loops consume something in each turn. -/
def Plain : Program → Prop
  | .empty => True
  | .set _ => True
  | .look _ => True
  | .seq a b => a.Plain ∧ b.Plain
  | .alt guard a b => (∃ id, guard = .memo id) ∧ a.Plain ∧ b.Plain
  | .group _ a => a.Plain
  | .loop guard _ a => (∃ id, guard = .memo id) ∧ a.Consumes ∧ a.Plain

/-! ### Turns of a loop -/

section Loop

variable {a : Program} {guard : Guard} {greedy : Bool}

/-- A loop leads on by no turn at all, or by one turn and then by the loop. -/
theorem leads_loop_iff {c d : Cursor} : (loop guard greedy a).Leads c d ↔
    d = c ∨ ∃ e, a.Leads c e ∧ (loop guard greedy a).Leads e d := by
  constructor
  · intro h
    rcases Relation.ReflTransGen.cases_head h with rfl | ⟨e, hstep, hrest⟩
    · exact .inl rfl
    · exact .inr ⟨e, hstep, hrest⟩
  · rintro (rfl | ⟨e, hstep, hrest⟩)
    · exact Relation.ReflTransGen.refl
    · exact Relation.ReflTransGen.head hstep hrest

/-- A loop succeeds by one more turn or by leaving it. -/
theorem succeeds_loop_iff {ok : Cursor → Prop} {c : Cursor} :
    (loop guard greedy a).Succeeds ok c ↔
      a.Succeeds ((loop guard greedy a).Succeeds ok) c ∨ ok c := by
  constructor
  · rintro ⟨d, hd, hok⟩
    rcases leads_loop_iff.mp hd with rfl | ⟨e, hstep, hrest⟩
    · exact .inr hok
    · exact .inl ⟨e, hstep, d, hrest, hok⟩
  · rintro (⟨e, hstep, d, hrest, hok⟩ | hok)
    · exact ⟨d, leads_loop_iff.mpr (.inr ⟨e, hstep, hrest⟩), hok⟩
    · exact ⟨c, leads_loop_iff.mpr (.inl rfl), hok⟩

end Loop

/-- What is found depends on the rest only where the program leads to. -/
theorem find_congr {p : Program} {next next' : Next} {c : Cursor} {captures : Captures}
    (h : ∀ d, p.Leads c d → ∀ captures, next d captures = next' d captures) :
    p.find next c captures = p.find next' c captures := by
  induction p generalizing next next' c captures with
  | empty => exact h c rfl captures
  | set s =>
    simp only [find, Next.set]
    split
    · rename_i first text hrest
      split
      · rename_i hfirst
        exact h _ ⟨first, text, hrest, hfirst, rfl⟩ captures
      · rfl
    · rfl
  | look l =>
    simp only [find, Next.look]
    split
    · rename_i hholds
      exact h c ⟨hholds, rfl⟩ captures
    · rfl
  | seq a b iha ihb =>
    refine iha fun e he captures => ihb fun d hd captures => ?_
    exact h d ⟨e, he, hd⟩ captures
  | alt guard a b iha ihb =>
    have ha : a.find next c captures = a.find next' c captures := iha fun d hd => h d (.inl hd)
    have hb : b.find next c captures = b.find next' c captures := ihb fun d hd => h d (.inr hd)
    simp only [find, ha, hb]
  | group index a iha => exact iha fun d hd captures => h d hd _
  | loop guard greedy a iha =>
    suffices hturns : ∀ fuel c captures, (∀ d, (loop guard greedy a).Leads c d →
        ∀ captures, next d captures = next' d captures) →
        Next.turns a.find greedy next fuel c captures =
          Next.turns a.find greedy next' fuel c captures from hturns _ c captures h
    intro fuel
    induction fuel with
    | zero => exact fun _ _ _ => rfl
    | succ fuel ih =>
      intro c captures hsame
      simp only [Next.turns]
      rw [hsame c (leads_loop_iff.mpr (.inl rfl)) captures,
        iha fun e he captures => ih e captures fun d hd => hsame d
          (leads_loop_iff.mpr (.inr ⟨e, he, hd⟩))]

/-- Whether something is found does not depend on what has been captured: it is found if the program
leads to a position from which the rest succeeds. -/
theorem find_isSome_iff {p : Program} (hplain : p.Plain) {next : Next} {ok : Cursor → Prop}
    {c : Cursor} {captures : Captures}
    (hnext : ∀ d, p.Leads c d → ∀ captures, (next d captures).isSome = true ↔ ok d) :
    (p.find next c captures).isSome = true ↔ p.Succeeds ok c := by
  induction p generalizing next ok c captures with
  | empty =>
    rw [find, hnext c rfl captures]
    exact ⟨fun h => ⟨c, rfl, h⟩, fun ⟨d, hd, h⟩ => hd ▸ h⟩
  | set s =>
    simp only [find, Next.set]
    constructor
    · intro h
      split at h
      · rename_i first text hrest
        split at h
        · rename_i hfirst
          have hd : (Program.set s).Leads c (c.advance first text) :=
            ⟨first, text, hrest, hfirst, rfl⟩
          exact ⟨_, hd, (hnext _ hd captures).mp h⟩
        · cases h
      · cases h
    · rintro ⟨d, ⟨first, text, hrest, hfirst, rfl⟩, hok⟩
      rw [hrest]
      simp only [hfirst, if_true]
      exact (hnext _ ⟨first, text, hrest, hfirst, rfl⟩ captures).mpr hok
  | look l =>
    simp only [find, Next.look]
    constructor
    · intro h
      split at h
      · rename_i hholds
        exact ⟨c, ⟨hholds, rfl⟩, (hnext c ⟨hholds, rfl⟩ captures).mp h⟩
      · cases h
    · rintro ⟨d, ⟨hholds, rfl⟩, hok⟩
      rw [if_pos hholds]
      exact (hnext d ⟨hholds, rfl⟩ captures).mpr hok
  | seq a b iha ihb =>
    have hrest : ∀ e, a.Leads c e → ∀ captures,
        (b.find next e captures).isSome = true ↔ b.Succeeds ok e := fun e he captures =>
      ihb hplain.2 fun d hd captures => hnext d ⟨e, he, hd⟩ captures
    rw [find, iha hplain.1 hrest]
    constructor
    · rintro ⟨e, he, d, hd, hok⟩
      exact ⟨d, ⟨e, he, hd⟩, hok⟩
    · rintro ⟨d, ⟨e, he, hd⟩, hok⟩
      exact ⟨e, he, d, hd, hok⟩
  | alt guard a b iha ihb =>
    rw [find, Option.isSome_or, Bool.or_eq_true,
      iha hplain.2.1 fun d hd captures => hnext d (.inl hd) captures,
      ihb hplain.2.2 fun d hd captures => hnext d (.inr hd) captures]
    constructor
    · rintro (⟨d, hd, hok⟩ | ⟨d, hd, hok⟩)
      · exact ⟨d, .inl hd, hok⟩
      · exact ⟨d, .inr hd, hok⟩
    · rintro ⟨d, hd | hd, hok⟩
      · exact .inl ⟨d, hd, hok⟩
      · exact .inr ⟨d, hd, hok⟩
  | group index a iha => exact iha hplain fun d hd captures => hnext d hd _
  | loop guard greedy a iha =>
    obtain ⟨-, hconsumes, hbody⟩ := hplain
    -- The text that is left bounds the turns, so the fuel never runs out.
    suffices hturns : ∀ fuel c captures, c.rest.length < fuel →
        (∀ d, (loop guard greedy a).Leads c d → ∀ captures,
          (next d captures).isSome = true ↔ ok d) →
        ((Next.turns a.find greedy next fuel c captures).isSome = true ↔
          (loop guard greedy a).Succeeds ok c) from
      hturns _ c captures (Nat.lt_succ_self _) hnext
    intro fuel
    induction fuel with
    | zero =>
      intro c captures hfuel
      omega
    | succ fuel ih =>
      intro c captures hfuel hnext
      have hagain : (a.find (Next.turns a.find greedy next fuel) c captures).isSome = true ↔
          a.Succeeds ((loop guard greedy a).Succeeds ok) c :=
        iha hbody fun e he captures =>
          ih e captures (by have := hconsumes c e he; omega) fun d hd =>
            hnext d (leads_loop_iff.mpr (.inr ⟨e, he, hd⟩))
      have hleave := hnext c (leads_loop_iff.mpr (.inl rfl)) captures
      rw [Next.turns, Next.more_isSome, Bool.or_eq_true, hagain, hleave, succeeds_loop_iff]

/-- More fuel than there is text finds the same. -/
theorem turns_eq_loop {a : Program} {greedy : Bool} (hconsumes : a.Consumes) {next : Next}
    {fuel : Nat} {c : Cursor} {captures : Captures} (hfuel : c.rest.length < fuel) :
    Next.turns a.find greedy next fuel c captures = Next.loop a.find greedy next c captures := by
  suffices hsame : ∀ m n c captures, c.rest.length < m → c.rest.length < n →
      Next.turns a.find greedy next m c captures = Next.turns a.find greedy next n c captures from
    hsame _ _ c captures hfuel (Nat.lt_succ_self _)
  intro m
  induction m with
  | zero =>
    intro n c captures hm
    omega
  | succ m ih =>
    intro n c captures hm hn
    obtain ⟨n, rfl⟩ := Nat.exists_eq_add_one_of_ne_zero (by omega : n ≠ 0)
    simp only [Next.turns]
    rw [find_congr fun d hd captures => ih n d captures
      (by have := hconsumes c d hd; omega) (by have := hconsumes c d hd; omega)]

/-- One turn of a loop, with all the fuel that the rest of the loop needs. -/
theorem find_loop {a : Program} {guard : Guard} {greedy : Bool} (hconsumes : a.Consumes)
    {next : Next} {c : Cursor} {captures : Captures} :
    (loop guard greedy a).find next c captures = Next.more greedy
      (a.find ((loop guard greedy a).find next) c captures) (next c captures) := by
  have hagain : a.find (Next.turns a.find greedy next c.rest.length) c captures =
      a.find ((loop guard greedy a).find next) c captures :=
    find_congr fun e he captures => turns_eq_loop hconsumes (hconsumes c e he)
  rw [find, Next.loop, Next.turns]
  exact congrArg (Next.more greedy · (next c captures)) hagain

/-! ### Sound marks -/

/-- The choice points of a program in front of a rest that succeeds where `ok` holds: the number of
each, and the positions from which it succeeds. -/
def choices : Program → (Cursor → Prop) → List (Nat × (Cursor → Prop))
  | .empty, _ => []
  | .set _, _ => []
  | .look _, _ => []
  | .seq a b, ok => a.choices (b.Succeeds ok) ++ b.choices ok
  | .alt (.memo id) a b, ok =>
    (id, (alt (.memo id) a b).Succeeds ok) :: (a.choices ok ++ b.choices ok)
  | .alt (.once _) a b, ok => a.choices ok ++ b.choices ok
  | .group _ a, ok => a.choices ok
  | .loop (.memo id) greedy a, ok =>
    (id, (loop (.memo id) greedy a).Succeeds ok) ::
      a.choices ((loop (.memo id) greedy a).Succeeds ok)
  | .loop (.once _) greedy a, ok => a.choices ((loop (.once 0) greedy a).Succeeds ok)

/-- A number stands for one choice only. -/
def Coherent (choices : List (Nat × (Cursor → Prop))) : Prop :=
  ∀ id ok ok', (id, ok) ∈ choices → (id, ok') ∈ choices → ok = ok'

section Marks

variable {origin : Cursor} {known : List (Nat × (Cursor → Prop))}

/-- Wherever a choice is marked, it fails. -/
def SoundMarks (origin : Cursor) (known : List (Nat × (Cursor → Prop))) (marks : Marks) : Prop :=
  ∀ id ok, (id, ok) ∈ known → ∀ c, origin.Reaches c → marks.contains (id, c.offset) = true → ¬ ok c

/-- A choice that fails may be marked. -/
theorem SoundMarks.insert {marks : Marks} (h : SoundMarks origin known marks)
    (hknown : Coherent known) {id : Nat} {ok : Cursor → Prop} (hmem : (id, ok) ∈ known) {c : Cursor}
    (hc : origin.Reaches c) (hfails : ¬ ok c) :
    SoundMarks origin known (marks.insert (id, c.offset)) := by
  intro id' ok' hmem' d hd hmarked
  rw [Std.HashSet.contains_insert, Bool.or_eq_true, beq_iff_eq] at hmarked
  rcases hmarked with hsame | hmarked
  · obtain ⟨rfl, hoffset⟩ := Prod.mk.inj hsame
    obtain rfl := hc.eq_of_offset_eq hd hoffset
    obtain rfl := hknown id ok ok' hmem hmem'
    exact hfails
  · exact h id' ok' hmem' d hd hmarked

/-- `Answers origin known found outcome`: an outcome is what is found, and its marks are sound. -/
def Answers (origin : Cursor) (known : List (Nat × (Cursor → Prop)))
    (found : Option (Cursor × Captures)) (outcome : Outcome) : Prop :=
  outcome.1 = found ∧ SoundMarks origin known outcome.2

/-- If both branches answer rightly, so does the first of them that succeeds. -/
theorem Answers.orElse {found found' : Option (Cursor × Captures)} {first : Outcome}
    {second : Marks → Outcome} (h : Answers origin known found first)
    (h' : ∀ marks, SoundMarks origin known marks → Answers origin known found' (second marks)) :
    Answers origin known (found.or found') (first.orElse second) := by
  obtain ⟨outcome, marks⟩ := first
  obtain ⟨hfound, hmarks⟩ := h
  cases outcome with
  | some result =>
    obtain rfl : some result = found := hfound
    exact ⟨rfl, hmarks⟩
  | none =>
    obtain rfl : none = found := hfound
    exact h' marks hmarks

/-- Visiting a choice point answers as the choice does: if it is marked it fails anyway, and it is
marked only after it has failed. -/
theorem Answers.visit (hknown : Coherent known) {id : Nat} {ok : Cursor → Prop}
    (hmem : (id, ok) ∈ known) {c : Cursor} (hc : origin.Reaches c)
    {found : Option (Cursor × Captures)} (hfound : found.isSome = true ↔ ok c)
    {run : Marks → Outcome}
    (hrun : ∀ marks, SoundMarks origin known marks → Answers origin known found (run marks))
    {marks : Marks} (hmarks : SoundMarks origin known marks) :
    Answers origin known found ((Guard.memo id).visit c.offset run marks) := by
  simp only [Guard.visit]
  split
  · rename_i hmarked
    have hfails : ¬ ok c := hmarks id ok hmem c hc hmarked
    have hnone : found = none := by
      rwa [← hfound, Bool.not_eq_true, Option.isSome_eq_false_iff, Option.isNone_iff_eq_none]
        at hfails
    exact ⟨hnone.symm, hmarks⟩
  · have hanswers := hrun marks hmarks
    split
    · rename_i result marks' hresult
      rw [hresult] at hanswers
      exact hanswers
    · rename_i marks' hresult
      rw [hresult] at hanswers
      obtain ⟨hnone, hmarks'⟩ := hanswers
      refine ⟨hnone, hmarks'.insert hknown hmem hc fun hok => ?_⟩
      rw [← hfound, ← hnone] at hok
      cases hok

/-- `Mirrors origin known rest next ok c`: from a position on, a rest with marks answers as one
without marks, which succeeds if the position is `ok`. -/
def Mirrors (origin : Cursor) (known : List (Nat × (Cursor → Prop))) (rest : Rest) (next : Next)
    (ok : Cursor → Prop) (c : Cursor) : Prop :=
  ∀ captures, ((next c captures).isSome = true ↔ ok c) ∧ ∀ marks, SoundMarks origin known marks →
    Answers origin known (next c captures) (rest c captures marks)

/-- At the end nothing is left to be matched, with marks or without. -/
theorem mirrors_stop (origin : Cursor) (known : List (Nat × (Cursor → Prop))) (c : Cursor) :
    Mirrors origin known (fun d captures marks => (some (d, captures), marks)) Next.stop
      (fun _ => True) c := by
  intro captures
  exact ⟨iff_of_true rfl trivial, fun marks hmarks => ⟨rfl, hmarks⟩⟩

/-- **A run with sound marks answers as the search without marks.** The induction is on the program;
in a loop there is a second one on the fuel, which the text that is left keeps from running out. -/
theorem run_mirrors (hknown : Coherent known) {p : Program} (hplain : p.Plain) {fuel : Nat}
    {rest : Rest} {next : Next} {ok : Cursor → Prop} {c : Cursor} (hc : origin.Reaches c)
    (hfuel : c.rest.length < fuel) (hchoices : p.choices ok ⊆ known)
    (hrest : ∀ d, p.Leads c d → Mirrors origin known rest next ok d) :
    Mirrors origin known (p.run fuel rest) (p.find next) (p.Succeeds ok) c := by
  intro captures
  refine ⟨find_isSome_iff hplain fun d hd captures => (hrest d hd captures).1, ?_⟩
  intro marks hmarks
  induction p generalizing rest next ok c captures marks with
  | empty => exact (hrest c rfl captures).2 marks hmarks
  | set s =>
    simp only [run, find, Next.set]
    cases hfirst : c.rest with
    | nil => exact ⟨rfl, hmarks⟩
    | cons first text =>
      by_cases hcontains : s.contains first = true
      · simp only [hcontains, if_true]
        exact (hrest _ ⟨first, text, hfirst, hcontains, rfl⟩ captures).2 marks hmarks
      · simp only [hcontains]
        exact ⟨rfl, hmarks⟩
  | look l =>
    simp only [run, find, Next.look]
    split
    · rename_i hholds
      exact (hrest c ⟨hholds, rfl⟩ captures).2 marks hmarks
    · exact ⟨rfl, hmarks⟩
  | seq a b iha ihb =>
    obtain ⟨ha, hb⟩ := List.append_subset.mp hchoices
    refine iha hplain.1 hc hfuel ha ?_ captures marks hmarks
    intro e he captures
    have hreaches := he.reaches
    refine ⟨find_isSome_iff hplain.2 fun d hd captures => (hrest d ⟨e, he, hd⟩ captures).1, ?_⟩
    intro marks hmarks
    exact ihb hplain.2 (hc.trans hreaches) (by have := hreaches.length_le; omega) hb
      (fun d hd => hrest d ⟨e, he, hd⟩) captures marks hmarks
  | alt guard a b iha ihb =>
    obtain ⟨⟨id, rfl⟩, ha, hb⟩ := hplain
    obtain ⟨hid, hbranches⟩ := List.cons_subset.mp hchoices
    obtain ⟨hca, hcb⟩ := List.append_subset.mp hbranches
    have halt : (alt (.memo id) a b).Plain := ⟨⟨id, rfl⟩, ha, hb⟩
    have hfound : ((alt (.memo id) a b).find next c captures).isSome = true ↔
        (alt (.memo id) a b).Succeeds ok c :=
      find_isSome_iff halt fun d hd captures => (hrest d hd captures).1
    refine Answers.visit hknown hid hc hfound (fun marks hmarks => ?_) hmarks
    exact (iha ha hc hfuel hca (fun d hd => hrest d (.inl hd)) captures marks hmarks).orElse
      fun marks hmarks => ihb hb hc hfuel hcb (fun d hd => hrest d (.inr hd)) captures marks hmarks
  | group index a iha =>
    refine iha hplain hc hfuel hchoices ?_ captures marks hmarks
    exact fun d hd captures => hrest d hd _
  | loop guard greedy a iha =>
    obtain ⟨⟨id, rfl⟩, hconsumes, hbody⟩ := hplain
    obtain ⟨hid, hinner⟩ := List.cons_subset.mp hchoices
    have hloop : (loop (.memo id) greedy a).Plain := ⟨⟨id, rfl⟩, hconsumes, hbody⟩
    suffices hturns : ∀ n c, origin.Reaches c → c.rest.length < n → c.rest.length < fuel →
        (∀ d, (loop (.memo id) greedy a).Leads c d → Mirrors origin known rest next ok d) →
        ∀ captures marks, SoundMarks origin known marks → Answers origin known
          ((loop (.memo id) greedy a).find next c captures)
          (turns (a.run fuel) (.memo id) greedy rest n c captures marks) from
      hturns fuel c hc hfuel hfuel hrest captures marks hmarks
    intro n
    induction n with
    | zero =>
      intro c _ hn
      omega
    | succ n ih =>
      intro c hc hn hfuel hrest captures marks hmarks
      have hfound : ((loop (.memo id) greedy a).find next c captures).isSome = true ↔
          (loop (.memo id) greedy a).Succeeds ok c :=
        find_isSome_iff hloop fun d hd captures => (hrest d hd captures).1
      have hagain : ∀ marks, SoundMarks origin known marks → Answers origin known
          (a.find ((loop (.memo id) greedy a).find next) c captures)
          (a.run fuel (turns (a.run fuel) (.memo id) greedy rest n) c captures marks) := by
        intro marks hmarks
        refine iha hbody hc hfuel hinner (fun e he captures => ?_) captures marks hmarks
        have hshorter := hconsumes c e he
        have hturn : ∀ d, (loop (.memo id) greedy a).Leads e d →
            Mirrors origin known rest next ok d :=
          fun d hd => hrest d (leads_loop_iff.mpr (.inr ⟨e, he, hd⟩))
        exact ⟨find_isSome_iff hloop fun d hd captures => (hturn d hd captures).1,
          ih e (hc.trans he.reaches) (by omega) (by omega) hturn captures⟩
      have hleave := (hrest c (leads_loop_iff.mpr (.inl rfl)) captures).2
      refine Answers.visit hknown hid hc hfound (fun marks hmarks => ?_) hmarks
      rw [find_loop hconsumes]
      cases greedy with
      | true => exact (hagain marks hmarks).orElse hleave
      | false => exact (hleave marks hmarks).orElse hagain

end Marks

end Program

end Relabel
