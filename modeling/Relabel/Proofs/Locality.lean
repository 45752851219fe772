import Relabel.Proofs.Languages
import Relabel.Proofs.Walking

/-!
# Matches depend on the text to come

A pattern that sets no conditions on the text around a position matches there whatever the text to
come decides, and nothing in front of the position plays a part. So the search gives the same answer
at two positions with the same text to come, moved by the distance between them
(`Pattern.local_find`), and so does a walk (`Matcher.Advances.hits_moved`).
-/

namespace Relabel

/-! ### Moved positions and matches -/

/-- `c.MovedBy n d`: the same text is to come at both positions, and the offset of `d` is greater by
`n`. -/
structure Cursor.MovedBy (c : Cursor) (n : Nat) (d : Cursor) : Prop where
  rest : d.rest = c.rest
  offset : d.offset = n + c.offset

/-- What the groups have recorded, with all spans moved to the right. -/
def Captures.shift (n : Nat) (captures : Captures) : Captures :=
  captures.map fun entry => (entry.1, entry.2.shift n)

def Match.shift (n : Nat) (found : Match) : Match :=
  ⟨found.span.shift n, Captures.shift n found.captures⟩

section Moved

variable {n : Nat} {c d c' : Cursor}

theorem Cursor.MovedBy.advance (h : c.MovedBy n c') (x : Char) (rest : List Char) :
    (c.advance x rest).MovedBy n (c'.advance x rest) where
  rest := rfl
  offset := by simp only [Cursor.advance, h.offset, Nat.add_assoc]

/-- The same text leads on from a moved position. -/
theorem Cursor.MovedBy.exists_over (h : c.MovedBy n c') {part : List Char} (hover : c.Over part d) :
    ∃ d', c'.Over part d' ∧ d.MovedBy n d' := by
  obtain ⟨d', hover', hrest⟩ := Cursor.exists_over (h.rest.trans hover.1)
  exact ⟨d', hover', hrest, by rw [hover'.2.1, hover.2.1, h.offset, Nat.add_assoc]⟩

theorem Match.group?_shift (n : Nat) (found : Match) (index : Nat) :
    (found.shift n).group? index = (found.group? index).map (Span.shift n) := by
  rw [Match.group?, Match.group?]
  split
  · rfl
  · rw [Match.shift, Captures.shift]
    induction found.captures with
    | nil => rfl
    | cons entry captures ih =>
      rw [List.map_cons, List.lookup_cons, List.lookup_cons]
      cases index == entry.1 with
      | true => rfl
      | false => exact ih

theorem Matcher.firstGroup?_shift (n : Nat) (indices : List Nat) (found : Match) :
    firstGroup? indices (found.shift n) = (firstGroup? indices found).map (Span.shift n) := by
  rw [firstGroup?, firstGroup?, List.map_findSome?]
  exact congrArg (List.findSome? · indices) (funext (found.group?_shift n))

/-- The capture of a moved match is moved with it. -/
theorem Matcher.capture?_shift (matcher : Matcher) (n : Nat) (found : Match) :
    matcher.capture? (found.shift n) = (matcher.capture? found).map (Span.shift n) :=
  firstGroup?_shift n _ found

/-- Scanning resumes after a moved match as much further on. -/
theorem Matcher.target_shift (matcher : Matcher) (n : Nat) (found : Match) :
    matcher.target (found.shift n) = n + matcher.target found := by
  rw [target, target, ahead?, ahead?, firstGroup?_shift]
  cases firstGroup? matcher.ahead found <;> rfl

end Moved

/-! ### Searches that are local -/

namespace Next

/-- The answers are the same, but for being moved. -/
def Answers (n : Nat) : Option (Cursor × Captures) → Option (Cursor × Captures) → Prop :=
  Option.Rel fun found found' => found.1.MovedBy n found'.1 ∧ found'.2 = Captures.shift n found.2

/-- `next.Moves n next'`: at moved positions, `next'` answers as `next` does. -/
def Moves (next : Next) (n : Nat) (next' : Next) : Prop :=
  ∀ ⦃c c' : Cursor⦄, c.MovedBy n c' → ∀ captures,
    Answers n (next c captures) (next' c' (Captures.shift n captures))

/-- What is searched for does not depend on where it stands. -/
def Local (step : Next → Next) : Prop :=
  ∀ ⦃n : Nat⦄ ⦃next next' : Next⦄, next.Moves n next' → (step next).Moves n (step next')

variable {n : Nat} {next next' : Next} {step other : Next → Next}

theorem moves_stop (n : Nat) : stop.Moves n stop :=
  fun _ _ h _ => .some ⟨h, rfl⟩

/-- The first of two answers, each of which is moved, is moved. -/
theorem Answers.or {a a' b b' : Option (Cursor × Captures)} (h : Answers n a a')
    (h' : Answers n b b') : Answers n (a.or b) (a'.or b') := by
  cases h with
  | some found => exact .some found
  | none => exact h'

theorem Answers.more {a a' b b' : Option (Cursor × Captures)} (greedy : Bool)
    (h : Answers n a a') (h' : Answers n b b') :
    Answers n (more greedy a b) (more greedy a' b') := by
  cases greedy with
  | true => exact h.or h'
  | false => exact h'.or h

theorem local_set (s : CharSet) : Local (set s) := by
  intro n next next' h c c' hc captures
  unfold set
  rw [hc.rest]
  split
  · split
    · exact h (hc.advance _ _) captures
    · exact .none
  · exact .none

theorem Local.comp (h : Local step) (h' : Local other) : Local fun next => step (other next) :=
  fun _ _ _ hnext => h (h' hnext)

theorem Local.iterate (h : Local step) (count : Nat) : Local step^[count] := by
  induction count with
  | zero => exact fun _ _ _ hnext => hnext
  | succ count ih =>
    rw [Function.iterate_succ]
    exact ih.comp h

theorem Local.group (h : Local step) (index : Nat) : Local (group index step) := by
  intro n next next' hnext c c' hc captures
  refine h (fun d d' hd later => ?_) hc captures
  rw [hc.offset, hd.offset]
  exact hnext hd ((index, ⟨c.offset, d.offset⟩) :: later)

theorem Local.atMost (h : Local step) (greedy : Bool) (count : Nat) :
    Local fun next => atMost step greedy next count := by
  induction count with
  | zero => exact fun _ _ _ hnext => hnext
  | succ count ih =>
    intro n next next' hnext c c' hc captures
    exact (h (ih hnext) hc captures).more greedy (hnext hc captures)

theorem Local.turns (h : Local step) (greedy : Bool) (fuel : Nat) :
    Local fun next => turns step greedy next fuel := by
  induction fuel with
  | zero => exact fun _ _ _ _ _ _ _ _ => .none
  | succ fuel ih =>
    intro n next next' hnext c c' hc captures
    exact (h (ih hnext) hc captures).more greedy (hnext hc captures)

/-- A loop of what does not depend on its place does not depend on it either. -/
theorem Local.loop (h : Local step) (greedy : Bool) : Local (loop step greedy) := by
  intro n next next' hnext c c' hc captures
  rw [Next.loop, Next.loop, hc.rest]
  exact h.turns greedy _ hnext hc captures

end Next

namespace Pattern

/-- Whether a pattern sets no conditions on the text around a position. -/
def lookFree : Pattern → Bool
  | .empty => true
  | .set _ => true
  | .look _ => false
  | .seq a b => a.lookFree && b.lookFree
  | .alt a b => a.lookFree && b.lookFree
  | .group _ _ a => a.lookFree
  | .repeated _ _ _ a => a.lookFree

theorem lookFree_of_lexical {p : Pattern} (h : p.lexical = true) : p.lookFree = true := by
  induction p with
  | empty => rfl
  | set s => rfl
  | look l => cases h
  | seq a b iha ihb =>
    rw [lexical, Bool.and_eq_true] at h
    rw [lookFree, iha h.1, ihb h.2, Bool.and_true]
  | alt a b iha ihb =>
    rw [lexical, Bool.and_eq_true] at h
    rw [lookFree, iha h.1, ihb h.2, Bool.and_true]
  | group index name a iha => cases h
  | repeated min max greedy a iha => exact iha h

/-- **A search for a pattern without conditions is local.** -/
theorem local_find {p : Pattern} (h : p.lookFree = true) : Next.Local p.find := by
  induction p with
  | empty => exact fun _ _ _ hnext => hnext
  | set s => exact Next.local_set s
  | look l => cases h
  | seq a b iha ihb =>
    rw [lookFree, Bool.and_eq_true] at h
    exact (iha h.1).comp (ihb h.2)
  | alt a b iha ihb =>
    rw [lookFree, Bool.and_eq_true] at h
    intro n next next' hnext c c' hc captures
    exact (iha h.1 hnext hc captures).or (ihb h.2 hnext hc captures)
  | group index name a iha => exact (iha h).group index
  | repeated min max greedy a iha =>
    cases max with
    | none => exact ((iha h).iterate min).comp ((iha h).loop greedy)
    | some max => exact ((iha h).iterate min).comp ((iha h).atMost greedy (max - min))

end Pattern

/-- **The match at a moved position is the match moved.** -/
theorem Program.matchAt_moved {p : Pattern} (hp : p.proper = true) (hfree : p.lookFree = true)
    {n : Nat} {c c' : Cursor} (hc : c.MovedBy n c') :
    (ofPattern p).matchAt c' = ((ofPattern p).matchAt c).map (Match.shift n) := by
  have hanswers : Next.Answers n (p.find .stop c []) (p.find .stop c' []) :=
    Pattern.local_find hfree (Next.moves_stop n) hc []
  rw [matchAt_eq_find hp, matchAt_eq_find hp]
  generalize p.find .stop c [] = found at hanswers
  generalize p.find .stop c' [] = found' at hanswers
  cases hanswers with
  | none => rfl
  | @some found found' h =>
    rw [Option.map_some, Option.map_some, Option.map_some, h.2, hc.offset, h.1.offset]
    rfl

/-! ### Walks that are local -/

namespace Matcher

variable {matcher : Matcher} {n : Nat} {c c' d : Cursor}

/-- What is matched at a position is matched at every position with the same text to come. -/
def Local (matcher : Matcher) : Prop :=
  ∀ ⦃n : Nat⦄ ⦃c c' : Cursor⦄, c.MovedBy n c' →
    matcher.program.matchAt c' = (matcher.program.matchAt c).map (Match.shift n)

/-- A matcher without conditions does not depend on where a text stands. -/
theorem local_ofPattern (group : List Char) {p : Pattern} (hp : p.proper = true)
    (hfree : p.lookFree = true) : (ofPattern group p).Local :=
  fun _ _ _ => Program.matchAt_moved hp hfree

/-- After a moved match, scanning resumes at a moved position. -/
theorem Resumes.exists_moved {found : Match} (h : matcher.Resumes found c d)
    (hc : c.MovedBy n c') : ∃ d', matcher.Resumes (found.shift n) c' d' ∧ d.MovedBy n d' := by
  obtain ⟨part, hover⟩ := h.reaches
  obtain ⟨d', hover', hd⟩ := hc.exists_over hover
  refine ⟨d', ⟨⟨part, hover'⟩, ?_, ?_⟩, hd⟩
  · rw [hc.offset, hd.offset]
    exact Nat.add_lt_add_left h.progress n
  · rw [target_shift, h.target, hd.offset]

/-- **A walk from a moved position finds the same, moved.** -/
theorem Advances.hits_moved (hm : matcher.Advances) (hlocal : matcher.Local)
    (hc : c.MovedBy n c') :
    matcher.hits c' = (matcher.hits c).map fun entry => (entry.1.shift n, n + entry.2) := by
  refine hm.hits_induction (motive := fun c hits => ∀ c', c.MovedBy n c' →
    matcher.hits c' = hits.map fun entry => (entry.1.shift n, n + entry.2)) ?_ ?_ ?_ c c' hc
  · intro c hnone hrest c' hc
    exact hits_end (by rw [hlocal hc, hnone, Option.map_none]) (hc.rest.trans hrest)
  · intro c x rest hits hnone hrest ih c' hc
    have hnone' : matcher.program.matchAt c' = none := by
      rw [hlocal hc, hnone, Option.map_none]
    rw [hm.hits_skip hnone' (hc.rest.trans hrest)]
    exact ih _ (hc.advance x rest)
  · intro c found d hits hmatch hd ih c' hc
    have hmatch' : matcher.program.matchAt c' = some (found.shift n) := by
      rw [hlocal hc, hmatch, Option.map_some]
    obtain ⟨d', hd', hmoved⟩ := hd.exists_moved hc
    rw [hm.hits_found hmatch' hd', ih d' hmoved, List.map_cons, hmoved.offset]

end Matcher

end Relabel
