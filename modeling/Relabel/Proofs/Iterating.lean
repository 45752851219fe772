import Relabel.Proofs.Progress
import Relabel.Proofs.Walking
import Relabel.Proofs.WritingBack

/-!
# Scanning and iterating

There are two ways to go through the matches in a text. A scan goes on behind a match, or one
character on if the match is empty. An iteration goes on where the match ended, whether or not it is
empty, and passes over an empty match at the end of the match before. So a scan reports one kind of
match that an iteration does not: an empty one where a match that is not empty has just ended, an
echo of that match.

The two keep different things: a scan its position, and an iteration the end of its last match too.
They are in step (`InStep`) if that end tells an echo as the match before does (`InStep.echoes_eq`).
They come into step again after every match (`InStep.step`): an iteration takes two steps over an
empty match that is no echo, of which the second finds the match once more and passes over it.
-/

namespace Relabel

/-! ### Echoes -/

namespace Span

/-- Whether a span is empty and begins where one that is not empty ends. -/
def echoes (before s : Span) : Bool :=
  !before.isEmpty && s.isEmpty && before.stop == s.start

/-- What is not empty echoes nothing. -/
theorem any_echoes_of_nonempty {s : Span} (h : s.isEmpty = false) (before : Option Span) :
    (before.any fun b => b.echoes s) = false := by
  cases before <;> simp [echoes, h]

end Span

/-- Leaves out every member whose span echoes that of the member right in front of it. The span in
front of the first member is given, if there is one. -/
def dropEchoes {α : Type} (span : α → Span) : Option Span → List α → List α
  | _, [] => []
  | before, a :: later =>
    if before.any fun b => b.echoes (span a) then dropEchoes span (some (span a)) later
    else a :: dropEchoes span (some (span a)) later

/-- A member is left out if it echoes the one in front of it. -/
theorem dropEchoes_cons {α : Type} (span : α → Span) (before : Option Span) (a : α)
    (later : List α) : dropEchoes span before (a :: later) =
      (if before.any fun b => b.echoes (span a) then [] else [a]) ++
        dropEchoes span (some (span a)) later := by
  rw [dropEchoes]
  split <;> rfl

/-- There are no echoes where nothing is empty. -/
theorem dropEchoes_of_nonempty {α : Type} {span : α → Span} {members : List α}
    (h : ∀ a ∈ members, (span a).isEmpty = false) (before : Option Span) :
    dropEchoes span before members = members := by
  induction members generalizing before with
  | nil => rfl
  | cons a later ih =>
    obtain ⟨hfirst, hlater⟩ := List.forall_mem_cons.mp h
    rw [dropEchoes_cons, Span.any_echoes_of_nonempty hfirst, ih hlater]
    rfl

theorem dropEchoes_map {α β : Type} (span : β → Span) (f : α → β) (before : Option Span)
    (members : List α) : dropEchoes span before (members.map f) =
      (dropEchoes (fun a => span (f a)) before members).map f := by
  induction members generalizing before with
  | nil => rfl
  | cons a later ih =>
    rw [List.map_cons, dropEchoes, dropEchoes, ih]
    split <;> rfl

/-! ### Steps -/

/-- The position behind the next character, unless this is the end of the text. -/
def Cursor.next? (c : Cursor) : Option Cursor :=
  match c.rest with
  | [] => none
  | x :: rest => some (c.advance x rest)

theorem Cursor.reaches_next? {c d : Cursor} (h : c.next? = some d) :
    c.Reaches d ∧ c.offset < d.offset := by
  unfold next? at h
  split at h
  · cases h
  · rename_i x rest hrest
    cases h
    exact ⟨⟨[x], .advance hrest⟩, Nat.lt_add_of_pos_right x.utf8Size_pos⟩

/-- What a search finds lies between two positions, and is the match at the first of them. -/
theorem Program.exists_span_of_search {p : Pattern} {c : Cursor} {found : Match}
    (h : (ofPattern p).search c = some found) :
    ∃ e d, c.Reaches e ∧ e.Reaches d ∧ found.span = ⟨e.offset, d.offset⟩ ∧
      (ofPattern p).matchAt e = some found := by
  obtain ⟨e, he, hmatch⟩ := Matcher.exists_matchAt_of_search h
  obtain ⟨d, hmatches, hspan⟩ := matchAt_sound hmatch
  exact ⟨e, d, he, hmatches.reaches, hspan, hmatch⟩

namespace Matcher

variable {matcher : Matcher} {c e : Cursor} {found : Match} {fuel : Nat}

/-- A scan goes on one character behind an empty match. -/
theorem walkFrom_of_empty (hahead : matcher.ahead = [])
    (h : matcher.program.search c = some found) (he : c.Reaches e)
    (hspan : found.span = ⟨e.offset, e.offset⟩) :
    (matcher.walkFrom (fuel + 1) c).map Prod.fst =
      found :: (e.next?.map fun d => (matcher.walkFrom fuel d).map Prod.fst).getD [] := by
  have hresume : (matcher.resume c found).2 = e.next? := by
    rw [resume, target_of_ahead hahead, hspan, if_neg (Nat.lt_irrefl _), he.seek?, Cursor.next?]
    dsimp only
    cases e.rest <;> rfl
  rw [walkFrom, h, ← hresume]
  dsimp only
  rcases matcher.resume c found with ⟨offset, _ | d⟩ <;> rfl

end Matcher

namespace Program

variable {program : Program} {c d : Cursor} {found : Match} {lastStop : Option Nat} {fuel : Nat}

/-- An empty match at the end of the last one is passed over. -/
theorem matchesFrom_of_passed (h : program.search c = some found)
    (hpassed : (found.span.isEmpty && lastStop == some found.span.stop) = true) :
    program.matchesFrom (fuel + 1) c lastStop =
      (c.next?.map fun d => program.matchesFrom fuel d lastStop).getD [] := by
  rw [matchesFrom, h]
  simp only [hpassed, if_true, Cursor.next?]
  cases c.rest <;> rfl

/-- After any other match an iteration goes on at its end. -/
theorem matchesFrom_of_kept (h : program.search c = some found)
    (hkept : (found.span.isEmpty && lastStop == some found.span.stop) = false)
    (hd : c.Reaches d) (hstop : found.span.stop = d.offset) :
    program.matchesFrom (fuel + 1) c lastStop =
      found :: program.matchesFrom fuel d (some found.span.stop) := by
  rw [matchesFrom, h]
  simp only [hkept, Bool.false_eq_true, if_false]
  rw [hstop, hd.seek?]

end Program

/-! ### In step -/

/-- `InStep c before lastStop`: at the position `c`, a scan that has passed the span `before` is in
step with an iteration whose last match ended at `lastStop`. Either a match that is not empty has
just ended for both of them, or all that both have passed lies in front. -/
inductive InStep (c : Cursor) : Option Span → Option Nat → Prop where
  | behind {b : Span} (nonempty : b.isEmpty = false) (ended : b.stop = c.offset) :
      InStep c (some b) (some b.stop)
  | apart {before : Option Span} {lastStop : Option Nat}
      (passed : ∀ b, before = some b → b.stop < c.offset)
      (ended : ∀ stop, lastStop = some stop → stop < c.offset) : InStep c before lastStop

/-- **Echoes are what an iteration passes over.** -/
theorem InStep.echoes_eq {c : Cursor} {before : Option Span} {lastStop : Option Nat}
    (h : InStep c before lastStop) {s : Span} (hstart : c.offset ≤ s.start)
    (hle : s.start ≤ s.stop) :
    (before.any fun b => b.echoes s) = (s.isEmpty && lastStop == some s.stop) := by
  cases h with
  | @behind b nonempty ended =>
    rw [Option.any_some, Span.echoes, nonempty]
    cases hs : s.isEmpty with
    | false => rfl
    | true =>
      have hsame : s.start = s.stop := beq_iff_eq.mp hs
      simp [hsame]
  | apart passed ended =>
    have hechoes : (before.any fun b => b.echoes s) = false := by
      cases before with
      | none => rfl
      | some b =>
        have hlt := passed b rfl
        have hne : b.stop ≠ s.start := by omega
        simp [Span.echoes, hne]
    have hstop : (lastStop == some s.stop) = false := by
      cases lastStop with
      | none => rfl
      | some stop =>
        have hlt := ended stop rfl
        have hne : stop ≠ s.stop := by omega
        simp [hne]
    rw [hechoes, hstop, Bool.and_false]

/-- The last match of an iteration does not end behind the position it has come to. -/
theorem InStep.last_eq {c : Cursor} {before : Option Span} {stop : Nat}
    (h : InStep c before (some stop)) (hle : c.offset ≤ stop) : stop = c.offset := by
  cases h with
  | behind _ ended => exact ended
  | apart _ ended => exact absurd (ended stop rfl) (Nat.not_lt.mpr hle)

/-- Behind an empty match both are in step again. -/
theorem InStep.after_empty {c d e : Cursor} {s : Span} (he : c.Reaches e)
    (hs : s = ⟨e.offset, e.offset⟩) (h : e.next? = some d) :
    c.Reaches d ∧ c.offset < d.offset ∧ InStep d (some s) (some e.offset) := by
  obtain ⟨hreaches, hlt⟩ := Cursor.reaches_next? h
  refine ⟨he.trans hreaches, Nat.lt_of_le_of_lt he.offset_le hlt, .apart ?_ ?_⟩
  · rintro _ ⟨rfl⟩
    rw [hs]
    exact hlt
  · rintro _ ⟨rfl⟩
    exact hlt

section Steps

variable {p : Pattern} {matcher : Matcher} {c d e : Cursor} {before : Option Span}
variable {lastStop : Option Nat} {found : Match} {fuel' : Nat}

/-- After a match that is found from `c`, a scan and an iteration meet again. The scan goes on at a
position, if there is one, to which the iteration comes with one step or two, and there they are in
step. The iteration keeps the match unless it is an echo. -/
def Meets (matcher : Matcher) (found : Match) (fuel' : Nat) (c : Cursor) (before : Option Span)
    (lastStop : Option Nat) : Prop :=
  ∃ (next : Option Cursor) (lastStop' : Option Nat) (left : Nat), fuel' ≤ left ∧
    (∀ fuel, (matcher.walkFrom (fuel + 1) c).map Prod.fst =
      found :: (next.map fun d => (matcher.walkFrom fuel d).map Prod.fst).getD []) ∧
    matcher.program.matchesFrom (fuel' + 2) c lastStop =
      (if before.any fun b => b.echoes found.span then [] else [found]) ++
        (next.map fun d => matcher.program.matchesFrom left d lastStop').getD [] ∧
    ∀ d, next = some d →
      c.Reaches d ∧ c.offset < d.offset ∧ InStep d (some found.span) lastStop'

/-- Behind a match that is not empty, both go on at its end. -/
theorem meets_of_nonempty (hahead : matcher.ahead = [])
    (hsearch : matcher.program.search c = some found) (he : c.Reaches e) (hd : e.Reaches d)
    (hmatch : matcher.program.matchAt e = some found)
    (hspan : found.span = ⟨e.offset, d.offset⟩) (hlt : e.offset < d.offset) :
    Meets matcher found fuel' c before lastStop := by
  have hcd := he.trans hd
  have hstop : found.span.stop = d.offset := by rw [hspan]
  have hresumes : matcher.Resumes found e d :=
    ⟨hd, hlt, (Matcher.target_of_ahead hahead found).trans hstop⟩
  have hne : found.span.isEmpty = false := by
    simp [Span.isEmpty, hspan, Nat.ne_of_lt hlt]
  refine ⟨some d, some found.span.stop, fuel' + 1, Nat.le_succ _, ?_, ?_, ?_⟩
  · intro fuel
    rw [Matcher.walkFrom_of_search hsearch he hmatch hresumes]
    rfl
  · rw [Program.matchesFrom_of_kept hsearch (by rw [hne, Bool.false_and]) hcd hstop,
      Span.any_echoes_of_nonempty hne]
    rfl
  · rintro _ ⟨rfl⟩
    exact ⟨hcd, Nat.lt_of_le_of_lt he.offset_le hlt, .behind hne hstop⟩

/-- An echo is found where the search begins, so an iteration comes behind it by passing over it. -/
theorem InStep.meets_of_echo (h : InStep c before lastStop) (hahead : matcher.ahead = [])
    (hsearch : matcher.program.search c = some found) (he : c.Reaches e)
    (hspan : found.span = ⟨e.offset, e.offset⟩)
    (hpassed : (found.span.isEmpty && lastStop == some found.span.stop) = true)
    (hecho : (before.any fun b => b.echoes found.span) = true) :
    Meets matcher found fuel' c before lastStop := by
  have hlast : lastStop = some e.offset := by
    rw [Bool.and_eq_true, beq_iff_eq, hspan] at hpassed
    exact hpassed.2
  subst hlast
  obtain rfl : e = c := he.eq_of_offset_eq (.refl c) (h.last_eq he.offset_le)
  refine ⟨e.next?, some e.offset, fuel' + 1, Nat.le_succ _, ?_, ?_, ?_⟩
  · intro fuel
    exact Matcher.walkFrom_of_empty hahead hsearch he hspan
  · rw [Program.matchesFrom_of_passed hsearch hpassed, if_pos hecho, List.nil_append]
  · intro d hd
    exact InStep.after_empty he hspan hd

/-- Any other empty match is kept. An iteration finds it once more at its end, and passes over it
there. -/
theorem meets_of_empty (hahead : matcher.ahead = [])
    (hsearch : matcher.program.search c = some found) (he : c.Reaches e)
    (hmatch : matcher.program.matchAt e = some found) (hspan : found.span = ⟨e.offset, e.offset⟩)
    (hkept : (found.span.isEmpty && lastStop == some found.span.stop) = false)
    (hecho : (before.any fun b => b.echoes found.span) = false) :
    Meets matcher found fuel' c before lastStop := by
  have hend : found.span.stop = e.offset := by rw [hspan]
  have hpassed : (found.span.isEmpty && some found.span.stop == some found.span.stop) = true := by
    simp [Span.isEmpty, hspan]
  refine ⟨e.next?, some found.span.stop, fuel', Nat.le_refl _, ?_, ?_, ?_⟩
  · intro fuel
    exact Matcher.walkFrom_of_empty hahead hsearch he hspan
  · rw [Program.matchesFrom_of_kept hsearch hkept he hend,
      Program.matchesFrom_of_passed (Program.search_of_matchAt hmatch) hpassed, hecho]
    rfl
  · intro d hd
    rw [hend]
    exact InStep.after_empty he hspan hd

/-- **One step.** A scan and an iteration that are in step meet again after the next match. -/
theorem InStep.step (hprogram : matcher.program = .ofPattern p) (hahead : matcher.ahead = [])
    (h : InStep c before lastStop) (hsearch : matcher.program.search c = some found)
    (fuel' : Nat) : Meets matcher found fuel' c before lastStop := by
  obtain ⟨e, d, he, hd, hspan, hmatch⟩ := Program.exists_span_of_search (hprogram ▸ hsearch)
  rw [← hprogram] at hmatch
  by_cases hlt : e.offset < d.offset
  · exact meets_of_nonempty hahead hsearch he hd hmatch hspan hlt
  · have hsame : d.offset = e.offset := Nat.le_antisymm (Nat.le_of_not_lt hlt) hd.offset_le
    rw [hsame] at hspan
    have hechoes : (before.any fun b => b.echoes found.span) =
        (found.span.isEmpty && lastStop == some found.span.stop) := by
      refine h.echoes_eq ?_ ?_
      · rw [hspan]
        exact he.offset_le
      · rw [hspan]
    cases hecho : before.any fun b => b.echoes found.span with
    | true => exact h.meets_of_echo hahead hsearch he hspan (hechoes.symm.trans hecho) hecho
    | false => exact meets_of_empty hahead hsearch he hmatch hspan (hechoes.symm.trans hecho) hecho

end Steps

/-- **A scan without echoes is an iteration.** The induction is on the fuel of the scan. For each
character that a scan leaves behind, an iteration takes two steps at most. -/
theorem Matcher.dropEchoes_walkFrom {p : Pattern} {matcher : Matcher}
    (hprogram : matcher.program = .ofPattern p) (hahead : matcher.ahead = []) {fuel fuel' : Nat}
    {c : Cursor} {before : Option Span} {lastStop : Option Nat} (hfuel : c.rest.length < fuel)
    (hfuel' : 2 * c.rest.length ≤ fuel') (hstep : InStep c before lastStop) :
    dropEchoes Match.span before ((matcher.walkFrom fuel c).map Prod.fst) =
      matcher.program.matchesFrom (fuel' + 2) c lastStop := by
  induction fuel generalizing fuel' c before lastStop with
  | zero => omega
  | succ fuel ih =>
    cases hsearch : matcher.program.search c with
    | none =>
      rw [walkFrom, Program.matchesFrom, hsearch]
      rfl
    | some found =>
      obtain ⟨next, lastStop', left, hleft, hwalk, hmatches, hnext⟩ :=
        hstep.step hprogram hahead hsearch fuel'
      rw [hwalk, hmatches, dropEchoes_cons]
      congr 1
      cases next with
      | none => rfl
      | some d =>
        obtain ⟨hreaches, hlt, hstep'⟩ := hnext d rfl
        have hlength := hreaches.length_lt hlt
        obtain ⟨left, rfl⟩ := Nat.exists_eq_add_of_le' (by omega : 2 ≤ left)
        exact ih (by omega) (by omega) hstep'

/-- The matches of a scan, but for echoes, are those of the iteration. -/
theorem Matcher.dropEchoes_walk {p : Pattern} {matcher : Matcher}
    (hprogram : matcher.program = .ofPattern p) (hahead : matcher.ahead = []) (text : List Char) :
    dropEchoes Match.span none ((matcher.walk text).map Prod.fst) =
      matcher.program.allMatches text := by
  have hstart : InStep (.start text) none none := .apart (by simp) (by simp)
  exact dropEchoes_walkFrom hprogram hahead (Nat.lt_succ_self _) (Nat.le_refl _) hstart

/-- If no group makes a scan resume early, what a hit consumes is the whole match. -/
theorem Matcher.scan_of_ahead {p : Pattern} {matcher : Matcher}
    (hprogram : matcher.program = .ofPattern p) (hahead : matcher.ahead = []) (text : List Char) :
    matcher.scan text = ((matcher.walk text).map Prod.fst).map fun found =>
      ⟨found.span, matcher.capture? found⟩ := by
  rw [scan, List.map_map]
  refine List.map_congr_left fun entry hentry => ?_
  have hpast := (walk_visited hprogram hentry).past_target
  rw [target_of_ahead hahead] at hpast
  change matcher.hit entry.1 entry.2 = _
  rw [hit, Nat.min_eq_right hpast]
  rfl

/-- **Scanning agrees with iterating but for echoes.** For every compiled template without a group
at which scanning resumes and every text, the matches of the scan are those of the iteration, in the
same order and with everything that their groups recorded, once each empty match is left out that
begins where the match right before it, which is not empty, has ended. So are the hits, each of
which consumes its match, with their captures. -/
theorem scanning_agrees_with_iterating {template : Template} {pattern : List Char} {group : String}
    {caseSensitive : Bool} {matcher : Matcher}
    (hmatcher : (Matcher.compile template pattern group caseSensitive).outcome = .ok matcher)
    (hahead : matcher.ahead = []) (text : List Char) :
    dropEchoes Match.span none ((matcher.walk text).map Prod.fst) =
        matcher.program.allMatches text ∧
      dropEchoes Hit.consumed none (matcher.scan text) =
        (matcher.program.allMatches text).map fun found =>
          ⟨found.span, matcher.capture? found⟩ := by
  obtain ⟨p, -, rfl⟩ := Matcher.eq_ofPattern_of_compile hmatcher
  have hprogram : (Matcher.ofPattern group.toList p).program = .ofPattern p := rfl
  have hmatches := Matcher.dropEchoes_walk hprogram hahead text
  refine ⟨hmatches, ?_⟩
  rw [Matcher.scan_of_ahead hprogram hahead, dropEchoes_map, ← hmatches]

/-- A pattern that may match nothing, in `xéax`: of the matches at both ends of `é`, the one that
echoes the `x` is left out and the other one is kept. -/
theorem scanning_agrees_with_iterating_optional :
    ∃ matcher, (Matcher.compile ⟨"(?P<main>%s)", by decide⟩ ['x', '?'] "main" true).outcome =
        .ok matcher ∧ matcher.ahead = [] ∧
      dropEchoes Hit.consumed none (matcher.scan "xéax".toList) =
        [⟨⟨0, 1⟩, some ⟨0, 1⟩⟩, ⟨⟨3, 3⟩, some ⟨3, 3⟩⟩, ⟨⟨4, 5⟩, some ⟨4, 5⟩⟩] := by
  have hrun : ((⟨"(?P<main>%s)", by decide⟩ : Template).pattern ['x', '?'] true).toOption.any
      (fun p => p.proper && (Matcher.ofPattern "main".toList p).ahead == [] &&
        (p.matchesFrom 10 (.start "xéax".toList) none).map (fun found =>
          Hit.mk found.span ((Matcher.ofPattern "main".toList p).capture? found)) ==
        [⟨⟨0, 1⟩, some ⟨0, 1⟩⟩, ⟨⟨3, 3⟩, some ⟨3, 3⟩⟩, ⟨⟨4, 5⟩, some ⟨4, 5⟩⟩]) = true := by
    decide +kernel
  obtain ⟨p, hp, hpassed⟩ := exists_ok_of_any hrun
  simp only [Bool.and_eq_true, beq_iff_eq] at hpassed
  obtain ⟨⟨hproper, hahead⟩, hmatches⟩ := hpassed
  have hmatcher : (Matcher.compile ⟨"(?P<main>%s)", by decide⟩ ['x', '?'] "main" true).outcome =
      .ok (Matcher.ofPattern "main".toList p) := by
    rw [Matcher.compile_of_ok hp]
  refine ⟨_, hmatcher, hahead, ?_⟩
  rw [(scanning_agrees_with_iterating hmatcher hahead "xéax".toList).2, ← hmatches,
    ← Program.matchesFrom_eq hproper]
  rfl

end Relabel
