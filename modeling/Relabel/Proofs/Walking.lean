import Relabel.Proofs.Finding
import Relabel.Proofs.Replacing

/-!
# A walk, position by position

A walk through a text tries one position after the other and, after a match, goes on where scanning
resumes. `Matcher.hits` is the walk from a position on, with an equation for each thing that can
happen there: no match, so the next position is tried; or a match, so the walk goes on at its
target. From these equations follow three views of a walk: what all positions have in common at
which it tries (`Matcher.hits_invariant`), which matches it cannot miss
(`Matcher.mem_hits_of_isolated`), and what becomes of a text if the captures are rewritten on the
way (`Matcher.Rewrites`).
-/

namespace Relabel

namespace Program

variable {program : Program} {c : Cursor}

theorem span_start_of_matchAt {found : Match} (h : program.matchAt c = some found) :
    found.span.start = c.offset := by
  unfold matchAt at h
  simp only at h
  split at h
  · cases h
    rfl
  · cases h

/-- A match at a position is the first from there on. -/
theorem search_of_matchAt {found : Match} (h : program.matchAt c = some found) :
    program.search c = some found := by
  obtain ⟨offset, before, rest⟩ := c
  unfold search
  cases rest with
  | nil => exact h
  | cons x rest =>
    rw [searchFrom, h]

theorem search_of_end (h : program.matchAt c = none) (hrest : c.rest = []) :
    program.search c = none := by
  obtain ⟨offset, before, rest⟩ := c
  obtain rfl : rest = [] := hrest
  exact h

/-- Where there is no match, the search goes on at the next position. -/
theorem search_of_skip {x : Char} {rest : List Char} (h : program.matchAt c = none)
    (hrest : c.rest = x :: rest) : program.search c = program.search (c.advance x rest) := by
  obtain ⟨offset, before, rest'⟩ := c
  obtain rfl : rest' = x :: rest := hrest
  unfold search
  rw [searchFrom, h]
  rfl

end Program

namespace Matcher

variable {matcher : Matcher} {c d : Cursor}

/-- The matches from a position on, each with the offset at which scanning resumes after it. -/
def hits (matcher : Matcher) (c : Cursor) : List (Match × Nat) :=
  matcher.walkFrom (c.rest.length + 1) c

/-- `matcher.Resumes found c d`: after a match that begins at `c`, scanning resumes at `d`, which
lies behind `c`. -/
structure Resumes (matcher : Matcher) (found : Match) (c d : Cursor) : Prop where
  reaches : c.Reaches d
  progress : c.offset < d.offset
  target : matcher.target found = d.offset

theorem Resumes.length_lt {found : Match} (h : matcher.Resumes found c d) :
    d.rest.length < c.rest.length :=
  h.reaches.length_lt h.progress

/-- There is one position at which scanning resumes. -/
theorem Resumes.unique {e : Cursor} {found : Match} (h : matcher.Resumes found c d)
    (h' : matcher.Resumes found c e) : d = e :=
  h.reaches.eq_of_offset_eq h'.reaches (h.target.symm.trans h'.target)

/-- Every match lets scanning resume behind its first character, at its target. -/
def Advances (matcher : Matcher) : Prop :=
  ∀ c found, matcher.program.matchAt c = some found → ∃ d, matcher.Resumes found c d

/-- If nothing is looked at only, scanning resumes at the end of the match. -/
theorem target_of_ahead (hahead : matcher.ahead = []) (found : Match) :
    matcher.target found = found.span.stop := by
  rw [target, ahead?, hahead]
  rfl

/-- If nothing is given back, scanning resumes where the match ends. -/
theorem Resumes.eq_of_ahead {e : Cursor} {found : Match} (h : matcher.Resumes found c d)
    (hahead : matcher.ahead = []) (he : c.Reaches e) (hstop : found.span.stop = e.offset) :
    d = e :=
  h.reaches.eq_of_offset_eq he (h.target.symm.trans ((target_of_ahead hahead found).trans hstop))

/-- A matcher that takes something and gives nothing back advances. -/
theorem advances_of_ahead {group : List Char} {p : Pattern} (hp : p.nullable = false)
    (hahead : (ofPattern group p).ahead = []) : (ofPattern group p).Advances := by
  intro c found h
  obtain ⟨d, hmatches, hspan⟩ := Program.matchAt_sound h
  refine ⟨d, hmatches.reaches, ?_, ?_⟩
  · obtain ⟨part, hpart⟩ := hmatches.reaches
    refine hpart.offset_lt ?_
    rintro rfl
    obtain rfl := hpart.eq_of_nil
    exact Nat.lt_irrefl _ (hmatches.length_lt hp)
  · rw [target_of_ahead hahead, hspan]

/-- What a search finds is the match at some position. -/
theorem exists_matchAt_of_search {program : Program} {c : Cursor} {found : Match}
    (h : program.search c = some found) : ∃ e, c.Reaches e ∧ program.matchAt e = some found := by
  obtain ⟨offset, before, rest⟩ := c
  unfold Program.search at h
  induction rest generalizing offset before with
  | nil => exact ⟨_, .refl _, h⟩
  | cons x rest ih =>
    rw [Program.searchFrom] at h
    split at h
    · rename_i hmatch
      exact ⟨_, .refl _, hmatch.trans h⟩
    · obtain ⟨e, he, hmatch⟩ := ih _ _ h
      exact ⟨e, Cursor.Reaches.trans ⟨[x], .advance rfl⟩ he, hmatch⟩

/-- A search that finds something ends one step of the walk. -/
theorem walkFrom_of_search {found : Match} {e : Cursor} {fuel : Nat}
    (h : matcher.program.search c = some found) (hc : c.Reaches e)
    (he : matcher.program.matchAt e = some found) (hd : matcher.Resumes found e d) :
    matcher.walkFrom (fuel + 1) c = (found, d.offset) :: matcher.walkFrom fuel d := by
  have hresume : matcher.resume c found = (d.offset, some d) := by
    have hlt := hd.progress
    rw [← Program.span_start_of_matchAt he] at hlt
    rw [resume, hd.target, if_pos hlt, (hc.trans hd.reaches).seek?]
  rw [walkFrom, h]
  simp only [hresume]

/-- More fuel than there is text changes nothing. -/
theorem Advances.walkFrom_eq_hits (hm : matcher.Advances) {fuel : Nat} {c : Cursor}
    (hfuel : c.rest.length < fuel) : matcher.walkFrom fuel c = matcher.hits c := by
  suffices hsame : ∀ m n c, c.rest.length < m → c.rest.length < n →
      matcher.walkFrom m c = matcher.walkFrom n c from hsame _ _ c hfuel (Nat.lt_succ_self _)
  intro m
  induction m with
  | zero =>
    intro n c hm
    omega
  | succ m ih =>
    intro n c hlength hlength'
    obtain ⟨n, rfl⟩ := Nat.exists_eq_add_one_of_ne_zero (by omega : n ≠ 0)
    cases hsearch : matcher.program.search c with
    | none => rw [walkFrom, walkFrom, hsearch]
    | some found =>
      obtain ⟨e, hc, he⟩ := exists_matchAt_of_search hsearch
      obtain ⟨d, hd⟩ := hm e found he
      have hshorter := hd.length_lt
      have hle := hc.length_le
      rw [walkFrom_of_search hsearch hc he hd, walkFrom_of_search hsearch hc he hd,
        ih n d (by omega) (by omega)]

/-- A match is the first hit, and the walk goes on where scanning resumes. -/
theorem Advances.hits_found (hm : matcher.Advances) {found : Match}
    (h : matcher.program.matchAt c = some found) (hd : matcher.Resumes found c d) :
    matcher.hits c = (found, d.offset) :: matcher.hits d := by
  rw [hits, walkFrom_of_search (Program.search_of_matchAt h) (.refl c) h hd,
    hm.walkFrom_eq_hits hd.length_lt]

/-- Where there is no match the next position is tried. -/
theorem Advances.hits_skip (hm : matcher.Advances) {x : Char} {rest : List Char}
    (h : matcher.program.matchAt c = none) (hrest : c.rest = x :: rest) :
    matcher.hits c = matcher.hits (c.advance x rest) := by
  have hsearch := Program.search_of_skip h hrest
  have hnext : c.Reaches (c.advance x rest) := ⟨[x], .advance hrest⟩
  have hlength : c.rest.length = (c.advance x rest).rest.length + 1 := by
    simp [hrest, Cursor.advance]
  have hwalk : matcher.walkFrom (c.rest.length + 1) (c.advance x rest) =
      matcher.hits (c.advance x rest) := hm.walkFrom_eq_hits (by omega)
  rw [hits, ← hwalk]
  cases hfound : matcher.program.search (c.advance x rest) with
  | none => rw [walkFrom, walkFrom, hsearch, hfound]
  | some found =>
    obtain ⟨e, he, hmatch⟩ := exists_matchAt_of_search hfound
    obtain ⟨d, hd⟩ := hm e found hmatch
    rw [walkFrom_of_search (hsearch.trans hfound) (hnext.trans he) hmatch hd,
      walkFrom_of_search hfound he hmatch hd]

/-- Text at no position of which something is matched is passed over. -/
theorem Advances.hits_skips (hm : matcher.Advances) {part : List Char} (hover : c.Over part d)
    (h : ∀ front back e, part = front ++ back → back ≠ [] → c.Over front e → e.Over back d →
      matcher.program.matchAt e = none) : matcher.hits c = matcher.hits d := by
  induction part generalizing c with
  | nil => rw [hover.eq_of_nil]
  | cons x part ih =>
    have hstep : c.Over [x] (c.advance x (part ++ d.rest)) := .advance hover.1
    rw [hm.hits_skip (h [] _ c rfl (List.cons_ne_nil x part) (.refl c) hover) hover.1]
    refine ih hover.of_cons ?_
    rintro front back e rfl hback hfront hlater
    exact h (x :: front) back e rfl hback (hstep.trans hfront) hlater

theorem hits_end (h : matcher.program.matchAt c = none) (hrest : c.rest = []) :
    matcher.hits c = [] := by
  rw [hits, walkFrom, Program.search_of_end h hrest]

/-- **Induction along a walk**: at the end of the text, over a position without a match, over a
match. -/
theorem Advances.hits_induction (hm : matcher.Advances)
    {motive : Cursor → List (Match × Nat) → Prop}
    (stop : ∀ c, matcher.program.matchAt c = none → c.rest = [] → motive c [])
    (skip : ∀ c x rest hits, matcher.program.matchAt c = none → c.rest = x :: rest →
      motive (c.advance x rest) hits → motive c hits)
    (found : ∀ c m d hits, matcher.program.matchAt c = some m → matcher.Resumes m c d →
      motive d hits → motive c ((m, d.offset) :: hits))
    (c : Cursor) : motive c (matcher.hits c) := by
  induction hlength : c.rest.length using Nat.strongRecOn generalizing c with
  | ind length ih =>
    cases hmatch : matcher.program.matchAt c with
    | some m =>
      obtain ⟨d, hd⟩ := hm c m hmatch
      rw [hm.hits_found hmatch hd]
      exact found c m d _ hmatch hd (ih _ (hlength ▸ hd.length_lt) d rfl)
    | none =>
      cases hrest : c.rest with
      | nil =>
        rw [hits_end hmatch hrest]
        exact stop c hmatch hrest
      | cons x rest =>
        rw [hm.hits_skip hmatch hrest]
        refine skip c x rest _ hmatch hrest (ih _ ?_ _ rfl)
        simp [← hlength, hrest, Cursor.advance]

/-- **What holds at every position that a walk tries** is said at the position of every hit. -/
theorem Advances.hits_invariant (hm : matcher.Advances) (inv : Cursor → Prop)
    (skip : ∀ c x rest, inv c → matcher.program.matchAt c = none → c.rest = x :: rest →
      inv (c.advance x rest))
    (found : ∀ c m d, inv c → matcher.program.matchAt c = some m → matcher.Resumes m c d → inv d)
    {c : Cursor} (hc : inv c) :
    ∀ entry ∈ matcher.hits c, ∃ e, c.Reaches e ∧ inv e ∧
      matcher.program.matchAt e = some entry.1 := by
  refine hm.hits_induction (motive := fun c hits => inv c → ∀ entry ∈ hits, ∃ e, c.Reaches e ∧
    inv e ∧ matcher.program.matchAt e = some entry.1) ?_ ?_ ?_ c hc
  · intro c _ _ _ entry hentry
    cases hentry
  · intro c x rest hits hmatch hrest ih hc entry hentry
    obtain ⟨e, he, hinv, hfound⟩ := ih (skip c x rest hc hmatch hrest) entry hentry
    exact ⟨e, Cursor.Reaches.trans ⟨[x], .advance hrest⟩ he, hinv, hfound⟩
  · intro c m d hits hmatch hd ih hc entry hentry
    rcases List.mem_cons.mp hentry with rfl | hmem
    · exact ⟨c, .refl c, hc, hmatch⟩
    · obtain ⟨e, he, hinv, hfound⟩ := ih (found c m d hc hmatch hd) entry hmem
      exact ⟨e, hd.reaches.trans he, hinv, hfound⟩

/-- **A walk cannot miss a match** at a position that no earlier match reaches over. -/
theorem Advances.mem_hits_of_isolated (hm : matcher.Advances) {c e : Cursor} (hc : c.Reaches e)
    {m : Match} (he : matcher.program.matchAt e = some m)
    (hisolated : ∀ b found d, c.Reaches b → b.Reaches e → b ≠ e →
      matcher.program.matchAt b = some found → matcher.Resumes found b d → d.Reaches e) :
    ∃ offset, (m, offset) ∈ matcher.hits c := by
  refine hm.hits_induction (motive := fun c hits => c.Reaches e →
    (∀ b found d, c.Reaches b → b.Reaches e → b ≠ e → matcher.program.matchAt b = some found →
      matcher.Resumes found b d → d.Reaches e) → ∃ offset, (m, offset) ∈ hits)
    ?_ ?_ ?_ c hc hisolated
  · intro c hmatch hrest hc _
    obtain rfl := hc.eq_of_rest_nil hrest
    rw [he] at hmatch
    cases hmatch
  · intro c x rest hits hmatch hrest ih hc hisolated
    have hne : c ≠ e := by
      rintro rfl
      rw [he] at hmatch
      cases hmatch
    have hnext : c.Reaches (c.advance x rest) := ⟨[x], .advance hrest⟩
    exact ih (hc.advance hne hrest) fun b found d hb => hisolated b found d (hnext.trans hb)
  · intro c found d hits hmatch hd ih hc hisolated
    by_cases hne : c = e
    · subst hne
      rw [he] at hmatch
      cases hmatch
      exact ⟨d.offset, List.mem_cons_self⟩
    · have hreaches := hisolated c found d (.refl c) hc hne hmatch hd
      obtain ⟨offset, hmem⟩ := ih hreaches fun b found d' hb =>
        hisolated b found d' (hd.reaches.trans hb)
      exact ⟨offset, List.mem_cons_of_mem _ hmem⟩

/-- Captures are read off the hits from the start of the text on. -/
theorem captureSpans_eq_hits (matcher : Matcher) (text : List Char) :
    matcher.captureSpans text =
      (matcher.hits (.start text)).filterMap fun entry => matcher.capture? entry.1 :=
  captureSpans_eq matcher text

def capturedFrom (matcher : Matcher) (text : List Char) (c : Cursor) : List (List Char) :=
  (matcher.hits c).filterMap fun entry => (matcher.capture? entry.1).bind (Span.slice? text)

theorem captured_eq_capturedFrom (matcher : Matcher) (text : List Char) :
    matcher.captured text = matcher.capturedFrom text (.start text) := by
  rw [captured_eq, captureSpans_eq_hits, List.filterMap_filterMap]
  rfl

/-- A match that reaches to the end of the text is the only one. -/
theorem Advances.captured_of_last (hm : matcher.Advances)
    {text front part : List Char} {d e f : Cursor} {found : Match}
    (hmatch : matcher.program.matchAt (.start text) = some found)
    (hresumes : matcher.Resumes found (.start text) d) (hend : d.rest = [])
    (hnone : matcher.program.matchAt d = none)
    (hcapture : matcher.capture? found = some ⟨e.offset, f.offset⟩)
    (hfront : (Cursor.start text).Over front e) (hpart : e.Over part f) :
    matcher.captured text = [part] := by
  have hslice : Span.slice? text ⟨e.offset, f.offset⟩ = some part := hpart.slice? ⟨_, hfront⟩
  rw [captured_eq, captureSpans_eq_hits, hm.hits_found hmatch hresumes, hits_end hnone hend]
  simp [hcapture, hslice]

/-! ### Evaluating a walk -/

/-- The matches from a position on, found by searching without marks. It makes at most as many steps
as the fuel allows. -/
def trace (matcher : Matcher) (p : Pattern) : Nat → Cursor → List Match
  | 0, _ => []
  | fuel + 1, c =>
    match p.find .stop c [] with
    | some (d, captures) =>
      ⟨⟨c.offset, d.offset⟩, captures⟩ ::
        match c.seek? (matcher.target ⟨⟨c.offset, d.offset⟩, captures⟩) with
        | some e => trace matcher p fuel e
        | none => []
    | none =>
      match c.rest with
      | x :: rest => trace matcher p fuel (c.advance x rest)
      | [] => []

/-- The hits can be computed by searching without marks. -/
theorem Advances.map_fst_hits (hm : matcher.Advances) {p : Pattern} (hp : p.proper = true)
    (hprogram : matcher.program = .ofPattern p) {fuel : Nat} (hfuel : c.rest.length < fuel) :
    (matcher.hits c).map Prod.fst = matcher.trace p fuel c := by
  have hfind : ∀ c, matcher.program.matchAt c =
      (p.find .stop c []).map fun found => ⟨⟨c.offset, found.1.offset⟩, found.2⟩ := by
    intro c
    rw [hprogram, Program.matchAt_eq_find hp]
  refine hm.hits_induction (motive := fun c hits => ∀ fuel, c.rest.length < fuel →
    hits.map Prod.fst = matcher.trace p fuel c) ?_ ?_ ?_ c fuel hfuel
  · intro c hnone hrest fuel hfuel
    obtain ⟨fuel, rfl⟩ := Nat.exists_eq_add_one_of_ne_zero (Nat.ne_of_gt (Nat.zero_lt_of_lt hfuel))
    rw [hfind, Option.map_eq_none_iff] at hnone
    rw [trace, hnone, hrest]
    rfl
  · intro c x rest hits hnone hrest ih fuel hfuel
    obtain ⟨fuel, rfl⟩ := Nat.exists_eq_add_one_of_ne_zero (Nat.ne_of_gt (Nat.zero_lt_of_lt hfuel))
    rw [hfind, Option.map_eq_none_iff] at hnone
    rw [trace, hnone, hrest]
    refine ih fuel ?_
    simp only [hrest, List.length_cons] at hfuel
    exact Nat.lt_of_succ_lt_succ hfuel
  · intro c m d hits hsome hresumes ih fuel hfuel
    obtain ⟨fuel, rfl⟩ := Nat.exists_eq_add_one_of_ne_zero (Nat.ne_of_gt (Nat.zero_lt_of_lt hfuel))
    rw [hfind] at hsome
    obtain ⟨⟨e, captures⟩, hfound, rfl⟩ := Option.map_eq_some_iff.mp hsome
    have hshorter := hresumes.length_lt
    rw [trace, hfound]
    simp only [hresumes.target, hresumes.reaches.seek?, List.map_cons]
    rw [ih fuel (by omega)]

/-- **The captures in a text can be computed.** -/
theorem Advances.captureSpans_eq_trace (hm : matcher.Advances) {p : Pattern} (hp : p.proper = true)
    (hprogram : matcher.program = .ofPattern p) (text : List Char) :
    matcher.captureSpans text =
      (matcher.trace p (text.length + 1) (.start text)).filterMap matcher.capture? := by
  have hwalk := hm.map_fst_hits (c := .start text) hp hprogram (Nat.lt_succ_self text.length)
  rw [captureSpans_eq_hits, ← hwalk, List.filterMap_map]
  rfl

/-! ### Rewriting on the way -/

/-- The text in which every capture is replaced by what `change` makes of it, if it changes it. -/
def rewrite (matcher : Matcher) (change : List Char → Option (List Char)) (text : List Char) :
    Spliced :=
  splice text <| (matcher.captureSpans text).filterMap fun s =>
    (s.slice? text).bind fun part => (change part).map (Edit.mk s)

/-- Replacing captures is rewriting them by what a lookup resolves. -/
theorem replaceCaptures_eq_rewrite (matcher : Matcher) (lookup : Lookup) (text : List Char) :
    matcher.replaceCaptures lookup text =
      matcher.rewrite (fun part => (lookup.get? part).map String.toList) text := by
  rw [replaceCaptures_eq, rewrite]
  refine congrArg (splice text) (List.filterMap_congr fun s _ => ?_)
  rw [Lookup.edit?, Lookup.resolve?, Option.map_bind]
  simp only [Option.map_map]
  rfl

/-- Replacing in regions is rewriting each region by what it becomes. -/
theorem replaceInRegions_eq_rewrite (inner : Matcher) (lookup : Lookup) (level : Matcher)
    (levels : List Matcher) (text : List Char) :
    (replaceInRegions inner lookup (level :: levels) text).2 =
      level.rewrite (fun region => (replaceInRegions inner lookup levels region).2.changed?)
        text := by
  rw [replaceInRegions_cons]
  rfl

/-- `matcher.Rewrites change c changed out`: if a walk from `c` on rewrites the captures it meets,
what is left of the text becomes `out`, and `changed` tells whether a capture was changed. -/
inductive Rewrites (matcher : Matcher) (change : List Char → Option (List Char)) :
    Cursor → Bool → List Char → Prop
  /-- The end of the text. -/
  | stop {c : Cursor} (ended : c.rest = []) (noMatch : matcher.program.matchAt c = none) :
      Rewrites matcher change c false []
  /-- No match begins here. -/
  | skip {c : Cursor} {x : Char} {rest out : List Char} {changed : Bool}
      (first : c.rest = x :: rest) (noMatch : matcher.program.matchAt c = none)
      (later : Rewrites matcher change (c.advance x rest) changed out) :
      Rewrites matcher change c changed (x :: out)
  /-- A match begins here that captures nothing. -/
  | pass {c d : Cursor} {found : Match} {part out : List Char} {changed : Bool}
      (matched : matcher.program.matchAt c = some found) (resumes : matcher.Resumes found c d)
      (nothing : matcher.capture? found = none) (stretch : c.Over part d)
      (later : Rewrites matcher change d changed out) :
      Rewrites matcher change c changed (part ++ out)
  /-- A match begins here that captures `part`. -/
  | hit {c d e f : Cursor} {found : Match} {front part back out : List Char} {changed : Bool}
      (matched : matcher.program.matchAt c = some found) (resumes : matcher.Resumes found c d)
      (capture : matcher.capture? found = some ⟨e.offset, f.offset⟩) (before : c.Over front e)
      (captured : e.Over part f) (behind : f.Over back d)
      (later : Rewrites matcher change d changed out) :
      Rewrites matcher change c ((change part).isSome || changed)
        (front ++ ((change part).getD part ++ (back ++ out)))

namespace Rewrites

variable {change : List Char → Option (List Char)} {changed : Bool} {out : List Char}

/-- Positions without a match may be skipped together. -/
theorem skips {part : List Char} (hover : c.Over part d)
    (hnone : ∀ front back e, part = front ++ back → back ≠ [] → c.Over front e →
      e.Over back d → matcher.program.matchAt e = none)
    (h : matcher.Rewrites change d changed out) :
    matcher.Rewrites change c changed (part ++ out) := by
  induction part generalizing c with
  | nil =>
    obtain rfl := hover.eq_of_nil
    exact h
  | cons x part ih =>
    have hrest : c.rest = x :: (part ++ d.rest) := hover.1
    have hnext := hover.of_cons
    refine .skip hrest (hnone [] (x :: part) c rfl (List.cons_ne_nil _ _) (.refl c) hover)
      (ih hnext ?_)
    rintro front back e rfl hback hfront hlater
    exact hnone (x :: front) back e rfl hback ((Cursor.Over.advance hrest).trans hfront) hlater

/-- The edits of a walk, spliced into what is left of the text and a stretch in front of it. -/
theorem spliceFrom_eq (hm : matcher.Advances) {text : List Char}
    (h : matcher.Rewrites change c changed out) (hc : (Cursor.start text).Reaches c) (base : Nat)
    (gap : List Char) (hbase : c.offset = base + byteSize gap) :
    ∃ applied, (applied = 0 ↔ changed = false) ∧
      spliceFrom base (gap ++ c.rest) ((matcher.hits c).filterMap fun entry =>
        (matcher.capture? entry.1).bind fun s => (s.slice? text).bind fun part =>
          (change part).map (Edit.mk s)) = ⟨applied, gap ++ out⟩ := by
  induction h generalizing base gap with
  | stop hrest hnone => exact ⟨0, by simp, by rw [hits_end hnone hrest, hrest]; rfl⟩
  | @skip c x rest out changed hrest hnone _ ih =>
    have hnext : c.Over [x] (c.advance x rest) := .advance hrest
    obtain ⟨applied, hchanged, hsplice⟩ := ih (hc.trans ⟨_, hnext⟩) base (gap ++ [x])
      (by rw [hnext.2.1, hbase, byteSize_append]; omega)
    refine ⟨applied, hchanged, ?_⟩
    rw [hm.hits_skip hnone hrest, hrest]
    simpa [Cursor.advance] using hsplice
  | @pass c d found part out changed hsome hd hnothing hover _ ih =>
    obtain ⟨applied, hchanged, hsplice⟩ := ih (hc.trans ⟨_, hover⟩) base (gap ++ part)
      (by rw [hover.2.1, hbase, byteSize_append]; omega)
    refine ⟨applied, hchanged, ?_⟩
    rw [hm.hits_found hsome hd, List.filterMap_cons_none (by simp [hnothing]), hover.1]
    simpa using hsplice
  | @hit c d e f found front part back out changed hsome hd hcapture hbefore hcaptured hbehind _
      ih =>
    have hslice := hcaptured.slice? (hc.trans ⟨_, hbefore⟩)
    have hreaches := hc.trans ⟨_, hbefore.trans (hcaptured.trans hbehind)⟩
    rw [hm.hits_found hsome hd, hbefore.1, hcaptured.1, hbehind.1]
    cases hchange : change part with
    | none =>
      obtain ⟨applied, hchanged, hsplice⟩ := ih hreaches base (gap ++ (front ++ (part ++ back)))
        (by rw [hbehind.2.1, hcaptured.2.1, hbefore.2.1, hbase]; simp only [byteSize_append]; omega)
      refine ⟨applied, hchanged, ?_⟩
      rw [List.filterMap_cons_none (by simp [hcapture, hslice, hchange])]
      simpa using hsplice
    | some new =>
      obtain ⟨applied, -, hsplice⟩ := ih hreaches f.offset back hbehind.2.1
      refine ⟨applied + 1, by simp, ?_⟩
      have hcut : (⟨e.offset, f.offset⟩ : Span).cut? base
          (gap ++ (front ++ (part ++ (back ++ d.rest)))) =
          some (gap ++ front, part, back ++ d.rest) := by
        refine Span.cut?_eq_some_iff.mpr ⟨by simp, ?_, hcaptured.2.1⟩
        rw [byteSize_append, ← Nat.add_assoc, ← hbase, ← hbefore.2.1]
      rw [List.filterMap_cons_some (b := ⟨⟨e.offset, f.offset⟩, new⟩)
        (by simp [hcapture, hslice, hchange]), spliceFrom, hcut]
      simp only [hsplice]
      simp

/-- **Rewriting the captures of a text comes to what the walk makes of it.** -/
theorem exists_rewrite_eq (hm : matcher.Advances) {text : List Char}
    (h : matcher.Rewrites change (.start text) changed out) :
    ∃ applied, (applied = 0 ↔ changed = false) ∧ matcher.rewrite change text = ⟨applied, out⟩ := by
  obtain ⟨applied, hchanged, hsplice⟩ := spliceFrom_eq hm h (.refl _) 0 [] rfl
  refine ⟨applied, hchanged, ?_⟩
  rw [rewrite, splice, captureSpans_eq_hits, List.filterMap_filterMap]
  exact hsplice

/-- The text that a walk makes is handed on only if something changed. -/
theorem changed?_rewrite (hm : matcher.Advances) {text : List Char}
    (h : matcher.Rewrites change (.start text) changed out) :
    (matcher.rewrite change text).changed? = if changed then some out else none := by
  obtain ⟨applied, hchanged, hrewrite⟩ := h.exists_rewrite_eq hm
  rw [hrewrite, Spliced.changed?]
  cases changed with
  | false => rw [if_pos (hchanged.mpr rfl), if_neg Bool.false_ne_true]
  | true => rw [if_neg fun hzero => by simp [hchanged] at hzero, if_pos rfl]

/-- **What a walk leaves unchanged**: if no capture is changed, none of them would be. -/
theorem change_eq_none (hm : matcher.Advances) {text : List Char}
    (h : matcher.Rewrites change (.start text) false out) :
    ∀ part ∈ matcher.captured text, change part = none := by
  suffices hhits : ∀ c changed out, matcher.Rewrites change c changed out → changed = false →
      (Cursor.start text).Reaches c → ∀ entry ∈ matcher.hits c, ∀ span,
        matcher.capture? entry.1 = some span → ∀ part, span.slice? text = some part →
          change part = none by
    intro part hpart
    rw [captured_eq, captureSpans_eq_hits, List.filterMap_filterMap] at hpart
    obtain ⟨entry, hentry, hslice⟩ := List.mem_filterMap.mp hpart
    obtain ⟨span, hspan, hslice⟩ := Option.bind_eq_some_iff.mp hslice
    exact hhits _ _ _ h rfl (.refl _) entry hentry span hspan part hslice
  intro c changed out h
  induction h with
  | stop hrest hnone =>
    intro _ _ entry hentry
    rw [hits_end hnone hrest] at hentry
    cases hentry
  | @skip c x rest out changed hrest hnone _ ih =>
    intro hchanged hc entry hentry
    rw [hm.hits_skip hnone hrest] at hentry
    exact ih hchanged (hc.trans ⟨_, .advance hrest⟩) entry hentry
  | @pass c d found part out changed hsome hd hnothing hover _ ih =>
    intro hchanged hc entry hentry
    rw [hm.hits_found hsome hd] at hentry
    rcases List.mem_cons.mp hentry with rfl | hlater
    · intro span hspan
      rw [hnothing] at hspan
      cases hspan
    · exact ih hchanged (hc.trans ⟨_, hover⟩) entry hlater
  | @hit c d e f found front part back out changed hsome hd hcapture hbefore hcaptured hbehind _
      ih =>
    intro hchanged hc entry hentry
    rw [Bool.or_eq_false_iff, Option.isSome_eq_false_iff, Option.isNone_iff_eq_none] at hchanged
    rw [hm.hits_found hsome hd] at hentry
    rcases List.mem_cons.mp hentry with rfl | hlater
    · intro span hspan other hslice
      rw [hcapture] at hspan
      cases hspan
      rw [hcaptured.slice? (hc.trans ⟨_, hbefore⟩)] at hslice
      cases hslice
      exact hchanged.1
    · exact ih hchanged.2 (hc.trans ⟨_, hbefore.trans (hcaptured.trans hbehind)⟩) entry hlater

end Rewrites

end Matcher

end Relabel
