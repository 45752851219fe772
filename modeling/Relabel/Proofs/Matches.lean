import Relabel.Pattern.Search
import Relabel.Proofs.Patched

/-!
# What a pattern matches

`Pattern.Matches` says declaratively which stretches of a text a pattern matches and what its groups
record on the way. It knows nothing of preferences, guards, marks and fuel: a pattern matches in
many ways, and a search picks one of them. `Program.search_sound` says that it picks no other.
-/

namespace Relabel

namespace Cursor

/-- `c.Over part d`: reading `part` leads from the position `c` to the position `d`. -/
def Over (c : Cursor) (part : List Char) (d : Cursor) : Prop :=
  c.rest = part ++ d.rest ∧ d.offset = c.offset + byteSize part ∧
    d.before = part.getLast?.or c.before

/-- `c.Reaches d`: the position `d` is `c` or lies behind it in the same text. -/
def Reaches (c d : Cursor) : Prop :=
  ∃ part, c.Over part d

theorem Over.refl (c : Cursor) : c.Over [] c :=
  ⟨rfl, rfl, rfl⟩

/-- Stretches of text are put together. -/
theorem Over.trans {c d e : Cursor} {part part' : List Char} (h : c.Over part d)
    (h' : d.Over part' e) : c.Over (part ++ part') e := by
  obtain ⟨hrest, hoffset, hbefore⟩ := h
  obtain ⟨hrest', hoffset', hbefore'⟩ := h'
  refine ⟨by rw [hrest, hrest', List.append_assoc], ?_, ?_⟩
  · rw [hoffset', hoffset, byteSize_append, Nat.add_assoc]
  · rw [hbefore', hbefore, List.getLast?_append, Option.or_assoc]

theorem Over.advance {c : Cursor} {next : Char} {rest : List Char} (h : c.rest = next :: rest) :
    c.Over [next] (c.advance next rest) :=
  ⟨h, rfl, rfl⟩

theorem Reaches.refl (c : Cursor) : c.Reaches c :=
  ⟨[], .refl c⟩

theorem Reaches.trans {c d e : Cursor} (h : c.Reaches d) (h' : d.Reaches e) : c.Reaches e := by
  obtain ⟨part, hpart⟩ := h
  obtain ⟨part', hpart'⟩ := h'
  exact ⟨part ++ part', hpart.trans hpart'⟩

theorem Reaches.offset_le {c d : Cursor} (h : c.Reaches d) : c.offset ≤ d.offset := by
  obtain ⟨part, -, hoffset, -⟩ := h
  omega

/-- Seeking finds the position with the offset asked for, and no other. -/
theorem seekFrom?_reaches {target offset : Nat} {before : Option Char} {rest : List Char}
    {d : Cursor} (h : seekFrom? target offset before rest = some d) :
    (⟨offset, before, rest⟩ : Cursor).Reaches d ∧ d.offset = target := by
  induction rest generalizing offset before with
  | nil =>
    rw [seekFrom?] at h
    split at h
    · rename_i hoffset
      cases h
      exact ⟨.refl _, hoffset⟩
    · cases h
  | cons c rest ih =>
    rw [seekFrom?] at h
    split at h
    · rename_i hoffset
      cases h
      exact ⟨.refl _, hoffset⟩
    · obtain ⟨hreaches, htarget⟩ := ih h
      have hnext : (⟨offset, before, c :: rest⟩ : Cursor).Reaches
          ⟨offset + c.utf8Size, some c, rest⟩ := ⟨[c], .advance rfl⟩
      exact ⟨hnext.trans hreaches, htarget⟩

/-- Seeking leads to a position with the offset that was sought. -/
theorem seek?_reaches {c d : Cursor} {target : Nat} (h : c.seek? target = some d) :
    c.Reaches d ∧ d.offset = target :=
  seekFrom?_reaches h

/-- A stretch of text can be cut anywhere. -/
theorem Over.split {c d : Cursor} {front back : List Char} (h : c.Over (front ++ back) d) :
    ∃ e, c.Over front e ∧ e.Over back d := by
  obtain ⟨hrest, hoffset, hbefore⟩ := h
  refine ⟨⟨c.offset + byteSize front, front.getLast?.or c.before, back ++ d.rest⟩,
    ⟨by rw [hrest, List.append_assoc], rfl, rfl⟩, rfl, ?_, ?_⟩
  · rw [hoffset, byteSize_append, Nat.add_assoc]
  · rw [hbefore, List.getLast?_append, Option.or_assoc]

/-- Text in front of a position leads to another position. -/
theorem exists_over {c : Cursor} {part rest : List Char} (h : c.rest = part ++ rest) :
    ∃ d, c.Over part d ∧ d.rest = rest :=
  ⟨⟨c.offset + byteSize part, part.getLast?.or c.before, rest⟩, ⟨h, rfl, rfl⟩, rfl⟩

/-- The same text leads to the same position. -/
theorem Over.unique {c d e : Cursor} {part : List Char} (h : c.Over part d) (h' : c.Over part e) :
    d = e := by
  obtain ⟨hrest, hoffset, hbefore⟩ := h
  obtain ⟨hrest', hoffset', hbefore'⟩ := h'
  obtain ⟨offset, before, rest⟩ := d
  obtain ⟨offset', before', rest'⟩ := e
  obtain rfl : rest = rest' := List.append_cancel_left (hrest.symm.trans hrest')
  simp_all

/-- Two positions with the same text behind them are the same position. -/
theorem Over.eq_of_rest_eq {c d e : Cursor} {part part' : List Char} (h : c.Over part d)
    (h' : c.Over part' e) (hrest : d.rest = e.rest) : d = e := by
  have heq : part ++ d.rest = part' ++ d.rest := by
    rw [← h.1, h'.1, hrest]
  obtain rfl := List.append_cancel_right heq
  exact h.unique h'

/-- Reading something leads behind the position. -/
theorem Over.offset_lt {c d : Cursor} {part : List Char} (h : c.Over part d) (hpart : part ≠ []) :
    c.offset < d.offset := by
  have hsize : byteSize part ≠ 0 := fun h => hpart (byteSize_eq_zero_iff.mp h)
  have := h.2.1
  omega

theorem Over.eq_of_nil {c d : Cursor} (h : c.Over [] d) : d = c := by
  obtain ⟨hrest, hoffset, hbefore⟩ := h
  obtain ⟨offset, before, rest⟩ := c
  obtain ⟨offset', before', rest'⟩ := d
  simp_all [byteSize]

/-- What lies behind the first character of a stretch. -/
theorem Over.of_cons {c d : Cursor} {x : Char} {part : List Char} (h : c.Over (x :: part) d) :
    (c.advance x (part ++ d.rest)).Over part d := by
  obtain ⟨-, hoffset, hbefore⟩ := h
  refine ⟨rfl, ?_, ?_⟩
  · rw [hoffset, byteSize, ← Nat.add_assoc]
    rfl
  · rw [hbefore]
    cases part with
    | nil => rfl
    | cons y part => simp [List.getLast?_cons]

/-- Of two positions, the one is at or behind the other or lies inside what leads to the other. -/
theorem Over.reaches_or {c d e : Cursor} {part : List Char} (hd : c.Over part d)
    (he : c.Reaches e) : d.Reaches e ∨
      ∃ front back, part = front ++ back ∧ back ≠ [] ∧ c.Over front e ∧ e.Over back d := by
  obtain ⟨part', he⟩ := he
  rcases List.append_eq_append_iff.mp (hd.1.symm.trans he.1) with ⟨more, rfl, -⟩ | ⟨back, rfl, -⟩
  · obtain ⟨d', hd', hmore⟩ := he.split
    obtain rfl := hd.unique hd'
    exact .inl ⟨more, hmore⟩
  · obtain ⟨e', he', hback⟩ := hd.split
    obtain rfl := he.unique he'
    by_cases hnil : back = []
    · subst hnil
      obtain rfl := hback.eq_of_nil
      exact .inl (.refl _)
    · exact .inr ⟨part', back, rfl, hnil, he, hback⟩

/-- Seeking finds every position at or behind the one it starts from. -/
theorem Reaches.seek? {c d : Cursor} (h : c.Reaches d) : c.seek? d.offset = some d := by
  obtain ⟨part, hpart⟩ := h
  obtain ⟨offset, before, rest⟩ := c
  induction part generalizing offset before rest with
  | nil =>
    obtain rfl := hpart.eq_of_nil
    cases rest <;> simp [Cursor.seek?, seekFrom?]
  | cons x part ih =>
    have hne : offset ≠ d.offset := Nat.ne_of_lt (hpart.offset_lt (List.cons_ne_nil x part))
    obtain rfl : rest = x :: (part ++ d.rest) := hpart.1
    rw [Cursor.seek?, seekFrom?, if_neg hne]
    exact ih _ _ _ hpart.of_cons

/-- Further on in a text there is less to come. -/
theorem Reaches.length_lt {c d : Cursor} (h : c.Reaches d) (hlt : c.offset < d.offset) :
    d.rest.length < c.rest.length := by
  obtain ⟨part, hrest, hoffset, -⟩ := h
  have hpart : part ≠ [] := by
    rintro rfl
    simp only [byteSize] at hoffset
    omega
  have := List.length_pos_iff.mpr hpart
  rw [hrest, List.length_append]
  omega

theorem Reaches.eq_of_rest_nil {c d : Cursor} (h : c.Reaches d) (hrest : c.rest = []) : d = c := by
  obtain ⟨part, hpart⟩ := h
  obtain rfl : part = [] := (List.append_eq_nil_iff.mp (hpart.1.symm.trans hrest)).1
  exact hpart.eq_of_nil

/-- A position further on is at or behind the next one. -/
theorem Reaches.advance {c d : Cursor} (h : c.Reaches d) (hne : c ≠ d) {x : Char}
    {rest : List Char} (hrest : c.rest = x :: rest) : (c.advance x rest).Reaches d := by
  obtain ⟨part, hpart⟩ := h
  cases part with
  | nil => exact absurd hpart.eq_of_nil.symm hne
  | cons y part =>
    obtain ⟨rfl, rfl⟩ := List.cons.inj (hrest.symm.trans hpart.1)
    exact ⟨part, hpart.of_cons⟩

/-- Two positions of one text with the same offset are the same position. -/
theorem Reaches.eq_of_offset_eq {o c d : Cursor} (hc : o.Reaches c) (hd : o.Reaches d)
    (h : c.offset = d.offset) : c = d := by
  obtain ⟨part, hrest, hoffset, hbefore⟩ := hc
  obtain ⟨part', hrest', hoffset', hbefore'⟩ := hd
  have hcut : splitBytes? (byteSize part) o.rest = some (part, c.rest) :=
    splitBytes?_eq_some_iff.mpr ⟨hrest, rfl⟩
  have hcut' : splitBytes? (byteSize part) o.rest = some (part', d.rest) :=
    splitBytes?_eq_some_iff.mpr ⟨hrest', by omega⟩
  obtain ⟨rfl, hsame⟩ := Prod.mk.inj (Option.some.inj (hcut.symm.trans hcut'))
  obtain ⟨offset, before, rest⟩ := c
  obtain ⟨offset', before', rest'⟩ := d
  simp_all

theorem Reaches.length_le {c d : Cursor} (h : c.Reaches d) : d.rest.length ≤ c.rest.length := by
  obtain ⟨part, hrest, -⟩ := h
  rw [hrest, List.length_append]
  omega

end Cursor

/-- So many steps of one kind in a row. Captures are listed latest first. -/
def Copies (one : Cursor → Cursor → Captures → Prop) : Nat → Cursor → Cursor → Captures → Prop
  | 0, c, d, new => d = c ∧ new = []
  | n + 1, c, d, new =>
    ∃ e first others, one c e first ∧ Copies one n e d others ∧ new = others ++ first

/-- Steps in a row are put together. -/
theorem Copies.add {one : Cursor → Cursor → Captures → Prop} {m n : Nat} {c d e : Cursor}
    {new new' : Captures} (h : Copies one m c d new) (h' : Copies one n d e new') :
    Copies one (m + n) c e (new' ++ new) := by
  induction m generalizing c new with
  | zero =>
    obtain ⟨rfl, rfl⟩ := h
    simpa using h'
  | succ m ih =>
    obtain ⟨b, first, others, hone, hcopies, rfl⟩ := h
    rw [Nat.succ_add]
    exact ⟨b, first, new' ++ others, hone, ih hcopies, by simp⟩

namespace Pattern

/-- `p.Matches c d new`: the pattern matches what lies between two positions of a text, and its
groups record `new` on the way, latest first. -/
def Matches : Pattern → Cursor → Cursor → Captures → Prop
  | .empty, c, d, new => d = c ∧ new = []
  | .set s, c, d, new =>
    ∃ next rest, c.rest = next :: rest ∧ s.contains next = true ∧ d = c.advance next rest ∧ new = []
  | .look l, c, d, new => l.holds c.before c.rest.head? = true ∧ d = c ∧ new = []
  | .seq a b, c, d, new =>
    ∃ e first second, a.Matches c e first ∧ b.Matches e d second ∧ new = second ++ first
  | .alt a b, c, d, new => a.Matches c d new ∨ b.Matches c d new
  | .group index _ a, c, d, new =>
    ∃ inner, a.Matches c d inner ∧ new = (index, ⟨c.offset, d.offset⟩) :: inner
  | .repeated min max _ a, c, d, new =>
    ∃ n, min ≤ n ∧ (∀ m, max = some m → n ≤ min ∨ n ≤ m) ∧ Copies a.Matches n c d new

end Pattern

/-! ### A run goes along a match -/

namespace Guard

/-- What comes out of a guarded run comes out of the run, for some marks. -/
theorem visit_some {guard : Guard} {offset : Nat} {run : Marks → Outcome} {marks : Marks}
    {found : Cursor × Captures} (h : (guard.visit offset run marks).1 = some found) :
    ∃ marks, (run marks).1 = some found := by
  cases guard with
  | memo id =>
    simp only [visit] at h
    split at h
    · cases h
    · split at h
      · rename_i hrun
        exact ⟨marks, by rw [hrun]; exact h⟩
      · cases h
  | once id =>
    simp only [visit] at h
    split at h
    · cases h
    · exact ⟨_, h⟩

end Guard

/-- An outcome is that of the first run or, if that failed, of the second. -/
theorem Outcome.orElse_some {first : Outcome} {second : Marks → Outcome}
    {found : Cursor × Captures} (h : (first.orElse second).1 = some found) :
    first.1 = some found ∨ ∃ marks, (second marks).1 = some found := by
  unfold orElse at h
  split at h
  · exact .inl h
  · exact .inr ⟨_, h⟩

namespace Program

/-- `program.Along way`: whenever a run of the program and then of some rest succeeds, it comes to
the rest by going one of the ways of `way`, and the rest succeeds from there. -/
def Along (program : Program) (way : Cursor → Cursor → Captures → Prop) : Prop :=
  ∀ ⦃fuel : Nat⦄ ⦃rest : Rest⦄ ⦃c : Cursor⦄ ⦃captures : Captures⦄ ⦃marks : Marks⦄
    ⦃found : Cursor × Captures⦄, (program.run fuel rest c captures marks).1 = some found →
    ∃ d new marks, way c d new ∧ (rest d (new ++ captures) marks).1 = some found

theorem Along.mono {program : Program} {way way' : Cursor → Cursor → Captures → Prop}
    (h : program.Along way) (hway : ∀ c d new, way c d new → way' c d new) :
    program.Along way' := by
  intro fuel rest c captures marks found hrun
  obtain ⟨d, new, marks', hnew, hrest⟩ := h hrun
  exact ⟨d, new, marks', hway _ _ _ hnew, hrest⟩

theorem along_empty : Along .empty (Pattern.Matches .empty) := by
  intro fuel rest c captures marks found hrun
  exact ⟨c, [], marks, ⟨rfl, rfl⟩, hrun⟩

theorem along_set (s : CharSet) : Along (.set s) (Pattern.Matches (.set s)) := by
  intro fuel rest c captures marks found hrun
  simp only [run] at hrun
  split at hrun
  · rename_i next text htext
    split at hrun
    · rename_i hnext
      exact ⟨_, [], marks, ⟨next, text, htext, hnext, rfl, rfl⟩, hrun⟩
    · cases hrun
  · cases hrun

theorem along_look (l : Look) : Along (.look l) (Pattern.Matches (.look l)) := by
  intro fuel rest c captures marks found hrun
  simp only [run] at hrun
  split at hrun
  · rename_i hholds
    exact ⟨c, [], marks, ⟨hholds, rfl, rfl⟩, hrun⟩
  · cases hrun

/-- Two programs in a row go one way and then another. -/
theorem Along.seq {a b : Program} {way way' : Cursor → Cursor → Captures → Prop}
    (ha : a.Along way) (hb : b.Along way') :
    (Program.seq a b).Along fun c d new =>
      ∃ e first second, way c e first ∧ way' e d second ∧ new = second ++ first := by
  intro fuel rest c captures marks found hrun
  obtain ⟨e, first, marks', hfirst, hrun'⟩ := ha hrun
  obtain ⟨d, second, marks'', hsecond, hrest⟩ := hb hrun'
  refine ⟨d, second ++ first, marks'', ⟨e, first, second, hfirst, hsecond, rfl⟩, ?_⟩
  rwa [List.append_assoc]

/-- A choice goes one of two ways. -/
theorem Along.alt {a b : Program} {way way' : Cursor → Cursor → Captures → Prop} (guard : Guard)
    (ha : a.Along way) (hb : b.Along way') :
    (Program.alt guard a b).Along fun c d new => way c d new ∨ way' c d new := by
  intro fuel rest c captures marks found hrun
  obtain ⟨marks', hrun'⟩ := Guard.visit_some hrun
  rcases Outcome.orElse_some hrun' with hleft | ⟨marks'', hright⟩
  · obtain ⟨d, new, marks₁, hway, hrest⟩ := ha hleft
    exact ⟨d, new, marks₁, .inl hway, hrest⟩
  · obtain ⟨d, new, marks₁, hway, hrest⟩ := hb hright
    exact ⟨d, new, marks₁, .inr hway, hrest⟩

/-- A group goes the way of its body, and records it. -/
theorem Along.group {a : Program} {way : Cursor → Cursor → Captures → Prop} (index : Nat)
    (ha : a.Along way) :
    (Program.group index a).Along fun c d new =>
      ∃ inner, way c d inner ∧ new = (index, ⟨c.offset, d.offset⟩) :: inner := by
  intro fuel rest c captures marks found hrun
  obtain ⟨d, inner, marks', hway, hrest⟩ := ha hrun
  exact ⟨d, _, marks', ⟨inner, hway, rfl⟩, hrest⟩

/-- A loop goes along any number of turns. The induction is on the fuel, which bounds the turns. -/
theorem Along.loop {a : Program} {way : Cursor → Cursor → Captures → Prop} (guard : Guard)
    (greedy : Bool) (ha : a.Along way) :
    (Program.loop guard greedy a).Along fun c d new => ∃ n, Copies way n c d new := by
  intro fuel rest c captures marks found hrun
  rw [run] at hrun
  suffices hturns : ∀ (n : Nat) (c : Cursor) (captures : Captures) (marks : Marks),
      (turns (a.run fuel) guard greedy rest n c captures marks).1 = some found →
      ∃ d new marks, (∃ n, Copies way n c d new) ∧
        (rest d (new ++ captures) marks).1 = some found from
    hturns fuel c captures marks hrun
  intro n
  induction n with
  | zero =>
    intro c captures marks hrun
    cases hrun
  | succ n ih =>
    intro c captures marks hrun
    have hagain : ∀ {marks}, (a.run fuel (turns (a.run fuel) guard greedy rest n) c captures
        marks).1 = some found → ∃ d new marks, (∃ n, Copies way n c d new) ∧
          (rest d (new ++ captures) marks).1 = some found := by
      intro marks hrun
      obtain ⟨e, first, marks', hfirst, hrun'⟩ := ha hrun
      obtain ⟨d, others, marks'', ⟨m, hothers⟩, hrest⟩ := ih _ _ _ hrun'
      refine ⟨d, others ++ first, marks'', ⟨m + 1, e, first, others, hfirst, hothers, rfl⟩, ?_⟩
      rwa [List.append_assoc]
    have hleave : ∀ {marks}, (rest c captures marks).1 = some found →
        ∃ d new marks, (∃ n, Copies way n c d new) ∧
          (rest d (new ++ captures) marks).1 = some found := by
      intro marks hrest
      exact ⟨c, [], marks, ⟨0, rfl, rfl⟩, hrest⟩
    obtain ⟨marks', hrun'⟩ := Guard.visit_some hrun
    cases greedy with
    | true =>
      rcases Outcome.orElse_some hrun' with h | ⟨marks'', h⟩
      · exact hagain h
      · exact hleave h
    | false =>
      rcases Outcome.orElse_some hrun' with h | ⟨marks'', h⟩
      · exact hleave h
      · exact hagain h

theorem Along.optional {a : Program} {way : Cursor → Cursor → Captures → Prop} (guard : Guard)
    (greedy : Bool) (ha : a.Along way) :
    (Program.optional guard greedy a).Along fun c d new =>
      way c d new ∨ (d = c ∧ new = []) := by
  unfold Program.optional
  cases greedy with
  | true => exact ha.alt guard along_empty
  | false => exact (along_empty.alt guard ha).mono fun _ _ _ h => h.symm

/-- Copies go as many ways in a row, and then that of the tail. -/
theorem Along.copies {build : StateM Nat Program} {tail : Program}
    {way way' : Cursor → Cursor → Captures → Prop}
    (hbuild : ∀ id, (build.run id).1.Along way) (htail : tail.Along way') (n id : Nat) :
    ((Program.copies build tail n).run id).1.Along fun c d new =>
      ∃ e first others, Copies way n c e first ∧ way' e d others ∧ new = others ++ first := by
  induction n generalizing id with
  | zero =>
    refine htail.mono fun c d new h => ⟨c, [], new, ⟨rfl, rfl⟩, h, ?_⟩
    simp
  | succ n ih =>
    refine ((hbuild id).seq (ih (build.run id).2)).mono ?_
    rintro c d new ⟨b, first, later, hfirst, ⟨e, copies, others, hcopies, hothers, rfl⟩, rfl⟩
    exact ⟨e, copies ++ first, others, ⟨b, first, copies, hfirst, hcopies, rfl⟩, hothers, by simp⟩

/-- Optional copies go up to as many ways in a row. -/
theorem Along.optionalCopies {build : StateM Nat Program}
    {way : Cursor → Cursor → Captures → Prop} (hbuild : ∀ id, (build.run id).1.Along way)
    (looping greedy : Bool) (n id : Nat) :
    ((Program.optionalCopies build looping greedy n).run id).1.Along fun c d new =>
      ∃ m ≤ n, Copies way m c d new := by
  induction n generalizing id with
  | zero => exact along_empty.mono fun c d new h => ⟨0, Nat.le_refl 0, h⟩
  | succ n ih =>
    refine (Along.optional _ greedy ((hbuild (id + 1)).seq (ih (build.run (id + 1)).2))).mono ?_
    rintro c d new (⟨e, first, others, hfirst, ⟨m, hm, hothers⟩, rfl⟩ | h)
    · exact ⟨m + 1, Nat.succ_le_succ hm, e, first, others, hfirst, hothers, rfl⟩
    · exact ⟨0, Nat.zero_le _, h⟩

/-- **A run of the program of a pattern goes along a match of the pattern.** -/
theorem build_along (looping : Bool) (p : Pattern) (id : Nat) :
    (((build looping p).run id).1).Along p.Matches := by
  induction p generalizing looping id with
  | empty => exact along_empty
  | set s => exact along_set s
  | look l => exact along_look l
  | seq a b iha ihb => exact (iha looping id).seq (ihb looping _)
  | alt a b iha ihb => exact (iha looping (id + 1)).alt _ (ihb looping _)
  | group index name a iha => exact (iha looping id).group index
  | repeated min max greedy a iha =>
    cases max with
    | some max =>
      refine (Along.copies (iha looping)
        (Along.optionalCopies (iha looping) looping greedy (max - min) id) min _).mono ?_
      rintro c d new ⟨e, first, others, hfirst, ⟨m, hm, hothers⟩, rfl⟩
      refine ⟨min + m, Nat.le_add_right _ _, ?_, hfirst.add hothers⟩
      intro max' hmax
      cases hmax
      omega
    | none =>
      cases min with
      | zero =>
        rw [build]
        by_cases hnullable : a.nullable = true
        · simp only [hnullable, if_true]
          refine (Along.optional _ greedy ((iha true (id + 2)).seq
            ((iha true (id + 2)).loop _ greedy))).mono ?_
          rintro c d new (⟨e, first, others, hfirst, ⟨m, hothers⟩, rfl⟩ | h)
          · exact ⟨m + 1, Nat.zero_le _, by simp, e, first, others, hfirst, hothers, rfl⟩
          · exact ⟨0, Nat.le_refl _, by simp, h⟩
        · simp only [hnullable]
          refine ((iha looping (id + 1)).loop _ greedy).mono ?_
          rintro c d new ⟨m, h⟩
          exact ⟨m, Nat.zero_le _, by simp, h⟩
      | succ n =>
        refine (Along.copies (iha looping) ((iha (looping || a.nullable) (id + 1)).seq
          ((iha (looping || a.nullable) (id + 1)).loop _ greedy)) n _).mono ?_
        rintro c d new ⟨e, first, others, hfirst, ⟨b, turn, turns, hturn, ⟨m, hturns⟩, rfl⟩, rfl⟩
        refine ⟨n + (m + 1), by omega, by simp, hfirst.add ?_⟩
        exact ⟨b, turn, turns, hturn, hturns, rfl⟩

/-- **What is found at a position is a match there.** -/
theorem matchAt_sound {p : Pattern} {c : Cursor} {found : Match}
    (h : (ofPattern p).matchAt c = some found) :
    ∃ d, p.Matches c d found.captures ∧ found.span = ⟨c.offset, d.offset⟩ := by
  unfold matchAt at h
  simp only at h
  split at h
  · rename_i d captures hrun
    cases h
    obtain ⟨d', new, marks, hmatches, hstop⟩ := build_along false p 0 hrun
    simp only [List.append_nil, Option.some.injEq, Prod.mk.injEq] at hstop
    obtain ⟨rfl, rfl⟩ := hstop
    exact ⟨d', hmatches, rfl⟩
  · cases h

theorem searchFrom_sound {p : Pattern} {offset : Nat} {before : Option Char} {rest : List Char}
    {found : Match} (h : (ofPattern p).searchFrom offset before rest = some found) :
    ∃ e d, (⟨offset, before, rest⟩ : Cursor).Reaches e ∧ p.Matches e d found.captures ∧
      found.span = ⟨e.offset, d.offset⟩ := by
  induction rest generalizing offset before with
  | nil =>
    obtain ⟨d, hmatches, hspan⟩ := matchAt_sound h
    exact ⟨_, d, .refl _, hmatches, hspan⟩
  | cons c rest ih =>
    rw [searchFrom] at h
    split at h
    · rename_i here hmatch
      cases h
      obtain ⟨d, hmatches, hspan⟩ := matchAt_sound hmatch
      exact ⟨_, d, .refl _, hmatches, hspan⟩
    · obtain ⟨e, d, hreaches, hmatches, hspan⟩ := ih h
      have hnext : (⟨offset, before, c :: rest⟩ : Cursor).Reaches
          ⟨offset + c.utf8Size, some c, rest⟩ := ⟨[c], .advance rfl⟩
      exact ⟨e, d, hnext.trans hreaches, hmatches, hspan⟩

/-- **A search finds matches only**, at or behind the position it starts from. -/
theorem search_sound {p : Pattern} {c : Cursor} {found : Match}
    (h : (ofPattern p).search c = some found) :
    ∃ e d, c.Reaches e ∧ p.Matches e d found.captures ∧ found.span = ⟨e.offset, d.offset⟩ :=
  searchFrom_sound h

end Program

/-! ### What a match records -/

namespace Pattern

/-- The groups of a pattern with their bodies, from left to right. -/
def nodes : Pattern → List (Nat × Option (List Char) × Pattern)
  | .empty => []
  | .set _ => []
  | .look _ => []
  | .seq a b => a.nodes ++ b.nodes
  | .alt a b => a.nodes ++ b.nodes
  | .group index name a => (index, name, a) :: a.nodes
  | .repeated _ _ _ a => a.nodes

theorem groups_eq_map_nodes (p : Pattern) :
    p.groups = p.nodes.map fun node => (node.1, node.2.1) := by
  induction p with
  | empty => rfl
  | set s => rfl
  | look l => rfl
  | seq a b iha ihb => simp [groups, nodes, iha, ihb]
  | alt a b iha ihb => simp [groups, nodes, iha, ihb]
  | group index name a iha => simp [groups, nodes, iha]
  | repeated min max greedy a iha => simp [groups, nodes, iha]

end Pattern

/-- What holds of every step and of standing still, and passes from two stretches of steps to the
whole, holds of any number of steps. -/
theorem Copies.lift {one : Cursor → Cursor → Captures → Prop}
    {motive : Cursor → Cursor → Captures → Prop} (none : ∀ c, motive c c [])
    (more : ∀ c e d first others, one c e first → motive e d others → motive c d (others ++ first))
    {n : Nat} {c d : Cursor} {new : Captures} (h : Copies one n c d new) : motive c d new := by
  induction n generalizing c new with
  | zero =>
    obtain ⟨rfl, rfl⟩ := h
    exact none _
  | succ n ih =>
    obtain ⟨e, first, others, hfirst, hothers, rfl⟩ := h
    exact more c e d first others hfirst (ih hothers)

namespace Pattern

/-- A match leads forward only. -/
theorem Matches.reaches {p : Pattern} {c d : Cursor} {new : Captures} (h : p.Matches c d new) :
    c.Reaches d := by
  induction p generalizing c d new with
  | empty =>
    obtain ⟨rfl, -⟩ := h
    exact .refl _
  | set s =>
    obtain ⟨next, rest, hrest, -, rfl, -⟩ := h
    exact ⟨[next], .advance hrest⟩
  | look l =>
    obtain ⟨-, rfl, -⟩ := h
    exact .refl _
  | seq a b iha ihb =>
    obtain ⟨e, first, second, hfirst, hsecond, -⟩ := h
    exact (iha hfirst).trans (ihb hsecond)
  | alt a b iha ihb =>
    rcases h with h | h
    · exact iha h
    · exact ihb h
  | group index name a iha =>
    obtain ⟨inner, hinner, -⟩ := h
    exact iha hinner
  | repeated min max greedy a iha =>
    obtain ⟨n, -, -, hcopies⟩ := h
    refine hcopies.lift (motive := fun c d _ => c.Reaches d) (fun c => .refl c) ?_
    intro c e d first others hfirst hothers
    exact (iha hfirst).trans hothers

/-- `p.Records c d entry`: between two positions, a group of the pattern has matched with its body
and was recorded as `entry`. -/
def Records (p : Pattern) (c d : Cursor) (entry : Nat × Span) : Prop :=
  ∃ name body e f new, (entry.1, name, body) ∈ p.nodes ∧ c.Reaches e ∧ f.Reaches d ∧
    body.Matches e f new ∧ entry.2 = ⟨e.offset, f.offset⟩

/-- What a part of a pattern records, on a part of the way, the pattern does. -/
theorem Records.weaken {p q : Pattern} {c c' d d' : Cursor} {entry : Nat × Span}
    (h : p.Records c d entry) (hnodes : p.nodes ⊆ q.nodes) (hc : c'.Reaches c) (hd : d.Reaches d') :
    q.Records c' d' entry := by
  obtain ⟨name, body, e, f, new, hnode, he, hf, hbody, hspan⟩ := h
  exact ⟨name, body, e, f, new, hnodes hnode, hc.trans he, hf.trans hd, hbody, hspan⟩

/-- **Everything that a match records is the match of a group.** -/
theorem Matches.records {p : Pattern} {c d : Cursor} {new : Captures} (h : p.Matches c d new) :
    ∀ entry ∈ new, p.Records c d entry := by
  induction p generalizing c d new with
  | empty =>
    obtain ⟨-, rfl⟩ := h
    simp
  | set s =>
    obtain ⟨-, -, -, -, -, rfl⟩ := h
    simp
  | look l =>
    obtain ⟨-, -, rfl⟩ := h
    simp
  | seq a b iha ihb =>
    obtain ⟨e, first, second, hfirst, hsecond, rfl⟩ := h
    intro entry hentry
    rcases List.mem_append.mp hentry with hmem | hmem
    · exact (ihb hsecond entry hmem).weaken (List.subset_append_right _ _) hfirst.reaches (.refl _)
    · exact (iha hfirst entry hmem).weaken (List.subset_append_left _ _) (.refl _) hsecond.reaches
  | alt a b iha ihb =>
    intro entry hentry
    rcases h with h | h
    · exact (iha h entry hentry).weaken (List.subset_append_left _ _) (.refl _) (.refl _)
    · exact (ihb h entry hentry).weaken (List.subset_append_right _ _) (.refl _) (.refl _)
  | group index name a iha =>
    obtain ⟨inner, hinner, rfl⟩ := h
    intro entry hentry
    rcases List.mem_cons.mp hentry with rfl | hmem
    · exact ⟨name, a, c, d, inner, List.mem_cons_self, .refl _, .refl _, hinner, rfl⟩
    · exact (iha hinner entry hmem).weaken (List.subset_cons_self _ _) (.refl _) (.refl _)
  | repeated min max greedy a iha =>
    obtain ⟨n, -, -, hcopies⟩ := h
    have hboth : c.Reaches d ∧ ∀ entry ∈ new, a.Records c d entry := by
      refine hcopies.lift (motive := fun c d new =>
        c.Reaches d ∧ ∀ entry ∈ new, a.Records c d entry) (fun c => ⟨.refl c, by simp⟩) ?_
      rintro c e d first others hfirst ⟨hreaches, hothers⟩
      refine ⟨hfirst.reaches.trans hreaches, fun entry hentry => ?_⟩
      rcases List.mem_append.mp hentry with hmem | hmem
      · exact (hothers entry hmem).weaken (List.Subset.refl _) hfirst.reaches (.refl _)
      · exact (iha hfirst entry hmem).weaken (List.Subset.refl _) (.refl _) hreaches
    intro entry hentry
    exact (hboth.2 entry hentry).weaken (List.Subset.refl _) (.refl _) (.refl _)

/-- What a match records lies inside it. -/
theorem Records.bounds {p : Pattern} {c d : Cursor} {entry : Nat × Span}
    (h : p.Records c d entry) :
    c.offset ≤ entry.2.start ∧ entry.2.start ≤ entry.2.stop ∧ entry.2.stop ≤ d.offset := by
  obtain ⟨name, body, e, f, new, -, he, hf, hbody, hspan⟩ := h
  rw [hspan]
  exact ⟨he.offset_le, hbody.reaches.offset_le, hf.offset_le⟩

end Pattern

/-- Between two positions of a text lies a slice of it. -/
theorem Cursor.Over.slice? {text part : List Char} {e f : Cursor}
    (he : (Cursor.start text).Reaches e) (hf : e.Over part f) :
    (⟨e.offset, f.offset⟩ : Span).slice? text = some part := by
  obtain ⟨front, hrest, hoffset, -⟩ := he
  obtain ⟨hrest', hoffset', -⟩ := hf
  refine Span.slice?_eq_some_iff.mpr ⟨front, f.rest, ?_, ?_, hoffset'⟩
  · rw [← hrest']
    exact hrest
  · simpa [Cursor.start] using hoffset

end Relabel
