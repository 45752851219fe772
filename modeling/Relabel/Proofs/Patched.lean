import Relabel.Text.Splice

/-!
# Patched texts

What it means that some spans of a text, and nothing else, were replaced. `Patched` says it by
cutting the text up, without a running offset and without leaving anything out; `splice_patched`
says that splicing does it, for edits whose spans are slices in document order. Replacing inside a
part of a text is replacing in the text, with all spans moved (`Patched.flatten`). If text is put in
front of a text, edits that are moved along do the same behind it (`splice_append`).
-/

namespace Relabel

namespace Span

def shift (distance : Nat) (s : Span) : Span :=
  ⟨distance + s.start, distance + s.stop⟩

@[simp] theorem shift_start (distance : Nat) (s : Span) :
    (s.shift distance).start = distance + s.start :=
  rfl

@[simp] theorem shift_stop (distance : Nat) (s : Span) :
    (s.shift distance).stop = distance + s.stop :=
  rfl

@[simp] theorem shift_zero (s : Span) : s.shift 0 = s := by
  simp [shift]

theorem shift_shift (m n : Nat) (s : Span) : (s.shift n).shift m = s.shift (m + n) := by
  simp [shift, Nat.add_assoc]

/-- Cutting a span out of a text yields three consecutive parts, the middle one of them spanned. -/
theorem cut?_eq_some_iff {base : Nat} {text front middle back : List Char} {s : Span} :
    s.cut? base text = some (front, middle, back) ↔
      text = front ++ (middle ++ back) ∧ s.start = base + byteSize front ∧
        s.stop = s.start + byteSize middle := by
  unfold cut?
  constructor
  · intro h
    split at h
    · rename_i hle
      split at h
      · rename_i front' rest hfront
        split at h
        · rename_i middle' back' hmiddle
          cases h
          obtain ⟨rfl, hsize⟩ := splitBytes?_eq_some_iff.mp hfront
          obtain ⟨rfl, hsize'⟩ := splitBytes?_eq_some_iff.mp hmiddle
          exact ⟨rfl, by omega, by omega⟩
        · cases h
      · cases h
    · cases h
  · rintro ⟨rfl, hstart, hstop⟩
    have hfront : splitBytes? (s.start - base) (front ++ (middle ++ back)) =
        some (front, middle ++ back) :=
      splitBytes?_eq_some_iff.mpr ⟨rfl, by omega⟩
    have hmiddle : splitBytes? (s.stop - s.start) (middle ++ back) = some (middle, back) :=
      splitBytes?_eq_some_iff.mpr ⟨rfl, by omega⟩
    rw [if_pos (by omega), hfront]
    simp only [hmiddle]

/-- A slice is what stands between two offsets of a text. -/
theorem slice?_eq_some_iff {text part : List Char} {s : Span} :
    s.slice? text = some part ↔
      ∃ front back, text = front ++ (part ++ back) ∧ s.start = byteSize front ∧
        s.stop = s.start + byteSize part := by
  unfold slice?
  constructor
  · intro h
    obtain ⟨⟨front, middle, back⟩, hcut, rfl⟩ := Option.map_eq_some_iff.mp h
    obtain ⟨htext, hstart, hstop⟩ := cut?_eq_some_iff.mp hcut
    exact ⟨front, back, htext, by omega, hstop⟩
  · rintro ⟨front, back, htext, hstart, hstop⟩
    rw [cut?_eq_some_iff.mpr ⟨htext, by omega, hstop⟩]
    rfl

/-- The whole text is a slice of itself. -/
theorem slice?_whole (text : List Char) : slice? text ⟨0, byteSize text⟩ = some text :=
  slice?_eq_some_iff.mpr ⟨[], [], by simp, rfl, by simp⟩

/-- A slice of a slice is a slice of the text, further to the right. -/
theorem slice?_shift {text part inner : List Char} {s t : Span} (hpart : s.slice? text = some part)
    (hinner : t.slice? part = some inner) : (t.shift s.start).slice? text = some inner := by
  obtain ⟨front, back, htext, hstart, -⟩ := slice?_eq_some_iff.mp hpart
  obtain ⟨front', back', rfl, hstart', hstop'⟩ := slice?_eq_some_iff.mp hinner
  refine slice?_eq_some_iff.mpr ⟨front ++ front', back' ++ back, by simp [htext], ?_, ?_⟩
  · simp [hstart, hstart']
  · simp only [shift_start, shift_stop]
    omega

/-- A slice that begins behind the front of a text is cut out of what follows the front. -/
theorem cut?_of_slice? {front rest part : List Char} {s : Span}
    (h : s.slice? (front ++ rest) = some part) (hstart : byteSize front ≤ s.start) :
    ∃ gap back, s.cut? (byteSize front) rest = some (gap, part, back) := by
  obtain ⟨before, back, htext, hbefore, hstop⟩ := slice?_eq_some_iff.mp h
  rcases List.append_eq_append_iff.mp htext with ⟨gap, rfl, rfl⟩ | ⟨excess, hexcess, hrest⟩
  · rw [byteSize_append] at hbefore
    exact ⟨gap, back, cut?_eq_some_iff.mpr ⟨rfl, hbefore, hstop⟩⟩
  · have hsize := congrArg byteSize hexcess
    rw [byteSize_append] at hsize
    obtain rfl : excess = [] := byteSize_eq_zero_iff.mp (by omega)
    exact ⟨[], back, cut?_eq_some_iff.mpr ⟨hrest.symm, by simp only [byteSize]; omega, hstop⟩⟩

/-- A slice ends behind its start and within the text. -/
theorem stop_le_of_slice? {text part : List Char} {s : Span} (h : s.slice? text = some part) :
    s.start ≤ s.stop ∧ s.stop ≤ byteSize text ∧ s.stop = s.start + byteSize part := by
  obtain ⟨front, back, rfl, hstart, hstop⟩ := slice?_eq_some_iff.mp h
  simp only [byteSize_append]
  omega

end Span

namespace Edit

def shift (distance : Nat) (e : Edit) : Edit :=
  ⟨e.span.shift distance, e.text⟩

end Edit

/-- `Patched base text edits result`: the text begins at byte `base`, and `result` is that text with
the span of every edit replaced by the text of the edit. Between the spans, in front of the first
and behind the last one, the two agree. -/
inductive Patched : Nat → List Char → List Edit → List Char → Prop where
  | kept (base : Nat) (text : List Char) : Patched base text [] text
  | edit {base : Nat} {front old back result : List Char} {edits : List Edit} (new : List Char)
      (rest : Patched (base + byteSize front + byteSize old) back edits result) :
      Patched base (front ++ (old ++ back))
        (⟨⟨base + byteSize front, base + byteSize front + byteSize old⟩, new⟩ :: edits)
        (front ++ (new ++ result))

namespace Patched

/-- A text has one patched form. -/
theorem unique {base : Nat} {text out out' : List Char} {edits : List Edit}
    (h : Patched base text edits out) (h' : Patched base text edits out') : out = out' := by
  induction h generalizing out' with
  | kept => cases h'; rfl
  | @edit base front old back result edits new rest ih =>
    generalize htext : front ++ (old ++ back) = text at h'
    generalize hedits : (Edit.mk _ _ :: edits) = all at h'
    cases h' with
    | kept => cases hedits
    | @edit _ front' old' back' result' _ new' rest' =>
      simp only [List.cons.injEq, Edit.mk.injEq, Span.mk.injEq] at hedits
      obtain ⟨⟨⟨hstart, hstop⟩, rfl⟩, rfl⟩ := hedits
      have hcut : splitBytes? (byteSize front) (front ++ (old ++ back)) =
          some (front, old ++ back) :=
        splitBytes?_eq_some_iff.mpr ⟨rfl, rfl⟩
      have hcut' : splitBytes? (byteSize front) (front ++ (old ++ back)) =
          some (front', old' ++ back') :=
        splitBytes?_eq_some_iff.mpr ⟨htext, by omega⟩
      obtain ⟨rfl, hrest⟩ := Prod.mk.inj (Option.some.inj (hcut.symm.trans hcut'))
      have hold : splitBytes? (byteSize old) (old ++ back) = some (old, back) :=
        splitBytes?_eq_some_iff.mpr ⟨rfl, rfl⟩
      have hold' : splitBytes? (byteSize old) (old ++ back) = some (old', back') :=
        splitBytes?_eq_some_iff.mpr ⟨hrest, by omega⟩
      obtain ⟨rfl, rfl⟩ := Prod.mk.inj (Option.some.inj (hold.symm.trans hold'))
      rw [ih rest']

/-- An edit is applied to the text that its span is cut out of. -/
theorem of_cut {base : Nat} {text front old back result : List Char} {e : Edit} {edits : List Edit}
    (hcut : e.span.cut? base text = some (front, old, back))
    (rest : Patched e.span.stop back edits result) :
    Patched base text (e :: edits) (front ++ (e.text ++ result)) := by
  obtain ⟨⟨start, stop⟩, new⟩ := e
  obtain ⟨rfl, hstart, hstop⟩ := Span.cut?_eq_some_iff.mp hcut
  simp only at hstart hstop rest
  subst hstart hstop
  exact .edit new rest

/-- Moving the text moves the spans. -/
theorem shift {base : Nat} {text out : List Char} {edits : List Edit}
    (h : Patched base text edits out) (distance : Nat) :
    Patched (distance + base) text (edits.map (Edit.shift distance)) out := by
  induction h with
  | kept => exact .kept _ _
  | @edit base front old back result edits new rest ih =>
    have hrest : distance + (base + byteSize front + byteSize old) =
        distance + base + byteSize front + byteSize old := by omega
    have hfront : distance + (base + byteSize front) = distance + base + byteSize front := by omega
    rw [hrest] at ih
    rw [List.map_cons, Edit.shift, Span.shift]
    simp only [hrest, hfront]
    exact .edit new ih

/-- What stands in front of all edits is kept. -/
theorem prepend {base : Nat} {text out : List Char} {edits : List Edit} (front : List Char)
    (h : Patched (base + byteSize front) text edits out) :
    Patched base (front ++ text) edits (front ++ out) := by
  generalize hbase : base + byteSize front = start at h
  cases h with
  | kept => exact .kept _ _
  | @edit _ gap old back result edits new rest =>
    subst hbase
    have hgap : base + byteSize front + byteSize gap = base + byteSize (front ++ gap) := by
      simp [Nat.add_assoc]
    rw [hgap] at rest ⊢
    simpa using Patched.edit new rest

/-- Two neighbouring texts are patched one by one. -/
theorem append {base : Nat} {left right out out' : List Char} {edits edits' : List Edit}
    (h : Patched base left edits out) (h' : Patched (base + byteSize left) right edits' out') :
    Patched base (left ++ right) (edits ++ edits') (out ++ out') := by
  induction h with
  | kept base text => exact h'.prepend text
  | @edit base front old back result edits new rest ih =>
    have hbase : base + byteSize (front ++ (old ++ back)) =
        base + byteSize front + byteSize old + byteSize back := by
      simp only [byteSize_append]
      omega
    rw [hbase] at h'
    simpa using Patched.edit new (ih h')

/-- **Patches inside patches.** If each edit of a text comes about by editing the part it replaces,
then the text is patched by those inner edits alone, each moved to where its part stands. -/
theorem flatten {base : Nat} {text out : List Char} {edits : List Edit} (inner : Edit → List Edit)
    (h : Patched base text edits out)
    (hinner : ∀ e ∈ edits, ∀ front old back, e.span.cut? base text = some (front, old, back) →
      Patched 0 old (inner e) e.text) :
    Patched base text (edits.flatMap fun e => (inner e).map (Edit.shift e.span.start)) out := by
  induction h with
  | kept => exact .kept _ _
  | @edit base front old back result edits new rest ih =>
    have hold : Patched (base + byteSize front) old
        ((inner ⟨⟨base + byteSize front, base + byteSize front + byteSize old⟩, new⟩).map
          (Edit.shift (base + byteSize front))) new :=
      (hinner _ List.mem_cons_self front old back
        (Span.cut?_eq_some_iff.mpr ⟨rfl, rfl, rfl⟩)).shift (base + byteSize front)
    have hback : Patched (base + byteSize front + byteSize old) back
        (edits.flatMap fun e => (inner e).map (Edit.shift e.span.start)) result := by
      refine ih fun e he front' old' back' hcut => ?_
      obtain ⟨rfl, hstart, hstop⟩ := Span.cut?_eq_some_iff.mp hcut
      refine hinner e (List.mem_cons_of_mem _ he) (front ++ (old ++ front')) old' back' ?_
      refine Span.cut?_eq_some_iff.mpr ⟨by simp, ?_, hstop⟩
      simp only [byteSize_append]
      omega
    exact (hold.append hback).prepend front

end Patched

/-- Splicing from a byte on applies every edit if the spans are slices behind that byte and follow
one another. -/
theorem spliceFrom_patched (front rest : List Char) {edits : List Edit}
    (hslices : ∀ e ∈ edits, ∃ part, e.span.slice? (front ++ rest) = some part)
    (hfront : ∀ e ∈ edits, byteSize front ≤ e.span.start)
    (hordered : edits.Pairwise fun a b => a.span.stop ≤ b.span.start) :
    ∃ out, Patched (byteSize front) rest edits out ∧
      spliceFrom (byteSize front) rest edits = ⟨edits.length, out⟩ := by
  induction edits generalizing front rest with
  | nil => exact ⟨rest, .kept _ _, rfl⟩
  | cons e edits ih =>
    obtain ⟨part, hpart⟩ := hslices e List.mem_cons_self
    obtain ⟨gap, back, hcut⟩ := Span.cut?_of_slice? hpart (hfront e List.mem_cons_self)
    obtain ⟨rfl, hbefore, hstop⟩ := Span.cut?_eq_some_iff.mp hcut
    have hsize : byteSize (front ++ (gap ++ part)) = e.span.stop := by
      simp only [byteSize_append]
      omega
    obtain ⟨out, hpatched, hspliced⟩ := ih (front ++ (gap ++ part)) back
      (fun e' he' => by simpa using hslices e' (List.mem_cons_of_mem _ he'))
      (fun e' he' => by rw [hsize]; exact List.rel_of_pairwise_cons hordered he')
      hordered.of_cons
    rw [hsize] at hpatched hspliced
    refine ⟨gap ++ (e.text ++ out), .of_cut hcut hpatched, ?_⟩
    rw [spliceFrom, hcut]
    simp only [hspliced, List.length_cons, List.append_assoc]

/-- **Splicing patches.** Edits whose spans are slices of the text, each ending before the next one
begins, are all applied. -/
theorem splice_patched (text : List Char) (edits : List Edit)
    (hslices : ∀ e ∈ edits, ∃ part, e.span.slice? text = some part)
    (hordered : edits.Pairwise fun a b => a.span.stop ≤ b.span.start) :
    ∃ out, Patched 0 text edits out ∧ splice text edits = ⟨edits.length, out⟩ :=
  spliceFrom_patched [] text hslices (fun _ _ => Nat.zero_le _) hordered

/-! ### Text in front -/

theorem splitBytes?_append (frame text : List Char) (count : Nat) :
    splitBytes? (byteSize frame + count) (frame ++ text) =
      (splitBytes? count text).map fun parts => (frame ++ parts.1, parts.2) := by
  induction frame with
  | nil => simp [byteSize]
  | cons x frame ih =>
    have hx := x.utf8Size_pos
    have hrest : byteSize (x :: frame) + count - x.utf8Size = byteSize frame + count := by
      simp only [byteSize]
      omega
    rw [List.cons_append, splitBytes?, if_neg (by simp only [byteSize]; omega),
      if_pos (by simp only [byteSize]; omega), hrest, ih]
    cases splitBytes? count text <;> rfl

namespace Span

theorem cut?_shift (s : Span) (n base : Nat) (text : List Char) :
    (s.shift n).cut? (n + base) text = s.cut? base text := by
  simp only [cut?, shift_start, shift_stop, Nat.add_sub_add_left, Nat.add_le_add_iff_left]

theorem cut?_append (s : Span) (frame text : List Char) :
    (s.shift (byteSize frame)).cut? 0 (frame ++ text) =
      (s.cut? 0 text).map fun parts => (frame ++ parts.1, parts.2) := by
  simp only [cut?, shift_start, shift_stop, Nat.sub_zero, Nat.zero_le, true_and,
    splitBytes?_append, Nat.add_sub_add_left, Nat.add_le_add_iff_left]
  split
  · cases splitBytes? s.start text with
    | none => rfl
    | some parts =>
      simp only [Option.map_some]
      cases splitBytes? (s.stop - s.start) parts.2 <;> rfl
  · rfl

/-- A slice stays the same if text is put in front and the span is moved. -/
theorem slice?_append (s : Span) (frame text : List Char) :
    (s.shift (byteSize frame)).slice? (frame ++ text) = s.slice? text := by
  rw [slice?, slice?, cut?_append, Option.map_map]
  rfl

end Span

/-- The result of splicing with a text put in front of it. -/
def Spliced.prepend (frame : List Char) (s : Spliced) : Spliced :=
  ⟨s.applied, frame ++ s.text⟩

theorem Spliced.changed?_prepend (frame : List Char) (s : Spliced) :
    (s.prepend frame).changed? = s.changed?.map (frame ++ ·) := by
  rw [changed?, changed?, prepend]
  split <;> rfl

/-- Splicing does not depend on where a text begins. -/
theorem spliceFrom_shift (n base : Nat) (text : List Char) (edits : List Edit) :
    spliceFrom (n + base) text (edits.map (Edit.shift n)) = spliceFrom base text edits := by
  induction edits generalizing base text with
  | nil => rfl
  | cons e edits ih =>
    rw [List.map_cons, spliceFrom, spliceFrom, Edit.shift, Span.cut?_shift, ih]
    cases e.span.cut? base text with
    | none => rfl
    | some parts => simp only [Span.shift_stop, ih]

/-- **Edits behind a frame leave the frame as it is.** -/
theorem splice_append (frame text : List Char) (edits : List Edit) :
    splice (frame ++ text) (edits.map (Edit.shift (byteSize frame))) =
      (splice text edits).prepend frame := by
  rw [splice, splice]
  induction edits with
  | nil => rfl
  | cons e edits ih =>
    rw [List.map_cons, spliceFrom, spliceFrom, Edit.shift, Span.cut?_append, ih]
    cases e.span.cut? 0 text with
    | none => rfl
    | some parts =>
      simp only [Option.map_some, Span.shift_stop, spliceFrom_shift, Spliced.prepend,
        List.append_assoc]

end Relabel
