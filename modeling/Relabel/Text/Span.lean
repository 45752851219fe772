/-!
# Spans of a text

A text is a list of characters and a position in it is a byte offset into its UTF-8 form. An offset
inside a character is no position: splitting there fails, and so does every slice that would begin
or end there.
-/

namespace Relabel

/-- The number of bytes of a text in UTF-8. -/
def byteSize : List Char → Nat
  | [] => 0
  | c :: rest => c.utf8Size + byteSize rest

/-- Splits a text after `count` bytes, if a character ends there. -/
def splitBytes? (count : Nat) : List Char → Option (List Char × List Char)
  | [] => if count = 0 then some ([], []) else none
  | c :: rest =>
    if count = 0 then some ([], c :: rest)
    else if c.utf8Size ≤ count then
      match splitBytes? (count - c.utf8Size) rest with
      | some (front, back) => some (c :: front, back)
      | none => none
    else none

/-- The size of a text is the sum of those of its parts. -/
@[simp] theorem byteSize_append (front back : List Char) :
    byteSize (front ++ back) = byteSize front + byteSize back := by
  induction front with
  | nil => simp [byteSize]
  | cons c rest ih => simp [byteSize, ih, Nat.add_assoc]

/-- The size of the characters of a string is the size of the string. -/
@[simp] theorem byteSize_toList (s : String) : byteSize s.toList = s.utf8ByteSize := by
  have hlist : ∀ text : List Char, byteSize text = (String.ofList text).utf8ByteSize := by
    intro text
    induction text with
    | nil => simp [byteSize, String.ofList_nil]
    | cons c rest ih =>
      have hsplit : String.ofList (c :: rest) = String.ofList [c] ++ String.ofList rest := by
        rw [← String.ofList_append]
        rfl
      have hone : (String.ofList [c]).utf8ByteSize = c.utf8Size := by
        rw [← String.singleton_eq_ofList]
        simp
      rw [byteSize, ih, hsplit, String.utf8ByteSize_append, hone]
  rw [hlist, String.ofList_toList]

/-- Only the empty text has no bytes. -/
theorem byteSize_eq_zero_iff {text : List Char} : byteSize text = 0 ↔ text = [] := by
  cases text with
  | nil => simp [byteSize]
  | cons c rest =>
    have hc := c.utf8Size_pos
    simp only [byteSize, reduceCtorEq, iff_false]
    omega

/-- Splitting cuts the text in two without loss, and the first part has the size asked for. -/
theorem splitBytes?_eq_some_iff {count : Nat} {text front back : List Char} :
    splitBytes? count text = some (front, back) ↔
      text = front ++ back ∧ byteSize front = count := by
  induction text generalizing count front with
  | nil =>
    rw [splitBytes?]
    constructor
    · intro h
      split at h
      · rename_i hc
        obtain ⟨rfl, rfl⟩ := Prod.mk.inj (Option.some.inj h)
        exact ⟨rfl, hc ▸ rfl⟩
      · exact absurd h (by simp)
    · rintro ⟨htext, hsize⟩
      obtain ⟨rfl, rfl⟩ := List.append_eq_nil_iff.mp htext.symm
      rw [if_pos (by simpa [byteSize] using hsize.symm)]
  | cons c rest ih =>
    have hc := c.utf8Size_pos
    rw [splitBytes?]
    constructor
    · intro h
      split at h
      · rename_i h0
        obtain ⟨rfl, rfl⟩ := Prod.mk.inj (Option.some.inj h)
        exact ⟨rfl, h0 ▸ rfl⟩
      · split at h
        · split at h
          · rename_i hle _ tailFront tailBack htail
            obtain ⟨rfl, rfl⟩ := Prod.mk.inj (Option.some.inj h)
            obtain ⟨rfl, hsize⟩ := ih.mp htail
            refine ⟨rfl, ?_⟩
            simp only [byteSize, hsize]
            omega
          · exact absurd h (by simp)
        · exact absurd h (by simp)
    · rintro ⟨htext, hsize⟩
      cases front with
      | nil =>
        rw [if_pos (by simpa [byteSize] using hsize.symm)]
        simp only [List.nil_append] at htext
        rw [htext]
      | cons d tailFront =>
        obtain ⟨rfl, rfl⟩ := List.cons.inj htext
        simp only [byteSize] at hsize
        rw [if_neg (by omega), if_pos (by omega),
          ih.mpr ⟨rfl, show byteSize tailFront = count - c.utf8Size by omega⟩]

/-- A half-open range of byte offsets. -/
structure Span where
  start : Nat
  stop : Nat
deriving DecidableEq, Repr

namespace Span

def isEmpty (s : Span) : Bool :=
  s.start == s.stop

/-- Whether every byte of `inner` is a byte of the span. -/
def covers (s inner : Span) : Bool :=
  s.start ≤ inner.start && inner.stop ≤ s.stop

/-- Cuts a span out of the part of a text that begins at byte `base`: what stands in front of it,
the spanned text, and what follows. Fails unless the span starts at or after `base` and both its
ends are positions of the text. -/
def cut? (base : Nat) (text : List Char) (s : Span) :
    Option (List Char × List Char × List Char) :=
  if base ≤ s.start ∧ s.start ≤ s.stop then
    match splitBytes? (s.start - base) text with
    | some (front, rest) =>
      match splitBytes? (s.stop - s.start) rest with
      | some (middle, back) => some (front, middle, back)
      | none => none
    | none => none
  else none

def slice? (text : List Char) (s : Span) : Option (List Char) :=
  (s.cut? 0 text).map fun parts => parts.2.1

end Span

end Relabel
