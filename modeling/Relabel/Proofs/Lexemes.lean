import Relabel.Proofs.Languages

/-!
# Code as lexemes

Code is read from left to right: at each position a comment is taken, else a literal, else one
character (`Lexicon.lexemes`). How comments and literals are written is a matter of the language; a
`Lexicon` says it, with the facts that make reading end and lose nothing. Positions between lexemes
are told from those inside one by `Lexicon.Lexed`.
-/

namespace Relabel

/-- A stretch of code that is read as a unit. A comment is kept as it is written. -/
inductive Lexeme where
  | comment (part : List Char)
  | string (quote : Char) (body : List Char)
  | char (c : Char)
deriving DecidableEq, Repr

namespace Lexeme

def text : Lexeme → List Char
  | .comment part => part
  | .string quote body => quote :: (body ++ [quote])
  | .char c => [c]

def isComment : Lexeme → Bool
  | .comment _ => true
  | _ => false

/-- Whether the lexeme is a comment or a literal, which are stepped over. -/
def isSkipped : Lexeme → Bool
  | .char _ => false
  | _ => true

/-- Single characters are written as they are. -/
theorem flatMap_text_chars (chars : List Char) : (chars.map char).flatMap text = chars := by
  rw [List.flatMap_map]
  exact List.flatMap_singleton' chars

end Lexeme

/-- The comments and literals of a language: what begins a text, and what follows it. The openers
are the characters that a comment or a literal can begin with. -/
structure Lexicon where
  comment? : List Char → Option (List Char × List Char)
  string? : List Char → Option (Char × List Char × List Char)
  openers : List Char
  eq_append_of_comment? : ∀ {text part rest}, comment? text = some (part, rest) →
    text = part ++ rest ∧ part ≠ []
  eq_append_of_string? : ∀ {text quote body rest}, string? text = some (quote, body, rest) →
    text = (Lexeme.string quote body).text ++ rest
  plain_of_notMem : ∀ {c}, c ∉ openers → ∀ rest,
    comment? (c :: rest) = none ∧ string? (c :: rest) = none

namespace Lexicon

variable {x : Lexicon}

/-- The first lexeme of a text, and what follows. -/
def lexeme? (x : Lexicon) (text : List Char) : Option (Lexeme × List Char) :=
  match x.comment? text with
  | some (part, rest) => some (.comment part, rest)
  | none =>
    match x.string? text with
    | some (quote, body, rest) => some (.string quote body, rest)
    | none =>
      match text with
      | c :: rest => some (.char c, rest)
      | [] => none

section First

variable {text part body rest : List Char} {quote c : Char} {first : Lexeme}

/-- **The three kinds of lexeme.** -/
theorem lexeme?_cases (h : x.lexeme? text = some (first, rest)) :
    (∃ part, first = .comment part ∧ x.comment? text = some (part, rest)) ∨
    (∃ quote body, first = .string quote body ∧ x.comment? text = none ∧
      x.string? text = some (quote, body, rest)) ∨
    (∃ c, first = .char c ∧ x.comment? text = none ∧ x.string? text = none ∧
      text = c :: rest) := by
  unfold lexeme? at h
  split at h
  · rename_i part rest' hcomment
    cases h
    exact .inl ⟨part, rfl, hcomment⟩
  · rename_i hcomment
    split at h
    · rename_i quote body rest' hstring
      cases h
      exact .inr (.inl ⟨quote, body, rfl, hcomment, hstring⟩)
    · rename_i hstring
      split at h
      · rename_i c rest'
        cases h
        exact .inr (.inr ⟨c, rfl, hcomment, hstring, rfl⟩)
      · cases h

theorem lexeme?_of_comment? (h : x.comment? text = some (part, rest)) :
    x.lexeme? text = some (.comment part, rest) := by
  rw [lexeme?.eq_def, h]

theorem lexeme?_of_string? (hcomment : x.comment? text = none)
    (h : x.string? text = some (quote, body, rest)) :
    x.lexeme? text = some (.string quote body, rest) := by
  rw [lexeme?.eq_def, hcomment, h]

theorem lexeme?_of_char (hcomment : x.comment? (c :: rest) = none)
    (hstring : x.string? (c :: rest) = none) : x.lexeme? (c :: rest) = some (.char c, rest) := by
  rw [lexeme?.eq_def, hcomment, hstring]

/-- Reading loses nothing, and each lexeme takes something. -/
theorem eq_append_of_lexeme? (h : x.lexeme? text = some (first, rest)) :
    text = first.text ++ rest ∧ first.text ≠ [] := by
  rcases lexeme?_cases h with ⟨part, rfl, hcomment⟩ | ⟨quote, body, rfl, -, hstring⟩ |
    ⟨c, rfl, -, -, rfl⟩
  · exact x.eq_append_of_comment? hcomment
  · exact ⟨x.eq_append_of_string? hstring, List.cons_ne_nil _ _⟩
  · exact ⟨rfl, List.cons_ne_nil _ _⟩

/-- Only the empty text has no lexeme. -/
theorem lexeme?_eq_none_iff : x.lexeme? text = none ↔ text = [] := by
  constructor
  · intro h
    unfold lexeme? at h
    split at h
    · cases h
    · split at h
      · cases h
      · split at h
        · cases h
        · rfl
  · rintro rfl
    cases h : x.lexeme? [] with
    | none => rfl
    | some found =>
      obtain ⟨htext, hne⟩ := eq_append_of_lexeme? h
      exact absurd (List.append_eq_nil_iff.mp htext.symm).1 hne

theorem exists_lexeme? (h : text ≠ []) : ∃ first rest, x.lexeme? text = some (first, rest) := by
  cases hfirst : x.lexeme? text with
  | none => exact absurd (lexeme?_eq_none_iff.mp hfirst) h
  | some found => exact ⟨found.1, found.2, rfl⟩

/-- A lexeme is stepped over unless neither a comment nor a literal begins. -/
theorem isSkipped_of_lexeme? (h : x.lexeme? text = some (first, rest)) :
    first.isSkipped = true ∨ x.comment? text = none ∧ x.string? text = none := by
  rcases lexeme?_cases h with ⟨part, rfl, -⟩ | ⟨quote, body, rfl, -, -⟩ |
    ⟨c, rfl, hcomment, hstring, -⟩
  · exact .inl rfl
  · exact .inl rfl
  · exact .inr ⟨hcomment, hstring⟩

end First

/-! ### All lexemes -/

def lexemes (x : Lexicon) (text : List Char) : List Lexeme :=
  match _h : x.lexeme? text with
  | some (first, rest) => first :: x.lexemes rest
  | none => []
termination_by text.length
decreasing_by
  obtain ⟨htext, hne⟩ := eq_append_of_lexeme? _h
  rw [htext, List.length_append]
  have := List.length_pos_iff.mpr hne
  omega

/-- The lexemes of a text are the first one and those of what follows. -/
theorem lexemes_of_lexeme? {text rest : List Char} {first : Lexeme}
    (h : x.lexeme? text = some (first, rest)) : x.lexemes text = first :: x.lexemes rest := by
  rw [lexemes]
  split
  · rename_i first' rest' h'
    cases h.symm.trans h'
    rfl
  · rename_i h'
    cases h.symm.trans h'

theorem lexemes_nil : x.lexemes [] = [] := by
  rw [lexemes]
  split
  · rename_i h
    cases (lexeme?_eq_none_iff.mpr rfl).symm.trans h
  · rfl

/-- The lexemes of a text make up the text. -/
theorem flatMap_text_lexemes (text : List Char) :
    (x.lexemes text).flatMap Lexeme.text = text := by
  fun_induction lexemes x text with
  | case1 text first rest h ih => rw [List.flatMap_cons, ih, (eq_append_of_lexeme? h).1]
  | case2 text h => exact (lexeme?_eq_none_iff.mp h).symm

/-- What follows some lexemes is lexed as a text of its own. -/
theorem lexemes_of_append {text : List Char} {front back : List Lexeme}
    (h : x.lexemes text = front ++ back) : x.lexemes (back.flatMap Lexeme.text) = back := by
  induction front generalizing text with
  | nil =>
    obtain rfl : x.lexemes text = back := h
    rw [flatMap_text_lexemes]
  | cons l front ih =>
    rw [lexemes] at h
    split at h
    · exact ih (List.cons.inj h).2
    · cases h

/-- Whether a character opens neither a comment nor a literal. -/
def isInert (x : Lexicon) (c : Char) : Bool :=
  !x.openers.contains c

theorem notMem_of_isInert {c : Char} (h : x.isInert c = true) : c ∉ x.openers := by
  simpa [isInert] using h

/-- An inert character is a lexeme, whatever follows. -/
theorem lexeme?_of_isInert {c : Char} (h : x.isInert c = true) (rest : List Char) :
    x.lexeme? (c :: rest) = some (.char c, rest) := by
  obtain ⟨hcomment, hstring⟩ := x.plain_of_notMem (notMem_of_isInert h) rest
  exact lexeme?_of_char hcomment hstring

/-- No match of a pattern that avoids what opens comments and literals has such a character. -/
theorem isInert_of_avoids {p : Pattern} (hp : x.openers.all p.avoids = true) {part : List Char}
    (hpart : part ∈ p.language) : ∀ c ∈ part, x.isInert c = true := by
  intro c hc
  rw [isInert, Bool.not_eq_true', List.contains_eq_mem, decide_eq_false_iff_not]
  intro hopener
  exact Pattern.notMem_of_avoids (List.all_eq_true.mp hp c hopener) hpart hc

/-! ### Positions between lexemes -/

/-- `x.Lexed c ls d`: from `c` on, the lexemes `ls` are read, which lead to `d`. -/
def Lexed (x : Lexicon) (c : Cursor) (ls : List Lexeme) (d : Cursor) : Prop :=
  x.lexemes c.rest = ls ++ x.lexemes d.rest ∧ c.Over (ls.flatMap Lexeme.text) d

namespace Lexed

variable {c d e : Cursor} {ls ls' : List Lexeme}

theorem refl (c : Cursor) : x.Lexed c [] c :=
  ⟨rfl, .refl c⟩

/-- Lexemes are read one after another. -/
theorem trans (h : x.Lexed c ls d) (h' : x.Lexed d ls' e) : x.Lexed c (ls ++ ls') e := by
  refine ⟨?_, ?_⟩
  · rw [h.1, h'.1, List.append_assoc]
  · rw [List.flatMap_append]
    exact h.2.trans h'.2

/-- The first lexeme leads behind its text. -/
theorem of_lexeme? {first : Lexeme} (h : x.lexeme? c.rest = some (first, d.rest))
    (hd : c.Over first.text d) : x.Lexed c [first] d := by
  refine ⟨lexemes_of_lexeme? h, ?_⟩
  rwa [List.flatMap_singleton]

theorem of_char {y : Char} {rest : List Char} (hrest : c.rest = y :: rest)
    (hcomment : x.comment? c.rest = none) (hstring : x.string? c.rest = none) :
    x.Lexed c [.char y] (c.advance y rest) := by
  refine of_lexeme? ?_ (.advance hrest)
  rw [hrest] at hcomment hstring ⊢
  exact lexeme?_of_char hcomment hstring

/-- Some lexemes are read up to the position that their text leads to. -/
theorem of_lexemes (h : x.lexemes c.rest = ls ++ ls') (hover : c.Over (ls.flatMap Lexeme.text) d) :
    x.Lexed c ls d := by
  have hrest : d.rest = ls'.flatMap Lexeme.text := by
    have htext := flatMap_text_lexemes (x := x) c.rest
    rw [h, List.flatMap_append, hover.1] at htext
    exact (List.append_cancel_left htext).symm
  refine ⟨?_, hover⟩
  rw [hrest, lexemes_of_append h, h]

/-- Inert characters are read one by one. -/
theorem of_isInert {part : List Char} (hpart : ∀ y ∈ part, x.isInert y = true)
    (hd : c.Over part d) : x.Lexed c (part.map .char) d := by
  induction part generalizing c with
  | nil =>
    obtain rfl := hd.eq_of_nil
    exact .refl d
  | cons y part ih =>
    obtain ⟨hy, hpart⟩ := List.forall_mem_cons.mp hpart
    have hfirst : x.Lexed c [.char y] (c.advance y (part ++ d.rest)) := by
      refine of_lexeme? ?_ (.advance hd.1)
      rw [hd.1]
      exact lexeme?_of_isInert hy _
    exact hfirst.trans (ih hpart hd.of_cons)

end Lexed

end Lexicon

end Relabel
