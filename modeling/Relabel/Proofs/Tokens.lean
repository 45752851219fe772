import Mathlib.Data.List.TakeWhile
import Relabel.Proofs.Filling
import Relabel.Proofs.Flanked

/-!
# Tokens between white space

A text with several identifiers in it, such as a list of classes, is cut into its tokens and the
white space between them (`pieces`). The template for tokens captures a key if white space or an end
of the text stands on both sides of it. The white space behind a token is looked at only, so it can
stand in front of the next one, and no token is missed: rewriting the captures renames the tokens
that are keys and nothing else (`Tokens.changed?_replaceCaptures`).
-/

namespace Relabel

open Pattern

/-! ### The tokens of a text -/

/-- A text cut into its tokens, which may be empty, and the characters of white space between
them. -/
def pieces : List Char → List (List Char)
  | [] => [[]]
  | x :: text =>
    if Unicode.isSpace x then [] :: [x] :: pieces text else (pieces text).modifyHead (x :: ·)

/-- Nothing of a text is lost when it is cut. -/
theorem flatten_pieces (text : List Char) : (pieces text).flatten = text := by
  have hhead : ∀ (x : Char) (parts : List (List Char)), parts ≠ [] →
      (parts.modifyHead (x :: ·)).flatten = x :: parts.flatten := by
    intro x parts hparts
    cases parts with
    | nil => exact absurd rfl hparts
    | cons part parts => rfl
  have hne : ∀ text, pieces text ≠ [] := by
    intro text
    induction text with
    | nil => exact List.cons_ne_nil _ _
    | cons x text ih =>
      rw [pieces]
      split
      · exact List.cons_ne_nil _ _
      · simpa using ih
  induction text with
  | nil => rfl
  | cons x text ih =>
    rw [pieces]
    split
    · simp [ih]
    · rw [hhead x _ (hne text), ih]

variable {word text tail : List Char} {x : Char}

/-- A token in front of white space. -/
theorem pieces_append (hword : ∀ y ∈ word, Unicode.isSpace y = false)
    (hx : Unicode.isSpace x = true) :
    pieces (word ++ x :: text) = word :: [x] :: pieces text := by
  induction word with
  | nil => rw [List.nil_append, pieces, if_pos hx]
  | cons y word ih =>
    obtain ⟨hy, hlater⟩ := List.forall_mem_cons.mp hword
    rw [List.cons_append, pieces, if_neg (by simp [hy]), ih hlater]
    rfl

theorem pieces_of_word (hword : ∀ y ∈ word, Unicode.isSpace y = false) : pieces word = [word] := by
  induction word with
  | nil => rfl
  | cons y word ih =>
    obtain ⟨hy, hlater⟩ := List.forall_mem_cons.mp hword
    rw [pieces, if_neg (by simp [hy]), ih hlater]
    rfl

/-- A text begins with a token, which may be empty, behind which stands white space or nothing. -/
theorem exists_token (text : List Char) : ∃ word tail, text = word ++ tail ∧
    (∀ y ∈ word, Unicode.isSpace y = false) ∧ ∀ y ∈ tail.head?, Unicode.isSpace y = true := by
  refine ⟨text.takeWhile (!Unicode.isSpace ·), text.dropWhile (!Unicode.isSpace ·),
    List.takeWhile_append_dropWhile.symm, fun y hy => ?_, fun y hy => ?_⟩
  · simpa using List.mem_takeWhile_imp hy
  · have hnot := List.head?_dropWhile_not (!Unicode.isSpace ·) text
    rw [hy] at hnot
    simpa using hnot

namespace Mapping

variable {mapping : Mapping}

/-- What becomes of a piece of text: its value if it is a key, else nothing. -/
def change? (mapping : Mapping) (part : List Char) : Option (List Char) :=
  (mapping.lookup (String.ofList part)).map String.toList

/-- Whether a token of a text is a key. -/
def mentionedIn (mapping : Mapping) (text : List Char) : Bool :=
  (pieces text).any fun part => (mapping.change? part).isSome

/-- The text in which every token that is a key is replaced by its value. -/
def renameTokens (mapping : Mapping) (text : List Char) : List Char :=
  (pieces text).flatMap fun part => (mapping.change? part).getD part

/-- The text with its tokens renamed, if one of them is a key. -/
def renameTokens? (mapping : Mapping) (text : List Char) : Option (List Char) :=
  if mapping.mentionedIn text then some (mapping.renameTokens text) else none

/-- There is something to rename if a token is a key. -/
theorem isSome_renameTokens? (mapping : Mapping) (text : List Char) :
    (mapping.renameTokens? text).isSome = mapping.mentionedIn text := by
  rw [renameTokens?]
  cases mapping.mentionedIn text <;> rfl

/-- Something becomes of a text if it is a key. -/
theorem isSome_change?_iff {part : List Char} :
    (mapping.change? part).isSome = true ↔ String.ofList part ∈ mapping.map Prod.fst := by
  rw [change?, Option.isSome_map, List.lookup_isSome_iff, List.mem_map]
  simp only [beq_iff_eq]
  exact exists_congr fun entry => and_congr_right fun _ => eq_comm

theorem change?_of_notMem {part : List Char} (h : String.ofList part ∉ mapping.map Prod.fst) :
    mapping.change? part = none := by
  rwa [← isSome_change?_iff, Bool.not_eq_true, Option.isSome_eq_false_iff,
    Option.isNone_iff_eq_none] at h

/-- If no token is a key, the text stays as it is. -/
theorem renameTokens_of_not_mentionedIn (h : mapping.mentionedIn text = false) :
    mapping.renameTokens text = text := by
  have hkept : ∀ part ∈ pieces text, (mapping.change? part).getD part = part := by
    intro part hpart
    have hnone := List.any_eq_false.mp h part hpart
    rw [Bool.not_eq_true, Option.isSome_eq_false_iff, Option.isNone_iff_eq_none] at hnone
    rw [hnone, Option.getD_none]
  calc mapping.renameTokens text = (pieces text).flatMap id := by
        rw [renameTokens, List.flatMap_def, List.map_congr_left hkept, List.flatMap_def]
        rfl
    _ = text := by rw [List.flatMap_id, flatten_pieces]

/-- If no token is a key, renaming leaves the text as it is. -/
theorem getD_renameTokens? (mapping : Mapping) (text : List Char) :
    (mapping.renameTokens? text).getD text = mapping.renameTokens text := by
  rw [renameTokens?]
  split
  · rfl
  · rename_i h
    rw [Bool.not_eq_true] at h
    rw [Option.getD_none, renameTokens_of_not_mentionedIn h]

/-- A token that is a key is part of the text. -/
theorem exists_infix_of_mentionedIn (h : mapping.mentionedIn text = true) :
    ∃ key, String.ofList key ∈ mapping.map Prod.fst ∧ key <:+: text := by
  obtain ⟨key, hmem, hkey⟩ := List.any_eq_true.mp h
  refine ⟨key, isSome_change?_iff.mp hkey, ?_⟩
  have hinside := List.infix_of_mem_flatten hmem
  rwa [flatten_pieces] at hinside

/-- The keys of a mapping can be tokens: they are not empty and have no white space in them. -/
def Words (mapping : Mapping) : Prop :=
  ∀ entry ∈ mapping, entry.1 ≠ "" ∧ ∀ c ∈ entry.1.toList, Unicode.isSpace c = false

instance (mapping : Mapping) : Decidable mapping.Words :=
  decidable_of_iff
    ((mapping.all fun entry => entry.1 != "" && entry.1.toList.all (!Unicode.isSpace ·)) = true)
    (by simp [Words])

/-- Identifiers can be tokens. -/
theorem Identifiers.words (h : mapping.Identifiers) : mapping.Words := by
  intro entry hentry
  obtain ⟨hempty, hchars⟩ := h entry hentry
  refine ⟨hempty, fun c hc => ?_⟩
  exact forall_isIdentifierChar (P := fun c => Unicode.isSpace c = false) (by decide) (hchars c hc)

namespace Words

theorem of_mem (h : mapping.Words) {key : List Char}
    (hkey : String.ofList key ∈ mapping.map Prod.fst) :
    key ≠ [] ∧ ∀ y ∈ key, Unicode.isSpace y = false := by
  obtain ⟨entry, hentry, heq⟩ := List.mem_map.mp hkey
  obtain ⟨hempty, hchars⟩ := h entry hentry
  rw [heq] at hempty hchars
  rw [String.toList_ofList] at hchars
  refine ⟨?_, hchars⟩
  rintro rfl
  exact hempty rfl

theorem change?_nil (h : mapping.Words) : mapping.change? [] = none := by
  refine change?_of_notMem fun hnil => ?_
  exact (h.of_mem hnil).1 rfl

/-- A text with white space in it is no key. -/
theorem change?_space (h : mapping.Words) {part : List Char} (hx : x ∈ part)
    (hspace : Unicode.isSpace x = true) : mapping.change? part = none := by
  refine change?_of_notMem fun hpart => ?_
  have hnot := (h.of_mem hpart).2 x hx
  rw [hspace] at hnot
  cases hnot

/-- White space is kept. -/
theorem renameTokens_gap (h : mapping.Words) {gap : List Char}
    (hgap : ∀ y ∈ gap, Unicode.isSpace y = true) :
    mapping.renameTokens (gap ++ text) = gap ++ mapping.renameTokens text ∧
      mapping.mentionedIn (gap ++ text) = mapping.mentionedIn text := by
  induction gap with
  | nil => exact ⟨rfl, rfl⟩
  | cons x gap ih =>
    obtain ⟨hx, hlater⟩ := List.forall_mem_cons.mp hgap
    obtain ⟨hrenamed, hmentioned⟩ := ih hlater
    have hpieces : pieces (x :: (gap ++ text)) = [] :: [x] :: pieces (gap ++ text) := by
      rw [pieces, if_pos hx]
    rw [List.cons_append, List.cons_append, ← hrenamed, ← hmentioned, renameTokens, mentionedIn,
      hpieces]
    simp [h.change?_nil, h.change?_space List.mem_cons_self hx, renameTokens, mentionedIn]

/-- A token is replaced if it is a key. -/
theorem renameTokens_token (h : mapping.Words) (hword : ∀ y ∈ word, Unicode.isSpace y = false)
    (htail : ∀ y ∈ tail.head?, Unicode.isSpace y = true) :
    mapping.renameTokens (word ++ tail) =
        (mapping.change? word).getD word ++ mapping.renameTokens tail ∧
      mapping.mentionedIn (word ++ tail) =
        ((mapping.change? word).isSome || mapping.mentionedIn tail) := by
  cases tail with
  | nil =>
    rw [List.append_nil, renameTokens, mentionedIn, pieces_of_word hword]
    simp [renameTokens, mentionedIn, pieces, h.change?_nil]
  | cons x text =>
    have hx := htail x rfl
    obtain ⟨hrenamed, hmentioned⟩ :=
      renameTokens_gap h (List.forall_mem_singleton.mpr hx)
    rw [← List.singleton_append, hrenamed, hmentioned, List.singleton_append, renameTokens,
      mentionedIn, pieces_append hword hx]
    simp [h.change?_space List.mem_cons_self hx, renameTokens, mentionedIn]

end Words

end Mapping

/-! ### The template for tokens -/

namespace Tokens

def opening : Pattern :=
  .alt (row [.look .textStart]) (row [.set .space])

def closing : Pattern :=
  .alt (row [.set .space]) (row [.look .textEnd])

variable {c d e f : Cursor}

/-- `Opens c e`: a token that begins at `e` can be captured by a match that begins at `c`. -/
def Opens (c e : Cursor) : Prop :=
  (c.before = none ∧ e = c) ∨ ∃ x, Unicode.isSpace x = true ∧ c.Over [x] e

theorem Opens.reaches (h : Opens c e) : c.Reaches e := by
  rcases h with ⟨-, rfl⟩ | ⟨x, -, hover⟩
  · exact .refl _
  · exact ⟨[x], hover⟩

/-- A token can begin where a text does, or behind white space. -/
theorem matches_opening_iff {new : Captures} :
    opening.Matches c e new ↔ new = [] ∧ Opens c e := by
  constructor
  · rintro (⟨_, _, _, ⟨hstart, rfl, rfl⟩, ⟨rfl, rfl⟩, rfl⟩ |
      ⟨_, _, _, ⟨x, rest, hrest, hx, rfl, rfl⟩, ⟨rfl, rfl⟩, rfl⟩)
    · exact ⟨rfl, .inl ⟨Option.isNone_iff_eq_none.mp hstart, rfl⟩⟩
    · exact ⟨rfl, .inr ⟨x, hx, .advance hrest⟩⟩
  · rintro ⟨rfl, ⟨hstart, rfl⟩ | ⟨x, hx, hover⟩⟩
    · exact .inl ⟨e, [], [], ⟨Option.isNone_iff_eq_none.mpr hstart, rfl, rfl⟩, ⟨rfl, rfl⟩, rfl⟩
    · have hrest : c.rest = x :: e.rest := hover.1
      exact .inr ⟨e, [], [], ⟨x, e.rest, hrest, hx, hover.unique (.advance hrest), rfl⟩, ⟨rfl, rfl⟩,
        rfl⟩

/-- A token ends where a text does, or in front of white space. -/
theorem exists_matches_closing_iff :
    (∃ d, closing.Matches f d []) ↔ ∀ y ∈ f.rest.head?, Unicode.isSpace y = true := by
  constructor
  · rintro ⟨d, ⟨_, _, _, ⟨x, rest, hrest, hx, rfl, rfl⟩, ⟨rfl, rfl⟩, -⟩ |
      ⟨_, _, _, ⟨hend, rfl, rfl⟩, ⟨rfl, rfl⟩, -⟩⟩ y hy
    · rw [hrest] at hy
      cases hy
      exact hx
    · rw [Look.holds, hy] at hend
      cases hend
  · intro h
    cases hrest : f.rest with
    | nil =>
      have hend : Look.textEnd.holds f.before f.rest.head? = true := by
        rw [hrest]
        rfl
      exact ⟨f, .inr ⟨f, [], [], ⟨hend, rfl, rfl⟩, ⟨rfl, rfl⟩, rfl⟩⟩
    | cons x rest =>
      have hx : Unicode.isSpace x = true := h x (by rw [hrest]; rfl)
      exact ⟨f.advance x rest, .inl ⟨_, [], [], ⟨x, rest, hrest, hx, rfl, rfl⟩, ⟨rfl, rfl⟩, rfl⟩⟩

variable {mapping : Mapping} (hne : mapping ≠ []) (hkeys : mapping.Words)

def flanked : Flanked where
  passed := []
  front := [opening]
  main := row [mapping.keyPattern]
  behind := closing
  passed_bare := List.forall_mem_nil _
  bare := by
    simp [opening, closing, row, nodes, mapping.nodes_keyPattern]
  passed_nonempty := List.forall_mem_nil _
  main_nonempty := by
    rw [language_row_singleton, Mapping.mem_language_keyPattern hne]
    exact fun hnil => (hkeys.of_mem hnil).1 rfl
  proper := by
    simp [opening, closing, row, proper, mapping.proper_keyPattern]

variable {hne hkeys}

theorem lexical_keys : (row [mapping.keyPattern]).lexical = true := by
  rw [row, List.foldr_cons, lexical, mapping.lexical_keyPattern]
  rfl

/-- **A capture is a key between white space or the ends of the text.** -/
theorem captured_iff : (∃ d, (flanked hne hkeys).Captured c e f d) ↔ Opens c e ∧
    (∃ key, String.ofList key ∈ mapping.map Prod.fst ∧ e.Over key f) ∧
    ∀ y ∈ f.rest.head?, Unicode.isSpace y = true := by
  have hmain : (row [mapping.keyPattern]).Matches e f [] ↔
      ∃ key, String.ofList key ∈ mapping.map Prod.fst ∧ e.Over key f := by
    rw [matches_iff_mem_language lexical_keys, language_row_singleton]
    simp only [Mapping.mem_language_keyPattern hne, true_and]
  constructor
  · rintro ⟨d, ⟨_, _, _, hopening, ⟨rfl, rfl⟩, -⟩, hkey, hclosing⟩
    exact ⟨(matches_opening_iff.mp hopening).2, hmain.mp hkey,
      exists_matches_closing_iff.mp ⟨d, hclosing⟩⟩
  · rintro ⟨hopens, hkey, hclosing⟩
    obtain ⟨d, hd⟩ := exists_matches_closing_iff.mpr hclosing
    exact ⟨d, ⟨e, [], [], matches_opening_iff.mpr ⟨rfl, hopens⟩, ⟨rfl, rfl⟩, rfl⟩,
      hmain.mpr hkey, hd⟩

/-! ### Walking from token to token -/

/-- `Stands c e word f`: the next token from `c` on is `word`, which stands from `e` to `f`. It may
be empty if a character of white space stands in front of it. -/
structure Stands (c e : Cursor) (word : List Char) (f : Cursor) : Prop where
  opens : Opens c e
  first : c = e → word ≠ []
  token : e.Over word f
  plain : ∀ y ∈ word, Unicode.isSpace y = false
  ends : ∀ y ∈ f.rest.head?, Unicode.isSpace y = true

/-- A token stands next where the text begins, and in front of white space. -/
theorem exists_stands
    (hc : c.before = none ∨ ∀ y ∈ c.rest.head?, Unicode.isSpace y = true) (hrest : c.rest ≠ []) :
    ∃ e word f, Stands c e word f := by
  obtain ⟨x, text, hcons⟩ := List.exists_cons_of_ne_nil hrest
  by_cases hx : Unicode.isSpace x = true
  · obtain ⟨word, tail, rfl, hword, htail⟩ := exists_token text
    have hspace : c.Over [x] (c.advance x (word ++ tail)) := .advance hcons
    obtain ⟨f, hover, rfl⟩ := Cursor.exists_over (c := (c.advance x (word ++ tail))) rfl
    refine ⟨_, word, f, .inr ⟨x, hx, hspace⟩, fun hsame => ?_, hover, hword, htail⟩
    have hlt := hspace.offset_lt (List.cons_ne_nil x [])
    rw [← hsame] at hlt
    exact absurd hlt (Nat.lt_irrefl _)
  · have hbefore : c.before = none :=
      hc.resolve_right fun h => hx (h x (by rw [hcons]; rfl))
    obtain ⟨word, tail, hsplit, hword, htail⟩ := exists_token c.rest
    obtain ⟨f, hover, rfl⟩ := Cursor.exists_over hsplit
    refine ⟨c, word, f, .inl ⟨hbefore, rfl⟩, fun _ => ?_, hover, hword, htail⟩
    rintro rfl
    exact hx (htail x (by rw [← List.nil_append f.rest, ← hsplit, hcons]; rfl))

namespace Stands

/-- In front of a token there is at most one character of white space. -/
theorem exists_gap (h : Stands c e word f) :
    ∃ gap, c.Over gap e ∧ (gap = [] ∨ ∃ x, gap = [x]) ∧
      (∀ y ∈ gap, Unicode.isSpace y = true) ∧ gap ++ word ≠ [] := by
  rcases h.opens with ⟨-, rfl⟩ | ⟨x, hx, hspace⟩
  · exact ⟨[], .refl e, .inl rfl, List.forall_mem_nil _, h.first rfl⟩
  · exact ⟨[x], hspace, .inr ⟨x, rfl⟩, List.forall_mem_singleton.mpr hx, List.cons_ne_nil _ _⟩

theorem length_lt (h : Stands c e word f) : f.rest.length < c.rest.length := by
  obtain ⟨gap, hgap, -, -, hne⟩ := h.exists_gap
  have hover := hgap.trans h.token
  exact Cursor.Reaches.length_lt ⟨_, hover⟩ (hover.offset_lt hne)

end Stands

/-- **Induction from token to token.** -/
theorem token_induction {motive : Cursor → Prop} (stop : ∀ c, c.rest = [] → motive c)
    (step : ∀ c e word f, Stands c e word f → motive f → motive c) {c : Cursor}
    (hc : c.before = none ∨ ∀ y ∈ c.rest.head?, Unicode.isSpace y = true) : motive c := by
  induction hlength : c.rest.length using Nat.strongRecOn generalizing c with
  | ind length ih =>
    by_cases hrest : c.rest = []
    · exact stop c hrest
    · obtain ⟨e, word, f, hstands⟩ := exists_stands hc hrest
      exact step c e word f hstands (ih _ (hlength ▸ hstands.length_lt) (.inr hstands.ends) rfl)

/-- At the end of the text there is no match. -/
theorem matchAt_end (hrest : c.rest = []) :
    (flanked hne hkeys).matcher.program.matchAt c = none := by
  rcases (flanked hne hkeys).matchAt_branch c with ⟨e, f, d, hcaptured, -⟩ | ⟨hnone, -⟩
  · have hlt := hcaptured.resumes.length_lt
    rw [hrest] at hlt
    cases hlt
  · exact hnone

/-- Inside a token there is no match. -/
theorem matchAt_inside (hbefore : c.before ≠ none)
    (hrest : ∀ y ∈ c.rest.head?, Unicode.isSpace y = false) :
    (flanked hne hkeys).matcher.program.matchAt c = none := by
  rcases (flanked hne hkeys).matchAt_branch c with ⟨e, f, d, hcaptured, -⟩ | ⟨hnone, -⟩
  · obtain ⟨⟨hstart, -⟩ | ⟨x, hx, hover⟩, -⟩ := captured_iff.mp ⟨d, hcaptured⟩
    · exact absurd hstart hbefore
    · have hnot := hrest x (by rw [hover.1]; rfl)
      rw [hx] at hnot
      cases hnot
  · exact hnone

namespace Stands

/-- A position and what is captured by a match from there on are told by the text. -/
theorem eq_of_opens (h : Stands c e word f) {e' f' : Cursor} {key : List Char}
    (hopens : Opens c e') (hkey : ∀ y ∈ key, Unicode.isSpace y = false) (hnonempty : key ≠ [])
    (hover : e'.Over key f') : e' = e := by
  rcases h.opens with ⟨-, rfl⟩ | ⟨x, hx, hspace⟩
  · rcases hopens with ⟨-, rfl⟩ | ⟨x, hx, hspace⟩
    · rfl
    · -- the token at the start of the text does not begin with white space
      obtain ⟨y, word, rfl⟩ := List.exists_cons_of_ne_nil (h.first rfl)
      obtain ⟨rfl, -⟩ := List.cons.inj (hspace.1.symm.trans h.token.1)
      have hnot := h.plain x List.mem_cons_self
      rw [hx] at hnot
      cases hnot
  · rcases hopens with ⟨-, rfl⟩ | ⟨x', hx', hspace'⟩
    · -- a key does not begin with white space
      obtain ⟨y, key, rfl⟩ := List.exists_cons_of_ne_nil hnonempty
      obtain ⟨rfl, -⟩ := List.cons.inj (hspace.1.symm.trans hover.1)
      have hnot := hkey x List.mem_cons_self
      rw [hx] at hnot
      cases hnot
    · obtain ⟨rfl, -⟩ := List.cons.inj (hspace.1.symm.trans hspace'.1)
      exact hspace'.unique hspace

/-- **The match at a token**: if it is a key it is captured, else there is no match. -/
theorem matchAt_token (h : Stands c e word f) :
    (String.ofList word ∈ mapping.map Prod.fst ∧ ∃ d, (flanked hne hkeys).Captured c e f d ∧
      (flanked hne hkeys).matcher.program.matchAt c = some (Flanked.found c e f d)) ∨
    (String.ofList word ∉ mapping.map Prod.fst ∧
      (flanked hne hkeys).matcher.program.matchAt c = none) := by
  rcases (flanked hne hkeys).matchAt_branch c with ⟨e', f', d, hcaptured, hmatch⟩ | ⟨hnone, hnot⟩
  · obtain ⟨hopens, ⟨key, hkey, hover⟩, htail⟩ := captured_iff.mp ⟨d, hcaptured⟩
    obtain ⟨hnonempty, hplain⟩ := hkeys.of_mem hkey
    obtain rfl := h.eq_of_opens hopens hplain hnonempty hover
    have hsame : word = key := by
      refine stretch_unique (!Unicode.isSpace ·) ?_ ?_ ?_ ?_ (h.token.1.symm.trans hover.1)
      · simpa using h.plain
      · simpa using hplain
      · simpa using h.ends
      · simpa using htail
    subst hsame
    obtain rfl := h.token.unique hover
    exact .inl ⟨hkey, d, hcaptured, hmatch⟩
  · refine .inr ⟨fun hkey => ?_, hnone⟩
    obtain ⟨d, hcaptured⟩ := (captured_iff).mpr
      ⟨h.opens, ⟨word, hkey, h.token⟩, h.ends⟩
    exact hnot e f d hcaptured

/-- Up to the end of a token that is no key there is no match. -/
theorem matchAt_other (h : Stands c e word f) (hkey : String.ofList word ∉ mapping.map Prod.fst)
    {gap : List Char} (hgap : c.Over gap e) (hshort : gap = [] ∨ ∃ x, gap = [x])
    {front back : List Char} {b : Cursor} (hparts : gap ++ word = front ++ back)
    (hback : back ≠ []) (hfront : c.Over front b) (hlater : b.Over back f) :
    (flanked hne hkeys).matcher.program.matchAt b = none := by
  cases front with
  | nil =>
    obtain rfl := hfront.eq_of_nil
    rcases matchAt_token h with ⟨hmem, -⟩ | ⟨-, hnone⟩
    · exact absurd hmem hkey
    · exact hnone
  | cons z front =>
    have hinside : ∀ y ∈ back, y ∈ word := by
      intro y hy
      rcases hshort with rfl | ⟨x, rfl⟩
      · obtain rfl : word = z :: front ++ back := hparts
        exact List.mem_append_right (z :: front) hy
      · obtain ⟨-, rfl⟩ := List.cons.inj hparts
        exact List.mem_append_right front hy
    refine matchAt_inside ?_ ?_
    · rw [hfront.2.2, List.getLast?_cons]
      simp
    · intro y hy
      obtain ⟨x, back, rfl⟩ := List.exists_cons_of_ne_nil hback
      rw [hlater.1] at hy
      cases hy
      exact h.plain y (hinside y List.mem_cons_self)

/-- One token is rewritten. -/
theorem rewrites (h : Stands c e word f)
    (later : (flanked hne hkeys).matcher.Rewrites mapping.change? f (mapping.mentionedIn f.rest)
      (mapping.renameTokens f.rest)) :
    (flanked hne hkeys).matcher.Rewrites mapping.change? c (mapping.mentionedIn c.rest)
      (mapping.renameTokens c.rest) := by
  obtain ⟨gap, hgap, hshort, hspaces, -⟩ := h.exists_gap
  obtain ⟨hrenamedGap, hmentionedGap⟩ :=
    Mapping.Words.renameTokens_gap hkeys hspaces
  obtain ⟨hrenamed, hmentioned⟩ := hkeys.renameTokens_token h.plain h.ends
  rw [hgap.1, h.token.1, hrenamedGap, hmentionedGap, hrenamed, hmentioned]
  rcases matchAt_token h with
    ⟨hkey, d, hcaptured, hmatch⟩ | ⟨hkey, -⟩
  · exact .hit hmatch hcaptured.resumes Flanked.capture?_found hgap h.token (.refl f) later
  · have hskipped := Matcher.Rewrites.skips (hgap.trans h.token)
      (fun front back b hparts hback => h.matchAt_other hkey hgap hshort hparts hback) later
    rw [Mapping.change?_of_notMem hkey]
    simpa using hskipped

end Stands

/-- The tokens of a text are rewritten one after the other. -/
theorem rewrites_start (text : List Char) :
    (flanked hne hkeys).matcher.Rewrites mapping.change? (.start text) (mapping.mentionedIn text)
      (mapping.renameTokens text) := by
  refine token_induction (motive := fun c => (flanked hne hkeys).matcher.Rewrites mapping.change? c
    (mapping.mentionedIn c.rest) (mapping.renameTokens c.rest)) ?_
    (fun c e word f hstands later => hstands.rewrites later) (.inl rfl)
  intro c hrest
  have hnil : mapping.mentionedIn [] = false ∧ mapping.renameTokens [] = [] := by
    simp [Mapping.mentionedIn, Mapping.renameTokens, pieces, hkeys.change?_nil]
  rw [hrest, hnil.1, hnil.2]
  exact .stop hrest (matchAt_end hrest)

/-- **The template for tokens renames the tokens that are keys**, and yields no text if there are
none. -/
theorem changed?_replaceCaptures (text : List Char) :
    ((flanked hne hkeys).matcher.replaceCaptures (Lookup.ofMapping mapping true) text).changed? =
      mapping.renameTokens? text := by
  rw [Matcher.replaceCaptures_eq_rewrite]
  exact (rewrites_start text).changed?_rewrite (flanked hne hkeys).advances

end Tokens

end Relabel
