import Relabel.Proofs.Lexing
import Relabel.Proofs.Walking

/-!
# Class selectors

A class is renamed if it stands in a selector, and what tells a selector from a value is what
follows it: the text leads to the brace that opens a rule. Without comments and strings this is told
by the first character that ends a declaration, or opens or closes a block (`Css.opensRule`), and
then renaming is exact.

Comments and strings are stepped over where a search begins. What follows an identifier, however, is
matched with a repeated choice in which a slash may stand on its own and a comment may end at any of
its ends, so a comment is read as one only as long as it suits the match (`Css.LeadsToBrace`): a
brace inside a comment can be taken for the one that opens a rule. If no comment is on the way, the
classes that are found stand in selectors.
-/

open scoped Computability

namespace Relabel.Css

open Pattern Lexicon

/-! ### The pattern of a class selector -/

/-- The characters that may follow an identifier in a selector. -/
def delimiter : CharSet :=
  ['#', '[', ']', ':', ',', '>', '+', '~', '(', ')', '*', '|'].foldl
    (fun s c => s.union (.single c)) (.union .space (.single '.'))

def preludeChar : CharSet :=
  .compl (['\x7b', '\x7d', '"', '\'', '/'].foldl (fun s c => s.union (.single c)) (.single ';'))

def preludeItem : Pattern :=
  .alt (row [.set preludeChar]) (.alt commentPattern
    (.alt (stringPattern '"') (.alt (stringPattern '\'') (row [char '/']))))

def preludePattern : Pattern :=
  row [.repeated 0 (some 1) true (row [.alt (row [.set delimiter]) commentPattern,
    Pattern.star preludeItem]), char '\x7b']

def markedPattern (mark : Char) (keys : Pattern) : Pattern :=
  row [row [char mark], .group 1 (some "main".toList) (row [keys]),
    .group 2 (some "ahead".toList) preludePattern]

/-- The fragments that stand for a mark, with the mark: of a class, of an identifier and of a
pseudo-class. -/
def marks : List (String × Char) :=
  [("\\.", '.'), ("#", '#'), (":", ':')]

theorem dot_mem_marks : ("\\.", '.') ∈ marks := by
  decide

theorem sign_mem_marks : ("#", '#') ∈ marks := by
  decide

theorem colon_mem_marks : (":", ':') ∈ marks := by
  decide

section

variable {front : String} {mark : Char}

theorem mem_marks : (front, mark) ∈ marks ↔
    front = "\\." ∧ mark = '.' ∨ front = "#" ∧ mark = '#' ∨ front = ":" ∧ mark = ':' := by
  simp [marks]

set_option maxRecDepth 4000 in
/-- The expression for identifiers behind a mark in selectors. -/
theorem exists_markedExpression (h : (front, mark) ∈ marks) :
    ∃ e, querySelectors ⟨some front, none⟩ = .ok [e] ∧
      e.Spells (fun _ => [])
        fun mapping => choice (markedPattern mark mapping.keyPattern) skipped := by
  rw [mem_marks] at h
  have hchoice : ∀ mapping : Mapping, ofBranches (markedPattern mark mapping.keyPattern) skipped =
      choice (markedPattern mark mapping.keyPattern) skipped := by
    rcases h with ⟨-, rfl⟩ | ⟨-, rfl⟩ | ⟨-, rfl⟩ <;> exact fun mapping => ofBranches_of_apart rfl
  have hfront : Fragment.optional (some front) = "(?:" ++ front ++ ")" := by
    rcases h with ⟨rfl, -⟩ | ⟨rfl, -⟩ | ⟨rfl, -⟩ <;> rfl
  unfold querySelectors
  simp only [hfront]
  refine Fragment.exists_direct ?_ fun mapping => ?_
  · simp only [Fragment.cssSkipped, Fragment.cssComment, Fragment.cssString, String.toList_append]
    rcases h with ⟨rfl, -⟩ | ⟨rfl, -⟩ | ⟨rfl, -⟩ <;> rfl
  · rw [← hchoice]
    simp only [Fragment.cssSkipped, Fragment.cssComment, Fragment.cssString, String.toList_append]
    rcases h with ⟨rfl, rfl⟩ | ⟨rfl, rfl⟩ | ⟨rfl, rfl⟩ <;> rfl

end

/-! ### What leads to the brace -/

def isTerminator (c : Char) : Bool :=
  c == ';' || c == '\x7b' || c == '\x7d'

/-- The characters other than the brace that may follow an identifier in a selector. -/
def endsName (c : Char) : Bool :=
  Unicode.isSpace c ||
    ['.', '#', '[', ']', ':', ',', '>', '+', '~', '(', ')', '*', '|'].contains c

/-- Whether a text begins and ends like a comment, whatever stands between. -/
def isCommentText : List Char → Bool
  | '/' :: '*' :: inside => ['*', '/'].isSuffixOf inside
  | _ => false

/-- Whether a lexeme may stand between a selector and the brace if it is read leniently: a comment
may go on behind its first end, and a slash may be read on its own. -/
def isLenient : Lexeme → Bool
  | .comment part => isCommentText part
  | .string quote body => string? (quote :: (body ++ [quote])) == some (quote, body, [])
  | .char c => !isTerminator c && c != '"' && c != '\''

/-- Whether a lexeme may follow an identifier in a selector. -/
def followsName : Lexeme → Bool
  | .comment _ => true
  | .string _ _ => false
  | .char c => endsName c

/-- A text begins and ends like a comment if it is written like one. -/
theorem isCommentText_iff {part : List Char} :
    isCommentText part = true ↔ ∃ body, part = commentText body := by
  constructor
  · intro h
    unfold isCommentText at h
    split at h
    · obtain ⟨body, rfl⟩ := List.isSuffixOf_iff_suffix.mp h
      exact ⟨body, rfl⟩
    · cases h
  · rintro ⟨body, rfl⟩
    exact List.isSuffixOf_iff_suffix.mpr ⟨body, rfl⟩

theorem contains_delimiter (c : Char) : delimiter.contains c = endsName c := by
  rw [Bool.eq_iff_iff]
  simp [delimiter, endsName, CharSet.contains, CharSet.contains_single, or_assoc]

/-- Read leniently, a character stands for itself unless it is a slash. -/
theorem contains_preludeChar (c : Char) :
    preludeChar.contains c = (isLenient (.char c) && c != '/') := by
  rw [Bool.eq_iff_iff]
  simp [preludeChar, isLenient, isTerminator, CharSet.contains, CharSet.contains_single,
    and_assoc]

theorem isLenient_of_endsName {c : Char} (h : endsName c = true) :
    isLenient (.char c) = true := by
  by_cases hplain : isLenient (.char c) = true
  · exact hplain
  · have hc : c = ';' ∨ c = '\x7b' ∨ c = '\x7d' ∨ c = '"' ∨ c = '\'' := by
      simp only [isLenient, isTerminator] at hplain
      grind
    rcases hc with rfl | rfl | rfl | rfl | rfl <;> revert h <;> decide

/-- A literal may stand between a selector and the brace if it is a string. -/
theorem isLenient_string_iff {quote : Char} {body : List Char} :
    isLenient (.string quote body) = true ↔
      (quote = '"' ∨ quote = '\'') ∧ body ∈ (stringItem quote).language∗ := by
  rw [isLenient, beq_iff_eq, string?_eq_some_iff]
  constructor
  · rintro ⟨hquote, inside, heq, hinside⟩
    exact ⟨hquote, mem_kstar_of_quoted? hinside⟩
  · rintro ⟨hquote, hbody⟩
    exact ⟨hquote, body ++ [quote], rfl, quoted?_append hquote hbody []⟩

/-- What stands between a selector and the brace is read leniently. -/
theorem mem_language_preludeItem {part : List Char} :
    part ∈ preludeItem.language ↔ ∃ l : Lexeme, isLenient l = true ∧ part = l.text := by
  simp only [preludeItem, mem_language_alt]
  constructor
  · rintro (⟨_, ⟨x, hx, rfl⟩, _, rfl, rfl⟩ | hcomment | hstring | hstring |
      ⟨_, hslash, _, rfl, rfl⟩)
    · rw [contains_preludeChar, Bool.and_eq_true] at hx
      exact ⟨.char x, hx.1, rfl⟩
    · obtain ⟨body, rfl⟩ := mem_language_delimited.mp hcomment
      exact ⟨.comment _, isCommentText_iff.mpr ⟨body, rfl⟩, rfl⟩
    · obtain ⟨body, hbody, rfl⟩ := mem_language_stringPattern.mp hstring
      exact ⟨.string _ body, isLenient_string_iff.mpr ⟨.inl rfl, hbody⟩, rfl⟩
    · obtain ⟨body, hbody, rfl⟩ := mem_language_stringPattern.mp hstring
      exact ⟨.string _ body, isLenient_string_iff.mpr ⟨.inr rfl, hbody⟩, rfl⟩
    · obtain rfl := mem_language_char.mp hslash
      exact ⟨.char '/', rfl, rfl⟩
  · rintro ⟨l, hl, rfl⟩
    cases l with
    | comment part =>
      exact .inr (.inl (mem_language_delimited.mpr (isCommentText_iff.mp hl)))
    | string quote body =>
      obtain ⟨rfl | rfl, hbody⟩ := isLenient_string_iff.mp hl
      · exact .inr (.inr (.inl (mem_language_stringPattern.mpr ⟨body, hbody, rfl⟩)))
      · exact .inr (.inr (.inr (.inl (mem_language_stringPattern.mpr ⟨body, hbody, rfl⟩))))
    | char x =>
      by_cases hslash : x = '/'
      · subst hslash
        exact .inr (.inr (.inr (.inr ⟨_, mem_language_char.mpr rfl, [], rfl, rfl⟩)))
      · refine .inl ⟨[x], ⟨x, ?_, rfl⟩, [], rfl, rfl⟩
        rw [contains_preludeChar, hl]
        simpa using hslash

/-- What stands between a selector and the brace consists of lexemes, read leniently. -/
theorem mem_language_preludeItem_star {part : List Char} :
    part ∈ preludeItem.language∗ ↔
      ∃ steps : List Lexeme, (∀ l ∈ steps, isLenient l = true) ∧
        part = steps.flatMap Lexeme.text := by
  rw [Language.mem_kstar]
  constructor
  · rintro ⟨parts, rfl, hparts⟩
    induction parts with
    | nil => exact ⟨[], by simp, rfl⟩
    | cons part parts ih =>
      obtain ⟨hpart, hlater⟩ := List.forall_mem_cons.mp hparts
      obtain ⟨l, hl, rfl⟩ := mem_language_preludeItem.mp hpart
      obtain ⟨steps, hsteps, heq⟩ := ih hlater
      exact ⟨l :: steps, List.forall_mem_cons.mpr ⟨hl, hsteps⟩, by
        rw [List.flatten_cons, List.flatMap_cons, heq]⟩
  · rintro ⟨steps, hsteps, rfl⟩
    refine ⟨steps.map Lexeme.text, List.flatMap_def, fun part hpart => ?_⟩
    obtain ⟨l, hl, rfl⟩ := List.mem_map.mp hpart
    exact mem_language_preludeItem.mpr ⟨l, hsteps l hl, rfl⟩

/-- What may follow an identifier in a selector, other than the brace. -/
theorem mem_language_delimiter {first : List Char} :
    first ∈ (Pattern.alt (row [.set delimiter]) commentPattern).language ↔
      ∃ l : Lexeme, isLenient l = true ∧ followsName l = true ∧ first = l.text := by
  constructor
  · rintro (⟨_, ⟨x, hx, rfl⟩, _, rfl, rfl⟩ | hcomment)
    · rw [contains_delimiter] at hx
      exact ⟨.char x, isLenient_of_endsName hx, hx, rfl⟩
    · obtain ⟨body, rfl⟩ := mem_language_delimited.mp hcomment
      exact ⟨.comment _, isCommentText_iff.mpr ⟨body, rfl⟩, rfl, rfl⟩
  · rintro ⟨l, hl, hends, rfl⟩
    cases l with
    | comment part => exact .inr (mem_language_delimited.mpr (isCommentText_iff.mp hl))
    | string quote body => cases hends
    | char x => exact .inl ⟨[x], ⟨x, (contains_delimiter x).trans hends, rfl⟩, [], rfl, rfl⟩

/-- **What follows the identifier leads to a brace**, if it is read leniently. -/
theorem mem_language_preludePattern {part : List Char} :
    part ∈ preludePattern.language ↔ ∃ steps : List Lexeme, (∀ l ∈ steps, isLenient l = true) ∧
      (∀ l ∈ steps.head?, followsName l = true) ∧ part = steps.flatMap Lexeme.text ++ ['\x7b'] := by
  rw [preludePattern, mem_language_row_cons]
  constructor
  · rintro ⟨front, hfront, _, ⟨_, hbrace, _, rfl, rfl⟩, rfl⟩
    obtain rfl := mem_language_char.mp hbrace
    rcases mem_language_optional.mp hfront with
      rfl | ⟨first, hfirst, _, ⟨later, hlater, _, rfl, rfl⟩, rfl⟩
    · exact ⟨[], by simp, by simp, rfl⟩
    · obtain ⟨l, hl, hends, rfl⟩ := mem_language_delimiter.mp hfirst
      rw [language_star] at hlater
      obtain ⟨steps, hsteps, rfl⟩ := mem_language_preludeItem_star.mp hlater
      refine ⟨l :: steps, List.forall_mem_cons.mpr ⟨hl, hsteps⟩, ?_, by simp⟩
      simpa using hends
  · rintro ⟨steps, hsteps, hhead, rfl⟩
    refine ⟨_, mem_language_optional.mpr ?_, _, ⟨_, mem_language_char.mpr rfl, [], rfl, rfl⟩, rfl⟩
    cases steps with
    | nil => exact .inl rfl
    | cons l steps =>
      obtain ⟨hl, hsteps⟩ := List.forall_mem_cons.mp hsteps
      refine .inr ⟨l.text, mem_language_delimiter.mpr ⟨l, hl, hhead l rfl, rfl⟩, _,
        ⟨_, ?_, [], rfl, List.append_nil _⟩, rfl⟩
      rw [language_star]
      exact mem_language_preludeItem_star.mpr ⟨steps, hsteps, rfl⟩

/-! ### Where class selectors are found -/

section Classes

variable {mapping : Mapping} {c d e f : Cursor}

/-- Identifiers behind a mark as captures between flanks. -/
def marked (hne : mapping ≠ []) (hkeys : mapping.Identifiers) (mark : Char) : Flanked where
  passed := skipped
  front := [row [char mark]]
  main := row [mapping.keyPattern]
  behind := preludePattern
  passed_bare := nodes_of_mem_skipped
  bare := by
    simp only [List.forall_mem_cons]
    exact ⟨mapping.nodes_row_keyPattern, rfl, rfl, List.forall_mem_nil _⟩
  passed_nonempty := nil_notMem_language_of_mem_skipped
  main_nonempty := hkeys.nil_notMem_row hne
  proper := by
    simp only [List.forall_mem_cons]
    exact ⟨mapping.proper_row_keyPattern, rfl, rfl, List.forall_mem_nil _⟩

variable {hne : mapping ≠ []} {hkeys : mapping.Identifiers}

/-- The flanks and the capture make up the pattern of the template. -/
theorem pattern_marked (mark : Char) :
    (marked hne hkeys mark).pattern = choice (markedPattern mark mapping.keyPattern) skipped :=
  rfl

/-- An identifier is captured behind its mark, in front of what leads to a brace. -/
theorem captured_marked_iff {mark : Char} :
    (marked hne hkeys mark).Captured c e f d ↔ c.Over [mark] e ∧
      (∃ key, String.ofList key ∈ mapping.map Prod.fst ∧ e.Over key f) ∧
      ∃ tail ∈ preludePattern.language, f.Over tail d := by
  constructor
  · rintro ⟨hfront, hmain, hbehind⟩
    obtain ⟨first, hfirst, hfirstOver⟩ := hfront.exists_mem_language
    obtain ⟨key, hkey, hkeyOver⟩ := hmain.exists_mem_language
    rw [marked, language_row_singleton, language_row_singleton, mem_language_char] at hfirst
    rw [marked, language_row_singleton, Mapping.mem_language_keyPattern hne] at hkey
    exact ⟨hfirst ▸ hfirstOver, ⟨key, hkey, hkeyOver⟩, hbehind.exists_mem_language⟩
  · rintro ⟨hfirst, ⟨key, hkey, hkeyOver⟩, tail, htail, htailOver⟩
    refine ⟨matches_of_mem_language rfl ?_ hfirst, matches_of_mem_language ?_ ?_ hkeyOver,
      matches_of_mem_language rfl htail htailOver⟩
    · rw [marked, language_row_singleton, language_row_singleton, mem_language_char]
    · simp [marked, row, lexical, mapping.lexical_keyPattern]
    · rwa [marked, language_row_singleton, Mapping.mem_language_keyPattern hne]

/-- What leads to a brace does not begin like an identifier. -/
theorem exists_cons_of_mem_language_preludePattern {tail : List Char}
    (h : tail ∈ preludePattern.language) :
    ∃ x rest, tail = x :: rest ∧ isIdentifierChar x = false := by
  obtain ⟨steps, hsteps, hhead, rfl⟩ := mem_language_preludePattern.mp h
  cases steps with
  | nil => exact ⟨_, _, rfl, rfl⟩
  | cons l steps =>
    have hends := hhead l rfl
    cases l with
    | comment part =>
      obtain ⟨body, rfl⟩ := isCommentText_iff.mp (hsteps _ List.mem_cons_self)
      exact ⟨'/', _, rfl, rfl⟩
    | string quote body => cases hends
    | char x =>
      refine ⟨x, _, rfl, ?_⟩
      by_cases hx : isIdentifierChar x = true
      · have hnot : endsName x = false :=
          forall_isIdentifierChar (P := fun x => endsName x = false) (by decide) hx
        rw [followsName, hnot] at hends
        cases hends
      · simpa using hx

/-- A period opens neither a comment nor a string. -/
theorem not_isSkipped_of_dot {first : Lexeme} {rest : List Char} (hdot : c.Over ['.'] e)
    (h : lexicon.lexeme? c.rest = some (first, rest)) : first.isSkipped = false := by
  rw [hdot.1] at h
  cases h.symm.trans (lexeme?_of_isInert (c := '.') rfl e.rest)
  rfl

/-- **A class that leads to a brace is matched**, and no other one at the same period. -/
theorem matchAt_classes (h : (marked hne hkeys '.').Captured c e f d) :
    ∃ d', (marked hne hkeys '.').matcher.program.matchAt c = some (Flanked.found c e f d') := by
  obtain ⟨hdot, ⟨key, hkey, hkeyOver⟩, tail, htail, htailOver⟩ := captured_marked_iff.mp h
  rcases matchAt_flanked (s := marked hne hkeys '.') rfl c with ⟨first, _, hfirst, hskipped, -, -⟩ |
    ⟨-, -, ⟨e', f', d', hcaptured, hmatch⟩ | ⟨-, hnot⟩⟩
  · rw [not_isSkipped_of_dot hdot hfirst] at hskipped
    cases hskipped
  · obtain ⟨hdot', ⟨key', hkey', hkeyOver'⟩, tail', htail', htailOver'⟩ :=
      captured_marked_iff.mp hcaptured
    obtain rfl := hdot.unique hdot'
    obtain ⟨x, rest, rfl, hx⟩ := exists_cons_of_mem_language_preludePattern htail
    obtain ⟨x', rest', rfl, hx'⟩ := exists_cons_of_mem_language_preludePattern htail'
    have hsame : key = key' := by
      refine stretch_unique _ (hkeys.of_mem hkey).2 (hkeys.of_mem hkey').2 ?_ ?_
        (hkeyOver.1.symm.trans hkeyOver'.1)
      · rw [htailOver.1]
        simpa using hx
      · rw [htailOver'.1]
        simpa using hx'
    subst hsame
    obtain rfl := hkeyOver.unique hkeyOver'
    exact ⟨d', hmatch⟩
  · exact absurd h (hnot e f d)

/-- No match that begins in front of a period reaches over it if no comment and no string does. -/
theorem resumes_classes_reaches {b : Cursor} {m : Match} (hdot : c.Over ['.'] e)
    (hreaches : b.Reaches c) (hne' : b ≠ c)
    (hplain : ∀ part x, b.Over part c → x ∈ part.head? → lexicon.isInert x = true)
    (hmatch : (marked hne hkeys '.').matcher.program.matchAt b = some m)
    (hresumes : (marked hne hkeys '.').matcher.Resumes m b d) : d.Reaches c := by
  rcases matchAt_flanked (s := marked hne hkeys '.') rfl b with ⟨first, _, hfirst, hskipped, -, -⟩ |
    ⟨-, -, ⟨e', f', d', hcaptured, hmatch'⟩ | ⟨hnone, -⟩⟩
  · obtain ⟨part, hpart⟩ := hreaches
    cases part with
    | nil => exact absurd hpart.eq_of_nil.symm hne'
    | cons x part =>
      have hinert := hplain _ x hpart rfl
      rw [hpart.1, List.cons_append, lexeme?_of_isInert hinert] at hfirst
      obtain ⟨rfl, -⟩ := Prod.mk.inj (Option.some.inj hfirst)
      cases hskipped
  · cases hmatch.symm.trans hmatch'
    obtain rfl := hcaptured.resumes.unique hresumes
    obtain ⟨hdot', ⟨key, hkey, hkeyOver⟩, -⟩ := captured_marked_iff.mp hcaptured
    rcases (hdot'.trans hkeyOver).reaches_or hreaches with
      hlater | ⟨front, back, heq, hback, hfront, hlater⟩
    · exact hlater
    · -- the period would stand among the characters of the identifier
      exfalso
      cases front with
      | nil => exact hne' hfront.eq_of_nil.symm
      | cons y front =>
        obtain ⟨-, rfl⟩ := List.cons.inj heq
        obtain ⟨x, back, rfl⟩ := List.exists_cons_of_ne_nil hback
        obtain rfl : '.' = x := (List.cons.inj (hdot.1.symm.trans hlater.1)).1
        have hx := (hkeys.of_mem hkey).2 '.' (List.mem_append_right front List.mem_cons_self)
        cases hx
  · rw [hnone] at hmatch
    cases hmatch

/-- The span of an identifier behind a period. -/
theorem classSpan_eq {text front key : List Char} (hc : (Cursor.start text).Over front c)
    (he : c.Over ['.'] e) (hf : e.Over key f) :
    (⟨e.offset, f.offset⟩ : Span) = ⟨byteSize front + 1, byteSize front + 1 + byteSize key⟩ := by
  have hstart : (Cursor.start text).offset = 0 := rfl
  have hdot : byteSize ['.'] = 1 := rfl
  rw [hf.2.1, he.2.1, hc.2.1, hstart, hdot, Nat.zero_add]

/-- **Classes are found behind everything that is neither comment nor string.** -/
theorem mem_captureSpans_classes {text front key tail rest : List Char}
    (htext : text = front ++ ('.' :: (key ++ (tail ++ rest))))
    (hfront : ∀ x ∈ front, lexicon.isInert x = true)
    (hkey : String.ofList key ∈ mapping.map Prod.fst) (htail : tail ∈ preludePattern.language) :
    ⟨byteSize front + 1, byteSize front + 1 + byteSize key⟩ ∈
      (marked hne hkeys '.').matcher.captureSpans text := by
  have hstart : (Cursor.start text).rest = front ++ ('.' :: (key ++ (tail ++ rest))) := htext
  obtain ⟨c, hc, hcrest⟩ := Cursor.exists_over hstart
  obtain ⟨e, he, herest⟩ := Cursor.exists_over (show c.rest = ['.'] ++ _ from hcrest)
  obtain ⟨f, hf, hfrest⟩ := Cursor.exists_over herest
  obtain ⟨d, hd, -⟩ := Cursor.exists_over hfrest
  have hcaptured : (marked hne hkeys '.').Captured c e f d :=
    captured_marked_iff.mpr ⟨he, ⟨key, hkey, hf⟩, tail, htail, hd⟩
  obtain ⟨d', hmatch⟩ := matchAt_classes hcaptured
  obtain ⟨offset, hmem⟩ :=
      (marked hne hkeys '.').advances.mem_hits_of_isolated ⟨front, hc⟩ hmatch <| by
    rintro b m d'' ⟨part, hb⟩ hbc hne' hm hresumes
    refine resumes_classes_reaches he hbc hne' ?_ hm hresumes
    rintro part' x hpart' hx
    have hsplit : front = part ++ part' :=
      List.append_cancel_right (hc.1.symm.trans (hb.trans hpart').1)
    refine hfront x ?_
    rw [hsplit]
    exact List.mem_append_right part (List.mem_of_mem_head? hx)
  rw [← classSpan_eq hc he hf]
  exact Flanked.mem_captureSpans_of_mem_hits hmem

/-- **Classes are found in front of what leads to a brace.** -/
theorem exists_of_mem_captureSpans_classes {text : List Char} {s : Span}
    (h : s ∈ (marked hne hkeys '.').matcher.captureSpans text) :
    ∃ front key tail rest, text = front ++ ('.' :: (key ++ (tail ++ rest))) ∧
      String.ofList key ∈ mapping.map Prod.fst ∧ tail ∈ preludePattern.language ∧
      s = ⟨byteSize front + 1, byteSize front + 1 + byteSize key⟩ := by
  rw [Matcher.captureSpans_eq_hits] at h
  obtain ⟨⟨m, offset⟩, hmem, hcapture⟩ := List.mem_filterMap.mp h
  obtain ⟨c, ⟨front, hc⟩, -, hmatch⟩ :=
    (marked hne hkeys '.').advances.hits_invariant (fun _ => True)
      (fun _ _ _ _ _ _ => trivial) (fun _ _ _ _ _ _ => trivial) trivial _ hmem
  rcases Flanked.matchAt_cases hmatch with ⟨d, -, -, rfl⟩ | ⟨e, f, d, hcaptured, rfl⟩
  · rw [Flanked.capture?_pass] at hcapture
    cases hcapture
  · rw [Flanked.capture?_found] at hcapture
    cases hcapture
    obtain ⟨hdot, ⟨key, hkey, hkeyOver⟩, tail, htail, htailOver⟩ :=
      captured_marked_iff.mp hcaptured
    refine ⟨front, key, tail, d.rest, ?_, hkey, htail, ?_⟩
    · rw [← htailOver.1, ← hkeyOver.1]
      exact hc.1.trans (congrArg (front ++ ·) hdot.1)
    · exact classSpan_eq hc hdot hkeyOver

end Classes

/-! ### Style sheets without comments and strings -/

/-- Whether a text that follows an identifier is the rest of a selector, up to the brace that opens
the rule: the identifier ends where the text begins, and the brace is the first character that ends
a declaration or opens or closes a block. -/
def opensRule (text : List Char) : Bool :=
  (text.head?.any fun c => c == '\x7b' || endsName c) && text.find? isTerminator == some '\x7b'

/-- A lexeme without slashes and quotes is a character. -/
theorem eq_char_of_isInert {l : Lexeme} (hl : isLenient l = true)
    (h : ∀ c ∈ l.text, lexicon.isInert c = true) : ∃ c, l = .char c := by
  cases l with
  | comment part =>
    obtain ⟨body, rfl⟩ := isCommentText_iff.mp hl
    cases h '/' List.mem_cons_self
  | string quote body =>
    have hquote := h quote List.mem_cons_self
    obtain ⟨rfl | rfl, -⟩ := isLenient_string_iff.mp hl
    · cases hquote
    · cases hquote
  | char c => exact ⟨c, rfl⟩

/-- Where nothing opens a comment or a string, lenient lexemes are single characters. -/
theorem exists_chars_of_isInert {steps : List Lexeme} (hsteps : ∀ l ∈ steps, isLenient l = true)
    (h : ∀ c ∈ steps.flatMap Lexeme.text, lexicon.isInert c = true) :
    ∃ chars : List Char, steps = chars.map .char := by
  induction steps with
  | nil => exact ⟨[], rfl⟩
  | cons l steps ih =>
    obtain ⟨hl, hlater⟩ := List.forall_mem_cons.mp hsteps
    rw [List.flatMap_cons, List.forall_mem_append] at h
    obtain ⟨c, rfl⟩ := eq_char_of_isInert hl h.1
    obtain ⟨chars, rfl⟩ := ih hlater h.2
    exact ⟨c :: chars, rfl⟩

/-- Without comments and strings, what leads to a brace is told by its characters. -/
theorem exists_mem_language_preludePattern_iff {text : List Char}
    (h : ∀ c ∈ text, lexicon.isInert c = true) :
    (∃ tail ∈ preludePattern.language, ∃ rest, text = tail ++ rest) ↔ opensRule text = true := by
  rw [opensRule, Bool.and_eq_true, beq_iff_eq, List.find?_eq_some_iff_append]
  constructor
  · rintro ⟨tail, htail, rest, rfl⟩
    obtain ⟨steps, hsteps, hhead, rfl⟩ := mem_language_preludePattern.mp htail
    have hinert : ∀ c ∈ steps.flatMap Lexeme.text, lexicon.isInert c = true :=
      fun c hc => h c (List.mem_append_left _ (List.mem_append_left _ hc))
    obtain ⟨chars, rfl⟩ := exists_chars_of_isInert hsteps hinert
    rw [Lexeme.flatMap_text_chars, List.append_assoc, List.singleton_append]
    refine ⟨?_, rfl, chars, rest, rfl, fun c hc => ?_⟩
    · cases chars with
      | nil => rfl
      | cons c chars => simpa [followsName] using .inr (hhead _ rfl)
    · have hlenient := hsteps _ (List.mem_map_of_mem hc)
      simp only [isLenient, Bool.and_eq_true] at hlenient
      exact hlenient.1.1
  · rintro ⟨hhead, -, front, rest, rfl, hfront⟩
    refine ⟨front ++ ['\x7b'], mem_language_preludePattern.mpr ⟨front.map .char, ?_, ?_, ?_⟩, rest,
      by simp⟩
    · intro l hl
      obtain ⟨c, hc, rfl⟩ := List.mem_map.mp hl
      have hopener := notMem_of_isInert (h c (List.mem_append_left _ hc))
      have hquotes : c ≠ '"' ∧ c ≠ '\'' :=
        ⟨fun heq => hopener (by rw [heq]; decide), fun heq => hopener (by rw [heq]; decide)⟩
      simpa [isLenient, hquotes] using hfront c hc
    · cases front with
      | nil => simp
      | cons c front =>
        have hc : c ≠ '\x7b' := by
          rintro rfl
          cases hfront '\x7b' List.mem_cons_self
        simpa [followsName, hc] using hhead
    · rw [Lexeme.flatMap_text_chars]

/-- The edits that rename classes: a key stands behind a period, and what follows opens a rule. -/
def IsClassEdit (mapping : Mapping) (text : List Char) (edit : Edit) : Prop :=
  ∃ front key back value, text = front ++ ('.' :: (key ++ back)) ∧ opensRule back = true ∧
    mapping.lookup (String.ofList key) = some value ∧
    edit = ⟨⟨byteSize front + 1, byteSize front + 1 + byteSize key⟩, value.toList⟩

/-- Behind the period stands the key. -/
theorem slice?_class {text front key back : List Char}
    (h : text = front ++ ('.' :: (key ++ back))) :
    (⟨byteSize front + 1, byteSize front + 1 + byteSize key⟩ : Span).slice? text = some key := by
  refine Span.slice?_eq_some_iff.mpr ⟨front ++ ['.'], back, by simp [h], ?_, rfl⟩
  rw [byteSize_append]
  rfl

/-- What an expression finds and replaces, said of the captures, if it has one template and that
captures between flanks. -/
theorem findsAt_flanked {e : Expression} {pattern : Mapping → Pattern}
    (hspells : e.Spells (fun _ => []) pattern) (hregular : e.Regular) {mapping : Mapping}
    (hne : mapping ≠ []) {s : Flanked} (hs : s.pattern = pattern mapping) (text : String) :
    e.FindsAt mapping text (s.matcher.captureSpans text.toList) := by
  have hfinds := hspells.findsAt hregular hne text
  rw [← hs] at hfinds
  have hspans : Matcher.occurrences [s.matcher] text.toList = s.matcher.captureSpans text.toList :=
    Matcher.occurrences_singleton s.compiled
  exact hspans ▸ hfinds

/-- What an expression for identifiers behind a mark finds and replaces, said of the captures. -/
theorem exists_marked_found {front : String} {mark : Char} (h : (front, mark) ∈ marks)
    {mapping : Mapping} (hne : mapping ≠ []) (hkeys : mapping.Identifiers) (text : String) :
    ∃ e, querySelectors ⟨some front, none⟩ = .ok [e] ∧
      e.FindsAt mapping text ((marked hne hkeys mark).matcher.captureSpans text.toList) := by
  obtain ⟨e, he, hspells⟩ := exists_markedExpression h
  have hplain : Options.Plain (.querySelectors ⟨some front, none⟩) := by
    rw [mem_marks] at h
    rcases h with ⟨rfl, -⟩ | ⟨rfl, -⟩ | ⟨rfl, -⟩ <;> exact ⟨by decide, rfl⟩
  have hregular : e.Regular := Grammar.css.expressions_ensures hplain _ he e List.mem_cons_self
  exact ⟨e, he, findsAt_flanked hspells hregular hne (pattern_marked mark) text⟩

/-- **Class selectors are renamed exactly** in a style sheet without comments and strings. An
identifier is replaced if it is a key, stands behind a period, and is followed by the rest of a
selector; nothing else changes. -/
theorem classes_renamed_exactly {mapping : Mapping} {text : String} (hne : mapping ≠ [])
    (hkeys : mapping.Identifiers) (htext : ∀ c ∈ text.toList, lexicon.isInert c = true) :
    ∃ e edits out, querySelectors ⟨some "\\.", none⟩ = .ok [e] ∧
      (∀ edit, edit ∈ edits ↔ IsClassEdit mapping text.toList edit) ∧
      Patched 0 text.toList edits out ∧
      (e.replaceAll text mapping).outcome =
        .ok (if edits = [] then none else some (String.ofList out)) := by
  obtain ⟨e, he, hfinds⟩ := exists_marked_found dot_mem_marks hne hkeys text
  obtain ⟨out, hpatched, hreplaced⟩ := hfinds.replaced
  refine ⟨e, _, out, he, fun edit => ?_, hpatched, hreplaced⟩
  rw [List.mem_filterMap]
  constructor
  · rintro ⟨s, hs, hedit⟩
    obtain ⟨front, key, tail, rest, hsplit, hkey, htail, rfl⟩ :=
      exists_of_mem_captureSpans_classes hs
    rw [Lookup.edit?_of_slice? (slice?_class hsplit), Option.map_eq_some_iff] at hedit
    obtain ⟨value, hvalue, rfl⟩ := hedit
    refine ⟨front, key, tail ++ rest, value, hsplit, ?_, hvalue, rfl⟩
    refine (exists_mem_language_preludePattern_iff fun c hc => htext c ?_).mp
      ⟨tail, htail, rest, rfl⟩
    simp [hsplit, List.mem_append.mp hc]
  · rintro ⟨front, key, back, value, hsplit, hopens, hvalue, rfl⟩
    have hback : ∀ c ∈ back, lexicon.isInert c = true := by
      intro c hc
      exact htext c (by simp [hsplit, hc])
    obtain ⟨tail, htail, rest, rfl⟩ := (exists_mem_language_preludePattern_iff hback).mpr hopens
    refine ⟨_, mem_captureSpans_classes hsplit ?_ ?_ htail, ?_⟩
    · intro c hc
      exact htext c (by simp [hsplit, hc])
    · exact Mapping.mem_of_lookup hvalue
    · rw [Lookup.edit?_of_slice? (slice?_class hsplit), hvalue]
      rfl

theorem classes_renamed_swapped :
    ∃ e edits out, querySelectors ⟨some "\\.", none⟩ = .ok [e] ∧
      ⟨⟨1, 2⟩, ['b']⟩ ∈ edits ∧ ⟨⟨3, 4⟩, ['a']⟩ ∈ edits ∧
      Patched 0 ".a.b\x7bc:url(x.a)\x7d".toList edits out ∧
      (e.replaceAll ".a.b\x7bc:url(x.a)\x7d" [("a", "b"), ("b", "a")]).outcome =
        .ok (some (String.ofList out)) := by
  have hkeys : Mapping.Identifiers [("a", "b"), ("b", "a")] := by
    decide
  obtain ⟨e, edits, out, he, hedits, hpatched, hreplaced⟩ :=
    @classes_renamed_exactly [("a", "b"), ("b", "a")] ".a.b\x7bc:url(x.a)\x7d" (by decide) hkeys
      (List.all_eq_true.mp (by decide))
  have hfirst : ⟨⟨1, 2⟩, ['b']⟩ ∈ edits :=
    (hedits _).mpr ⟨[], ['a'], ".b\x7bc:url(x.a)\x7d".toList, "b", by decide, by decide, by decide,
      by decide⟩
  have hsecond : ⟨⟨3, 4⟩, ['a']⟩ ∈ edits :=
    (hedits _).mpr ⟨".a".toList, ['b'], "\x7bc:url(x.a)\x7d".toList, "a", by decide, by decide,
      by decide, by decide⟩
  rw [if_neg (List.ne_nil_of_mem hfirst)] at hreplaced
  exact ⟨e, edits, out, he, hfirst, hsecond, hpatched, hreplaced⟩

/-! ### Style sheets with comments and strings -/

/-- The character of a lexeme that ends a declaration, or opens or closes a block. -/
def ending? : Lexeme → Option Char
  | .char c => if isTerminator c then some c else none
  | _ => none

/-- The first character outside comments and strings that ends a declaration, or opens or closes a
block. -/
def terminator? (text : List Char) : Option Char :=
  (lexicon.lexemes text).findSome? ending?

/-- What is read before that character. -/
def prelude (text : List Char) : List Lexeme :=
  (lexicon.lexemes text).takeWhile fun l => (ending? l).isNone

/-- `LeadsToBrace text`: read leniently, the text is the rest of a selector, up to a brace. -/
def LeadsToBrace (text : List Char) : Prop :=
  ∃ (steps : List Lexeme) (rest : List Char), (∀ l ∈ steps, isLenient l = true) ∧
    (∀ l ∈ steps.head?, followsName l = true) ∧ text = steps.flatMap Lexeme.text ++ '\x7b' :: rest

/-- What ends a declaration is looked for lexeme by lexeme. -/
theorem terminator?_of_lexeme? {text rest : List Char} {first : Lexeme}
    (h : lexicon.lexeme? text = some (first, rest)) (hfirst : ending? first = none) :
    terminator? text = terminator? rest ∧ prelude text = first :: prelude rest := by
  constructor
  · rw [terminator?, lexemes_of_lexeme? h, List.findSome?_cons, hfirst]
    rfl
  · rw [prelude, lexemes_of_lexeme? h, List.takeWhile_cons, hfirst]
    rfl

/-- Where no comment begins, what is read leniently is read strictly. -/
theorem lexeme?_of_lenient {l : Lexeme} {back : List Char} (hl : isLenient l = true)
    (hcomment : comment? (l.text ++ back) = none) :
    lexicon.lexeme? (l.text ++ back) = some (l, back) := by
  cases l with
  | comment part =>
    obtain ⟨body, rfl⟩ := isCommentText_iff.mp hl
    have hsome := comment?_isSome body back
    rw [Lexeme.text] at hcomment
    rw [hcomment] at hsome
    cases hsome
  | string quote body =>
    obtain ⟨hquote, hbody⟩ := isLenient_string_iff.mp hl
    have hstring : string? ((Lexeme.string quote body).text ++ back) = some (quote, body, back) :=
      string?_eq_some_iff.mpr ⟨hquote, body ++ quote :: back, by simp [Lexeme.text],
        quoted?_append hquote hbody back⟩
    exact lexeme?_of_string? hcomment hstring
  | char c =>
    refine lexeme?_of_char hcomment ?_
    simp only [isLenient, Bool.and_eq_true, bne_iff_ne] at hl
    rw [lexicon_string?, string?, if_neg (by simp [hl.1.2, hl.2])]

/-- Nothing that ends a declaration is read leniently. -/
theorem ending?_of_isLenient {l : Lexeme} (hl : isLenient l = true) : ending? l = none := by
  cases l with
  | comment part => rfl
  | string quote body => rfl
  | char c =>
    simp only [isLenient, Bool.and_eq_true, Bool.not_eq_true'] at hl
    rw [ending?, hl.1.1, if_neg Bool.false_ne_true]

/-- If no comment is read before the terminator, none begins here. -/
theorem comment?_eq_none_of_prelude {text : List Char}
    (h : ∀ l ∈ prelude text, l.isComment = false) : comment? text = none := by
  rw [Option.eq_none_iff_forall_ne_some]
  rintro ⟨part, rest⟩ hcomment
  rw [(terminator?_of_lexeme? (lexeme?_of_comment? hcomment) rfl).2] at h
  cases h _ List.mem_cons_self

/-- **If no comment stands in the way, the lenient reading is the strict one.** -/
theorem terminator?_of_lenient {steps : List Lexeme} {rest : List Char}
    (hsteps : ∀ l ∈ steps, isLenient l = true)
    (hcomments : ∀ l ∈ prelude (steps.flatMap Lexeme.text ++ '\x7b' :: rest), l.isComment = false) :
    terminator? (steps.flatMap Lexeme.text ++ '\x7b' :: rest) = some '\x7b' := by
  induction steps with
  | nil =>
    rw [terminator?, List.flatMap_nil, List.nil_append,
      lexemes_of_lexeme? (lexeme?_of_isInert rfl rest)]
    rfl
  | cons l steps ih =>
    obtain ⟨hl, hlater⟩ := List.forall_mem_cons.mp hsteps
    rw [List.flatMap_cons, List.append_assoc] at hcomments ⊢
    obtain ⟨hterminator, hprelude⟩ := terminator?_of_lexeme?
      (lexeme?_of_lenient hl (comment?_eq_none_of_prelude hcomments)) (ending?_of_isLenient hl)
    rw [hprelude] at hcomments
    rw [hterminator]
    exact ih hlater (List.forall_mem_cons.mp hcomments).2

/-- **Classes are found in selectors only**, as far as comments allow. Every identifier that is
captured, which is what is reported, is a key behind a period, and what follows it leads to a brace
if a comment may be taken apart or go on behind its end. If no comment is read before the first
character that ends a declaration, or opens or closes a block, then that character is the brace that
opens a rule. -/
theorem classes_found_in_selectors {mapping : Mapping} (text : String) (hne : mapping ≠ [])
    (hkeys : mapping.Identifiers) :
    ∃ (e : Expression) (found : List Span),
      querySelectors ⟨some "\\.", none⟩ = .ok [e] ∧ e.FindsAt mapping text found ∧
      ∀ s ∈ found, ∃ front key back, text.toList = front ++ ('.' :: (key ++ back)) ∧
        s = ⟨byteSize front + 1, byteSize front + 1 + byteSize key⟩ ∧
        String.ofList key ∈ mapping.map Prod.fst ∧ LeadsToBrace back ∧
        ((∀ l ∈ prelude back, l.isComment = false) → terminator? back = some '\x7b') := by
  obtain ⟨e, he, hfinds⟩ := exists_marked_found dot_mem_marks hne hkeys text
  refine ⟨e, _, he, hfinds, fun s hs => ?_⟩
  obtain ⟨front, key, tail, rest, hsplit, hkey, htail, rfl⟩ := exists_of_mem_captureSpans_classes hs
  obtain ⟨steps, hsteps, hhead, rfl⟩ := mem_language_preludePattern.mp htail
  rw [List.append_assoc, List.singleton_append] at hsplit
  exact ⟨front, key, _, hsplit, rfl, hkey, ⟨steps, rest, hsteps, hhead, rfl⟩,
    fun hcomments => terminator?_of_lenient hsteps hcomments⟩

theorem identifiers_png : Mapping.Identifiers [("png", "p")] := by
  decide

theorem pattern_png : String.ofList (Lookup.ofMapping [("png", "p")] true).pattern = "png" := by
  rw [Lookup.pattern_singleton]
  decide

theorem classes_found_in_selectors_png :
    ([("png", "p")] : Mapping) ≠ [] ∧ Mapping.Identifiers [("png", "p")] ∧
    ∃ (e : Expression) (found : List Span),
      querySelectors ⟨some "\\.", none⟩ = .ok [e] ∧
      e.FindsAt [("png", "p")] "a\x7bb:url(x.png)\x7d.png '\x7d'\x7b\x7d" found ∧
      ∀ s ∈ found, ∃ front key back,
        "a\x7bb:url(x.png)\x7d.png '\x7d'\x7b\x7d".toList = front ++ ('.' :: (key ++ back)) ∧
        s = ⟨byteSize front + 1, byteSize front + 1 + byteSize key⟩ ∧ LeadsToBrace back ∧
        ((∀ l ∈ prelude back, l.isComment = false) → terminator? back = some '\x7b') := by
  obtain ⟨e, found, he, hfinds, hall⟩ := classes_found_in_selectors
    "a\x7bb:url(x.png)\x7d.png '\x7d'\x7b\x7d" (by decide) identifiers_png
  refine ⟨by decide, identifiers_png, e, found, he, hfinds, fun s hs => ?_⟩
  obtain ⟨front, key, back, hsplit, hspan, -, hbrace, hstrict⟩ := hall s hs
  exact ⟨front, key, back, hsplit, hspan, hbrace, hstrict⟩

/-- A brace in a comment can be taken for the one that opens a rule. -/
theorem captureSpans_marked_png :
    (marked (by decide) identifiers_png '.').matcher.captureSpans
      "a\x7bbackground:url(x.png /* \x7b */)\x7d".toList = [⟨19, 22⟩] := by
  have hpattern : (marked (by decide) identifiers_png '.').pattern =
      choice (markedPattern '.' (row ("png".toList.map char))) skipped := by
    rw [pattern_marked, Mapping.keyPattern_singleton]
    rfl
  rw [Flanked.captureSpans_eq_trace hpattern rfl]
  decide +kernel

/-- A class can be found in a value if a comment follows it. -/
theorem class_found_in_value :
    ∃ e, querySelectors ⟨some "\\.", none⟩ = .ok [e] ∧
      (e.findAll "a\x7bbackground:url(x.png /* \x7b */)\x7d" "png").outcome = .ok ["png"] ∧
      terminator? " /* \x7b */)\x7d".toList = some '\x7d' := by
  obtain ⟨e, he, hfinds⟩ := exists_marked_found dot_mem_marks (by decide) identifiers_png
    "a\x7bbackground:url(x.png /* \x7b */)\x7d"
  obtain ⟨texts, htexts, hfound⟩ := hfinds.reported
  rw [captureSpans_marked_png] at htexts
  have hslices : texts.map some = ["png".toList].map some := htexts.symm.trans (by decide)
  obtain rfl := List.map_injective_iff.mpr (Option.some_injective _) hslices
  rw [pattern_png] at hfound
  exact ⟨e, he, hfound, by decide +kernel⟩

end Relabel.Css
