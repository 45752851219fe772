import Relabel.Proofs.Filling
import Relabel.Proofs.Flanked
import Relabel.Proofs.Lexemes

/-!
# Comments and strings in style sheets

The lexemes of a style sheet are closed comments, closed string literals and characters
(`Css.lexicon`). The templates for style sheets step over comments and strings, since these are
their first alternatives: where such a lexeme begins, it is the match, and where none begins the
match is that of the last alternative (`Css.matchAt_of_skipped`, `Css.matchAt_of_char`).
-/

open scoped Computability

namespace Relabel.Css

open Pattern Lexicon

/-- The content of a string literal up to the closing quote, on one line, and what follows. A
backslash takes the next character with it. -/
def quoted? (quote : Char) : List Char → Option (List Char × List Char)
  | [] => none
  | [c] => if c = quote then some ([], []) else none
  | c :: d :: rest =>
    if c = quote then some ([], d :: rest)
    else if c = '\n' then none
    else if c = '\\' then
      if d = '\n' then none
      else (quoted? quote rest).map fun (body, rest) => (c :: d :: body, rest)
    else (quoted? quote (d :: rest)).map fun (body, rest) => (c :: body, rest)

def commentText (body : List Char) : List Char :=
  ['/', '*'] ++ (body ++ ['*', '/'])

/-- The closed comment at the start of a text, and what follows. -/
def comment? : List Char → Option (List Char × List Char)
  | '/' :: '*' :: inside =>
    (upTo? ['*', '/'] inside).map fun (body, rest) => (commentText body, rest)
  | _ => none

/-- The quote and the content of a closed string at the start of a text, and what follows. -/
def string? : List Char → Option (Char × List Char × List Char)
  | c :: inside =>
    if c = '"' ∨ c = '\'' then (quoted? c inside).map fun found => (c, found) else none
  | [] => none

theorem eq_append_of_quoted? {quote : Char} {text body rest : List Char}
    (h : quoted? quote text = some (body, rest)) : text = body ++ quote :: rest := by
  fun_induction quoted? quote text generalizing body rest with
  | case1 => cases h
  | case2 => cases h; rfl
  | case3 => cases h
  | case4 d rest' => cases h; rfl
  | case5 => cases h
  | case6 => cases h
  | case7 d rest' _ _ hd ih =>
    obtain ⟨⟨body', behind⟩, hlater, heq⟩ := Option.map_eq_some_iff.mp h
    cases heq
    rw [ih hlater]
    rfl
  | case8 c d rest' _ _ _ ih =>
    obtain ⟨⟨body', behind⟩, hlater, heq⟩ := Option.map_eq_some_iff.mp h
    cases heq
    rw [ih hlater]
    rfl

/-- A comment begins with its opening delimiter and goes up to the first closing one. -/
theorem comment?_eq_some_iff {text part rest : List Char} :
    comment? text = some (part, rest) ↔ ∃ inside body, text = '/' :: '*' :: inside ∧
      upTo? ['*', '/'] inside = some (body, rest) ∧ part = commentText body := by
  constructor
  · intro h
    unfold comment? at h
    split at h
    · rename_i inside
      obtain ⟨⟨body, rest'⟩, hinside, heq⟩ := Option.map_eq_some_iff.mp h
      obtain ⟨rfl, rfl⟩ := Prod.mk.inj heq
      exact ⟨inside, body, rfl, hinside, rfl⟩
    · cases h
  · rintro ⟨inside, body, rfl, h, rfl⟩
    rw [comment?, h]
    rfl

/-- A string begins with a quotation mark and goes up to the closing one on the same line. -/
theorem string?_eq_some_iff {text body rest : List Char} {quote : Char} :
    string? text = some (quote, body, rest) ↔ (quote = '"' ∨ quote = '\'') ∧
      ∃ inside, text = quote :: inside ∧ quoted? quote inside = some (body, rest) := by
  constructor
  · intro h
    unfold string? at h
    split at h
    · rename_i c inside
      split at h
      · rename_i hquote
        obtain ⟨found, hfound, heq⟩ := Option.map_eq_some_iff.mp h
        cases heq
        exact ⟨hquote, inside, rfl, hfound⟩
      · cases h
    · cases h
  · rintro ⟨hquote, inside, rfl, h⟩
    rw [string?, if_pos hquote, h]
    rfl

/-- Nothing of the text is lost when a comment is taken. -/
theorem eq_append_of_comment? {text part rest : List Char} (h : comment? text = some (part, rest)) :
    text = part ++ rest ∧ part ≠ [] := by
  obtain ⟨inside, body, rfl, hinside, rfl⟩ := comment?_eq_some_iff.mp h
  rw [eq_append_of_upTo? hinside]
  simp [commentText]

/-- Nothing of the text is lost when a string is taken. -/
theorem eq_append_of_string? {text body rest : List Char} {quote : Char}
    (h : string? text = some (quote, body, rest)) :
    text = (Lexeme.string quote body).text ++ rest := by
  obtain ⟨-, inside, rfl, hinside⟩ := string?_eq_some_iff.mp h
  rw [eq_append_of_quoted? hinside]
  simp [Lexeme.text]

def lexicon : Lexicon where
  comment? := comment?
  string? := string?
  openers := ['/', '"', '\'']
  eq_append_of_comment? := eq_append_of_comment?
  eq_append_of_string? := eq_append_of_string?
  plain_of_notMem := by
    intro c hc rest
    simp only [List.mem_cons, List.not_mem_nil, or_false, not_or] at hc
    simp [comment?, string?, hc]

theorem lexicon_string? : lexicon.string? = string? :=
  rfl

/-! ### The patterns of comments and strings -/

def commentPattern : Pattern :=
  delimited ['/', '*'] ['*', '/']

def stringChar (quote : Char) : CharSet :=
  .compl (.union (.union (.single quote) (.single '\\')) (.single '\n'))

def stringItem (quote : Char) : Pattern :=
  .alt (row [.set (stringChar quote)]) (row [char '\\', .set (.compl (.single '\n'))])

def stringPattern (quote : Char) : Pattern :=
  row [char quote, star (stringItem quote), char quote]

def skipped : List Pattern :=
  [stringPattern '\'', stringPattern '"', commentPattern]

theorem contains_stringChar {quote x : Char} :
    (stringChar quote).contains x = true ↔ x ≠ quote ∧ x ≠ '\\' ∧ x ≠ '\n' := by
  simp [stringChar, CharSet.contains, CharSet.contains_single, and_assoc]

/-- A string consists of plain characters and of backslashes with the character behind each. -/
theorem mem_language_stringItem {quote : Char} {part : List Char} :
    part ∈ (stringItem quote).language ↔
      (∃ x, x ≠ quote ∧ x ≠ '\\' ∧ x ≠ '\n' ∧ part = [x]) ∨
        ∃ x, x ≠ '\n' ∧ part = ['\\', x] := by
  rw [stringItem, mem_language_alt]
  refine or_congr ?_ ?_
  · constructor
    · rintro ⟨_, ⟨x, hx, rfl⟩, _, rfl, rfl⟩
      obtain ⟨hquote, hslash, hline⟩ := contains_stringChar.mp hx
      exact ⟨x, hquote, hslash, hline, rfl⟩
    · rintro ⟨x, hquote, hslash, hline, rfl⟩
      exact ⟨[x], ⟨x, contains_stringChar.mpr ⟨hquote, hslash, hline⟩, rfl⟩, [], rfl, rfl⟩
  · constructor
    · rintro ⟨_, hslash, _, ⟨_, ⟨x, hx, rfl⟩, _, rfl, rfl⟩, rfl⟩
      obtain rfl := mem_language_char.mp hslash
      exact ⟨x, by simpa [CharSet.contains, CharSet.contains_single] using hx, rfl⟩
    · rintro ⟨x, hline, rfl⟩
      refine ⟨['\\'], mem_language_char.mpr rfl, [x], ⟨[x], ⟨x, ?_, rfl⟩, [], rfl, rfl⟩, rfl⟩
      simpa [CharSet.contains, CharSet.contains_single] using hline

/-- A string is what it consists of between two quotation marks. -/
theorem mem_language_stringPattern {quote : Char} {part : List Char} :
    part ∈ (stringPattern quote).language ↔
      ∃ body ∈ (stringItem quote).language∗, part = quote :: (body ++ [quote]) := by
  rw [stringPattern, mem_language_row_cons]
  constructor
  · rintro ⟨_, hopen, _, ⟨body, hbody, _, ⟨_, hclose, _, rfl, rfl⟩, rfl⟩, rfl⟩
    obtain rfl := mem_language_char.mp hopen
    obtain rfl := mem_language_char.mp hclose
    exact ⟨body, language_star (stringItem quote) ▸ hbody, rfl⟩
  · rintro ⟨body, hbody, rfl⟩
    rw [← language_star] at hbody
    exact ⟨[quote], mem_language_char.mpr rfl, body ++ [quote], ⟨body, hbody, [quote],
      ⟨[quote], mem_language_char.mpr rfl, [], rfl, rfl⟩, rfl⟩, rfl⟩

/-- What a string consists of is read up to the closing quote. -/
theorem quoted?_append {quote : Char} (hquote : quote = '"' ∨ quote = '\'') {body : List Char}
    (hbody : body ∈ (stringItem quote).language∗) (rest : List Char) :
    quoted? quote (body ++ quote :: rest) = some (body, rest) := by
  obtain ⟨items, rfl, hitems⟩ := Language.mem_kstar.mp hbody
  clear hbody
  have hnot : quote ≠ '\\' := by rcases hquote with rfl | rfl <;> decide
  induction items with
  | nil => cases rest <;> simp [quoted?]
  | cons item items ih =>
    obtain ⟨hitem, hitems⟩ := List.forall_mem_cons.mp hitems
    have hlater := ih hitems
    rw [List.flatten_cons, List.append_assoc]
    rcases mem_language_stringItem.mp hitem with ⟨x, hx, hslash, hline, rfl⟩ | ⟨x, hline, rfl⟩
    · obtain ⟨y, later, hcons⟩ := List.exists_cons_of_ne_nil
        (show items.flatten ++ quote :: rest ≠ [] by simp)
      rw [hcons] at hlater ⊢
      rw [List.singleton_append, quoted?, if_neg hx, if_neg hline, if_neg hslash, hlater]
      rfl
    · rw [List.cons_append, List.singleton_append, quoted?, if_neg hnot.symm, if_neg (by decide),
        if_pos rfl, if_neg hline, hlater]
      rfl

/-- The content of a string consists of what strings consist of. -/
theorem mem_kstar_of_quoted? {quote : Char} {text body rest : List Char}
    (h : quoted? quote text = some (body, rest)) : body ∈ (stringItem quote).language∗ := by
  fun_induction quoted? quote text generalizing body rest with
  | case1 => cases h
  | case2 => cases h; exact Language.nil_mem_kstar _
  | case3 => cases h
  | case4 => cases h; exact Language.nil_mem_kstar _
  | case5 => cases h
  | case6 => cases h
  | case7 d rest' hd _ _ ih =>
    obtain ⟨⟨body', behind⟩, hlater, heq⟩ := Option.map_eq_some_iff.mp h
    cases heq
    exact append_mem_kstar (mem_language_stringItem.mpr (.inr ⟨d, hd, rfl⟩)) (ih hlater)
  | case8 c d rest' hquote hline hslash ih =>
    obtain ⟨⟨body', behind⟩, hlater, heq⟩ := Option.map_eq_some_iff.mp h
    cases heq
    have hitem : [c] ∈ (stringItem quote).language :=
      mem_language_stringItem.mpr (.inl ⟨c, hquote, hslash, hline, rfl⟩)
    exact append_mem_kstar hitem (ih hlater)

/-! ### Lexing in parts -/

/-- A closed comment stays one, whatever follows. -/
theorem comment?_append {text part rest : List Char} (h : comment? text = some (part, rest))
    (more : List Char) : comment? (text ++ more) = some (part, rest ++ more) := by
  obtain ⟨inside, body, rfl, hinside, rfl⟩ := comment?_eq_some_iff.mp h
  exact comment?_eq_some_iff.mpr ⟨_, body, rfl, upTo?_append hinside more, rfl⟩

/-- A closed string stays one, whatever follows. -/
theorem string?_append {text body rest : List Char} {quote : Char}
    (h : string? text = some (quote, body, rest)) (more : List Char) :
    string? (text ++ more) = some (quote, body, rest ++ more) := by
  obtain ⟨hquote, inside, rfl, hinside⟩ := string?_eq_some_iff.mp h
  refine string?_eq_some_iff.mpr ⟨hquote, inside ++ more, rfl, ?_⟩
  rw [eq_append_of_quoted? hinside, List.append_assoc, List.cons_append]
  exact quoted?_append hquote (mem_kstar_of_quoted? hinside) (rest ++ more)

/-- What is written as a comment is taken for one. -/
theorem comment?_isSome (body rest : List Char) :
    (comment? (commentText body ++ rest)).isSome = true := by
  have htext : commentText body ++ rest = '/' :: '*' :: (body ++ (['*', '/'] ++ rest)) := by
    simp [commentText]
  rw [htext, comment?, Option.isSome_map]
  exact upTo?_isSome body ['*', '/'] rest

theorem comment?_eq_none_of_append {text more : List Char} (h : comment? (text ++ more) = none) :
    comment? text = none := by
  rw [Option.eq_none_iff_forall_ne_some]
  rintro ⟨part, rest⟩ hcomment
  rw [comment?_append hcomment] at h
  cases h

theorem string?_eq_none_of_append {text more : List Char} (h : string? (text ++ more) = none) :
    string? text = none := by
  rw [Option.eq_none_iff_forall_ne_some]
  rintro ⟨quote, body, rest⟩ hstring
  rw [string?_append hstring] at h
  cases h

/-- The first lexeme does not depend on what follows it. -/
theorem lexeme?_of_append {first : Lexeme} {rest more : List Char}
    (h : lexicon.lexeme? (first.text ++ rest ++ more) = some (first, rest ++ more)) :
    lexicon.lexeme? (first.text ++ rest) = some (first, rest) := by
  rcases lexeme?_cases h with ⟨part, rfl, hcomment⟩ | ⟨quote, body, rfl, hcomment, hstring⟩ |
    ⟨c, rfl, hcomment, hstring, -⟩
  · obtain ⟨_, body, -, -, rfl⟩ := comment?_eq_some_iff.mp hcomment
    obtain ⟨⟨part', rest'⟩, hshort⟩ := Option.isSome_iff_exists.mp (comment?_isSome body rest)
    have hsame := hcomment.symm.trans (comment?_append hshort more)
    obtain ⟨rfl, hrest⟩ := Prod.mk.inj (Option.some.inj hsame)
    obtain rfl := List.append_cancel_right hrest
    exact lexeme?_of_comment? hshort
  · rw [lexicon_string?] at hstring
    obtain ⟨hquote, inside, heq, hinside⟩ := string?_eq_some_iff.mp hstring
    refine lexeme?_of_string? (comment?_eq_none_of_append hcomment) ?_
    rw [lexicon_string?]
    exact string?_eq_some_iff.mpr ⟨hquote, body ++ quote :: rest, by simp [Lexeme.text],
      quoted?_append hquote (mem_kstar_of_quoted? hinside) rest⟩
  · rw [lexicon_string?] at hstring
    exact lexeme?_of_char (comment?_eq_none_of_append hcomment) (string?_eq_none_of_append hstring)

/-- **A text may be lexed in two parts** if no comment and no string has the character at which the
second part begins. -/
theorem lexemes_append {front back : List Char}
    (h : ∀ l ∈ lexicon.lexemes (front ++ back), l.isSkipped = true → ∀ x ∈ back.head?, x ∉ l.text) :
    lexicon.lexemes (front ++ back) =
      lexicon.lexemes front ++ lexicon.lexemes back := by
  induction hlength : front.length using Nat.strongRecOn generalizing front with
  | ind length ih =>
    by_cases hfront : front = []
    · subst hfront
      rw [lexemes_nil]
      rfl
    · have hne : front ++ back ≠ [] := by simp [hfront]
      obtain ⟨first, rest, hfirst⟩ := lexicon.exists_lexeme? hne
      obtain ⟨hsplit, hfirstNe⟩ := eq_append_of_lexeme? hfirst
      rw [lexemes_of_lexeme? hfirst] at h ⊢
      obtain ⟨hhead, htail⟩ := List.forall_mem_cons.mp h
      -- the lexeme ends inside the first part, else it would have the character
      obtain ⟨front', rfl, rfl⟩ :
          ∃ front', front = first.text ++ front' ∧ rest = front' ++ back := by
        rcases List.append_eq_append_iff.mp hsplit with
          ⟨more, htext, hback⟩ | ⟨front', hfront', hrest⟩
        · cases more with
          | nil => exact ⟨[], by simpa using htext.symm, hback.symm⟩
          | cons y more =>
            exfalso
            have hy : y ∈ back.head? := by rw [hback]; rfl
            have hmem : y ∈ first.text := by simp [htext]
            cases first with
            | comment part => exact hhead rfl y hy hmem
            | string quote body => exact hhead rfl y hy hmem
            | char c =>
              have hsize := congrArg List.length htext
              have hpositive := List.length_pos_iff.mpr hfront
              simp only [Lexeme.text, List.length_append, List.length_cons, List.length_nil]
                at hsize
              omega
        · exact ⟨front', hfront', hrest⟩
      have hshorter : front'.length < length := by
        have := List.length_pos_iff.mpr hfirstNe
        rw [← hlength, List.length_append]
        omega
      rw [lexemes_of_lexeme? (lexeme?_of_append hfirst), ih _ hshorter htail rfl]
      rfl

/-! ### Matches of comments and strings -/

section Matches

variable {c d : Cursor} {part body rest : List Char} {quote : Char}

/-- **A comment is matched as it is read.** -/
theorem matchAt_comment (h : comment? c.rest = some (part, rest)) (hd : c.Over part d) :
    (Program.ofPattern commentPattern).matchAt c = some ⟨⟨c.offset, d.offset⟩, []⟩ := by
  obtain ⟨inside, body, hrest, hinside, rfl⟩ := comment?_eq_some_iff.mp h
  exact matchAt_delimited hinside hrest hd

/-- Where no closed comment begins, none is matched. -/
theorem matchAt_comment_eq_none (h : comment? c.rest = none) :
    (Program.ofPattern commentPattern).matchAt c = none := by
  refine (Program.matchAt_eq_none_iff (proper_delimited _ _)).mpr fun d new hmatches => ?_
  obtain ⟨_, hpart, hover⟩ := hmatches.exists_mem_language
  obtain ⟨body, rfl⟩ := mem_language_delimited.mp hpart
  have hsome := comment?_isSome body d.rest
  rw [commentText, ← hover.1, h] at hsome
  cases hsome

theorem lexical_stringPattern (quote : Char) : (stringPattern quote).lexical = true :=
  rfl

theorem proper_stringPattern (quote : Char) : (stringPattern quote).proper = true :=
  rfl

/-- A string can be read in one way only. -/
theorem quoted?_of_mem_language (hquote : quote = '"' ∨ quote = '\'') {part : List Char}
    (hpart : part ∈ (stringPattern quote).language) (hd : c.Over part d) :
    ∃ inside body, c.rest = quote :: inside ∧ quoted? quote inside = some (body, d.rest) ∧
      part = quote :: (body ++ [quote]) := by
  obtain ⟨body, hbody, rfl⟩ := mem_language_stringPattern.mp hpart
  exact ⟨body ++ quote :: d.rest, body, by simpa using hd.1, quoted?_append hquote hbody _, rfl⟩

/-- **A string is matched as it is read.** -/
theorem matchAt_string (h : string? c.rest = some (quote, body, rest))
    (hd : c.Over (Lexeme.string quote body).text d) :
    (Program.ofPattern (stringPattern quote)).matchAt c = some ⟨⟨c.offset, d.offset⟩, []⟩ := by
  obtain ⟨hquote, inside, hrest, hinside⟩ := string?_eq_some_iff.mp h
  refine matchAt_of_unique (lexical_stringPattern quote) (proper_stringPattern quote)
    (mem_language_stringPattern.mpr ⟨body, mem_kstar_of_quoted? hinside, rfl⟩) hd ?_
  intro part hpart d' hd'
  obtain ⟨inside', body', hrest', hinside', rfl⟩ := quoted?_of_mem_language hquote hpart hd'
  obtain rfl := (List.cons.inj (hrest.symm.trans hrest')).2
  obtain rfl := (Prod.mk.inj (Option.some.inj (hinside.symm.trans hinside'))).1
  rfl

/-- Where no closed string begins, none is matched. -/
theorem matchAt_string_eq_none (hquote : quote = '"' ∨ quote = '\'')
    (h : ∀ body rest, string? c.rest ≠ some (quote, body, rest)) :
    (Program.ofPattern (stringPattern quote)).matchAt c = none := by
  refine (Program.matchAt_eq_none_iff (proper_stringPattern quote)).mpr fun d new hmatches => ?_
  obtain ⟨part, hpart, hd⟩ := hmatches.exists_mem_language
  obtain ⟨inside, body, hrest, hinside, rfl⟩ := quoted?_of_mem_language hquote hpart hd
  exact h body d.rest (string?_eq_some_iff.mpr ⟨hquote, inside, hrest, hinside⟩)

variable {last : Pattern}

/-- Comments and strings are tried before anything else. -/
theorem matchAt_choice_skipped (hlast : last.proper = true) :
    (Program.ofPattern (choice last skipped)).matchAt c =
      ((Program.ofPattern commentPattern).matchAt c).or
        (((Program.ofPattern (stringPattern '"')).matchAt c).or
          (((Program.ofPattern (stringPattern '\'')).matchAt c).or
            ((Program.ofPattern last).matchAt c))) := by
  have hskipped : ∀ p ∈ skipped, p.proper = true := by
    simp only [skipped, List.forall_mem_cons]
    exact ⟨rfl, rfl, rfl, List.forall_mem_nil _⟩
  rw [matchAt_choice hlast hskipped]
  cases hcomment : (Program.ofPattern commentPattern).matchAt c <;>
    cases hdouble : (Program.ofPattern (stringPattern '"')).matchAt c <;>
    simp [skipped, hcomment, hdouble]

/-- **Comments and strings are stepped over whole.** -/
theorem matchAt_of_skipped (hlast : last.proper = true) {first : Lexeme}
    (h : lexicon.lexeme? c.rest = some (first, rest)) (hfirst : first.isSkipped = true)
    (hd : c.Over first.text d) : (Program.ofPattern (choice last skipped)).matchAt c =
      some ⟨⟨c.offset, d.offset⟩, []⟩ := by
  rw [matchAt_choice_skipped hlast]
  rcases lexeme?_cases h with ⟨part, rfl, hcomment⟩ | ⟨quote, body, rfl, hcomment, hstring⟩ |
    ⟨x, rfl, -, -, -⟩
  · rw [matchAt_comment hcomment hd, Option.some_or]
  · rw [lexicon_string?] at hstring
    rw [matchAt_comment_eq_none hcomment, Option.none_or]
    obtain ⟨rfl | rfl, -⟩ := string?_eq_some_iff.mp hstring
    · rw [matchAt_string hstring hd, Option.some_or]
    · rw [matchAt_string_eq_none (.inl rfl) (by simp [hstring]), Option.none_or,
        matchAt_string hstring hd, Option.some_or]
  · cases hfirst

/-- Where no comment and no string begins, the last alternative decides. -/
theorem matchAt_of_char (hlast : last.proper = true) (hcomment : comment? c.rest = none)
    (hstring : string? c.rest = none) : (Program.ofPattern (choice last skipped)).matchAt c =
      (Program.ofPattern last).matchAt c := by
  rw [matchAt_choice_skipped hlast, matchAt_comment_eq_none hcomment,
    matchAt_string_eq_none (.inl rfl) (by simp [hstring]),
    matchAt_string_eq_none (.inr rfl) (by simp [hstring])]
  rfl

end Matches

/-! ### Captures in style sheets -/

theorem nodes_of_mem_skipped : ∀ p ∈ skipped, p.nodes = [] := by
  simp only [skipped, List.forall_mem_cons]
  exact ⟨rfl, rfl, rfl, by simp⟩

theorem nil_notMem_language_of_mem_skipped : ∀ p ∈ skipped, [] ∉ p.language := by
  have hstring : ∀ quote, [] ∉ (stringPattern quote).language := by
    intro quote hnil
    obtain ⟨body, -, heq⟩ := mem_language_stringPattern.mp hnil
    cases heq
  have hcomment : [] ∉ commentPattern.language := by
    intro hnil
    obtain ⟨body, heq⟩ := mem_language_delimited.mp hnil
    cases heq
  simp only [skipped, List.forall_mem_cons]
  exact ⟨hstring _, hstring _, hcomment, by simp⟩

/-- **What is matched at a position of a style sheet**: the comment or the string that begins there,
else a capture between its flanks, if there is one. -/
theorem matchAt_flanked {s : Flanked} (hs : s.passed = skipped) (c : Cursor) :
    (∃ first d, lexicon.lexeme? c.rest = some (first, d.rest) ∧ first.isSkipped = true ∧
      c.Over first.text d ∧ s.matcher.program.matchAt c = some (Flanked.pass c d)) ∨
    (comment? c.rest = none ∧ string? c.rest = none ∧
      ((∃ e f d, s.Captured c e f d ∧
        s.matcher.program.matchAt c = some (Flanked.found c e f d)) ∨
      (s.matcher.program.matchAt c = none ∧ ∀ e f d, ¬ s.Captured c e f d))) := by
  have hprogram : s.matcher.program = .ofPattern (choice s.branch skipped) := by
    rw [← hs]
    rfl
  rw [hprogram]
  by_cases hplain : comment? c.rest = none ∧ string? c.rest = none
  · refine .inr ⟨hplain.1, hplain.2, ?_⟩
    rw [matchAt_of_char s.proper_branch hplain.1 hplain.2]
    exact s.matchAt_branch c
  · have hrest : c.rest ≠ [] := by
      intro hnil
      rw [hnil] at hplain
      exact hplain ⟨rfl, rfl⟩
    obtain ⟨first, rest, hfirst⟩ := lexicon.exists_lexeme? hrest
    obtain ⟨d, hd, rfl⟩ := Cursor.exists_over (eq_append_of_lexeme? hfirst).1
    have hskipped : first.isSkipped = true :=
      (isSkipped_of_lexeme? hfirst).resolve_right hplain
    exact .inl
      ⟨first, d, hfirst, hskipped, hd, matchAt_of_skipped s.proper_branch hfirst hskipped hd⟩

/-- **A walk through a style sheet keeps between the lexemes** if the captures do. -/
theorem exists_captured_of_mem_captureSpans {s : Flanked} (hs : s.passed = skipped)
    {text : List Char}
    (hcaptured : ∀ {before c e f d}, lexicon.Lexed (.start text) before c → comment? c.rest = none →
      string? c.rest = none → s.Captured c e f d → ∃ ls, lexicon.Lexed c ls f) {span : Span}
    (hspan : span ∈ s.matcher.captureSpans text) :
    ∃ before c e f d, lexicon.Lexed (.start text) before c ∧ comment? c.rest = none ∧
      string? c.rest = none ∧ s.Captured c e f d ∧ span = ⟨e.offset, f.offset⟩ := by
  rw [Matcher.captureSpans_eq_hits] at hspan
  obtain ⟨⟨m, offset⟩, hmem, hcapture⟩ := List.mem_filterMap.mp hspan
  have hinvariant := s.advances.hits_invariant
    (fun c => ∃ before, lexicon.Lexed (.start text) before c) ?_ ?_ ⟨[], .refl (.start text)⟩ _ hmem
  · obtain ⟨c, -, ⟨before, hbefore⟩, hmatch⟩ := hinvariant
    rcases matchAt_flanked hs c with ⟨first, d, -, -, -, hpass⟩ |
      ⟨hcomment, hstring, ⟨e, f, d, hcap, hfound⟩ | ⟨hnone, -⟩⟩
    · obtain rfl := Option.some.inj (hmatch.symm.trans hpass)
      cases hcapture.symm.trans (Flanked.capture?_pass (s := s) (c := c) (d := d))
    · obtain rfl := Option.some.inj (hmatch.symm.trans hfound)
      cases hcapture.symm.trans
        (Flanked.capture?_found (s := s) (c := c) (e := e) (f := f) (d := d))
      exact ⟨before, c, e, f, d, hbefore, hcomment, hstring, hcap, rfl⟩
    · cases hmatch.symm.trans hnone
  · rintro c x rest ⟨before, hbefore⟩ hnone hrest
    rcases matchAt_flanked hs c with ⟨first, d, -, -, -, hpass⟩ |
      ⟨hcomment, hstring, -⟩
    · cases hnone.symm.trans hpass
    · exact ⟨_, hbefore.trans (.of_char hrest hcomment hstring)⟩
  · rintro c m d ⟨before, hbefore⟩ hmatch hresumes
    rcases matchAt_flanked hs c with ⟨first, d', hfirst, -, hd', hpass⟩ |
      ⟨hcomment, hstring, ⟨e, f, d', hcap, hfound⟩ | ⟨hnone, -⟩⟩
    · cases hmatch.symm.trans hpass
      have hlt := hd'.offset_lt (eq_append_of_lexeme? hfirst).2
      obtain rfl := (Flanked.resumes_pass ⟨_, hd'⟩ hlt).unique hresumes
      exact ⟨_, hbefore.trans (.of_lexeme? hfirst hd')⟩
    · cases hmatch.symm.trans hfound
      obtain rfl := hcap.resumes.unique hresumes
      obtain ⟨ls, hls⟩ := hcaptured hbefore hcomment hstring hcap
      exact ⟨_, hbefore.trans hls⟩
    · cases hmatch.symm.trans hnone

end Relabel.Css
