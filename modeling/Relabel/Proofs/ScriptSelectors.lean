import Relabel.Proofs.ScriptLexing
import Relabel.Proofs.Tokens
import Relabel.Proofs.Unchanged

/-!
# Selectors in the literals of a script

Selectors are looked for inside the literals of a script. The template for literals captures the
content of those that mention a key and steps over the others, so which literals are regions depends
on the keys. Both kinds are read to their ends all the same. An identifier in a selector stands
behind a mark, which no escape takes with it, so a literal in which one would be found mentions a
key. Hence what is found in a script is what is found in the contents of its literals, one after the
other, and nothing else is changed (`Js.selectors_read_in_literals`).
-/

open scoped Computability

namespace Relabel

/-! ### The content of a literal -/

namespace Lexeme

def content? : Lexeme → Option (List Char)
  | .string _ body => some body
  | _ => none

/-- A lexeme after its content was changed, if it is a literal. -/
def changedBy (change : List Char → Option (List Char)) : Lexeme → List Char
  | .string quote body => quote :: ((change body).getD body ++ [quote])
  | l => l.text

end Lexeme

namespace Js

open Pattern Lexicon Fragment

def literals (text : List Char) : List (List Char) :=
  (lexicon.lexemes text).filterMap Lexeme.content?

def literalItem (quote : Char) : Pattern :=
  if quote = '`' then templateItem else Css.stringItem quote

section Literals

variable {quote : Char} {part body rest text : List Char}

/-- What literals consist of, whichever quote they have. -/
theorem mem_language_literalItem : part ∈ (literalItem quote).language ↔
    ∃ x, (quote = '`' ∨ x ≠ '\n') ∧ (x ≠ quote ∧ x ≠ '\\' ∧ part = [x] ∨ part = ['\\', x]) := by
  by_cases hquote : quote = '`'
  · subst hquote
    rw [literalItem, if_pos rfl, mem_language_templateItem]
    simp only [true_or, true_and, exists_or]
  · rw [literalItem, if_neg hquote, Css.mem_language_stringItem]
    simp only [hquote, false_or]
    constructor
    · rintro (⟨x, hx, hslash, hline, rfl⟩ | ⟨x, hline, rfl⟩)
      · exact ⟨x, hline, .inl ⟨hx, hslash, rfl⟩⟩
      · exact ⟨x, hline, .inr rfl⟩
    · rintro ⟨x, hline, ⟨hx, hslash, rfl⟩ | rfl⟩
      · exact .inl ⟨x, hx, hslash, hline, rfl⟩
      · exact .inr ⟨x, hline, rfl⟩

/-- **A literal is read in one way only.** -/
theorem string?_eq_some_iff : string? text = some (quote, body, rest) ↔
    quote ∈ quotes ∧ body ∈ (literalItem quote).language∗ ∧
      text = quote :: (body ++ quote :: rest) := by
  constructor
  · intro h
    rcases string?_cases h with ⟨rfl, inside, rfl, hinside⟩ | hquoted
    · refine ⟨by decide, mem_kstar_of_template? hinside, ?_⟩
      rw [eq_append_of_template? hinside]
    · obtain ⟨hquote, inside, rfl, hinside⟩ := Css.string?_eq_some_iff.mp hquoted
      have hbody := Css.mem_kstar_of_quoted? hinside
      rw [Css.eq_append_of_quoted? hinside]
      rcases hquote with rfl | rfl
      · exact ⟨by decide, hbody, rfl⟩
      · exact ⟨by decide, hbody, rfl⟩
  · rintro ⟨hquote, hbody, rfl⟩
    simp only [quotes, List.mem_cons, List.not_mem_nil, or_false] at hquote
    rcases hquote with rfl | rfl | rfl
    · exact Css.string?_eq_some_iff.mpr ⟨.inl rfl, _, rfl, Css.quoted?_append (.inl rfl) hbody rest⟩
    · exact Css.string?_eq_some_iff.mpr ⟨.inr rfl, _, rfl, Css.quoted?_append (.inr rfl) hbody rest⟩
    · rw [string?, template?_append hbody]
      rfl

/-- **What a literal consists of can be cut** behind any character that is no backslash. The
induction is on the items; the cut falls inside one only if that is an escape. -/
theorem kstar_split {front back : List Char} (h : front ++ back ∈ (literalItem quote).language∗)
    (hlast : front.getLast? ≠ some '\\') :
    front ∈ (literalItem quote).language∗ ∧ back ∈ (literalItem quote).language∗ := by
  obtain ⟨items, heq, hitems⟩ := Language.mem_kstar.mp h
  clear h
  induction items generalizing front with
  | nil =>
    obtain ⟨rfl, rfl⟩ := List.append_eq_nil_iff.mp heq
    exact ⟨Language.nil_mem_kstar _, Language.nil_mem_kstar _⟩
  | cons item items ih =>
    obtain ⟨hitem, hothers⟩ := List.forall_mem_cons.mp hitems
    cases front with
    | nil =>
      rw [List.nil_append] at heq
      subst heq
      exact ⟨Language.nil_mem_kstar _, Language.join_mem_kstar hitems⟩
    | cons y front =>
      rw [List.cons_append, List.flatten_cons] at heq
      obtain ⟨x, -, ⟨-, -, rfl⟩ | rfl⟩ := mem_language_literalItem.mp hitem
      · obtain ⟨rfl, hrest⟩ := List.cons.inj heq
        have hlater : front.getLast? ≠ some '\\' := by
          intro hslash
          rw [List.getLast?_cons, hslash] at hlast
          exact hlast rfl
        obtain ⟨hfront, hback⟩ := ih hlater hrest hothers
        exact ⟨append_mem_kstar hitem hfront, hback⟩
      · obtain ⟨rfl, hrest⟩ := List.cons.inj heq
        cases front with
        | nil => exact absurd rfl hlast
        | cons z front =>
          obtain ⟨rfl, htail⟩ := List.cons.inj hrest
          have hlater : front.getLast? ≠ some '\\' := by
            intro hslash
            rw [List.getLast?_cons, List.getLast?_cons, hslash] at hlast
            exact hlast rfl
          obtain ⟨hfront, hback⟩ := ih hlater htail hothers
          exact ⟨append_mem_kstar hitem hfront, hback⟩

end Literals

/-! ### Literals that mention a key -/

def mention (quote : Char) (keys : Pattern) : Pattern :=
  row [.repeated 0 none false (literalItem quote), row [keys], Pattern.star (literalItem quote)]

def mentioning (keys : Pattern) (index : Nat) (name : String) (quote : Char) : Pattern :=
  row [char quote, .group index (some name.toList) (mention quote keys), char quote]

/-- The patterns of literals that mention a key, the first to be tried first. -/
def mentions (keys : Pattern) : List Pattern :=
  [mentioning keys 1 "main_1" '"', mentioning keys 2 "main_2" '\'', mentioning keys 3 "main_3" '`']

def literalsPattern (keys : Pattern) : Pattern :=
  choice templatePattern ([Css.stringPattern '\'', Css.stringPattern '"'] ++
    (mentions keys).reverse ++ [Css.commentPattern, linePattern])

def markedPattern (mark : Char) (keys : Pattern) : Pattern :=
  row [row [char mark], .group 1 (some "main".toList) (row [keys]),
    .group 2 (some "ahead".toList) (.alt (row [.set Css.delimiter]) (row [.look .textEnd]))]

set_option maxRecDepth 8000 in
/-- The template for literals, with the keys in its slots. -/
theorem spells?_literals (mapping : Mapping) : Template.spells? jsStringLiterals.toList mapping =
    some (literalsPattern mapping.keyPattern) := by
  rw [toList_jsStringLiterals, toList_jsStringContent, toList_jsString, literalsPattern,
    ← ofBranches_of_apart rfl]
  rfl

section Keys

variable {mapping : Mapping} (hne : mapping ≠ []) (hkeys : mapping.Identifiers)

include hne hkeys in
/-- Keys stand for themselves in a literal. -/
theorem mem_kstar_of_key {quote : Char} (hquote : quote ∈ quotes) {key : List Char}
    (hkey : key ∈ mapping.keyPattern.language) : key ∈ (literalItem quote).language∗ := by
  obtain ⟨-, hchars⟩ := hkeys.of_mem ((Mapping.mem_language_keyPattern hne).mp hkey)
  refine mem_kstar_of_forall fun x hx => ?_
  have hplain : x ∉ '\\' :: '\n' :: quotes :=
    forall_isIdentifierChar (P := fun x => x ∉ '\\' :: '\n' :: quotes) (by decide) (hchars x hx)
  simp only [List.mem_cons, not_or] at hplain
  obtain ⟨hslash, hline, hquotes⟩ := hplain
  exact mem_language_literalItem.mpr
    ⟨x, .inr hline, .inl ⟨(ne_of_mem_of_not_mem hquote hquotes).symm, hslash, rfl⟩⟩

/-- A content mentions a key if it can be cut in front of the key and behind it. -/
theorem mem_language_mention {quote : Char} {keys : Pattern} {body : List Char} :
    body ∈ (mention quote keys).language ↔ ∃ before ∈ (literalItem quote).language∗,
      ∃ key ∈ keys.language, ∃ after ∈ (literalItem quote).language∗,
        body = before ++ (key ++ after) := by
  simp only [mention, mem_language_row_cons, mem_language_row_nil, language_repeated, language_star]
  constructor
  · rintro ⟨before, hbefore, _, ⟨_, ⟨key, hkey, _, rfl, rfl⟩, _, ⟨after, hafter, _, rfl, rfl⟩, rfl⟩,
      rfl⟩
    exact ⟨before, hbefore, key, hkey, after, hafter, by simp⟩
  · rintro ⟨before, hbefore, key, hkey, after, hafter, rfl⟩
    exact ⟨before, hbefore, _, ⟨key, ⟨key, hkey, [], rfl, by simp⟩, after,
      ⟨after, hafter, [], rfl, by simp⟩, rfl⟩, rfl⟩

include hne hkeys in
/-- A content that mentions a key is one that a literal can have. -/
theorem mem_kstar_of_mention {quote : Char} (hquote : quote ∈ quotes) {body : List Char}
    (hbody : body ∈ (mention quote mapping.keyPattern).language) :
    body ∈ (literalItem quote).language∗ := by
  obtain ⟨before, hbefore, key, hkey, after, hafter, rfl⟩ := mem_language_mention.mp hbody
  have hbehind := Language.append_mem_mul (mem_kstar_of_key hne hkeys hquote hkey) hafter
  rw [kstar_mul_kstar] at hbehind
  have hall := Language.append_mem_mul hbefore hbehind
  rwa [kstar_mul_kstar] at hall

/-! ### Matches of literals -/

theorem literalItem_simple (quote : Char) : (literalItem quote).lexical = true ∧
    (literalItem quote).proper = true ∧ (literalItem quote).nullable = false := by
  by_cases hquote : quote = '`'
  · rw [literalItem, if_pos hquote]
    exact ⟨rfl, rfl, rfl⟩
  · rw [literalItem, if_neg hquote]
    exact ⟨rfl, rfl, rfl⟩

theorem lexical_mention (quote : Char) (mapping : Mapping) :
    (mention quote mapping.keyPattern).lexical = true := by
  simp [mention, row, Pattern.star, lexical, literalItem_simple, mapping.lexical_keyPattern]

theorem proper_mentioning (mapping : Mapping) (index : Nat) (name : String) (quote : Char) :
    (mentioning mapping.keyPattern index name quote).proper = true := by
  simp [mentioning, mention, row, Pattern.star, char, proper, literalItem_simple,
    mapping.proper_keyPattern]

variable {c : Cursor}

/-- `Mentioned c quote body e f d`: at `c` begins a literal that ends at `d`, and its content, which
stands between `e` and `f`, mentions a key. -/
structure Mentioned (mapping : Mapping) (c : Cursor) (quote : Char) (body : List Char)
    (e f d : Cursor) : Prop where
  opening : c.Over [quote] e
  content : e.Over body f
  closing : f.Over [quote] d
  mentioned : body ∈ (mention quote mapping.keyPattern).language

/-- A literal that mentions a key is matched, and its content is captured. -/
theorem matches_mentioning_iff {index : Nat} {name : String} {quote : Char} {d : Cursor}
    {new : Captures} : (mentioning mapping.keyPattern index name quote).Matches c d new ↔
      ∃ body e f, Mentioned mapping c quote body e f d ∧ new = [(index, ⟨e.offset, f.offset⟩)] := by
  have hsingle : ∀ p ∈ [char quote], p.lexical = true := List.forall_mem_singleton.mpr rfl
  have hrow : (row ([char quote] ++ .group index (some name.toList)
      (mention quote mapping.keyPattern) :: [char quote])).Matches c d new ↔ _ :=
    matches_row_group hsingle (lexical_mention quote mapping) hsingle
  refine Iff.trans hrow ?_
  simp only [language_row_singleton, mem_language_char, exists_eq_left]
  constructor
  · rintro ⟨e, f, hopen, ⟨body, hbody, hcontent⟩, hclose, rfl⟩
    exact ⟨body, e, f, ⟨hopen, hcontent, hclose, hbody⟩, rfl⟩
  · rintro ⟨body, e, f, ⟨hopen, hcontent, hclose, hbody⟩, rfl⟩
    exact ⟨e, f, hopen, ⟨body, hbody, hcontent⟩, hclose, rfl⟩

include hne hkeys in
/-- A literal that mentions a key is read as a literal. -/
theorem Mentioned.string? {quote : Char} (hquote : quote ∈ quotes) {body : List Char}
    {e f d : Cursor} (h : Mentioned mapping c quote body e f d) :
    Js.string? c.rest = some (quote, body, d.rest) := by
  refine string?_eq_some_iff.mpr ⟨hquote, mem_kstar_of_mention hne hkeys hquote h.mentioned, ?_⟩
  rw [h.opening.1, h.content.1, h.closing.1]
  rfl

theorem forall_mem_mentions {P : Pattern → Prop} {keys : Pattern}
    (h : ∀ index ∈ [1, 2, 3], ∀ name, ∀ quote ∈ quotes, P (mentioning keys index name quote)) :
    ∀ p ∈ mentions keys, P p := by
  simp only [mentions, List.forall_mem_cons]
  exact ⟨h 1 (by decide) _ _ (by decide), h 2 (by decide) _ _ (by decide),
    h 3 (by decide) _ _ (by decide), List.forall_mem_nil _⟩

/-- The alternatives for literals that mention a key match if such a literal begins at a position,
and then they capture its content. -/
theorem matchAt_mentions (c : Cursor) :
    (∃ quote body e f d, ∃ index ∈ [1, 2, 3], quote ∈ quotes ∧
      Mentioned mapping c quote body e f d ∧
      ((mentions mapping.keyPattern).findSome? fun p => (Program.ofPattern p).matchAt c) =
        some ⟨⟨c.offset, d.offset⟩, [(index, ⟨e.offset, f.offset⟩)]⟩) ∨
    (((mentions mapping.keyPattern).findSome? fun p => (Program.ofPattern p).matchAt c) = none ∧
      ∀ quote body rest, string? c.rest = some (quote, body, rest) →
        body ∉ (mention quote mapping.keyPattern).language) := by
  cases hmatch : (mentions mapping.keyPattern).findSome? fun p =>
      (Program.ofPattern p).matchAt c with
  | some m =>
    obtain ⟨p, hp, hm⟩ := List.exists_of_findSome?_eq_some hmatch
    refine .inl ?_
    revert hm
    refine forall_mem_mentions (P := fun p => (Program.ofPattern p).matchAt c = some m → _) ?_ p hp
    intro index hindex name quote hquote hm
    obtain ⟨d, hmatches, hspan⟩ := Program.matchAt_sound hm
    obtain ⟨body, e, f, hmentioned, hnew⟩ := matches_mentioning_iff.mp hmatches
    obtain ⟨span, captures⟩ := m
    obtain rfl : span = _ := hspan
    obtain rfl : captures = _ := hnew
    exact ⟨quote, body, e, f, d, index, hindex, hquote, hmentioned, rfl⟩
  | none =>
    refine .inr ⟨rfl, fun quote body rest hstring hbody => ?_⟩
    obtain ⟨hquote, -, hrest⟩ := string?_eq_some_iff.mp hstring
    rw [List.findSome?_eq_none_iff] at hmatch
    obtain ⟨e, hopen, hinside⟩ := Cursor.exists_over (show c.rest = [quote] ++ _ from hrest)
    obtain ⟨f, hcontent, hlast⟩ := Cursor.exists_over hinside
    obtain ⟨d, hclose, -⟩ := Cursor.exists_over (show f.rest = [quote] ++ _ from hlast)
    have hno : ∀ index name, mentioning mapping.keyPattern index name quote ∈
        mentions mapping.keyPattern → False := by
      intro index name hmem
      exact (Program.matchAt_eq_none_iff (proper_mentioning _ _ _ _)).mp (hmatch _ hmem) d _
        (matches_mentioning_iff.mpr ⟨body, e, f, ⟨hopen, hcontent, hclose, hbody⟩, rfl⟩)
    simp only [quotes, List.mem_cons, List.not_mem_nil, or_false] at hquote
    rcases hquote with rfl | rfl | rfl
    · exact hno 1 "main_1" (by simp [mentions])
    · exact hno 2 "main_2" (by simp [mentions])
    · exact hno 3 "main_3" (by simp [mentions])

include hne hkeys in
/-- **What begins at a position of a script**: a comment, or a literal that mentions no key, which
are stepped over; a literal that mentions a key, the content of which is captured; or neither. -/
theorem matchAt_literalsPattern (c : Cursor) :
    (∃ first d, lexicon.lexeme? c.rest = some (first, d.rest) ∧ c.Over first.text d ∧
      (∀ quote body, first = .string quote body →
        quote ∈ quotes ∧ body ∈ (literalItem quote).language∗ ∧
        body ∉ (mention quote mapping.keyPattern).language) ∧ first.isSkipped = true ∧
      (Program.ofPattern (literalsPattern mapping.keyPattern)).matchAt c =
        some ⟨⟨c.offset, d.offset⟩, []⟩) ∨
    (∃ quote body e f d, ∃ index ∈ [1, 2, 3], Mentioned mapping c quote body e f d ∧
      lexicon.lexeme? c.rest = some (.string quote body, d.rest) ∧
      (Program.ofPattern (literalsPattern mapping.keyPattern)).matchAt c =
        some ⟨⟨c.offset, d.offset⟩, [(index, ⟨e.offset, f.offset⟩)]⟩) ∨
    (comment? c.rest = none ∧ string? c.rest = none ∧
      (Program.ofPattern (literalsPattern mapping.keyPattern)).matchAt c = none) := by
  have hproper : ∀ p ∈ [Css.stringPattern '\'', Css.stringPattern '"'] ++
      (mentions mapping.keyPattern).reverse ++ [Css.commentPattern, linePattern],
      p.proper = true := by
    have hcomment : Css.commentPattern.proper = true := proper_delimited _ _
    have hline : linePattern.proper = true := rfl
    simp [mentions, proper_mentioning, Css.proper_stringPattern, hcomment, hline]
  have hmatch : (Program.ofPattern (literalsPattern mapping.keyPattern)).matchAt c =
      ([linePattern, Css.commentPattern].findSome? fun p => (Program.ofPattern p).matchAt c).or
        (((mentions mapping.keyPattern).findSome? fun p => (Program.ofPattern p).matchAt c).or
          ([Css.stringPattern '"', Css.stringPattern '\'', templatePattern].findSome? fun p =>
            (Program.ofPattern p).matchAt c)) := by
    have hreverse : ([Css.stringPattern '\'', Css.stringPattern '"'] ++
        (mentions mapping.keyPattern).reverse ++ [Css.commentPattern, linePattern]).reverse =
        [linePattern, Css.commentPattern] ++
          (mentions mapping.keyPattern ++ [Css.stringPattern '"', Css.stringPattern '\'']) := by
      simp
    have hliterals : [Css.stringPattern '"', Css.stringPattern '\'', templatePattern] =
        [Css.stringPattern '"', Css.stringPattern '\''] ++ [templatePattern] := rfl
    rw [literalsPattern, matchAt_choice rfl hproper, hreverse, hliterals, List.findSome?_append,
      List.findSome?_append, List.findSome?_append, Option.or_assoc, Option.or_assoc,
      List.findSome?_singleton]
  rw [hmatch]
  rcases matchAt_comments c with ⟨part, d, hcomment, hd, hfound⟩ | ⟨hcomment, hnone⟩
  · refine .inl ⟨.comment part, d, lexeme?_of_comment? hcomment, hd, by simp, rfl, ?_⟩
    rw [hfound, Option.some_or]
  · rw [hnone, Option.none_or]
    rcases matchAt_mentions c with
      ⟨quote, body, e, f, d, index, hindex, hquote, hmentioned, hfound⟩ | ⟨hnone, hunmentioned⟩
    · have hstring := hmentioned.string? hne hkeys hquote
      refine .inr (.inl ⟨quote, body, e, f, d, index, hindex, hmentioned,
        lexeme?_of_string? hcomment hstring, ?_⟩)
      rw [hfound, Option.some_or]
    · rw [hnone, Option.none_or]
      rcases matchAt_literals c with ⟨quote, body, d, hstring, hd, hfound⟩ | ⟨hstring, hnone⟩
      · refine .inl ⟨.string quote body, d, lexeme?_of_string? hcomment hstring, hd, ?_, rfl,
          hfound⟩
        rintro _ _ ⟨rfl, rfl⟩
        obtain ⟨hquote, hbody, -⟩ := string?_eq_some_iff.mp hstring
        exact ⟨hquote, hbody, hunmentioned _ _ _ hstring⟩
      · exact .inr (.inr ⟨hcomment, hstring, hnone⟩)

/-! ### The walk from literal to literal -/

def literalsMatcher (mapping : Mapping) : Matcher :=
  .ofPattern "main".toList (literalsPattern mapping.keyPattern)

theorem groups_literalsPattern (mapping : Mapping) : (literalsPattern mapping.keyPattern).groups =
    [(1, some "main_1".toList), (2, some "main_2".toList), (3, some "main_3".toList)] := by
  have hmention : ∀ quote, (mention quote mapping.keyPattern).nodes = [] := fun quote =>
    nodes_of_lexical (lexical_mention quote mapping)
  have hstring : ∀ quote, (Css.stringPattern quote).nodes = [] := fun _ => rfl
  have hcomment : Css.commentPattern.nodes = [] := rfl
  have hline : linePattern.nodes = [] := rfl
  have htemplate : templatePattern.nodes = [] := rfl
  rw [groups_eq_map_nodes]
  simp [literalsPattern, mentions, mentioning, choice, row, char, nodes, hmention, hstring,
    hcomment, hline, htemplate]

theorem capture_literalsMatcher (mapping : Mapping) :
    (literalsMatcher mapping).capture = [1, 2, 3] := by
  rw [literalsMatcher, Matcher.ofPattern, groups_literalsPattern]
  rfl

theorem ahead_literalsMatcher (mapping : Mapping) : (literalsMatcher mapping).ahead = [] := by
  rw [literalsMatcher, Matcher.ofPattern, groups_literalsPattern]
  rfl

/-- Every match takes something, so scanning advances. -/
theorem advances_literalsMatcher (mapping : Mapping) : (literalsMatcher mapping).Advances :=
  Matcher.advances_of_ahead rfl (ahead_literalsMatcher mapping)

theorem capture?_step (mapping : Mapping) (span : Span) :
    (literalsMatcher mapping).capture? ⟨span, []⟩ = none := by
  rw [Matcher.capture?, capture_literalsMatcher]
  rfl

/-- The content of a literal is the capture, whichever quote it has. -/
theorem capture?_content (mapping : Mapping) {index : Nat} (hindex : index ∈ [1, 2, 3])
    (span content : Span) :
    (literalsMatcher mapping).capture? ⟨span, [(index, content)]⟩ = some content := by
  rw [Matcher.capture?, capture_literalsMatcher]
  simp only [List.mem_cons, List.not_mem_nil, or_false] at hindex
  rcases hindex with rfl | rfl | rfl <;> rfl

/-- The literals of a script are read off its lexemes. -/
theorem literals_of_lexeme? {text rest : List Char} {first : Lexeme}
    (h : lexicon.lexeme? text = some (first, rest)) :
    literals text = first.content?.toList ++ literals rest := by
  rw [literals, lexemes_of_lexeme? h, List.filterMap_cons]
  cases first <;> rfl

/-- `Quiet mapping find change`: in a literal that mentions no key nothing is found and nothing is
changed. -/
def Quiet {α : Type} (mapping : Mapping) (find : List Char → List α)
    (change : List Char → Option (List Char)) : Prop :=
  ∀ quote ∈ quotes, ∀ body ∈ (literalItem quote).language∗,
    body ∉ (mention quote mapping.keyPattern).language → find body = [] ∧ change body = none

include hne hkeys in
/-- **A walk from literal to literal** finds what is found in all of them, and changes them as if
each was looked at. The induction is along the walk. -/
theorem walk_literals {α : Type} {find : List Char → List α}
    {change : List Char → Option (List Char)} (hquiet : Quiet mapping find change)
    {text : List Char} {c : Cursor} (hc : (Cursor.start text).Reaches c) :
    (((((literalsMatcher mapping).hits c).filterMap fun entry =>
        (literalsMatcher mapping).capture? entry.1).filterMap (Span.slice? text)).flatMap find =
      (literals c.rest).flatMap find) ∧
    (literalsMatcher mapping).Rewrites change c
      ((literals c.rest).any fun body => (change body).isSome)
      ((lexicon.lexemes c.rest).flatMap (Lexeme.changedBy change)) := by
  refine (advances_literalsMatcher mapping).hits_induction (motive := fun c hits =>
    (Cursor.start text).Reaches c →
    (((hits.filterMap fun entry => (literalsMatcher mapping).capture? entry.1).filterMap
      (Span.slice? text)).flatMap find = (literals c.rest).flatMap find) ∧
    (literalsMatcher mapping).Rewrites change c
      ((literals c.rest).any fun body => (change body).isSome)
      ((lexicon.lexemes c.rest).flatMap (Lexeme.changedBy change))) ?_ ?_ ?_ c hc
  · intro c hnone hrest _
    have hlexemes : lexicon.lexemes c.rest = [] := by
      rw [hrest, lexemes]
      rfl
    simp only [literals, hlexemes]
    exact ⟨rfl, .stop hrest hnone⟩
  · intro c x rest hits hnone hrest ih hc
    have hchar : lexicon.lexeme? c.rest = some (.char x, rest) := by
      rcases matchAt_literalsPattern hne hkeys c with ⟨_, _, -, -, -, -, hfound⟩ |
        ⟨_, _, _, _, _, _, -, -, -, hfound⟩ | ⟨hcomment, hstring, -⟩
      · cases hnone.symm.trans hfound
      · cases hnone.symm.trans hfound
      · rw [hrest] at hcomment hstring ⊢
        exact lexeme?_of_char hcomment hstring
    obtain ⟨hfind, hrewrites⟩ := ih (hc.trans ⟨[x], .advance hrest⟩)
    rw [literals_of_lexeme? hchar, lexemes_of_lexeme? hchar, List.flatMap_cons]
    exact ⟨hfind, .skip hrest hnone hrewrites⟩
  · intro c m d hits hmatch hresumes ih hc
    obtain ⟨hfind, hrewrites⟩ := ih (hc.trans hresumes.reaches)
    rcases matchAt_literalsPattern hne hkeys c with
      ⟨first, d', hfirst, hover, hunmentioned, hskipped, hfound⟩ |
      ⟨quote, body, e, f, d', index, hindex, hmentioned, hfirst, hfound⟩ | ⟨-, -, hnone⟩
    · obtain rfl := Option.some.inj (hmatch.symm.trans hfound)
      obtain rfl := hresumes.eq_of_ahead (ahead_literalsMatcher mapping) ⟨_, hover⟩ rfl
      have hnothing := capture?_step mapping ⟨c.offset, d.offset⟩
      have hquietFirst : first.content?.toList.flatMap find = [] ∧
          (first.content?.toList.any fun body => (change body).isSome) = false ∧
          first.changedBy change = first.text := by
        cases first with
        | comment part => exact ⟨rfl, rfl, rfl⟩
        | string quote body =>
          obtain ⟨hquote, hbody, hnot⟩ := hunmentioned quote body rfl
          obtain ⟨hnil, hsame⟩ := hquiet quote hquote body hbody hnot
          simp [Lexeme.content?, Lexeme.changedBy, Lexeme.text, hnil, hsame]
        | char x => cases hskipped
      obtain ⟨hnil, hunchanged, htext⟩ := hquietFirst
      rw [literals_of_lexeme? hfirst, lexemes_of_lexeme? hfirst, List.flatMap_cons,
        List.flatMap_append, List.any_append, hnil, hunchanged, htext, List.filterMap_cons]
      simp only [hnothing]
      exact ⟨hfind, .pass hmatch hresumes hnothing hover hrewrites⟩
    · obtain rfl := Option.some.inj (hmatch.symm.trans hfound)
      have hreaches := hmentioned.opening.trans (hmentioned.content.trans hmentioned.closing)
      obtain rfl := hresumes.eq_of_ahead (ahead_literalsMatcher mapping) ⟨_, hreaches⟩ rfl
      have hcapture := capture?_content mapping hindex ⟨c.offset, d.offset⟩ ⟨e.offset, f.offset⟩
      have hslice := hmentioned.content.slice? (hc.trans ⟨_, hmentioned.opening⟩)
      rw [literals_of_lexeme? hfirst, lexemes_of_lexeme? hfirst, List.flatMap_cons,
        List.flatMap_append, List.any_append, List.filterMap_cons]
      simp only [hcapture]
      rw [List.filterMap_cons_some hslice, List.flatMap_cons, hfind]
      refine ⟨by simp [Lexeme.content?], ?_⟩
      have hhit := Matcher.Rewrites.hit hmatch hresumes hcapture hmentioned.opening
        hmentioned.content hmentioned.closing hrewrites
      simpa [Lexeme.content?, Lexeme.changedBy] using hhit
    · cases hmatch.symm.trans hnone

/-! ### Identifiers behind a mark -/

/-- Identifiers behind a mark as captures between flanks. -/
def marked (mark : Char) : Flanked :=
  { Tokens.flanked hne hkeys.words with
    front := [row [char mark]]
    behind := .alt (row [.set Css.delimiter]) (row [.look .textEnd])
    bare := by
      simp only [List.forall_mem_cons]
      exact ⟨mapping.nodes_row_keyPattern, rfl, rfl, List.forall_mem_nil _⟩
    proper := by
      simp only [List.forall_mem_cons]
      exact ⟨mapping.proper_row_keyPattern, rfl, rfl, List.forall_mem_nil _⟩ }

/-- **Where an identifier is found, the literal mentions a key**: a backslash is no mark, so the
content can be cut behind the mark. -/
theorem captureSpans_of_unmentioned {mark quote : Char} (hmark : mark ≠ '\\') {body : List Char}
    (hbody : body ∈ (literalItem quote).language∗)
    (hnot : body ∉ (mention quote mapping.keyPattern).language) :
    (marked hne hkeys mark).matcher.captureSpans body = [] := by
  refine List.eq_nil_iff_forall_not_mem.mpr fun s hs => hnot ?_
  rw [Matcher.captureSpans_eq_hits] at hs
  obtain ⟨⟨m, offset⟩, hhit, hcapture⟩ := List.mem_filterMap.mp hs
  obtain ⟨c, ⟨before, hbefore⟩, -, hmatch⟩ :=
    (marked hne hkeys mark).advances.hits_invariant (fun _ => True)
      (fun _ _ _ _ _ _ => trivial) (fun _ _ _ _ _ _ => trivial) trivial _ hhit
  rcases Flanked.matchAt_cases hmatch with ⟨d, -, -, rfl⟩ | ⟨e, f, d, hcaptured, -⟩
  · rw [Flanked.capture?_pass] at hcapture
    cases hcapture
  · obtain ⟨part, hpart, hfront⟩ := hcaptured.front.exists_mem_language
    obtain ⟨key, hkey, hmain⟩ := hcaptured.main.exists_mem_language
    have hpart : part ∈ (row [row [char mark]]).language := hpart
    have hkey : key ∈ (row [mapping.keyPattern]).language := hkey
    rw [language_row_singleton, language_row_singleton, mem_language_char] at hpart
    rw [language_row_singleton] at hkey
    subst hpart
    obtain ⟨-, hchars⟩ := hkeys.of_mem ((Mapping.mem_language_keyPattern hne).mp hkey)
    have htext : body = (before ++ [mark]) ++ (key ++ f.rest) := by
      have hstart : body = before ++ c.rest := hbefore.1
      rw [hstart, hfront.1, hmain.1, List.append_assoc]
    rw [htext] at hbody
    obtain ⟨hfirst, hrest⟩ := kstar_split hbody (by simp [hmark])
    have hlast : key.getLast? ≠ some '\\' := by
      intro hslash
      have hidentifier := hchars '\\' (List.mem_of_getLast? hslash)
      cases hidentifier
    obtain ⟨-, hafter⟩ := kstar_split hrest hlast
    exact mem_language_mention.mpr ⟨_, hfirst, key, hkey, f.rest, hafter, htext⟩

def rename (mark : Char) (body : List Char) : Option (List Char) :=
  ((marked hne hkeys mark).matcher.replaceCaptures (.ofMapping mapping true) body).changed?

/-- In a literal that mentions no key, no mark stands in front of one. -/
theorem quiet_marked {mark : Char} (hmark : mark ≠ '\\') :
    Quiet mapping (marked hne hkeys mark).matcher.captured (rename hne hkeys mark) := by
  intro quote _ body hbody hnot
  have hnone := captureSpans_of_unmentioned hne hkeys hmark hbody hnot
  refine ⟨?_, ?_⟩
  · rw [Matcher.captured_eq, hnone]
    rfl
  · rw [rename, Matcher.replaceCaptures_eq, hnone]
    rfl

end Keys

/-! ### The expressions -/

/-- The template for identifiers behind a mark has its slot, and spells the pattern. -/
theorem exists_mark {front : String} (hfront : front = "\\." ∨ front = "#") :
    hasSlot (selector (Fragment.optional (some front)) "").toList = true ∧
      ∃ mark, mark ≠ '\\' ∧ ∀ mapping : Mapping,
        Template.spells? (selector (Fragment.optional (some front)) "").toList mapping =
          some (markedPattern mark mapping.keyPattern) := by
  rcases hfront with rfl | rfl
  · exact ⟨rfl, '.', by decide, fun _ => rfl⟩
  · exact ⟨rfl, '#', by decide, fun _ => rfl⟩

/-- **Selectors are read in the literals of a script, whatever the keys.** Let `inner` be the
expression for the identifiers of a selector in a text of its own. With keys that are identifiers,
what is found in a script is what `inner` finds in the contents of its literals, one after the
other; and replacing changes the contents as `inner` does and nothing else. -/
theorem selectors_read_in_literals {front : String} (hfront : front = "\\." ∨ front = "#") :
    ∃ e inner, querySelectors ⟨some front, none⟩ = .ok [e] ∧
      direct (selector (Fragment.optional (some front)) "") true = .ok inner ∧
      ∀ mapping : Mapping, mapping ≠ [] → mapping.Identifiers →
        let keys := String.ofList (Lookup.ofMapping mapping true).pattern
        ∃ (found : List Char → List String) (renamed : List Char → Option (List Char)),
          (∀ body, (inner.findAll (String.ofList body) keys).outcome = .ok (found body)) ∧
          (∀ body, (inner.replaceAll (String.ofList body) mapping).outcome =
            .ok ((renamed body).map String.ofList)) ∧
          ∀ text : String,
            (e.findAll text keys).outcome = .ok ((literals text.toList).flatMap found) ∧
            (e.replaceAll text mapping).outcome =
              .ok (if (literals text.toList).any fun body => (renamed body).isSome then
                some (String.ofList ((lexicon.lexemes text.toList).flatMap (Lexeme.changedBy renamed)))
              else none) := by
  obtain ⟨hslot, mark, hmark, hinner⟩ := exists_mark hfront
  obtain ⟨e, he, hspells⟩ := exists_nested hasSlot_literals hslot spells?_literals hinner
  have hregular : e.Regular := by
    have hplain : Options.Plain (.querySelectors ⟨some front, none⟩) := by
      rcases hfront with rfl | rfl
      · exact ⟨by decide, rfl⟩
      · exact ⟨by decide, rfl⟩
    exact Grammar.js.expressions_ensures hplain _ he e List.mem_cons_self
  refine ⟨e, ⟨.direct ⟨_, hslot⟩, group, true⟩, he, ?_, ?_⟩
  · rw [direct, Template.ofString_of_hasSlot hslot]
    rfl
  · intro mapping hne hkeys keys
    have hpattern : (⟨_, hslot⟩ : Template).pattern (Lookup.ofMapping mapping true).pattern true =
        .ok (markedPattern mark mapping.keyPattern) :=
      Template.pattern_of_readTemplate (hinner mapping)
    refine ⟨fun body => ((marked hne hkeys mark).matcher.captured body).map String.ofList,
      rename hne hkeys mark, ?_, ?_, ?_⟩
    · intro body
      rw [Expression.findAll_direct (String.ofList body) (by rwa [String.toList_ofList]),
        String.toList_ofList]
      rfl
    · intro body
      rw [Expression.replaceAll_direct (String.ofList body) hne hpattern, String.toList_ofList]
      rfl
    · intro text
      obtain ⟨hfound, hreplaced⟩ := hspells.run hregular hne text
      obtain ⟨hfind, hrewrites⟩ := walk_literals hne hkeys (quiet_marked hne hkeys hmark)
        (.refl (.start text.toList))
      constructor
      · have hregions : Matcher.regions [literalsMatcher mapping] text.toList =
            (literalsMatcher mapping).captured text.toList := by
          simp [Matcher.regions]
        rw [← Matcher.captureSpans_eq_hits, ← Matcher.captured_eq] at hfind
        rw [hfound, ← List.map_flatMap]
        exact congrArg (fun texts => Except.ok (List.map String.ofList texts))
          ((congrArg _ hregions).trans hfind)
      · have hchanged := hrewrites.changed?_rewrite (advances_literalsMatcher mapping)
        rw [hreplaced, List.map_singleton, Matcher.replaceInRegions_eq_rewrite]
        exact
          (congrArg (fun changed => Except.ok (Option.map String.ofList changed)) hchanged).trans
            (congrArg Except.ok (apply_ite (Option.map String.ofList) _ _ _))

/-- A literal in which the mark is escaped, in front of a comment that looks like a literal. -/
theorem selectors_read_in_escaped_literal :
    Mapping.Identifiers [("a", "b")] ∧
    lexicon.lexemes "'\\.a'/*'.a'*/".toList =
      [.string '\'' "\\.a".toList, .comment "/*'.a'*/".toList] ∧
    ∃ e inner found, querySelectors ⟨some "\\.", none⟩ = .ok [e] ∧
      direct (selector (Fragment.optional (some "\\.")) "") true = .ok inner ∧
      (inner.findAll "\\.a" "a").outcome = .ok found ∧
      (e.findAll "'\\.a'/*'.a'*/" "a").outcome = .ok found := by
  have hkeys : Mapping.Identifiers [("a", "b")] := by decide
  have hlexemes : lexicon.lexemes "'\\.a'/*'.a'*/".toList =
      [.string '\'' "\\.a".toList, .comment "/*'.a'*/".toList] := by
    have hliteral : lexicon.lexeme? "'\\.a'/*'.a'*/".toList =
        some (.string '\'' "\\.a".toList, "/*'.a'*/".toList) := by decide
    have hcomment : lexicon.lexeme? "/*'.a'*/".toList =
        some (.comment "/*'.a'*/".toList, []) := by decide
    rw [lexemes_of_lexeme? hliteral, lexemes_of_lexeme? hcomment, lexemes]
    rfl
  obtain ⟨e, inner, he, hinner, hrun⟩ := selectors_read_in_literals (.inl rfl)
  obtain ⟨found, renamed, hfound, -, htext⟩ := hrun [("a", "b")] (by decide) hkeys
  rw [Lookup.pattern_singleton] at hfound htext
  refine ⟨hkeys, hlexemes, e, inner, found "\\.a".toList, he, hinner, hfound _, ?_⟩
  have hall := (htext "'\\.a'/*'.a'*/").1
  rw [literals, hlexemes] at hall
  exact hall.trans (congrArg Except.ok (List.append_nil _))

end Js

end Relabel
