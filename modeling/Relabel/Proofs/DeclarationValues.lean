import Relabel.Proofs.Lexing

/-!
# Custom properties in values

Custom properties are looked for in two steps: the values of declarations that have a key are
captured, and in each of them the keys behind two hyphens. Both steps go over comments and strings,
but a value is everything from a colon up to a semicolon, a closing brace or the end, whether these
stand in a comment or not. So a value can end inside a comment, and scanning resumes there, as if
the comment had not begun. If no comment and no string has a character that ends a value
(`Css.Quiet`), scanning keeps between the lexemes at both levels, and nothing is found in a comment
or a string (`Css.isPlain_of_mem_values`).
-/

open scoped Computability

namespace Relabel.Css

open Pattern Lexicon

/-! ### The patterns of values -/

def valueChar : CharSet :=
  .compl (['\x7b', '\x7d'].foldl (fun s c => s.union (.single c)) (.single ';'))

def valueEnd : Pattern :=
  .alt (row [.set (.union (.single ';') (.single '\x7d'))]) (row [.look .textEnd])

/-- The characters that are not part of a name. -/
def nameEnd : CharSet :=
  .compl (.union .word (.single '-'))

def valuePattern (keys : Pattern) : Pattern :=
  row [char ':', .group 1 (some "main".toList) (holding valueChar keys),
    .group 2 (some "ahead".toList) valueEnd]

def propertyPattern (keys : Pattern) : Pattern :=
  row [.alt (row [.look .textStart]) (row [.set nameEnd]), row [char '-', char '-'],
    .group 1 (some "main".toList) (row [keys]),
    .group 2 (some "ahead".toList) (.alt (row [.set nameEnd]) (row [.look .textEnd]))]

set_option maxRecDepth 4000 in
/-- The expression for custom properties in values. -/
theorem exists_valueExpression : ∃ e, declarationValues ⟨some "--", none⟩ = .ok [e] ∧
    e.Spells (fun mapping => [choice (valuePattern mapping.keyPattern) skipped])
      fun mapping => choice (propertyPattern mapping.keyPattern) skipped := by
  have hfront : Fragment.optional (some "--") = "(?:--)" := by decide
  have hvalue : ∀ mapping : Mapping, ofBranches (valuePattern mapping.keyPattern) skipped =
      choice (valuePattern mapping.keyPattern) skipped := fun mapping => ofBranches_of_apart rfl
  have hproperty : ∀ mapping : Mapping, ofBranches (propertyPattern mapping.keyPattern) skipped =
      choice (propertyPattern mapping.keyPattern) skipped := fun mapping => ofBranches_of_apart rfl
  unfold declarationValues Fragment.declarationValue
  simp only [hfront]
  refine Fragment.exists_nested ?_ ?_ (fun mapping => ?_) fun mapping => ?_
  · simp only [Fragment.cssSkipped, Fragment.cssComment, Fragment.cssString, String.toList_append]
    rfl
  · simp only [Fragment.cssSkipped, Fragment.cssComment, Fragment.cssString, String.toList_append]
    rfl
  · rw [← hvalue]
    simp only [Fragment.cssSkipped, Fragment.cssComment, Fragment.cssString, String.toList_append]
    rfl
  · rw [← hproperty]
    simp only [Fragment.cssSkipped, Fragment.cssComment, Fragment.cssString, String.toList_append]
    rfl

section

variable {mapping : Mapping} (hne : mapping ≠ []) (hkeys : mapping.Identifiers)

def values : Flanked where
  passed := skipped
  front := [char ':']
  main := holding valueChar mapping.keyPattern
  behind := valueEnd
  passed_bare := nodes_of_mem_skipped
  bare := by
    simp [row, char, valueEnd, nodes, mapping.nodes_holding]
  passed_nonempty := nil_notMem_language_of_mem_skipped
  main_nonempty := by
    rintro ⟨front, -, _, ⟨key, hkey, back, -, rfl⟩, hnil⟩
    obtain ⟨-, hnil⟩ := List.append_eq_nil_iff.mp hnil
    obtain ⟨rfl, -⟩ := List.append_eq_nil_iff.mp hnil
    rw [language_row_singleton] at hkey
    exact hkeys.nil_notMem hne hkey
  proper := by
    simp [row, char, valueEnd, proper, mapping.proper_holding]

def properties : Flanked where
  passed := skipped
  front := [.alt (row [.look .textStart]) (row [.set nameEnd]), row [char '-', char '-']]
  main := row [mapping.keyPattern]
  behind := .alt (row [.set nameEnd]) (row [.look .textEnd])
  passed_bare := nodes_of_mem_skipped
  bare := by
    simp [row, char, nodes, mapping.nodes_keyPattern]
  passed_nonempty := nil_notMem_language_of_mem_skipped
  main_nonempty := hkeys.nil_notMem_row hne
  proper := by
    simp [row, char, proper, mapping.proper_keyPattern]

end

section

variable {mapping : Mapping} {hne : mapping ≠ []} {hkeys : mapping.Identifiers} {c d e f : Cursor}

theorem pattern_values :
    (values hne hkeys).pattern = choice (valuePattern mapping.keyPattern) skipped :=
  rfl

theorem pattern_properties :
    (properties hne hkeys).pattern = choice (propertyPattern mapping.keyPattern) skipped :=
  rfl

/-- A value stands behind a colon and goes on up to a semicolon, a closing brace or the end. -/
theorem captured_values (h : (values hne hkeys).Captured c e f d) :
    c.Over [':'] e ∧ e.Reaches f ∧ ∀ x ∈ f.rest.head?, x = ';' ∨ x = '\x7d' := by
  obtain ⟨hfront, hmain, hbehind⟩ := h
  obtain ⟨colon, hcolon, hover⟩ := hfront.exists_mem_language
  rw [values, language_row_singleton, mem_language_char] at hcolon
  subst hcolon
  refine ⟨hover, hmain.reaches, fun x hx => ?_⟩
  rcases hbehind with ⟨_, _, _, ⟨y, rest, hrest, hy, -⟩, -⟩ | ⟨_, _, _, ⟨hend, -⟩, -⟩
  · rw [hrest] at hx
    obtain rfl : y = x := Option.some.inj hx
    simpa [CharSet.contains, CharSet.contains_single] using hy
  · rw [Look.holds, Option.isNone_iff_eq_none] at hend
    rw [hend] at hx
    cases hx

/-- A key that is an identifier opens neither a comment nor a string. -/
theorem isInert_of_mem_keys {mapping : Mapping} (hkeys : mapping.Identifiers) {key : List Char}
    (hkey : String.ofList key ∈ mapping.map Prod.fst) : ∀ x ∈ key, lexicon.isInert x = true :=
  fun x hx => forall_isIdentifierChar (P := fun x => lexicon.isInert x = true) (by decide)
    ((hkeys.of_mem hkey).2 x hx)

/-- A custom property is read character by character. -/
theorem captured_properties (h : (properties hne hkeys).Captured c e f d)
    (hcomment : comment? c.rest = none) (hstring : string? c.rest = none) :
    ∃ pre key : List Char, lexicon.Lexed c (pre.map .char) e ∧ lexicon.Lexed e (key.map .char) f ∧
      String.ofList key ∈ mapping.map Prod.fst := by
  obtain ⟨⟨b, _, _, hstart, hhyphens, -⟩, hmain, -⟩ := h
  have hbegin : ∃ pre : List Char, lexicon.Lexed c (pre.map .char) b := by
    rcases hstart with
      ⟨_, _, _, ⟨-, rfl, -⟩, ⟨rfl, -⟩, -⟩ | ⟨_, _, _, ⟨x, rest, hrest, -, rfl, -⟩, ⟨rfl, -⟩, -⟩
    · exact ⟨[], .refl _⟩
    · exact ⟨[x], .of_char hrest hcomment hstring⟩
  obtain ⟨pre, hpre⟩ := hbegin
  obtain ⟨hyphens, hlanguage, hover⟩ := hhyphens.exists_mem_language
  change hyphens ∈ (row [row (['-', '-'].map char)]).language at hlanguage
  rw [language_row_singleton, language_row_chars] at hlanguage
  obtain rfl : hyphens = ['-', '-'] := hlanguage
  obtain ⟨key, hkey, hkeyOver⟩ := hmain.exists_mem_language
  rw [properties, language_row_singleton, Mapping.mem_language_keyPattern hne] at hkey
  refine ⟨pre ++ ['-', '-'], key, ?_, .of_isInert (isInert_of_mem_keys hkeys hkey) hkeyOver, hkey⟩
  rw [List.map_append]
  exact hpre.trans (.of_isInert (List.all_eq_true.mp (by decide)) hover)

end

/-! ### Comments that hold no end of a value -/

/-- No comment and no string of a style sheet has a character that ends a value. -/
def Quiet (text : List Char) : Prop :=
  ∀ l ∈ lexicon.lexemes text, l.isSkipped = true → ';' ∉ l.text ∧ '\x7d' ∉ l.text

/-- `IsPlain text s`: what stands at a span of a style sheet is neither in a comment nor in a
string, but read character by character. -/
def IsPlain (text : List Char) (s : Span) : Prop :=
  ∃ before part after, lexicon.lexemes text = before ++ (part.map .char ++ after) ∧
    s = ⟨byteSize (before.flatMap Lexeme.text),
      byteSize (before.flatMap Lexeme.text) + byteSize part⟩

/-- `FindsPlain e mapping text`: what the expression captures in a style sheet, which is what it
reports and replaces, is neither in a comment nor in a string. -/
def FindsPlain (e : Expression) (mapping : Mapping) (text : String) : Prop :=
  ∃ found, e.FindsAt mapping text found ∧ ∀ s ∈ found, IsPlain text.toList s

/-- **Captures are plain** if they and what stands in front of them are read character by
character. -/
theorem isPlain_of_mem_captureSpans {s : Flanked} (hs : s.passed = skipped) {text : List Char}
    (hread : ∀ {c e f d}, comment? c.rest = none → string? c.rest = none → s.Captured c e f d →
      ∃ pre key : List Char, lexicon.Lexed c (pre.map .char) e ∧ lexicon.Lexed e (key.map .char) f)
    {span : Span} (h : span ∈ s.matcher.captureSpans text) : IsPlain text span := by
  obtain ⟨before, c, e, f, d, hbefore, hcomment, hstring, hcaptured, rfl⟩ :=
    exists_captured_of_mem_captureSpans hs (fun _ hcomment hstring hcaptured => by
      obtain ⟨pre, key, hpre, hkey⟩ := hread hcomment hstring hcaptured
      exact ⟨_, hpre.trans hkey⟩) h
  obtain ⟨pre, key, hpre, hkey⟩ := hread hcomment hstring hcaptured
  have hlexed := hbefore.trans hpre
  refine ⟨before ++ pre.map .char, key, lexicon.lexemes f.rest, ?_, ?_⟩
  · rw [← hkey.1]
    exact hlexed.1
  · have hoffset := hlexed.2.2.1
    have hoffset' := hkey.2.2.1
    rw [Lexeme.flatMap_text_chars] at hoffset'
    rw [hoffset', hoffset]
    simp [Cursor.start]

section

variable {mapping : Mapping} {hne : mapping ≠ []} {hkeys : mapping.Identifiers} {text : List Char}

/-- **Custom properties inside a value are plain.** -/
theorem isPlain_of_mem_properties {s : Span}
    (h : s ∈ (properties hne hkeys).matcher.captureSpans text) : IsPlain text s := by
  refine isPlain_of_mem_captureSpans rfl (fun hcomment hstring hcaptured => ?_) h
  obtain ⟨pre, key, hpre, hkey, -⟩ := captured_properties hcaptured hcomment hstring
  exact ⟨pre, key, hpre, hkey⟩

/-- Values end between lexemes if no comment and no string has a character that ends a value. -/
theorem lexed_of_values {c d e f : Cursor} {before : List Lexeme} (hquiet : Quiet text)
    (hbefore : lexicon.Lexed (.start text) before c)
    (hcaptured : (values hne hkeys).Captured c e f d) : lexicon.Lexed c [.char ':'] e ∧
      ∃ part, e.Over part f ∧ lexicon.Lexed e (lexicon.lexemes part) f := by
  obtain ⟨hcolon, ⟨part, hpart⟩, hends⟩ := captured_values hcaptured
  have hcolonLexed : lexicon.Lexed c ([':'].map .char) e :=
    .of_isInert (List.all_eq_true.mp (by decide)) hcolon
  refine ⟨hcolonLexed, part, hpart, ?_, ?_⟩
  · rw [hpart.1]
    refine lexemes_append fun l hl hskipped x hx hmem => ?_
    have hall : lexicon.lexemes text = before ++ [.char ':'] ++ lexicon.lexemes e.rest :=
      (hbefore.trans hcolonLexed).1
    rw [← hpart.1] at hl
    obtain ⟨hsemicolon, hbrace⟩ := hquiet l (hall ▸ List.mem_append_right _ hl) hskipped
    rcases hends x hx with rfl | rfl
    · exact hsemicolon hmem
    · exact hbrace hmem
  · rwa [flatMap_text_lexemes]

/-- **What is found in the values of a style sheet is plain.** -/
theorem isPlain_of_mem_values {s : Span} (hquiet : Quiet text)
    (h : s ∈ Matcher.occurrences
      [(values hne hkeys).matcher, (properties hne hkeys).matcher] text) :
    IsPlain text s := by
  rw [Matcher.occurrences_eq (by simp [Flanked.compiled])] at h
  obtain ⟨region, hregion, hs⟩ := List.mem_flatMap.mp h
  obtain ⟨part, hslice, u, hu, rfl⟩ := Span.mem_within_iff.mp hs
  rw [Matcher.spansWithin_singleton (properties hne hkeys).compiled] at hu
  obtain ⟨before', key, after, hlexemes, rfl⟩ := isPlain_of_mem_properties hu
  obtain ⟨before, c, e, f, d, hbefore, -, -, hcaptured, rfl⟩ :=
    exists_captured_of_mem_captureSpans rfl (fun hbefore _ _ hcaptured => by
      obtain ⟨hcolon, part, -, hpart⟩ := lexed_of_values hquiet hbefore hcaptured
      exact ⟨_, hcolon.trans hpart⟩) hregion
  obtain ⟨hcolon, part', hover, hpart⟩ := lexed_of_values hquiet hbefore hcaptured
  have hlexed := hbefore.trans hcolon
  obtain rfl : part' = part :=
    Option.some.inj ((hover.slice? ⟨_, hlexed.2⟩).symm.trans hslice)
  refine ⟨before ++ [.char ':'] ++ before', key, after ++ lexicon.lexemes f.rest, ?_, ?_⟩
  · rw [show lexicon.lexemes text = before ++ [.char ':'] ++ lexicon.lexemes e.rest from hlexed.1,
      hpart.1, hlexemes]
    simp
  · have hoffset : e.offset = byteSize ((before ++ [Lexeme.char ':']).flatMap Lexeme.text) := by
      simpa [Cursor.start] using hlexed.2.2.1
    rw [List.flatMap_append, byteSize_append, ← hoffset, Span.shift, Nat.add_assoc]

end

/-- **Custom properties are not found in comments**, nor in strings, if no comment and no string of
the style sheet has a character that ends a value. What is reported and what is replaced is then
read character by character. -/
theorem values_found_outside_comments {mapping : Mapping} {text : String} (hne : mapping ≠ [])
    (hkeys : mapping.Identifiers) (hquiet : Quiet text.toList) :
    ∃ e, declarationValues ⟨some "--", none⟩ = .ok [e] ∧ FindsPlain e mapping text := by
  obtain ⟨e, he, hspells⟩ := exists_valueExpression
  have hplain : Options.Plain (.cssDeclarationValues ⟨some "--", none⟩) := ⟨by decide, rfl⟩
  have hregular : e.Regular := Grammar.css.expressions_ensures hplain _ he e List.mem_cons_self
  have hall : ∀ s ∈ Matcher.occurrences [(values hne hkeys).matcher, (properties hne hkeys).matcher]
      text.toList, IsPlain text.toList s := fun s hs => isPlain_of_mem_values hquiet hs
  exact ⟨e, he, _, hspells.findsAt hregular hne text, hall⟩

theorem identifiers_k : Mapping.Identifiers [("k", "v")] := by
  decide

theorem pattern_k : String.ofList (Lookup.ofMapping [("k", "v")] true).pattern = "k" := by
  rw [Lookup.pattern_singleton]
  decide

theorem values_found_beside_comment : Quiet "a\x7bb:var(--k)/* :--k */\x7d".toList ∧
    ∃ e, declarationValues ⟨some "--", none⟩ = .ok [e] ∧
      FindsPlain e [("k", "v")] "a\x7bb:var(--k)/* :--k */\x7d" := by
  have hquiet : Quiet "a\x7bb:var(--k)/* :--k */\x7d".toList := by
    unfold Quiet
    decide +kernel
  exact ⟨hquiet, values_found_outside_comments (by decide) identifiers_k hquiet⟩

/-- A value that ends inside a comment lets a second one begin there. -/
theorem captureSpans_values_k :
    (values (by decide) identifiers_k).matcher.captureSpans
      "a\x7bb:--k/*;b:--k*/\x7d".toList = [⟨4, 9⟩, ⟨12, 17⟩] := by
  have hpattern : (values (by decide) identifiers_k).pattern =
      choice (valuePattern (row [char 'k'])) skipped := by
    rw [pattern_values, Mapping.keyPattern_singleton]
    rfl
  rw [Flanked.captureSpans_eq_trace hpattern rfl]
  decide +kernel

theorem captureSpans_properties_k {text : List Char}
    (h : text = "--k/*".toList ∨ text = "--k*/".toList) :
    (properties (by decide) identifiers_k).matcher.captureSpans text = [⟨2, 3⟩] := by
  have hpattern : (properties (by decide) identifiers_k).pattern =
      choice (propertyPattern (row [char 'k'])) skipped := by
    rw [pattern_properties, Mapping.keyPattern_singleton]
    rfl
  rw [Flanked.captureSpans_eq_trace hpattern rfl]
  rcases h with rfl | rfl
  · decide +kernel
  · decide +kernel

/-- A value that is cut off by a semicolon in a comment lets a property be found in the comment. -/
theorem value_found_in_comment :
    ∃ e, declarationValues ⟨some "--", none⟩ = .ok [e] ∧
      (e.findAll "a\x7bb:--k/*;b:--k*/\x7d" "k").outcome = .ok ["k", "k"] ∧
      lexicon.lexemes "a\x7bb:--k/*;b:--k*/\x7d".toList =
        "a\x7bb:--k".toList.map .char ++ [.comment "/*;b:--k*/".toList, .char '\x7d'] := by
  obtain ⟨e, he, hspells⟩ := exists_valueExpression
  have hplain : Options.Plain (.cssDeclarationValues ⟨some "--", none⟩) := ⟨by decide, rfl⟩
  have hregular : e.Regular := Grammar.css.expressions_ensures hplain _ he e List.mem_cons_self
  have hne : ([("k", "v")] : Mapping) ≠ [] := by decide
  obtain ⟨texts, htexts, hfound⟩ :=
    (hspells.findsAt hregular hne "a\x7bb:--k/*;b:--k*/\x7d").reported
  have hfirst : (⟨4, 9⟩ : Span).slice? "a\x7bb:--k/*;b:--k*/\x7d".toList = some "--k/*".toList := by
    decide
  have hsecond : (⟨12, 17⟩ : Span).slice? "a\x7bb:--k/*;b:--k*/\x7d".toList =
      some "--k*/".toList := by
    decide
  have hspans : Matcher.occurrences
      [(values hne identifiers_k).matcher, (properties hne identifiers_k).matcher]
      "a\x7bb:--k/*;b:--k*/\x7d".toList = [⟨6, 7⟩, ⟨14, 15⟩] := by
    rw [Matcher.occurrences_eq (by simp [Flanked.compiled]), Matcher.spansWithin,
      captureSpans_values_k, List.flatMap_cons, List.flatMap_singleton, Span.within_eq hfirst,
      Span.within_eq hsecond, Matcher.spansWithin_singleton (properties hne identifiers_k).compiled,
      Matcher.spansWithin_singleton (properties hne identifiers_k).compiled,
      captureSpans_properties_k (.inl rfl), captureSpans_properties_k (.inr rfl)]
    rfl
  have hslices : texts.map some = [['k'], ['k']].map some :=
    htexts.symm.trans ((congrArg (List.map _) hspans).trans (by decide))
  obtain rfl := List.map_injective_iff.mpr (Option.some_injective _) hslices
  rw [pattern_k] at hfound
  exact ⟨e, he, hfound, by decide +kernel⟩

end Relabel.Css
