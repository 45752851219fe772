import Relabel.Proofs.DeclarationValues
import Relabel.Proofs.Selectors

/-!
# Selectors and declared properties in code

What follows an identifier in a selector, and what follows the name of a declared property, is
looked at without being consumed. So scanning resumes right behind the identifier; and what it has
consumed in front of the identifier has no comment and no string. Unlike the values of declarations,
then, selectors and declared properties are found nowhere but in code, in every style sheet.
-/

open scoped Computability

namespace Relabel.Css

open Pattern Lexicon

/-! ### The patterns -/

def declarationStart : Pattern :=
  .alt (row [.look .textStart]) (row [.set (.union (.single '\x7b') (.single ';'))])

def declarationEnd : Pattern :=
  row [Pattern.star (.set .space), char ':', Pattern.star (.set (.compl
    (['\x7d', ';'].foldl (fun s c => s.union (.single c)) (.single '\x7b')))), valueEnd]

def declaredPattern (keys : Pattern) : Pattern :=
  row [declarationStart, Pattern.star (.set .space), row [char '-', char '-'],
    .group 1 (some "main".toList) (row [keys]), .group 2 (some "ahead".toList) declarationEnd]

set_option maxRecDepth 4000 in
/-- The expression for declared custom properties. -/
theorem exists_declaredExpression : ∃ e, declarationProperties ⟨some "--", none⟩ = .ok [e] ∧
    e.Spells (fun _ => []) fun mapping => choice (declaredPattern mapping.keyPattern) skipped := by
  have hfront : Fragment.optional (some "--") = "(?:--)" := by decide
  have hchoice : ∀ mapping : Mapping, ofBranches (declaredPattern mapping.keyPattern) skipped =
      choice (declaredPattern mapping.keyPattern) skipped := fun mapping => ofBranches_of_apart rfl
  unfold declarationProperties
  simp only [hfront]
  refine Fragment.exists_direct ?_ fun mapping => ?_
  · simp only [Fragment.cssSkipped, Fragment.cssComment, Fragment.cssString, String.toList_append]
    rfl
  · rw [← hchoice]
    simp only [Fragment.cssSkipped, Fragment.cssComment, Fragment.cssString, String.toList_append]
    rfl

/-- Declared properties as captures between flanks. -/
def declared {mapping : Mapping} (hne : mapping ≠ []) (hkeys : mapping.Identifiers) : Flanked where
  passed := skipped
  front := [declarationStart, Pattern.star (.set .space), row [char '-', char '-']]
  main := row [mapping.keyPattern]
  behind := declarationEnd
  passed_bare := nodes_of_mem_skipped
  bare := by
    simp only [List.forall_mem_cons]
    exact ⟨mapping.nodes_row_keyPattern, rfl, rfl, rfl, rfl, List.forall_mem_nil _⟩
  passed_nonempty := nil_notMem_language_of_mem_skipped
  main_nonempty := hkeys.nil_notMem_row hne
  proper := by
    simp only [List.forall_mem_cons]
    exact ⟨mapping.proper_row_keyPattern, rfl, rfl, rfl, rfl, List.forall_mem_nil _⟩

/-! ### Captures of keys -/

/-- **Keys are captured in code** if what stands in front of them cannot have the first character of
a comment or a string. -/
theorem isPlain_of_avoids {mapping : Mapping} (hne : mapping ≠ []) (hkeys : mapping.Identifiers)
    {s : Flanked} (hs : s.passed = skipped) (hmain : s.main = row [mapping.keyPattern])
    (hfront : lexicon.openers.all (row s.front).avoids = true) {text : List Char} {span : Span}
    (h : span ∈ s.matcher.captureSpans text) : IsPlain text span := by
  refine isPlain_of_mem_captureSpans hs (fun _ _ hcaptured => ?_) h
  obtain ⟨pre, hpre, hpreOver⟩ := hcaptured.front.exists_mem_language
  obtain ⟨key, hkey, hkeyOver⟩ := hcaptured.main.exists_mem_language
  rw [hmain, language_row_singleton, Mapping.mem_language_keyPattern hne] at hkey
  exact ⟨pre, key, .of_isInert (isInert_of_avoids hfront hpre) hpreOver,
    .of_isInert (isInert_of_mem_keys hkeys hkey) hkeyOver⟩

/-- Identifiers behind a mark are found in code only. -/
theorem exists_marked_findsPlain {front : String} {mark : Char} (h : (front, mark) ∈ marks)
    {mapping : Mapping} (hne : mapping ≠ []) (hkeys : mapping.Identifiers) (text : String) :
    ∃ e, querySelectors ⟨some front, none⟩ = .ok [e] ∧ FindsPlain e mapping text := by
  obtain ⟨e, he, hfinds⟩ := exists_marked_found h hne hkeys text
  have hfront : lexicon.openers.all (row (marked hne hkeys mark).front).avoids = true := by
    rw [mem_marks] at h
    rcases h with ⟨-, rfl⟩ | ⟨-, rfl⟩ | ⟨-, rfl⟩ <;> rfl
  exact ⟨e, he, _, hfinds, fun _ => isPlain_of_avoids hne hkeys rfl rfl hfront⟩

/-- **Selectors and declared properties are found in code only.** In every style sheet, the classes
and the identifiers that are found in selectors, and the custom properties that are found where they
are declared, are neither in a comment nor in a string, and so is what is replaced. -/
theorem selectors_and_properties_found_in_code {mapping : Mapping} (text : String)
    (hne : mapping ≠ []) (hkeys : mapping.Identifiers) :
    (∃ e, querySelectors ⟨some "\\.", none⟩ = .ok [e] ∧ FindsPlain e mapping text) ∧
    (∃ e, querySelectors ⟨some "#", none⟩ = .ok [e] ∧ FindsPlain e mapping text) ∧
    ∃ e, declarationProperties ⟨some "--", none⟩ = .ok [e] ∧ FindsPlain e mapping text := by
  refine ⟨exists_marked_findsPlain dot_mem_marks hne hkeys text,
    exists_marked_findsPlain sign_mem_marks hne hkeys text, ?_⟩
  obtain ⟨e, he, hspells⟩ := exists_declaredExpression
  have hplain : Options.Plain (.cssDeclarationProperties ⟨some "--", none⟩) := ⟨by decide, rfl⟩
  have hregular : e.Regular := Grammar.css.expressions_ensures hplain _ he e List.mem_cons_self
  have hfinds := findsAt_flanked hspells hregular hne (s := declared hne hkeys) rfl text
  exact ⟨e, he, _, hfinds, fun _ => isPlain_of_avoids hne hkeys rfl rfl rfl⟩

theorem selectors_and_properties_found_beside_comment :
    ([("k", "v")] : Mapping) ≠ [] ∧ Mapping.Identifiers [("k", "v")] ∧
    (∃ e, querySelectors ⟨some "\\.", none⟩ = .ok [e] ∧
      FindsPlain e [("k", "v")] ".k/*.k\x7b*/\x7b--k:'--k:#k';/*;--k:*/\x7d#k\x7b\x7d") ∧
    (∃ e, querySelectors ⟨some "#", none⟩ = .ok [e] ∧
      FindsPlain e [("k", "v")] ".k/*.k\x7b*/\x7b--k:'--k:#k';/*;--k:*/\x7d#k\x7b\x7d") ∧
    ∃ e, declarationProperties ⟨some "--", none⟩ = .ok [e] ∧
      FindsPlain e [("k", "v")] ".k/*.k\x7b*/\x7b--k:'--k:#k';/*;--k:*/\x7d#k\x7b\x7d" :=
  ⟨by decide, identifiers_k,
    selectors_and_properties_found_in_code _ (by decide) identifiers_k⟩

end Relabel.Css
