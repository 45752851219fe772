import Mathlib.Data.List.SplitBy
import Relabel.Proofs.Tokens

/-!
# Splitting at white space

To rename the tokens of a text one can split it into its maximal runs of white space and of other
characters, replace the runs that are keys and join the runs again. The template for tokens does
exactly that for all keys without white space: it reports the runs that are keys, one after the
other (`Tokens.captured_eq_keyRuns`), and replaces each of them
(`tokens_split_mapped_joined`).
-/

namespace Relabel

/-- The maximal runs of white space and of other characters that a text consists of. -/
def runs (text : List Char) : List (List Char) :=
  text.splitBy fun x y => Unicode.isSpace x == Unicode.isSpace y

variable {text tail : List Char}

/-- A run ends where white space begins or ends. -/
theorem runs_append {run : List Char} {space : Bool} (hne : run ≠ [])
    (hrun : ∀ y ∈ run, Unicode.isSpace y = space)
    (htail : ∀ y ∈ tail.head?, Unicode.isSpace y = !space) :
    runs (run ++ tail) = run :: runs tail := by
  have hone : runs run = [run] := by
    refine List.splitBy_of_isChain hne ?_
    refine List.Pairwise.isChain (List.pairwise_of_forall_mem_list fun x hx y hy => ?_)
    rw [hrun x hx, hrun y hy, beq_self_eq_true]
  have happend : runs (run ++ tail) = runs run ++ runs tail := by
    refine List.splitBy_append fun x hx y hy => ?_
    rw [hrun x (List.mem_of_mem_getLast? hx), htail y hy]
    cases space <;> rfl
  rw [happend, hone, List.singleton_append]

namespace Mapping

variable {mapping : Mapping}

/-- The runs of a text that are keys. Runs of white space are none if no key has white space in
it. -/
def keyRuns (mapping : Mapping) (text : List Char) : List (List Char) :=
  (runs text).filter fun run => (mapping.change? run).isSome

/-- The text in which every run that is a key is replaced by its value. -/
def renameRuns (mapping : Mapping) (text : List Char) : List Char :=
  (runs text).flatMap fun run => (mapping.change? run).getD run

namespace Words

/-- White space up to the next token is no key. -/
theorem runs_spaces (h : mapping.Words) {spaces : List Char}
    (hspaces : ∀ y ∈ spaces, Unicode.isSpace y = true)
    (htail : ∀ y ∈ tail.head?, Unicode.isSpace y = false) :
    mapping.keyRuns (spaces ++ tail) = mapping.keyRuns tail ∧
      mapping.renameRuns (spaces ++ tail) = spaces ++ mapping.renameRuns tail := by
  cases spaces with
  | nil => exact ⟨rfl, rfl⟩
  | cons x spaces =>
    have hx : x ∈ x :: spaces := List.mem_cons_self
    have hnone := h.change?_space hx (hspaces x hx)
    rw [keyRuns, renameRuns, runs_append (List.cons_ne_nil x spaces) hspaces htail]
    simp [hnone, keyRuns, renameRuns]

/-- White space in front of a text makes no difference to its keys, and is kept. -/
theorem runs_gap (h : mapping.Words) {gap : List Char}
    (hgap : ∀ y ∈ gap, Unicode.isSpace y = true) :
    mapping.keyRuns (gap ++ text) = mapping.keyRuns text ∧
      mapping.renameRuns (gap ++ text) = gap ++ mapping.renameRuns text := by
  have hspaces : ∀ y ∈ text.takeWhile Unicode.isSpace, Unicode.isSpace y = true :=
    fun y hy => List.mem_takeWhile_imp hy
  have htail : ∀ y ∈ (text.dropWhile Unicode.isSpace).head?, Unicode.isSpace y = false := by
    intro y hy
    have hnot := List.head?_dropWhile_not Unicode.isSpace text
    rw [hy] at hnot
    simpa using hnot
  obtain ⟨hkeys, hrenamed⟩ := h.runs_spaces hspaces htail
  obtain ⟨hkeys', hrenamed'⟩ := h.runs_spaces (List.forall_mem_append.mpr ⟨hgap, hspaces⟩) htail
  rw [List.append_assoc, List.takeWhile_append_dropWhile] at hkeys' hrenamed'
  rw [List.takeWhile_append_dropWhile] at hkeys hrenamed
  rw [hkeys', hrenamed', hkeys, hrenamed, List.append_assoc]
  exact ⟨rfl, rfl⟩

/-- A token is a run, unless it is empty. -/
theorem runs_token (h : mapping.Words) {word : List Char}
    (hword : ∀ y ∈ word, Unicode.isSpace y = false)
    (htail : ∀ y ∈ tail.head?, Unicode.isSpace y = true) :
    mapping.keyRuns (word ++ tail) =
        (if (mapping.change? word).isSome then [word] else []) ++ mapping.keyRuns tail ∧
      mapping.renameRuns (word ++ tail) =
        (mapping.change? word).getD word ++ mapping.renameRuns tail := by
  by_cases hne : word = []
  · subst hne
    rw [h.change?_nil]
    exact ⟨rfl, rfl⟩
  · rw [keyRuns, renameRuns, runs_append hne hword htail, List.filter_cons, List.flatMap_cons]
    refine ⟨?_, rfl⟩
    cases (mapping.change? word).isSome <;> rfl

end Words

end Mapping

namespace Tokens

variable {mapping : Mapping} {hne : mapping ≠ []} {hkeys : mapping.Words}
variable {c e f : Cursor} {word : List Char}

/-- What the next token adds to the keys and to the renamed text. -/
theorem Stands.runs (h : Stands c e word f) (hkeys : mapping.Words) {gap : List Char}
    (hgap : c.Over gap e) (hspaces : ∀ y ∈ gap, Unicode.isSpace y = true) :
    mapping.keyRuns c.rest = (if (mapping.change? word).isSome then [word] else []) ++
        mapping.keyRuns f.rest ∧
      mapping.renameRuns c.rest =
        gap ++ ((mapping.change? word).getD word ++ mapping.renameRuns f.rest) := by
  obtain ⟨hfound, hrenamed⟩ := hkeys.runs_token h.plain h.ends
  obtain ⟨hfound', hrenamed'⟩ := Mapping.Words.runs_gap hkeys hspaces
  rw [hgap.1, h.token.1, hfound', hrenamed', hfound, hrenamed]
  exact ⟨rfl, rfl⟩

/-- Cutting a text at single characters of white space or at runs makes no difference to what
becomes of it. -/
theorem renameTokens_eq_renameRuns (hkeys : mapping.Words) (text : List Char) :
    mapping.renameTokens text = mapping.renameRuns text := by
  refine token_induction (motive := fun c => mapping.renameTokens c.rest =
    mapping.renameRuns c.rest) ?_ ?_ (.inl rfl : (Cursor.start text).before = none ∨ _)
  · intro c hrest
    rw [hrest, Mapping.renameTokens, pieces, List.flatMap_singleton, hkeys.change?_nil]
    rfl
  · intro c e word f hstands ih
    obtain ⟨gap, hgap, -, hspaces, -⟩ := hstands.exists_gap
    rw [(hstands.runs hkeys hgap hspaces).2, hgap.1, hstands.token.1,
      (hkeys.renameTokens_gap hspaces).1,
      (hkeys.renameTokens_token hstands.plain hstands.ends).1, ih]

/-- One token is captured if it is a key. -/
theorem Stands.capturedFrom (h : Stands c e word f) (hc : (Cursor.start text).Reaches c) :
    (flanked hne hkeys).matcher.capturedFrom text c =
      (if (mapping.change? word).isSome then [word] else []) ++
        (flanked hne hkeys).matcher.capturedFrom text f := by
  obtain ⟨gap, hgap, hshort, -, -⟩ := h.exists_gap
  rcases Stands.matchAt_token h with
    ⟨hkey, d, hcaptured, hmatch⟩ | ⟨hkey, -⟩
  · have hslice : Span.slice? text ⟨e.offset, f.offset⟩ = some word :=
      h.token.slice? (hc.trans ⟨_, hgap⟩)
    rw [Matcher.capturedFrom,
      (flanked hne hkeys).advances.hits_found hmatch hcaptured.resumes,
      if_pos (Mapping.isSome_change?_iff.mpr hkey), List.filterMap_cons, Flanked.capture?_found,
      Option.bind_some, hslice]
    rfl
  · rw [Matcher.capturedFrom, (flanked hne hkeys).advances.hits_skips (hgap.trans h.token)
      fun front back b hparts hback => h.matchAt_other hkey hgap hshort hparts hback,
      Mapping.change?_of_notMem hkey]
    rfl

/-- **The template for tokens captures the runs that are keys**, in order. -/
theorem captured_eq_keyRuns (text : List Char) :
    (flanked hne hkeys).matcher.captured text = mapping.keyRuns text := by
  rw [Matcher.captured_eq_capturedFrom]
  refine token_induction (motive := fun c => (Cursor.start text).Reaches c →
    (flanked hne hkeys).matcher.capturedFrom text c = mapping.keyRuns c.rest) ?_ ?_
    (.inl rfl : (Cursor.start text).before = none ∨ _) (.refl _)
  · intro c hrest _
    rw [Matcher.capturedFrom, Matcher.hits_end (matchAt_end hrest) hrest, hrest]
    rfl
  · intro c e word f hstands ih hc
    obtain ⟨gap, hgap, -, hspaces, -⟩ := hstands.exists_gap
    rw [hstands.capturedFrom hc, (hstands.runs hkeys hgap hspaces).1,
      ih (hc.trans ⟨_, hgap.trans hstands.token⟩)]

/-- Every run that is a key is replaced. -/
theorem applied_replaceCaptures (text : List Char) :
    ((flanked hne hkeys).matcher.replaceCaptures (Lookup.ofMapping mapping true) text).applied =
      (mapping.keyRuns text).length := by
  have hparts := (flanked hne hkeys).compiled.map_slice?_captureSpans text
  rw [captured_eq_keyRuns] at hparts
  have hedits := Lookup.forall₂_edits (Lookup.ofMapping mapping true) hparts
    fun run hrun => by
      have hkey := (List.mem_filter.mp hrun).2
      rwa [Mapping.change?, Option.isSome_map] at hkey
  have hreplaced : Matcher.Replaced (flanked hne hkeys).matcher (Lookup.ofMapping mapping true) []
      text :=
    Matcher.replaced_nil (flanked hne hkeys).compiled ((flanked hne hkeys).aheadFollows text)
  exact hreplaced.kept.trans hedits.length_eq

/-- **Replacing tokens is renaming runs**, and the runs that are keys are counted. -/
theorem replaceCaptures_eq (text : List Char) :
    (flanked hne hkeys).matcher.replaceCaptures (Lookup.ofMapping mapping true) text =
      ⟨(mapping.keyRuns text).length, mapping.renameRuns text⟩ := by
  obtain ⟨applied, -, hrewrite⟩ :=
    (rewrites_start text).exists_rewrite_eq (flanked hne hkeys).advances
  have happlied : ((flanked hne hkeys).matcher.replaceCaptures (Lookup.ofMapping mapping true)
      text).applied = _ := applied_replaceCaptures text
  have htext : (flanked hne hkeys).matcher.replaceCaptures (Lookup.ofMapping mapping true) text =
      ⟨applied, mapping.renameTokens text⟩ :=
    (Matcher.replaceCaptures_eq_rewrite _ _ _).trans hrewrite
  rw [htext] at happlied
  obtain rfl : applied = _ := happlied
  rw [htext, renameTokens_eq_renameRuns hkeys]

end Tokens

/-- **Renaming tokens is splitting, mapping and joining.** Let no key be empty or have white space
in it. The template for tokens, filled with all keys, replaces every run of a text that is equal to
a key by its value and keeps the other runs; it counts the runs that it replaces, and these are what
an expression for tokens finds, in order. -/
theorem tokens_split_mapped_joined {mapping : Mapping} (hne : mapping ≠ [])
    (hkeys : mapping.Words) (region : String) :
    let lookup := Lookup.ofMapping mapping true
    ∃ e matcher, Fragment.direct Fragment.token true = .ok e ∧
      (Matcher.compile e.strategy.template lookup.pattern e.group e.caseSensitive).outcome =
        .ok matcher ∧
      matcher.replaceCaptures lookup region.toList =
        ⟨(mapping.keyRuns region.toList).length, mapping.renameRuns region.toList⟩ ∧
      (e.findAll region (String.ofList lookup.pattern)).outcome =
        .ok ((mapping.keyRuns region.toList).map String.ofList) := by
  intro lookup
  have hspells : Template.spells? Fragment.token.toList mapping =
      some (Tokens.flanked hne hkeys).pattern := rfl
  have hpattern : Template.pattern ⟨Fragment.token, rfl⟩ lookup.pattern true =
      .ok (Tokens.flanked hne hkeys).pattern := Template.pattern_of_readTemplate hspells
  refine ⟨⟨.direct ⟨Fragment.token, rfl⟩, Fragment.group, true⟩, (Tokens.flanked hne hkeys).matcher,
    ?_, ?_, Tokens.replaceCaptures_eq _, ?_⟩
  · rw [Fragment.direct, Template.ofString_of_hasSlot rfl]
    rfl
  · exact congrArg Traced.outcome (Matcher.compile_of_ok hpattern)
  · rw [Expression.findAll_direct region (by rwa [String.toList_ofList]),
      ← Tokens.captured_eq_keyRuns]
    rfl

/-- Keys that begin alike or look like patterns, in a text with several kinds of white space. -/
theorem tokens_split_mapped_joined_lookalikes :
    let mapping : Mapping := [("a", "a|b"), ("a|b", "c d"), ("%s", "")]
    mapping.Words ∧ ∃ e matcher, Fragment.direct Fragment.token true = .ok e ∧
      (Matcher.compile e.strategy.template (Lookup.ofMapping mapping true).pattern e.group
        e.caseSensitive).outcome = .ok matcher ∧
      matcher.replaceCaptures (Lookup.ofMapping mapping true)
        "a  a|b\u3000%s ab\u00A0a\n".toList = ⟨4, "a|b  c d\u3000 ab\u00A0a|b\n".toList⟩ ∧
      (e.findAll "a  a|b\u3000%s ab\u00A0a\n"
        (String.ofList (Lookup.ofMapping mapping true).pattern)).outcome =
          .ok ["a", "a|b", "%s", "a"] := by
  intro mapping
  have hkeys : mapping.Words := by decide
  have hfound : mapping.keyRuns "a  a|b\u3000%s ab\u00A0a\n".toList =
      ["a".toList, "a|b".toList, "%s".toList, "a".toList] := by decide
  have hrenamed : mapping.renameRuns "a  a|b\u3000%s ab\u00A0a\n".toList =
      "a|b  c d\u3000 ab\u00A0a|b\n".toList := by decide
  obtain ⟨e, matcher, he, hmatcher, hreplaced, hfind⟩ := tokens_split_mapped_joined
    (List.cons_ne_nil _ _) hkeys "a  a|b\u3000%s ab\u00A0a\n"
  rw [hfound, hrenamed] at hreplaced
  rw [hfound] at hfind
  exact ⟨hkeys, e, matcher, he, hmatcher, hreplaced, hfind⟩

end Relabel
