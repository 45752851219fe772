import Relabel.Proofs.Agreement
import Relabel.Proofs.Keys
import Relabel.Proofs.Templates

/-!
# The expressions of the languages replace what they report

For the expressions that the languages build, nothing has to be assumed of the templates. What they
capture are keys of the mapping, so everything they report resolves and is replaced.
-/

namespace Relabel

/-! ### What an expression compiles to -/

namespace Strategy

/-- The templates that narrow a text down to regions, the outermost one first. -/
def regions : Strategy → List Template
  | .direct _ => []
  | .parallel _ _ => []
  | .nested outer within _ => outer :: within

def template : Strategy → Template
  | .direct template => template
  | .parallel template _ => template
  | .nested _ _ inner => inner

/-- Whether what is captured is replaced, and nothing around it. -/
def Serial : Strategy → Prop
  | .direct _ => True
  | .parallel _ _ => False
  | .nested _ _ _ => True

/-- What is reported about so many replacements. -/
def replaced : Strategy → Nat → Event
  | .direct _ => .directReplaced
  | .parallel _ _ => .parallelReplaced
  | .nested _ within _ => .nestedReplaced (within.length + 1)

end Strategy

/-- `e.Compiles pattern levels inner`: filled with a pattern, the templates of the expression become
these patterns. -/
structure Expression.Compiles (e : Expression) (pattern : List Char) (levels : List Pattern)
    (inner : Pattern) : Prop where
  levels : List.Forall₂ (fun template p => template.pattern pattern e.caseSensitive = .ok p)
    e.strategy.regions levels
  inner : e.strategy.template.pattern pattern e.caseSensitive = .ok inner

theorem Traced.bind_eq_ok {α β : Type} {first : Traced α} {next : α → Traced β} {b : β}
    (h : (first >>= next).outcome = .ok b) :
    ∃ a, first.outcome = .ok a ∧ (next a).outcome = .ok b := by
  rw [outcome_bind] at h
  cases hfirst : first.outcome with
  | error e =>
    rw [hfirst] at h
    cases h
  | ok a =>
    rw [hfirst] at h
    exact ⟨a, rfl, h⟩

/-- What compiles is a pattern. -/
theorem Matcher.exists_pattern_of_compile {template : Template} {pattern : List Char}
    {group : String} {caseSensitive : Bool} {matcher : Matcher}
    (h : (compile template pattern group caseSensitive).outcome = .ok matcher) :
    ∃ p, template.pattern pattern caseSensitive = .ok p := by
  obtain ⟨p, hp, -⟩ := Traced.bind_eq_ok h
  exact ⟨p, hp⟩

/-- What compiles one after another are patterns. -/
theorem Matcher.exists_patterns_of_mapM {templates : List Template} {pattern : List Char}
    {group : String} {caseSensitive : Bool} {matchers : List Matcher}
    (h : (templates.mapM fun template => compile template pattern group caseSensitive).outcome =
      .ok matchers) :
    ∃ patterns, List.Forall₂ (fun template p => template.pattern pattern caseSensitive = .ok p)
      templates patterns := by
  induction templates generalizing matchers with
  | nil => exact ⟨[], .nil⟩
  | cons template templates ih =>
    rw [List.mapM_cons] at h
    obtain ⟨matcher, hmatcher, h⟩ := Traced.bind_eq_ok h
    obtain ⟨others, hothers, -⟩ := Traced.bind_eq_ok h
    obtain ⟨p, hp⟩ := exists_pattern_of_compile hmatcher
    obtain ⟨patterns, hpatterns⟩ := ih hothers
    exact ⟨p :: patterns, .cons hp hpatterns⟩

/-- What an expression finds and how it replaces, said in one way for both strategies. -/
theorem Expression.Compiles.run {e : Expression} {mapping : Mapping} {levels : List Pattern}
    {inner : Pattern}
    (hcompiles : e.Compiles (Lookup.ofMapping mapping e.caseSensitive).pattern levels inner)
    (h : e.strategy.Serial) (text : String) (hmapping : mapping ≠ []) :
    let lookup := Lookup.ofMapping mapping e.caseSensitive
    let matchers := levels.map (Matcher.ofPattern e.group.toList)
    let matcher := Matcher.ofPattern e.group.toList inner
    (e.findAll text (String.ofList lookup.pattern)).outcome =
        .ok (((Matcher.regions matchers text.toList).flatMap matcher.captured).map e.report) ∧
      (e.replaceAll text mapping).outcome =
        .ok ((Matcher.replaceInRegions matcher lookup matchers text.toList).2.changed?.map
          String.ofList) ∧
      (e.replaceAll text mapping).events.getLast? =
        some (e.strategy.replaced
          (Matcher.replaceInRegions matcher lookup matchers text.toList).1) := by
  obtain ⟨hlevels, hinner⟩ := hcompiles
  obtain ⟨strategy, group, caseSensitive⟩ := e
  cases strategy with
  | direct template =>
    obtain rfl := List.forall₂_nil_left_iff.mp hlevels
    have hrun : (⟨.direct template, group, caseSensitive⟩ : Expression).replaceAll text mapping =
        _ := replaceAll_direct text hmapping hinner
    refine ⟨?_, congrArg Traced.outcome hrun, ?_⟩
    · rw [List.map_nil, Matcher.regions, List.flatMap_singleton]
      exact findAll_direct text (by rwa [String.toList_ofList])
    · rw [hrun, List.getLast?_concat]
      rfl
  | parallel template decoration => exact h.elim
  | nested outer within inner' =>
    have hrun : (⟨.nested outer within inner', group, caseSensitive⟩ : Expression).replaceAll text
        mapping = _ := replaceAll_nested text hmapping hlevels hinner
    refine ⟨?_, congrArg Traced.outcome hrun, ?_⟩
    · refine findAll_nested text ?_ ?_
      · rwa [String.toList_ofList]
      · rwa [String.toList_ofList]
    · have hlength : levels.length = within.length + 1 := hlevels.length_eq.symm
      rw [hrun, List.getLast?_concat, hlength]
      rfl

namespace Expression.Regular

variable {e : Expression} {mapping : Mapping} {levels : List Pattern} {inner : Pattern}

/-- If replacing gave a result, all templates of the expression are patterns. -/
theorem exists_compiles (h : e.Regular) {text : String} {result : Option String}
    (hmapping : mapping ≠ []) (hresult : (e.replaceAll text mapping).outcome = .ok result) :
    ∃ levels inner,
      e.Compiles (Lookup.ofMapping mapping e.caseSensitive).pattern levels inner := by
  have hempty : mapping.isEmpty = false := by simpa using hmapping
  cases h with
  | direct reports =>
    simp only [replaceAll, hempty, matcher] at hresult
    obtain ⟨m, hm, -⟩ := Traced.bind_eq_ok hresult
    obtain ⟨p, hp⟩ := Matcher.exists_pattern_of_compile hm
    exact ⟨[], p, .nil, hp⟩
  | nested narrows reports =>
    simp only [replaceAll, hempty, matcher] at hresult
    obtain ⟨ms, hms, hresult⟩ := Traced.bind_eq_ok hresult
    obtain ⟨m, hm, -⟩ := Traced.bind_eq_ok hresult
    obtain ⟨levels, hlevels⟩ := Matcher.exists_patterns_of_mapM hms
    obtain ⟨p, hp⟩ := Matcher.exists_pattern_of_compile hm
    exact ⟨levels, p, hlevels, hp⟩

/-- An expression that is regular decorates nothing. -/
theorem serial (h : e.Regular) : e.strategy.Serial := by
  cases h with
  | direct reports | nested narrows reports => trivial

/-- What a regular expression finds and how it replaces, said in one way for both strategies. -/
theorem run (h : e.Regular) (text : String) (hmapping : mapping ≠ [])
    (hcompiles : e.Compiles (Lookup.ofMapping mapping e.caseSensitive).pattern levels inner) :
    let lookup := Lookup.ofMapping mapping e.caseSensitive
    let matchers := levels.map (Matcher.ofPattern e.group.toList)
    let matcher := Matcher.ofPattern e.group.toList inner
    (e.findAll text (String.ofList lookup.pattern)).outcome =
        .ok (((Matcher.regions matchers text.toList).flatMap matcher.captured).map e.report) ∧
      (e.replaceAll text mapping).outcome =
        .ok ((Matcher.replaceInRegions matcher lookup matchers text.toList).2.changed?.map
          String.ofList) ∧
      (e.replaceAll text mapping).events.getLast? =
        some (e.strategy.replaced
          (Matcher.replaceInRegions matcher lookup matchers text.toList).1) :=
  hcompiles.run h.serial text hmapping

end Expression.Regular

/-! ### Everything reported resolves -/

/-- The keys of a mapping, the last one to be tried first. -/
def Lookup.texts (lookup : Lookup) : List (List Char) :=
  (lookup.keys.map String.toList).reverse

/-- What the check of an outline says of the pattern of a template that is filled with all keys. -/
theorem Shaped.pattern_sound {pieces : List Piece} {template : Template} {kind : List Char → Bool}
    {caseSensitive : Bool} {wanted : List Char} {mapping : Mapping} {p : Pattern}
    (hshaped : Shaped pieces template.source)
    (haccepted : Piece.accepted kind (!caseSensitive) wanted pieces = true)
    (hp : template.pattern (Lookup.ofMapping mapping caseSensitive).pattern caseSensitive = .ok p) :
    (p.WellNumbered ∧ p.ordered (isCaptureGroup wanted) (isAheadGroup wanted) = true) ∧
      p.GroupsHold kind (.seq (.oneOf (.initial (!caseSensitive))
        (Lookup.ofMapping mapping caseSensitive).texts) .empty) := by
  unfold Template.pattern at hp
  split at hp
  · rename_i q hq
    cases hp
    have hkeys := Pattern.inserts_oneOf (.initial (!caseSensitive))
      ((Lookup.ofMapping mapping caseSensitive).keys.map String.toList)
      fun text _ => Pattern.Flags.counts_of_eq_false rfl text
    rw [List.map_map] at hkeys
    obtain ⟨hordered, hholds⟩ :=
      Shape.ordered_and_groupsHold hshaped haccepted hkeys (Pattern.unnamed_oneOf _ _) hq
    exact ⟨⟨Pattern.parse?_wellNumbered hq, hordered⟩, hholds⟩
  · cases hp

namespace Expression.Regular

variable {e : Expression} {mapping : Mapping} {levels : List Pattern} {inner : Pattern}

/-- The captures of a regular expression lie in front of what follows them, at every level. -/
theorem ordered (h : e.Regular)
    (hcompiles : e.Compiles (Lookup.ofMapping mapping e.caseSensitive).pattern levels inner) :
    ∀ p ∈ levels ++ [inner], p.WellNumbered ∧
      p.ordered (isCaptureGroup e.group.toList) (isAheadGroup e.group.toList) = true := by
  obtain ⟨hlevels, hinner⟩ := hcompiles
  rw [List.forall_mem_append, List.forall_mem_singleton]
  cases h with
  | direct reports =>
    obtain rfl := List.forall₂_nil_left_iff.mp hlevels
    obtain ⟨pieces, hshaped, haccepted⟩ := reports
    exact ⟨List.forall_mem_nil _, (hshaped.pattern_sound haccepted hinner).1⟩
  | nested narrows reports =>
    obtain ⟨pieces, hshaped, haccepted⟩ := reports
    refine ⟨Pattern.forall_mem_of_forall₂ hlevels ?_ narrows,
      (hshaped.pattern_sound haccepted hinner).1⟩
    rintro template p hpattern ⟨pieces, hshaped, haccepted⟩
    exact (hshaped.pattern_sound haccepted hpattern).1

/-- **Whatever a regular expression captures resolves.** -/
theorem captured_resolves (h : e.Regular) (hmapping : mapping ≠ [])
    (hcompiles : e.Compiles (Lookup.ofMapping mapping e.caseSensitive).pattern levels inner)
    {region part : List Char}
    (hpart : part ∈ (Matcher.ofPattern e.group.toList inner).captured region) :
    ((Lookup.ofMapping mapping e.caseSensitive).get? part).isSome = true := by
  have hsound : inner.WellNumbered ∧ inner.GroupsHold (isBranchOf e.group.toList)
      (.seq (.oneOf (.initial (!e.caseSensitive))
        (Lookup.ofMapping mapping e.caseSensitive).texts) .empty) := by
    cases h with
    | direct reports | nested narrows reports =>
      obtain ⟨pieces, hshaped, haccepted⟩ := reports
      obtain ⟨⟨hnumbered, -⟩, hholds⟩ := hshaped.pattern_sound haccepted hcompiles.inner
      exact ⟨hnumbered, hholds⟩
  have hne : (Lookup.ofMapping mapping e.caseSensitive).texts ≠ [] := by
    simpa [Lookup.texts, Lookup.ofMapping, ← List.length_eq_zero_iff] using hmapping
  obtain ⟨text, htext, hwritten⟩ := Matcher.captured_writtenAs hsound.1 hne hsound.2 hpart
  rw [Lookup.texts, List.mem_reverse] at htext
  obtain ⟨key, hkey, rfl⟩ := List.mem_map.mp htext
  exact Lookup.get?_isSome (Lookup.mem_keys.mp hkey) hwritten

end Expression.Regular

/-- If all identifiers at some spans resolve, there is one edit for each. -/
theorem Lookup.forall₂_edits (lookup : Lookup) {text : List Char} {spans : List Span}
    {parts : List (List Char)} (hparts : spans.map (Span.slice? text) = parts.map some)
    (hresolve : ∀ part ∈ parts, (lookup.get? part).isSome = true) :
    List.Forall₂ (fun edit part => edit.span.slice? text = some part ∧
      ∃ value, lookup.get? part = some value ∧ edit.text = value.toList)
      (spans.filterMap (lookup.edit? text)) parts := by
  induction spans generalizing parts with
  | nil =>
    obtain rfl : parts = [] := by simpa using hparts.symm
    exact .nil
  | cons s spans ih =>
    cases parts with
    | nil => simp at hparts
    | cons part parts =>
      simp only [List.map_cons, List.cons.injEq] at hparts
      obtain ⟨hfirst, hrest⟩ := List.forall_mem_cons.mp hresolve
      obtain ⟨value, hvalue⟩ := Option.isSome_iff_exists.mp hfirst
      have hedit : lookup.edit? text s = some ⟨s, value.toList⟩ := by
        simp [edit?, resolve?, hparts.1, hvalue]
      rw [List.filterMap_cons_some hedit]
      exact .cons ⟨hparts.1, value, hvalue, rfl⟩ (ih hparts.2 hrest)

/-- What corresponds is counted alike. -/
theorem countP_eq_of_forall₂ {α β : Type} {R : α → β → Prop} {p : α → Bool} {q : β → Bool}
    {as : List α} {bs : List β} (h : List.Forall₂ R as bs) (hR : ∀ a b, R a b → p a = q b) :
    as.countP p = bs.countP q := by
  induction h with
  | nil => rfl
  | cons hab _ ih => rw [List.countP_cons, List.countP_cons, hR _ _ hab, ih]

/-- **The expressions of the languages replace exactly what they report.** For every grammar, intent
and plain options, every text and every mapping for which replacing succeeds: the templates compile,
and no edit is left out for overlapping an earlier one at any level. There is one edit for each
identifier that is found with the pattern of all keys, in the same order; that identifier resolves
to the value of a key it stands for, and the edit puts that value in its place. The result is the
text with these edits and nothing else changed, and their number is reported. If case matters, a
text is replaced as often as it is found. -/
theorem builtin_replaces_what_it_reports {grammar : Grammar} {options : Options}
    {expressions : List Expression} {e : Expression} {mapping : Mapping} {text : String}
    {result : Option String} (hexpressions : grammar.expressions options = .ok expressions)
    (he : e ∈ expressions) (hplain : options.Plain) (hmapping : mapping ≠ [])
    (hresult : (e.replaceAll text mapping).outcome = .ok result) :
    let lookup := Lookup.ofMapping mapping e.caseSensitive
    ∃ levels inner found edits out,
      e.Compiles lookup.pattern levels inner ∧
      Matcher.NoneDropped (.ofPattern e.group.toList inner) lookup
        (levels.map (.ofPattern e.group.toList)) text.toList ∧
      (e.findAll text (String.ofList lookup.pattern)).outcome = .ok found ∧
      List.Forall₂ (fun edit identifier => ∃ part key value,
        edit.span.slice? text.toList = some part ∧ e.report part = identifier ∧
        lookup.get? part = some value ∧ mapping.lookup key = some value ∧
        Lookup.standsFor e.caseSensitive part key.toList = true ∧ edit.text = value.toList)
        edits found ∧
      Patched 0 text.toList edits out ∧
      result = (if edits = [] then none else some (String.ofList out)) ∧
      (e.replaceAll text mapping).events.getLast? = some (e.strategy.replaced found.length) ∧
      (e.caseSensitive = true → ∀ o : String,
        edits.countP (fun edit => edit.span.slice? text.toList = some o.toList) =
          found.count o) := by
  intro lookup
  have hregular : e.Regular := grammar.expressions_ensures hplain _ hexpressions e he
  obtain ⟨levels, inner, hcompiles⟩ := hregular.exists_compiles hmapping hresult
  obtain ⟨hfound, hreplaced, hevents⟩ := hregular.run text hmapping hcompiles
  have hahead := Matcher.aheadFollowsWithin_of_ordered (hregular.ordered hcompiles) text.toList
  have hagrees := Matcher.agrees_ofPattern lookup hahead
  have hedits := lookup.forall₂_edits hagrees.texts fun part hpart => by
    obtain ⟨region, -, hpart⟩ := List.mem_flatMap.mp hpart
    exact hregular.captured_resolves hmapping hcompiles hpart
  refine ⟨levels, inner, _, _, _, hcompiles, hagrees.kept, hfound, ?_, hagrees.patched, ?_, ?_, ?_⟩
  · rw [List.forall₂_map_right_iff]
    refine hedits.imp ?_
    rintro edit part ⟨hslice, value, hvalue, htext⟩
    obtain ⟨key, hkey, hstands⟩ := Lookup.get?_eq_some hvalue
    exact ⟨part, key, value, hslice, rfl, hvalue, hkey, hstands, htext⟩
  · rw [hreplaced, hagrees.changed] at hresult
    exact (Except.ok.inj hresult).symm
  · rw [hevents, hagrees.count, ← Lookup.length_filterMap_edit?, List.length_map, hedits.length_eq]
  · intro hcase o
    have hreport : e.report = String.ofList := by
      funext part
      simp [Expression.report, hcase]
    rw [hreport, List.count, List.countP_map]
    refine countP_eq_of_forall₂ hedits ?_
    rintro edit part ⟨hslice, -⟩
    rw [hslice, Bool.eq_iff_iff]
    simp [← String.toList_inj]

theorem exists_forall₂_of_isOk {templates : List Template} {pattern : List Char}
    {caseSensitive : Bool}
    (h : (templates.all fun template => (template.pattern pattern caseSensitive).isOk) = true) :
    ∃ patterns, List.Forall₂ (fun template p => template.pattern pattern caseSensitive = .ok p)
      templates patterns := by
  induction templates with
  | nil => exact ⟨[], .nil⟩
  | cons template templates ih =>
    rw [List.all_cons, Bool.and_eq_true] at h
    obtain ⟨patterns, hpatterns⟩ := ih h.2
    cases hp : template.pattern pattern caseSensitive with
    | error e =>
      rw [hp] at h
      cases h.1
    | ok p => exact ⟨p :: patterns, .cons hp hpatterns⟩

/-- Two custom properties swapped in a value: the comma that ends one begins the next. -/
theorem builtin_replaces_swapped_properties :
    ∃ expressions e result found,
      Grammar.css.expressions (.cssDeclarationValues ⟨some "--", none⟩) = .ok expressions ∧
      e ∈ expressions ∧ Options.Plain (.cssDeclarationValues ⟨some "--", none⟩) ∧
      (e.replaceAll "p:--a,--b" [("a", "b"), ("b", "a")]).outcome = .ok result ∧
      (e.findAll "p:--a,--b" (String.ofList
        (Lookup.ofMapping [("a", "b"), ("b", "a")] e.caseSensitive).pattern)).outcome = .ok found ∧
      (e.replaceAll "p:--a,--b" [("a", "b"), ("b", "a")]).events.getLast? =
        some (e.strategy.replaced found.length) := by
  have hplain : Options.Plain (.cssDeclarationValues ⟨some "--", none⟩) := ⟨by decide, rfl⟩
  have hcheck : ((Grammar.css.expressions (.cssDeclarationValues ⟨some "--", none⟩)).toOption.any
      fun expressions => expressions.head?.any fun e => e.caseSensitive &&
        (e.strategy.template :: e.strategy.regions).all fun template =>
          (template.pattern ['a', '|', 'b'] true).isOk) = true := by decide +kernel
  obtain ⟨expressions, hoption, hany⟩ := (Option.any_eq_true _ _).mp hcheck
  obtain ⟨e, hhead, hall⟩ := (Option.any_eq_true _ _).mp hany
  rw [Bool.and_eq_true, ← Lookup.pattern_swap] at hall
  obtain ⟨hcase, hall⟩ := hall
  have hexpressions : Grammar.css.expressions (.cssDeclarationValues ⟨some "--", none⟩) =
      .ok expressions := by
    cases hresult : Grammar.css.expressions (.cssDeclarationValues ⟨some "--", none⟩) with
    | error error =>
      rw [hresult] at hoption
      cases hoption
    | ok found =>
      rw [hresult] at hoption
      cases hoption
      rfl
  have hmem : e ∈ expressions := List.mem_of_mem_head? hhead
  have hregular := Grammar.css.expressions_ensures hplain _ hexpressions e hmem
  obtain ⟨patterns, hpatterns⟩ := exists_forall₂_of_isOk hall
  obtain ⟨inner, levels, hinner, hlevels, rfl⟩ := List.forall₂_cons_left_iff.mp hpatterns
  rw [← hcase] at hinner hlevels
  have hresult := (Expression.Regular.run hregular "p:--a,--b" (by simp) ⟨hlevels, hinner⟩).2.1
  obtain ⟨_, _, found, _, _, -, -, hfound, -, -, -, hevents, -⟩ :=
    builtin_replaces_what_it_reports hexpressions hmem hplain (by simp) hresult
  exact ⟨expressions, e, _, found, hexpressions, hmem, hplain, hresult, hfound, hevents⟩

end Relabel
