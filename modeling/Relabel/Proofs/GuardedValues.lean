import Relabel.Proofs.Markup

/-!
# Values behind some names

An expression for attribute values has a pattern for the names of the attributes it looks at. Here
the names may be any language, of texts with any characters in them. In attributes they are met only
where one of them begins, in front of an equals sign (`Html.candidates`). A start tag is passed over
if nothing that stands there is one of the names (`Html.Guard.Spares.rewrites_attributes`), and
expressions leave it alone.
-/

namespace Relabel

/-- `e.LeavesAlone mapping text`: the expression reports no key in the text and replaces none. -/
structure Expression.LeavesAlone (e : Expression) (mapping : Mapping) (text : String) : Prop where
  found : (e.findAll text (String.ofList (Lookup.ofMapping mapping true).pattern)).outcome = .ok []
  replaced : (e.replaceAll text mapping).outcome = .ok none

namespace Html

open Pattern

/-! ### What could be taken for a name -/

/-- What a value could be assigned to at the beginning of a text: all that an equals sign follows,
perhaps behind white space. -/
def assignees (text : List Char) : List (List Char) :=
  text.inits.filter fun part =>
    ((text.drop part.length).dropWhile Unicode.isSpace).head? == some '='

/-- A value could be assigned to what an equals sign follows. -/
theorem mem_assignees {text part : List Char} : part ∈ assignees text ↔
    ∃ gap rest, (∀ y ∈ gap, Unicode.isSpace y = true) ∧ text = part ++ (gap ++ '=' :: rest) := by
  simp only [assignees, List.mem_filter, List.mem_inits, beq_iff_eq]
  constructor
  · rintro ⟨⟨later, rfl⟩, hequals⟩
    rw [List.drop_left] at hequals
    obtain ⟨rest, hrest⟩ := List.head?_eq_some_iff.mp hequals
    refine ⟨later.takeWhile Unicode.isSpace, rest, fun y hy => List.mem_takeWhile_imp hy, ?_⟩
    rw [← hrest, List.takeWhile_append_dropWhile]
  · rintro ⟨gap, rest, hgap, rfl⟩
    refine ⟨List.prefix_append _ _, ?_⟩
    rw [List.drop_left, List.dropWhile_append_of_pos hgap]
    rfl

/-- What could be taken for a name behind the blank in front of an attribute. -/
def behindBlanks (attributes : List Attribute) : List (List Char) :=
  attributes.tails.flatMap fun later => assignees (later.flatMap Attribute.render).tail

/-- What could be taken for a name in attributes: behind a blank, or where the first of them
begins. -/
def candidates (attributes : List Attribute) : List (List Char) :=
  assignees (attributes.flatMap Attribute.render) ++ behindBlanks attributes

theorem behindBlanks_cons (a : Attribute) (attributes : List Attribute) :
    behindBlanks (a :: attributes) =
      assignees ((a :: attributes).flatMap Attribute.render).tail ++ behindBlanks attributes :=
  rfl

/-- The slash that ends a tag has no equals sign in it. -/
theorem mem_assignees_of_slash {text part gap rest : List Char} {closing : Bool}
    (hgap : ∀ y ∈ gap, Unicode.isSpace y = true)
    (h : text ++ slashIf closing = part ++ (gap ++ '=' :: rest)) : part ∈ assignees text := by
  have hslash : '=' ∉ slashIf closing := by
    cases closing <;> decide
  rw [← List.append_assoc] at h
  rcases List.append_eq_append_iff.mp h with ⟨more, -, hinside⟩ | ⟨more, htext, hmore⟩
  · exact absurd (by simp [hinside]) hslash
  · cases more with
    | nil =>
      rw [List.nil_append] at hmore
      exact absurd (by simp [← hmore]) hslash
    | cons y more =>
      obtain ⟨rfl, -⟩ := List.cons.inj hmore
      exact mem_assignees.mpr ⟨gap, more, hgap, by simpa using htext⟩

namespace Guard

variable {g : Guard} {c : Cursor} {attributes : List Attribute} {closing : Bool}

/-- `g.Spares attributes`: nothing that could be taken for a name is one of the names. -/
def Spares (g : Guard) (attributes : List Attribute) : Prop :=
  ∀ part ∈ candidates attributes, part ∉ g.named.language

/-- Nothing is matched at an attribute if nothing that could be taken for a name there is one. -/
theorem matchAt_eq_none {a : Attribute}
    (hbehind : ∀ part ∈ behindBlanks (a :: attributes), part ∉ g.named.language)
    (hfront : c.before = none →
      ∀ part ∈ assignees ((a :: attributes).flatMap Attribute.render), part ∉ g.named.language)
    (hrest : c.rest = (a :: attributes).flatMap Attribute.render ++ slashIf closing) :
    g.matcher.program.matchAt c = none := by
  apply g.passesValues.matchAt_eq_none_iff.mpr
  intro d new hmatches
  rcases guarded_cases g.lexical hmatches with ⟨-, part, hover, hvalue⟩ |
    ⟨e, f, text, ⟨hopens, hmem, gap, gap', hgap, -, hover⟩, -⟩
  · rw [List.flatMap_cons, List.append_assoc] at hrest
    exact Values.not_passed_of_blank hrest hover hvalue
  · have hnamed : e.rest = text ++ (gap ++ '=' :: (gap' ++ f.rest)) := by
      simpa using hover.1
    rcases hopens with ⟨hbefore, rfl⟩ | ⟨x, -, hspace⟩
    · exact hfront hbefore text (mem_assignees_of_slash hgap (hrest.symm.trans hnamed)) hmem
    · -- the blank in front of the attribute has been consumed
      have hlater : e.rest = ((a :: attributes).flatMap Attribute.render).tail ++ slashIf closing :=
        (List.cons.inj (hspace.1.symm.trans hrest)).2
      refine hbehind text ?_ hmem
      rw [behindBlanks_cons]
      exact List.mem_append_left _ (mem_assignees_of_slash hgap (hlater.symm.trans hnamed))

/-- The walk over the attributes of a tag: only the first of them can stand where a text begins. -/
theorem rewrites_attributes (hwell : ∀ a ∈ attributes, a.WellFormed)
    (hbehind : ∀ part ∈ behindBlanks attributes, part ∉ g.named.language)
    (hfront : c.before = none → attributes ≠ [] ∧
      ∀ part ∈ assignees (attributes.flatMap Attribute.render), part ∉ g.named.language)
    (hc : c.rest = attributes.flatMap Attribute.render ++ slashIf closing)
    (change : List Char → Option (List Char)) :
    g.matcher.Rewrites change c false
      (attributes.flatMap Attribute.render ++ slashIf closing) := by
  induction attributes generalizing c with
  | nil =>
    have hbefore : c.before ≠ none := fun hnone => (hfront hnone).1 rfl
    exact g.passesValues.rewrites_slash hbefore hc
  | cons a attributes ih =>
    obtain ⟨ha, hlater⟩ := List.forall_mem_cons.mp hwell
    have hnone := matchAt_eq_none hbehind (fun hbefore => (hfront hbefore).2) hc
    rw [behindBlanks_cons, List.forall_mem_append] at hbehind
    rw [List.flatMap_cons, List.append_assoc] at hc ⊢
    obtain ⟨d, hover, hd⟩ := Cursor.exists_over hc
    have hnext : d.before ≠ none := by
      rw [hover.2.2, Attribute.render, List.getLast?_cons]
      simp
    exact g.passesValues.rewrites_unmatched ha hover hnone
      (ih hlater hbehind.2 (fun hbefore => absurd hbefore hnext) hd)

/-- **Attributes that are spared are passed over.** -/
theorem Spares.rewrites_attributes (h : g.Spares attributes)
    (hwell : ∀ a ∈ attributes, a.WellFormed) (hsome : attributes ≠ [])
    (change : List Char → Option (List Char)) :
    g.matcher.Rewrites change (.start (attributes.flatMap Attribute.render ++ slashIf closing))
      false (attributes.flatMap Attribute.render ++ slashIf closing) := by
  rw [Spares, candidates, List.forall_mem_append] at h
  exact Guard.rewrites_attributes hwell h.2 (fun _ => ⟨hsome, h.1⟩) rfl change

/-- Where nothing is one of the names, nothing is captured. -/
theorem Spares.captured_attributes (h : g.Spares attributes)
    (hwell : ∀ a ∈ attributes, a.WellFormed) (hsome : attributes ≠ []) :
    g.matcher.captured (attributes.flatMap Attribute.render ++ slashIf closing) = [] := by
  rw [List.eq_nil_iff_forall_not_mem]
  intro part hpart
  cases (h.rewrites_attributes hwell hsome some).change_eq_none g.advances part hpart

/-- Where nothing is one of the names, nothing is changed. -/
theorem Spares.changed?_attributes (h : g.Spares attributes)
    (hwell : ∀ a ∈ attributes, a.WellFormed) (hsome : attributes ≠ [])
    (change : List Char → Option (List Char)) :
    (g.matcher.rewrite change (attributes.flatMap Attribute.render ++ slashIf closing)).changed? =
      none :=
  (h.rewrites_attributes hwell hsome change).changed?_rewrite g.advances

end Guard

/-! ### A start tag that is left alone -/

section Tag

variable {mapping : Mapping} {name : Name} {attributes : List Attribute} {closing : Bool}

/-- A start tag is passed over if nothing changes in its attributes. -/
theorem rewrites_tag_unchanged (hne : mapping ≠ []) (hkeys : mapping.Identifiers)
    (hwell : ∀ a ∈ attributes, a.WellFormed) {change : List Char → Option (List Char)}
    (hchange : attributes ≠ [] → ∀ closing,
      change (attributes.flatMap Attribute.render ++ slashIf closing) = none) :
    (Markup.tags mapping).matcher.Rewrites change
      (.start (Item.startTag name attributes closing).render) false
      (Item.startTag name attributes closing).render := by
  obtain ⟨d, hover, hd⟩ := Cursor.exists_over
    (c := .start (Item.startTag name attributes closing).render) (List.append_nil _).symm
  have hstop : (Markup.tags mapping).matcher.Rewrites change d false [] := by
    refine .stop hd (StartTags.matchAt_quiet ?_)
    rw [hd]
    rintro y ⟨⟩
  have hreads : ∀ text, (Markup.tags mapping).Reads text :=
    fun _ _ hpart _ => exists_of_mem_regionPattern hne hkeys hpart
  have hmatched : false = true →
      attributes.flatMap Attribute.render ∈ (Markup.tags mapping).region.language := nofun
  have hrewrites := StartTags.rewrites_tag (isInside_attributes hwell)
    (bracket_notMem_attributes hwell) (hreads _) hover (fun _ => rfl) hmatched (fun hsome => by
      apply hchange
      rintro rfl
      exact hsome rfl) hstop
  rwa [List.append_nil] at hrewrites

variable (hne : mapping ≠ []) (hkeys : mapping.Identifiers) (hwell : ∀ a ∈ attributes, a.WellFormed)
include hne hkeys hwell

/-- Nothing is found or changed in a start tag if nothing is in its attributes. -/
theorem untouched_tag {inner : Matcher} {lookup : Lookup} {levels : List Matcher}
    (hfound : attributes ≠ [] → ∀ closing, (Matcher.regions levels
      (attributes.flatMap Attribute.render ++ slashIf closing)).flatMap inner.captured = [])
    (hchanged : attributes ≠ [] → ∀ closing, (Matcher.replaceInRegions inner lookup levels
      (attributes.flatMap Attribute.render ++ slashIf closing)).2.changed? = none) :
    (Matcher.regions ((Markup.tags mapping).matcher :: levels)
        (Item.startTag name attributes closing).render).flatMap inner.captured = [] ∧
      (Matcher.replaceInRegions inner lookup ((Markup.tags mapping).matcher :: levels)
        (Item.startTag name attributes closing).render).2.changed? = none := by
  constructor
  · have hrewrites : (Markup.tags mapping).matcher.Rewrites
        (fun region => ((Matcher.regions levels region).flatMap inner.captured).head?)
        (.start (Item.startTag name attributes closing).render) false _ :=
      rewrites_tag_unchanged hne hkeys hwell fun hsome closing => by
        rw [hfound hsome closing]
        rfl
    rw [Matcher.regions, List.flatMap_assoc, List.flatMap_eq_nil_iff]
    intro region hregion
    exact List.head?_eq_none_iff.mp
      (hrewrites.change_eq_none (Markup.tags mapping).advances region hregion)
  · rw [Matcher.replaceInRegions_eq_rewrite]
    exact (rewrites_tag_unchanged hne hkeys hwell hchanged).changed?_rewrite
      (Markup.tags mapping).advances

variable {e : Expression} {levels : Mapping → List Pattern} {inner : Mapping → Pattern}
  (hspells : e.Spells levels inner) (hserial : e.strategy.Serial)
include hspells hserial

/-- An expression leaves a start tag alone if it finds and changes nothing in its attributes. -/
theorem leavesAlone_tag {later : List Pattern}
    (hlevels : levels mapping = choice (Markup.tags mapping).pattern [commentPattern] :: later)
    (hfound : attributes ≠ [] → ∀ closing, (Matcher.regions (later.map (.ofPattern "main".toList))
      (attributes.flatMap Attribute.render ++ slashIf closing)).flatMap
        (Matcher.ofPattern "main".toList (inner mapping)).captured = [])
    (hchanged : attributes ≠ [] → ∀ closing, (Matcher.replaceInRegions
      (.ofPattern "main".toList (inner mapping)) (Lookup.ofMapping mapping true)
      (later.map (.ofPattern "main".toList))
      (attributes.flatMap Attribute.render ++ slashIf closing)).2.changed? = none) :
    e.LeavesAlone mapping (String.ofList (Item.startTag name attributes closing).render) := by
  obtain ⟨hrunFound, hrunReplaced⟩ := hspells.run_of_serial hserial hne
    (String.ofList (Item.startTag name attributes closing).render)
  obtain ⟨hnone, hsame⟩ := untouched_tag hne hkeys hwell hfound hchanged
  have htags : (Markup.tags mapping).matcher = .ofPattern "main".toList
    (choice (Markup.tags mapping).pattern [commentPattern]) := rfl
  rw [htags, ← List.map_cons, ← hlevels] at hnone hsame
  rw [String.toList_ofList (l := Item.render _)] at hrunFound hrunReplaced
  constructor
  · rw [hrunFound, hnone]
    rfl
  · rw [hrunReplaced, hsame]
    rfl

variable {g : Guard} (hspares : g.Spares attributes)
include hspares

/-- **Values are left alone** in a start tag whose attributes are spared. -/
theorem leavesAlone_of_values
    (hlevels : levels mapping = [choice (Markup.tags mapping).pattern [commentPattern]])
    (hinner : inner mapping = g.pattern) :
    e.LeavesAlone mapping (String.ofList (Item.startTag name attributes closing).render) := by
  apply leavesAlone_tag hne hkeys hwell hspells hserial hlevels
  · intro hsome closing
    rw [hinner, List.map_nil, Matcher.regions, List.flatMap_singleton]
    exact hspares.captured_attributes hwell hsome
  · intro hsome closing
    rw [hinner, List.map_nil, Matcher.replaceInRegions, Matcher.replaceCaptures_eq_rewrite]
    exact hspares.changed?_attributes hwell hsome _

/-- What is captured in values is left alone too. -/
theorem leavesAlone_in_values
    (hlevels : levels mapping =
      [choice (Markup.tags mapping).pattern [commentPattern], g.pattern]) :
    e.LeavesAlone mapping (String.ofList (Item.startTag name attributes closing).render) := by
  apply leavesAlone_tag hne hkeys hwell hspells hserial hlevels
  · intro hsome closing
    have hnone : g.matcher.captured (attributes.flatMap Attribute.render ++ slashIf closing) = [] :=
      hspares.captured_attributes hwell hsome
    rw [Guard.matcher] at hnone
    rw [List.map_singleton, Matcher.regions, hnone]
    rfl
  · intro hsome closing
    rw [List.map_singleton, Matcher.replaceInRegions_eq_rewrite]
    exact hspares.changed?_attributes hwell hsome _

end Tag

end Html

end Relabel
