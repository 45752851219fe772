import Relabel.Proofs.OtherAttributes

/-!
# Renaming values of attributes

A value is replaced if it is a key as a whole and its attribute has one of some names, up to the
case of ASCII letters. A start tag is looked into if a key stands anywhere in a value; inside, only
the values that are keys are captured (`Html.KeyValues.selection`), and all others are passed over.
With what is known of the walk through a document, it follows what becomes of the document
(`Html.attribute_values_renamed_exactly`).
-/

namespace Relabel.Html

open Pattern

/-! ### Documents with new values -/

/-- The attribute with its value replaced, if it has one of the names and its value is a key. -/
def Attribute.renameValue (names : List Name) (mapping : Mapping) (a : Attribute) : Attribute :=
  if a.isNamed names then a.withValue mapping.change? else a

def Attribute.isKeyed (names : List Name) (mapping : Mapping) (a : Attribute) : Bool :=
  a.isNamed names && a.value.any fun v => (mapping.change? v.text).isSome

/-- Attributes with one of some names have their values replaced if these are keys. -/
def valueRenaming (names : List Name) (mapping : Mapping) : Renaming where
  mentions := Attribute.isKeyed names mapping
  render := fun a => (a.renameValue names mapping).render
  render_of_not_mentions := by
    intro a h
    rw [Attribute.renameValue]
    split
    · rename_i hnamed
      rw [Attribute.isKeyed, hnamed, Bool.true_and] at h
      rw [Attribute.withValue_of_not_hasChange h]
    · rfl

namespace Document

def mentionsValues (names : List Name) (mapping : Mapping) (document : Document) : Bool :=
  document.any (valueRenaming names mapping).changes

/-- The document in which the values that are keys are replaced, in attributes with one of some
names. -/
def renameValues (names : List Name) (mapping : Mapping) (document : Document) : Document :=
  document.map (Item.mapAttributes (Attribute.renameValue names mapping))

end Document

/-! ### The names of attributes -/

section Names

variable {names : List Name}

theorem keptNames_map (names : List Name) :
    keptNames (names.map Name.toString) = names.map Name.chars := by
  rw [keptNames, filter_names, List.map_map]
  refine List.map_congr_left fun name _ => ?_
  rw [Function.comp_apply, Name.toString, String.toList_ofList]

/-- Names of attributes have no slots, so they stand for themselves. -/
theorem mem_language_namesPattern_map (hnames : names ≠ []) {mapping : Mapping} (hne : mapping ≠ [])
    {part : List Char} :
    part ∈ (namesPattern (names.map Name.toString) mapping).language ↔
      part ∈ (namePattern names).language := by
  have hkept : keptNames (names.map Name.toString) ≠ [] := by
    rw [keptNames_map]
    simpa using hnames
  rw [mem_language_namesPattern hkept hne, keptNames_map, mem_language_namePattern hnames]
  simp only [List.mem_map, exists_exists_and_eq_and]
  refine exists_congr fun name => and_congr_right fun _ => ?_
  rw [instances_of_hasSlot (hasSlot_of_notMem (name.notMem_of_delimiter (by decide)))]
  simp

end Names

/-! ### Values that are keys -/

namespace KeyValues

variable {names : List Name} {mapping : Mapping} (hnames : names ≠ []) (hne : mapping ≠ [])
  (hkeys : mapping.Identifiers)

/-- Values that are keys, behind some names. -/
def selection : Selection where
  named := namesPattern (names.map Name.toString) mapping
  content := fun _ => row [mapping.keyPattern]
  keys := mapping.keyPattern
  selects := Attribute.isNamed names
  lexical_named := (keyGuard _ mapping).lexical
  lexical_content := lexical_key mapping
  lexical_keys := mapping.lexical_keyPattern
  proper_named := (keyGuard _ mapping).proper_named
  proper_content := proper_key mapping
  proper_keys := mapping.proper_keyPattern
  plain_named := by
    intro part hpart
    rw [mem_language_namesPattern_map hnames hne] at hpart
    exact of_mem_language_namePattern hnames hpart
  plain_content := by
    intro q body hbody
    rw [language_row_singleton, Mapping.mem_language_keyPattern hne] at hbody
    exact quote_notMem_key hkeys hbody
  plain_keys := Values.plain_keyPattern hne hkeys
  mem_named := by
    intro a
    rw [mem_language_namesPattern_map hnames hne, mem_language_namePattern_iff_isNamed hnames]

/-- The matcher for values is that of a selection. -/
theorem matcher_eq : (keyGuard (names.map Name.toString) mapping).matcher =
    (selection hnames hne hkeys).guard.matcher :=
  rfl

/-- Nothing is changed but values that are keys. -/
theorem covers : (selection hnames hne hkeys).Covers mapping.change? := by
  intro q body _ hbody
  refine Mapping.change?_of_notMem fun hkey => hbody ?_
  change body ∈ (row [mapping.keyPattern]).language
  rwa [language_row_singleton, Mapping.mem_language_keyPattern hne]

include hnames hne hkeys in
/-- **Values are renamed in tags**: what is captured is changed as it should be. -/
theorem renames : (Markup.tags mapping).Renames (valueRenaming names mapping) fun region =>
    ((keyGuard (names.map Name.toString) mapping).matcher.rewrite mapping.change?
      region).changed? where
  reads := fun _ _ hpart _ => exists_of_mem_regionPattern hne hkeys hpart
  captured := by
    intro attributes hwell hany
    obtain ⟨a, ha, hkeyed⟩ := List.any_eq_true.mp hany
    change a.isKeyed names mapping = true at hkeyed
    rw [Attribute.isKeyed, Bool.and_eq_true, Option.any_eq_true] at hkeyed
    obtain ⟨-, v, hv, hkey⟩ := hkeyed
    exact attributes_mem_regionPattern hne hkeys hwell
      ⟨a, ha, v, hv, v.text, Mapping.isSome_change?_iff.mp hkey, List.infix_rfl⟩
  changed := by
    intro attributes hwell hsome closing
    rw [matcher_eq hnames hne hkeys, (selection hnames hne hkeys).changed?_rewrite
      (covers hnames hne hkeys) hwell hsome, List.flatMap_map]
    rfl

include hnames hne hkeys in
/-- **The two levels together replace the values of a document**, or yield no text if there is
nothing to replace. -/
theorem changed?_replaceInRegions {document : Document} (hwell : document.WellFormed) :
    (Matcher.replaceInRegions (keyGuard (names.map Name.toString) mapping).matcher
      (Lookup.ofMapping mapping true) [(Markup.tags mapping).matcher]
      (document.flatMap Item.render)).2.changed? =
      if document.mentionsValues names mapping then
        some ((document.renameValues names mapping).flatMap Item.render)
      else none := by
  have hregions : (fun region => (Matcher.replaceInRegions
      (keyGuard (names.map Name.toString) mapping).matcher (Lookup.ofMapping mapping true) []
      region).2.changed?) = fun region =>
        ((keyGuard (names.map Name.toString) mapping).matcher.rewrite
          mapping.change? region).changed? := by
    funext region
    rw [Matcher.replaceInRegions, Matcher.replaceCaptures_eq_rewrite]
    rfl
  rw [Matcher.replaceInRegions_eq_rewrite, hregions,
    (renames hnames hne hkeys).changed?_rewrite hwell,
    (valueRenaming names mapping).flatMap_renderItem fun _ => rfl]
  rfl

end KeyValues

/-- **Values of attributes are renamed exactly.** In every start tag of a document, the values that
are keys as a whole are replaced by what the keys are mapped to, in the attributes with one of the
names, up to the case of ASCII letters. Nothing else changes, and there is no new text if no value
is replaced. -/
theorem attribute_values_renamed_exactly {names : List Name} {mapping : Mapping}
    {document : Document} (hnames : names ≠ []) (hne : mapping ≠ []) (hkeys : mapping.Identifiers)
    (hwell : document.WellFormed) :
    ∃ e result, singleValueAttributes ⟨names.map Name.toString, none, none⟩ = .ok [e] ∧
      (e.replaceAll document.render mapping).outcome = .ok result ∧
      result.isSome = document.mentionsValues names mapping ∧
      result.getD document.render = (document.renameValues names mapping).render := by
  have hkept : keptNames (names.map Name.toString) ≠ [] := by
    rw [keptNames_map]
    simpa using hnames
  obtain ⟨e, he, hspells⟩ := exists_singleValue hkept
  have hserial := singleValueAttributes_serial _ _ he e List.mem_cons_self
  have hreplaced := (hspells.run_of_serial hserial hne document.render).2
  have hchanged := KeyValues.changed?_replaceInRegions hnames hne hkeys hwell
  rw [← String.toList_ofList (l := document.flatMap Item.render)] at hchanged
  refine ⟨e, _, he, hreplaced.trans (congrArg (Except.ok ∘ Option.map String.ofList) hchanged), ?_⟩
  cases hmentions : document.mentionsValues names mapping with
  | true => exact ⟨rfl, rfl⟩
  | false =>
    refine ⟨rfl, ?_⟩
    rw [Document.render, Document.render, Document.renameValues,
      ← (valueRenaming names mapping).flatMap_renderItem fun _ => rfl,
      Renaming.flatMap_renderItem_of_not_changes hmentions]
    rfl

/-- A document with values that are keys, also in an attribute that is not looked at, in a comment
and in the text, and with values that only have a key in them. -/
def mislabelled : Document :=
  [.comment " for='a' ".toList,
    .startTag paragraph
      [⟨.literal "FOR" rfl, some ⟨.double, ['a']⟩⟩,
        ⟨.literal "cite" rfl, some ⟨.double, " for='a'".toList⟩⟩,
        ⟨.literal "for" rfl, some ⟨.single, "b a".toList⟩⟩,
        ⟨.literal "data-for" rfl, some ⟨.single, ['b']⟩⟩,
        ⟨.literal "for" rfl, some ⟨.single, ['b']⟩⟩,
        ⟨.literal "open" rfl, none⟩] true,
    .text " for='a'>".toList, .endTag paragraph]

theorem attribute_values_renamed_mislabelled :
    ∃ e, singleValueAttributes ⟨["For", "open"], none, none⟩ = .ok [e] ∧
      (e.replaceAll ("<!-- for='a' --><p FOR=\"a\" cite=\" for='a'\"" ++
        " for='b a' data-for='b' for='b' open/> for='a'></p>")
        [("a", "b"), ("b", "é")]).outcome =
      .ok (some ("<!-- for='a' --><p FOR=\"b\" cite=\" for='a'\"" ++
        " for='b a' data-for='b' for='é' open/> for='a'></p>")) := by
  obtain ⟨e, result, he, hreplaced, hsome, hrenamed⟩ :=
    @attribute_values_renamed_exactly
      [.literal "For" rfl,
        .literal "open" rfl]
      [("a", "b"), ("b", "é")] mislabelled (by simp) (by simp) (by decide) (by decide)
  refine ⟨e, he, ?_⟩
  have hrender : mislabelled.render = "<!-- for='a' --><p FOR=\"a\" cite=\" for='a'\"" ++
      " for='b a' data-for='b' for='b' open/> for='a'></p>" := by
    decide
  have hmentions := hsome.trans (show _ = true by decide)
  obtain ⟨text, rfl⟩ := Option.isSome_iff_exists.mp hmentions
  rw [← hrender, hreplaced]
  exact congrArg (fun text => Except.ok (some text)) (hrenamed.trans (by decide))

end Relabel.Html
