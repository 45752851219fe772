import Relabel.Proofs.AttributeNames

/-!
# Renaming names of attributes

The names of attributes in a document are replaced by the values of the keys that they are equal to,
up to case. Names have ASCII letters only, so a name is a key up to case if and only if both are the
same in lower case, and it resolves to the value of that key if no other key is
(`Html.resolved_eq`). With what is known of the walk through a document, it follows what becomes of
the document (`Html.attribute_names_renamed_exactly`).
-/

namespace Relabel.Html

/-- The value of the key that a name is equal to, up to the case of ASCII letters. -/
def Name.renamed? (mapping : Mapping) (name : Name) : Option String :=
  (mapping.find? fun entry =>
    entry.1.toList.map Fragment.asciiLower == name.chars.map Fragment.asciiLower).map Prod.snd

/-- Names that are keys, up to the case of ASCII letters, are replaced by the values. -/
def nameRenaming (mapping : Mapping) : Renaming where
  mentions := fun a => (a.name.renamed? mapping).isSome
  render := fun a => ' ' :: (((a.name.renamed? mapping).getD a.name.toString).toList ++
    Value.renderAssigned a.value)
  render_of_not_mentions := by
    intro a h
    rw [Option.isSome_eq_false_iff, Option.isNone_iff_eq_none] at h
    rw [h, Option.getD_none, Name.toString, String.toList_ofList, Attribute.render]

section Renaming

variable {mapping : Mapping}

/-- The lowercase form of an identifier is that of ASCII. -/
theorem lowercase_of_identifier {text : List Char}
    (h : ∀ c ∈ text, isIdentifierChar c = true) :
    Unicode.lowercase text = text.map Fragment.asciiLower := by
  suffices hafter : ∀ before, Unicode.lowercaseAfter before text =
      text.map Fragment.asciiLower from hafter []
  induction text with
  | nil => exact fun _ => rfl
  | cons c text ih =>
    obtain ⟨hc, hlater⟩ := List.forall_mem_cons.mp h
    obtain ⟨hsigma, hlower⟩ := forall_isIdentifierChar (P := fun c => c ≠ '\u03A3' ∧
      Unicode.lowercaseChar c = [Fragment.asciiLower c]) (c := c) (by decide +kernel) hc
    intro before
    rw [Unicode.lowercaseAfter, if_neg hsigma, hlower, ih hlater, List.map_cons]
    rfl

/-- Identifiers can be names of attributes. -/
theorem nameable_of_identifiers (hkeys : mapping.Identifiers) : Nameable mapping := by
  intro entry hentry
  obtain ⟨hempty, hchars⟩ := hkeys entry hentry
  refine ⟨hempty, fun y hy => ?_⟩
  exact forall_isIdentifierChar (P := fun y => isWithinName y = true ∧ y ≠ '>') (by decide)
    (hchars y hy)

/-- Names stand for keys up to the case of ASCII letters. -/
theorem asciiLower_eq_of_standsFor {name : Name} {key : List Char}
    (hkey : ∀ c ∈ key, isIdentifierChar c = true)
    (h : Lookup.standsFor false name.chars key = true) :
    key.map Fragment.asciiLower = name.chars.map Fragment.asciiLower := by
  rw [Lookup.standsFor, if_neg Bool.false_ne_true, Bool.or_eq_true, beq_iff_eq,
    lowercase_of_identifier hkey, lowercase_of_identifier name.isIdentifierChar_of_mem,
    sameFoldText_iff name.isIdentifierChar_of_mem hkey] at h
  rcases h with hlower | hfold
  · exact hlower
  · exact hfold.symm

/-- A name resolves to the value of a key that is equal to it up to the case of ASCII letters. -/
theorem exists_entry_of_get? (hkeys : mapping.Identifiers) {name : Name} {value : String}
    (h : (Lookup.ofMapping mapping false).get? name.chars = some value) :
    ∃ key, (key, value) ∈ mapping ∧
      key.toList.map Fragment.asciiLower = name.chars.map Fragment.asciiLower := by
  obtain ⟨key, hentry, hstands⟩ := exists_mem_of_get? h
  exact ⟨key, hentry, asciiLower_eq_of_standsFor (hkeys _ hentry).2 hstands⟩

/-- **A name resolves to the value of the key that it is equal to**, up to the case of ASCII
letters, if no two keys are equal up to it. -/
theorem resolved_eq (hkeys : mapping.Identifiers)
    (hdistinct : (mapping.map fun entry => entry.1.toList.map Fragment.asciiLower).Nodup)
    (name : Name) : resolved mapping name.chars = (name.renamed? mapping).map String.toList := by
  refine congrArg (Option.map String.toList) ?_
  rw [Name.renamed?]
  cases hfind : mapping.find? fun entry =>
      entry.1.toList.map Fragment.asciiLower == name.chars.map Fragment.asciiLower with
  | none =>
    rw [Option.map_none, Option.eq_none_iff_forall_ne_some]
    intro value hget
    obtain ⟨key, hentry, hlower⟩ := exists_entry_of_get? hkeys hget
    have hnot := List.find?_eq_none.mp hfind _ hentry
    rw [beq_iff_eq] at hnot
    exact hnot hlower
  | some entry =>
    have hentry := List.mem_of_find?_eq_some hfind
    have hlower := List.find?_some hfind
    rw [beq_iff_eq] at hlower
    have hwritten : writtenAs (!false) name.chars entry.1.toList = true :=
      (sameFoldText_iff name.isIdentifierChar_of_mem (hkeys entry hentry).2).mpr hlower.symm
    have hsome := Lookup.get?_isSome (List.mem_map_of_mem hentry) hwritten
    obtain ⟨value, hget⟩ := Option.isSome_iff_exists.mp hsome
    obtain ⟨key, hmem, hlower'⟩ := exists_entry_of_get? hkeys hget
    obtain rfl : (key, value) = entry :=
      List.inj_on_of_nodup_map hdistinct hmem hentry (hlower'.trans hlower.symm)
    exact hget

/-- A name is matched if it is to be renamed. -/
theorem mem_keysOf_iff (hne : mapping ≠ []) (hkeys : mapping.Identifiers) {name : Name} :
    name.chars ∈ (keysOf hne (nameable_of_identifiers hkeys)).pattern.language ↔
      (name.renamed? mapping).isSome = true := by
  rw [mem_language_keysOf, Name.renamed?, Option.isSome_map, List.find?_isSome]
  refine exists_congr fun entry => and_congr_right fun hentry => ?_
  rw [sameFoldText_iff name.isIdentifierChar_of_mem (hkeys entry hentry).2, beq_iff_eq, eq_comm]

/-- What resolving makes of an attribute is what renaming does. -/
theorem renderChanged_resolved (hkeys : mapping.Identifiers)
    (hdistinct : (mapping.map fun entry => entry.1.toList.map Fragment.asciiLower).Nodup)
    (a : Attribute) : a.renderChanged (resolved mapping) = (nameRenaming mapping).render a := by
  change ' ' :: ((resolved mapping a.name.chars).getD a.name.chars ++ _) =
    ' ' :: (((a.name.renamed? mapping).getD a.name.toString).toList ++ _)
  rw [resolved_eq hkeys hdistinct]
  cases a.name.renamed? mapping with
  | none =>
    rw [Option.map_none, Option.getD_none, Option.getD_none, Name.toString, String.toList_ofList]
  | some value => rfl

/-- Keys can stand in a tag. -/
theorem mem_tagBody_of_mem_keysOf (hne : mapping ≠ []) (hkeys : mapping.Identifiers)
    {part : List Char}
    (h : part ∈ (keysOf hne (nameable_of_identifiers hkeys)).pattern.language) :
    part ∈ tagBody := by
  obtain ⟨entry, hentry, hsame⟩ := mem_language_keysOf.mp h
  refine mem_tagBody_of_chars fun y hy => of_notMem_delimiters fun hdelimiter => ?_
  obtain ⟨z, hz, hfold⟩ := exists_sameFold hsame hy
  obtain rfl := Unicode.eq_of_sameFold hfold
    (.inl (isUncased_of_mem_delimiters (.inr hdelimiter)))
  exact (of_isIdentifierChar ((hkeys entry hentry).2 y hz)).2 hdelimiter

/-- **Names are renamed in tags**: what is captured is changed as it should be. -/
theorem renames_names (hne : mapping ≠ []) (hkeys : mapping.Identifiers)
    (hdistinct : (mapping.map fun entry => entry.1.toList.map Fragment.asciiLower).Nodup) :
    (keyTags (keysOf hne (nameable_of_identifiers hkeys))).Renames (nameRenaming mapping)
      fun region => ((keyNames (keysOf hne (nameable_of_identifiers hkeys))).matcher.rewrite
        (resolved mapping) region).changed? where
  reads := by
    intro text part hpart _
    obtain ⟨x, front, key, back, hx, hfront, hkey, hback, rfl⟩ :=
      mem_language_keyRegionPattern.mp hpart
    exact ⟨x, _, rfl, hx, append_mem_tagBody hfront
      (append_mem_tagBody (mem_tagBody_of_mem_keysOf hne hkeys hkey) hback)⟩
  captured := by
    intro attributes hwell hany
    obtain ⟨a, ha, hmentions⟩ := List.any_eq_true.mp hany
    exact attributes_mem_keyRegionPattern hwell ⟨a, ha, (mem_keysOf_iff hne hkeys).mpr hmentions⟩
  changed := by
    intro attributes hwell hsome closing
    have hkept : ∀ a ∈ attributes,
        a.name.chars ∉ (keysOf hne (nameable_of_identifiers hkeys)).pattern.language →
          resolved mapping a.name.chars = none := by
      intro a _ hkey
      rw [mem_keysOf_iff hne hkeys, Bool.not_eq_true, Option.isSome_eq_false_iff,
        Option.isNone_iff_eq_none] at hkey
      rw [resolved_eq hkeys hdistinct, hkey, Option.map_none]
    have hmentions : (fun a : Attribute => (resolved mapping a.name.chars).isSome) =
        (nameRenaming mapping).mentions := by
      funext a
      rw [resolved_eq hkeys hdistinct, Option.isSome_map]
      rfl
    rw [changed?_rewrite_names hwell hsome hkept, hmentions,
      funext (renderChanged_resolved hkeys hdistinct)]

end Renaming

namespace Document

def mentionsNames (mapping : Mapping) (document : Document) : Bool :=
  document.any (nameRenaming mapping).changes

def renderRenamed (mapping : Mapping) (document : Document) : String :=
  String.ofList (document.flatMap (nameRenaming mapping).renderItem)

end Document

/-- **Names of attributes are renamed exactly.** In every start tag of a document, the names that
are equal to a key, up to the case of ASCII letters, are replaced by its value. Nothing else
changes, and there is no new text if no name is replaced. -/
theorem attribute_names_renamed_exactly {mapping : Mapping} {document : Document}
    (hne : mapping ≠ []) (hkeys : mapping.Identifiers)
    (hdistinct : (mapping.map fun entry => entry.1.toList.map Fragment.asciiLower).Nodup)
    (hwell : document.WellFormed) :
    ∃ e result, attributes = .ok [e] ∧
      (e.replaceAll document.render mapping).outcome = .ok result ∧
      result.isSome = document.mentionsNames mapping ∧
      result.getD document.render = document.renderRenamed mapping := by
  have hreplaced := outcome_replaceAll hne (nameable_of_identifiers hkeys) document.render
  rw [Document.render, String.toList_ofList,
    (renames_names hne hkeys hdistinct).changed?_rewrite hwell] at hreplaced
  refine ⟨nameExpression, _, attributes_eq, hreplaced, ?_⟩
  rw [Document.mentionsNames, Document.renderRenamed]
  cases hchanges : document.any (nameRenaming mapping).changes with
  | true => exact ⟨rfl, rfl⟩
  | false =>
    rw [Renaming.flatMap_renderItem_of_not_changes hchanges]
    exact ⟨rfl, rfl⟩

/-- A document with names in different cases, and with keys in a comment, in values and in the
text. -/
def shouted : Document :=
  [.comment " id ".toList,
    .startTag paragraph
      [⟨.literal "ID" rfl, some ⟨.double, "> id".toList⟩⟩,
        ⟨.literal "data-id" rfl, some ⟨.single, " id ".toList⟩⟩,
        ⟨.literal "Hidden" rfl, none⟩] true,
    .text " id=''>".toList, .endTag paragraph]

theorem attribute_names_renamed_shouted :
    ∃ e, attributes = .ok [e] ∧
      (e.replaceAll "<!-- id --><p ID=\"> id\" data-id=' id ' Hidden/> id=''></p>"
        [("id", "hidden"), ("HIDDEN", "é")]).outcome =
      .ok (some "<!-- id --><p hidden=\"> id\" data-id=' id ' é/> id=''></p>") := by
  have hkeys : Mapping.Identifiers [("id", "hidden"), ("HIDDEN", "é")] := by
    decide
  obtain ⟨e, result, he, hreplaced, hsome, hrenamed⟩ :=
    @attribute_names_renamed_exactly [("id", "hidden"), ("HIDDEN", "é")] shouted (by simp) hkeys
      (by decide) (by decide)
  refine ⟨e, he, ?_⟩
  have hrender : shouted.render =
      "<!-- id --><p ID=\"> id\" data-id=' id ' Hidden/> id=''></p>" := by
    decide
  have hmentions : shouted.mentionsNames [("id", "hidden"), ("HIDDEN", "é")] = true := by
    decide
  obtain ⟨text, rfl⟩ := Option.isSome_iff_exists.mp (hsome.trans hmentions)
  rw [← hrender, hreplaced]
  exact congrArg (fun text => Except.ok (some text)) (hrenamed.trans (by decide))

end Relabel.Html
