import Relabel.Proofs.GuardedValues
import Relabel.Proofs.SlottedNames

/-!
# Attributes with other names

The expressions for attribute values are given the names of the attributes to look at. They leave
all others alone: if no attribute of a start tag has one of the names, up to case, nothing in the
tag is reported or replaced, whatever characters the names are made of
(`Html.other_attributes_left_alone`).

Two things have to be excepted. A name with a slot in it stands for its instances, the texts that
result when keys are put into its slots. And a name with a blank or a quotation mark in it can reach
over what is not a name (`Html.name_not_literal`).
-/

namespace Relabel.Html

open Pattern

/-! ### Names without separators -/

/-- What parts the attributes of a tag and their values: blanks and quotation marks. -/
def separators : List Char :=
  [' ', '"', '\'']

theorem Quote.mem_separators (q : Quote) : q.char ∈ separators := by
  cases q <;> decide

/-- A text without separators does not go on behind the name of an attribute. -/
theorem eq_nil_of_behind_name {value : Option Value} {attributes : List Attribute}
    {more gap rest : List Char} (hmore : ∀ y ∈ more, y ∉ separators)
    (hgap : ∀ y ∈ gap, Unicode.isSpace y = true)
    (h : Value.renderAssigned value ++ attributes.flatMap Attribute.render =
      more ++ (gap ++ '=' :: rest)) : more = [] := by
  cases more with
  | nil => rfl
  | cons y more =>
    obtain ⟨hy, hlater⟩ := List.forall_mem_cons.mp hmore
    cases value with
    | none =>
      -- the next attribute begins with a blank
      cases attributes with
      | nil => cases h
      | cons a attributes =>
        obtain ⟨rfl, -⟩ := List.cons.inj h
        exact absurd List.mem_cons_self hy
    | some v =>
      -- the value begins with a quotation mark, which is neither a blank nor an equals sign
      obtain ⟨rfl, hquote⟩ := List.cons.inj h
      cases more with
      | cons z more =>
        obtain ⟨rfl, -⟩ := List.cons.inj hquote
        exact absurd v.quote.mem_separators (hlater _ List.mem_cons_self)
      | nil =>
        cases gap with
        | nil =>
          have hequals := (List.cons.inj hquote).1
          cases hv : v.quote <;> rw [hv] at hequals <;> cases hequals
        | cons z gap =>
          obtain ⟨rfl, -⟩ := List.cons.inj hquote
          have hspace := hgap _ List.mem_cons_self
          rw [v.quote.not_isSpace] at hspace
          cases hspace

/-- What assigns a value does not begin in the name of an attribute. -/
theorem Name.not_assigned (name : Name) {front more gap rest later : List Char}
    (hgap : ∀ y ∈ gap, Unicode.isSpace y = true) (hname : name.chars = front ++ more)
    (h : gap ++ '=' :: rest = more ++ later) : more = [] := by
  cases more with
  | nil => rfl
  | cons y more =>
    obtain ⟨hspace, hdelimiter⟩ := name.of_mem (y := y) (by simp [hname])
    cases gap with
    | nil =>
      obtain ⟨rfl, -⟩ := List.cons.inj h
      exact absurd (by decide) hdelimiter
    | cons z gap =>
      obtain ⟨rfl, -⟩ := List.cons.inj h
      rw [hgap _ List.mem_cons_self] at hspace
      cases hspace

/-- Nothing without separators is assigned a value from the blank in front of an attribute on. -/
theorem blank_not_assigned {attributes : List Attribute} {part gap rest : List Char}
    (hapart : ∀ y ∈ part, y ∉ separators) (hgap : ∀ y ∈ gap, Unicode.isSpace y = true) :
    attributes.flatMap Attribute.render ≠ part ++ (gap ++ '=' :: rest) := by
  intro h
  cases attributes with
  | nil => simp at h
  | cons a attributes =>
    rw [List.flatMap_cons, Attribute.render, List.cons_append, List.append_assoc] at h
    cases part with
    | cons y part =>
      obtain ⟨rfl, -⟩ := List.cons.inj h
      exact hapart _ List.mem_cons_self List.mem_cons_self
    | nil =>
      cases gap with
      | nil => cases (List.cons.inj h).1
      | cons z gap =>
        have hempty : a.name.chars = [] := a.name.not_assigned (List.forall_mem_cons.mp hgap).2
          (List.nil_append _).symm (List.cons.inj h).2.symm
        obtain ⟨y, later, hchars⟩ := a.name.exists_cons
        rw [hempty] at hchars
        cases hchars

/-- **What could be taken for a name is one**, if it has no separators in it. -/
theorem exists_name_of_mem_candidates {attributes : List Attribute} {part : List Char}
    (hpart : part ∈ candidates attributes) (hapart : ∀ y ∈ part, y ∉ separators) :
    ∃ a ∈ attributes, a.name.chars = part := by
  rcases List.mem_append.mp hpart with hfront | hbehind
  · obtain ⟨gap, rest, hgap, hrender⟩ := mem_assignees.mp hfront
    exact absurd hrender (blank_not_assigned hapart hgap)
  · obtain ⟨later, hlater, hassignee⟩ := List.mem_flatMap.mp hbehind
    rw [List.mem_tails] at hlater
    obtain ⟨gap, rest, hgap, hrender⟩ := mem_assignees.mp hassignee
    cases later with
    | nil => simp at hrender
    | cons a later =>
      refine ⟨a, hlater.subset List.mem_cons_self, ?_⟩
      have hname : a.name.chars ++
          (Value.renderAssigned a.value ++ later.flatMap Attribute.render) =
            part ++ (gap ++ '=' :: rest) := by
        rw [← hrender, List.flatMap_cons, Attribute.render]
        simp
      rcases List.append_eq_append_iff.mp hname with ⟨more, hmore, hassigned⟩ |
        ⟨more, hmore, hassigned⟩
      · have hclean : ∀ y ∈ more, y ∉ separators := by
          intro y hy
          apply hapart
          rw [hmore]
          exact List.mem_append_right _ hy
        rw [hmore, eq_nil_of_behind_name hclean hgap hassigned, List.append_nil]
      · rw [hmore, a.name.not_assigned hgap hmore hassigned, List.append_nil]

/-! ### The names of an expression -/

def keptNames (names : List String) : List (List Char) :=
  (names.filter fun name => name != "").map String.toList

/-- The names that are not empty are put into one group, escaped. -/
theorem names_eq_ite (names : List String) : Fragment.names names =
    if keptNames names = [] then none else some (String.ofList
      ("(?:".toList ++ joinBars ((keptNames names).map escape) ++ [')'])) := by
  unfold Fragment.names keptNames
  simp only [List.map_map, List.isEmpty_iff, List.map_eq_nil_iff, Function.comp_def]

def namesPattern (names : List String) (mapping : Mapping) : Pattern :=
  slotted (.initial true) (.oneOf (.initial true) (Lookup.ofMapping mapping true).texts)
    (keptNames names).reverse

section Spelling

variable {names : List String} {mapping : Mapping}

theorem valuePattern_eq (content : Quote → Pattern) (keys : Pattern) :
    ofBranches (bareKeyPattern keys) [enclosedPattern content .single,
      enclosedPattern content .double] = valuePattern content keys :=
  ofBranches_of_apart rfl

theorem guardedPattern_eq (named value : Pattern) : ofBranches barePattern
    [quotedPattern .single, quotedPattern .double,
      row (Tokens.opening :: (assignmentOf named ++ [value]))] = guardedPattern named value :=
  ofBranches_of_apart rfl

/-- The reader behind what opens the names. -/
def opened : Reader :=
  ((Reader.start false).read "(?:^|\\s)(?i:".toList).get (by decide)

/-- The names are read as one item. -/
theorem spells?_names (hnames : keptNames names ≠ []) (mapping : Mapping) (back : List Char) :
    Template.spells? ("(?:^|\\s)(?i:".toList ++ ("(?:".toList ++
        (joinBars ((keptNames names).map escape) ++ ([')'] ++ back)))) mapping =
      ((opened.push (namesPattern names mapping)).readTemplate
        (fun flags => .oneOf flags (Lookup.ofMapping mapping true).texts) back).bind
          Reader.finish := by
  have hopened : (Reader.start false).read "(?:^|\\s)(?i:".toList = some opened := by
    simp [opened]
  rw [Template.spells?, Reader.readTemplate_append (by decide), hopened, Option.bind_some,
    ← List.append_assoc, ← List.append_assoc, Reader.readTemplate_slotted rfl rfl hnames]
  rfl

-- The text behind the names is evaluated character by character.
set_option maxRecDepth 4000 in
/-- The template for lists of identifiers, with names and keys filled in. -/
theorem spells?_multiValue (hnames : keptNames names ≠ []) (mapping : Mapping) : Template.spells?
    ("(?:^|\\s)(?i:" ++ String.ofList ("(?:".toList ++
      joinBars ((keptNames names).map escape) ++ [')']) ++
      ")\\s*=\\s*(?:\"(?P<main_1>[^\"]*(?:%s)[^\"]*)\"" ++
      "|'(?P<main_2>[^']*(?:%s)[^']*)'|(?P<main_3>%s)(?P<ahead>\\s|/|$))|" ++ anyValue).toList
      mapping = some (guardedPattern (namesPattern names mapping)
        (valuePattern (fun q => holding (notQuote q) mapping.keyPattern) mapping.keyPattern)) := by
  rw [← guardedPattern_eq, ← valuePattern_eq]
  simp only [anyValue, String.toList_append, String.toList_ofList, List.append_assoc]
  rw [spells?_names hnames]
  rfl

set_option maxRecDepth 4000 in
/-- The template for single identifiers, with names and keys filled in. -/
theorem spells?_singleValue (hnames : keptNames names ≠ []) (mapping : Mapping) : Template.spells?
    ("(?:^|\\s)(?i:" ++ String.ofList ("(?:".toList ++
      joinBars ((keptNames names).map escape) ++ [')']) ++
      ")\\s*=\\s*(?:\"" ++ "" ++ "(?P<main_1>%s)" ++ "" ++ "\"|'" ++ "" ++ "(?P<main_2>%s)" ++ "" ++
      "'|" ++ "" ++ "(?P<main_3>%s)" ++ "" ++ "(?P<ahead>\\s|/|$))|" ++ anyValue).toList
      mapping = some (guardedPattern (namesPattern names mapping)
        (valuePattern (fun _ => row [mapping.keyPattern]) mapping.keyPattern)) := by
  rw [← guardedPattern_eq, ← valuePattern_eq]
  simp only [anyValue, String.append_empty, String.toList_append, String.toList_ofList,
    List.append_assoc]
  rw [spells?_names hnames]
  rfl

end Spelling

section Names

variable {names : List String} {mapping : Mapping}

/-- Whether a text is one of some names, up to case, if keys are put into their slots. -/
def isInstance (names : List String) (mapping : Mapping) (text : List Char) : Bool :=
  names.any fun name => (instances mapping.keyTexts name.toList).any
    (Unicode.sameFoldText text)

def hasSeparator (name : String) : Bool :=
  name.toList.any separators.contains

/-- A text is an instance of some names if it is one of them with keys in their slots, up to case.
-/
theorem isInstance_eq_true_iff {part : List Char} : isInstance names mapping part = true ↔
    ∃ name ∈ names, ∃ text ∈ instances mapping.keyTexts name.toList,
      Unicode.sameFoldText part text = true := by
  simp only [isInstance, List.any_eq_true]

theorem mem_keptNames {text : List Char} :
    text ∈ keptNames names ↔ text ≠ [] ∧ String.ofList text ∈ names := by
  simp only [keptNames, List.mem_map, List.mem_filter, bne_iff_ne]
  constructor
  · rintro ⟨name, ⟨hname, hne⟩, rfl⟩
    refine ⟨fun hnil => hne (String.toList_eq_nil_iff.mp hnil), ?_⟩
    rwa [String.ofList_toList]
  · rintro ⟨hne, hname⟩
    refine ⟨_, ⟨hname, fun hnil => hne ?_⟩, String.toList_ofList⟩
    rw [← String.toList_ofList (l := text), hnil]
    rfl

/-- **The names are told up to case**, with keys in their slots. -/
theorem mem_language_namesPattern (hnames : keptNames names ≠ []) (hne : mapping ≠ [])
    {part : List Char} : part ∈ (namesPattern names mapping).language ↔
      ∃ name ∈ keptNames names, ∃ text ∈ instances mapping.keyTexts name,
        Unicode.sameFoldText part text = true := by
  have htexts : (Lookup.ofMapping mapping true).texts ≠ [] := by
    simpa [Lookup.texts, Lookup.ofMapping, ← List.length_eq_zero_iff] using hne
  rw [namesPattern, mem_language_slotted htexts (List.reverse_ne_nil_iff.mpr hnames)]
  simp only [List.mem_reverse, mem_instances_congr fun _ => Mapping.mem_texts, writtenAs,
    Flags.ignoreCase_initial, if_true]

/-- The guard of an expression: names, and values behind them. -/
def namesGuard (names : List String) (mapping : Mapping) (content : Quote → Pattern)
    (hlexical : ∀ q, (content q).lexical = true) (hproper : ∀ q, (content q).proper = true) :
    Guard where
  named := namesPattern names mapping
  value := valuePattern content mapping.keyPattern
  lexical := lexical_slotted (lexical_oneOf _ _) _ _
  proper_named := proper_slotted (proper_oneOf _ _) _ _
  proper_value := proper_valuePattern hproper mapping.proper_keyPattern
  numbered := by
    rw [groups_valuePattern hlexical mapping.lexical_keyPattern]
    simp

/-- A separator in an instance is in the name: keys have none, and it has no case. -/
theorem hasSeparator_of_mem (hkeys : mapping.Identifiers) {name : String} {text part : List Char}
    (htext : text ∈ instances mapping.keyTexts name.toList)
    (hsame : Unicode.sameFoldText part text = true) {y : Char} (hy : y ∈ part)
    (hseparator : y ∈ separators) : hasSeparator name = true := by
  have hblank : y = ' ' ∨ y ∈ delimiters := by
    rcases List.mem_cons.mp hseparator with rfl | hquote
    · exact .inl rfl
    · exact .inr (List.mem_append_left _ (List.mem_of_mem_take (i := 2) hquote))
  obtain ⟨z, hz, hfold⟩ := exists_sameFold hsame hy
  obtain rfl := Unicode.eq_of_sameFold hfold (.inl (isUncased_of_mem_delimiters hblank))
  rcases mem_or_of_mem_instances htext hz with hname | ⟨key, hmem, hkey⟩
  · exact List.any_eq_true.mpr ⟨y, hname, List.contains_iff_mem.mpr hseparator⟩
  · obtain ⟨hspace, hdelimiter⟩ := of_isIdentifierChar ((hkeys.of_mem_keyTexts hmem).2 _ hkey)
    rcases hblank with rfl | hmem
    · cases hspace
    · exact absurd hmem hdelimiter

/-- **Attributes are spared** if none of them has one of the names, and no name with a separator in
it has an instance that could be taken for a name. -/
theorem spares_namesGuard (hnames : keptNames names ≠ []) (hne : mapping ≠ [])
    (hkeys : mapping.Identifiers) {attributes : List Attribute}
    (hother : ∀ a ∈ attributes, isInstance names mapping a.name.chars = false)
    (hapart : ∀ part ∈ candidates attributes,
      isInstance (names.filter hasSeparator) mapping part = false)
    {content : Quote → Pattern} (hlexical : ∀ q, (content q).lexical = true)
    (hproper : ∀ q, (content q).proper = true) :
    (namesGuard names mapping content hlexical hproper).Spares attributes := by
  intro part hpart hnamed
  obtain ⟨chars, hchars, text, htext, hsame⟩ := (mem_language_namesPattern hnames hne).mp hnamed
  have hname := (mem_keptNames.mp hchars).2
  rw [← String.toList_ofList (l := chars)] at htext
  by_cases hseparator : hasSeparator (String.ofList chars) = true
  · have hinstance : isInstance (names.filter hasSeparator) mapping part = true :=
      isInstance_eq_true_iff.mpr ⟨_, List.mem_filter.mpr ⟨hname, hseparator⟩, text, htext, hsame⟩
    rw [hapart part hpart] at hinstance
    cases hinstance
  · have hclean : ∀ y ∈ part, y ∉ separators := by
      intro y hy hmem
      exact hseparator (hasSeparator_of_mem hkeys htext hsame hy hmem)
    obtain ⟨a, ha, rfl⟩ := exists_name_of_mem_candidates hpart hclean
    have hinstance : isInstance names mapping a.name.chars = true :=
      isInstance_eq_true_iff.mpr ⟨_, hname, text, htext, hsame⟩
    rw [hother a ha] at hinstance
    cases hinstance

theorem lexical_holding_key (mapping : Mapping) (q : Quote) :
    (holding (notQuote q) mapping.keyPattern).lexical = true :=
  mapping.lexical_holding (notQuote q)

theorem proper_holding_key (mapping : Mapping) (q : Quote) :
    (holding (notQuote q) mapping.keyPattern).proper = true :=
  mapping.proper_holding (notQuote q)

def holdingGuard (names : List String) (mapping : Mapping) : Guard :=
  namesGuard names mapping (fun q => holding (notQuote q) mapping.keyPattern)
    (lexical_holding_key mapping) (proper_holding_key mapping)

theorem lexical_key (mapping : Mapping) (_ : Quote) :
    (row [mapping.keyPattern]).lexical = true :=
  lexical_row (by simpa using mapping.lexical_keyPattern)

theorem proper_key (mapping : Mapping) (_ : Quote) : (row [mapping.keyPattern]).proper = true :=
  mapping.proper_row_keyPattern

def keyGuard (names : List String) (mapping : Mapping) : Guard :=
  namesGuard names mapping (fun _ => row [mapping.keyPattern])
    (lexical_key mapping) (proper_key mapping)

end Names

/-! ### The expressions for attribute values -/

theorem multiValueAttributes_serial (options : MultiValueOptions) :
    Ensures (multiValueAttributes options) fun found => ∀ e ∈ found, e.strategy.Serial := by
  have hone : ∀ outer region inner, Ensures (Fragment.narrowed outer region inner true)
      fun e => e.strategy.Serial := by
    intro outer region inner
    refine (Template.ofString_ensures outer).bind fun _ _ => ?_
    refine (Template.ofString_ensures inner).bind fun _ _ => ?_
    exact (Template.ofString_ensures region).bind fun _ _ => .pure trivial
  unfold multiValueAttributes
  split
  · exact (hone _ _ _).bind fun e he => .pure (by simpa using he)
  · exact .pure (by simp)

theorem singleValueAttributes_serial (options : SingleValueOptions) :
    Ensures (singleValueAttributes options) fun found => ∀ e ∈ found, e.strategy.Serial := by
  have hone : ∀ outer inner, Ensures (Fragment.nested outer inner true)
      fun e => e.strategy.Serial := by
    intro outer inner
    refine (Template.ofString_ensures outer).bind fun _ _ => ?_
    exact (Template.ofString_ensures inner).bind fun _ _ => .pure trivial
  unfold singleValueAttributes
  split
  · exact (hone _ _).bind fun e he => .pure (by simpa using he)
  · exact .pure (by simp)

section Expressions

variable {names : List String}

/-- There is one expression for values that are lists, unless all names are empty. -/
theorem exists_multiValue (hnames : keptNames names ≠ []) :
    ∃ e, multiValueAttributes ⟨names⟩ = .ok [e] ∧
      e.Spells (fun mapping => [choice (Markup.tags mapping).pattern [commentPattern],
        (holdingGuard names mapping).pattern])
        fun mapping => tokenPattern mapping.keyPattern := by
  unfold multiValueAttributes
  rw [names_eq_ite, if_neg hnames]
  refine Fragment.exists_narrowed hasSlot_valueTags ?_ rfl spells?_tags (spells?_multiValue hnames)
    fun _ => rfl
  simp only [anyValue, String.toList_append, String.toList_ofList]
  rw [List.append_assoc, List.append_assoc, List.append_assoc]
  exact hasSlot_append (hasSlot_append rfl)

/-- There is one expression for values that are keys, unless all names are empty. -/
theorem exists_singleValue (hnames : keptNames names ≠ []) :
    ∃ e, singleValueAttributes ⟨names, none, none⟩ = .ok [e] ∧
      e.Spells (fun mapping => [choice (Markup.tags mapping).pattern [commentPattern]])
        fun mapping => (keyGuard names mapping).pattern := by
  unfold singleValueAttributes
  rw [names_eq_ite, if_neg hnames]
  refine Fragment.exists_nested hasSlot_valueTags ?_ spells?_tags (spells?_singleValue hnames)
  simp only [Fragment.optional, anyValue, String.append_empty, String.toList_append,
    String.toList_ofList]
  rw [List.append_assoc, List.append_assoc, List.append_assoc]
  exact hasSlot_append (hasSlot_append rfl)

variable {mapping : Mapping} {name : Name} {attributes : List Attribute} {closing : Bool}
variable (hnames : keptNames names ≠ []) (hne : mapping ≠ []) (hkeys : mapping.Identifiers)
  (hwell : ∀ a ∈ attributes, a.WellFormed)
  (hother : ∀ a ∈ attributes, isInstance names mapping a.name.chars = false)
  (hapart : ∀ part ∈ candidates attributes,
    isInstance (names.filter hasSeparator) mapping part = false)
include hnames hne hkeys hwell hother hapart

/-- The expression for lists leaves a tag alone that has none of the names. -/
theorem multiValue_leavesAlone (name : Name) (closing : Bool) :
    ∃ e, multiValueAttributes ⟨names⟩ = .ok [e] ∧
      e.LeavesAlone mapping (String.ofList (Item.startTag name attributes closing).render) := by
  obtain ⟨e, he, hspells⟩ := exists_multiValue hnames
  have hserial := multiValueAttributes_serial _ _ he e List.mem_cons_self
  have hspares : (holdingGuard names mapping).Spares attributes :=
    spares_namesGuard hnames hne hkeys hother hapart _ _
  exact ⟨e, he, leavesAlone_in_values hne hkeys hwell hspells hserial hspares rfl⟩

/-- The expression for single values leaves a tag alone that has none of the names. -/
theorem singleValue_leavesAlone (name : Name) (closing : Bool) :
    ∃ e, singleValueAttributes ⟨names, none, none⟩ = .ok [e] ∧
      e.LeavesAlone mapping (String.ofList (Item.startTag name attributes closing).render) := by
  obtain ⟨e, he, hspells⟩ := exists_singleValue hnames
  have hserial := singleValueAttributes_serial _ _ he e List.mem_cons_self
  have hspares : (keyGuard names mapping).Spares attributes :=
    spares_namesGuard hnames hne hkeys hother hapart _ _
  exact ⟨e, he, leavesAlone_of_values hne hkeys hwell hspells hserial hspares rfl rfl⟩

end Expressions

theorem keptNames_eq_nil_iff {names : List String} :
    keptNames names = [] ↔ ∀ name ∈ names, name = "" := by
  simp [keptNames]

/-- **Attributes with other names are left alone.** Let no attribute of a start tag have one of the
names, up to case and with keys in the slots of the names, and let no name with a blank or a
quotation mark in it stand in the attributes. Then the expressions for values that are identifiers,
and for values that have identifiers among their tokens, report no key in the tag and leave it as it
is. There is one expression, or none if there are no names but empty ones. -/
theorem other_attributes_left_alone {names : List String} {mapping : Mapping} {name : Name}
    {attributes : List Attribute} {closing : Bool} (hne : mapping ≠ [])
    (hkeys : mapping.Identifiers) (hwell : ∀ a ∈ attributes, a.WellFormed)
    (hother : ∀ a ∈ attributes, isInstance names mapping a.name.chars = false)
    (hapart : ∀ part ∈ candidates attributes,
      isInstance (names.filter hasSeparator) mapping part = false) :
    let tag := String.ofList (Item.startTag name attributes closing).render
    (∃ found, multiValueAttributes ⟨names⟩ = .ok found ∧
      (found = [] ↔ ∀ name ∈ names, name = "") ∧ ∀ e ∈ found, e.LeavesAlone mapping tag) ∧
    ∃ found, singleValueAttributes ⟨names, none, none⟩ = .ok found ∧
      (found = [] ↔ ∀ name ∈ names, name = "") ∧ ∀ e ∈ found, e.LeavesAlone mapping tag := by
  intro tag
  by_cases hnames : keptNames names = []
  · have hempty : ([] : List Expression) = [] ↔ ∀ name ∈ names, name = "" :=
      ⟨fun _ => keptNames_eq_nil_iff.mp hnames, fun _ => rfl⟩
    have hnone : Fragment.names names = none := by
      rw [names_eq_ite, if_pos hnames]
    constructor
    · refine ⟨[], ?_, hempty, by simp⟩
      rw [multiValueAttributes, hnone]
      rfl
    · refine ⟨[], ?_, hempty, by simp⟩
      rw [singleValueAttributes, hnone]
      rfl
  · have hsome : ∀ e : Expression, [e] = [] ↔ ∀ name ∈ names, name = "" := by
      intro e
      rw [← keptNames_eq_nil_iff]
      simp [hnames]
    constructor
    · obtain ⟨e, he, hleaves⟩ :=
        multiValue_leavesAlone hnames hne hkeys hwell hother hapart name closing
      exact ⟨[e], he, hsome e, List.forall_mem_singleton.mpr hleaves⟩
    · obtain ⟨e, he, hleaves⟩ :=
        singleValue_leavesAlone hnames hne hkeys hwell hother hapart name closing
      exact ⟨[e], he, hsome e, List.forall_mem_singleton.mpr hleaves⟩

/-- Attributes without a value, with a key for a value, and with a value that looks like both. -/
def misleading : List Attribute :=
  [⟨.literal "a" rfl, none⟩,
    ⟨.literal "class" rfl, some ⟨.single, ['k']⟩⟩,
    ⟨.literal "title" rfl, some ⟨.double, "a k='k'".toList⟩⟩]

theorem other_attributes_left_alone_misleading :
    (∃ found, multiValueAttributes ⟨["%s-x", ".*", "a k", ""]⟩ = .ok found ∧ found ≠ [] ∧
      ∀ e ∈ found, e.LeavesAlone [("k", "x")] "<p a class='k' title=\"a k='k'\">") ∧
    ∃ found, singleValueAttributes ⟨["%s-x", ".*", "a k", ""], none, none⟩ = .ok found ∧
      found ≠ [] ∧ ∀ e ∈ found, e.LeavesAlone [("k", "x")] "<p a class='k' title=\"a k='k'\">" := by
  have htag : String.ofList (Item.startTag paragraph misleading false).render =
      "<p a class='k' title=\"a k='k'\">" := by
    decide
  have hother : (misleading.all fun a =>
      !isInstance ["%s-x", ".*", "a k", ""] [("k", "x")] a.name.chars) = true := by
    decide +kernel
  have hapart : ((candidates misleading).all fun part =>
      !isInstance (["%s-x", ".*", "a k", ""].filter hasSeparator) [("k", "x")] part) = true := by
    decide +kernel
  obtain ⟨⟨multi, hmulti, hmultiNil, hmultiLeaves⟩, single, hsingle, hsingleNil, hsingleLeaves⟩ :=
    @other_attributes_left_alone ["%s-x", ".*", "a k", ""] [("k", "x")] paragraph misleading false
      (by simp) (by decide) (by decide)
      (fun a ha => by simpa using List.all_eq_true.mp hother a ha)
      fun part hpart => by simpa using List.all_eq_true.mp hapart part hpart
  rw [htag] at hmultiLeaves hsingleLeaves
  refine ⟨⟨multi, hmulti, ?_, hmultiLeaves⟩, single, hsingle, ?_, hsingleLeaves⟩
  · rw [Ne, hmultiNil]
    decide
  · rw [Ne, hsingleNil]
    decide

/-! ### Names that are not literal -/

section NotLiteral

variable {name : String}

theorem captureSpans_tags_k :
    (Markup.tags [("k", "x")]).matcher.captureSpans "<p a k=\"k\">".toList = [⟨2, 10⟩] := by
  rw [(Markup.tags [("k", "x")]).advances.captureSpans_eq_trace (StartTags.proper_choice _) rfl,
    StartTags.matcher, StartTags.pattern]
  dsimp only [Markup.tags, Markup.valueTags]
  rw [Mapping.keyPattern_singleton]
  decide +kernel

theorem captureSpans_keyGuard_k (h : name = "%s" ∨ name = "a k") :
    (keyGuard [name] [("k", "x")]).matcher.captureSpans " a k=\"k\"".toList = [⟨6, 7⟩] := by
  rw [(keyGuard [name] [("k", "x")]).advances.captureSpans_eq_trace
    (keyGuard [name] [("k", "x")]).passesValues.proper rfl, Guard.matcher, Guard.pattern]
  dsimp only [keyGuard, namesGuard]
  rw [namesPattern, Mapping.keyPattern_singleton, Lookup.texts_singleton]
  rcases h with rfl | rfl
  · decide +kernel
  · decide +kernel

theorem captured_keyGuard_k (h : name = "%s" ∨ name = "a k") :
    (Matcher.regions [(Markup.tags [("k", "x")]).matcher] "<p a k=\"k\">".toList).flatMap
      (keyGuard [name] [("k", "x")]).matcher.captured = [['k']] := by
  have hregions : Matcher.regions [(Markup.tags [("k", "x")]).matcher] "<p a k=\"k\">".toList =
      [" a k=\"k\"".toList] := by
    rw [Matcher.regions, Matcher.captured_eq, captureSpans_tags_k]
    decide
  rw [hregions, List.flatMap_singleton, Matcher.captured_eq, captureSpans_keyGuard_k h]
  decide

theorem changed?_keyGuard_k (h : name = "%s" ∨ name = "a k") :
    (Matcher.replaceInRegions (keyGuard [name] [("k", "x")]).matcher
      (Lookup.ofMapping [("k", "x")] true) [(Markup.tags [("k", "x")]).matcher]
      "<p a k=\"k\">".toList).2.changed? = some "<p a k=\"x\">".toList := by
  have hregion : (⟨2, 10⟩ : Span).slice? "<p a k=\"k\">".toList = some " a k=\"k\"".toList := by
    decide
  have hinner : (Matcher.replaceInRegions (keyGuard [name] [("k", "x")]).matcher
      (Lookup.ofMapping [("k", "x")] true) [] " a k=\"k\"".toList).2.changed? =
      some " a k=\"x\"".toList := by
    rw [Matcher.replaceInRegions, Matcher.replaceCaptures_eq_rewrite, Matcher.rewrite,
      captureSpans_keyGuard_k h]
    rfl
  rw [Matcher.replaceInRegions_eq_rewrite, Matcher.rewrite, captureSpans_tags_k,
    List.filterMap_cons, hregion, Option.bind_some, hinner]
  rfl

/-- A value is replaced behind what is not the name of its attribute. -/
theorem singleValue_renames_k (h : name = "%s" ∨ name = "a k") :
    ∃ e, singleValueAttributes ⟨[name], none, none⟩ = .ok [e] ∧
      (e.findAll "<p a k=\"k\">" "k").outcome = .ok ["k"] ∧
      (e.replaceAll "<p a k=\"k\">" [("k", "x")]).outcome = .ok (some "<p a k=\"x\">") := by
  have hnames : keptNames [name] ≠ [] := by
    rcases h with rfl | rfl <;> decide
  have hpattern : String.ofList (Lookup.ofMapping [("k", "x")] true).pattern = "k" := by
    rw [Lookup.pattern_singleton]
    decide
  obtain ⟨e, he, hspells⟩ := exists_singleValue hnames
  have hserial := singleValueAttributes_serial _ _ he e List.mem_cons_self
  obtain ⟨hfound, hreplaced⟩ := hspells.run_of_serial hserial
    (List.cons_ne_nil ("k", "x") []) "<p a k=\"k\">"
  rw [hpattern] at hfound
  refine ⟨e, he, hfound.trans ?_, hreplaced.trans ?_⟩
  · exact congrArg (fun texts => Except.ok (List.map String.ofList texts)) (captured_keyGuard_k h)
  · exact congrArg (fun text => Except.ok (Option.map String.ofList text)) (changed?_keyGuard_k h)

end NotLiteral

/-- An attribute without a value in front of one that is named like its value. -/
def sideBySide : List Attribute :=
  [⟨.literal "a" rfl, none⟩,
    ⟨.literal "k" rfl, some ⟨.double, ['k']⟩⟩]

/-- A name with a slot in it, or one that reaches over two attributes, is not taken literally: no
attribute has it, and yet a value is found and replaced. -/
theorem name_not_literal :
    String.ofList (Item.startTag paragraph sideBySide false).render = "<p a k=\"k\">" ∧
    (sideBySide.any fun a => ["%s", "a k"].any fun name =>
      Unicode.sameFoldText a.name.chars name.toList) = false ∧
    (∃ e, singleValueAttributes ⟨["%s"], none, none⟩ = .ok [e] ∧
      (e.findAll "<p a k=\"k\">" "k").outcome = .ok ["k"] ∧
      (e.replaceAll "<p a k=\"k\">" [("k", "x")]).outcome = .ok (some "<p a k=\"x\">")) ∧
    ∃ e, singleValueAttributes ⟨["a k"], none, none⟩ = .ok [e] ∧
      (e.findAll "<p a k=\"k\">" "k").outcome = .ok ["k"] ∧
      (e.replaceAll "<p a k=\"k\">" [("k", "x")]).outcome = .ok (some "<p a k=\"x\">") :=
  ⟨by decide, by decide +kernel, singleValue_renames_k (.inl rfl), singleValue_renames_k (.inr rfl)⟩

end Relabel.Html
