import Mathlib.Data.List.Infix
import Relabel.Proofs.EmbedSize
import Relabel.Proofs.Filling

/-!
# Resolving expressions never fails

Whatever fragments and attribute names it is given, every template that a language builds has a slot
of its own, so a plugin has expressions for any options. They are filed under tags that the plugin
handles, and unless they look for attribute names they mind case.
-/

namespace Relabel

/-! ### Slots -/

/-- A slot is a percent sign with an `s` behind it. -/
theorem hasSlot_iff_isInfix {text : List Char} : hasSlot text = true ↔ ['%', 's'] <:+: text := by
  fun_induction hasSlot text with
  | case1 rest => exact iff_of_true rfl ⟨[], rest, rfl⟩
  | case2 c rest hstart ih =>
    rw [ih, List.infix_cons_iff]
    refine (or_iff_right ?_).symm
    rintro ⟨tail, htail⟩
    obtain ⟨rfl, rfl⟩ := List.cons.inj htail
    exact hstart tail rfl rfl
  | case3 => simp

/-- `Slotted source`: the text of a template has a slot. -/
def Slotted (source : String) : Prop :=
  hasSlot source.toList = true

namespace Slotted

variable {s t : String}

theorem append_right (h : Slotted t) : Slotted (s ++ t) := by
  rw [Slotted, String.toList_append]
  exact hasSlot_append h

theorem append_left (h : Slotted s) : Slotted (s ++ t) := by
  rw [Slotted, hasSlot_iff_isInfix] at h ⊢
  rw [String.toList_append]
  exact h.trans (List.prefix_append _ _).isInfix

theorem ofString (h : Slotted s) : Template.ofString s = .ok ⟨s, h⟩ :=
  Template.ofString_of_hasSlot h

end Slotted

/-! ### The expressions of a language -/

/-- `Resolves caseSensitive attempt`: there are expressions, and all of them treat case alike. -/
def Resolves (caseSensitive : Bool) (attempt : Except Error (List Expression)) : Prop :=
  ∃ es, attempt = .ok es ∧ ∀ e ∈ es, e.caseSensitive = caseSensitive

namespace Resolves

variable {caseSensitive : Bool} {source outer region inner : String}
  {next : Expression → Except Error (List Expression)}

theorem nil : Resolves caseSensitive (.ok []) :=
  ⟨[], rfl, List.forall_mem_nil _⟩

theorem pure {es : List Expression} (h : ∀ e ∈ es, e.caseSensitive = caseSensitive) :
    Resolves caseSensitive (Pure.pure es) :=
  ⟨es, rfl, h⟩

/-- An expression of one template can be built if that has a slot. -/
theorem direct (h : Slotted source)
    (hnext : ∀ e : Expression, e.caseSensitive = caseSensitive → Resolves caseSensitive (next e)) :
    Resolves caseSensitive (Fragment.direct source caseSensitive >>= next) := by
  rw [Fragment.direct, h.ofString]
  exact hnext _ rfl

/-- An expression of two templates can be built if both have slots. -/
theorem nested (houter : Slotted outer) (hinner : Slotted inner)
    (hnext : ∀ e : Expression, e.caseSensitive = caseSensitive → Resolves caseSensitive (next e)) :
    Resolves caseSensitive (Fragment.nested outer inner caseSensitive >>= next) := by
  rw [Fragment.nested, houter.ofString, hinner.ofString]
  exact hnext _ rfl

theorem narrowed (houter : Slotted outer) (hregion : Slotted region) (hinner : Slotted inner)
    (hnext : ∀ e : Expression, e.caseSensitive = caseSensitive → Resolves caseSensitive (next e)) :
    Resolves caseSensitive (Fragment.narrowed outer region inner caseSensitive >>= next) := by
  rw [Fragment.narrowed, houter.ofString, hregion.ofString, hinner.ofString]
  exact hnext _ rfl

end Resolves

namespace Fragment

theorem slotted_token : Slotted token :=
  rfl

theorem slotted_attributeSelector : Slotted attributeSelector :=
  rfl

theorem slotted_quotedRegion : Slotted quotedRegion :=
  .append_left (.append_left rfl)

theorem slotted_quotedArgument (front back : String) : Slotted (quotedArgument front back) :=
  .append_left (.append_left (.append_right rfl))

theorem slotted_selector (front back : String) : Slotted (selector front back) :=
  .append_left (.append_left (.append_right rfl))

theorem slotted_declarationValue (front back : String) : Slotted (declarationValue front back) :=
  .append_left (.append_left (.append_right rfl))

theorem slotted_jsStringLiterals : Slotted jsStringLiterals :=
  .append_left (.append_left (.append_right (.append_left (.append_left rfl))))

end Fragment

open Fragment

namespace Css

theorem attributes_resolves : Resolves false attributes :=
  .direct (.append_right slotted_attributeSelector) fun selector hselector =>
    .direct (.append_right rfl) fun call hcall => .pure (by simp [hselector, hcall])

theorem querySelectors_resolves (affixes : Affixes) : Resolves true (querySelectors affixes) :=
  .direct (.append_left (.append_left (.append_right rfl))) fun e he => .pure (by simp [he])

theorem singleValueAttributes_resolves (options : SingleValueOptions) :
    Resolves true (singleValueAttributes options) := by
  unfold singleValueAttributes
  split
  · exact .direct (.append_left (.append_left (.append_right rfl))) fun e he => .pure (by simp [he])
  · exact .nil

theorem multiValueAttributes_resolves (options : MultiValueOptions) :
    Resolves true (multiValueAttributes options) := by
  unfold multiValueAttributes
  split
  · exact .nested (.append_right rfl) slotted_token fun e he => .pure (by simp [he])
  · exact .nil

theorem declarationProperties_resolves (affixes : Affixes) :
    Resolves true (declarationProperties affixes) :=
  .direct (.append_left (.append_left (.append_right rfl))) fun e he => .pure (by simp [he])

theorem declarationValues_resolves (affixes : Affixes) :
    Resolves true (declarationValues affixes) :=
  .nested (.append_right rfl) (slotted_declarationValue _ _) fun e he => .pure (by simp [he])

end Css

namespace Html

theorem slotted_valueTag : Slotted (htmlComment ++ "|" ++ valueTag) :=
  .append_right (.append_left (.append_left (.append_right rfl)))

theorem attributes_resolves : Resolves false attributes :=
  .nested (.append_right (.append_left (.append_left (.append_right rfl)))) (.append_right rfl)
    fun e he => .pure (by simp [he])

theorem singleValueAttributes_resolves (options : SingleValueOptions) :
    Resolves true (singleValueAttributes options) := by
  unfold singleValueAttributes
  split
  · exact .nested slotted_valueTag
      (.append_left (.append_left (.append_left (.append_right rfl))))
      fun e he => .pure (by simp [he])
  · exact .nil

theorem multiValueAttributes_resolves (options : MultiValueOptions) :
    Resolves true (multiValueAttributes options) := by
  unfold multiValueAttributes
  split
  · exact .narrowed slotted_valueTag (.append_left (.append_right rfl)) slotted_token
      fun e he => .pure (by simp [he])
  · exact .nil

end Html

namespace Js

theorem attributes_resolves : Resolves false attributes :=
  .direct (.append_right (slotted_quotedArgument _ _)) fun call hcall =>
    .nested slotted_jsStringLiterals slotted_attributeSelector fun selector hselector =>
      .pure (by simp [hcall, hselector])

theorem querySelectors_resolves (affixes : Affixes) : Resolves true (querySelectors affixes) :=
  .nested slotted_jsStringLiterals (slotted_selector _ _) fun e he => .pure (by simp [he])

theorem singleValueAttributes_resolves (options : SingleValueOptions) :
    Resolves true (singleValueAttributes options) := by
  unfold singleValueAttributes
  split
  · refine .direct (.append_right (slotted_quotedArgument _ _)) fun call hcall => ?_
    split
    · exact .direct (.append_right (slotted_quotedArgument _ _)) fun lookup hlookup =>
        .pure (by simp [hcall, hlookup])
    · exact .pure (by simp [hcall])
  · exact .nil

theorem multiValueAttributes_resolves (options : MultiValueOptions) :
    Resolves true (multiValueAttributes options) := by
  unfold multiValueAttributes
  split
  · refine .nested (.append_right slotted_quotedRegion) slotted_token fun call hcall => ?_
    split
    · exact .nested (.append_right rfl) (slotted_quotedArgument _ _) fun list hlist =>
        .nested (.append_right slotted_quotedRegion) slotted_token fun assigned hassigned =>
          .pure (by simp [hcall, hlist, hassigned])
    · exact .pure (by simp [hcall])
  · exact .nil

theorem declarationProperties_resolves (affixes : Affixes) :
    Resolves true (declarationProperties affixes) :=
  .direct (.append_right (slotted_quotedArgument _ _)) fun e he => .pure (by simp [he])

theorem declarationValues_resolves (affixes : Affixes) :
    Resolves true (declarationValues affixes) :=
  .nested (.append_right slotted_quotedRegion) (slotted_declarationValue _ _)
    fun e he => .pure (by simp [he])

end Js

/-- Every grammar has expressions for all options, and only attribute names are looked for without
regard to case. -/
theorem Grammar.expressions_resolves (grammar : Grammar) (options : Options) :
    Resolves (decide (options ≠ .attributes)) (grammar.expressions options) := by
  cases grammar with
  | css =>
    cases options with
    | attributes => exact Css.attributes_resolves
    | querySelectors affixes => exact Css.querySelectors_resolves affixes
    | singleValueAttributes options => exact Css.singleValueAttributes_resolves options
    | multiValueAttributes options => exact Css.multiValueAttributes_resolves options
    | cssDeclarationProperties affixes => exact Css.declarationProperties_resolves affixes
    | cssDeclarationValues affixes => exact Css.declarationValues_resolves affixes
  | html =>
    cases options with
    | attributes => exact Html.attributes_resolves
    | querySelectors affixes => exact .nil
    | singleValueAttributes options => exact Html.singleValueAttributes_resolves options
    | multiValueAttributes options => exact Html.multiValueAttributes_resolves options
    | cssDeclarationProperties affixes => exact .nil
    | cssDeclarationValues affixes => exact .nil
  | js =>
    cases options with
    | attributes => exact Js.attributes_resolves
    | querySelectors affixes => exact Js.querySelectors_resolves affixes
    | singleValueAttributes options => exact Js.singleValueAttributes_resolves options
    | multiValueAttributes options => exact Js.multiValueAttributes_resolves options
    | cssDeclarationProperties affixes => exact Js.declarationProperties_resolves affixes
    | cssDeclarationValues affixes => exact Js.declarationValues_resolves affixes
  | none => exact .nil

/-- `e.Implements options`: some language has the expression for the options. -/
def Expression.Implements (e : Expression) (options : Options) : Prop :=
  ∃ (grammar : Grammar) (es : List Expression), grammar.expressions options = .ok es ∧ e ∈ es

/-- All intents but that for names of attributes mind case. -/
theorem Expression.Implements.caseSensitive {e : Expression} {options : Options}
    (h : e.Implements options) (hoptions : options ≠ .attributes) : e.caseSensitive = true := by
  obtain ⟨grammar, es, hes, he⟩ := h
  obtain ⟨es', hes', hcase⟩ := grammar.expressions_resolves options
  obtain rfl := Except.ok.inj (hes.symm.trans hes')
  rw [hcase e he, decide_eq_true hoptions]

/-! ### The expressions of a plugin -/

theorem mem_dedup {tag : String} {tags : List String} : tag ∈ dedup tags ↔ tag ∈ tags := by
  have hfold : ∀ seen : List String, tag ∈ tags.foldl (fun seen tag =>
      if seen.contains tag then seen else seen ++ [tag]) seen ↔ tag ∈ seen ∨ tag ∈ tags := by
    induction tags with
    | nil => simp
    | cons other tags ih =>
      intro seen
      rw [List.foldl_cons, ih, List.mem_cons]
      split
      · rename_i hseen
        have hmem : tag = other → tag ∈ seen := fun h => h ▸ List.contains_iff_mem.mp hseen
        tauto
      · rw [List.mem_append, List.mem_singleton, or_assoc]
  rw [dedup, hfold, or_iff_right List.not_mem_nil]

namespace ExpressionSet

/-- `set.Covers languages options`: the tags are among some languages, and what is filed under them
implements the options. -/
def Covers (set : ExpressionSet) (languages : List String) (options : Options) : Prop :=
  ∀ entry ∈ set, entry.1 ∈ languages ∧ ∀ e ∈ entry.2, e.Implements options

variable {set other : ExpressionSet} {languages : List String} {options : Options}

theorem Covers.mono {languages' : List String} (h : set.Covers languages options)
    (hsub : languages ⊆ languages') : set.Covers languages' options :=
  fun entry hentry => ⟨hsub (h entry hentry).1, (h entry hentry).2⟩

/-- Expressions for the options can be added under one of the languages. -/
theorem Covers.add {language : String} {es : List Expression} (h : set.Covers languages options)
    (hlanguage : language ∈ languages) (hes : ∀ e ∈ es, e.Implements options) :
    (set.add language es).Covers languages options := by
  induction set with
  | nil =>
    rw [ExpressionSet.add]
    exact List.forall_mem_singleton.mpr ⟨hlanguage, hes⟩
  | cons entry set ih =>
    obtain ⟨hentry, hset⟩ := List.forall_mem_cons.mp h
    rw [ExpressionSet.add]
    split
    · exact List.forall_mem_cons.mpr
        ⟨⟨hentry.1, List.forall_mem_append.mpr ⟨hentry.2, hes⟩⟩, hset⟩
    · exact List.forall_mem_cons.mpr ⟨hentry, ih hset⟩

/-- Two sets for the same options can be merged. -/
theorem Covers.merge (h : set.Covers languages options) (hother : other.Covers languages options) :
    (set.merge other).Covers languages options := by
  unfold ExpressionSet.merge
  induction other generalizing set with
  | nil => exact h
  | cons entry other ih =>
    obtain ⟨hentry, hrest⟩ := List.forall_mem_cons.mp hother
    exact ih (h.add hentry.1 hentry.2) hrest

/-- Nothing is filed under a language that is not handled. -/
theorem Covers.lookup_eq_none {kind : String} (h : set.Covers languages options)
    (hkind : kind ∉ languages) : set.lookup kind = none := by
  rw [List.lookup_eq_none_iff]
  rintro entry hentry
  rw [bne_iff_ne]
  rintro rfl
  exact hkind (h entry hentry).1

theorem Covers.implements_of_mem_lookup {kind : String} (h : set.Covers languages options) :
    ∀ e ∈ (set.lookup kind).getD [], e.Implements options := by
  intro e he
  cases hlookup : set.lookup kind with
  | none => simp [hlookup] at he
  | some es =>
    rw [hlookup, Option.getD_some] at he
    obtain ⟨front, back, hset, -⟩ := List.lookup_eq_some_iff.mp hlookup
    exact (h (kind, es) (by simp [hset])).2 e he

end ExpressionSet

/-- The expressions of a family can be built, for any options. -/
theorem Family.expressions_yields (f : Family) (options : Options) :
    (f.expressions Family.build options).Yields fun set => set.Covers f.languages options := by
  obtain ⟨es, hes, -⟩ := f.grammar.expressions_resolves options
  refine ⟨(dedup f.languages).map fun language => (language, es), ?_, ?_⟩
  · simp only [Family.expressions, Family.build, hes]
    rfl
  · intro entry hentry
    obtain ⟨language, hlanguage, rfl⟩ := List.mem_map.mp hentry
    exact ⟨mem_dedup.mp hlanguage, fun e he => ⟨f.grammar, es, hes, he⟩⟩

namespace Plugin

mutual

/-- The expressions of a plugin can be built, for any options. -/
theorem expressionsFrom_yields (options : Options) : (p : Plugin) →
    (expressionsFrom Family.build options p).Yields fun set => set.Covers p.languages options
  | .family f => f.expressions_yields options
  | .bundle children => by
    have hnil : ExpressionSet.Covers [] [] options := List.forall_mem_nil _
    obtain ⟨set, hset, hcovers⟩ := expressionsOfAll_yields options hnil children
    refine ⟨set, hset, hcovers.mono fun tag htag => ?_⟩
    rw [languages]
    exact mem_dedup.mpr (by simpa using htag)

theorem expressionsOfAll_yields (options : Options) {set : ExpressionSet} {front : List String}
    (hset : set.Covers front options) : (children : List Plugin) →
    (expressionsOfAll Family.build options set children).Yields
      fun set => set.Covers (front ++ languagesOfAll children) options
  | [] => ⟨set, rfl, by simpa [languagesOfAll] using hset⟩
  | p :: rest => by
    refine (expressionsFrom_yields options p).bind fun found hfound => ?_
    have hmerged := (hset.mono (List.subset_append_left front p.languages)).merge
      (hfound.mono (List.subset_append_right front p.languages))
    obtain ⟨all, hall, hcovers⟩ := expressionsOfAll_yields options hmerged rest
    exact ⟨all, hall, by simpa [languagesOfAll] using hcovers⟩

end

/-- A plugin has expressions for all options, under tags that it handles. -/
theorem expressions_yields (options : Options) (p : Plugin) :
    (p.expressions options).Yields fun set => set.Covers p.languages options :=
  expressionsFrom_yields options p

mutual

/-- A plugin finds no embedded code in a language that it does not handle. -/
theorem embeds_eq_nil {document : Document} : (p : Plugin) → document.kind ∉ p.languages →
    (embeds document p).Yields fun found => found = []
  | .family f, h => by
    have hkind : f.languages.contains document.kind = false := by simpa [languages] using h
    refine ⟨[], ?_, rfl⟩
    simp only [embeds, Family.embeds, hkind]
    rfl
  | .bundle children, h => embedsOfAll_eq_nil children (by simpa [languages, mem_dedup] using h)

/-- Plugins find nothing in a document of a language that they do not handle. -/
theorem embedsOfAll_eq_nil {document : Document} : (children : List Plugin) →
    document.kind ∉ languagesOfAll children →
    (embedsOfAll document children).Yields fun found => found = []
  | [], _ => ⟨[], rfl, rfl⟩
  | p :: rest, h => by
    obtain ⟨hp, hrest⟩ : document.kind ∉ p.languages ∧ document.kind ∉ languagesOfAll rest := by
      simpa [languagesOfAll] using h
    refine (embeds_eq_nil p hp).bind fun found hfound => ?_
    refine (embedsOfAll_eq_nil rest hrest).bind fun others hothers => ?_
    exact ⟨found ++ others, rfl, by rw [hfound, hothers, List.nil_append]⟩

end

end Plugin

end Relabel
