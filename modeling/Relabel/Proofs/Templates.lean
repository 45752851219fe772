import Relabel.Language.Plugin
import Relabel.Proofs.Outline

/-!
# The templates of the languages

Every template that a language builds, whatever fragments and attribute names it is given, has an
outline that passes the check: its captures lie in front of what follows them and, where identifiers
are reported, hold a slot and nothing else.
-/

namespace Relabel

/-! ### Slots in names -/

theorem hasSlot_cons {c : Char} {rest : List Char} (h : c ≠ '%' ∨ rest.head? ≠ some 's') :
    hasSlot (c :: rest) = hasSlot rest := by
  rw [hasSlot]
  rintro tail rfl rfl
  simp at h

theorem head?_escape_ne {text : List Char} (h : text.head? ≠ some 's') :
    (escape text).head? ≠ some 's' := by
  cases text with
  | nil => simp [escape]
  | cons c text =>
    by_cases hspecial : isSpecial c = true
    · simp [escape, hspecial]
    · simpa [escape, hspecial] using h

/-- Escaping puts no slot into a text. -/
theorem hasSlot_escape {text : List Char} (h : hasSlot text = false) :
    hasSlot (escape text) = false := by
  fun_induction hasSlot text with
  | case1 => cases h
  | case2 c text hstart ih =>
    by_cases hspecial : isSpecial c = true
    · have hc : c ≠ '%' := by
        rintro rfl
        exact absurd hspecial (by decide)
      have hescape : escape (c :: text) = '\\' :: c :: escape text := by simp [escape, hspecial]
      rw [hescape, hasSlot_cons (.inl (by decide)), hasSlot_cons (.inl hc), ih h]
    · have hescape : escape (c :: text) = c :: escape text := by simp [escape, hspecial]
      have hnext : c ≠ '%' ∨ (escape text).head? ≠ some 's' := by
        by_cases hc : c = '%'
        · refine .inr (head?_escape_ne fun hhead => ?_)
          obtain ⟨tail, rfl⟩ := List.head?_eq_some_iff.mp hhead
          exact hstart tail hc rfl
        · exact .inl hc
      rw [hescape, hasSlot_cons hnext, ih h]
  | case3 => rfl

/-- No slot goes over a bar. -/
theorem hasSlot_append_bar {front : List Char} (h : hasSlot front = false) (back : List Char) :
    hasSlot (front ++ '|' :: back) = hasSlot back := by
  fun_induction hasSlot front with
  | case1 => cases h
  | case2 c front hstart ih =>
    rw [List.cons_append, hasSlot_cons, ih h]
    by_cases hc : c = '%'
    · refine .inr fun hhead => ?_
      cases front with
      | nil => simp at hhead
      | cons d front =>
        obtain rfl : d = 's' := by simpa using hhead
        exact hstart front hc rfl
    · exact .inl hc
  | case3 => exact hasSlot_cons (.inl (by decide))

theorem hasSlot_joinBars {texts : List (List Char)} (h : ∀ text ∈ texts, hasSlot text = false) :
    hasSlot (joinBars texts) = false := by
  induction texts with
  | nil => rfl
  | cons text texts ih =>
    obtain ⟨htext, htexts⟩ := List.forall_mem_cons.mp h
    cases texts with
    | nil => simpa [joinBars] using htext
    | cons next texts =>
      have hjoin : joinBars (text :: next :: texts) = text ++ '|' :: joinBars (next :: texts) := by
        simp [joinBars, List.intercalate]
      rw [hjoin, hasSlot_append_bar htext, ih htexts]

/-! ### Outlines of texts -/

/-- `Shaped pieces text`: the pieces are an outline of the text. -/
def Shaped (pieces : List Piece) (text : String) : Prop :=
  Shape pieces text.toList

namespace Shaped

theorem literal (chars : List Char) : Shaped (outlineFrom 0 chars) (String.ofList chars) := by
  rw [Shaped, String.toList_ofList]
  exact shape_outlineFrom 0 chars

/-- Outlines of two texts make up one of the whole. -/
theorem append {pieces pieces' : List Piece} {s t : String} (h : Shaped pieces s)
    (h' : Shaped pieces' t) : Shaped (pieces ++ pieces') (s ++ t) := by
  rw [Shaped, String.toList_append]
  exact Shape.append h h'

/-- The names of attributes, which are compared up to case. -/
theorem names {names : List String} {text : String} (h : Fragment.names names = some text)
    (hnames : ∀ name ∈ names, hasSlot name.toList = false) : Shaped [.fragment true] text := by
  unfold Fragment.names at h
  simp only at h
  split at h
  · cases h
  · obtain rfl := (Option.some.inj h).symm
    rw [Shaped, String.toList_ofList, ← List.append_nil (_ ++ [')'])]
    refine .fragment (hasSlot_joinBars fun text htext => ?_) ?_ .nil
    · obtain ⟨name, hname, rfl⟩ := List.mem_map.mp htext
      exact hasSlot_escape (hnames name (List.mem_of_mem_filter hname))
    · have hinserts := Pattern.inserts_oneOf (.initial true)
        ((names.filter fun name => name != "").map String.toList)
        fun text _ => Pattern.Flags.counts_of_eq_false rfl text
      rw [List.map_map] at hinserts
      exact hinserts.mono fun _ hitem => hitem ▸ Pattern.unnamed_oneOf _ _

end Shaped

namespace Fragment

/-- Whether a fragment is a pattern, on its own and as a group, without a slot and without named
groups. On its own only, a comment that no line break ends may be the last of it. -/
def plain (fragment : String) : Bool :=
  !hasSlot fragment.toList &&
    ((Pattern.parse? false fragment.toList).any fun q =>
      q.groups.all fun group => group.2.isNone) &&
    (Pattern.parse? false ("(?:".toList ++ fragment.toList ++ [')'])).isSome

end Fragment

theorem Pattern.unnamed_of_groups {q : Pattern}
    (h : (q.groups.all fun group => group.2.isNone) = true) : q.Unnamed := by
  intro kind
  refine lacks_iff.mpr fun group hgroup => ?_
  have hnone := List.all_eq_true.mp h group hgroup
  rw [Option.isNone_iff_eq_none] at hnone
  simp [named, hnone]

/-- `Affix pieces text`: a fragment in front of or behind an identifier, perhaps none, and its
outline. -/
structure Affix (pieces : List Piece) (text : String) : Prop where
  shaped : Shaped pieces text
  absent_or_fragment : pieces = [] ∧ text = "" ∨ pieces = [.fragment false] ∧ text ≠ ""

namespace Affix

variable {pieces : List Piece} {text : String}

theorem pieces_cases (h : Affix pieces text) : pieces = [] ∨ pieces = [.fragment false] :=
  h.absent_or_fragment.imp And.left And.left

/-- What must stand in front of an identifier unless a fragment does. -/
theorem boundary (h : Affix pieces text) :
    Shaped (if pieces = [] then outlineFrom 0 "(?:^|[^\\w-])".toList else [])
      (Fragment.boundary text) := by
  rcases h.absent_or_fragment with ⟨rfl, rfl⟩ | ⟨rfl, hne⟩
  · exact shape_outlineFrom 0 _
  · rw [Fragment.boundary, if_neg hne]
    exact Shape.nil

/-- A fragment that is plain or absent has an outline. -/
theorem ofOption {value : Option String} (h : value.all Fragment.plain = true) :
    ∃ pieces, Affix pieces (Fragment.optional value) := by
  cases value with
  | none => exact ⟨[], .nil, .inl ⟨rfl, rfl⟩⟩
  | some fragment =>
    by_cases hempty : fragment = ""
    · rw [Fragment.optional, if_pos hempty]
      exact ⟨[], .nil, .inl ⟨rfl, rfl⟩⟩
    · rw [Fragment.optional, if_neg hempty]
      simp only [Option.all_some, Fragment.plain, Bool.and_eq_true, Bool.not_eq_true'] at h
      obtain ⟨⟨hslot, hany⟩, hgroup⟩ := h
      obtain ⟨q, hq, hgroups⟩ := (Option.any_eq_true _ _).mp hany
      refine ⟨[.fragment false], ?_, .inr ⟨rfl, by simp [← String.toList_inj]⟩⟩
      rw [Shaped, String.toList_append, String.toList_append, ← List.append_nil (_ ++ _)]
      exact .fragment hslot
        (Pattern.inserts_of_parse? hq (Pattern.unnamed_of_groups hgroups) hgroup) .nil

end Affix

abbrev Outline (text : String) : Type :=
  { pieces : List Piece // Shaped pieces text }

namespace Outline

def cssSkipped : Outline Fragment.cssSkipped :=
  ⟨_, Shaped.literal _ |>.append (.literal _) |>.append (.literal _)⟩

def jsSkipped : Outline Fragment.jsSkipped :=
  ⟨_, Shaped.literal _ |>.append (.literal _) |>.append (.append (.literal _) (.literal _))⟩

def jsStringLiterals : Outline Fragment.jsStringLiterals :=
  ⟨_, Shaped.literal _ |>.append (.literal _)
    |>.append (Shaped.literal _ |>.append (.literal _) |>.append (.literal _))
    |>.append (.literal _) |>.append (.append (.literal _) (.literal _))⟩

def quotedRegion : Outline Fragment.quotedRegion :=
  ⟨_, Shaped.literal _ |>.append (.literal _) |>.append (.literal _)⟩

def quotedArgument : { pieces : List Piece → List Piece → List Piece // ∀ {f b front back},
    Shaped f front → Shaped b back → Shaped (pieces f b) (Fragment.quotedArgument front back) } :=
  ⟨fun _ _ => _, fun hf hb => Shaped.literal _
    |>.append hf |>.append (.literal _) |>.append hb |>.append (.literal _)
    |>.append hf |>.append (.literal _) |>.append hb |>.append (.literal _)
    |>.append hf |>.append (.literal _) |>.append hb |>.append (.literal _)⟩

def quotedName : { pieces : List Piece → List Piece // ∀ {n names},
    Shaped n names → Shaped (pieces n) (Js.quotedName names) } :=
  ⟨fun _ => _, fun hn => Shaped.literal _ |>.append hn |>.append (.literal _) |>.append hn
    |>.append (.literal _) |>.append hn |>.append (.literal _)⟩

end Outline

/-! ### Regular expressions of a language -/

namespace Fragment

/-- A template that captures regions: its captures lie in front of what follows them. -/
def Narrows (caseSensitive : Bool) (source : String) : Prop :=
  ∃ pieces, Shaped pieces source ∧
    Piece.accepted (fun _ => false) (!caseSensitive) group.toList pieces = true

/-- A template that captures identifiers: its captures lie in front of what follows them, and hold a
slot and nothing else. -/
def Reports (caseSensitive : Bool) (source : String) : Prop :=
  ∃ pieces, Shaped pieces source ∧
    Piece.accepted (isBranchOf group.toList) (!caseSensitive) group.toList pieces = true

end Fragment

/-- An expression all of whose templates pass the check. -/
inductive Expression.Regular : Expression → Prop where
  | direct {template : Template} {caseSensitive : Bool}
    (reports : Fragment.Reports caseSensitive template.source) :
    Regular ⟨.direct template, Fragment.group, caseSensitive⟩
  | nested {outer inner : Template} {within : List Template} {caseSensitive : Bool}
    (narrows : ∀ template ∈ outer :: within, Fragment.Narrows caseSensitive template.source)
    (reports : Fragment.Reports caseSensitive inner.source) :
    Regular ⟨.nested outer within inner, Fragment.group, caseSensitive⟩

/-- Whatever an attempt yields satisfies a condition. -/
def Ensures {α : Type} (attempt : Except Error α) (P : α → Prop) : Prop :=
  ∀ a, attempt = .ok a → P a

namespace Ensures

variable {α β : Type}

theorem pure {P : α → Prop} {a : α} (h : P a) : Ensures (Pure.pure a) P := by
  rintro _ ⟨⟩
  exact h

/-- What attempts ensure one after the other. -/
theorem bind {attempt : Except Error α} {next : α → Except Error β} {P : α → Prop} {Q : β → Prop}
    (h : Ensures attempt P) (hnext : ∀ a, P a → Ensures (next a) Q) :
    Ensures (attempt >>= next) Q := by
  intro b hb
  cases hattempt : attempt with
  | error e =>
    rw [hattempt] at hb
    cases hb
  | ok a =>
    rw [hattempt] at hb
    exact hnext a (h a hattempt) b hb

end Ensures

theorem Template.ofString_ensures (source : String) :
    Ensures (ofString source) fun template => template.source = source := by
  intro template h
  unfold ofString at h
  split at h
  · cases h
    rfl
  · cases h

namespace Fragment

variable {outer region inner source : String} {caseSensitive : Bool}

/-- An expression of one template is regular if that reports identifiers. -/
theorem direct_ensures (h : Reports caseSensitive source) :
    Ensures (direct source caseSensitive) Expression.Regular := by
  refine (Template.ofString_ensures source).bind ?_
  rintro template rfl
  exact .pure (.direct h)

/-- An expression of two templates is regular if the outer one narrows and the inner one reports. -/
theorem nested_ensures (houter : Narrows caseSensitive outer)
    (hinner : Reports caseSensitive inner) :
    Ensures (nested outer inner caseSensitive) Expression.Regular := by
  refine (Template.ofString_ensures outer).bind ?_
  rintro outer' rfl
  refine (Template.ofString_ensures inner).bind ?_
  rintro inner' rfl
  exact .pure (.nested (by simpa using houter) hinner)

/-- The same for three templates. -/
theorem narrowed_ensures (houter : Narrows caseSensitive outer)
    (hregion : Narrows caseSensitive region) (hinner : Reports caseSensitive inner) :
    Ensures (narrowed outer region inner caseSensitive) Expression.Regular := by
  refine (Template.ofString_ensures outer).bind ?_
  rintro outer' rfl
  refine (Template.ofString_ensures inner).bind ?_
  rintro inner' rfl
  refine (Template.ofString_ensures region).bind ?_
  rintro region' rfl
  exact .pure (.nested (by simpa using ⟨houter, hregion⟩) hinner)

end Fragment

/-! ### Options -/

def Affixes.Plain (affixes : Affixes) : Prop :=
  affixes.front.all Fragment.plain = true ∧ affixes.back.all Fragment.plain = true

def SingleValueOptions.Plain (options : SingleValueOptions) : Prop :=
  (∀ name ∈ options.attributeNames, hasSlot name.toList = false) ∧
    options.front.all Fragment.plain = true ∧ options.back.all Fragment.plain = true

def MultiValueOptions.Plain (options : MultiValueOptions) : Prop :=
  ∀ name ∈ options.attributeNames, hasSlot name.toList = false

/-- Options that bring no slots and no named groups into a template. -/
def Options.Plain : Options → Prop
  | .attributes => True
  | .querySelectors affixes => affixes.Plain
  | .singleValueAttributes options => options.Plain
  | .multiValueAttributes options => options.Plain
  | .cssDeclarationProperties affixes => affixes.Plain
  | .cssDeclarationValues affixes => affixes.Plain

def AllRegular (expressions : List Expression) : Prop :=
  ∀ e ∈ expressions, e.Regular

-- The longest outlines have some four hundred pieces, which `decide` reads one inside the other.
set_option maxRecDepth 10000

namespace Fragment

theorem reports_token : Reports true token :=
  ⟨_, .literal _, by decide⟩

theorem reports_attributeSelector : Reports false attributeSelector :=
  ⟨_, .literal _, by decide⟩

section

variable {f b : List Piece} {front back : String}

theorem reports_declarationValue (hf : Affix f front) (hb : Affix b back) :
    Reports true (declarationValue front back) := by
  refine ⟨_, Outline.cssSkipped.2 |>.append (.literal _) |>.append hf.shaped |>.append (.literal _)
    |>.append hb.shaped |>.append (.literal _), ?_⟩
  rcases hf.pieces_cases with rfl | rfl <;> rcases hb.pieces_cases with rfl | rfl <;>
    decide

/-- The template for selectors reports identifiers, whatever plain fragments stand around them. -/
theorem reports_selector (hf : Affix f front) (hb : Affix b back) :
    Reports true (selector front back) := by
  refine ⟨_, hf.boundary |>.append hf.shaped |>.append (.literal _) |>.append hb.shaped
    |>.append (.literal _), ?_⟩
  rcases hf.pieces_cases with rfl | rfl <;> rcases hb.pieces_cases with rfl | rfl <;>
    decide

end

end Fragment

namespace Css

theorem attributes_ensures : Ensures attributes AllRegular := by
  refine (Fragment.direct_ensures ⟨_, Outline.cssSkipped.2 |>.append (.literal _)
    |>.append (.literal _), by decide⟩).bind fun selector hselector => ?_
  refine (Fragment.direct_ensures ⟨_, Outline.cssSkipped.2 |>.append (.literal _),
    by decide⟩).bind fun call hcall => ?_
  exact .pure (by simp [AllRegular, hselector, hcall])

theorem querySelectors_ensures {affixes : Affixes} (h : affixes.Plain) :
    Ensures (querySelectors affixes) AllRegular := by
  obtain ⟨f, hf⟩ := Affix.ofOption h.1
  obtain ⟨b, hb⟩ := Affix.ofOption h.2
  refine (Fragment.direct_ensures ⟨_, Outline.cssSkipped.2 |>.append (.literal _)
    |>.append hf.boundary |>.append hf.shaped |>.append (.literal _) |>.append hb.shaped
    |>.append (Shaped.literal _ |>.append (.literal _) |>.append (.literal _)
      |>.append Outline.cssSkipped.2 |>.append (.literal _)), ?_⟩).bind
    fun selector hselector => .pure (by simp [AllRegular, hselector])
  rcases hf.pieces_cases with rfl | rfl <;> rcases hb.pieces_cases with rfl | rfl <;>
    decide

theorem singleValueAttributes_ensures {options : SingleValueOptions} (h : options.Plain) :
    Ensures (singleValueAttributes options) AllRegular := by
  unfold singleValueAttributes
  split
  · rename_i names hnames
    have hn := Shaped.names hnames h.1
    obtain ⟨f, hf⟩ := Affix.ofOption h.2.1
    obtain ⟨b, hb⟩ := Affix.ofOption h.2.2
    refine (Fragment.direct_ensures ⟨_, Outline.cssSkipped.2 |>.append (.literal _) |>.append hn
      |>.append (.literal _) |>.append hf.shaped |>.append (.literal _) |>.append hb.shaped
      |>.append (.literal _) |>.append hf.shaped |>.append (.literal _) |>.append hb.shaped
      |>.append (.literal _) |>.append hf.shaped |>.append (.literal _) |>.append hb.shaped
      |>.append (.literal _), ?_⟩).bind fun value hvalue => .pure (by simp [AllRegular, hvalue])
    rcases hf.pieces_cases with rfl | rfl <;> rcases hb.pieces_cases with rfl | rfl <;>
      decide
  · exact .pure (by simp [AllRegular])

theorem multiValueAttributes_ensures {options : MultiValueOptions} (h : options.Plain) :
    Ensures (multiValueAttributes options) AllRegular := by
  unfold multiValueAttributes
  split
  · rename_i names hnames
    have hn := Shaped.names hnames h
    exact (Fragment.nested_ensures ⟨_, Outline.cssSkipped.2 |>.append (.literal _) |>.append hn
      |>.append (.literal _) |>.append (.literal _), by decide⟩
      Fragment.reports_token).bind fun values hvalues => .pure (by simp [AllRegular, hvalues])
  · exact .pure (by simp [AllRegular])

theorem declarationProperties_ensures {affixes : Affixes} (h : affixes.Plain) :
    Ensures (declarationProperties affixes) AllRegular := by
  obtain ⟨f, hf⟩ := Affix.ofOption h.1
  obtain ⟨b, hb⟩ := Affix.ofOption h.2
  refine (Fragment.direct_ensures ⟨_, Outline.cssSkipped.2 |>.append (.literal _)
    |>.append hf.shaped |>.append (.literal _) |>.append hb.shaped |>.append (.literal _), ?_⟩).bind
    fun name hname => .pure (by simp [AllRegular, hname])
  rcases hf.pieces_cases with rfl | rfl <;> rcases hb.pieces_cases with rfl | rfl <;>
    decide

theorem declarationValues_ensures {affixes : Affixes} (h : affixes.Plain) :
    Ensures (declarationValues affixes) AllRegular := by
  obtain ⟨f, hf⟩ := Affix.ofOption h.1
  obtain ⟨b, hb⟩ := Affix.ofOption h.2
  exact (Fragment.nested_ensures ⟨_, Outline.cssSkipped.2 |>.append (.literal _),
    by decide⟩ (Fragment.reports_declarationValue hf hb)).bind fun value hvalue =>
      .pure (by simp [AllRegular, hvalue])

end Css

namespace Html

theorem attributes_ensures : Ensures attributes AllRegular := by
  exact (Fragment.nested_ensures ⟨_, Shaped.literal _ |>.append (.literal _)
    |>.append (Shaped.literal _ |>.append (.literal _) |>.append (.literal _)
      |>.append (.literal _) |>.append (.literal _) |>.append (.literal _)), by decide⟩
    ⟨_, Shaped.literal _ |>.append (.literal _), by decide⟩).bind fun name hname =>
      .pure (by simp [AllRegular, hname])

theorem narrows_valueTag : Fragment.Narrows true (Fragment.htmlComment ++ "|" ++ valueTag) :=
  ⟨_, Shaped.literal _ |>.append (.literal _)
    |>.append (Shaped.literal _ |>.append (.literal _) |>.append (.literal _)
      |>.append (.literal _) |>.append (.literal _) |>.append (.literal _)), by decide⟩

theorem singleValueAttributes_ensures {options : SingleValueOptions} (h : options.Plain) :
    Ensures (singleValueAttributes options) AllRegular := by
  unfold singleValueAttributes
  split
  · rename_i names hnames
    have hn := Shaped.names hnames h.1
    obtain ⟨f, hf⟩ := Affix.ofOption h.2.1
    obtain ⟨b, hb⟩ := Affix.ofOption h.2.2
    refine (Fragment.nested_ensures narrows_valueTag ⟨_, Shaped.literal _ |>.append hn
      |>.append (.literal _) |>.append hf.shaped |>.append (.literal _) |>.append hb.shaped
      |>.append (.literal _) |>.append hf.shaped |>.append (.literal _) |>.append hb.shaped
      |>.append (.literal _) |>.append hf.shaped |>.append (.literal _) |>.append hb.shaped
      |>.append (.literal _) |>.append (.literal _), ?_⟩).bind fun value hvalue =>
        .pure (by simp [AllRegular, hvalue])
    rcases hf.pieces_cases with rfl | rfl <;> rcases hb.pieces_cases with rfl | rfl <;>
      decide
  · exact .pure (by simp [AllRegular])

theorem multiValueAttributes_ensures {options : MultiValueOptions} (h : options.Plain) :
    Ensures (multiValueAttributes options) AllRegular := by
  unfold multiValueAttributes
  split
  · rename_i names hnames
    have hn := Shaped.names hnames h
    exact (Fragment.narrowed_ensures narrows_valueTag ⟨_, Shaped.literal _ |>.append hn
      |>.append (.literal _) |>.append (.literal _) |>.append (.literal _), by decide⟩
      Fragment.reports_token).bind fun values hvalues => .pure (by simp [AllRegular, hvalues])
  · exact .pure (by simp [AllRegular])

end Html

namespace Js

theorem narrows_jsStringLiterals (caseSensitive : Bool) :
    Fragment.Narrows caseSensitive Fragment.jsStringLiterals := by
  refine ⟨_, Outline.jsStringLiterals.2, ?_⟩
  cases caseSensitive <;> decide

theorem attributes_ensures : Ensures attributes AllRegular := by
  refine (Fragment.direct_ensures ⟨_, Outline.jsSkipped.2 |>.append (.literal _)
    |>.append (Outline.quotedArgument.2 (.literal _) (.literal _)), by decide⟩).bind
    fun call hcall => ?_
  refine (Fragment.nested_ensures (narrows_jsStringLiterals false)
    Fragment.reports_attributeSelector).bind fun selector hselector => ?_
  exact .pure (by simp [AllRegular, hcall, hselector])

theorem querySelectors_ensures {affixes : Affixes} (h : affixes.Plain) :
    Ensures (querySelectors affixes) AllRegular := by
  obtain ⟨f, hf⟩ := Affix.ofOption h.1
  obtain ⟨b, hb⟩ := Affix.ofOption h.2
  exact (Fragment.nested_ensures (narrows_jsStringLiterals true)
    (Fragment.reports_selector hf hb)).bind fun identifier hidentifier =>
      .pure (by simp [AllRegular, hidentifier])

theorem singleValueAttributes_ensures {options : SingleValueOptions} (h : options.Plain) :
    Ensures (singleValueAttributes options) AllRegular := by
  unfold singleValueAttributes
  split
  · rename_i names hnames
    have hn := Shaped.names hnames h.1
    obtain ⟨f, hf⟩ := Affix.ofOption h.2.1
    obtain ⟨b, hb⟩ := Affix.ofOption h.2.2
    have hvalue := Outline.quotedArgument.2 hf.shaped hb.shaped
    refine (Fragment.direct_ensures ⟨_, Outline.jsSkipped.2 |>.append (.literal _)
      |>.append (Outline.quotedName.2 hn) |>.append (.literal _) |>.append hvalue, ?_⟩).bind
      fun call hcall => ?_
    · rcases hf.pieces_cases with rfl | rfl <;> rcases hb.pieces_cases with rfl | rfl <;>
        decide
    split
    · refine (Fragment.direct_ensures ⟨_, Outline.jsSkipped.2 |>.append (.literal _)
        |>.append hvalue, ?_⟩).bind fun lookup hlookup =>
          .pure (by simp [AllRegular, hcall, hlookup])
      rcases hf.pieces_cases with rfl | rfl <;> rcases hb.pieces_cases with rfl | rfl <;>
        decide
    · exact .pure (by simp [AllRegular, hcall])
  · exact .pure (by simp [AllRegular])

theorem multiValueAttributes_ensures {options : MultiValueOptions} (h : options.Plain) :
    Ensures (multiValueAttributes options) AllRegular := by
  unfold multiValueAttributes
  split
  · rename_i names hnames
    have hn := Shaped.names hnames h
    refine (Fragment.nested_ensures ⟨_, Outline.jsSkipped.2 |>.append (.literal _)
      |>.append (Outline.quotedName.2 hn) |>.append (.literal _)
      |>.append Outline.quotedRegion.2, by decide⟩ Fragment.reports_token).bind
      fun call hcall => ?_
    split
    · refine (Fragment.nested_ensures ⟨_, Outline.jsSkipped.2 |>.append (.literal _)
        |>.append (.literal _), by decide⟩ ⟨_, Outline.quotedArgument.2 (.literal _)
          (.literal _), by decide⟩).bind fun list hlist => ?_
      refine (Fragment.nested_ensures ⟨_, Outline.jsSkipped.2 |>.append (.literal _)
        |>.append Outline.quotedRegion.2, by decide⟩ Fragment.reports_token).bind
        fun assigned hassigned => ?_
      exact .pure (by simp [AllRegular, hcall, hlist, hassigned])
    · exact .pure (by simp [AllRegular, hcall])
  · exact .pure (by simp [AllRegular])

theorem declarationProperties_ensures {affixes : Affixes} (h : affixes.Plain) :
    Ensures (declarationProperties affixes) AllRegular := by
  obtain ⟨f, hf⟩ := Affix.ofOption h.1
  obtain ⟨b, hb⟩ := Affix.ofOption h.2
  refine (Fragment.direct_ensures ⟨_, Outline.jsSkipped.2 |>.append (.literal _)
    |>.append (.literal _) |>.append (Outline.quotedArgument.2 hf.shaped hb.shaped), ?_⟩).bind
    fun call hcall => .pure (by simp [AllRegular, hcall])
  rcases hf.pieces_cases with rfl | rfl <;> rcases hb.pieces_cases with rfl | rfl <;>
    decide

theorem declarationValues_ensures {affixes : Affixes} (h : affixes.Plain) :
    Ensures (declarationValues affixes) AllRegular := by
  obtain ⟨f, hf⟩ := Affix.ofOption h.1
  obtain ⟨b, hb⟩ := Affix.ofOption h.2
  exact (Fragment.nested_ensures ⟨_, Outline.jsSkipped.2 |>.append (.literal _)
    |>.append Outline.quotedRegion.2, by decide⟩
    (Fragment.reports_declarationValue hf hb)).bind fun value hvalue =>
      .pure (by simp [AllRegular, hvalue])

end Js

/-- **Every expression of a language is regular**, for every intent. -/
theorem Grammar.expressions_ensures (grammar : Grammar) {options : Options} (h : options.Plain) :
    Ensures (grammar.expressions options) AllRegular := by
  have hnone : Ensures (.ok []) AllRegular := .pure (by simp [AllRegular])
  cases grammar with
  | css =>
    cases options with
    | attributes => exact Css.attributes_ensures
    | querySelectors affixes => exact Css.querySelectors_ensures h
    | singleValueAttributes options => exact Css.singleValueAttributes_ensures h
    | multiValueAttributes options => exact Css.multiValueAttributes_ensures h
    | cssDeclarationProperties affixes => exact Css.declarationProperties_ensures h
    | cssDeclarationValues affixes => exact Css.declarationValues_ensures h
  | html =>
    cases options with
    | attributes => exact Html.attributes_ensures
    | singleValueAttributes options => exact Html.singleValueAttributes_ensures h
    | multiValueAttributes options => exact Html.multiValueAttributes_ensures h
    | querySelectors _ | cssDeclarationProperties _ | cssDeclarationValues _ => exact hnone
  | js =>
    cases options with
    | attributes => exact Js.attributes_ensures
    | querySelectors affixes => exact Js.querySelectors_ensures h
    | singleValueAttributes options => exact Js.singleValueAttributes_ensures h
    | multiValueAttributes options => exact Js.multiValueAttributes_ensures h
    | cssDeclarationProperties affixes => exact Js.declarationProperties_ensures h
    | cssDeclarationValues affixes => exact Js.declarationValues_ensures h
  | none => exact hnone

end Relabel
