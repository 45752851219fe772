import Relabel.Proofs.InvalidPatterns
import Relabel.Proofs.Resolving

/-!
# Expressions that never fail

The templates of the languages are patterns whatever the keys are, and whatever attributes are named
in the options: names are escaped, and a slot that stands in a name is one more group. So an
expression can fail only because of a fragment that was configured, and then it fails for all keys
alike (`replaceAll_failure_ignores_keys`).
-/

namespace Relabel

open Pattern

/-! ### Slots in names -/

/-- Texts can be filled one after the other if no slot lies across their border. -/
theorem fillSlots_append_of_apart {front back : List Char}
    (h : front.getLast? = some '%' → back.head? ≠ some 's') (filling : List Char) :
    fillSlots filling (front ++ back) = fillSlots filling front ++ fillSlots filling back := by
  fun_induction fillSlots filling front with
  | case1 rest ih =>
    have hrest : rest.getLast? = some '%' → back.head? ≠ some 's' := by
      intro hlast
      apply h
      simp [List.getLast?_cons, hlast]
    rw [List.cons_append, List.cons_append, fillSlots, ih hrest, List.append_assoc]
  | case2 c rest hslot ih =>
    have hrest : rest.getLast? = some '%' → back.head? ≠ some 's' := by
      intro hlast
      apply h
      simp [List.getLast?_cons, hlast]
    rw [List.cons_append, fillSlots, ih hrest, List.cons_append]
    intro tail hc htail
    cases rest with
    | nil =>
      subst hc
      have hback : back = 's' :: tail := htail
      exact h rfl (by rw [hback]; rfl)
    | cons d rest =>
      obtain ⟨rfl, -⟩ := List.cons.inj htail
      exact hslot rest hc rfl
  | case3 => rfl

theorem fillSlots_escape_singleton (filling : List Char) (c : Char) :
    fillSlots filling (escape [c]) = escape [c] := by
  have hsingleton : fillSlots filling [c] = [c] := by
    rw [fillSlots]
    · rfl
    · intro tail _ htail
      cases htail
  by_cases hspecial : isSpecial c = true
  · have hescape : escape [c] = ['\\', c] := by simp [escape, hspecial]
    rw [hescape, fillSlots_cons (by decide), hsingleton]
  · have hescape : escape [c] = [c] := by simp [escape, hspecial]
    rw [hescape, hsingleton]

theorem getLast?_escape_singleton (c : Char) : (escape [c]).getLast? = some c := by
  by_cases hspecial : isSpecial c = true <;> simp [escape, hspecial]

namespace Inert

variable {filling : List Char}

/-- A name stays in its group, also if it has slots. -/
theorem fillSlots_escape (hfilling : Inert filling) (name : List Char) :
    Inert (fillSlots filling (Relabel.escape name)) := by
  fun_induction fillSlots filling name with
  | case1 rest ih =>
    have hescape : Relabel.escape ('%' :: 's' :: rest) = '%' :: 's' :: Relabel.escape rest := by
      simp [Relabel.escape, isSpecial]
    rw [hescape, fillSlots]
    exact hfilling.append ih
  | case2 c rest hslot ih =>
    have hescape : Relabel.escape (c :: rest) = Relabel.escape [c] ++ Relabel.escape rest := by
      simp [Relabel.escape]
    have hapart : (Relabel.escape [c]).getLast? = some '%' →
        (Relabel.escape rest).head? ≠ some 's' := by
      intro hlast
      rw [getLast?_escape_singleton, Option.some.injEq] at hlast
      apply head?_escape_ne
      intro hhead
      obtain ⟨tail, rfl⟩ := List.head?_eq_some_iff.mp hhead
      exact hslot tail hlast rfl
    rw [hescape, fillSlots_append_of_apart hapart, fillSlots_escape_singleton]
    exact (escape_singleton c).append ih
  | case3 => exact nil

/-- Names that are escaped stay inert when their slots are filled. -/
theorem fillSlots_joinBars (hfilling : Inert filling) (names : List (List Char)) :
    Inert (fillSlots filling (Relabel.joinBars (names.map Relabel.escape))) := by
  induction names with
  | nil => exact nil
  | cons name names ih =>
    cases names with
    | nil => simpa [Relabel.joinBars] using hfilling.fillSlots_escape name
    | cons next names =>
      have hjoin : Relabel.joinBars ((name :: next :: names).map Relabel.escape) =
          Relabel.escape name ++ '|' :: Relabel.joinBars ((next :: names).map Relabel.escape) := by
        simp [Relabel.joinBars, List.intercalate]
      rw [hjoin, fillSlots_append_of_apart (by simp), fillSlots_cons (by decide)]
      exact (hfilling.fillSlots_escape name).append (bar.append ih)

end Inert

/-! ### Texts with the same validity -/

theorem getLast?_append_ne {front back : List Char} {c : Char} (hfront : front.getLast? ≠ some c)
    (hback : back.getLast? ≠ some c) : (front ++ back).getLast? ≠ some c := by
  rw [List.getLast?_append]
  cases hlast : back.getLast? with
  | none => exact hfront
  | some d =>
    rw [hlast] at hback
    exact hback

/-- What fits one template and what fits another fit the two together, if no slot lies across their
border. -/
theorem Fits.append {p q s t : List Char} (hp : p.getLast? ≠ some '%') (h : Fits p s)
    (h' : Fits q t) : Fits (p ++ q) (s ++ t) := by
  induction h with
  | nil => exact h'
  | @slot filling source text inert rest ih =>
    have hsource : source.getLast? ≠ some '%' := by
      intro hlast
      apply hp
      simp [List.getLast?_cons, hlast]
    rw [List.cons_append, List.cons_append, List.append_assoc]
    exact .slot inert (ih hsource)
  | @char c source text apart rest ih =>
    have hsource : source.getLast? ≠ some '%' := by
      intro hlast
      apply hp
      simp [List.getLast?_cons, hlast]
    rw [List.cons_append, List.cons_append]
    refine .char ?_ (ih hsource)
    rintro later rfl hlater
    cases source with
    | nil => exact hp rfl
    | cons d source =>
      obtain ⟨rfl, -⟩ := List.cons.inj hlater
      exact apart source rfl rfl

/-- `Exchangeable source model`: whatever is put into the slots of the source, it fits the model.
Neither ends in a character that could begin a slot. -/
structure Exchangeable (source : String) (model : List Char) : Prop where
  fits : ∀ filling, Inert filling → Fits model (fillSlots (grouped filling) source.toList)
  source_ends : source.toList.getLast? ≠ some '%'
  model_ends : model.getLast? ≠ some '%'

namespace Exchangeable

theorem literal (chars : List Char) (h : (chars.getLast? != some '%') = true) :
    Exchangeable (String.ofList chars) chars where
  fits filling hfilling := by
    rw [String.toList_ofList]
    exact .fillSlots hfilling chars
  source_ends := by
    rw [String.toList_ofList]
    exact bne_iff_ne.mp h
  model_ends := bne_iff_ne.mp h

/-- Exchangeable texts can be put one behind the other. -/
theorem append {s t : String} {p q : List Char} (h : Exchangeable s p) (h' : Exchangeable t q) :
    Exchangeable (s ++ t) (p ++ q) where
  fits filling hfilling := by
    have hsource : s.toList.getLast? = some '%' → t.toList.head? ≠ some 's' :=
      fun hlast => absurd hlast h.source_ends
    rw [String.toList_append, fillSlots_append_of_apart hsource]
    exact .append h.model_ends (h.fits filling hfilling) (h'.fits filling hfilling)
  source_ends := by
    rw [String.toList_append]
    exact getLast?_append_ne h.source_ends h'.source_ends
  model_ends := getLast?_append_ne h.model_ends h'.model_ends

/-- The names of attributes fit a slot. -/
theorem names {names : List String} {text : String} (h : Fragment.names names = some text) :
    Exchangeable text ['%', 's'] := by
  unfold Fragment.names at h
  simp only at h
  split at h
  · cases h
  · obtain rfl := (Option.some.inj h).symm
    refine ⟨?_, ?_, by decide⟩
    · intro filling hfilling
      have hnames := hfilling.grouped.fillSlots_joinBars
        ((names.filter fun name => name != "").map String.toList)
      rw [List.map_map] at hnames
      rw [String.toList_ofList, List.append_assoc, fillSlots_append (by decide),
        fillSlots_append_of_apart (by simp), ← List.append_assoc,
        ← List.append_nil ((_ ++ _) ++ _)]
      exact .slot hnames .nil
    · rw [String.toList_ofList, List.getLast?_concat]
      decide

end Exchangeable

/-! ### Templates of a language -/

/-- An expression that is valid for all keys. -/
def Expression.Unfailing (e : Expression) : Prop :=
  ∀ filling, Inert filling → e.Valid filling

def AllUnfailing (expressions : List Expression) : Prop :=
  ∀ e ∈ expressions, e.Unfailing

namespace Fragment

/-- A template that is a pattern for all keys: no slot stands in a comment, and it is one for the
empty key. -/
def Readable (caseSensitive : Bool) (source : String) : Prop :=
  ∃ model, Exchangeable source model ∧
    ((Reader.start (!caseSensitive)).slotsUncommented model &&
      (parse? (!caseSensitive) (fillSlots (grouped []) model)).isSome) = true

variable {caseSensitive : Bool} {source outer region inner : String}

/-- A readable template is a pattern for all keys. -/
theorem Readable.compiles {t : Template} (h : Readable caseSensitive t.source)
    {filling : List Char} (hfilling : Inert filling) : t.Compiles filling caseSensitive := by
  obtain ⟨model, hmodel, hmodel'⟩ := h
  obtain ⟨hslots, hparse⟩ := Bool.and_eq_true_iff.mp hmodel'
  have hsome := (hmodel.fits filling hfilling).isSome_parse? hslots
  exact Template.compiles_iff.mpr (hsome.trans hparse)

/-- An expression of one readable template never fails. -/
theorem direct_unfailing (h : Readable caseSensitive source) :
    Ensures (direct source caseSensitive) Expression.Unfailing := by
  refine (Template.ofString_ensures source).bind ?_
  rintro template rfl
  refine .pure fun filling hfilling => ?_
  exact Expression.valid_iff.mpr ⟨List.forall_mem_nil _, h.compiles hfilling⟩

/-- An expression of two readable templates never fails. -/
theorem nested_unfailing (houter : Readable caseSensitive outer)
    (hinner : Readable caseSensitive inner) :
    Ensures (nested outer inner caseSensitive) Expression.Unfailing := by
  refine (Template.ofString_ensures outer).bind ?_
  rintro outer' rfl
  refine (Template.ofString_ensures inner).bind ?_
  rintro inner' rfl
  refine .pure fun filling hfilling => ?_
  exact Expression.valid_iff.mpr
    ⟨List.forall_mem_singleton.mpr (houter.compiles hfilling), hinner.compiles hfilling⟩

/-- The same for three templates. -/
theorem narrowed_unfailing (houter : Readable caseSensitive outer)
    (hregion : Readable caseSensitive region) (hinner : Readable caseSensitive inner) :
    Ensures (narrowed outer region inner caseSensitive) Expression.Unfailing := by
  refine (Template.ofString_ensures outer).bind ?_
  rintro outer' rfl
  refine (Template.ofString_ensures inner).bind ?_
  rintro inner' rfl
  refine (Template.ofString_ensures region).bind ?_
  rintro region' rfl
  refine .pure fun filling hfilling => ?_
  exact Expression.valid_iff.mpr ⟨List.forall_mem_cons.mpr ⟨houter.compiles hfilling,
    List.forall_mem_singleton.mpr (hregion.compiles hfilling)⟩, hinner.compiles hfilling⟩

end Fragment

/-- A text that can stand for a fixed text. -/
abbrev Model (text : String) : Type :=
  { model : List Char // Exchangeable text model }

namespace Model

def cssSkipped : Model Fragment.cssSkipped :=
  ⟨_, Exchangeable.literal _ rfl |>.append (.literal _ rfl) |>.append (.literal _ rfl)⟩

def jsString : Model Fragment.jsString :=
  ⟨_, Exchangeable.literal _ rfl |>.append (.literal _ rfl)⟩

def jsSkipped : Model Fragment.jsSkipped :=
  ⟨_, Exchangeable.literal _ rfl |>.append (.literal _ rfl) |>.append jsString.2⟩

def jsStringLiterals : Model Fragment.jsStringLiterals :=
  ⟨_, Exchangeable.literal _ rfl |>.append (.literal _ rfl)
    |>.append (Exchangeable.literal _ rfl |>.append (.literal _ rfl) |>.append (.literal _ rfl))
    |>.append (.literal _ rfl) |>.append jsString.2⟩

def quotedRegion : Model Fragment.quotedRegion :=
  ⟨_, Exchangeable.literal _ rfl |>.append (.literal _ rfl) |>.append (.literal _ rfl)⟩

def quotedArgument : Model (Fragment.quotedArgument "" "") :=
  ⟨_, Exchangeable.literal _ rfl
    |>.append (.literal _ rfl) |>.append (.literal _ rfl) |>.append (.literal _ rfl)
    |>.append (.literal _ rfl) |>.append (.literal _ rfl) |>.append (.literal _ rfl)
    |>.append (.literal _ rfl) |>.append (.literal _ rfl) |>.append (.literal _ rfl)
    |>.append (.literal _ rfl) |>.append (.literal _ rfl) |>.append (.literal _ rfl)⟩

def quotedName : { model : List Char → List Char // ∀ {m names},
    Exchangeable names m → Exchangeable (Js.quotedName names) (model m) } :=
  ⟨fun _ => _, fun hn => Exchangeable.literal _ rfl |>.append hn |>.append (.literal _ rfl)
    |>.append hn |>.append (.literal _ rfl) |>.append hn |>.append (.literal _ rfl)⟩

def valueTag : Model (Fragment.htmlComment ++ "|" ++ Html.valueTag) :=
  ⟨_, Exchangeable.literal _ rfl |>.append (.literal _ rfl)
    |>.append (Exchangeable.literal _ rfl |>.append (.literal _ rfl) |>.append (.literal _ rfl)
      |>.append (.literal _ rfl) |>.append (.literal _ rfl) |>.append (.literal _ rfl))⟩

end Model

-- The longest texts have some four hundred characters, which `decide` reads one inside the other.
set_option maxRecDepth 10000

namespace Fragment

theorem readable_token : Readable true token :=
  ⟨_, .literal _ rfl, by decide⟩

theorem readable_attributeSelector : Readable false attributeSelector :=
  ⟨_, .literal _ rfl, by decide⟩

theorem readable_declarationValue : Readable true (declarationValue "" "") :=
  ⟨_, Model.cssSkipped.2 |>.append (.literal _ rfl) |>.append (.literal _ rfl)
    |>.append (.literal _ rfl) |>.append (.literal _ rfl) |>.append (.literal _ rfl), by decide⟩

theorem readable_selector : Readable true (selector "" "") :=
  ⟨_, Exchangeable.literal _ rfl |>.append (.literal _ rfl)
    |>.append (.literal _ rfl) |>.append (.literal _ rfl) |>.append (.literal _ rfl), by decide⟩

theorem readable_jsStringLiterals (caseSensitive : Bool) :
    Readable caseSensitive jsStringLiterals := by
  refine ⟨_, Model.jsStringLiterals.2, ?_⟩
  cases caseSensitive <;> decide

theorem readable_valueTag : Readable true (htmlComment ++ "|" ++ Html.valueTag) :=
  ⟨_, Model.valueTag.2, by decide⟩

end Fragment

/-! ### Options without fragments -/

/-- `Unaffixed front back`: neither of two fragments is configured. -/
def Unaffixed (front back : Option String) : Prop :=
  front.getD "" = "" ∧ back.getD "" = ""

/-- Options without a fragment in front of or behind identifiers. -/
def Options.Unaffixed : Options → Prop
  | .attributes => True
  | .querySelectors affixes => Relabel.Unaffixed affixes.front affixes.back
  | .singleValueAttributes options => Relabel.Unaffixed options.front options.back
  | .multiValueAttributes _ => True
  | .cssDeclarationProperties affixes => Relabel.Unaffixed affixes.front affixes.back
  | .cssDeclarationValues affixes => Relabel.Unaffixed affixes.front affixes.back

theorem Fragment.optional_eq_empty {value : Option String} (h : value.getD "" = "") :
    optional value = "" := by
  cases value with
  | none => rfl
  | some value =>
    obtain rfl : value = "" := h
    rfl

/-- Fragments that are not configured leave nothing in a template. -/
theorem Unaffixed.optional {front back : Option String} (h : Unaffixed front back) :
    Fragment.optional front = "" ∧ Fragment.optional back = "" :=
  ⟨Fragment.optional_eq_empty h.1, Fragment.optional_eq_empty h.2⟩

open Fragment

namespace Css

theorem attributes_unfailing : Ensures attributes AllUnfailing := by
  refine (direct_unfailing ⟨_, Model.cssSkipped.2 |>.append (.literal _ rfl)
    |>.append (.literal _ rfl), by decide⟩).bind fun selector hselector => ?_
  refine (direct_unfailing ⟨_, Model.cssSkipped.2 |>.append (.literal _ rfl),
    by decide⟩).bind fun call hcall => ?_
  exact .pure (by simp [AllUnfailing, hselector, hcall])

theorem querySelectors_unfailing {affixes : Affixes} (h : Unaffixed affixes.front affixes.back) :
    Ensures (querySelectors affixes) AllUnfailing := by
  unfold querySelectors
  rw [h.optional.1, h.optional.2]
  exact (direct_unfailing ⟨_, Model.cssSkipped.2 |>.append (.literal _ rfl)
    |>.append (.literal _ rfl) |>.append (.literal _ rfl) |>.append (.literal _ rfl)
    |>.append (.literal _ rfl)
    |>.append (Exchangeable.literal _ rfl |>.append (.literal _ rfl) |>.append (.literal _ rfl)
      |>.append Model.cssSkipped.2 |>.append (.literal _ rfl)), by decide⟩).bind
    fun selector hselector => .pure (by simp [AllUnfailing, hselector])

theorem singleValueAttributes_unfailing {options : SingleValueOptions}
    (h : Unaffixed options.front options.back) :
    Ensures (singleValueAttributes options) AllUnfailing := by
  unfold singleValueAttributes
  rw [h.optional.1, h.optional.2]
  split
  · rename_i names hnames
    exact (direct_unfailing ⟨_, Model.cssSkipped.2 |>.append (.literal _ rfl)
      |>.append (.names hnames) |>.append (.literal _ rfl)
      |>.append (.literal _ rfl) |>.append (.literal _ rfl) |>.append (.literal _ rfl)
      |>.append (.literal _ rfl) |>.append (.literal _ rfl) |>.append (.literal _ rfl)
      |>.append (.literal _ rfl) |>.append (.literal _ rfl) |>.append (.literal _ rfl)
      |>.append (.literal _ rfl) |>.append (.literal _ rfl) |>.append (.literal _ rfl),
      by decide⟩).bind fun value hvalue => .pure (by simp [AllUnfailing, hvalue])
  · exact .pure (by simp [AllUnfailing])

theorem multiValueAttributes_unfailing (options : MultiValueOptions) :
    Ensures (multiValueAttributes options) AllUnfailing := by
  unfold multiValueAttributes
  split
  · rename_i names hnames
    exact (nested_unfailing ⟨_, Model.cssSkipped.2 |>.append (.literal _ rfl)
      |>.append (.names hnames) |>.append (.literal _ rfl) |>.append (.literal _ rfl), by decide⟩
      readable_token).bind fun values hvalues => .pure (by simp [AllUnfailing, hvalues])
  · exact .pure (by simp [AllUnfailing])

theorem declarationProperties_unfailing {affixes : Affixes}
    (h : Unaffixed affixes.front affixes.back) :
    Ensures (declarationProperties affixes) AllUnfailing := by
  unfold declarationProperties
  rw [h.optional.1, h.optional.2]
  exact (direct_unfailing ⟨_, Model.cssSkipped.2 |>.append (.literal _ rfl)
    |>.append (.literal _ rfl) |>.append (.literal _ rfl) |>.append (.literal _ rfl)
    |>.append (.literal _ rfl), by decide⟩).bind
    fun name hname => .pure (by simp [AllUnfailing, hname])

theorem declarationValues_unfailing {affixes : Affixes}
    (h : Unaffixed affixes.front affixes.back) :
    Ensures (declarationValues affixes) AllUnfailing := by
  unfold declarationValues
  rw [h.optional.1, h.optional.2]
  exact (nested_unfailing ⟨_, Model.cssSkipped.2 |>.append (.literal _ rfl), by decide⟩
    readable_declarationValue).bind fun value hvalue => .pure (by simp [AllUnfailing, hvalue])

end Css

namespace Html

theorem attributes_unfailing : Ensures attributes AllUnfailing :=
  (nested_unfailing ⟨_, Exchangeable.literal _ rfl |>.append (.literal _ rfl)
    |>.append (Exchangeable.literal _ rfl |>.append (.literal _ rfl) |>.append (.literal _ rfl)
      |>.append (.literal _ rfl) |>.append (.literal _ rfl) |>.append (.literal _ rfl)), by decide⟩
    ⟨_, Exchangeable.literal _ rfl |>.append (.literal _ rfl), by decide⟩).bind
    fun name hname => .pure (by simp [AllUnfailing, hname])

theorem singleValueAttributes_unfailing {options : SingleValueOptions}
    (h : Unaffixed options.front options.back) :
    Ensures (singleValueAttributes options) AllUnfailing := by
  unfold singleValueAttributes
  rw [h.optional.1, h.optional.2]
  split
  · rename_i names hnames
    exact (nested_unfailing readable_valueTag ⟨_, Exchangeable.literal _ rfl
      |>.append (.names hnames) |>.append (.literal _ rfl)
      |>.append (.literal _ rfl) |>.append (.literal _ rfl) |>.append (.literal _ rfl)
      |>.append (.literal _ rfl) |>.append (.literal _ rfl) |>.append (.literal _ rfl)
      |>.append (.literal _ rfl) |>.append (.literal _ rfl) |>.append (.literal _ rfl)
      |>.append (.literal _ rfl) |>.append (.literal _ rfl) |>.append (.literal _ rfl)
      |>.append (.literal _ rfl), by decide⟩).bind
      fun value hvalue => .pure (by simp [AllUnfailing, hvalue])
  · exact .pure (by simp [AllUnfailing])

theorem multiValueAttributes_unfailing (options : MultiValueOptions) :
    Ensures (multiValueAttributes options) AllUnfailing := by
  unfold multiValueAttributes
  split
  · rename_i names hnames
    exact (narrowed_unfailing readable_valueTag ⟨_, Exchangeable.literal _ rfl
      |>.append (.names hnames) |>.append (.literal _ rfl) |>.append (.literal _ rfl)
      |>.append (.literal _ rfl), by decide⟩ readable_token).bind
      fun values hvalues => .pure (by simp [AllUnfailing, hvalues])
  · exact .pure (by simp [AllUnfailing])

end Html

namespace Js

theorem attributes_unfailing : Ensures attributes AllUnfailing := by
  refine (direct_unfailing ⟨_, Model.jsSkipped.2 |>.append (.literal _ rfl)
    |>.append Model.quotedArgument.2, by decide⟩).bind fun call hcall => ?_
  refine (nested_unfailing (readable_jsStringLiterals false) readable_attributeSelector).bind
    fun selector hselector => ?_
  exact .pure (by simp [AllUnfailing, hcall, hselector])

theorem querySelectors_unfailing {affixes : Affixes} (h : Unaffixed affixes.front affixes.back) :
    Ensures (querySelectors affixes) AllUnfailing := by
  unfold querySelectors
  rw [h.optional.1, h.optional.2]
  exact (nested_unfailing (readable_jsStringLiterals true) readable_selector).bind
    fun identifier hidentifier => .pure (by simp [AllUnfailing, hidentifier])

theorem singleValueAttributes_unfailing {options : SingleValueOptions}
    (h : Unaffixed options.front options.back) :
    Ensures (singleValueAttributes options) AllUnfailing := by
  unfold singleValueAttributes
  rw [h.optional.1, h.optional.2]
  split
  · rename_i names hnames
    refine (direct_unfailing ⟨_, Model.jsSkipped.2 |>.append (.literal _ rfl)
      |>.append (Model.quotedName.2 (.names hnames)) |>.append (.literal _ rfl)
      |>.append Model.quotedArgument.2, by decide⟩).bind fun call hcall => ?_
    split
    · refine (direct_unfailing ⟨_, Model.jsSkipped.2 |>.append (.literal _ rfl)
        |>.append Model.quotedArgument.2, by decide⟩).bind fun lookup hlookup => ?_
      exact .pure (by simp [AllUnfailing, hcall, hlookup])
    · exact .pure (by simp [AllUnfailing, hcall])
  · exact .pure (by simp [AllUnfailing])

theorem multiValueAttributes_unfailing (options : MultiValueOptions) :
    Ensures (multiValueAttributes options) AllUnfailing := by
  unfold multiValueAttributes
  split
  · rename_i names hnames
    refine (nested_unfailing ⟨_, Model.jsSkipped.2 |>.append (.literal _ rfl)
      |>.append (Model.quotedName.2 (.names hnames)) |>.append (.literal _ rfl)
      |>.append Model.quotedRegion.2, by decide⟩ readable_token).bind fun call hcall => ?_
    split
    · refine (nested_unfailing ⟨_, Model.jsSkipped.2 |>.append (.literal _ rfl)
        |>.append (.literal _ rfl), by decide⟩ ⟨_, Model.quotedArgument.2, by decide⟩).bind
        fun list hlist => ?_
      refine (nested_unfailing ⟨_, Model.jsSkipped.2 |>.append (.literal _ rfl)
        |>.append Model.quotedRegion.2, by decide⟩ readable_token).bind
        fun assigned hassigned => ?_
      exact .pure (by simp [AllUnfailing, hcall, hlist, hassigned])
    · exact .pure (by simp [AllUnfailing, hcall])
  · exact .pure (by simp [AllUnfailing])

theorem declarationProperties_unfailing {affixes : Affixes}
    (h : Unaffixed affixes.front affixes.back) :
    Ensures (declarationProperties affixes) AllUnfailing := by
  unfold declarationProperties
  rw [h.optional.1, h.optional.2]
  exact (direct_unfailing ⟨_, Model.jsSkipped.2 |>.append (.literal _ rfl)
    |>.append (.literal _ rfl) |>.append Model.quotedArgument.2, by decide⟩).bind
    fun call hcall => .pure (by simp [AllUnfailing, hcall])

theorem declarationValues_unfailing {affixes : Affixes}
    (h : Unaffixed affixes.front affixes.back) :
    Ensures (declarationValues affixes) AllUnfailing := by
  unfold declarationValues
  rw [h.optional.1, h.optional.2]
  exact (nested_unfailing ⟨_, Model.jsSkipped.2 |>.append (.literal _ rfl)
    |>.append Model.quotedRegion.2, by decide⟩ readable_declarationValue).bind
    fun value hvalue => .pure (by simp [AllUnfailing, hvalue])

end Js

/-- Every expression of a language is valid for all keys if no fragment is configured. -/
theorem Grammar.expressions_unfailing (grammar : Grammar) {options : Options}
    (h : options.Unaffixed) : Ensures (grammar.expressions options) AllUnfailing := by
  have hnone : Ensures (.ok []) AllUnfailing := .pure (by simp [AllUnfailing])
  cases grammar with
  | css =>
    cases options with
    | attributes => exact Css.attributes_unfailing
    | querySelectors affixes => exact Css.querySelectors_unfailing h
    | singleValueAttributes options => exact Css.singleValueAttributes_unfailing h
    | multiValueAttributes options => exact Css.multiValueAttributes_unfailing options
    | cssDeclarationProperties affixes => exact Css.declarationProperties_unfailing h
    | cssDeclarationValues affixes => exact Css.declarationValues_unfailing h
  | html =>
    cases options with
    | attributes => exact Html.attributes_unfailing
    | singleValueAttributes options => exact Html.singleValueAttributes_unfailing h
    | multiValueAttributes options => exact Html.multiValueAttributes_unfailing options
    | querySelectors _ | cssDeclarationProperties _ | cssDeclarationValues _ => exact hnone
  | js =>
    cases options with
    | attributes => exact Js.attributes_unfailing
    | querySelectors affixes => exact Js.querySelectors_unfailing h
    | singleValueAttributes options => exact Js.singleValueAttributes_unfailing h
    | multiValueAttributes options => exact Js.multiValueAttributes_unfailing options
    | cssDeclarationProperties affixes => exact Js.declarationProperties_unfailing h
    | cssDeclarationValues affixes => exact Js.declarationValues_unfailing h
  | none => exact hnone

/-! ### Running expressions -/

namespace Expression

variable {e : Expression}

theorem replaceAll_nil (e : Expression) (text : String) :
    (e.replaceAll text []).outcome = .ok none :=
  rfl

/-- **Replacing succeeds, or a template is no pattern.** -/
theorem outcome_replaceAll_cases (e : Expression) (text : String) (mapping : Mapping) :
    (∃ result, (e.replaceAll text mapping).outcome = .ok result) ∨
      (e.replaceAll text mapping).outcome = .error .invalidPattern := by
  by_cases hmapping : mapping = []
  · subst hmapping
    exact .inl ⟨none, e.replaceAll_nil text⟩
  by_cases hvalid : e.Valid (Lookup.ofMapping mapping e.caseSensitive).pattern
  · obtain ⟨result, hresult, -⟩ := replaceAll_yields text hmapping hvalid
    exact .inl ⟨result, hresult⟩
  · exact .inr (outcome_replaceAll_of_not_valid text hmapping hvalid)

/-- An expression fails if one of its templates is no pattern, which can be tried with any keys. -/
theorem outcome_replaceAll_error_iff (hslots : e.slotsUncommented = true) {text : String}
    {mapping : Mapping} (hmapping : mapping ≠ []) :
    (e.replaceAll text mapping).outcome = .error .invalidPattern ↔ ¬ e.Valid [] := by
  have hkeys := Inert.pattern (Lookup.ofMapping mapping e.caseSensitive)
  rw [← valid_iff_of_inert hslots hkeys]
  constructor
  · intro herror hvalid
    obtain ⟨result, hresult, -⟩ := replaceAll_yields text hmapping hvalid
    rw [hresult] at herror
    cases herror
  · exact outcome_replaceAll_of_not_valid text hmapping

/-- An expression that is valid for all keys always gives a result. -/
theorem Unfailing.exists_result (h : e.Unfailing) (text : String) (mapping : Mapping) :
    ∃ result, (e.replaceAll text mapping).outcome = .ok result := by
  by_cases hmapping : mapping = []
  · subst hmapping
    exact ⟨none, e.replaceAll_nil text⟩
  · obtain ⟨result, hresult, -⟩ := replaceAll_yields text hmapping (h _ (Inert.pattern _))
    exact ⟨result, hresult⟩

end Expression

/-- **Keys cannot break a pattern.** The only failure of replacing is a template that is no pattern
once its slots are filled. If no slot stands in a comment, and that happens for some text and some
keys, it happens for all texts and all keys; without keys it never happens. The expressions of the
languages do not fail at all, unless fragments are configured. -/
theorem replaceAll_failure_ignores_keys :
    (∀ (e : Expression) (text : String) (mapping : Mapping) (error : Error),
      (e.replaceAll text mapping).outcome = .error error → error = .invalidPattern) ∧
    (∀ (e : Expression) (first second : Mapping), e.slotsUncommented = true → first ≠ [] →
      second ≠ [] →
      ((∃ text, (e.replaceAll text first).outcome = .error .invalidPattern) ↔
        ∀ text, (e.replaceAll text second).outcome = .error .invalidPattern)) ∧
    (∀ (e : Expression) (text : String), (e.replaceAll text []).outcome = .ok none) ∧
    ∀ (grammar : Grammar) (options : Options) (es : List Expression), options.Unaffixed →
      grammar.expressions options = .ok es → ∀ e ∈ es, ∀ (text : String) (mapping : Mapping),
        ∃ result, (e.replaceAll text mapping).outcome = .ok result := by
  refine ⟨?_, ?_, Expression.replaceAll_nil, ?_⟩
  · intro e text mapping error herror
    rcases e.outcome_replaceAll_cases text mapping with ⟨result, hresult⟩ | hinvalid
    · rw [hresult] at herror
      cases herror
    · exact Except.error.inj (herror.symm.trans hinvalid)
  · intro e first second hslots hfirst hsecond
    constructor
    · rintro ⟨text, herror⟩ text'
      have hinvalid := (Expression.outcome_replaceAll_error_iff hslots hfirst).mp herror
      exact (Expression.outcome_replaceAll_error_iff hslots hsecond).mpr hinvalid
    · intro herror
      have hinvalid := (Expression.outcome_replaceAll_error_iff hslots hsecond).mp (herror "")
      exact ⟨"", (Expression.outcome_replaceAll_error_iff hslots hfirst).mpr hinvalid⟩
  · intro grammar options es hoptions hes e he text mapping
    exact (grammar.expressions_unfailing hoptions es hes e he).exists_result text mapping

/-- A repetition without an item fails for all keys. A slot in a class and a slot in the name of an
attribute make no expression fail, also if the keys look like patterns. -/
theorem replaceAll_failure_ignores_keys_at_slots :
    (∀ text, ((⟨.direct ⟨"(%s|*)", rfl⟩, "main", true⟩ : Expression).replaceAll text
      [("*)(", "x")]).outcome = .error .invalidPattern) ∧
    (¬ ∀ text, ((⟨.direct ⟨"[a-z%s]+", rfl⟩, "main", true⟩ : Expression).replaceAll text
      [("]-[", "x"), ("", "y")]).outcome = .error .invalidPattern) ∧
    ∃ es, Html.expressions (.singleValueAttributes ⟨["%s", "a|%s\\"], none, some ""⟩) = .ok es ∧
      ∀ e ∈ es, ∃ result, (e.replaceAll "<p id=x>" [("(", "x"), ("", "y")]).outcome = .ok result := by
  obtain ⟨-, hkeys, -, hbuiltin⟩ := replaceAll_failure_ignores_keys
  have hinvalid : ¬ (⟨.direct ⟨"(%s|*)", rfl⟩, "main", true⟩ : Expression).Valid [] := by
    intro hvalid
    have hparse := Template.compiles_iff.mp (Expression.valid_iff.mp hvalid).2
    exact absurd hparse (by decide)
  have hvalid : (⟨.direct ⟨"[a-z%s]+", rfl⟩, "main", true⟩ : Expression).Valid [] := by
    apply Expression.valid_iff.mpr
    exact ⟨List.forall_mem_nil _, Template.compiles_iff.mpr (by decide)⟩
  have hone : [("a", "b")] ≠ ([] : Mapping) := List.cons_ne_nil _ _
  refine ⟨?_, ?_, ?_⟩
  · apply (hkeys _ [("a", "b")] _ (by decide) hone (List.cons_ne_nil _ _)).mp
    exact ⟨"", (Expression.outcome_replaceAll_error_iff (by decide) hone).mpr hinvalid⟩
  · intro herror
    obtain ⟨text, htext⟩ :=
      (hkeys _ [("a", "b")] _ (by decide) hone (List.cons_ne_nil _ _)).mpr herror
    exact (Expression.outcome_replaceAll_error_iff (by decide) hone).mp htext hvalid
  · obtain ⟨es, hes, -⟩ :=
      Html.singleValueAttributes_resolves ⟨["%s", "a|%s\\"], none, some ""⟩
    have hoptions : (Options.singleValueAttributes ⟨["%s", "a|%s\\"], none, some ""⟩).Unaffixed :=
      ⟨rfl, rfl⟩
    exact ⟨es, hes, fun e he => hbuiltin .html _ es hoptions hes e he _ _⟩

end Relabel
