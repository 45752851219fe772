import Relabel.Proofs.AttributeNames
import Relabel.Proofs.Locality
import Relabel.Proofs.OtherAttributes

/-!
# Text in front of markup

Text without opening brackets and a comment behind it are a frame for the markup that follows. The
expressions for markup look for start tags first, and pass over such a frame
(`Html.StartTags.passesOver_comment`). Start tags are told by the text to come, so behind the frame
the same ones are captured as without it. Hence what is found is the same, and what is replaced is
the same behind the frame (`Html.comments_frame_rewriting`), whatever the markup is.
-/

namespace Relabel

/-! ### Matchers that pass over a frame -/

namespace Matcher

/-- `matcher.PassesOver frame`: nothing is captured in the frame, and behind it the same as without
it. -/
def PassesOver (matcher : Matcher) (frame : List Char) : Prop :=
  ∀ text, matcher.captureSpans (frame ++ text) =
    (matcher.captureSpans text).map (Span.shift (byteSize frame))

namespace PassesOver

variable {matcher : Matcher} {frame : List Char} (h : matcher.PassesOver frame)
include h

/-- Nothing is captured in a frame that is passed over. -/
theorem captured (text : List Char) :
    matcher.captured (frame ++ text) = matcher.captured text := by
  rw [captured_eq, captured_eq, h, List.filterMap_map]
  exact List.filterMap_congr fun s _ => s.slice?_append frame text

/-- Nothing is changed in a frame that is passed over. -/
theorem rewrite (change : List Char → Option (List Char)) (text : List Char) :
    matcher.rewrite change (frame ++ text) = (matcher.rewrite change text).prepend frame := by
  rw [Matcher.rewrite, Matcher.rewrite, ← splice_append, h, List.filterMap_map, List.map_filterMap]
  refine congrArg (splice _) (List.filterMap_congr fun s _ => ?_)
  rw [Function.comp_apply, s.slice?_append]
  cases s.slice? text with
  | none => rfl
  | some part => cases hchange : change part <;> simp [hchange, Edit.shift]

/-- No region lies in a frame that the outermost matcher passes over. -/
theorem regions (levels : List Matcher) (text : List Char) :
    Matcher.regions (matcher :: levels) (frame ++ text) =
      Matcher.regions (matcher :: levels) text := by
  rw [Matcher.regions, Matcher.regions, h.captured]

/-- Nothing is replaced in a frame that the outermost matcher passes over. -/
theorem replaceInRegions (inner : Matcher) (lookup : Lookup) (levels : List Matcher)
    (text : List Char) :
    Matcher.replaceInRegions inner lookup (matcher :: levels) (frame ++ text) =
      ((Matcher.replaceInRegions inner lookup (matcher :: levels) text).1,
        (Matcher.replaceInRegions inner lookup (matcher :: levels) text).2.prepend frame) := by
  refine Prod.ext ?_ ?_
  · rw [replaceInRegions_cons, replaceInRegions_cons, h.captured]
  · rw [replaceInRegions_eq_rewrite, replaceInRegions_eq_rewrite, h.rewrite]

end PassesOver

end Matcher

/-! ### Expressions behind a frame -/

theorem Traced.bind_congr {α β : Type} {first : Traced α} {next next' : α → Traced β}
    (h : ∀ a, first.outcome = .ok a → next a = next' a) : first >>= next = first >>= next' := by
  obtain ⟨outcome, events⟩ := first
  cases outcome with
  | error e => rfl
  | ok a => rw [Traced.bind_ok, Traced.bind_ok, h a rfl]

namespace Expression

variable {e : Expression} {outer inner : Template} {within : List Template} {frame : String}

/-- What the outermost template of an expression compiles to passes over a frame. -/
def PassesOver (e : Expression) (pattern frame : List Char) : Prop :=
  ∃ outer within inner p, e.strategy = .nested outer within inner ∧
    outer.pattern pattern e.caseSensitive = .ok p ∧
      (Matcher.ofPattern e.group.toList p).PassesOver frame

/-- What compiles begins with the matcher of the outermost template. -/
theorem exists_cons_of_mapM {pattern : List Char} {p : Pattern} {levels : List Matcher}
    (hp : outer.pattern pattern e.caseSensitive = .ok p)
    (h : ((outer :: within).mapM fun template => e.matcher template pattern).outcome =
      .ok levels) : ∃ later, levels = .ofPattern e.group.toList p :: later := by
  rw [List.mapM_cons] at h
  obtain ⟨first, hfirst, h⟩ := Traced.bind_eq_ok h
  obtain ⟨later, -, h⟩ := Traced.bind_eq_ok h
  rw [matcher, Matcher.compile_of_ok hp] at hfirst
  obtain rfl := Except.ok.inj hfirst
  exact ⟨later, (Except.ok.inj h).symm⟩

/-- **Behind the frame the same is found.** -/
theorem PassesOver.findAll_append {pattern frame : String}
    (h : e.PassesOver pattern.toList frame.toList) (text : String) :
    e.findAll (frame ++ text) pattern = e.findAll text pattern := by
  obtain ⟨outer, within, inner, p, hstrategy, hp, hframe⟩ := h
  simp only [findAll, hstrategy]
  refine Traced.bind_congr fun levels hlevels => ?_
  obtain ⟨later, rfl⟩ := exists_cons_of_mapM hp hlevels
  rw [String.toList_append, hframe.regions]

/-- **Behind the frame the same is replaced**, and the frame stays as it is. -/
theorem PassesOver.replaceAll_append {mapping : Mapping} {frame : String}
    (h : e.PassesOver (Lookup.ofMapping mapping e.caseSensitive).pattern frame.toList)
    (text : String) :
    e.replaceAll (frame ++ text) mapping =
      Option.map (frame ++ ·) <$> e.replaceAll text mapping := by
  obtain ⟨outer, within, inner, p, hstrategy, hp, hframe⟩ := h
  rw [replaceAll, replaceAll]
  split
  · rfl
  · simp only [hstrategy, map_bind]
    refine Traced.bind_congr fun levels hlevels => ?_
    obtain ⟨later, rfl⟩ := exists_cons_of_mapM hp hlevels
    have hprepend : String.ofList ∘ (frame.toList ++ ·) = (frame ++ ·) ∘ String.ofList := by
      funext part
      simp
    rw [String.toList_append]
    simp only [hframe.replaceInRegions, Spliced.changed?_prepend, Option.map_map, hprepend,
      map_pure]

end Expression

namespace Html

open Pattern

/-! ### Comments in front of markup -/

namespace StartTags

theorem lookFree_choice (t : StartTags) : (choice t.pattern [commentPattern]).lookFree = true := by
  have hcomment : commentPattern.lookFree = true := rfl
  rw [choice, List.foldl_cons, List.foldl_nil, lookFree, hcomment, Bool.true_and]
  simp [pattern, row, char, Pattern.star, lookFree, lookFree_of_lexical t.lexical]

/-- **Text without opening brackets and a comment are passed over.** -/
theorem passesOver_comment (t : StartTags) {front body : List Char} (hfront : '<' ∉ front)
    (hbody : ¬ "-->".toList <:+: body) :
    t.matcher.PassesOver (front ++ (Item.comment body).render) := by
  intro text
  obtain ⟨d, hd, hrest⟩ :=
    Cursor.exists_over (c := .start (front ++ (Item.comment body).render ++ text)) rfl
  obtain ⟨c, hc, hcomment⟩ := hd.split
  have hmoved : (Cursor.start text).MovedBy (byteSize (front ++ (Item.comment body).render)) d :=
    ⟨hrest, hd.2.1.trans (Nat.add_comm _ _)⟩
  have hresumes : t.matcher.Resumes ⟨⟨c.offset, d.offset⟩, []⟩ c d :=
    resumes ⟨_, hcomment⟩ (hcomment.offset_lt (List.cons_ne_nil _ _))
  have hnothing : t.matcher.capture? ⟨⟨c.offset, d.offset⟩, []⟩ = none := by
    rw [Matcher.capture?, capture_eq]
    rfl
  rw [Matcher.captureSpans_eq_hits, Matcher.captureSpans_eq_hits,
    t.advances.hits_skips hc
      fun _ _ _ hparts hback _ hover => matchAt_text hfront hparts hback hover,
    t.advances.hits_found (matchAt_comment hbody hcomment) hresumes,
    t.advances.hits_moved (Matcher.local_ofPattern _ t.proper_choice t.lookFree_choice) hmoved,
    List.filterMap_cons, hnothing, List.filterMap_map, List.map_filterMap]
  exact List.filterMap_congr fun entry _ => t.matcher.capture?_shift _ entry.1

end StartTags

/-! ### The expressions for markup -/

/-- A template that captures in a text what is captured in its start tags. -/
def TellsTags (outer : Template) (caseSensitive : Bool) : Prop :=
  ∀ lookup : Lookup, ∃ p, ∃ t : StartTags, outer.pattern lookup.pattern caseSensitive = .ok p ∧
    (Matcher.ofPattern Fragment.group.toList p).captureSpans = t.matcher.captureSpans

/-- The template for values captures in a text what it captures in its start tags. -/
theorem tellsTags_values {outer : Template}
    (h : outer.source = Fragment.htmlComment ++ "|" ++ valueTag) : TellsTags outer true := by
  intro lookup
  refine ⟨_, Markup.valueTags (.oneOf (.initial false) lookup.texts) (lexical_oneOf _ _)
    (proper_oneOf _ _), Template.pattern_of_readTemplate ?_, rfl⟩
  rw [h]
  exact readTemplate_valueTags (fun flags => .oneOf flags lookup.texts) (lexical_oneOf _ _)
    (proper_oneOf _ _)

/-- The template for names captures in a text what it captures in its start tags. -/
theorem tellsTags_names {outer : Template}
    (h : outer.source = Fragment.htmlComment ++ "|" ++ startTag) : TellsTags outer false := by
  intro lookup
  have hlexical : (oneOf (.initial true) lookup.texts).plain.lexical = true :=
    (lexical_plain _).trans (lexical_oneOf _ _)
  have hproper : (oneOf (.initial true) lookup.texts).plain.proper = true :=
    (proper_plain _).trans (proper_oneOf _ _)
  have hplain : (foldedTags (.oneOf (.initial true) lookup.texts)).plain =
      choice (mentionTags _ hlexical hproper).pattern [commentPattern] := rfl
  have hfolded : (foldedTags (.oneOf (.initial true) lookup.texts)).proper = true := by
    rw [← proper_plain, hplain, StartTags.proper_choice]
  refine ⟨foldedTags (.oneOf (.initial true) lookup.texts), mentionTags _ hlexical hproper,
    Template.pattern_of_readTemplate ?_, ?_⟩
  · rw [h]
    exact readTemplate_tags fun flags => .oneOf flags lookup.texts
  · rw [← Matcher.captureSpans_plain _ hfolded, hplain]
    rfl

/-- An expression that narrows a text down to what its start tags capture. -/
def LooksIntoTags (e : Expression) : Prop :=
  e.group = Fragment.group ∧ ∃ outer within inner,
    e.strategy = .nested outer within inner ∧ TellsTags outer e.caseSensitive

theorem nested_looksIntoTags {outer inner : String} {caseSensitive : Bool}
    (h : ∀ template : Template, template.source = outer → TellsTags template caseSensitive) :
    Ensures (Fragment.nested outer inner caseSensitive) LooksIntoTags := by
  refine (Template.ofString_ensures outer).bind fun outer' houter => ?_
  refine (Template.ofString_ensures inner).bind fun inner' _ => ?_
  exact .pure ⟨rfl, outer', [], inner', rfl, h outer' houter⟩

theorem narrowed_looksIntoTags {outer region inner : String} {caseSensitive : Bool}
    (h : ∀ template : Template, template.source = outer → TellsTags template caseSensitive) :
    Ensures (Fragment.narrowed outer region inner caseSensitive) LooksIntoTags := by
  refine (Template.ofString_ensures outer).bind fun outer' houter => ?_
  refine (Template.ofString_ensures inner).bind fun inner' _ => ?_
  refine (Template.ofString_ensures region).bind fun region' _ => ?_
  exact .pure ⟨rfl, outer', [region'], inner', rfl, h outer' houter⟩

/-- **All expressions for markup look into start tags.** -/
theorem expressions_lookIntoTags (options : Options) :
    Ensures (expressions options) fun found => ∀ e ∈ found, LooksIntoTags e := by
  have hone : ∀ {attempt : Except Error Expression}, Ensures attempt LooksIntoTags →
      Ensures (attempt >>= fun e => pure [e]) fun found => ∀ e ∈ found, LooksIntoTags e :=
    fun h => h.bind fun e he => .pure (List.forall_mem_singleton.mpr he)
  have hnone : Ensures (pure [] : Except Error (List Expression)) fun found =>
      ∀ e ∈ found, LooksIntoTags e := .pure (by simp)
  cases options with
  | attributes => exact hone (nested_looksIntoTags fun _ => tellsTags_names)
  | singleValueAttributes options =>
    rw [expressions, singleValueAttributes]
    split
    · exact hone (nested_looksIntoTags fun _ => tellsTags_values)
    · exact hnone
  | multiValueAttributes options =>
    rw [expressions, multiValueAttributes]
    split
    · exact hone (narrowed_looksIntoTags fun _ => tellsTags_values)
    · exact hnone
  | querySelectors _ => exact hnone
  | cssDeclarationProperties _ => exact hnone
  | cssDeclarationValues _ => exact hnone

/-- An expression that looks into tags passes over text and a comment. -/
theorem LooksIntoTags.passesOver {e : Expression} (h : LooksIntoTags e) (lookup : Lookup)
    {front body : List Char} (hfront : '<' ∉ front) (hbody : ¬ "-->".toList <:+: body) :
    e.PassesOver lookup.pattern (front ++ (Item.comment body).render) := by
  obtain ⟨hgroup, outer, within, inner, hstrategy, htells⟩ := h
  obtain ⟨p, t, hp, hspans⟩ := htells lookup
  refine ⟨outer, within, inner, p, hstrategy, hp, ?_⟩
  rw [Matcher.PassesOver, hgroup, hspans]
  exact t.passesOver_comment hfront hbody

/-- **Comments frame the rewriting of markup.** Put text without opening brackets and a comment in
front of any text. Then every expression for markup finds the same in it for a disjunction of keys,
and replaces the same behind the comment, as in the text alone: it yields the same new text with the
frame in front of it, no new text if there is none without the frame, or the same error. -/
theorem comments_frame_rewriting {options : Options} {found : List Expression}
    (hfound : expressions options = .ok found) {e : Expression} (he : e ∈ found)
    {front body : String} (hfront : '<' ∉ front.toList) (hbody : ¬ "-->".toList <:+: body.toList)
    (text : String) :
    let frame := front ++ "<!--" ++ body ++ "-->"
    (∀ keys : List String, let keyed := joinBars (keys.map fun key => escape key.toList)
      e.findAll (frame ++ text) (String.ofList keyed) = e.findAll text (String.ofList keyed)) ∧
    ∀ mapping : Mapping, e.replaceAll (frame ++ text) mapping =
      Option.map (frame ++ ·) <$> e.replaceAll text mapping := by
  intro frame
  have hlooks : LooksIntoTags e := expressions_lookIntoTags options found hfound e he
  have hframe : frame.toList = front.toList ++ (Item.comment body.toList).render := by
    simp [frame, Item.render]
  refine ⟨fun keys => ?_, fun mapping => ?_⟩
  · have hpasses := hlooks.passesOver ⟨[], true, keys⟩ hfront hbody
    rw [← hframe, ← String.toList_ofList (l := Lookup.pattern _)] at hpasses
    exact hpasses.findAll_append text
  · have hpasses := hlooks.passesOver (Lookup.ofMapping mapping e.caseSensitive) hfront hbody
    rw [← hframe] at hpasses
    exact hpasses.replaceAll_append text

/-- A frame with quotation marks that are not closed, and with a tag and hyphens in the comment. -/
theorem comments_frame_rewriting_lookalike :
    ∃ e, singleValueAttributes ⟨["a k"], none, none⟩ = .ok [e] ∧
      (e.findAll ("é > \"" ++ "<!--" ++ "<p a k='k'>--" ++ "-->" ++ "<p a k=\"k\">") "k").outcome =
        .ok ["k"] ∧
      (e.replaceAll ("é > \"" ++ "<!--" ++ "<p a k='k'>--" ++ "-->" ++ "<p a k=\"k\">")
        [("k", "x")]).outcome =
        .ok (some ("é > \"" ++ "<!--" ++ "<p a k='k'>--" ++ "-->" ++ "<p a k=\"x\">")) := by
  obtain ⟨e, he, hfound, hreplaced⟩ := singleValue_renames_k (.inr rfl)
  obtain ⟨hfind, hreplace⟩ := @comments_frame_rewriting
    (.singleValueAttributes ⟨["a k"], none, none⟩) [e] he e List.mem_cons_self "é > \""
    "<p a k='k'>--" (by decide) (by decide) "<p a k=\"k\">"
  have hkeyed : String.ofList (joinBars (["k"].map fun key => escape key.toList)) = "k" := by
    decide +kernel
  have hfind := hfind ["k"]
  simp only [hkeyed] at hfind
  refine ⟨e, he, by rw [hfind, hfound], ?_⟩
  rw [hreplace, map_eq_pure_bind, Traced.outcome_bind, hreplaced]
  rfl

end Html

end Relabel
