import Mathlib.Logic.Relation
import Relabel.Proofs.Builtin
import Relabel.Proofs.CodePositions
import Relabel.Proofs.Resolving
import Relabel.Proofs.WritingBack

/-!
# Documents that renaming leaves as they are

Renaming takes a document apart and puts it together again even if there is nothing to rename. If no
rename changes the document or a piece of code embedded in it, the result is the document
(`rename_of_settled`). That is so if the renames have nothing to say, if the plugin does not handle
the language of the document, and if no key occurs in anything the expressions get to see. The last
is more than the document: declarations of a `style` attribute are handed out as the body of a rule,
and the selector of that rule can be renamed although nobody wrote it.
-/

namespace Relabel

namespace Traced

variable {α β : Type}

/-- What succeeds for each member succeeds for all. -/
theorem outcome_mapM_of_ok {f : α → Traced β} {g : α → β} {xs : List α}
    (h : ∀ x ∈ xs, (f x).outcome = .ok (g x)) : (xs.mapM f).outcome = .ok (xs.map g) := by
  induction xs with
  | nil => rfl
  | cons x xs ih =>
    obtain ⟨hx, hxs⟩ := List.forall_mem_cons.mp h
    rw [List.mapM_cons, outcome_bind, hx]
    exact (outcome_bind _ _).trans (by rw [ih hxs]; rfl)

/-- What changes nothing for any member changes nothing. -/
theorem outcome_foldlM_of_fixed {f : β → α → Traced β} {b : β} {xs : List α}
    (h : ∀ x ∈ xs, (f b x).outcome = .ok b) : (xs.foldlM f b).outcome = .ok b := by
  induction xs with
  | nil => rfl
  | cons x xs ih =>
    obtain ⟨hx, hxs⟩ := List.forall_mem_cons.mp h
    rw [List.foldlM_cons, outcome_bind, hx]
    exact ih hxs

end Traced

/-! ### Renames that change nothing -/

namespace Plugin

/-- `p.Settled renames document`: no rename changes the text of the document by itself. -/
def Settled (p : Plugin) (renames : List Rename) (document : Document) : Prop :=
  ∀ rename ∈ renames,
    (p.applyRename document.kind document.content rename).outcome = .ok document.content

/-- `p.Within inner outer`: the document `inner` is `outer`, or embedded in it at some depth. -/
def Within (p : Plugin) : Document → Document → Prop :=
  Relation.ReflTransGen p.Embedded

variable {p : Plugin} {renames : List Rename} {document : Document}

/-- What renaming does, once it is known what it makes of the embedded code. -/
theorem outcome_renameTo {depth : Nat} {embeds : List Embed} {texts : Embed → String}
    (hembeds : (p.embeds document).outcome = .ok embeds)
    (hinner : ∀ e ∈ embeds, (p.renameTo renames depth e.document).outcome = .ok (texts e)) :
    (p.renameTo renames (depth + 1) document).outcome =
      (renames.foldlM (fun text rename => p.applyRename document.kind text rename)
        (spliceEmbeds document.content
          (embeds.map fun e => e.withContent (texts e)))).outcome := by
  have hrenamed : (embeds.mapM fun e => do
      return e.withContent (← p.renameTo renames depth e.document) : Traced _).outcome =
      .ok (embeds.map fun e => e.withContent (texts e)) := by
    refine Traced.outcome_mapM_of_ok fun e he => ?_
    rw [Traced.outcome_bind, hinner e he]
    rfl
  rw [renameTo, Traced.outcome_bind, hembeds]
  refine (Traced.outcome_bind _ _).trans ?_
  rw [hrenamed]
  rfl

/-- Renaming to any depth leaves a document alone if all that lies within it is settled. -/
theorem renameTo_of_settled {depth : Nat}
    (h : ∀ inner, p.Within inner document → p.Settled renames inner) :
    (p.renameTo renames depth document).outcome = .ok document.content := by
  induction depth generalizing document with
  | zero => rfl
  | succ depth ih =>
    obtain ⟨embeds, hembeds, hheld⟩ := embeds_located document p
    have hinner : ∀ e ∈ embeds, (p.renameTo renames depth e.document).outcome = .ok e.content := by
      intro e he
      have hembedded : p.Embedded e.document document := ⟨embeds, hembeds, e, he, rfl⟩
      exact ih fun inner hwithin => h inner (hwithin.tail hembedded)
    have hsplice : spliceEmbeds document.content (embeds.map fun e => e.withContent e.content) =
        document.content := by
      simp only [Embed.withContent_content, List.map_id']
      exact spliceEmbeds_of_standsIn fun e he => (hheld e he).standsIn
    rw [outcome_renameTo hembeds hinner, hsplice]
    exact Traced.outcome_foldlM_of_fixed (h document .refl)

/-- **Renaming a settled document yields the document**, if the code embedded in it, at any depth,
is settled as well. -/
theorem rename_of_settled (h : ∀ inner, p.Within inner document → p.Settled renames inner) :
    (p.rename renames document).outcome = .ok document.content :=
  renameTo_of_settled h

/-- A document is settled if the expressions find nothing to replace in it. -/
theorem settled_of_replaceAll (h : ∀ rename ∈ renames, ∀ e : Expression,
      e.Implements rename.options → document.kind ∈ p.languages →
      (e.replaceAll document.content rename.mapping).outcome = .ok none) :
    p.Settled renames document := by
  intro rename hrename
  obtain ⟨set, hset, hcovers⟩ := p.expressions_yields rename.options
  rw [applyRename, Traced.outcome_bind, hset]
  refine Traced.outcome_foldlM_of_fixed fun e he => ?_
  have hkind : document.kind ∈ p.languages := by
    by_contra hkind
    simp [hcovers.lookup_eq_none hkind] at he
  rw [Traced.outcome_bind, h rename hrename e (hcovers.implements_of_mem_lookup e he) hkind]
  rfl

/-- A document in a language that the plugin does not handle has no embedded code. -/
theorem Within.eq_of_notMem {inner : Document} (h : p.Within inner document)
    (hkind : document.kind ∉ p.languages) : inner = document := by
  induction h using Relation.ReflTransGen.trans_induction_on with
  | refl => rfl
  | single hembedded =>
    obtain ⟨embeds, hembeds, e, he, rfl⟩ := hembedded
    obtain ⟨found, hfound, rfl⟩ := embeds_eq_nil p hkind
    obtain rfl := Except.ok.inj (hembeds.symm.trans hfound)
    cases he
  | trans _ _ ihfirst ihsecond =>
    obtain rfl := ihsecond hkind
    exact ihfirst hkind

/-- **Renaming without effective renames is the identity.** For every plugin and every document,
renames with empty mappings yield the text of the document, whatever code is embedded in it; and so
do any renames if the plugin does not handle the language of the document. -/
theorem rename_without_effect (p : Plugin) (renames : List Rename) (document : Document) :
    ((∀ rename ∈ renames, rename.mapping = []) →
      (p.rename renames document).outcome = .ok document.content) ∧
    (document.kind ∉ p.languages →
      (p.rename renames document).outcome = .ok document.content) := by
  constructor
  · intro hempty
    refine rename_of_settled fun inner _ => settled_of_replaceAll fun rename hrename e _ _ => ?_
    rw [hempty rename hrename]
    rfl
  · intro hkind
    refine rename_of_settled fun inner hinner =>
      settled_of_replaceAll fun rename hrename e _ h => ?_
    obtain rfl := hinner.eq_of_notMem hkind
    exact absurd h hkind

/-- A style attribute, a style sheet and a script, with a rename that has an empty mapping; and a
language that nobody handles. -/
theorem rename_without_effect_in_markup :
    (Plugin.builtin.rename [⟨.querySelectors ⟨none, none⟩, []⟩] ⟨"html",
        "<p style=\"a:b\"><style>.k\x7b\x7d</style><script>f('.k')</script>"⟩).outcome =
      .ok "<p style=\"a:b\"><style>.k\x7b\x7d</style><script>f('.k')</script>" ∧
    "txt" ∉ Plugin.builtin.languages ∧
    (Plugin.builtin.rename [⟨.attributes, [("a", "b")]⟩] ⟨"txt", "[a]"⟩).outcome = .ok "[a]" := by
  have hkind : "txt" ∉ Plugin.builtin.languages := by decide
  exact ⟨(rename_without_effect _ _ _).1 (by simp), hkind, (rename_without_effect _ _ _).2 hkind⟩

end Plugin

/-! ### Keys that do not occur -/

/-- `mapping.AbsentFrom text`: no key occurs in the text. -/
def Mapping.AbsentFrom (mapping : Mapping) (text : List Char) : Prop :=
  ∀ entry ∈ mapping, ¬ entry.1.toList <:+: text

instance (mapping : Mapping) (text : List Char) : Decidable (mapping.AbsentFrom text) :=
  inferInstanceAs (Decidable (∀ entry ∈ mapping, ¬ entry.1.toList <:+: text))

theorem Span.infix_of_slice? {text part : List Char} {s : Span} (h : s.slice? text = some part) :
    part <:+: text := by
  obtain ⟨front, back, rfl, -, -⟩ := slice?_eq_some_iff.mp h
  exact ⟨front, back, by simp⟩

namespace Mapping.AbsentFrom

variable {mapping : Mapping} {text part : List Char}

/-- A key that does not occur in a text does not occur in a part of it. -/
theorem of_part (h : mapping.AbsentFrom text) (hpart : part <:+: text) :
    mapping.AbsentFrom part :=
  fun entry hentry hkey => h entry hentry (hkey.trans hpart)

/-- No part of the text stands for a key. -/
theorem get?_eq_none (h : mapping.AbsentFrom text) (hpart : part <:+: text) :
    (Lookup.ofMapping mapping true).get? part = none := by
  refine List.lookup_eq_none_iff.mpr fun entry hentry => ?_
  rw [bne_iff_ne]
  intro hkey
  refine h entry hentry ?_
  rwa [← hkey, String.toList_ofList]

/-- Whatever an edit would do to a capture that resolves, there is none. -/
theorem edits_eq_nil (h : mapping.AbsentFrom text) (matcher : Matcher)
    (edit : Hit → Span → String → Edit) : ((matcher.scan text).filterMap fun hit => do
      let span ← hit.capture
      let identifier ← span.slice? text
      let value ← (Lookup.ofMapping mapping true).get? identifier
      return edit hit span value) = [] := by
  refine List.filterMap_eq_nil_iff.mpr fun hit _ => ?_
  simp only [Option.bind_eq_bind, Option.bind_eq_none_iff]
  intro span _ identifier hslice value hvalue
  rw [h.get?_eq_none (Span.infix_of_slice? hslice)] at hvalue
  cases hvalue

/-- Where no key occurs, no capture is replaced. -/
theorem replaceCaptures (h : mapping.AbsentFrom text) (matcher : Matcher) :
    matcher.replaceCaptures (Lookup.ofMapping mapping true) text = ⟨0, text⟩ :=
  congrArg (splice text) (h.edits_eq_nil matcher fun _ span value => ⟨span, value.toList⟩)

/-- Where no key occurs, nothing that was consumed is replaced. -/
theorem replaceConsumed (h : mapping.AbsentFrom text) (matcher : Matcher)
    (decoration : List Char) :
    matcher.replaceConsumed decoration (Lookup.ofMapping mapping true) text = ⟨0, text⟩ :=
  congrArg (splice text) (h.edits_eq_nil matcher fun hit span value =>
    ⟨if hit.consumed.covers span then hit.consumed else span, fillSlots value.toList decoration⟩)

/-- Regions are parts of the text, so no key occurs in them either. -/
theorem replaceInRegions (h : mapping.AbsentFrom text) (inner : Matcher) (levels : List Matcher) :
    (inner.replaceInRegions (Lookup.ofMapping mapping true) levels text).2 = ⟨0, text⟩ := by
  induction levels generalizing text with
  | nil => exact h.replaceCaptures inner
  | cons level levels ih =>
    have hedits : Matcher.regionEdits inner (Lookup.ofMapping mapping true) level levels text =
        [] := by
      refine List.filterMap_eq_nil_iff.mpr fun span _ =>
        Option.bind_eq_none_iff.mpr fun region hslice => ?_
      rw [ih (h.of_part (Span.infix_of_slice? hslice))]
      rfl
    rw [Matcher.replaceInRegions_cons, hedits]
    rfl

/-- An expression that minds case has nothing to replace where no key occurs. -/
theorem replaceAll {text : String} (h : mapping.AbsentFrom text.toList) {e : Expression}
    (hcase : e.caseSensitive = true) {result : Option String}
    (hresult : (e.replaceAll text mapping).outcome = .ok result) : result = none := by
  rw [Expression.replaceAll, hcase] at hresult
  split at hresult
  · exact (Except.ok.inj hresult).symm
  · split at hresult
    · obtain ⟨matcher, -, hresult⟩ := Traced.bind_eq_ok hresult
      rw [h.replaceCaptures] at hresult
      exact (Except.ok.inj hresult).symm
    · obtain ⟨matcher, -, hresult⟩ := Traced.bind_eq_ok hresult
      rw [h.replaceConsumed] at hresult
      exact (Except.ok.inj hresult).symm
    · obtain ⟨levels, -, hresult⟩ := Traced.bind_eq_ok hresult
      obtain ⟨inner, -, hresult⟩ := Traced.bind_eq_ok hresult
      simp only [h.replaceInRegions] at hresult
      exact (Except.ok.inj hresult).symm

end Mapping.AbsentFrom

/-- `rename.Runs`: no expression for its options fails on any text. -/
def Rename.Runs (rename : Rename) : Prop :=
  ∀ e : Expression, e.Implements rename.options → ∀ text,
    ∃ result, (e.replaceAll text rename.mapping).outcome = .ok result

namespace Plugin

variable {p : Plugin} {renames : List Rename} {document : Document}

/-- A document in which no key occurs is settled, for all intents but that for names of attributes.
-/
theorem settled_of_absentFrom (hoptions : ∀ rename ∈ renames, rename.options ≠ .attributes)
    (hruns : ∀ rename ∈ renames, rename.Runs)
    (habsent : ∀ rename ∈ renames, rename.mapping.AbsentFrom document.content.toList) :
    p.Settled renames document := by
  refine settled_of_replaceAll fun rename hrename e he _ => ?_
  obtain ⟨result, hresult⟩ := hruns rename hrename e he document.content
  have hcase := he.caseSensitive (hoptions rename hrename)
  rw [hresult, (habsent rename hrename).replaceAll hcase hresult]

/-- Style sheets and scripts have no embedded code of their own. -/
theorem outcome_embeds_embed (e : Embed) : (builtin.embeds e.document).outcome = .ok [] := by
  rw [Embed.document]
  cases e.kind <;> rfl

/-- Nothing is embedded in the code that is embedded in a document. -/
theorem Within.eq_of_embed {inner : Document} {e : Embed} (h : builtin.Within inner e.document) :
    inner = e.document := by
  rcases Relation.ReflTransGen.cases_tail h with rfl | ⟨middle, -, hembedded⟩
  · rfl
  · obtain ⟨embeds, hembeds, e', he', -⟩ := hembedded
    obtain rfl := Except.ok.inj (hembeds.symm.trans (outcome_embeds_embed e))
    cases he'

/-- What is embedded in markup is found there by a locator. -/
theorem Within.cases {inner : Document} (h : builtin.Within inner document) :
    inner = document ∨ ∃ e, document.Holds e ∧ inner = e.document := by
  rcases Relation.ReflTransGen.cases_tail h with rfl | ⟨middle, hinner, hembedded⟩
  · exact .inl rfl
  · obtain ⟨embeds, hembeds, e, he, rfl⟩ := hembedded
    obtain ⟨embeds', hembeds', hheld⟩ := embeds_located document builtin
    obtain rfl := Except.ok.inj (hembeds.symm.trans hembeds')
    exact .inr ⟨e, hheld e he, Within.eq_of_embed hinner⟩

end Plugin

/-- Only declarations of `style` attributes are handed out with more than the host has. -/
theorem Document.Holds.content_isInfix {document : Document} {e : Embed} (h : document.Holds e) :
    e.content.toList <:+: document.content.toList ∨
      e ∈ Locator.styleAttribute.find document.content := by
  obtain ⟨locator, he⟩ := h
  cases locator with
  | styleTag =>
    have hstands := Locator.standsIn_of_mem_find he
    obtain ⟨⟨raw, start⟩, -, rfl⟩ := List.mem_map.mp he
    exact .inl (Span.infix_of_slice? hstands)
  | styleAttribute => exact .inr he
  | scriptTag =>
    have hstands := Locator.standsIn_of_mem_find he
    obtain ⟨⟨raw, start⟩, -, rfl⟩ := List.mem_map.mp he
    exact .inl (Span.infix_of_slice? hstands)

namespace Plugin

/-- **A document that mentions no key is left as it is.** Let no key of the renames occur in a text,
nor in the declarations of its `style` attributes as they are handed out, inside their rule. If the
renames do not fail and mind case, renaming the text as markup yields the text. -/
theorem rename_of_absent_keys (text : String) (renames : List Rename)
    (hoptions : ∀ rename ∈ renames, rename.options ≠ .attributes)
    (hruns : ∀ rename ∈ renames, rename.Runs)
    (htext : ∀ rename ∈ renames, rename.mapping.AbsentFrom text.toList)
    (hstyles : ∀ e ∈ Locator.styleAttribute.find text, ∀ rename ∈ renames,
      rename.mapping.AbsentFrom e.content.toList) :
    (builtin.rename renames ⟨"html", text⟩).outcome = .ok text := by
  refine rename_of_settled fun inner hinner => settled_of_absentFrom hoptions hruns ?_
  intro rename hrename
  rcases Within.cases hinner with rfl | ⟨e, hheld, rfl⟩
  · exact htext rename hrename
  · rcases hheld.content_isInfix with hpart | hstyle
    · exact (htext rename hrename).of_part hpart
    · exact hstyles e hstyle rename hrename

end Plugin

/-! ### Expressions that run -/

section

open Fragment

theorem toList_jsStringContent : jsStringContent.toList =
    "\"(?P<main_1>(?:[^\"\\\\\\n]|\\\\.)*?(?:%s)(?:[^\"\\\\\\n]|\\\\.)*)\"".toList ++
      "|'(?P<main_2>(?:[^'\\\\\\n]|\\\\.)*?(?:%s)(?:[^'\\\\\\n]|\\\\.)*)'".toList ++
      "|`(?P<main_3>(?:[^`\\\\]|\\\\(?s:.))*?(?:%s)(?:[^`\\\\]|\\\\(?s:.))*)`".toList := by
  have hsplit : ∀ a b c : String, (a ++ b ++ c).toList = a.toList ++ b.toList ++ c.toList := by
    simp [String.toList_append]
  exact hsplit _ _ _

theorem toList_jsStringLiterals : jsStringLiterals.toList = jsComment.toList ++ "|".toList ++
    jsStringContent.toList ++ "|".toList ++ jsString.toList := by
  have hsplit : ∀ a b c d : String, (a ++ b ++ c ++ b ++ d).toList =
      a.toList ++ b.toList ++ c.toList ++ b.toList ++ d.toList := by
    simp [String.toList_append]
  exact hsplit _ _ _ _

theorem toList_jsString :
    jsString.toList = cssString.toList ++ "|`(?:[^`\\\\]|\\\\(?s:.))*`".toList :=
  String.toList_append

set_option maxRecDepth 8000 in
theorem exists_spells?_literals (mapping : Mapping) :
    ∃ p, Template.spells? jsStringLiterals.toList mapping = some p := by
  rw [toList_jsStringLiterals, toList_jsStringContent, toList_jsString]
  exact ⟨_, rfl⟩

set_option maxRecDepth 8000 in
theorem hasSlot_literals : hasSlot jsStringLiterals.toList = true := by
  rw [toList_jsStringLiterals, toList_jsStringContent, toList_jsString]
  rfl

/-- The expression for pseudo-classes in selectors inside string literals. -/
theorem exists_pseudoExpression : ∃ e levels inner,
    Js.querySelectors ⟨some ":", none⟩ = .ok [e] ∧ e.Spells levels inner := by
  have hfront : Fragment.optional (some ":") = "(?::)" := by decide
  have hselector : ∀ mapping : Mapping,
      ∃ p, Template.spells? (selector "(?::)" "").toList mapping = some p := fun _ => ⟨_, rfl⟩
  choose outer houter using exists_spells?_literals
  choose inner hinner using hselector
  unfold Js.querySelectors
  simp only [hfront]
  obtain ⟨e, he, hspells⟩ := exists_nested hasSlot_literals rfl houter hinner
  exact ⟨e, _, _, he, hspells⟩

end

/-- Renames run if the templates of their expressions spell patterns. -/
theorem Rename.runs_of_spells {rename : Rename} (hplain : rename.options.Plain)
    (hne : rename.mapping ≠ []) (h : ∀ (grammar : Grammar) (es : List Expression),
      grammar.expressions rename.options = .ok es →
      ∀ e ∈ es, ∃ levels inner, e.Spells levels inner) : rename.Runs := by
  rintro e ⟨grammar, es, hes, he⟩ text
  obtain ⟨levels, inner, hspells⟩ := h grammar es hes e he
  have hregular := grammar.expressions_ensures hplain es hes e he
  exact ⟨_, (hspells.run hregular hne text).2⟩

/-- Renaming pseudo-classes never fails. -/
theorem runs_pseudo {mapping : Mapping} (hne : mapping ≠ []) :
    Rename.Runs ⟨.querySelectors ⟨some ":", none⟩, mapping⟩ := by
  refine Rename.runs_of_spells ⟨by decide, rfl⟩ hne fun grammar es hes e he => ?_
  cases grammar with
  | css =>
    obtain ⟨e', he', hspells⟩ := Css.exists_markedExpression Css.colon_mem_marks
    obtain rfl := Except.ok.inj (he'.symm.trans hes)
    obtain rfl := List.mem_singleton.mp he
    exact ⟨_, _, hspells⟩
  | js =>
    obtain ⟨e', levels, inner, he', hspells⟩ := exists_pseudoExpression
    obtain rfl := Except.ok.inj (he'.symm.trans hes)
    obtain rfl := List.mem_singleton.mp he
    exact ⟨levels, inner, hspells⟩
  | html | none =>
    obtain rfl := Except.ok.inj hes
    cases he

/-! ### The selector of a rule that nobody wrote -/

theorem Expression.outcome_replaceEach_singleton {e : Expression} {text : String}
    {mapping : Mapping} {result : Option String}
    (h : (e.replaceAll text mapping).outcome = .ok result) :
    (replaceEach [e] text mapping).outcome = .ok (result.getD text) := by
  simp only [replaceEach, List.foldlM_cons, List.foldlM_nil, bind_pure]
  rw [Traced.outcome_bind, h]
  rfl

theorem Locator.outcome_locate (locator : Locator) (host : String) :
    (locator.locate host).outcome = .ok (locator.find host) := by
  unfold locate
  rw [Traced.outcome_bind]
  rfl

/-- What a family finds in a document of its own, place by place. -/
theorem Family.outcome_embeds (f : Family) (document : Document) : (f.embeds document).outcome =
    .ok (if f.languages.contains document.kind = true then
      f.locators.flatMap fun locator => locator.find document.content else []) := by
  have hfound : (f.locators.mapM fun locator : Locator =>
      locator.locate document.content).outcome =
        .ok (f.locators.map fun locator => locator.find document.content) :=
    Traced.outcome_mapM_of_ok fun locator _ => locator.outcome_locate document.content
  unfold embeds
  split
  · rw [Traced.outcome_bind, hfound, List.flatMap_def]
    rfl
  · rfl

theorem Family.outcome_embeds_of_notMem {f : Family} {document : Document}
    (h : document.kind ∉ f.languages) : (f.embeds document).outcome = .ok [] := by
  rw [outcome_embeds, if_neg (by simpa using h)]

namespace Plugin

variable {p : Plugin} {document : Document}

theorem outcome_embedsOfAll_nil : (embedsOfAll document []).outcome = .ok [] := by
  rw [embedsOfAll]
  rfl

theorem outcome_embedsOfAll_cons {f : Family} {rest : List Plugin}
    {found others : List Embed} (h : (f.embeds document).outcome = .ok found)
    (hrest : (embedsOfAll document rest).outcome = .ok others) :
    (embedsOfAll document (.family f :: rest)).outcome = .ok (found ++ others) := by
  rw [embedsOfAll, embeds, Traced.outcome_bind, h]
  refine (Traced.outcome_bind _ _).trans ?_
  rw [hrest]
  rfl

/-- The code embedded in markup, place by place. -/
theorem outcome_embeds_markup (text : String) : (builtin.embeds ⟨"html", text⟩).outcome =
    .ok ([.styleTag, .styleAttribute, .scriptTag].flatMap fun locator : Locator =>
      locator.find text) := by
  have hcss : "html" ∉ (Family.css .default).languages := by decide
  have hjs : "html" ∉ (Family.js .default).languages := by decide
  have hhtml : (Family.html .default).languages.contains "html" = true := by decide
  have hlocators : (Family.html .default).locators = [.styleTag, .styleAttribute, .scriptTag] := by
    decide
  have hmarkup := (Family.html .default).outcome_embeds ⟨"html", text⟩
  rw [if_pos hhtml, hlocators] at hmarkup
  have hall := outcome_embedsOfAll_cons (Family.outcome_embeds_of_notMem hcss)
    (outcome_embedsOfAll_cons hmarkup (outcome_embedsOfAll_cons
      (Family.outcome_embeds_of_notMem hjs) (outcome_embedsOfAll_nil)))
  rw [builtin, embeds, hall, List.nil_append, List.append_nil, List.append_nil]

/-- The expressions of the usual plugins for style sheets and for markup. -/
theorem exists_expressions_builtin (options : Options) {styles markup : List Expression}
    (hstyles : Css.expressions options = .ok styles)
    (hmarkup : Html.expressions options = .ok markup) :
    ∃ set, (builtin.expressions options).outcome = .ok set ∧ set.lookup "css" = some styles ∧
      set.lookup "html" = some markup := by
  obtain ⟨scripts, hscripts, -⟩ := Grammar.js.expressions_resolves options
  refine ⟨[("css", styles), ("html", markup), ("htm", markup), ("js", scripts), ("cjs", scripts),
    ("mjs", scripts)], ?_, rfl, rfl⟩
  have hcss : Grammar.css.expressions options = .ok styles := hstyles
  have hhtml : Grammar.html.expressions options = .ok markup := hmarkup
  simp only [builtin, expressions, expressionsFrom, expressionsOfAll, Family.expressions,
    Family.build, Family.css, Family.html,
    Family.js, Traced.outcome_bind, hcss, hhtml, hscripts, Traced.ofExcept]
  rfl

/-- Renaming with one rename, once it is known what it makes of the embedded code and which
expressions there are. -/
theorem outcome_renameTo_singleton {rename : Rename} {depth : Nat} {embeds : List Embed}
    {set : ExpressionSet} (texts : Embed → String)
    (hembeds : (p.embeds document).outcome = .ok embeds)
    (hinner : ∀ e ∈ embeds, (p.renameTo [rename] depth e.document).outcome = .ok (texts e))
    (hset : (p.expressions rename.options).outcome = .ok set) :
    (p.renameTo [rename] (depth + 1) document).outcome =
      (Expression.replaceEach ((set.lookup document.kind).getD [])
        (spliceEmbeds document.content (embeds.map fun e => e.withContent (texts e)))
        rename.mapping).outcome := by
  rw [outcome_renameTo hembeds hinner]
  simp only [List.foldlM_cons, List.foldlM_nil, bind_pure]
  rw [applyRename, Traced.outcome_bind, hset]
  rfl

def declarations : Embed :=
  .wrapped .css "a:b" 10 Locator.styleAttributeWrapper

theorem find_styleAttribute : Locator.styleAttribute.find "<p style=\"a:b\">" = [declarations] := by
  rw [Locator.find, Locator.styleAttributes, Locator.contents_eq (by decide +kernel)]
  decide +kernel

theorem outcome_embeds_declarations :
    (builtin.embeds ⟨"html", "<p style=\"a:b\">"⟩).outcome = .ok [declarations] := by
  have hstyles : Locator.styleTag.find "<p style=\"a:b\">" = [] := by
    rw [Locator.find, Locator.elementBodies, Locator.contents_eq (by decide +kernel)]
    decide +kernel
  have hscripts : Locator.scriptTag.find "<p style=\"a:b\">" = [] := by
    rw [Locator.find, Locator.elementBodies, Locator.contents_eq (by decide +kernel)]
    decide +kernel
  rw [outcome_embeds_markup, List.flatMap_cons, List.flatMap_cons, List.flatMap_cons,
    List.flatMap_nil, hstyles, find_styleAttribute, hscripts]
  rfl

/-- A `style` attribute, with a key that occurs neither in it nor in the selector of its rule. -/
theorem rename_of_absent_keys_in_style :
    Rename.Runs ⟨.querySelectors ⟨some ":", none⟩, [("k", "x")]⟩ ∧
    Mapping.AbsentFrom [("k", "x")] "<p style=\"a:b\">".toList ∧
    (∀ e ∈ Locator.styleAttribute.find "<p style=\"a:b\">",
      Mapping.AbsentFrom [("k", "x")] e.content.toList) ∧
    (builtin.rename [⟨.querySelectors ⟨some ":", none⟩, [("k", "x")]⟩]
      ⟨"html", "<p style=\"a:b\">"⟩).outcome = .ok "<p style=\"a:b\">" := by
  have hruns : Rename.Runs ⟨.querySelectors ⟨some ":", none⟩, [("k", "x")]⟩ :=
    runs_pseudo (by decide)
  have htext : Mapping.AbsentFrom [("k", "x")] "<p style=\"a:b\">".toList := by decide
  have hstyles : ∀ e ∈ Locator.styleAttribute.find "<p style=\"a:b\">",
      Mapping.AbsentFrom [("k", "x")] e.content.toList := by
    rw [find_styleAttribute]
    exact List.forall_mem_singleton.mpr (by decide)
  refine ⟨hruns, htext, hstyles, rename_of_absent_keys _ _ ?_ ?_ ?_ ?_⟩
  · exact List.forall_mem_singleton.mpr (by simp)
  · exact List.forall_mem_singleton.mpr hruns
  · exact List.forall_mem_singleton.mpr htext
  · exact fun e he => List.forall_mem_singleton.mpr (hstyles e he)

theorem outcome_replaceAll_root {e : Expression}
    (he : Css.querySelectors ⟨some ":", none⟩ = .ok [e]) (hspells : e.Spells (fun _ => [])
      fun mapping => .choice (Css.markedPattern ':' mapping.keyPattern) Css.skipped) :
    (e.replaceAll ":root\x7ba:b\x7d" [("root", "x")]).outcome = .ok (some ":x\x7ba:b\x7d") := by
  have hplain : Options.Plain (.querySelectors ⟨some ":", none⟩) := ⟨by decide, rfl⟩
  have hregular : e.Regular := Grammar.css.expressions_ensures hplain _ he e List.mem_cons_self
  have hne : ([("root", "x")] : Mapping) ≠ [] := by decide
  have hkeys : Mapping.Identifiers [("root", "x")] := by decide
  have hpattern : (Css.marked hne hkeys ':').pattern =
      .choice (Css.markedPattern ':' (.spelled (.initial false) "root".toList))
        Css.skipped := by
    rw [← Mapping.keyPattern_singleton "root" "x"]
    rfl
  have hspans : (Css.marked hne hkeys ':').matcher.captureSpans ":root\x7ba:b\x7d".toList =
      [⟨1, 5⟩] := by
    rw [Flanked.captureSpans_eq_trace hpattern rfl]
    decide +kernel
  have hfound : Matcher.occurrences [(Css.marked hne hkeys ':').matcher]
      ":root\x7ba:b\x7d".toList = [⟨1, 5⟩] :=
    (Matcher.occurrences_singleton (Flanked.compiled _)).trans hspans
  have hroot : (⟨1, 5⟩ : Span).slice? ":root\x7ba:b\x7d".toList = some "root".toList := by decide
  have hedits : [⟨1, 5⟩].filterMap ((Lookup.ofMapping [("root", "x")] true).edit?
      ":root\x7ba:b\x7d".toList) = [⟨⟨1, 5⟩, ['x']⟩] := by
    rw [List.filterMap_cons, Lookup.edit?_of_slice? hroot]
    rfl
  have hpatched : Patched 0 ":root\x7ba:b\x7d".toList [⟨⟨1, 5⟩, ['x']⟩]
      ":x\x7ba:b\x7d".toList :=
    @Patched.edit 0 [':'] "root".toList "\x7ba:b\x7d".toList _ [] ['x'] (.kept _ _)
  exact hspells.outcome_replaceAll hregular hne hfound hedits hpatched

/-- A key that does not occur in a text is found in the selector of the rule around the declarations
of a `style` attribute, and the rule stays. -/
theorem rule_of_style_renamed :
    Rename.Runs ⟨.querySelectors ⟨some ":", none⟩, [("root", "x")]⟩ ∧
    Mapping.AbsentFrom [("root", "x")] "<p style=\"a:b\">".toList ∧
    (builtin.rename [⟨.querySelectors ⟨some ":", none⟩, [("root", "x")]⟩]
      ⟨"html", "<p style=\"a:b\">"⟩).outcome = .ok "<p style=\":x\x7ba:b\x7d\">" := by
  refine ⟨runs_pseudo (by decide), by decide, ?_⟩
  obtain ⟨e, he, hspells⟩ := Css.exists_markedExpression Css.colon_mem_marks
  obtain ⟨set, hset, hcss, hhtml⟩ := exists_expressions_builtin
    (.querySelectors ⟨some ":", none⟩) he rfl
  have hinner : ∀ embed ∈ [declarations], (builtin.renameTo
      [⟨.querySelectors ⟨some ":", none⟩, [("root", "x")]⟩] 15 embed.document).outcome =
        .ok ":x\x7ba:b\x7d" := by
    refine List.forall_mem_singleton.mpr ?_
    have hcontent : declarations.document = ⟨"css", ":root\x7ba:b\x7d"⟩ := by decide
    have hstyle : (builtin.renameTo [⟨.querySelectors ⟨some ":", none⟩, [("root", "x")]⟩] 15
        declarations.document).outcome = _ :=
      outcome_renameTo_singleton (fun e => e.content) (outcome_embeds_embed declarations)
        (List.forall_mem_nil _) hset
    rw [List.map_nil, spliceEmbeds_of_standsIn (List.forall_mem_nil _), hcontent, hcss,
      Option.getD_some,
      Expression.outcome_replaceEach_singleton (outcome_replaceAll_root he hspells)] at hstyle
    rw [hcontent]
    exact hstyle
  have hsplice : spliceEmbeds "<p style=\"a:b\">" [declarations.withContent ":x\x7ba:b\x7d"] =
      "<p style=\":x\x7ba:b\x7d\">" := by
    rw [spliceEmbeds, List.mergeSort_singleton]
    decide
  have houter := outcome_renameTo_singleton (fun _ => ":x\x7ba:b\x7d")
    outcome_embeds_declarations hinner hset
  rw [hhtml, List.map_singleton, hsplice] at houter
  exact houter

end Plugin

end Relabel
