import Relabel.Proofs.WritingBack

/-!
# Where embedded code lies

Matches of a pattern are looked for one behind the other, and a group records a place inside its
match. So the places that one locator finds follow one another in the host. Places that two locators
find may overlap: the value of a `style` attribute lies inside the body of a script if the script
has markup in it. Writing back unchanged code restores the host all the same.
-/

namespace Relabel

namespace Program

variable {p : Pattern}

/-- **Successive matches follow one another.** The induction is on the fuel. What is found later
begins behind the position where the search resumed, which is the end of the first match. -/
theorem matchesFrom_pairwise {fuel : Nat} {c : Cursor} {lastStop : Option Nat} :
    ((ofPattern p).matchesFrom fuel c lastStop).Pairwise fun m n => m.span.stop ≤ n.span.start := by
  induction fuel generalizing c lastStop with
  | zero => exact .nil
  | succ fuel ih =>
    rw [matchesFrom]
    split
    · exact .nil
    · rename_i first _
      split
      · split
        · exact ih
        · exact .nil
      · split
        · rename_i d hseek
          refine .cons ?_ ih
          intro found hfound
          obtain ⟨e, stop, hreaches, -, hspan⟩ := matchesFrom_sound found hfound
          have hoffset : d.offset = first.span.stop := (Cursor.seek?_reaches hseek).2
          rw [hspan, ← hoffset]
          exact hreaches.offset_le
        · exact List.pairwise_singleton _ _

/-- What groups record lies inside the match. -/
theorem group_within_match {text : List Char} {found : Match} {groups : List Nat} {s : Span}
    (hfound : found ∈ (ofPattern p).allMatches text)
    (hs : groups.findSome? found.group? = some s) :
    found.span.start ≤ s.start ∧ s.stop ≤ found.span.stop := by
  obtain ⟨e, d, -, hmatches, hspan⟩ := allMatches_sound found hfound
  rcases Matcher.firstGroup?_mem hs with ⟨-, rfl⟩ | ⟨index, -, hrecorded⟩
  · exact ⟨Nat.le_refl _, Nat.le_refl _⟩
  · obtain ⟨hstart, -, hstop⟩ := (hmatches.records _ hrecorded).bounds
    rw [hspan]
    exact ⟨hstart, hstop⟩

end Program

namespace Locator

variable {pattern : String} {groups : List Nat} {host : List Char}

/-- A text of a match stands at the place that the groups recorded, which is not empty. -/
theorem span_of_content {found : Match} {raw : String} {start : Nat}
    (h : (do
      let span ← groups.findSome? found.group?
      if span.isEmpty then none
      else
        let text ← span.slice? host
        return (String.ofList text, span.start)) = some (raw, start)) :
    ∃ s, groups.findSome? found.group? = some s ∧ s.start = start ∧
      s.stop = start + raw.utf8ByteSize ∧ s.start < s.stop := by
  obtain ⟨s, hs, h⟩ := Option.bind_eq_some_iff.mp h
  split at h
  · cases h
  · rename_i hempty
    obtain ⟨text, hslice, hraw⟩ := Option.bind_eq_some_iff.mp h
    obtain ⟨rfl, rfl⟩ := Prod.mk.inj (Option.some.inj hraw)
    obtain ⟨hle, -, hstop⟩ := Span.stop_le_of_slice? hslice
    have hne : s.start ≠ s.stop := by
      intro heq
      exact hempty (by simp [Span.isEmpty, heq])
    refine ⟨s, hs, rfl, ?_, by omega⟩
    rw [← byteSize_toList, String.toList_ofList]
    exact hstop

/-- No empty text is listed. -/
theorem pos_of_mem_contents {raw : String} {start : Nat}
    (h : (raw, start) ∈ contents pattern groups host) : 0 < raw.utf8ByteSize := by
  unfold contents at h
  split at h
  · cases h
  · obtain ⟨found, -, hcontent⟩ := List.mem_filterMap.mp h
    obtain ⟨s, -, hstart, hstop, hlt⟩ := span_of_content hcontent
    omega

/-- Texts of successive matches follow one another. -/
theorem contents_pairwise : (contents pattern groups host).Pairwise fun a b =>
    a.2 + a.1.utf8ByteSize ≤ b.2 := by
  unfold contents
  split
  · exact .nil
  · rename_i p _
    have hpairwise : ((Program.ofPattern p).allMatches host).Pairwise fun m n =>
        m.span.stop ≤ n.span.start := Program.matchesFrom_pairwise
    rw [List.pairwise_filterMap]
    refine hpairwise.imp_of_mem ?_
    rintro m n hm hn hmn ⟨raw, start⟩ hraw ⟨raw', start'⟩ hraw'
    obtain ⟨s, hs, hstart, hstop, -⟩ := span_of_content hraw
    obtain ⟨s', hs', hstart', -, -⟩ := span_of_content hraw'
    have hbefore := (Program.group_within_match hm hs).2
    have hbehind := (Program.group_within_match hn hs').1
    dsimp only
    omega

end Locator

namespace Embed

/-- `e.CutFrom host`: the host falls into a text, the raw text of the embed and another text, and
the span of the embed is that of the middle one. -/
def CutFrom (e : Embed) (host : String) : Prop :=
  ∃ before after, host = before ++ e.raw ++ after ∧ e.span.start = before.utf8ByteSize ∧
    e.span.stop = (before ++ e.raw).utf8ByteSize

/-- An embed that stands in a host is cut from it. -/
theorem StandsIn.cutFrom {e : Embed} {host : String} (h : e.StandsIn host) : e.CutFrom host := by
  obtain ⟨front, back, htext, hstart, hstop⟩ := Span.slice?_eq_some_iff.mp h
  have hbefore : (String.ofList front).utf8ByteSize = byteSize front := by
    rw [← byteSize_toList, String.toList_ofList]
  refine ⟨String.ofList front, String.ofList back, ?_, ?_, ?_⟩
  · rw [← String.toList_inj, htext]
    simp
  · rw [hbefore]
    exact hstart
  · rw [String.utf8ByteSize_append, hbefore, ← byteSize_toList e.raw]
    omega

/-- `e.Precedes f`: one embed ends before the other one begins. -/
def Precedes (e f : Embed) : Prop :=
  e.span.start < f.span.start ∧ e.span.stop ≤ f.span.start

end Embed

namespace Locator

/-- What a locator finds is, up to a kind and a wrapper, the texts of a pattern. -/
theorem exists_contents (locator : Locator) (host : String) :
    ∃ (pattern : String) (groups : List Nat) (embed : String × Nat → Embed),
      locator.find host = (contents pattern groups host.toList).map embed ∧
      ∀ raw start, (embed (raw, start)).span = ⟨start, start + raw.utf8ByteSize⟩ := by
  cases locator with
  | styleTag => exact ⟨_, _, _, rfl, fun _ _ => rfl⟩
  | styleAttribute => exact ⟨_, _, _, rfl, fun _ _ => rfl⟩
  | scriptTag => exact ⟨_, _, _, rfl, fun _ _ => rfl⟩

/-- What a locator finds is not empty. -/
theorem start_lt_stop_of_mem_find {locator : Locator} {host : String} {e : Embed}
    (h : e ∈ locator.find host) : e.span.start < e.span.stop := by
  obtain ⟨pattern, groups, embed, hfind, hspan⟩ := locator.exists_contents host
  rw [hfind] at h
  obtain ⟨⟨raw, start⟩, hraw, rfl⟩ := List.mem_map.mp h
  have hpos := pos_of_mem_contents hraw
  rw [hspan]
  dsimp only
  omega

/-- The embeds that one locator finds follow one another. -/
theorem find_pairwise (locator : Locator) (host : String) :
    (locator.find host).Pairwise Embed.Precedes := by
  obtain ⟨pattern, groups, embed, hfind, hspan⟩ := locator.exists_contents host
  rw [hfind, List.pairwise_map]
  refine contents_pairwise.imp_of_mem ?_
  rintro ⟨raw, start⟩ ⟨raw', start'⟩ hraw - hle
  have hpos := pos_of_mem_contents hraw
  rw [Embed.Precedes, hspan, hspan]
  dsimp only at hle ⊢
  omega

end Locator

/-- **Embedded code lies where it is said to lie, and unchanged code is written back as it was.**
Every locator succeeds on every host. What it finds is not empty, is cut from the host at character
boundaries, and comes in strictly increasing order without overlap. Embeds of any locators, in any
order and however often, leave the host as it is when they are written back. -/
theorem located_embeds_cut_from_host (host : String) :
    (∀ locator : Locator, ∃ embeds, (locator.locate host).outcome = .ok embeds ∧
      (∀ e ∈ embeds, e.span.start < e.span.stop ∧ e.span.stop ≤ host.utf8ByteSize ∧
        e.CutFrom host) ∧ embeds.Pairwise Embed.Precedes) ∧
    ∀ embeds : List Embed, (∀ e ∈ embeds, ∃ (locator : Locator) (found : List Embed),
      (locator.locate host).outcome = .ok found ∧ e ∈ found) → spliceEmbeds host embeds = host := by
  constructor
  · intro locator
    refine ⟨locator.find host, rfl, ?_, locator.find_pairwise host⟩
    intro e he
    have hcut : e.CutFrom host := (Locator.standsIn_of_mem_find he).cutFrom
    refine ⟨Locator.start_lt_stop_of_mem_find he, ?_, hcut⟩
    obtain ⟨before, after, hhost, -, hstop⟩ := hcut
    rw [hhost, String.utf8ByteSize_append]
    omega
  · intro embeds hembeds
    refine spliceEmbeds_of_standsIn fun e he => ?_
    obtain ⟨locator, found, hfound, hmem⟩ := hembeds e he
    obtain rfl : locator.find host = found := Except.ok.inj hfound
    exact Locator.standsIn_of_mem_find hmem

namespace Locator

/-- A script that has markup with a `style` attribute in it. -/
def nestedHost : String :=
  "<script><p style='é'></script>"

def nestedScript : Embed :=
  .plain .js "<p style='é'>" 8

def nestedStyle : Embed :=
  .wrapped .css "é" 18 styleAttributeWrapper

theorem find_nestedScript : scriptTag.find nestedHost = [nestedScript] := by
  rw [find, elementBodies, contents_eq (by decide +kernel)]
  decide +kernel

theorem find_nestedStyle : styleAttribute.find nestedHost = [nestedStyle] := by
  rw [find, styleAttributes, contents_eq (by decide +kernel)]
  decide +kernel

/-- Overlapping embeds of two locators, one of them twice and in no order. -/
theorem spliceEmbeds_nestedHost :
    (scriptTag.locate nestedHost).outcome = .ok [nestedScript] ∧
    (styleAttribute.locate nestedHost).outcome = .ok [nestedStyle] ∧
    spliceEmbeds nestedHost [nestedStyle, nestedScript, nestedStyle] = nestedHost := by
  have hscript : (scriptTag.locate nestedHost).outcome = .ok [nestedScript] :=
    congrArg Except.ok find_nestedScript
  have hstyle : (styleAttribute.locate nestedHost).outcome = .ok [nestedStyle] :=
    congrArg Except.ok find_nestedStyle
  refine ⟨hscript, hstyle, (located_embeds_cut_from_host nestedHost).2 _ ?_⟩
  intro e he
  simp only [List.mem_cons, List.not_mem_nil, or_false] at he
  rcases he with rfl | rfl | rfl
  · exact ⟨_, _, hstyle, List.mem_singleton_self _⟩
  · exact ⟨_, _, hscript, List.mem_singleton_self _⟩
  · exact ⟨_, _, hstyle, List.mem_singleton_self _⟩

end Locator

end Relabel
