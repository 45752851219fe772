import Mathlib.Data.List.Infix
import Relabel.Proofs.EmbedSize
import Relabel.Proofs.Finding

/-!
# Writing embedded code back

Embedded code remembers the span it was found at. What stands there is its raw text, also if it is
handed out inside a wrapper. So writing back code that was not changed restores the host, whatever
the order of the embeds and whether or not they overlap: an embed that is left out is none the less
in its place.
-/

namespace Relabel

/-! ### Edits that change nothing -/

/-- `e.Restores text`: the edit puts the text that stands at its span back in its place. -/
def Edit.Restores (e : Edit) (text : List Char) : Prop :=
  e.span.slice? text = some e.text

/-- Edits that change nothing, from any byte on, change nothing. -/
theorem spliceFrom_of_restores (front rest : List Char) {edits : List Edit}
    (h : ∀ e ∈ edits, e.Restores (front ++ rest)) :
    (spliceFrom (byteSize front) rest edits).text = rest := by
  induction edits generalizing front rest with
  | nil => rfl
  | cons e edits ih =>
    obtain ⟨hfirst, hothers⟩ := List.forall_mem_cons.mp h
    rw [spliceFrom]
    split
    · rename_i gap old back hcut
      obtain ⟨rfl, hstart, hstop⟩ := Span.cut?_eq_some_iff.mp hcut
      have hslice : e.span.slice? (front ++ (gap ++ (old ++ back))) = some old :=
        Span.slice?_eq_some_iff.mpr ⟨front ++ gap, back, by simp, by simpa using hstart, hstop⟩
      have hold : e.text = old := Option.some.inj (hfirst.symm.trans hslice)
      have hbase : e.span.stop = byteSize (front ++ (gap ++ old)) := by
        simp only [byteSize_append]
        omega
      have hback := ih (front ++ (gap ++ old)) back (by simpa using hothers)
      simp only [hbase, hback, hold, List.append_assoc]
    · exact ih front rest hothers

/-- Splicing edits that change nothing changes nothing. -/
theorem splice_of_restores {text : List Char} {edits : List Edit}
    (h : ∀ e ∈ edits, e.Restores text) : (splice text edits).text = text :=
  spliceFrom_of_restores [] text h

/-! ### Where embedded code stands -/

namespace Embed

/-- `e.StandsIn host`: the raw text of the embed is what the host has at its span. -/
def StandsIn (e : Embed) (host : String) : Prop :=
  e.span.slice? host.toList = some e.raw.toList

@[simp] theorem raw_plain (kind : EmbedKind) (raw : String) (start : Nat) :
    (plain kind raw start).raw = raw :=
  rfl

/-- The raw text of an embed is what stands inside its wrapper. -/
@[simp] theorem raw_wrapped (kind : EmbedKind) (raw : String) (start : Nat) (wrapper : Wrapper) :
    (wrapped kind raw start wrapper).raw = raw := by
  have hfront : wrapper.front.toList.isPrefixOf? (wrapper.front ++ raw ++ wrapper.back).toList =
      some (raw.toList ++ wrapper.back.toList) :=
    List.isPrefixOf?_eq_some_iff_append_eq.mpr (by simp)
  have hback : wrapper.back.toList.isSuffixOf? (raw.toList ++ wrapper.back.toList) =
      some raw.toList :=
    List.isSuffixOf?_eq_some_iff_append_eq.mpr rfl
  simp only [Embed.raw, wrapped, hfront, hback, String.ofList_toList]

theorem withContent_content (e : Embed) : e.withContent e.content = e :=
  rfl

end Embed

/-- Writing back embeds that were not changed restores the host. -/
theorem spliceEmbeds_of_standsIn {host : String} {embeds : List Embed}
    (h : ∀ e ∈ embeds, e.StandsIn host) : spliceEmbeds host embeds = host := by
  have hrestores : ∀ edit ∈ (embeds.mergeSort Embed.le).map fun e => Edit.mk e.span e.raw.toList,
      edit.Restores host.toList := by
    intro edit hedit
    obtain ⟨e, he, rfl⟩ := List.mem_map.mp hedit
    exact h e (List.mem_mergeSort.mp he)
  rw [spliceEmbeds, splice_of_restores hrestores, String.ofList_toList]

namespace Locator

/-- What is listed is the slice of the host at its offset. -/
theorem slice?_of_mem_contents {pattern : String} {groups : List Nat} {host : List Char}
    {raw : String} {start : Nat} (h : (raw, start) ∈ contents pattern groups host) :
    Span.slice? host ⟨start, start + raw.utf8ByteSize⟩ = some raw.toList := by
  unfold contents at h
  split at h
  · cases h
  · obtain ⟨found, -, htext⟩ := List.mem_filterMap.mp h
    obtain ⟨span, -, htext⟩ := Option.bind_eq_some_iff.mp htext
    split at htext
    · cases htext
    · obtain ⟨text, hslice, hraw⟩ := Option.bind_eq_some_iff.mp htext
      obtain ⟨rfl, rfl⟩ := Prod.mk.inj (Option.some.inj hraw)
      have hstop := (Span.stop_le_of_slice? hslice).2.2
      rw [← byteSize_toList, String.toList_ofList, ← hstop]
      exact hslice

/-- Whatever a locator finds stands where it says. -/
theorem standsIn_of_mem_find {locator : Locator} {host : String} {e : Embed}
    (h : e ∈ locator.find host) : e.StandsIn host := by
  cases locator with
  | styleTag =>
    obtain ⟨⟨raw, start⟩, hraw, rfl⟩ := List.mem_map.mp h
    exact slice?_of_mem_contents hraw
  | styleAttribute =>
    obtain ⟨⟨raw, start⟩, hraw, rfl⟩ := List.mem_map.mp h
    rw [Embed.StandsIn, Embed.raw_wrapped]
    exact slice?_of_mem_contents hraw
  | scriptTag =>
    obtain ⟨⟨raw, start⟩, hraw, rfl⟩ := List.mem_map.mp h
    exact slice?_of_mem_contents hraw

end Locator

/-! ### Evaluating a locator -/

namespace Pattern

/-- The first match in what is left of a text, found without marks. -/
def firstMatch (p : Pattern) (offset : Nat) (before : Option Char) : List Char → Option Match
  | [] => (p.find .stop ⟨offset, before, []⟩ []).map fun found =>
      ⟨⟨offset, found.1.offset⟩, found.2⟩
  | c :: rest =>
    match p.find .stop ⟨offset, before, c :: rest⟩ [] with
    | some found => some ⟨⟨offset, found.1.offset⟩, found.2⟩
    | none => firstMatch p (offset + c.utf8Size) (some c) rest

/-- The successive matches from a position on, found without marks. -/
def matchesFrom (p : Pattern) : Nat → Cursor → Option Nat → List Match
  | 0, _, _ => []
  | fuel + 1, c, lastStop =>
    match p.firstMatch c.offset c.before c.rest with
    | none => []
    | some found =>
      if found.span.isEmpty && lastStop == some found.span.stop then
        match c.rest with
        | next :: rest => matchesFrom p fuel (c.advance next rest) lastStop
        | [] => []
      else
        match c.seek? found.span.stop with
        | some d => found :: matchesFrom p fuel d (some found.span.stop)
        | none => [found]

end Pattern

namespace Program

variable {p : Pattern}

/-- The first match is found without marks too. -/
theorem searchFrom_eq_firstMatch (hp : p.proper = true) (offset : Nat) (before : Option Char)
    (rest : List Char) : (ofPattern p).searchFrom offset before rest =
      p.firstMatch offset before rest := by
  induction rest generalizing offset before with
  | nil => rw [searchFrom, matchAt_eq_find hp, Pattern.firstMatch]
  | cons c rest ih =>
    rw [searchFrom, matchAt_eq_find hp, Pattern.firstMatch]
    cases p.find .stop ⟨offset, before, c :: rest⟩ [] with
    | none => exact ih _ _
    | some found => rfl

/-- **The successive matches of a pattern can be computed.** -/
theorem matchesFrom_eq (hp : p.proper = true) (fuel : Nat) (c : Cursor) (lastStop : Option Nat) :
    (ofPattern p).matchesFrom fuel c lastStop = p.matchesFrom fuel c lastStop := by
  induction fuel generalizing c lastStop with
  | zero => rfl
  | succ fuel ih =>
    have hsearch : (ofPattern p).search c = p.firstMatch c.offset c.before c.rest :=
      searchFrom_eq_firstMatch hp _ _ _
    rw [matchesFrom, Pattern.matchesFrom, hsearch]
    cases p.firstMatch c.offset c.before c.rest with
    | none => rfl
    | some found =>
      dsimp only
      split
      · cases c.rest with
        | nil => rfl
        | cons next rest => exact ih _ _
      · cases c.seek? found.span.stop with
        | none => rfl
        | some d => exact congrArg (found :: ·) (ih _ _)

end Program

namespace Locator

/-- The texts that `contents` yields, found without marks. -/
def contentsOf (pattern : String) (groups : List Nat) (host : List Char) : List (String × Nat) :=
  match Pattern.parse? false pattern.toList with
  | none => []
  | some p =>
    (p.matchesFrom (2 * host.length + 2) (.start host) none).filterMap fun found => do
      let span ← groups.findSome? found.group?
      if span.isEmpty then none
      else
        let text ← span.slice? host
        return (String.ofList text, span.start)

/-- What locators list can be computed without marks. -/
theorem contents_eq {pattern : String}
    (hp : (Pattern.parse? false pattern.toList).all Pattern.proper = true) (groups : List Nat)
    (host : List Char) : contents pattern groups host = contentsOf pattern groups host := by
  unfold contents contentsOf
  cases hparse : Pattern.parse? false pattern.toList with
  | none => rfl
  | some p =>
    rw [hparse, Option.all_some] at hp
    simp only [Program.allMatches, Program.matchesFrom_eq hp]

end Locator

/-- Embedded code stands in the document that holds it. -/
theorem Document.Holds.standsIn {document : Document} {e : Embed} (h : document.Holds e) :
    e.StandsIn document.content := by
  obtain ⟨locator, he⟩ := h
  exact Locator.standsIn_of_mem_find he

end Relabel
