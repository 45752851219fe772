import Mathlib.Data.List.Nodup
import Relabel.Proofs.WritingBack

/-!
# Which embeds are written back

Embeds are gone through by start and end, and an embed is written back if its span is a slice of the
host and does not begin before the end of the last one that was (`Embed.choices`). All that is taken
from the host lies between the spans that were chosen, so no slice is out of bounds
(`spliceSlices?_eq`), and the text is the host with these spans replaced. An embed that was left out
does not fit, or begins before the end of one that was chosen. Embeds that do not fit make no
difference, since sorting keeps the others in their order (`mergeSort_filter`).
-/

namespace Relabel

/-! ### Sorting -/

section Sorting

variable {α : Type} {le : α → α → Bool}

/-- What stands in front of the first member that is no smaller is told from the whole list. -/
theorem append_left_unique {a : α} {front front' back back' : List α}
    (hfront : ∀ b ∈ front, le a b = false) (hfront' : ∀ b ∈ front', le a b = false)
    (hback : ∀ b ∈ back, le a b = true) (hback' : ∀ b ∈ back', le a b = true)
    (h : front ++ back = front' ++ back') : front = front' := by
  have hfilter : ∀ {front back : List α}, (∀ b ∈ front, le a b = false) →
      (∀ b ∈ back, le a b = true) → (front ++ back).filter (fun b => !le a b) = front := by
    intro front back hfront hback
    rw [List.filter_append, List.filter_eq_self.mpr (by simpa using hfront),
      List.filter_eq_nil_iff.mpr (by simpa using hback), List.append_nil]
  rw [← hfilter hfront hback, h, hfilter hfront' hback']

/-- **Sorting keeps the order of what is kept**: members may be left out before or after it. -/
theorem mergeSort_filter (trans : ∀ a b c, le a b = true → le b c = true → le a c = true)
    (total : ∀ a b, (le a b || le b a) = true) (keep : α → Bool) (l : List α) :
    (l.filter keep).mergeSort le = (l.mergeSort le).filter keep := by
  -- in a sorted list, what stands behind a member is no smaller
  have hbehind : ∀ {a : α} {l front back : List α}, l.mergeSort le = front ++ a :: back →
      ∀ b ∈ back, le a b = true := by
    intro a l front back hsorted
    have hpairwise := List.pairwise_mergeSort trans total l
    rw [hsorted] at hpairwise
    exact (List.pairwise_cons.mp (List.pairwise_append.mp hpairwise).2.1).1
  induction l with
  | nil => simp
  | cons a l ih =>
    obtain ⟨front, back, hsorted, hwithout, hfront⟩ := List.mergeSort_cons trans total a l
    rw [hsorted, List.filter_append]
    rw [hwithout, List.filter_append] at ih
    by_cases ha : keep a = true
    · rw [List.filter_cons_of_pos ha, List.filter_cons_of_pos ha]
      obtain ⟨front', back', hsorted', hwithout', hfront'⟩ :=
        List.mergeSort_cons trans total a (l.filter keep)
      have hsame : front' ++ back' = front.filter keep ++ back.filter keep :=
        hwithout'.symm.trans ih
      obtain rfl : front' = front.filter keep := by
        refine append_left_unique ?_ ?_ (hbehind hsorted') ?_ hsame
        · simpa using hfront'
        · intro b hb
          simpa using hfront b (List.mem_of_mem_filter hb)
        · intro b hb
          exact hbehind hsorted b (List.mem_of_mem_filter hb)
      rw [hsorted', List.append_cancel_left hsame]
    · rw [List.filter_cons_of_neg ha, List.filter_cons_of_neg ha, ih]

end Sorting

namespace Embed

/-- Embeds are ordered by start, and those that begin alike by end. -/
theorem le_iff {e f : Embed} : e.le f = true ↔ e.span.start < f.span.start ∨
    e.span.start = f.span.start ∧ e.span.stop ≤ f.span.stop := by
  simp [le]

theorem le_trans (e f g : Embed) (h : e.le f = true) (h' : f.le g = true) : e.le g = true := by
  rw [le_iff] at *
  omega

theorem le_total (e f : Embed) : (e.le f || f.le e) = true := by
  rw [Bool.or_eq_true, le_iff, le_iff]
  omega

/-- Embeds that may come in either order have the same span. -/
theorem span_eq_of_le {e f : Embed} (h : e.le f = true) (h' : f.le e = true) : e.span = f.span := by
  rw [le_iff] at h h'
  obtain ⟨_, _, ⟨start, stop⟩, _⟩ := e
  obtain ⟨_, _, ⟨start', stop'⟩, _⟩ := f
  rw [Span.mk.injEq]
  dsimp only at h h'
  omega

def inOrder (embeds : List Embed) : List Embed :=
  embeds.mergeSort le

theorem pairwise_inOrder (embeds : List Embed) :
    (inOrder embeds).Pairwise fun e f => e.le f = true :=
  List.pairwise_mergeSort le_trans le_total embeds

/-- Embeds with different spans are gone through in one order only. -/
theorem inOrder_eq_of_perm {embeds embeds' : List Embed} (hperm : embeds'.Perm embeds)
    (hdistinct : (embeds.map span).Nodup) : inOrder embeds' = inOrder embeds := by
  have hboth : (inOrder embeds').Perm (inOrder embeds) :=
    (List.mergeSort_perm embeds' le).trans (hperm.trans (List.mergeSort_perm embeds le).symm)
  refine hboth.eq_of_pairwise ?_ (pairwise_inOrder embeds') (pairwise_inOrder embeds)
  intro e f he hf hle hle'
  have he' : e ∈ embeds := hperm.mem_iff.mp (List.mem_mergeSort.mp he)
  exact List.inj_on_of_nodup_map hdistinct he' (List.mem_mergeSort.mp hf) (span_eq_of_le hle hle')

/-! ### The choice -/

def fits (host : String) (e : Embed) : Bool :=
  (e.span.slice? host.toList).isSome

def edit (e : Embed) : Edit :=
  ⟨e.span, e.raw.toList⟩

/-- Goes through embeds and tells which of them are chosen: those that fit and do not begin before
`last`, the end of the embed chosen before. -/
def choices (host : String) : Nat → List Embed → List (Embed × Bool)
  | _, [] => []
  | last, e :: later =>
    if e.fits host ∧ last ≤ e.span.start then (e, true) :: choices host e.span.stop later
    else (e, false) :: choices host last later

def chosen (host : String) (last : Nat) (embeds : List Embed) : List Embed :=
  (choices host last embeds).filterMap fun choice => if choice.2 then some choice.1 else none

variable {host : String} {e f : Embed} {later embeds : List Embed} {last : Nat}

/-- An embed that fits behind the last one is chosen. -/
theorem choices_of_fits (h : e.fits host = true) (hlast : last ≤ e.span.start) :
    choices host last (e :: later) = (e, true) :: choices host e.span.stop later := by
  rw [choices, if_pos ⟨h, hlast⟩]

/-- Any other embed is left out. -/
theorem choices_of_not (h : ¬ (e.fits host = true ∧ last ≤ e.span.start)) :
    choices host last (e :: later) = (e, false) :: choices host last later := by
  rw [choices, if_neg h]

theorem chosen_of_fits (h : e.fits host = true) (hlast : last ≤ e.span.start) :
    chosen host last (e :: later) = e :: chosen host e.span.stop later := by
  rw [chosen, choices_of_fits h hlast]
  rfl

theorem chosen_of_not (h : ¬ (e.fits host = true ∧ last ≤ e.span.start)) :
    chosen host last (e :: later) = chosen host last later := by
  rw [chosen, choices_of_not h]
  rfl

/-- Every embed is told to be chosen or not, in order. -/
theorem map_fst_choices (host : String) (last : Nat) (embeds : List Embed) :
    (choices host last embeds).map Prod.fst = embeds := by
  induction embeds generalizing last with
  | nil => rfl
  | cons e later ih =>
    by_cases h : e.fits host = true ∧ last ≤ e.span.start
    · rw [choices_of_fits h.1 h.2, List.map_cons, ih]
    · rw [choices_of_not h, List.map_cons, ih]

/-- A chosen embed fits and does not begin before `last`. -/
theorem of_mem_chosen (h : e ∈ chosen host last embeds) :
    e.fits host = true ∧ last ≤ e.span.start := by
  induction embeds generalizing last with
  | nil => cases h
  | cons f later ih =>
    by_cases hf : f.fits host = true ∧ last ≤ f.span.start
    · rw [chosen_of_fits hf.1 hf.2, List.mem_cons] at h
      rcases h with rfl | hlater
      · exact hf
      · obtain ⟨he, hstart⟩ := ih hlater
        obtain ⟨part, hpart⟩ := Option.isSome_iff_exists.mp hf.1
        have hle := (Span.stop_le_of_slice? hpart).1
        exact ⟨he, by omega⟩
    · rw [chosen_of_not hf] at h
      exact ih h

/-- Chosen embeds follow one another. -/
theorem pairwise_chosen (host : String) (last : Nat) (embeds : List Embed) :
    (chosen host last embeds).Pairwise fun e f => e.span.stop ≤ f.span.start := by
  induction embeds generalizing last with
  | nil => exact .nil
  | cons e later ih =>
    by_cases h : e.fits host = true ∧ last ≤ e.span.start
    · rw [chosen_of_fits h.1 h.2]
      exact .cons (fun f hf => (of_mem_chosen hf).2) (ih e.span.stop)
    · rw [chosen_of_not h]
      exact ih last

/-- **Why an embed is left out.** -/
theorem of_not_chosen (hsorted : embeds.Pairwise fun e f => e.le f = true)
    (h : (e, false) ∈ choices host last embeds) :
    e.fits host = false ∨ e.span.start < last ∨
      ∃ f, (f, true) ∈ choices host last embeds ∧ e.span.start < f.span.stop ∧ f.le e = true := by
  induction embeds generalizing last with
  | nil => cases h
  | cons f later ih =>
    obtain ⟨hfirst, hsorted⟩ := List.pairwise_cons.mp hsorted
    by_cases hf : f.fits host = true ∧ last ≤ f.span.start
    · rw [choices_of_fits hf.1 hf.2, List.mem_cons] at h
      rcases h with heq | hlater
      · cases heq
      · have he : e ∈ later := by
          rw [← map_fst_choices host f.span.stop later]
          exact List.mem_map_of_mem hlater
        rw [choices_of_fits hf.1 hf.2]
        rcases ih hsorted hlater with hnot | hstart | ⟨g, hg, hstart, hle⟩
        · exact .inl hnot
        · exact .inr (.inr ⟨f, List.mem_cons_self, hstart, hfirst e he⟩)
        · exact .inr (.inr ⟨g, List.mem_cons_of_mem _ hg, hstart, hle⟩)
    · rw [choices_of_not hf, List.mem_cons] at h
      rcases h with heq | hlater
      · obtain ⟨rfl, -⟩ := Prod.mk.inj heq
        by_cases hfits : e.fits host = true
        · exact .inr (.inl (Nat.lt_of_not_le fun hle => hf ⟨hfits, hle⟩))
        · exact .inl (Bool.not_eq_true _ ▸ hfits)
      · rw [choices_of_not hf]
        rcases ih hsorted hlater with hnot | hstart | ⟨g, hg, hstart, hle⟩
        · exact .inl hnot
        · exact .inr (.inl hstart)
        · exact .inr (.inr ⟨g, List.mem_cons_of_mem _ hg, hstart, hle⟩)

/-- Embeds that do not fit are not chosen and keep no other from being chosen. -/
theorem chosen_filter_fits (host : String) (last : Nat) (embeds : List Embed) :
    chosen host last (embeds.filter (fits host)) = chosen host last embeds := by
  induction embeds generalizing last with
  | nil => rfl
  | cons e later ih =>
    by_cases hfits : e.fits host = true
    · rw [List.filter_cons_of_pos hfits]
      by_cases hlast : last ≤ e.span.start
      · rw [chosen_of_fits hfits hlast, chosen_of_fits hfits hlast, ih]
      · rw [chosen_of_not fun h => hlast h.2, chosen_of_not fun h => hlast h.2, ih]
    · rw [List.filter_cons_of_neg hfits, chosen_of_not fun h => hfits h.1, ih]

end Embed

/-! ### What is written -/

/-- Writes embeds back with slices of the host: what lies between the end of the embed written last
and the start of the next one, and at the end what is left. It fails if a slice is out of bounds. -/
def spliceSlices? (host : List Char) : Nat → List Embed → Option (List Char)
  | last, [] => Span.slice? host ⟨last, byteSize host⟩
  | last, e :: later =>
    if e.span.start < last ∨ (e.span.slice? host).isNone then spliceSlices? host last later
    else do
      let gap ← Span.slice? host ⟨last, e.span.start⟩
      let rest ← spliceSlices? host e.span.stop later
      return gap ++ (e.raw.toList ++ rest)

section Slices

variable {front rest : List Char} {e : Embed} {embeds : List Embed}

/-- A span that is no slice of the text, or begins before the rest of it, is not cut out. -/
theorem cut?_eq_none (h : e.span.start < byteSize front ∨
    (e.span.slice? (front ++ rest)).isNone = true) :
    e.span.cut? (byteSize front) rest = none := by
  rw [← Option.not_isSome_iff_eq_none, Option.isSome_iff_exists]
  rintro ⟨⟨gap, old, back⟩, hcut⟩
  obtain ⟨rfl, hstart, hstop⟩ := Span.cut?_eq_some_iff.mp hcut
  have hslice : e.span.slice? (front ++ (gap ++ (old ++ back))) = some old :=
    Span.slice?_eq_some_iff.mpr ⟨front ++ gap, back, by simp, by simpa using hstart, hstop⟩
  rcases h with hlt | hnone
  · omega
  · rw [hslice] at hnone
    cases hnone

/-- A span that is a slice of the text and does not begin before the rest of it is cut out. -/
theorem exists_cut {part : List Char} (hpart : e.span.slice? (front ++ rest) = some part)
    (hstart : byteSize front ≤ e.span.start) : ∃ gap back, rest = gap ++ (part ++ back) ∧
      e.span.start = byteSize front + byteSize gap ∧
      e.span.stop = byteSize (front ++ (gap ++ part)) ∧
      e.edit.span.cut? (byteSize front) rest = some (gap, part, back) := by
  obtain ⟨gap, back, hcut⟩ := Span.cut?_of_slice? hpart hstart
  obtain ⟨hrest, hgap, hstop⟩ := Span.cut?_eq_some_iff.mp hcut
  refine ⟨gap, back, hrest, hgap, ?_, hcut⟩
  simp only [byteSize_append]
  omega

/-- **No slice is out of bounds.** What is left of the host begins where the embed written last
ends, so both ends of each slice are positions of the host. -/
theorem spliceSlices?_eq (front rest : List Char) (embeds : List Embed) :
    spliceSlices? (front ++ rest) (byteSize front) embeds =
      some (spliceFrom (byteSize front) rest (embeds.map Embed.edit)).text := by
  induction embeds generalizing front rest with
  | nil =>
    rw [spliceSlices?, byteSize_append]
    change _ = some rest
    exact Span.slice?_eq_some_iff.mpr ⟨front, [], by simp, rfl, rfl⟩
  | cons e embeds ih =>
    rw [spliceSlices?, List.map_cons, spliceFrom]
    by_cases h : e.span.start < byteSize front ∨
        (e.span.slice? (front ++ rest)).isNone = true
    · have hcut : e.edit.span.cut? (byteSize front) rest = none := cut?_eq_none h
      rw [if_pos h, hcut]
      exact ih front rest
    · rw [not_or, Nat.not_lt, Option.isNone_iff_eq_none, ← ne_eq,
        Option.ne_none_iff_exists'] at h
      obtain ⟨hstart, part, hpart⟩ := h
      obtain ⟨gap, back, rfl, hgap, hstop, hcut⟩ := exists_cut hpart hstart
      have hslice : Span.slice? (front ++ (gap ++ (part ++ back))) ⟨byteSize front, e.span.start⟩ =
          some gap :=
        Span.slice?_eq_some_iff.mpr ⟨front, part ++ back, rfl, rfl, hgap⟩
      have hlater := ih (front ++ (gap ++ part)) back
      rw [← hstop] at hlater
      have hnot : ¬ (e.span.start < byteSize front ∨
          (e.span.slice? (front ++ (gap ++ (part ++ back)))).isNone = true) := by
        simp [hpart, hstart]
      rw [if_neg hnot, hslice, hcut]
      simp only [List.append_assoc] at hlater ⊢
      simp [hlater, Embed.edit]

end Slices

namespace Embed

variable {host : String} {embeds : List Embed}

/-- Embeds that are not chosen are not written. -/
theorem spliceFrom_chosen (front rest : List Char) (hhost : host.toList = front ++ rest) :
    spliceFrom (byteSize front) rest (embeds.map edit) =
      spliceFrom (byteSize front) rest ((chosen host (byteSize front) embeds).map edit) := by
  induction embeds generalizing front rest with
  | nil => rfl
  | cons e embeds ih =>
    by_cases h : e.fits host = true ∧ byteSize front ≤ e.span.start
    · obtain ⟨part, hpart⟩ := Option.isSome_iff_exists.mp h.1
      rw [hhost] at hpart
      obtain ⟨gap, back, rfl, -, hstop, hcut⟩ := exists_cut hpart h.2
      have hlater := ih (front ++ (gap ++ part)) back (by simpa using hhost)
      rw [← hstop] at hlater
      rw [chosen_of_fits h.1 h.2, List.map_cons, List.map_cons, spliceFrom, spliceFrom, hcut]
      simp only [edit] at hlater ⊢
      rw [hlater]
    · have hcut : e.edit.span.cut? (byteSize front) rest = none := by
        refine cut?_eq_none ?_
        rw [← hhost, or_iff_not_imp_left, Nat.not_lt]
        intro hstart
        rw [← Option.not_isSome, Bool.not_eq_true']
        exact Bool.not_eq_true _ ▸ fun hfits => h ⟨hfits, hstart⟩
      rw [chosen_of_not h, List.map_cons, spliceFrom, hcut]
      exact ih front rest hhost

/-- Writing embeds back is splicing those that are chosen. -/
theorem toList_spliceEmbeds (host : String) (embeds : List Embed) :
    (spliceEmbeds host embeds).toList =
      (splice host.toList ((chosen host 0 (inOrder embeds)).map edit)).text := by
  have hchosen : spliceFrom 0 host.toList ((inOrder embeds).map edit) =
      spliceFrom 0 host.toList ((chosen host 0 (inOrder embeds)).map edit) :=
    spliceFrom_chosen [] host.toList rfl
  rw [spliceEmbeds, String.toList_ofList, splice, splice]
  exact congrArg Spliced.text hchosen

end Embed

/-- **Embeds are written back greedily.** Gone through by start and end, an embed is chosen if it
fits the host and does not begin before the end of the one chosen last. No slice that is taken from
the host is out of bounds, and the text is the host with the spans of the chosen embeds replaced by
their raw texts. Chosen embeds do not overlap, and one that is not chosen does not fit, or begins
before the end of a chosen one that comes no later. Embeds that do not fit make no difference;
neither does the order of the embeds, if their spans are different. -/
theorem embeds_spliced_greedily (host : String) (embeds : List Embed) :
    (Embed.choices host 0 (Embed.inOrder embeds)).map Prod.fst = embeds.mergeSort Embed.le ∧
    spliceSlices? host.toList 0 (Embed.inOrder embeds) =
      some (spliceEmbeds host embeds).toList ∧
    Patched 0 host.toList ((Embed.chosen host 0 (Embed.inOrder embeds)).map Embed.edit)
      (spliceEmbeds host embeds).toList ∧
    (Embed.chosen host 0 (Embed.inOrder embeds)).Pairwise
      (fun e f => e.span.stop ≤ f.span.start) ∧
    (∀ e, (e, false) ∈ Embed.choices host 0 (Embed.inOrder embeds) → e.fits host = false ∨
      ∃ f, (f, true) ∈ Embed.choices host 0 (Embed.inOrder embeds) ∧
        e.span.start < f.span.stop ∧ f.le e = true) ∧
    spliceEmbeds host (embeds.filter (Embed.fits host)) = spliceEmbeds host embeds ∧
    ∀ embeds', embeds'.Perm embeds → (embeds.map Embed.span).Nodup →
      spliceEmbeds host embeds' = spliceEmbeds host embeds := by
  refine ⟨Embed.map_fst_choices _ _ _, ?_, ?_, Embed.pairwise_chosen _ _ _, ?_, ?_, ?_⟩
  · rw [spliceEmbeds, String.toList_ofList]
    exact spliceSlices?_eq [] host.toList (Embed.inOrder embeds)
  · have hslices : ∀ edit ∈ (Embed.chosen host 0 (Embed.inOrder embeds)).map Embed.edit,
        ∃ part, edit.span.slice? host.toList = some part := by
      intro edit hedit
      obtain ⟨e, he, rfl⟩ := List.mem_map.mp hedit
      exact Option.isSome_iff_exists.mp (Embed.of_mem_chosen he).1
    obtain ⟨out, hpatched, hspliced⟩ := splice_patched _ _ hslices
      (List.pairwise_map.mpr (Embed.pairwise_chosen host 0 (Embed.inOrder embeds)))
    rw [Embed.toList_spliceEmbeds, hspliced]
    exact hpatched
  · intro e he
    rcases Embed.of_not_chosen (Embed.pairwise_inOrder embeds) he with hnot | hstart | hchosen
    · exact .inl hnot
    · exact absurd hstart (Nat.not_lt_zero _)
    · exact .inr hchosen
  · have hsorted : Embed.inOrder (embeds.filter (Embed.fits host)) =
        (Embed.inOrder embeds).filter (Embed.fits host) :=
      mergeSort_filter Embed.le_trans Embed.le_total _ _
    rw [← String.toList_inj, Embed.toList_spliceEmbeds, Embed.toList_spliceEmbeds, hsorted,
      Embed.chosen_filter_fits]
  · intro embeds' hperm hdistinct
    rw [← String.toList_inj, Embed.toList_spliceEmbeds, Embed.toList_spliceEmbeds,
      Embed.inOrder_eq_of_perm hperm hdistinct]

namespace Embed

/-- Embeds for the host `aéb`: one that fits, one that begins before its end, one that lies inside a
character, an empty one at the end and one outside of the host. -/
def scattered : List Embed :=
  [⟨.js, "out", ⟨9, 12⟩, none⟩, ⟨.js, "tail", ⟨4, 4⟩, none⟩, ⟨.css, "half", ⟨2, 3⟩, none⟩,
    ⟨.css, "inner", ⟨1, 3⟩, none⟩, ⟨.css, ":root\x7bA\x7d", ⟨0, 3⟩, some ⟨":root\x7b", "\x7d"⟩⟩]

theorem inOrder_scattered : inOrder scattered = scattered.reverse := by
  have hsorted : scattered.reverse.Pairwise fun e f => e.le f = true := by decide
  have hsame := inOrder_eq_of_perm (List.reverse_perm scattered) (by decide)
  rw [← hsame]
  exact List.mergeSort_of_pairwise hsorted

theorem scattered_spliced : (scattered.map span).Nodup ∧
    spliceEmbeds "aéb" scattered.reverse = spliceEmbeds "aéb" scattered ∧
    Patched 0 ['a', 'é', 'b'] [⟨⟨0, 3⟩, ['A']⟩, ⟨⟨4, 4⟩, ['t', 'a', 'i', 'l']⟩]
      (spliceEmbeds "aéb" scattered).toList := by
  have hdistinct : (scattered.map span).Nodup := by decide
  obtain ⟨-, -, hpatched, -, -, -, hperm⟩ := embeds_spliced_greedily "aéb" scattered
  rw [inOrder_scattered] at hpatched
  exact ⟨hdistinct, hperm _ (List.reverse_perm scattered) hdistinct, hpatched⟩

end Embed

end Relabel
