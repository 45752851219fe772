import Relabel.Proofs.CaseFolding

/-!
# Lowercase forms up to case

Lowercasing knows more characters than case folding: the capital letters that are new in Unicode
17.0 have a lowercase form, but no case variants. The dotted capital I has no case variants either,
and its lowercase form has two characters. All other characters are equal to their lowercase forms
up to case, as is seen by going through both tables side by side (`Unicode.foldsFrom`). So a text is
equal to its lowercase form up to case if and only if it has none of the exceptions
(`Unicode.sameFoldText_lowercase_iff`).
-/

namespace Relabel.Unicode

/-! ### Characters -/

/-- The characters that have a lowercase form and are not equal to it up to case: the dotted
capital I, whose lowercase form has two characters, and capital letters that are missing from the
case variants. -/
def unfoldedCodes : List Nat :=
  [0x130, 0xA7CE, 0xA7D2, 0xA7D4] ++ (List.range 25).map (0x16EA0 + ·)

def isUnfolded (c : Char) : Bool :=
  unfoldedCodes.contains c.toNat

/-- Whether the characters of a run are equal to their lowercase forms up to case. -/
def Run.folds (run : Run Int) (variants : List (Run (List Int))) : Bool :=
  (List.range ((run.last - run.first) / run.step + 1)).all fun k =>
    (Run.find? (run.first + run.step * k) variants).any (·.contains run.datum) ||
      unfoldedCodes.contains (run.first + run.step * k)

/-- Both tables are in order, so variants that end before a run are not needed for later ones. -/
def foldsFrom (bound : Nat) : List (Run Int) → List (Run (List Int)) → Bool
  | [], _ => true
  | run :: runs, variants =>
    let later := variants.dropWhile fun v => v.first ≤ bound && v.last < bound
    decide (bound ≤ run.first) && run.folds later && foldsFrom run.first runs later

set_option maxRecDepth 10000 in
theorem foldsFrom_lowercaseRuns : foldsFrom 0 lowercaseRuns caseVariantRuns = true := by
  decide +kernel

theorem Run.find?_of_dropWhile {α : Type} {code bound : Nat} (hbound : bound ≤ code) {datum : α} :
    ∀ {runs : List (Run α)},
      Run.find? code (runs.dropWhile fun v => v.first ≤ bound && v.last < bound) = some datum →
        Run.find? code runs = some datum
  | [], h => h
  | run :: runs, h => by
    rw [List.dropWhile_cons] at h
    split at h
    · rename_i hdropped
      rw [Bool.and_eq_true, decide_eq_true_iff, decide_eq_true_iff] at hdropped
      rw [Run.find?, if_neg (by omega), if_neg (by omega)]
      exact Run.find?_of_dropWhile hbound h
    · exact h

theorem Run.exists_distances_of_folds {run : Run Int} {variants : List (Run (List Int))}
    (hfolds : run.folds variants = true) {code : Nat} (hfirst : run.first ≤ code)
    (hlast : code ≤ run.last) (hstep : (code - run.first) % run.step = 0)
    (hcode : code ∉ unfoldedCodes) :
    ∃ distances, Run.find? code variants = some distances ∧ run.datum ∈ distances := by
  have hcover := List.all_eq_true.mp hfolds ((code - run.first) / run.step)
    (List.mem_range.mpr (Nat.lt_succ_of_le (Nat.div_le_div_right (by omega))))
  have hindex : run.first + run.step * ((code - run.first) / run.step) = code := by
    rw [Nat.mul_div_cancel' (Nat.dvd_of_mod_eq_zero hstep)]
    omega
  rw [hindex, Bool.or_eq_true, List.contains_iff_mem, Option.any_eq_true] at hcover
  rcases hcover with ⟨distances, hfind, hdatum⟩ | hunfolded
  · exact ⟨distances, hfind, List.contains_iff_mem.mp hdatum⟩
  · exact absurd hunfolded hcode

theorem exists_distances_of_foldsFrom {code : Nat} {run : Run Int} (hfirst : run.first ≤ code)
    (hlast : code ≤ run.last) (hstep : (code - run.first) % run.step = 0)
    (hcode : code ∉ unfoldedCodes) {runs : List (Run Int)} (hrun : run ∈ runs) :
    ∀ {bound : Nat} {variants : List (Run (List Int))}, foldsFrom bound runs variants = true →
      bound ≤ run.first ∧
        ∃ distances, Run.find? code variants = some distances ∧ run.datum ∈ distances := by
  induction runs with
  | nil => cases hrun
  | cons first runs ih =>
    intro bound variants hfolds
    simp only [foldsFrom, Bool.and_eq_true, decide_eq_true_iff] at hfolds
    obtain ⟨⟨hbound, hhead⟩, hlater⟩ := hfolds
    obtain ⟨hle, distances, hfind, hdatum⟩ : bound ≤ run.first ∧ ∃ distances,
        Run.find? code (variants.dropWhile fun v => v.first ≤ bound && v.last < bound) =
          some distances ∧ run.datum ∈ distances := by
      rcases List.mem_cons.mp hrun with rfl | hrun
      · exact ⟨hbound, Run.exists_distances_of_folds hhead hfirst hlast hstep hcode⟩
      · obtain ⟨hle, hexists⟩ := ih hrun hlater
        exact ⟨hbound.trans hle, hexists⟩
    exact ⟨hle, distances, Run.find?_of_dropWhile (hle.trans hfirst) hfind, hdatum⟩

/-- **A character is equal to its lowercase form up to case**, unless it is one of the
exceptions. -/
theorem exists_sameFold_lowercaseChar {c : Char} (h : isUnfolded c = false) :
    ∃ d, lowercaseChar c = [d] ∧ sameFold c d = true := by
  have hdotted : c ≠ '\u0130' := by
    rintro rfl
    cases h
  rw [lowercaseChar, if_neg hdotted]
  cases hfind : Run.find? c.toNat lowercaseRuns with
  | none => exact ⟨c, rfl, by simp [sameFold]⟩
  | some distance =>
    obtain ⟨run, hrun, hfirst, hlast, hstep, rfl⟩ := Run.exists_of_find? hfind
    have hcode : c.toNat ∉ unfoldedCodes := by
      intro hmem
      rw [isUnfolded, List.contains_iff_mem.mpr hmem] at h
      cases h
    obtain ⟨-, distances, hvariants, hdatum⟩ := exists_distances_of_foldsFrom hfirst hlast hstep
      hcode hrun foldsFrom_lowercaseRuns
    refine ⟨_, rfl, ?_⟩
    rw [sameFold, caseVariants, hvariants, Bool.or_eq_true, List.contains_iff_mem]
    exact .inr (List.mem_map_of_mem hdatum)

/-- The exceptions: two characters, or one that is not equal up to case. -/
theorem lowercaseChar_of_isUnfolded {c : Char} (h : isUnfolded c = true) :
    lowercaseChar c = ['i', '\u0307'] ∨ ∃ d, lowercaseChar c = [d] ∧ sameFold c d = false := by
  have hexceptions : ∀ code ∈ unfoldedCodes, lowercaseChar (Char.ofNat code) = ['i', '\u0307'] ∨
      lowercaseChar (Char.ofNat code) = [(lowercaseChar (Char.ofNat code)).headD 'i'] ∧
        sameFold (Char.ofNat code) ((lowercaseChar (Char.ofNat code)).headD 'i') = false := by
    decide +kernel
  have hc := hexceptions c.toNat (List.contains_iff_mem.mp h)
  rw [Char.ofNat_toNat] at hc
  exact hc.imp_right fun hone => ⟨_, hone⟩

/-! ### Texts -/

/-- Texts that are equal up to case have the same length. -/
theorem length_eq_of_sameFoldText : ∀ {text other : List Char}, sameFoldText text other = true →
    text.length = other.length
  | [], [], _ => rfl
  | _ :: _, _ :: _, h => by
    rw [sameFoldText, Bool.and_eq_true] at h
    rw [List.length_cons, List.length_cons, length_eq_of_sameFoldText h.2]

/-- What becomes of one character in a text. -/
theorem lowercaseAfter_cons (before : List Char) (c : Char) (text : List Char) :
    ∃ mapped, lowercaseAfter before (c :: text) = mapped ++ lowercaseAfter (c :: before) text ∧
      if isUnfolded c then mapped = ['i', '\u0307'] ∨ ∃ d, mapped = [d] ∧ sameFold c d = false
      else ∃ d, mapped = [d] ∧ sameFold c d = true := by
  refine ⟨_, rfl, ?_⟩
  by_cases hsigma : c = '\u03A3'
  · subst hsigma
    rw [if_pos rfl, if_neg (by decide)]
    split
    · exact ⟨_, rfl, by decide +kernel⟩
    · exact ⟨_, rfl, by decide +kernel⟩
  · rw [if_neg hsigma]
    split
    · exact lowercaseChar_of_isUnfolded ‹_›
    · exact exists_sameFold_lowercaseChar (Bool.not_eq_true _ ▸ ‹_›)

/-- No text is longer than its lowercase form. -/
theorem length_le_lowercaseAfter (text : List Char) :
    ∀ before, text.length ≤ (lowercaseAfter before text).length := by
  induction text with
  | nil => exact fun _ => Nat.le_refl 0
  | cons c text ih =>
    intro before
    obtain ⟨mapped, hmapped, hc⟩ := lowercaseAfter_cons before c text
    have hne : mapped ≠ [] := by
      rintro rfl
      split at hc <;> simp at hc
    have hpos := List.length_pos_iff.mpr hne
    have hlater := ih (c :: before)
    rw [hmapped, List.length_append, List.length_cons]
    omega

/-- **A text is equal to its lowercase form up to case** if and only if none of its characters is an
exception. -/
theorem sameFoldText_lowercase_iff {text : List Char} :
    sameFoldText text (lowercase text) = true ↔ text.any isUnfolded = false := by
  suffices hafter : ∀ before, sameFoldText text (lowercaseAfter before text) = true ↔
      text.any isUnfolded = false from hafter []
  induction text with
  | nil => exact fun _ => ⟨fun _ => rfl, fun _ => rfl⟩
  | cons c text ih =>
    intro before
    obtain ⟨mapped, hmapped, hc⟩ := lowercaseAfter_cons before c text
    rw [hmapped, List.any_cons]
    cases hunfolded : isUnfolded c with
    | false =>
      rw [if_neg (by simp [hunfolded])] at hc
      obtain ⟨d, rfl, hfold⟩ := hc
      rw [List.singleton_append, sameFoldText, hfold, Bool.true_and, Bool.false_or, ih]
    | true =>
      rw [if_pos hunfolded] at hc
      rw [Bool.true_or]
      refine iff_of_false ?_ (by simp)
      rcases hc with rfl | ⟨d, rfl, hfold⟩
      · -- the text has become longer
        intro hsame
        have hlength : text.length + 1 = 2 + (lowercaseAfter (c :: before) text).length :=
          (length_eq_of_sameFoldText hsame).trans List.length_append
        have hlater := length_le_lowercaseAfter text (c :: before)
        omega
      · rw [List.singleton_append, sameFoldText, hfold]
        simp

end Relabel.Unicode
