import Relabel.Unicode.Fold
import Relabel.Unicode.Lowercase
import Relabel.Unicode.Space

/-!
# Characters without case

White space and the ASCII characters that are no letters lie in a few stretches (`isUncased`) that
the tables of case variants and of lowercase mappings keep clear of. So these characters are equal
up to case to themselves only (`eq_of_sameFold`), and lowercasing a text brings none of them into it
(`mem_of_mem_lowercaseAfter`).
-/

namespace Relabel.Unicode

/-- Stretches of characters without case, in which lie all white space and the ASCII characters that
are no letters. -/
def uncasedRanges : List (Nat × Nat) :=
  [(0x1, 0x40), (0x5B, 0x60), (0x7B, 0xA0), (0x1680, 0x1680), (0x2000, 0x205F), (0x3000, 0x3000)]

def isUncased (c : Char) : Bool :=
  uncasedRanges.any fun range => range.1 ≤ c.toNat && c.toNat ≤ range.2

theorem isUncased_iff {c : Char} :
    isUncased c = true ↔ ∃ range ∈ uncasedRanges, range.1 ≤ c.toNat ∧ c.toNat ≤ range.2 := by
  simp only [isUncased, List.any_eq_true, Bool.and_eq_true, decide_eq_true_eq]

theorem exists_of_inRanges {code : Nat} {ranges : List (Nat × Nat)}
    (h : inRanges code ranges = true) : ∃ range ∈ ranges, range.1 ≤ code ∧ code ≤ range.2 := by
  induction ranges with
  | nil => cases h
  | cons range ranges ih =>
    obtain ⟨first, last⟩ := range
    rw [inRanges] at h
    split at h
    · cases h
    · rename_i hfirst
      rw [Bool.or_eq_true, decide_eq_true_eq] at h
      rcases h with hlast | hlater
      · exact ⟨_, List.mem_cons_self, Nat.le_of_not_lt hfirst, hlast⟩
      · obtain ⟨range, hrange, hends⟩ := ih hlater
        exact ⟨range, List.mem_cons_of_mem _ hrange, hends⟩

/-- White space has no case. -/
theorem isUncased_of_isSpace {c : Char} (h : isSpace c = true) : isUncased c = true := by
  obtain ⟨range, hrange, hlow, hhigh⟩ := exists_of_inRanges h
  have hinside : ∀ range ∈ spaceRanges, ∃ other ∈ uncasedRanges,
      other.1 ≤ range.1 ∧ range.2 ≤ other.2 := by
    decide
  obtain ⟨other, hother, hfirst, hlast⟩ := hinside range hrange
  exact isUncased_iff.mpr ⟨other, hother, Nat.le_trans hfirst hlow, Nat.le_trans hhigh hlast⟩

/-- A run that is found has the character in it. -/
theorem Run.exists_of_find? {α : Type} {code : Nat} {runs : List (Run α)} {datum : α}
    (h : Run.find? code runs = some datum) :
    ∃ run ∈ runs, run.first ≤ code ∧ code ≤ run.last ∧ (code - run.first) % run.step = 0 ∧
      run.datum = datum := by
  induction runs with
  | nil => cases h
  | cons run runs ih =>
    rw [Run.find?] at h
    split at h
    · cases h
    · rename_i hfirst
      split at h
      · rename_i hlast
        exact ⟨run, List.mem_cons_self, Nat.le_of_not_lt hfirst, hlast.1, hlast.2,
          Option.some.inj h⟩
      · obtain ⟨other, hother, hfound⟩ := ih h
        exact ⟨other, List.mem_cons_of_mem _ hother, hfound⟩

/-- Whether no character of a run, moved by a distance, lies in a stretch without case. -/
def missesUncased {α : Type} (run : Run α) (distance : Int) : Bool :=
  uncasedRanges.all fun range =>
    decide (run.last + distance < range.1) || decide (range.2 < run.first + distance)

/-- A run that misses the stretches leads to characters with case only. -/
theorem isUncased_shift {α : Type} {run : Run α} {distance : Int} {c : Char}
    (hmisses : missesUncased run distance = true) (hfirst : run.first ≤ c.toNat)
    (hlast : c.toNat ≤ run.last) : isUncased (shift c distance) = false := by
  rw [← Bool.not_eq_true]
  intro h
  obtain ⟨range, hrange, hlow, hhigh⟩ := isUncased_iff.mp h
  have hmiss := List.all_eq_true.mp hmisses range hrange
  rw [Bool.or_eq_true, decide_eq_true_eq, decide_eq_true_eq] at hmiss
  have hpos : 0 < range.1 := by
    have hall : uncasedRanges.all (fun range => 0 < range.1) = true := by decide
    exact of_decide_eq_true (List.all_eq_true.mp hall range hrange)
  -- a code that is no character stands for the null character, which is in no range
  have hcode : (shift c distance).toNat = (c.toNat + distance).toNat ∨
      (shift c distance).toNat = 0 := by
    rw [shift, Char.ofNat]
    by_cases hvalid : (c.toNat + distance).toNat.isValidChar
    · rw [dif_pos hvalid]
      exact .inl rfl
    · rw [dif_neg hvalid]
      exact .inr rfl
  omega

theorem missesUncased_caseVariantRuns : (caseVariantRuns.all fun run =>
    (0 :: run.datum).all (missesUncased run)) = true := by
  decide +kernel

theorem missesUncased_lowercaseRuns : (lowercaseRuns.all fun run =>
    missesUncased run run.datum) = true := by
  decide +kernel

/-- **Characters without case have no case variants**, and are not those of others. -/
theorem isUncased_of_mem_caseVariants {c d : Char} (h : d ∈ caseVariants c) :
    isUncased c = false ∧ isUncased d = false := by
  unfold caseVariants at h
  split at h
  · rename_i distances hfind
    obtain ⟨run, hrun, hfirst, hlast, -, rfl⟩ := Run.exists_of_find? hfind
    obtain ⟨distance, hdistance, rfl⟩ := List.mem_map.mp h
    have hmisses := List.all_eq_true.mp
      (List.all_eq_true.mp missesUncased_caseVariantRuns run hrun)
    have hself := isUncased_shift (hmisses 0 List.mem_cons_self) hfirst hlast
    have hzero : shift c 0 = c := by
      rw [shift, Int.add_zero, Int.toNat_natCast, Char.ofNat_toNat]
    rw [hzero] at hself
    exact ⟨hself, isUncased_shift (hmisses _ (List.mem_cons_of_mem _ hdistance)) hfirst hlast⟩
  · cases h

/-- Up to case, a character without case is equal to itself only. -/
theorem eq_of_sameFold {c d : Char} (h : sameFold c d = true)
    (huncased : isUncased c = true ∨ isUncased d = true) : c = d := by
  rw [sameFold, Bool.or_eq_true, beq_iff_eq, List.contains_iff_mem] at h
  rcases h with hsame | hvariant
  · exact hsame
  · obtain ⟨hc, hd⟩ := isUncased_of_mem_caseVariants hvariant
    rw [hc, hd] at huncased
    rcases huncased with hfalse | hfalse <;> cases hfalse

/-- A character without case is in no text of characters with case. -/
theorem notMem_of_isUncased {d : Char} {text : List Char} (hd : isUncased d = true)
    (htext : text.any isUncased = false) : d ∉ text := by
  intro hmem
  rw [List.any_eq_true.mpr ⟨d, hmem, hd⟩] at htext
  cases htext

/-- A character without case is the lowercase form of itself only. -/
theorem eq_of_mem_lowercaseChar {c d : Char} (hd : isUncased d = true)
    (h : d ∈ lowercaseChar c) : d = c := by
  unfold lowercaseChar at h
  split at h
  · exact absurd h (notMem_of_isUncased hd rfl)
  · split at h
    · rename_i distance hfind
      obtain ⟨run, hrun, hfirst, hlast, -, rfl⟩ := Run.exists_of_find? hfind
      obtain rfl := List.mem_singleton.mp h
      rw [isUncased_shift (List.all_eq_true.mp missesUncased_lowercaseRuns run hrun) hfirst
        hlast] at hd
      cases hd
    · exact List.mem_singleton.mp h

/-- A character without case in a lowercase form was in the text already. -/
theorem mem_of_mem_lowercaseAfter {text : List Char} {d : Char} (hd : isUncased d = true) :
    ∀ {before : List Char}, d ∈ lowercaseAfter before text → d ∈ text := by
  induction text with
  | nil => exact fun h => h
  | cons c text ih =>
    intro before h
    rw [lowercaseAfter] at h
    rcases List.mem_append.mp h with hmapped | hlater
    · split at hmapped
      · split at hmapped
        · exact absurd hmapped (notMem_of_isUncased hd rfl)
        · exact absurd hmapped (notMem_of_isUncased hd rfl)
      · exact eq_of_mem_lowercaseChar hd hmapped ▸ List.mem_cons_self
    · exact List.mem_cons_of_mem _ (ih hlater)

end Relabel.Unicode
