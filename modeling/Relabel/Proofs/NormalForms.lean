import Relabel.Proofs.CaseFolding
import Relabel.Proofs.Languages

/-!
# Normal forms keep the language

Whether two branches of a choice begin alike is told by normal forms. These must not forget
anything: the canonical form of a set has the same members (`CharSet.contains_canonical`), so the
normal form of a pattern has the same language, and a choice spells what its branches spell, whether
or not they begin alike (`Pattern.mem_language_ofBranches`).

A set is described by the places at which membership changes as one goes through all characters. A
character is a member if membership has changed an odd number of times up to its place.
-/

open scoped Computability

namespace Relabel

namespace CharSet

/-! ### The places of characters -/

def isCode (code : Nat) : Bool :=
  code < 0xD800 || (0xDFFF < code && code < 0x110000)

theorem isCode_iff {code : Nat} :
    isCode code = true ↔ code < 0xD800 ∨ 0xDFFF < code ∧ code < 0x110000 := by
  simp [isCode]

theorem isCode_toNat (c : Char) : isCode c.toNat = true :=
  isCode_iff.mpr c.valid

/-- Places are ordered as code points are. -/
theorem place_le_place {m n : Nat} (hm : isCode m = true) (hn : isCode n = true) :
    place m ≤ place n ↔ m ≤ n := by
  rw [isCode_iff] at hm hn
  unfold place
  split <;> split <;> omega

theorem place_lt {code : Nat} (h : isCode code = true) : place code < placeCount := by
  rw [isCode_iff] at h
  unfold place placeCount
  split <;> omega

/-- There is a character at every place. -/
theorem place_toNat_charAt {p : Nat} (h : p < placeCount) : place (charAt p).toNat = p := by
  unfold placeCount at h
  have hcode : (charAt p).toNat = if p < 0xD800 then p else p + 0x800 := by
    unfold charAt
    split
    · rw [Char.ofNat, dif_pos (.inl (by omega))]
      rfl
    · rw [Char.ofNat, dif_pos (.inr (by omega))]
      rfl
  unfold place
  split at hcode <;> split <;> omega

theorem le_iff_place_le {c d : Char} : c ≤ d ↔ place c.toNat ≤ place d.toNat := by
  rw [place_le_place (isCode_toNat c) (isCode_toNat d)]
  exact UInt32.le_iff_toNat_le

/-- Every character lies at or in front of the last place. -/
theorem le_charAt_last (c : Char) : c ≤ charAt (placeCount - 1) := by
  have hlt := place_lt (isCode_toNat c)
  rw [le_iff_place_le, place_toNat_charAt (by decide)]
  omega

/-! ### Changes of membership -/

/-- Whether membership has changed an odd number of times up to a place. -/
def inside : List Nat → Nat → Bool
  | [], _ => false
  | first :: rest, p => decide (first ≤ p) != inside rest p

/-- `Rising low changes`: the places increase from `low` on, and there is a character at each. -/
def Rising (low : Nat) : List Nat → Prop
  | [] => True
  | p :: rest => low ≤ p ∧ p < placeCount ∧ Rising (p + 1) rest

theorem Rising.mono {low low' : Nat} {changes : List Nat} (h : Rising low changes)
    (hlow : low' ≤ low) : Rising low' changes := by
  cases changes with
  | nil => trivial
  | cons p rest => exact ⟨Nat.le_trans hlow h.1, h.2⟩

/-- In front of the first change nothing is a member. -/
theorem Rising.inside_of_lt {low p : Nat} {changes : List Nat} (h : Rising low changes)
    (hp : p < low) : inside changes p = false := by
  induction changes generalizing low with
  | nil => rfl
  | cons q rest ih =>
    obtain ⟨hlow, -, hrest⟩ := h
    have hnot : ¬ q ≤ p := by omega
    rw [inside, ih hrest (by omega), decide_eq_false hnot]
    rfl

/-- `Past low next changes moved later`: behind a place, `later` is left of the changes, and `moved`
tells whether there was a change at the place. -/
structure Past (low next : Nat) (changes : List Nat) (moved : Bool) (later : List Nat) : Prop where
  rising : Rising (next + 1) later
  bounds : moved = true → low ≤ next ∧ next < placeCount
  length_le : later.length ≤ changes.length
  length_lt : moved = true → later.length < changes.length
  inside_eq : ∀ p, inside changes p = ((moved && decide (next ≤ p)) != inside later p)

/-- Behind the next change, the changes that are left still rise. -/
theorem Rising.past {low next : Nat} {changes : List Nat} (h : Rising low changes)
    (hnext : next ≤ changes.headD placeCount) : Past low next changes (changes.head? == some next)
      (if changes.head? == some next then changes.tail else changes) := by
  cases changes with
  | nil => exact ⟨trivial, nofun, Nat.le_refl _, nofun, fun p => rfl⟩
  | cons q rest =>
    obtain ⟨hlow, hq, hrest⟩ := h
    by_cases hsame : q = next
    · subst hsame
      simp only [List.head?_cons, List.tail_cons, beq_self_eq_true, if_true]
      exact ⟨hrest, fun _ => ⟨hlow, hq⟩, Nat.le_succ _, fun _ => Nat.lt_succ_self _, fun p => rfl⟩
    · have hhead : ((q :: rest).head? == some next) = false := by simpa using hsame
      have hle : next ≤ q := hnext
      simp only [hhead, Bool.false_eq_true, if_false]
      exact ⟨⟨by omega, hq, hrest⟩, nofun, Nat.le_refl _, nofun, fun p => (Bool.false_xor _).symm⟩

/-- Where two lists of changes are gone through, one of them has a change at the next place. -/
theorem Rising.head?_eq_or {low : Nat} {left right : List Nat} (hleft : Rising low left)
    (hright : Rising low right) (hne : ¬ (left = [] ∧ right = [])) :
    (left.head? == some (min (left.headD placeCount) (right.headD placeCount))) = true ∨
      (right.head? == some (min (left.headD placeCount) (right.headD placeCount))) = true := by
  cases left with
  | nil =>
    cases right with
    | nil => exact absurd ⟨rfl, rfl⟩ hne
    | cons q right =>
      have hlt : q < placeCount := hright.2.1
      simp only [List.headD_nil, List.headD_cons, List.head?_cons, beq_iff_eq, Option.some.injEq]
      omega
  | cons p left =>
    have hlt : p < placeCount := hleft.2.1
    cases right with
    | nil =>
      simp only [List.headD_nil, List.headD_cons, List.head?_cons, beq_iff_eq, Option.some.injEq]
      omega
    | cons q right =>
      simp only [List.headD_cons, List.head?_cons, beq_iff_eq, Option.some.injEq]
      omega

/-- `Combined op inLeft inRight left right low changes`: from `low` on, these are the changes of
what `op` makes of two memberships. -/
def Combined (op : Bool → Bool → Bool) (inLeft inRight : Bool) (left right : List Nat) (low : Nat)
    (changes : List Nat) : Prop :=
  Rising low changes ∧ ∀ p, (op inLeft inRight != inside changes p) =
    op (inLeft != inside left p) (inRight != inside right p)

/-- One place further on, a change is kept if it is one of what `op` makes of the memberships. -/
theorem Combined.step {op : Bool → Bool → Bool} {inLeft inRight movedLeft movedRight : Bool}
    {left right left' right' changes : List Nat} {low next : Nat}
    (hleft : Past low next left movedLeft left') (hright : Past low next right movedRight right')
    (hmoved : movedLeft = true ∨ movedRight = true)
    (h : Combined op (inLeft != movedLeft) (inRight != movedRight) left' right' (next + 1)
      changes) :
    Combined op inLeft inRight left right low
      (if op (inLeft != movedLeft) (inRight != movedRight) == op inLeft inRight then changes
        else next :: changes) := by
  obtain ⟨hrising, hinside⟩ := h
  have hbounds : low ≤ next ∧ next < placeCount := by
    rcases hmoved with hmoved | hmoved
    · exact hleft.bounds hmoved
    · exact hright.bounds hmoved
  refine ⟨?_, fun p => ?_⟩
  · split
    · exact hrising.mono (by omega)
    · exact ⟨hbounds.1, hbounds.2, hrising⟩
  · rw [hleft.inside_eq, hright.inside_eq]
    by_cases hp : next ≤ p
    · rw [decide_eq_true hp, Bool.and_true, Bool.and_true, ← Bool.bne_assoc, ← Bool.bne_assoc,
        ← hinside]
      split
      · rename_i hsame
        rw [beq_iff_eq.mp hsame]
      · rename_i hdiffers
        have hflips : op inLeft inRight = !op (inLeft != movedLeft) (inRight != movedRight) := by
          rw [Bool.eq_not]
          exact fun h => hdiffers (beq_iff_eq.mpr h.symm)
        rw [inside, decide_eq_true hp, hflips]
        simp
    · have hlt : p < next + 1 := by omega
      rw [hleft.rising.inside_of_lt hlt, hright.rising.inside_of_lt hlt]
      have hnone : inside (if op (inLeft != movedLeft) (inRight != movedRight) == op inLeft inRight
          then changes else next :: changes) p = false := by
        split
        · exact hrising.inside_of_lt hlt
        · rw [inside, hrising.inside_of_lt hlt, decide_eq_false hp]
          rfl
      rw [hnone]
      simp [hp]

/-- **Going through two sets side by side** keeps the changes of what `op` makes of them. -/
theorem combineFrom_combined (op : Bool → Bool → Bool) {fuel low : Nat} {left right : List Nat}
    (hleft : Rising low left) (hright : Rising low right)
    (hfuel : left.length + right.length ≤ fuel) (inLeft inRight : Bool) :
    Combined op inLeft inRight left right low
      (combineFrom op fuel inLeft inRight left right) := by
  induction fuel generalizing low left right inLeft inRight with
  | zero =>
    obtain rfl : left = [] := List.length_eq_zero_iff.mp (by omega)
    obtain rfl : right = [] := List.length_eq_zero_iff.mp (by omega)
    exact ⟨trivial, fun p => by simp [combineFrom, inside]⟩
  | succ fuel ih =>
    by_cases hempty : left = [] ∧ right = []
    · obtain ⟨rfl, rfl⟩ := hempty
      exact ⟨trivial, fun p => by simp [combineFrom, inside]⟩
    · have hmoved := hleft.head?_eq_or hright hempty
      have hpast := hleft.past (Nat.min_le_left _ (right.headD placeCount))
      have hpast' := hright.past (Nat.min_le_right (left.headD placeCount) _)
      rw [combineFrom]
      · refine .step hpast hpast' hmoved (ih hpast.rising hpast'.rising ?_ _ _)
        have hle := hpast.length_le
        have hle' := hpast'.length_le
        rcases hmoved with hmoved | hmoved
        · have hlt := hpast.length_lt hmoved
          omega
        · have hlt := hpast'.length_lt hmoved
          omega
      · exact fun hl hr => hempty ⟨hl, hr⟩

/-! ### The changes of a set -/

/-- The set whose membership changes at the places has the members that they tell. -/
theorem contains_ofChanges {low : Nat} {changes : List Nat} (h : Rising low changes) (c : Char) :
    (ofChanges changes).contains c = inside changes (place c.toNat) := by
  fun_induction ofChanges changes generalizing low with
  | case1 => rfl
  | case2 first =>
    have hfirst : charAt first ≤ c ↔ first ≤ place c.toNat := by
      rw [le_iff_place_le, place_toNat_charAt h.2.1]
    simp [contains, inside, hfirst, le_charAt_last]
  | case3 first stop rest ih =>
    obtain ⟨-, hfirst, hstop, hbound, hrest⟩ := h
    have hlow : charAt first ≤ c ↔ first ≤ place c.toNat := by
      rw [le_iff_place_le, place_toNat_charAt hfirst]
    have hhigh : c ≤ charAt (stop - 1) ↔ place c.toNat < stop := by
      rw [le_iff_place_le, place_toNat_charAt (by omega)]
      omega
    rw [contains, contains, ih hrest, inside, inside, decide_eq_decide.mpr hlow,
      decide_eq_decide.mpr hhigh]
    by_cases hbefore : place c.toNat < stop
    · rw [hrest.inside_of_lt (by omega), decide_eq_false (by omega : ¬ stop ≤ place c.toNat),
        decide_eq_true hbefore]
      simp
    · rw [decide_eq_true (by omega : first ≤ place c.toNat),
        decide_eq_true (by omega : stop ≤ place c.toNat), decide_eq_false hbefore]
      simp

/-- A table of ranges in increasing order that do not touch. -/
def tidy : Nat → List (Nat × Nat) → Bool
  | _, [] => true
  | low, (first, last) :: rest =>
    low ≤ place first && isCode first && isCode last && first ≤ last &&
      place last + 1 < placeCount && tidy (place last + 2) rest

/-- The ranges of a tidy table begin and end where membership changes. -/
theorem rising_changesOfRanges {low : Nat} {ranges : List (Nat × Nat)}
    (h : tidy low ranges = true) : Rising low (changesOfRanges ranges) ∧ ∀ c : Char,
      inside (changesOfRanges ranges) (place c.toNat) = Unicode.inRanges c.toNat ranges := by
  induction ranges generalizing low with
  | nil => exact ⟨trivial, fun c => rfl⟩
  | cons range ranges ih =>
    obtain ⟨first, last⟩ := range
    simp only [tidy, Bool.and_eq_true, decide_eq_true_eq] at h
    obtain ⟨⟨⟨⟨⟨hlow, hfirst⟩, hlast⟩, hle⟩, hbound⟩, hrest⟩ := h
    obtain ⟨hrising, hinside⟩ := ih hrest
    have hplaces := place_le_place hfirst hlast
    have hchanges : changesOfRanges ((first, last) :: ranges) =
        place first :: (place last + 1) :: changesOfRanges ranges := by
      rw [changesOfRanges, List.flatMap_cons, changesOfRange, if_neg (by omega), if_pos hbound]
      rfl
    rw [hchanges]
    refine ⟨⟨hlow, by omega, by omega, hbound, hrising⟩, fun c => ?_⟩
    have hfrom := place_le_place hfirst (isCode_toNat c)
    have hto := place_le_place (isCode_toNat c) hlast
    rw [inside, inside, Unicode.inRanges, decide_eq_decide.mpr hfrom]
    by_cases hbehind : c.toNat ≤ last
    · rw [hrising.inside_of_lt (by omega),
        decide_eq_false (by omega : ¬ place last + 1 ≤ place c.toNat), decide_eq_true hbehind]
      by_cases hbefore : c.toNat < first
      · rw [if_pos hbefore, decide_eq_false (by omega)]
        rfl
      · rw [if_neg hbefore, decide_eq_true (by omega)]
        rfl
    · rw [hinside, if_neg (by omega), decide_eq_true (by omega : first ≤ c.toNat),
        decide_eq_true (by omega : place last + 1 ≤ place c.toNat), decide_eq_false hbehind]
      simp

/-- `Describes changes member`: the places at which membership changes tell who is a member. -/
structure Describes (changes : List Nat) (member : Char → Bool) : Prop where
  rising : Rising 0 changes
  inside_eq : ∀ c : Char, inside changes (place c.toNat) = member c

namespace Describes

variable {left right : List Nat} {f g : Char → Bool}

theorem congr (h : Describes left f) (hfg : ∀ c, f c = g c) : Describes left g :=
  ⟨h.rising, fun c => (h.inside_eq c).trans (hfg c)⟩

/-- The changes of two sets, combined, describe the combined set. -/
theorem combine {op : Bool → Bool → Bool} (hop : op false false = false) (hleft : Describes left f)
    (hright : Describes right g) :
    Describes (CharSet.combine op left right) fun c => op (f c) (g c) := by
  obtain ⟨hrising, hinside⟩ :=
    combineFrom_combined op hleft.rising hright.rising (Nat.le_refl _) false false
  refine ⟨hrising, fun c => ?_⟩
  have hplace := hinside (place c.toNat)
  rw [hop, Bool.false_bne, Bool.false_bne, Bool.false_bne, hleft.inside_eq,
    hright.inside_eq] at hplace
  exact hplace

/-- The characters between two others. -/
theorem range {first last : Nat} (hfirst : isCode first = true) (hlast : isCode last = true) :
    Describes (changesOfRange first last) fun c => first ≤ c.toNat && c.toNat ≤ last := by
  have hplaces := place_le_place hfirst hlast
  have hfirstLt := place_lt hfirst
  have hmember : ∀ c : Char, (decide (first ≤ c.toNat) && decide (c.toNat ≤ last)) =
      (decide (place first ≤ place c.toNat) && decide (place c.toNat ≤ place last)) := by
    intro c
    simp only [place_le_place hfirst (isCode_toNat c), place_le_place (isCode_toNat c) hlast]
  unfold changesOfRange
  split
  · refine ⟨trivial, fun c => ?_⟩
    simp only [inside, Bool.false_eq, Bool.and_eq_false_iff, decide_eq_false_iff_not]
    omega
  · split
    · refine ⟨⟨Nat.zero_le _, hfirstLt, by omega, by assumption, trivial⟩, fun c => ?_⟩
      rw [hmember, inside, inside, inside, Bool.bne_false]
      by_cases hbehind : place c.toNat ≤ place last
      · rw [decide_eq_true hbehind, decide_eq_false (by omega : ¬ place last + 1 ≤ place c.toNat),
          Bool.bne_false, Bool.and_true]
      · rw [decide_eq_false hbehind, decide_eq_true (by omega), decide_eq_true (by omega)]
        rfl
    · refine ⟨⟨Nat.zero_le _, hfirstLt, trivial⟩, fun c => ?_⟩
      have hlt := place_lt (isCode_toNat c)
      rw [hmember, inside, inside, Bool.bne_false,
        decide_eq_true (by omega : place c.toNat ≤ place last), Bool.and_true]

/-- The characters of a table. -/
theorem ranges {ranges : List (Nat × Nat)} (h : tidy 0 ranges = true) :
    Describes (changesOfRanges ranges) fun c => Unicode.inRanges c.toNat ranges :=
  ⟨(rising_changesOfRanges h).1, (rising_changesOfRanges h).2⟩

/-- Some more characters. -/
theorem addAll {changes : List Nat} (h : Describes changes f) (cs : List Char) :
    Describes (cs.foldl (fun places c => CharSet.combine (fun x y => x || y) places
      (changesOfRange c.toNat c.toNat)) changes) fun c => f c || cs.contains c := by
  induction cs generalizing changes f with
  | nil => exact h.congr fun c => by simp
  | cons d cs ih =>
    have hcode := isCode_toNat d
    refine (ih (h.combine rfl (.range hcode hcode))).congr fun c => ?_
    have hsame : (decide (d.toNat ≤ c.toNat) && decide (c.toNat ≤ d.toNat)) = (c == d) := by
      rw [Bool.eq_iff_iff, Bool.and_eq_true, decide_eq_true_eq, decide_eq_true_eq, beq_iff_eq,
        ← Char.toNat_inj]
      omega
    rw [hsame, List.contains_cons, Bool.or_assoc]

end Describes

/-- A character is listed among the variants of a set if one of its variants is a member. -/
theorem contains_caseVariantsOf (s : CharSet) (c : Char) : (caseVariantsOf s).contains c =
    (Unicode.caseVariants c).any fun d => s.contains d := by
  rw [Bool.eq_iff_iff, List.contains_iff_mem, caseVariantsOf, List.mem_filter,
    and_iff_right_of_imp]
  intro hany
  unfold Unicode.caseVariants at hany
  split at hany
  · rename_i distances hfind
    obtain ⟨run, hrun, hfirst, hlast, hstep, -⟩ := Unicode.Run.exists_of_find? hfind
    refine List.mem_map.mpr ⟨c.toNat, List.mem_flatMap.mpr ⟨run, hrun, List.mem_map.mpr
      ⟨(c.toNat - run.first) / run.step, List.mem_range.mpr ?_, ?_⟩⟩, Char.ofNat_toNat c⟩
    · exact Nat.lt_succ_of_le (Nat.div_le_div_right (by omega))
    · have hdiv := Nat.mul_div_cancel' (Nat.dvd_of_mod_eq_zero hstep)
      omega
  · cases hany

theorem tidy_wordRanges : tidy 0 Unicode.wordRanges = true := by
  decide +kernel

theorem tidy_decimalRanges : tidy 0 Unicode.decimalRanges = true := by
  decide +kernel

theorem tidy_spaceRanges : tidy 0 Unicode.spaceRanges = true := by
  decide +kernel

/-- **The changes of a set tell its members.** -/
theorem changes_describes (s : CharSet) : Describes s.changes s.contains := by
  induction s with
  | empty => exact ⟨trivial, fun c => rfl⟩
  | range first last =>
    refine (Describes.range (isCode_toNat first) (isCode_toNat last)).congr fun c => ?_
    rfl
  | word => exact .ranges tidy_wordRanges
  | decimal => exact .ranges tidy_decimalRanges
  | space => exact .ranges tidy_spaceRanges
  | union s t ihs iht => exact ihs.combine rfl iht
  | inter s t ihs iht => exact ihs.combine rfl iht
  | diff s t ihs iht => exact ihs.combine rfl iht
  | symmDiff s t ihs iht => exact ihs.combine rfl iht
  | compl s ihs =>
    have hall : Describes [0] fun _ => true :=
      ⟨⟨Nat.le_refl 0, by decide, trivial⟩, fun c => rfl⟩
    exact (ihs.combine rfl hall).congr fun c => Bool.bne_true _
  | anyCase s ihs =>
    refine (ihs.addAll (caseVariantsOf s)).congr fun c => ?_
    rw [contains_caseVariantsOf, contains]

/-- **The canonical form of a set has the same members.** -/
theorem contains_canonical (s : CharSet) (c : Char) : s.canonical.contains c = s.contains c := by
  have h := changes_describes s
  rw [canonical, contains_ofChanges h.rising, h.inside_eq]

end CharSet

namespace Pattern

/-! ### Patterns in normal form -/

/-- The texts of a sequence are made up of texts of its items. -/
theorem language_sequence (items : List Pattern) :
    (sequence items).language = (items.map language).prod := by
  fun_induction sequence items with
  | case1 => rfl
  | case2 p => simp
  | case3 p rest _ ih => rw [language, ih, List.map_cons, List.prod_cons]

theorem prod_language_items (p : Pattern) : (p.items.map language).prod = p.language := by
  induction p with
  | empty => rfl
  | seq a b iha ihb => rw [items, List.map_append, List.prod_append, iha, ihb, language]
  | set | look | alt | group | repeated => simp [items]

/-- **The normal form of a pattern spells the same texts.** -/
theorem language_normal (p : Pattern) : p.normal.language = p.language := by
  induction p with
  | empty => rfl
  | set s =>
    ext part
    rw [normal, mem_language_set, mem_language_set]
    simp only [CharSet.contains_canonical]
  | look l => rfl
  | seq a b iha ihb =>
    rw [normal, language_sequence, List.map_append, List.prod_append, prod_language_items,
      prod_language_items, iha, ihb, language]
  | alt a b iha ihb =>
    rw [normal, language, ← iha, ← ihb]
    split
    · rename_i s t hs ht
      ext part
      rw [hs, ht, Language.mem_add, mem_language_set, mem_language_set, mem_language_set]
      simp only [CharSet.contains_canonical, CharSet.contains, Bool.or_eq_true]
      constructor
      · rintro ⟨x, hx | hx, rfl⟩
        · exact .inl ⟨x, hx, rfl⟩
        · exact .inr ⟨x, hx, rfl⟩
      · rintro (⟨x, hx, rfl⟩ | ⟨x, hx, rfl⟩)
        · exact ⟨x, .inl hx, rfl⟩
        · exact ⟨x, .inr hx, rfl⟩
    · rfl
  | group index name a iha => exact iha
  | repeated min max greedy a iha => rw [normal, language, iha, language]

/-- Items that are alike match the same texts. -/
theorem prod_language_of_alike {as bs : List Pattern}
    (h : List.Forall₂ (fun a b => alike a b = true) as bs) :
    (as.map language).prod = (bs.map language).prod := by
  induction h with
  | nil => rfl
  | @cons a b as bs hab _ ih =>
    have hlanguage : a.language = b.language := by
      rw [← language_normal, normal_eq_of_alike hab, language_normal]
    rw [List.map_cons, List.map_cons, List.prod_cons, List.prod_cons, ih, hlanguage]

/-- The texts of a branch are made up of what it shares and of its rest. -/
theorem Begins.language_eq {shared : List Pattern} {branch rest : Pattern}
    (h : Begins shared branch rest) :
    branch.language = (sequence shared).language * rest.language := by
  obtain ⟨front, back, hitems, rfl, halike⟩ := h
  rw [← prod_language_items, hitems, List.map_append, List.prod_append, language_sequence,
    language_sequence, prod_language_of_alike halike]

/-- A text that one of some branches spells is what they share and what one of the rests spells. -/
theorem exists_mem_language_iff {shared branches rests : List Pattern}
    (h : List.Forall₂ (Begins shared) branches rests) (part : List Char) :
    (∃ branch ∈ branches, part ∈ branch.language) ↔
      ∃ rest ∈ rests, part ∈ (sequence shared).language * rest.language := by
  induction h with
  | nil => simp
  | cons hbegins _ ih => rw [List.exists_mem_cons_iff, List.exists_mem_cons_iff, ih,
      hbegins.language_eq]

/-- **A choice spells what its branches spell**, also if what they share stands in front of it. -/
theorem mem_language_ofBranches {last : Pattern} {earlier : List Pattern} {part : List Char} :
    part ∈ (ofBranches last earlier).language ↔
      ∃ branch ∈ last :: earlier, part ∈ branch.language := by
  rcases ofBranches_cases last earlier with h | ⟨shared, back, rests, h, hlast, hearlier⟩
  · rw [h, mem_language_choice]
  · rw [exists_mem_language_iff (.cons (.of_items hlast) hearlier), h, language, Language.mem_mul]
    simp only [Language.mem_mul, mem_language_choice]
    constructor
    · rintro ⟨front, hfront, later, ⟨rest, hrest, hlater⟩, rfl⟩
      exact ⟨rest, hrest, front, hfront, later, hlater, rfl⟩
    · rintro ⟨rest, hrest, front, hfront, later, hlater, rfl⟩
      exact ⟨front, hfront, later, ⟨rest, hrest, hlater⟩, rfl⟩

/-! ### What patterns inherit from their parts -/

section Parts

-- what sequences inherit from their parts and hand down to them, and choices inherit
variable {P : Pattern → Prop} (empty : P .empty) (seq : ∀ a b, P (.seq a b) ↔ P a ∧ P b)
  (alt : ∀ a b, P a → P b → P (.alt a b))

include seq in
theorem items_of_parts {p : Pattern} (hp : P p) : ∀ item ∈ p.items, P item := by
  induction p with
  | empty => simp [items]
  | seq a b iha ihb =>
    rw [seq] at hp
    rw [items, List.forall_mem_append]
    exact ⟨iha hp.1, ihb hp.2⟩
  | set | look | alt | group | repeated => simpa [items] using hp

include empty seq in
theorem sequence_of_parts {l : List Pattern} (hl : ∀ item ∈ l, P item) : P (sequence l) := by
  fun_induction sequence l with
  | case1 => exact empty
  | case2 p => exact hl p List.mem_cons_self
  | case3 p rest _ ih =>
    rw [List.forall_mem_cons] at hl
    exact (seq _ _).mpr ⟨hl.1, ih hl.2⟩

include alt in
/-- What holds of all branches holds of a choice, if it goes over from parts to a choice. -/
theorem choice_of_parts {last : Pattern} {earlier : List Pattern}
    (h : ∀ branch ∈ last :: earlier, P branch) : P (choice last earlier) := by
  induction earlier generalizing last with
  | nil => exact h last List.mem_cons_self
  | cons branch earlier ih =>
    simp only [List.forall_mem_cons] at h ih
    exact ih ⟨alt _ _ h.2.1 h.1, h.2.2⟩

include empty seq alt in
/-- A choice inherits from its branches, also if what they share stands in front of it. -/
theorem ofBranches_of_parts {last : Pattern} {earlier : List Pattern}
    (h : ∀ branch ∈ last :: earlier, P branch) : P (ofBranches last earlier) := by
  rcases ofBranches_cases last earlier with hform | ⟨shared, back, rests, hform, hlast, hearlier⟩
  · rw [hform]
    exact choice_of_parts alt h
  · rw [List.forall_mem_cons] at h
    have hparts : ∀ item ∈ shared ++ back, P item := hlast ▸ items_of_parts seq h.1
    rw [List.forall_mem_append] at hparts
    have hrests : ∀ rest ∈ rests, P rest := by
      refine forall_mem_of_forall₂ hearlier ?_ h.2
      rintro branch _ ⟨front, tail, hbranch, rfl, -⟩ hP
      have hitems := items_of_parts seq hP
      rw [hbranch, List.forall_mem_append] at hitems
      exact sequence_of_parts empty seq hitems.2
    rw [hform, seq]
    refine ⟨sequence_of_parts empty seq hparts.1, choice_of_parts alt ?_⟩
    exact List.forall_mem_cons.mpr ⟨sequence_of_parts empty seq hparts.2, hrests⟩

end Parts

end Pattern

end Relabel
