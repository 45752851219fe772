import Mathlib.Data.List.Perm.Basic
import Mathlib.Data.String.Basic
import Relabel.Expression.Basic

/-!
# The order of keys

A mapping lists its entries in some order, and that order must not matter. The keys are sorted by
their bytes (`Lookup.keys_eq_iff`), the pattern of the keys follows that order, and an entry is
looked up by a key that no other entry has. So everything that replacing takes from a mapping is
told by the set of its entries (`replacement_ignores_enumeration`).

Code points are compared where the order of bytes is meant. The two agree: of two different
characters the one with the smaller code point has the smaller byte where their UTF-8 forms first
differ (`utf8EncodeChar_append_lt`).
-/

namespace Relabel

/-! ### The order of bytes -/

def bytes (s : String) : List UInt8 :=
  s.toByteArray.data.toList

theorem length_bytes (s : String) : (bytes s).length = s.utf8ByteSize := by
  rw [bytes, Array.length_toList]
  rfl

theorem bytes_eq_flatMap (s : String) : bytes s = s.toList.flatMap String.utf8EncodeChar := by
  rw [bytes, ← String.utf8Encode_toList, List.utf8Encode]
  simp

theorem ofNat_lt_ofNat {m n : Nat} (hm : m < 256) (hn : n < 256) :
    UInt8.ofNat m < UInt8.ofNat n ↔ m < n := by
  rw [UInt8.lt_iff_toNat_lt, UInt8.toNat_ofNat_of_lt' hm, UInt8.toNat_ofNat_of_lt' hn]

theorem ofNat_eq_ofNat {m n : Nat} (hm : m < 256) (hn : n < 256) :
    UInt8.ofNat m = UInt8.ofNat n ↔ m = n := by
  rw [← UInt8.toNat_inj, UInt8.toNat_ofNat_of_lt' hm, UInt8.toNat_ofNat_of_lt' hn]

/-- **The order of characters is the order of their bytes**, whatever follows them. -/
theorem utf8EncodeChar_append_lt {c d : Char} (h : c < d) (xs ys : List UInt8) :
    String.utf8EncodeChar c ++ xs < String.utf8EncodeChar d ++ ys := by
  have hlt : c.val.toNat < d.val.toNat := h
  have hmax : d.val.toNat < 0x110000 := by
    rcases d.valid with hlow | hhigh
    · exact Nat.lt_trans hlow (by decide)
    · exact hhigh.2
  -- the bytes are the digits in base 64, the first of them marked with the number of bytes
  have htwo : ∀ k, k / 4096 = k / 64 / 64 := fun k => by omega
  have hthree : ∀ k, k / 262144 = k / 64 / 64 / 64 := fun k => by omega
  simp only [String.utf8EncodeChar, htwo, hthree]
  generalize c.val.toNat = m at hlt ⊢
  generalize d.val.toNat = n at hlt hmax ⊢
  split_ifs
  all_goals
    simp (disch := omega) only [List.cons_append, List.nil_append, List.cons_lt_cons_iff,
      ofNat_lt_ofNat, ofNat_eq_ofNat]
    omega

/-- Bytes compare as characters do. -/
theorem flatMap_utf8EncodeChar_lt {text other : List Char} (h : text < other) :
    text.flatMap String.utf8EncodeChar < other.flatMap String.utf8EncodeChar := by
  induction text generalizing other with
  | nil =>
    cases other with
    | nil => exact absurd h (List.lt_irrefl [])
    | cons d other =>
      obtain ⟨byte, later, hbytes⟩ :=
        List.exists_cons_of_ne_nil (String.utf8EncodeChar_ne_nil (c := d))
      rw [List.flatMap_nil, List.flatMap_cons, hbytes]
      exact List.nil_lt_cons _ _
  | cons c text ih =>
    cases other with
    | nil => exact absurd h (List.not_lt_nil _)
    | cons d other =>
      rw [List.flatMap_cons, List.flatMap_cons]
      rcases List.cons_lt_cons_iff.mp h with hchar | ⟨rfl, hlater⟩
      · exact utf8EncodeChar_append_lt hchar _ _
      · exact List.append_left_lt (ih hlater)

/-- **The order of texts is the order of their bytes.** -/
theorem bytes_lt_bytes_iff {s t : String} : bytes s < bytes t ↔ s < t := by
  have hmono : ∀ {s t : String}, s < t → bytes s < bytes t := by
    intro s t h
    rw [bytes_eq_flatMap, bytes_eq_flatMap]
    exact flatMap_utf8EncodeChar_lt h
  constructor
  · intro h
    rcases lt_trichotomy s t with hlt | rfl | hgt
    · exact hlt
    · exact absurd h (List.lt_irrefl _)
    · exact absurd h (List.lt_asymm (hmono hgt))
  · exact hmono

/-! ### Sorted keys -/

namespace Lookup

/-- `Precedes a b`: the key `a` is tried before the key `b`. It has more bytes or, if the two have
the same number of them, its bytes come first in lexicographic order. -/
def Precedes (a b : String) : Prop :=
  (bytes b).length < (bytes a).length ∨
    ((bytes a).length = (bytes b).length ∧ bytes a < bytes b)

instance (a b : String) : Decidable (Precedes a b) :=
  inferInstanceAs (Decidable (_ ∨ _))

/-- Keys are tried longest first, and those of one length in their own order. -/
theorem keyLe_iff {a b : String} : keyLe a b = true ↔
    b.utf8ByteSize < a.utf8ByteSize ∨ (a.utf8ByteSize = b.utf8ByteSize ∧ a ≤ b) := by
  simp only [keyLe, Bool.or_eq_true, Bool.and_eq_true, decide_eq_true_eq, beq_iff_eq,
    Bool.not_eq_true', decide_eq_false_iff_not, not_lt]

/-- A key precedes another if it is tried first and is not the same. -/
theorem precedes_iff {a b : String} : Precedes a b ↔ keyLe a b = true ∧ a ≠ b := by
  rw [Precedes, keyLe_iff, length_bytes, length_bytes, bytes_lt_bytes_iff,
    lt_iff_le_and_ne (a := a)]
  constructor
  · rintro (hsize | ⟨hsize, hle, hne⟩)
    · refine ⟨.inl hsize, ?_⟩
      rintro rfl
      exact Nat.lt_irrefl _ hsize
    · exact ⟨.inr ⟨hsize, hle⟩, hne⟩
  · rintro ⟨hsize | ⟨hsize, hle⟩, hne⟩
    · exact .inl hsize
    · exact .inr ⟨hsize, hle, hne⟩

theorem keyLe_trans (a b c : String) (hab : keyLe a b = true) (hbc : keyLe b c = true) :
    keyLe a c = true := by
  rw [keyLe_iff] at hab hbc ⊢
  rcases hab with hab | ⟨hab, hle⟩
  · rcases hbc with hbc | ⟨hbc, -⟩
    · exact .inl (Nat.lt_trans hbc hab)
    · exact .inl (hbc ▸ hab)
  · rcases hbc with hbc | ⟨hbc, hle'⟩
    · exact .inl (hab ▸ hbc)
    · exact .inr ⟨hab.trans hbc, hle.trans hle'⟩

theorem keyLe_total (a b : String) : (keyLe a b || keyLe b a) = true := by
  rw [Bool.or_eq_true, keyLe_iff, keyLe_iff]
  rcases Nat.lt_trichotomy a.utf8ByteSize b.utf8ByteSize with hlt | heq | hgt
  · exact .inr (.inl hlt)
  · rcases le_total a b with hle | hle
    · exact .inl (.inr ⟨heq, hle⟩)
    · exact .inr (.inr ⟨heq.symm, hle⟩)
  · exact .inl (.inl hgt)

/-- Of two keys, one precedes the other and not the other way round. -/
theorem not_precedes_of_precedes {a b : String} (h : Precedes a b) : ¬ Precedes b a := by
  rintro (hsize | ⟨hsize, hbytes⟩)
  · rcases h with h | ⟨h, -⟩ <;> omega
  · rcases h with h | ⟨-, h⟩
    · omega
    · exact List.lt_asymm h hbytes

variable {mapping : Mapping} {caseSensitive : Bool}

/-- The keys of a lookup are in the order in which they are tried. -/
theorem pairwise_keyLe_keys (mapping : Mapping) (caseSensitive : Bool) :
    (ofMapping mapping caseSensitive).keys.Pairwise fun a b => keyLe a b = true :=
  List.pairwise_mergeSort keyLe_trans keyLe_total (mapping.map Prod.fst)

/-- Of different keys, each precedes those that are tried later. -/
theorem pairwise_keys (hdistinct : (mapping.map Prod.fst).Nodup) :
    (ofMapping mapping caseSensitive).keys.Pairwise Precedes := by
  have hsorted := pairwise_keyLe_keys mapping caseSensitive
  have hnodup : ((mapping.map Prod.fst).mergeSort keyLe).Nodup :=
    (List.mergeSort_perm _ _).nodup_iff.mpr hdistinct
  exact (hsorted.and hnodup).imp fun h => precedes_iff.mpr h

/-- **The keys are in the only order in which each precedes all later ones.** -/
theorem keys_eq_iff (hdistinct : (mapping.map Prod.fst).Nodup) {keys : List String} :
    keys = (ofMapping mapping caseSensitive).keys ↔
      keys.Perm (mapping.map Prod.fst) ∧ keys.Pairwise Precedes := by
  have hperm : (ofMapping mapping caseSensitive).keys.Perm (mapping.map Prod.fst) :=
    List.mergeSort_perm _ _
  constructor
  · rintro rfl
    exact ⟨hperm, pairwise_keys hdistinct⟩
  · rintro ⟨hkeys, hpairwise⟩
    apply List.Perm.eq_of_pairwise _ hpairwise (pairwise_keys hdistinct) (hkeys.trans hperm.symm)
    intro a b _ _ hab hba
    exact absurd hba (not_precedes_of_precedes hab)

end Lookup

/-- `mapping.IsFirstKey condition key`: of the keys that satisfy a condition, this one precedes all
others. -/
def Mapping.IsFirstKey (mapping : Mapping) (condition : List Char → Prop) (key : String) : Prop :=
  key ∈ mapping.map Prod.fst ∧ condition key.toList ∧
    ∀ other ∈ mapping.map Prod.fst, condition other.toList →
      other = key ∨ Lookup.Precedes key other

/-- The key that is found by trying one after the other. -/
theorem Lookup.isFirstKey_of_find? {mapping : Mapping} {caseSensitive : Bool}
    {condition : List Char → Bool} {key : String}
    (h : (ofMapping mapping caseSensitive).keys.find? (fun key => condition key.toList) =
      some key) : mapping.IsFirstKey (fun key => condition key = true) key := by
  obtain ⟨hkey, earlier, later, hkeys, hearlier⟩ := List.find?_eq_some_iff_append.mp h
  have hsorted := pairwise_keyLe_keys mapping caseSensitive
  rw [hkeys, List.pairwise_append, List.pairwise_cons] at hsorted
  refine ⟨List.mem_mergeSort.mp (List.mem_of_find?_eq_some h), hkey, fun other hother hmeets => ?_⟩
  have htried : other ∈ earlier ++ key :: later := hkeys ▸ List.mem_mergeSort.mpr hother
  rw [List.mem_append, List.mem_cons] at htried
  rcases htried with hbefore | rfl | hafter
  · exact absurd hmeets (by simpa using hearlier other hbefore)
  · exact .inl rfl
  · by_cases heq : other = key
    · exact .inl heq
    · exact .inr (precedes_iff.mpr ⟨hsorted.2.1.1 other hafter, Ne.symm heq⟩)

/-! ### Entries in another order -/

section Entries

variable {β : Type} {entries entries' : List (String × β)}

/-- If no key stands twice, a value is found by its entry. -/
theorem lookup_eq_some_iff_mem (hdistinct : (entries.map Prod.fst).Nodup) {key : String}
    {value : β} : entries.lookup key = some value ↔ (key, value) ∈ entries := by
  induction entries with
  | nil => simp
  | cons entry entries ih =>
    obtain ⟨key', value'⟩ := entry
    rw [List.map_cons, List.nodup_cons] at hdistinct
    rw [List.lookup_cons, List.mem_cons]
    by_cases hkey : key = key'
    · have hlater : (key', value) ∉ entries := by
        intro hmem
        exact hdistinct.1 (List.mem_map.mpr ⟨_, hmem, rfl⟩)
      simp [hkey, hlater, eq_comm]
    · rw [beq_eq_false_iff_ne.mpr hkey]
      simp [hkey, ih hdistinct.2]

/-- What stands under a key does not depend on the order of entries with different keys. -/
theorem lookup_eq_of_perm (hperm : entries.Perm entries')
    (hdistinct : (entries.map Prod.fst).Nodup) (key : String) :
    entries'.lookup key = entries.lookup key := by
  have hdistinct' : (entries'.map Prod.fst).Nodup := (hperm.map Prod.fst).nodup_iff.mp hdistinct
  apply Option.ext
  intro value
  rw [lookup_eq_some_iff_mem hdistinct', lookup_eq_some_iff_mem hdistinct, hperm.mem_iff]

end Entries

/-! ### Mappings with the same entries -/

section Enumeration

variable {mapping mapping' : Mapping} {caseSensitive : Bool}

namespace Lookup

/-- The order of the entries of a mapping makes no difference to the keys. -/
theorem keys_eq_of_perm (hperm : mapping.Perm mapping')
    (hdistinct : (mapping.map Prod.fst).Nodup) :
    (ofMapping mapping' caseSensitive).keys = (ofMapping mapping caseSensitive).keys := by
  have hkeys := hperm.map Prod.fst
  obtain ⟨hfound, hsorted⟩ := (keys_eq_iff (hkeys.nodup_iff.mp hdistinct)).mp
    (rfl : (ofMapping mapping' caseSensitive).keys = _)
  exact (keys_eq_iff hdistinct).mpr ⟨hfound.trans hkeys.symm, hsorted⟩

theorem pattern_eq_of_perm (hperm : mapping.Perm mapping')
    (hdistinct : (mapping.map Prod.fst).Nodup) :
    (ofMapping mapping' caseSensitive).pattern = (ofMapping mapping caseSensitive).pattern := by
  rw [pattern, pattern, keys_eq_of_perm hperm hdistinct]

/-- The order of the entries of a mapping makes no difference to what resolves. -/
theorem get?_eq_of_perm (hperm : mapping.Perm mapping')
    (hdistinct : (mapping.map Prod.fst).Nodup) :
    (ofMapping mapping' caseSensitive).get? = (ofMapping mapping caseSensitive).get? := by
  have hvalue : ∀ key, (ofMapping mapping' caseSensitive).mapping.lookup key =
      (ofMapping mapping caseSensitive).mapping.lookup key :=
    lookup_eq_of_perm hperm hdistinct
  have hfirst : (ofMapping mapping' caseSensitive).first? =
      (ofMapping mapping caseSensitive).first? := by
    funext condition
    rw [first?, first?, keys_eq_of_perm hperm hdistinct]
    split
    · exact hvalue _
    · rfl
  funext identifier
  rw [get?, get?, hfirst, hvalue]
  rfl

end Lookup

end Enumeration

/-! ### What replacing takes from a mapping -/

namespace Matcher

variable {lookup lookup' : Lookup}

/-- Replacing depends on a lookup only by what it resolves. -/
theorem replaceCaptures_congr (hget : lookup'.get? = lookup.get?) (matcher : Matcher)
    (text : List Char) :
    matcher.replaceCaptures lookup' text = matcher.replaceCaptures lookup text := by
  rw [replaceCaptures, replaceCaptures, hget]

theorem replaceConsumed_congr (hget : lookup'.get? = lookup.get?) (matcher : Matcher)
    (decoration text : List Char) :
    matcher.replaceConsumed decoration lookup' text =
      matcher.replaceConsumed decoration lookup text := by
  rw [replaceConsumed, replaceConsumed, hget]

theorem replaceInRegions_congr (hget : lookup'.get? = lookup.get?) (inner : Matcher)
    (levels : List Matcher) (text : List Char) :
    replaceInRegions inner lookup' levels text = replaceInRegions inner lookup levels text := by
  induction levels generalizing text with
  | nil => rw [replaceInRegions, replaceInRegions, replaceCaptures_congr hget]
  | cons level levels ih => simp only [replaceInRegions, ih]

end Matcher

/-- Replacing takes from a mapping whether it is empty, the pattern of its keys and what a text
resolves to. -/
theorem Expression.replaceAll_congr {mapping mapping' : Mapping} {e : Expression}
    (hempty : mapping'.isEmpty = mapping.isEmpty)
    (hpattern : (Lookup.ofMapping mapping' e.caseSensitive).pattern =
      (Lookup.ofMapping mapping e.caseSensitive).pattern)
    (hget : (Lookup.ofMapping mapping' e.caseSensitive).get? =
      (Lookup.ofMapping mapping e.caseSensitive).get?) (text : String) :
    e.replaceAll text mapping' = e.replaceAll text mapping := by
  rw [replaceAll, replaceAll, hempty]
  dsimp only
  rw [hpattern]
  cases e.strategy with
  | direct template => simp only [Matcher.replaceCaptures_congr hget]
  | parallel template decoration => simp only [Matcher.replaceConsumed_congr hget]
  | nested outer within inner => simp only [Matcher.replaceInRegions_congr hget]

/-- **The order in which a mapping lists its entries does not matter.** The keys are put into the
only order in which longer ones (in bytes) precede shorter ones and, among keys of one length, those
precede whose bytes come first. So the keys, their pattern and what a text resolves to are the same
for every enumeration, and every expression replaces with the same outcome and the same report. -/
theorem replacement_ignores_enumeration {mapping mapping' : Mapping}
    (hperm : mapping.Perm mapping') (hdistinct : (mapping.map Prod.fst).Nodup) :
    (∀ caseSensitive : Bool,
      (Lookup.ofMapping mapping' caseSensitive).keys =
        (Lookup.ofMapping mapping caseSensitive).keys ∧
      (Lookup.ofMapping mapping' caseSensitive).pattern =
        (Lookup.ofMapping mapping caseSensitive).pattern ∧
      (∀ identifier, (Lookup.ofMapping mapping' caseSensitive).get? identifier =
        (Lookup.ofMapping mapping caseSensitive).get? identifier) ∧
      ∀ keys : List String, keys = (Lookup.ofMapping mapping caseSensitive).keys ↔
        keys.Perm (mapping.map Prod.fst) ∧ keys.Pairwise Lookup.Precedes) ∧
    ∀ (e : Expression) (text : String), e.replaceAll text mapping' = e.replaceAll text mapping := by
  constructor
  · intro caseSensitive
    refine ⟨Lookup.keys_eq_of_perm hperm hdistinct, Lookup.pattern_eq_of_perm hperm hdistinct, ?_,
      fun keys => Lookup.keys_eq_iff hdistinct⟩
    intro identifier
    rw [Lookup.get?_eq_of_perm hperm hdistinct]
  · intro e text
    have hempty : mapping'.isEmpty = mapping.isEmpty := by
      rw [Bool.eq_iff_iff, List.isEmpty_iff, List.isEmpty_iff]
      exact ⟨fun h => (h ▸ hperm).eq_nil, fun h => (h ▸ hperm).nil_eq.symm⟩
    exact Expression.replaceAll_congr hempty (Lookup.pattern_eq_of_perm hperm hdistinct)
      (Lookup.get?_eq_of_perm hperm hdistinct) text

/-- Keys of several lengths, two of which differ in case only. -/
theorem replacement_ignores_enumeration_cased :
    ["ab", "é", "K", "k"] =
        (Lookup.ofMapping [("k", "1"), ("é", "2"), ("K", "3"), ("ab", "4")] false).keys ∧
      ∀ (e : Expression) (text : String),
        e.replaceAll text [("K", "3"), ("ab", "4"), ("k", "1"), ("é", "2")] =
          e.replaceAll text [("k", "1"), ("é", "2"), ("K", "3"), ("ab", "4")] := by
  have hperm : List.Perm [("k", "1"), ("é", "2"), ("K", "3"), ("ab", "4")]
      [("K", "3"), ("ab", "4"), ("k", "1"), ("é", "2")] := by
    decide
  obtain ⟨hlookup, hreplaced⟩ := replacement_ignores_enumeration hperm (by decide)
  exact ⟨((hlookup false).2.2.2 _).mpr ⟨by decide, by decide⟩, hreplaced⟩

end Relabel
