import Relabel.Proofs.Filling
import Relabel.Proofs.NormalForms

/-!
# Names with slots in them

Names are escaped before they are put into a template, so they are meant literally. But what marks a
slot has no meaning in a pattern and is not escaped. A name with `%s` in it therefore brings slots
into the template, and stands for the texts that result when keys are put into them (`instances`):
these are what its part of the template spells, up to case if case is ignored
(`Pattern.mem_language_slotted`). A name without slots is its only instance.
-/

namespace Relabel

/-- The texts that result when a key is put into every slot of a text. -/
def instances (keys : List (List Char)) : List Char → List (List Char)
  | '%' :: 's' :: rest => keys.flatMap fun key => (instances keys rest).map (key ++ ·)
  | c :: rest => (instances keys rest).map (c :: ·)
  | [] => [[]]

section Instances

variable {keys keys' : List (List Char)} {text other : List Char}

/-- A name without slots is its only instance. -/
theorem instances_of_hasSlot (h : hasSlot text = false) : instances keys text = [text] := by
  fun_induction instances keys text with
  | case1 rest => cases h
  | case2 c rest hslot ih =>
    rw [hasSlot] at h
    · rw [ih h]
      rfl
    · exact hslot
  | case3 => rfl

/-- The instances depend only on which keys there are. -/
theorem mem_instances_congr (h : ∀ key, key ∈ keys ↔ key ∈ keys') :
    other ∈ instances keys text ↔ other ∈ instances keys' text := by
  fun_induction instances keys text generalizing other with
  | case1 rest ih => simp only [instances, List.mem_flatMap, List.mem_map, h, ih]
  | case2 c rest hslot ih =>
    rw [instances]
    · simp only [List.mem_map, ih]
    · exact hslot
  | case3 => rfl

/-- What is in an instance is in the text or in a key. -/
theorem mem_or_of_mem_instances (h : other ∈ instances keys text) {y : Char} (hy : y ∈ other) :
    y ∈ text ∨ ∃ key ∈ keys, y ∈ key := by
  fun_induction instances keys text generalizing other with
  | case1 rest ih =>
    obtain ⟨key, hkey, hother⟩ := List.mem_flatMap.mp h
    obtain ⟨later, hlater, rfl⟩ := List.mem_map.mp hother
    rcases List.mem_append.mp hy with hmem | hmem
    · exact .inr ⟨key, hkey, hmem⟩
    · rcases ih hlater hmem with hrest | hkeys
      · exact .inl (by simp [hrest])
      · exact .inr hkeys
  | case2 c rest hslot ih =>
    obtain ⟨later, hlater, rfl⟩ := List.mem_map.mp h
    rcases List.mem_cons.mp hy with rfl | hmem
    · exact .inl List.mem_cons_self
    · rcases ih hlater hmem with hrest | hkeys
      · exact .inl (List.mem_cons_of_mem _ hrest)
      · exact .inr hkeys
  | case3 =>
    obtain rfl := List.mem_singleton.mp h
    cases hy

end Instances

namespace Mapping

variable {mapping : Mapping} {key : List Char}

def keyTexts (mapping : Mapping) : List (List Char) :=
  mapping.map fun entry => entry.1.toList

theorem mem_texts : key ∈ (Lookup.ofMapping mapping true).texts ↔ key ∈ mapping.keyTexts := by
  simp only [keyTexts, Lookup.texts, List.mem_reverse, List.mem_map, Lookup.mem_keys,
    exists_exists_and_eq_and]

theorem Identifiers.of_mem_keyTexts (h : mapping.Identifiers) (hkey : key ∈ mapping.keyTexts) :
    key ≠ [] ∧ ∀ y ∈ key, isIdentifierChar y = true := by
  obtain ⟨entry, hentry, rfl⟩ := List.mem_map.mp hkey
  apply h.of_mem
  rw [String.ofList_toList]
  exact List.mem_map_of_mem hentry

end Mapping

namespace Pattern

/-- The items of a text in a template: a slot is taken for the keys, all else is literal. -/
def slotItems (flags : Flags) (keys : Pattern) : List Char → List Pattern
  | '%' :: 's' :: rest => keys :: slotItems flags keys rest
  | c :: rest => literal flags c :: slotItems flags keys rest
  | [] => []

def slotRow (flags : Flags) (keys : Pattern) (text : List Char) : Pattern :=
  row (slotItems flags keys text)

/-- The pattern of some texts in a template one of which is meant, given latest first. -/
def slotted (flags : Flags) (keys : Pattern) : List (List Char) → Pattern
  | [] => .empty
  | last :: earlier => ofBranches (slotRow flags keys last) (earlier.map (slotRow flags keys))

variable {flags : Flags} {keys : List (List Char)}

/-- Two literals in a row spell the texts one after the other. -/
theorem language_spelled_append (flags : Flags) (front back : List Char) :
    (spelled flags (front ++ back)).language =
      (spelled flags front).language * (spelled flags back).language := by
  induction front with
  | nil => exact (one_mul _).symm
  | cons c front ih =>
    rw [List.cons_append, spelled_cons, spelled_cons, language, language, ih, mul_assoc]

theorem mem_language_oneOf_spelled (hne : keys ≠ []) {part : List Char} :
    part ∈ (oneOf flags keys).language ↔ ∃ key ∈ keys, part ∈ (spelled flags key).language := by
  rw [mem_language_oneOf hne]
  simp only [mem_language_spelled]

/-- A text in a template spells what its instances spell. -/
theorem mem_language_slotRow (hne : keys ≠ []) {text part : List Char} :
    part ∈ (slotRow flags (oneOf flags keys) text).language ↔
      ∃ other ∈ instances keys text, part ∈ (spelled flags other).language := by
  unfold slotRow
  fun_induction slotItems flags (oneOf flags keys) text generalizing part with
  | case1 rest ih =>
    simp only [mem_language_row_cons, mem_language_oneOf_spelled hne, ih, instances,
      List.mem_flatMap, List.mem_map]
    constructor
    · rintro ⟨front, ⟨key, hkey, hfront⟩, back, ⟨later, hlater, hback⟩, rfl⟩
      refine ⟨key ++ later, ⟨key, hkey, later, hlater, rfl⟩, ?_⟩
      rw [language_spelled_append]
      exact Language.append_mem_mul hfront hback
    · rintro ⟨_, ⟨key, hkey, later, hlater, rfl⟩, hpart⟩
      rw [language_spelled_append] at hpart
      obtain ⟨front, hfront, back, hback, rfl⟩ := hpart
      exact ⟨front, ⟨key, hkey, hfront⟩, back, ⟨later, hlater, hback⟩, rfl⟩
  | case2 c rest hslot ih =>
    rw [instances]
    · simp only [mem_language_row_cons, ih, List.mem_map, exists_exists_and_eq_and, spelled_cons]
      constructor
      · rintro ⟨front, hfront, back, ⟨later, hlater, hback⟩, rfl⟩
        exact ⟨later, hlater, Language.append_mem_mul hfront hback⟩
      · rintro ⟨later, hlater, front, hfront, back, hback, rfl⟩
        exact ⟨front, hfront, back, ⟨later, hlater, hback⟩, rfl⟩
    · exact hslot
  | case3 => simp [instances, spelled, ofItems, row]

/-- **Some texts in a template spell their instances**, up to case if case is ignored. -/
theorem mem_language_slotted (hne : keys ≠ []) {texts : List (List Char)} (htexts : texts ≠ [])
    {part : List Char} : part ∈ (slotted flags (oneOf flags keys) texts).language ↔
      ∃ text ∈ texts, ∃ other ∈ instances keys text,
        writtenAs flags.ignoreCase part other = true := by
  cases texts with
  | nil => exact absurd rfl htexts
  | cons last earlier =>
    rw [slotted, mem_language_ofBranches, ← List.map_cons]
    simp only [List.mem_map, exists_exists_and_eq_and, mem_language_slotRow hne,
      mem_language_spelled]

/-- What is inherited from parts, some texts in a template have if characters and the keys have
it. -/
theorem slotted_of_parts {P : Pattern → Prop} (empty : P .empty) (set : ∀ s, P (.set s))
    (seq : ∀ a b, P (.seq a b) ↔ P a ∧ P b) (alt : ∀ a b, P a → P b → P (.alt a b))
    {keys : Pattern} (hkeys : P keys) (flags : Flags) (texts : List (List Char)) :
    P (slotted flags keys texts) := by
  have hrow : ∀ text, P (slotRow flags keys text) := by
    intro text
    unfold slotRow
    fun_induction slotItems flags keys text with
    | case1 rest ih => exact (seq _ _).mpr ⟨hkeys, ih⟩
    | case2 c rest _ ih => exact (seq _ _).mpr ⟨set _, ih⟩
    | case3 => exact empty
  cases texts with
  | nil => exact empty
  | cons last earlier =>
    refine ofBranches_of_parts empty seq alt ?_
    rw [← List.map_cons]
    exact List.forall_mem_map.mpr fun text _ => hrow text

theorem lexical_slotted {keys : Pattern} (h : keys.lexical = true) (flags : Flags)
    (texts : List (List Char)) : (slotted flags keys texts).lexical = true := by
  refine slotted_of_parts (P := fun p => p.lexical = true) rfl (fun _ => rfl) ?_ ?_ h flags texts
  · intro a b
    rw [lexical, Bool.and_eq_true]
  · intro a b ha hb
    rw [lexical, ha, hb, Bool.and_self]

theorem proper_slotted {keys : Pattern} (h : keys.proper = true) (flags : Flags)
    (texts : List (List Char)) : (slotted flags keys texts).proper = true := by
  refine slotted_of_parts (P := fun p => p.proper = true) rfl (fun _ => rfl) ?_ ?_ h flags texts
  · intro a b
    rw [proper, Bool.and_eq_true]
  · intro a b ha hb
    rw [proper, ha, hb, Bool.and_self]

namespace Reader

variable {s : Reader} {keys : Flags → Pattern}

/-- One character of a template that opens no slot is read as it is. -/
theorem readTemplate_cons {c : Char} {rest : List Char}
    (h : c = '%' → rest.head? ≠ some 's') :
    s.readTemplate keys (c :: rest) = (s.step c).bind fun s => s.readTemplate keys rest := by
  rw [readTemplate]
  rintro tail rfl rfl
  exact h rfl rfl

/-- An escaped character of a template that opens no slot is read as a literal one. -/
theorem readTemplate_escape_singleton (hmode : s.mode = .item)
    (hblanks : s.level.flags.ignoreBlanks = false) {c : Char} {rest : List Char}
    (h : c = '%' → rest.head? ≠ some 's') :
    s.readTemplate keys (escape [c] ++ rest) =
      (s.push (literal s.level.flags c)).readTemplate keys rest := by
  have hread := read_escape_singleton hmode (Flags.counts_of_eq_false hblanks [c])
  by_cases hspecial : isSpecial c = true
  · have hescape : escape [c] = ['\\', c] := by simp [escape, hspecial]
    have hpercent : '%' ∉ escape [c] := by
      rw [hescape, List.mem_pair]
      rintro (hslash | rfl)
      · cases hslash
      · cases hspecial
    rw [readTemplate_append hpercent, hread, Option.bind_some]
  · have hescape : escape [c] = [c] := by simp [escape, hspecial]
    rw [hescape, read_singleton] at hread
    rw [hescape, List.singleton_append, readTemplate_cons h, hread, Option.bind_some]

/-- An escaped text of a template leaves its items behind. -/
theorem readTemplate_escape (hmode : s.mode = .item)
    (hblanks : s.level.flags.ignoreBlanks = false) (text : List Char) {back : List Char}
    (hback : back.head? ≠ some 's') :
    ∃ repeatable, s.readTemplate keys (escape text ++ back) = readTemplate keys
      { s with level := { s.level with
        items := (slotItems s.level.flags (keys s.level.flags) text).reverse ++ s.level.items,
        repeatable } } back := by
  induction text using slotItems.induct generalizing s with
  | case1 rest ih =>
    obtain ⟨repeatable, h⟩ := ih (s := s.push (keys s.level.flags)) rfl hblanks
    refine ⟨repeatable, ?_⟩
    have hescape : escape ('%' :: 's' :: rest) = '%' :: 's' :: escape rest := rfl
    rw [hescape, List.cons_append, List.cons_append, readTemplate, hmode, hblanks, h, slotItems]
    simp [push, Level.push]
  | case2 c rest hslot ih =>
    obtain ⟨repeatable, h⟩ := ih (s := s.push (literal s.level.flags c)) rfl hblanks
    refine ⟨repeatable, ?_⟩
    have hescape : escape (c :: rest) = escape [c] ++ escape rest := by simp [escape]
    have hnext : c = '%' → (escape rest ++ back).head? ≠ some 's' := by
      intro hc
      have hrest : rest.head? ≠ some 's' := by
        intro hhead
        obtain ⟨tail, rfl⟩ := List.head?_eq_some_iff.mp hhead
        exact hslot tail hc rfl
      have hescaped := head?_escape_ne hrest
      rw [List.head?_append]
      cases hhead : (escape rest).head? with
      | none => exact hback
      | some d =>
        rw [hhead] at hescaped
        exact hescaped
    rw [hescape, List.append_assoc, readTemplate_escape_singleton hmode hblanks hnext, h,
      slotItems]
    · simp [push, Level.push, hmode]
    · exact hslot
  | case3 => exact ⟨s.level.repeatable, rfl⟩

/-- Read into a group, the items of a text are its pattern. -/
theorem ofItems_slotItems (flags : Flags) (keys : Pattern) (text : List Char) :
    ofItems (slotItems flags keys text).reverse = slotRow flags keys text := by
  rw [ofItems, List.foldl_reverse]
  rfl

/-- Escaped texts of a template with bars between them are read as branches. -/
theorem readTemplate_joinBars (hmode : s.mode = .item)
    (hblanks : s.level.flags.ignoreBlanks = false) (hitems : s.level.items = [])
    {texts earlier : List (List Char)} {last back : List Char}
    (h : texts.reverse = last :: earlier) (hback : back.head? ≠ some 's') :
    ∃ repeatable, s.readTemplate keys (joinBars (texts.map escape) ++ back) = readTemplate keys
      { s with level := { s.level with
        branches := earlier.map (slotRow s.level.flags (keys s.level.flags)) ++ s.level.branches,
        items := (slotItems s.level.flags (keys s.level.flags) last).reverse, repeatable } }
      back := by
  induction texts generalizing s earlier with
  | nil => cases h
  | cons text texts ih =>
    cases texts with
    | nil =>
      cases h
      obtain ⟨repeatable, hread⟩ := readTemplate_escape hmode hblanks last hback
      exact ⟨repeatable, by simpa [joinBars, hitems] using hread⟩
    | cons next texts =>
      obtain ⟨last', others, hothers⟩ := List.exists_cons_of_ne_nil
        (show (next :: texts).reverse ≠ [] by simp)
      rw [List.reverse_cons, hothers, List.cons_append] at h
      obtain ⟨rfl, rfl⟩ := List.cons.inj h
      have hjoin : joinBars ((text :: next :: texts).map escape) ++ back =
          escape text ++ '|' :: (joinBars ((next :: texts).map escape) ++ back) := by
        simp [joinBars, List.intercalate]
      have hbar : ('|' :: (joinBars ((next :: texts).map escape) ++ back)).head? ≠ some 's' := by
        simp
      obtain ⟨repeatable, hread⟩ := readTemplate_escape hmode hblanks text hbar
      -- The bar ends the branch that the first text has filled.
      obtain ⟨repeatable', hrest⟩ := ih (s := { s with level := { s.level with
        branches := slotRow s.level.flags (keys s.level.flags) text :: s.level.branches,
        items := [], repeatable := false } }) hmode hblanks rfl hothers
      refine ⟨repeatable', ?_⟩
      rw [hjoin, hread, readTemplate_cons (by simp), step_of_visible (by decide)]
      simp only [readChar, hmode, readItem, Option.bind_some, Level.branch, hitems, List.append_nil,
        ofItems_slotItems]
      rw [hmode] at hrest
      rw [List.map_append, List.append_assoc]
      exact hrest

/-- **Some names in a template are read as one item.** -/
theorem readTemplate_slotted (hmode : s.mode = .item)
    (hblanks : s.level.flags.ignoreBlanks = false) {texts : List (List Char)} (hne : texts ≠ [])
    (back : List Char) :
    s.readTemplate keys ("(?:".toList ++ joinBars (texts.map escape) ++ [')'] ++ back) =
      (s.push (slotted s.level.flags (keys s.level.flags) texts.reverse)).readTemplate keys
        back := by
  obtain ⟨last, earlier, hreverse⟩ := List.exists_cons_of_ne_nil (List.reverse_ne_nil_iff.mpr hne)
  have hclose : (')' :: back).head? ≠ some 's' := by simp
  obtain ⟨repeatable, hjoined⟩ := readTemplate_joinBars (s := s.openGroup .plain s.level.flags)
    rfl hblanks rfl hreverse hclose
  rw [List.append_assoc, List.append_assoc, readTemplate_append (by decide),
    read_openPlain hmode, Option.bind_some, List.singleton_append, hjoined,
    readTemplate_cons (by simp), step_of_visible (by decide), hreverse]
  simp [readChar, readItem, closeGroup, openGroup, Level.pattern, Level.body, Level.start, push,
    slotted, ofItems_slotItems]

end Reader

end Pattern

end Relabel
