import Relabel.Proofs.Builtin
import Relabel.Proofs.Languages

/-!
# What a filled template spells

A template is read with a pattern for its slots in place of text: `Reader.readTemplate` is the
reader that takes a slot for one item. Reading the filled template comes to the same, so the pattern
of a template is found by evaluating the reader on the template alone, whatever the keys are
(`Template.pattern_of_readTemplate`).
-/

namespace Relabel

/-! ### Text without slots -/

theorem mem_joinBars {x : Char} {texts : List (List Char)} (h : x ∈ joinBars texts) :
    x = '|' ∨ ∃ text ∈ texts, x ∈ text := by
  induction texts with
  | nil => cases h
  | cons text texts ih =>
    cases texts with
    | nil =>
      refine .inr ⟨text, List.mem_cons_self, ?_⟩
      simpa [joinBars] using h
    | cons next texts =>
      have hjoin : joinBars (text :: next :: texts) = text ++ '|' :: joinBars (next :: texts) := by
        simp [joinBars, List.intercalate]
      rw [hjoin, List.mem_append, List.mem_cons] at h
      rcases h with hfirst | hbar | hlater
      · exact .inr ⟨text, List.mem_cons_self, hfirst⟩
      · exact .inl hbar
      · rcases ih hlater with hbar | ⟨other, hother, hmem⟩
        · exact .inl hbar
        · exact .inr ⟨other, List.mem_cons_of_mem _ hother, hmem⟩

/-- Escaping adds nothing but backslashes. -/
theorem mem_escape {x : Char} {text : List Char} (h : x ∈ escape text) : x = '\\' ∨ x ∈ text := by
  obtain ⟨c, hc, hx⟩ := List.mem_flatMap.mp h
  split at hx
  · rcases List.mem_pair.mp hx with rfl | rfl
    · exact .inl rfl
    · exact .inr hc
  · obtain rfl := List.mem_singleton.mp hx
    exact .inr hc

theorem hasSlot_append {front back : List Char} (h : hasSlot back = true) :
    hasSlot (front ++ back) = true := by
  induction front with
  | nil => exact h
  | cons c front ih =>
    rw [List.cons_append]
    unfold hasSlot
    split
    · rfl
    · rename_i heq
      cases heq
      exact ih
    · rename_i heq
      cases heq

/-- A text without a percent sign has no slot. -/
theorem hasSlot_of_notMem {text : List Char} (h : '%' ∉ text) : hasSlot text = false := by
  fun_induction hasSlot text with
  | case1 rest => simp at h
  | case2 c rest hslot ih => exact ih (fun hmem => h (List.mem_cons_of_mem _ hmem))
  | case3 => rfl

namespace Pattern

namespace Reader

variable {s s' : Reader}

/-- Literal texts with bars between them, in a group, are read as one item. -/
theorem read_oneOf (hmode : s.mode = .item) {texts : List (List Char)}
    (hcounts : ∀ text ∈ texts, s.level.flags.Counts text) :
    s.read ("(?:".toList ++ joinBars (texts.map escape) ++ [')']) =
      some (s.push (oneOf s.level.flags texts.reverse)) := by
  rw [List.append_assoc, read_append, read_openPlain hmode, Option.bind_some, read_append]
  cases hreverse : texts.reverse with
  | nil =>
    obtain rfl := List.reverse_eq_nil_iff.mp hreverse
    have hempty : (s.openGroup .plain s.level.flags).read (joinBars (List.map escape [])) =
        some (s.openGroup .plain s.level.flags) := rfl
    rw [hempty, Option.bind_some, read_singleton, step_of_visible (by decide)]
    rfl
  | cons last earlier =>
    obtain ⟨repeatable, hjoined⟩ :=
      read_joinBars (s := s.openGroup .plain s.level.flags) rfl rfl hcounts hreverse
    rw [hjoined, Option.bind_some, read_singleton, step_of_visible (by decide)]
    simp [readChar, readItem, closeGroup, openGroup, Level.pattern, Level.body, Level.start, push,
      oneOf, spelled]

/-- Reads a template, taking every slot for the pattern of the keys. A slot stands where an item
may and where blanks count, for keys may have blanks. -/
def readTemplate (keys : Flags → Pattern) : Reader → List Char → Option Reader
  | r, '%' :: 's' :: rest =>
    match r.mode, r.level.flags.ignoreBlanks with
    | .item, false => readTemplate keys (r.push (keys r.level.flags)) rest
    | _, _ => none
  | r, c :: rest => (r.step c).bind fun r => readTemplate keys r rest
  | r, [] => some r

theorem read_cons (s : Reader) (c : Char) (text : List Char) :
    s.read (c :: text) = (s.step c).bind fun s => s.read text :=
  rfl

/-- Reading a filled template comes to reading the template, if what fills the slots is read as one
item. -/
theorem read_fillSlots {keys : Flags → Pattern} {filler source : List Char}
    (hfiller : ∀ r : Reader, r.mode = .item → r.sets = [] → r.level.flags.ignoreBlanks = false →
      r.read filler = some (r.push (keys r.level.flags)))
    (hs : s.Tidy) (h : s.readTemplate keys source = some s') :
    s.read (fillSlots filler source) = some s' := by
  fun_induction readTemplate keys s source with
  | case1 r rest hblanks hmode ih =>
    have hsets : r.sets = [] := hs (by rw [hmode]; rfl)
    have htidy : (r.push (keys r.level.flags)).Tidy := fun _ => hsets
    rw [fillSlots, read_append, hfiller r hmode hsets hblanks, Option.bind_some, ih htidy h]
  | case2 r rest hmode => cases h
  | case3 r c rest hslot ih =>
    obtain ⟨t, ht, hrest⟩ := Option.bind_eq_some_iff.mp h
    rw [fillSlots, read_cons, ht, Option.bind_some]
    · exact ih t (step_tidies hs c t ht) hrest
    · exact hslot
  | case4 r => exact h

/-- Text without percent signs in front of a template is read as it is. -/
theorem readTemplate_append {keys : Flags → Pattern} {front back : List Char} (h : '%' ∉ front) :
    s.readTemplate keys (front ++ back) =
      (s.read front).bind fun s => s.readTemplate keys back := by
  induction front generalizing s with
  | nil => rfl
  | cons c front ih =>
    rw [List.mem_cons, not_or] at h
    rw [List.cons_append, readTemplate, read_cons, Option.bind_assoc]
    · exact congrArg (s.step c).bind (funext fun t => ih h.2)
    · rintro _ rfl
      exact absurd rfl h.1

/-- Literal texts in a template are read as one item. -/
theorem readTemplate_oneOf {keys : Flags → Pattern} {texts : List (List Char)} {back : List Char}
    (hmode : s.mode = .item) (hblanks : s.level.flags.ignoreBlanks = false)
    (h : '%' ∉ "(?:".toList ++ joinBars (texts.map escape) ++ [')']) :
    s.readTemplate keys ("(?:".toList ++ joinBars (texts.map escape) ++ [')'] ++ back) =
      (s.push (oneOf s.level.flags texts.reverse)).readTemplate keys back := by
  have hcounts : ∀ text ∈ texts, s.level.flags.Counts text :=
    fun text _ => Flags.counts_of_eq_false hblanks text
  rw [readTemplate_append h, read_oneOf hmode hcounts, Option.bind_some]

end Reader

/-! ### Choices that share nothing -/

/-- If what some branch shares with the last one can be matched in one way only, nothing is put in
front of the choice. -/
theorem ofBranches_of_apart {last : Pattern} {earlier : List Pattern}
    (h : (earlier.any fun branch =>
      !(last.items.take (sharedLength last.items branch.items)).any branching) = true) :
    ofBranches last earlier = choice last earlier := by
  obtain ⟨branch, hbranch, hshared⟩ := List.any_eq_true.mp h
  have hcount : (last.items.take (sharedByAll last earlier)).any branching = false := by
    have hle : sharedByAll last earlier ≤ sharedLength last.items branch.items :=
      sharedByAll_le hbranch
    rw [Bool.not_eq_true'] at hshared
    rw [List.any_eq_false] at hshared ⊢
    intro item hitem
    exact hshared item ((List.take_prefix_take_left hle).subset hitem)
  cases earlier with
  | nil => rfl
  | cons first earlier => simp [ofBranches, hcount]

end Pattern

section

variable {t : Template} {lookup : Lookup} {text : List Char} {caseSensitive : Bool} {p : Pattern}

/-- **The pattern of a template is read off the template**, with what fills the slots for an item.
-/
theorem Template.pattern_of_read {keys : Pattern.Flags → Pattern}
    (htext : ∀ r : Pattern.Reader, r.mode = .item → r.sets = [] →
      r.level.flags.ignoreBlanks = false →
        r.read ("(?:".toList ++ text ++ [')']) = some (r.push (keys r.level.flags)))
    (h : ((Pattern.Reader.start (!caseSensitive)).readTemplate keys t.source.toList).bind
      Pattern.Reader.finish = some p) :
    t.pattern text caseSensitive = .ok p := by
  obtain ⟨r, hr, hfinish⟩ := Option.bind_eq_some_iff.mp h
  have hread : (Pattern.Reader.start (!caseSensitive)).read (t.fill text) = some r :=
    Pattern.Reader.read_fillSlots htext (Pattern.Reader.start_tidy _) hr
  rw [pattern, Pattern.parse?, hread]
  simp only [hfinish]

/-- The pattern of a template, with the keys of a lookup in its slots. -/
theorem Template.pattern_of_readTemplate
    (h : ((Pattern.Reader.start (!caseSensitive)).readTemplate
      (fun flags => .oneOf flags lookup.texts) t.source.toList).bind Pattern.Reader.finish =
        some p) :
    t.pattern lookup.pattern caseSensitive = .ok p := by
  refine pattern_of_read (fun r hmode _ hblanks => ?_) h
  have hread := Pattern.Reader.read_oneOf hmode
    fun text (_ : text ∈ lookup.keys.map String.toList) =>
      Pattern.Flags.counts_of_eq_false hblanks text
  rw [List.map_map] at hread
  exact hread

end

/-- The pattern that a template spells with the keys of a mapping, if case matters. -/
def Template.spells? (source : List Char) (mapping : Mapping) : Option Pattern :=
  ((Pattern.Reader.start false).readTemplate
    (fun flags => .oneOf flags (Lookup.ofMapping mapping true).texts) source).bind
      Pattern.Reader.finish

theorem Template.ofString_of_hasSlot {source : String} (h : hasSlot source.toList = true) :
    Template.ofString source = .ok ⟨source, h⟩ :=
  dif_pos h

namespace Expression

/-- `e.Spells levels inner`: the expression reports the group of all templates and minds case, and
with the keys of a mapping its templates are these patterns. -/
structure Spells (e : Expression) (levels : Mapping → List Pattern) (inner : Mapping → Pattern) :
    Prop where
  group : e.group.toList = "main".toList
  caseSensitive : e.caseSensitive = true
  compiles : ∀ mapping, e.Compiles (Lookup.ofMapping mapping true).pattern (levels mapping)
    (inner mapping)

variable {e : Expression} {levels : Mapping → List Pattern} {inner : Mapping → Pattern}

/-- What an expression finds and replaces, said of the matchers of its patterns. -/
theorem Spells.run_of_serial (h : e.Spells levels inner) (hserial : e.strategy.Serial)
    {mapping : Mapping} (hmapping : mapping ≠ []) (text : String) :
    let lookup := Lookup.ofMapping mapping true
    let matchers := (levels mapping).map (Matcher.ofPattern "main".toList)
    let matcher := Matcher.ofPattern "main".toList (inner mapping)
    (e.findAll text (String.ofList lookup.pattern)).outcome =
        .ok (((Matcher.regions matchers text.toList).flatMap matcher.captured).map String.ofList) ∧
      (e.replaceAll text mapping).outcome =
        .ok ((Matcher.replaceInRegions matcher lookup matchers text.toList).2.changed?.map
          String.ofList) := by
  have hcompiles := h.compiles mapping
  rw [← h.caseSensitive] at hcompiles
  obtain ⟨hfound, hreplaced, -⟩ := hcompiles.run hserial text hmapping
  have hreport : e.report = String.ofList := by
    funext part
    simp [report, h.caseSensitive]
  rw [hreport, h.caseSensitive, h.group] at hfound
  rw [h.caseSensitive, h.group] at hreplaced
  exact ⟨hfound, hreplaced⟩

/-- What a regular expression finds and replaces, said of the patterns that its templates spell. -/
theorem Spells.run (h : e.Spells levels inner) (hregular : e.Regular) {mapping : Mapping}
    (hmapping : mapping ≠ []) (text : String) :
    let lookup := Lookup.ofMapping mapping true
    let matchers := (levels mapping).map (Matcher.ofPattern "main".toList)
    let matcher := Matcher.ofPattern "main".toList (inner mapping)
    (e.findAll text (String.ofList lookup.pattern)).outcome =
        .ok (((Matcher.regions matchers text.toList).flatMap matcher.captured).map String.ofList) ∧
      (e.replaceAll text mapping).outcome =
        .ok ((Matcher.replaceInRegions matcher lookup matchers text.toList).2.changed?.map
          String.ofList) :=
  h.run_of_serial hregular.serial hmapping text

/-- `e.FindsAt mapping text found`: with the keys of a mapping in its slots, an expression that
minds case captures these spans of a text, each template inside the captures of the one before. The
text at each span is what is reported, and the spans whose text resolves are what is replaced. -/
structure FindsAt (e : Expression) (mapping : Mapping) (text : String) (found : List Span) :
    Prop where
  caseSensitive : e.caseSensitive = true
  captured : ∃ levels inner, e.Compiles (Lookup.ofMapping mapping true).pattern levels inner ∧
    found = Matcher.occurrences ((levels ++ [inner]).map (.ofPattern e.group.toList)) text.toList
  reported : ∃ texts : List (List Char), found.map (Span.slice? text.toList) = texts.map some ∧
    (e.findAll text (String.ofList (Lookup.ofMapping mapping true).pattern)).outcome =
      .ok (texts.map String.ofList)
  replaced : let edits := found.filterMap ((Lookup.ofMapping mapping true).edit? text.toList)
    ∃ out, Patched 0 text.toList edits out ∧ (e.replaceAll text mapping).outcome =
      .ok (if edits = [] then none else some (String.ofList out))

/-- What an expression finds and replaces, said of the occurrences. -/
theorem Spells.findsAt (h : e.Spells levels inner) (hregular : e.Regular) {mapping : Mapping}
    (hmapping : mapping ≠ []) (text : String) : e.FindsAt mapping text (Matcher.occurrences
      ((levels mapping ++ [inner mapping]).map (.ofPattern "main".toList)) text.toList) := by
  have hcompiles := h.compiles mapping
  rw [← h.caseSensitive] at hcompiles
  obtain ⟨hfound, hreplaced⟩ := h.run hregular hmapping text
  have hahead := Matcher.aheadFollowsWithin_of_ordered (hregular.ordered hcompiles) text.toList
  have hagrees := Matcher.agrees_ofPattern (.ofMapping mapping true) hahead
  rw [h.group] at hagrees
  exact {
    caseSensitive := h.caseSensitive
    captured := ⟨levels mapping, inner mapping, h.compiles mapping, by rw [h.group]⟩
    reported := ⟨_, hagrees.texts, hfound⟩
    replaced := ⟨_, hagrees.patched, hreplaced.trans (congrArg Except.ok hagrees.changed)⟩ }

/-- What an expression replaces, if the occurrences are known. -/
theorem Spells.outcome_replaceAll (h : e.Spells levels inner) (hregular : e.Regular)
    {mapping : Mapping} (hmapping : mapping ≠ []) {text : String} {found : List Span}
    (hfound : Matcher.occurrences
      ((levels mapping ++ [inner mapping]).map (.ofPattern "main".toList)) text.toList = found)
    {edits : List Edit} {out : List Char}
    (hedits : found.filterMap ((Lookup.ofMapping mapping true).edit? text.toList) = edits)
    (hpatched : Patched 0 text.toList edits out) : (e.replaceAll text mapping).outcome =
      .ok (if edits = [] then none else some (String.ofList out)) := by
  obtain ⟨out', hpatched', hreplaced⟩ := (h.findsAt hregular hmapping text).replaced
  rw [hfound, hedits] at hpatched' hreplaced
  rw [hreplaced, hpatched'.unique hpatched]

end Expression

namespace Fragment

variable {outer region source : String} {p q r : Mapping → Pattern}

/-- The expression of one template spells what the template does. -/
theorem exists_direct (hslot : hasSlot source.toList = true)
    (hp : ∀ mapping, Template.spells? source.toList mapping = some (p mapping)) :
    ∃ e, (do return [← direct source true]) = .ok [e] ∧ e.Spells (fun _ => []) p := by
  refine ⟨⟨.direct ⟨source, hslot⟩, group, true⟩, ?_, rfl, rfl, fun mapping => ⟨.nil, ?_⟩⟩
  · rw [direct, Template.ofString_of_hasSlot hslot]
    rfl
  · exact Template.pattern_of_readTemplate (hp mapping)

theorem nested_spells (houter : hasSlot outer.toList = true) (hslot : hasSlot source.toList = true)
    (hp : ∀ mapping, Template.spells? outer.toList mapping = some (p mapping))
    (hq : ∀ mapping, Template.spells? source.toList mapping = some (q mapping)) :
    ∃ e, nested outer source true = .ok e ∧ e.Spells (fun mapping => [p mapping]) q := by
  refine ⟨⟨.nested ⟨outer, houter⟩ [] ⟨source, hslot⟩, group, true⟩, ?_, rfl, rfl, fun mapping =>
    ⟨.cons ?_ .nil, ?_⟩⟩
  · rw [nested, Template.ofString_of_hasSlot houter, Template.ofString_of_hasSlot hslot]
    rfl
  · exact Template.pattern_of_readTemplate (hp mapping)
  · exact Template.pattern_of_readTemplate (hq mapping)

/-- The expression of two templates spells what they do, one inside the captures of the other. -/
theorem exists_nested (houter : hasSlot outer.toList = true) (hslot : hasSlot source.toList = true)
    (hp : ∀ mapping, Template.spells? outer.toList mapping = some (p mapping))
    (hq : ∀ mapping, Template.spells? source.toList mapping = some (q mapping)) :
    ∃ e, (do return [← nested outer source true]) = .ok [e] ∧
      e.Spells (fun mapping => [p mapping]) q := by
  obtain ⟨e, he, hspells⟩ := nested_spells houter hslot hp hq
  refine ⟨e, ?_, hspells⟩
  rw [he]
  rfl

/-- The same for three templates. -/
theorem exists_narrowed (houter : hasSlot outer.toList = true)
    (hregion : hasSlot region.toList = true) (hslot : hasSlot source.toList = true)
    (hp : ∀ mapping, Template.spells? outer.toList mapping = some (p mapping))
    (hr : ∀ mapping, Template.spells? region.toList mapping = some (r mapping))
    (hq : ∀ mapping, Template.spells? source.toList mapping = some (q mapping)) :
    ∃ e, (do return [← narrowed outer region source true]) = .ok [e] ∧
      e.Spells (fun mapping => [p mapping, r mapping]) q := by
  refine ⟨⟨.nested ⟨outer, houter⟩ [⟨region, hregion⟩] ⟨source, hslot⟩, group, true⟩, ?_, rfl, rfl,
    fun mapping => ⟨.cons ?_ (.cons ?_ .nil), ?_⟩⟩
  · rw [narrowed, Template.ofString_of_hasSlot houter, Template.ofString_of_hasSlot hregion,
      Template.ofString_of_hasSlot hslot]
    rfl
  · exact Template.pattern_of_readTemplate (hp mapping)
  · exact Template.pattern_of_readTemplate (hr mapping)
  · exact Template.pattern_of_readTemplate (hq mapping)

end Fragment

/-- If case matters, the edit at a span puts the value of the text there in its place. -/
theorem Lookup.edit?_of_slice? {mapping : Mapping} {text part : List Char} {s : Span}
    (h : s.slice? text = some part) : (ofMapping mapping true).edit? text s =
      (mapping.lookup (String.ofList part)).map fun value => ⟨s, value.toList⟩ := by
  rw [edit?, resolve?, h]
  rfl

theorem Lookup.pattern_singleton (key value : String) (caseSensitive : Bool) :
    (ofMapping [(key, value)] caseSensitive).pattern = escape key.toList := by
  rw [ofMapping, pattern, List.map_cons, List.map_nil, List.mergeSort_singleton]
  simp [joinBars]

theorem Lookup.texts_singleton (key value : String) (caseSensitive : Bool) :
    (ofMapping [(key, value)] caseSensitive).texts = [key.toList] := by
  rw [texts, ofMapping, List.map_cons, List.map_nil, List.mergeSort_singleton]
  rfl

/-! ### Keys that are identifiers -/

/-- The characters of identifiers: ASCII letters and digits, underscores and hyphens. -/
def isIdentifierChar (c : Char) : Bool :=
  Pattern.isAsciiLetter c || Pattern.isAsciiDigit c || c == '_' || c == '-'

/-- What can be checked for all of ASCII holds for identifiers. -/
theorem forall_isIdentifierChar {P : Char → Prop}
    (h : ∀ n : Fin 128, isIdentifierChar (Char.ofNat n) = true → P (Char.ofNat n)) {c : Char}
    (hc : isIdentifierChar c = true) : P c := by
  have hlt : c.toNat < 128 := by
    simp only [isIdentifierChar, Pattern.isAsciiLetter, Pattern.isAsciiDigit, Bool.or_eq_true,
      Bool.and_eq_true, decide_eq_true_eq, beq_iff_eq] at hc
    rcases hc with (((⟨-, hz⟩ | ⟨-, hz⟩) | ⟨-, hz⟩) | rfl) | rfl
    · exact Nat.lt_of_le_of_lt hz (by decide)
    · exact Nat.lt_of_le_of_lt hz (by decide)
    · exact Nat.lt_of_le_of_lt hz (by decide)
    · decide
    · decide
  have hofNat : Char.ofNat c.toNat = c := Char.ofNat_toNat c
  have hcode := h ⟨c.toNat, hlt⟩
  rw [hofNat] at hcode
  exact hcode hc

/-- The pattern of a text of some characters with a key in it. -/
def Pattern.holding (s : CharSet) (keys : Pattern) : Pattern :=
  row [star (.set s), row [keys], star (.set s)]

namespace Mapping

def Identifiers (mapping : Mapping) : Prop :=
  ∀ entry ∈ mapping, entry.1 ≠ "" ∧ ∀ c ∈ entry.1.toList, isIdentifierChar c = true

instance (mapping : Mapping) : Decidable mapping.Identifiers :=
  decidable_of_iff
    ((mapping.all fun entry => entry.1 != "" && entry.1.toList.all isIdentifierChar) = true)
    (by simp [Identifiers])

/-- The pattern of the keys of a mapping, for expressions for which case matters. -/
def keyPattern (mapping : Mapping) : Pattern :=
  .oneOf (.initial false) (Lookup.ofMapping mapping true).texts

variable {mapping : Mapping}

/-- The pattern of the keys matches the keys and nothing else. -/
theorem mem_language_keyPattern (hne : mapping ≠ []) {part : List Char} :
    part ∈ mapping.keyPattern.language ↔ String.ofList part ∈ mapping.map Prod.fst := by
  have htexts : (Lookup.ofMapping mapping true).texts ≠ [] := by
    simpa [Lookup.texts, Lookup.ofMapping, ← List.length_eq_zero_iff] using hne
  rw [keyPattern, Pattern.mem_language_oneOf htexts]
  simp only [Lookup.texts, List.mem_reverse, List.mem_map, exists_exists_and_eq_and,
    Lookup.mem_keys, writtenAs, Pattern.Flags.ignoreCase_initial, Bool.false_eq_true, if_false,
    beq_iff_eq]
  constructor
  · rintro ⟨entry, hentry, rfl⟩
    exact ⟨entry, hentry, String.ofList_toList.symm⟩
  · rintro ⟨entry, hentry, hkey⟩
    exact ⟨entry, hentry, by rw [hkey, String.toList_ofList]⟩

theorem mem_of_lookup {key value : String} (h : mapping.lookup key = some value) :
    key ∈ mapping.map Prod.fst := by
  obtain ⟨entry, hentry, heq⟩ := List.lookup_isSome_iff.mp (Option.isSome_of_eq_some h)
  exact List.mem_map.mpr ⟨entry, hentry, (beq_iff_eq.mp heq).symm⟩

theorem lexical_keyPattern (mapping : Mapping) : mapping.keyPattern.lexical = true :=
  Pattern.lexical_oneOf _ _

theorem proper_keyPattern (mapping : Mapping) : mapping.keyPattern.proper = true :=
  Pattern.proper_oneOf _ _

theorem keyPattern_singleton (key value : String) :
    keyPattern [(key, value)] = .spelled (.initial false) key.toList := by
  rw [keyPattern, Lookup.texts_singleton]
  rfl

theorem nodes_keyPattern (mapping : Mapping) : mapping.keyPattern.nodes = [] :=
  Pattern.nodes_of_lexical mapping.lexical_keyPattern

theorem nodes_row_keyPattern (mapping : Mapping) :
    (Pattern.row [mapping.keyPattern]).nodes = [] := by
  simp [Pattern.row, Pattern.nodes, mapping.nodes_keyPattern]

theorem proper_row_keyPattern (mapping : Mapping) :
    (Pattern.row [mapping.keyPattern]).proper = true := by
  simp [Pattern.row, Pattern.proper, mapping.proper_keyPattern]

theorem lexical_holding (mapping : Mapping) (s : CharSet) :
    (Pattern.holding s mapping.keyPattern).lexical = true := by
  simp [Pattern.holding, Pattern.row, Pattern.star, Pattern.lexical, mapping.lexical_keyPattern]

theorem proper_holding (mapping : Mapping) (s : CharSet) :
    (Pattern.holding s mapping.keyPattern).proper = true := by
  simp [Pattern.holding, Pattern.row, Pattern.star, Pattern.proper, Pattern.nullable,
    mapping.proper_keyPattern]

theorem nodes_holding (mapping : Mapping) (s : CharSet) :
    (Pattern.holding s mapping.keyPattern).nodes = [] :=
  Pattern.nodes_of_lexical (mapping.lexical_holding s)

/-- A key is not empty and consists of the characters of identifiers. -/
theorem Identifiers.of_mem (h : mapping.Identifiers) {key : List Char}
    (hkey : String.ofList key ∈ mapping.map Prod.fst) :
    key ≠ [] ∧ ∀ c ∈ key, isIdentifierChar c = true := by
  obtain ⟨entry, hentry, heq⟩ := List.mem_map.mp hkey
  obtain ⟨hempty, hchars⟩ := h entry hentry
  rw [heq] at hempty hchars
  rw [String.toList_ofList] at hchars
  refine ⟨?_, hchars⟩
  rintro rfl
  exact hempty rfl

theorem Identifiers.nil_notMem (h : mapping.Identifiers) (hne : mapping ≠ []) :
    [] ∉ mapping.keyPattern.language := by
  rw [mem_language_keyPattern hne]
  intro hnil
  exact (h.of_mem hnil).1 rfl

theorem Identifiers.nil_notMem_row (h : mapping.Identifiers) (hne : mapping ≠ []) :
    [] ∉ (Pattern.row [mapping.keyPattern]).language := by
  rw [Pattern.language_row_singleton]
  exact h.nil_notMem hne

end Mapping

end Relabel
