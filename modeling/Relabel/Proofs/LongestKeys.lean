import Mathlib.Data.List.MinMax
import Relabel.Proofs.Decorating
import Relabel.Proofs.KeyOrder
import Relabel.Proofs.SlottedNames
import Relabel.Proofs.Walking

/-!
# The longest key wins

Keys are tried in order, the longer ones first. Where nothing follows the slot, the first one that
fits is taken, and that is the longest key with which the text goes on
(`Pattern.find_keyPattern`). If the slot stands behind a literal marker, the hits are those of a
scanner that knows nothing of patterns: it looks for the marker and a key at one position after the
other and goes on behind the longest key (`markedHits`).
-/

namespace Relabel

/-! ### A scanner for marked keys -/

/-- The longest of some keys that a text begins with. -/
def longestKey? (keys : List (List Char)) (text : List Char) : Option (List Char) :=
  (keys.filter (·.isPrefixOf text)).argmax List.length

/-- The longest of some keys that follows a marker at the beginning of a text. -/
def markedKey? (marker : List Char) (keys : List (List Char)) (text : List Char) :
    Option (List Char) :=
  (marker.isPrefixOf? text).bind (longestKey? keys)

/-- The hit of a marker at an offset, and of the key behind it. -/
def markedHit (marker : List Char) (offset : Nat) (key : List Char) : Hit :=
  ⟨⟨offset, offset + byteSize marker + byteSize key⟩,
    some ⟨offset + byteSize marker, offset + byteSize marker + byteSize key⟩⟩

/-- The hits of a marker and a key behind it in a text that begins at an offset, from left to right.
The first `skip` characters are passed over: they belong to the last hit. -/
def markedHits (marker : List Char) (keys : List (List Char)) : Nat → Nat → List Char → List Hit
  | _, _, [] => []
  | skip + 1, offset, x :: rest => markedHits marker keys skip (offset + x.utf8Size) rest
  | 0, offset, x :: rest =>
    match markedKey? marker keys (x :: rest) with
    | some key =>
      markedHit marker offset key ::
        markedHits marker keys (marker.length + key.length - 1) (offset + x.utf8Size) rest
    | none => markedHits marker keys 0 (offset + x.utf8Size) rest

/-- `MarksLongest marker keys text hit`: the hit is the marker somewhere in the text together with
the longest of the keys with which the text goes on behind it, and that key is what it captures. -/
def MarksLongest (marker : List Char) (keys : List (List Char)) (text : List Char) (hit : Hit) :
    Prop :=
  ∃ front key back, text = front ++ (marker ++ (key ++ back)) ∧
    hit = markedHit marker (byteSize front) key ∧ key ∈ keys ∧
    ∀ other ∈ keys, other <+: key ++ back → other.length ≤ key.length

section Longest

variable {keys : List (List Char)} {marker text key : List Char}

theorem mem_filter_isPrefixOf {other : List Char} :
    other ∈ keys.filter (·.isPrefixOf text) ↔ other ∈ keys ∧ other <+: text := by
  rw [List.mem_filter, List.isPrefixOf_iff_prefix]

theorem longestKey?_eq_none_iff : longestKey? keys text = none ↔ ∀ key ∈ keys, ¬ key <+: text := by
  rw [longestKey?, List.argmax_eq_none, List.eq_nil_iff_forall_not_mem]
  simp only [mem_filter_isPrefixOf, not_and]

/-- The longest key is one with which the text begins, and none of those is longer. -/
theorem longestKey?_eq_some_iff : longestKey? keys text = some key ↔
    key ∈ keys ∧ key <+: text ∧ ∀ other ∈ keys, other <+: text → other.length ≤ key.length := by
  have hsound : ∀ {key}, longestKey? keys text = some key → key ∈ keys ∧ key <+: text ∧
      ∀ other ∈ keys, other <+: text → other.length ≤ key.length := by
    intro key h
    obtain ⟨hkey, hbegins⟩ := mem_filter_isPrefixOf.mp (List.argmax_mem h)
    refine ⟨hkey, hbegins, fun other hother hprefix => ?_⟩
    exact List.le_of_mem_argmax (mem_filter_isPrefixOf.mpr ⟨hother, hprefix⟩) h
  refine ⟨hsound, ?_⟩
  rintro ⟨hkey, hbegins, hlongest⟩
  cases hfound : longestKey? keys text with
  | none => exact absurd hbegins (longestKey?_eq_none_iff.mp hfound key hkey)
  | some other =>
    -- two longest keys have the same length, and the text begins with both
    obtain ⟨hother, hprefix, hlongest'⟩ := hsound hfound
    have hlength := Nat.le_antisymm (hlongest other hother hprefix) (hlongest' key hkey hbegins)
    rw [(List.prefix_of_prefix_length_le hprefix hbegins (Nat.le_of_eq hlength)).eq_of_length
      hlength]

/-- A marked key stands behind the marker and is the longest there. -/
theorem markedKey?_eq_some_iff : markedKey? marker keys text = some key ↔
    ∃ rest, text = marker ++ rest ∧ longestKey? keys rest = some key := by
  rw [markedKey?, Option.bind_eq_some_iff]
  simp only [List.isPrefixOf?_eq_some_iff_append_eq, eq_comm]

theorem markedKey?_append (rest : List Char) :
    markedKey? marker keys (marker ++ rest) = longestKey? keys rest := by
  rw [markedKey?, List.isPrefixOf?_eq_some_iff_append_eq.mpr rfl, Option.bind_some]

/-- What is skipped is passed over without a look. -/
theorem markedHits_append (part rest : List Char) (offset : Nat) :
    markedHits marker keys part.length offset (part ++ rest) =
      markedHits marker keys 0 (offset + byteSize part) rest := by
  induction part generalizing offset with
  | nil => rfl
  | cons x part ih =>
    rw [List.cons_append, List.length_cons, markedHits, ih, byteSize, Nat.add_assoc]

/-- Behind a hit, the scanner goes on behind the key. -/
theorem markedHits_found (hmarker : marker ≠ []) {rest : List Char} {offset : Nat}
    (hkey : longestKey? keys (key ++ rest) = some key) :
    markedHits marker keys 0 offset (marker ++ (key ++ rest)) = markedHit marker offset key ::
      markedHits marker keys 0 (offset + byteSize marker + byteSize key) rest := by
  obtain ⟨x, later, rfl⟩ := List.exists_cons_of_ne_nil hmarker
  have hmarked : markedKey? (x :: later) keys ((x :: later) ++ (key ++ rest)) = _ :=
    markedKey?_append (key ++ rest)
  have hskip : (x :: later).length + key.length - 1 = (later ++ key).length := by
    rw [List.length_cons, List.length_append]
    omega
  rw [hkey, List.cons_append] at hmarked
  rw [List.cons_append, markedHits, hmarked]
  simp only
  rw [hskip, ← List.append_assoc, markedHits_append, byteSize_append, byteSize]
  simp only [Nat.add_assoc]

/-- A hit of the scanner is the marker and the longest key behind it. -/
theorem MarksLongest.of_mem (front : List Char) {rest : List Char} {skip : Nat} {hit : Hit}
    (h : hit ∈ markedHits marker keys skip (byteSize front) rest) :
    MarksLongest marker keys (front ++ rest) hit := by
  induction rest generalizing front skip with
  | nil => cases skip <;> cases h
  | cons x rest ih =>
    have hsize : byteSize front + x.utf8Size = byteSize (front ++ [x]) := by simp [byteSize]
    have hlater : ∀ {skip}, hit ∈ markedHits marker keys skip (byteSize front + x.utf8Size) rest →
        MarksLongest marker keys (front ++ x :: rest) hit := by
      intro skip h
      rw [hsize] at h
      rw [← List.singleton_append, ← List.append_assoc]
      exact ih _ h
    cases skip with
    | succ skip => exact hlater h
    | zero =>
      rw [markedHits] at h
      split at h
      · rename_i key hmarked
        rcases List.mem_cons.mp h with rfl | h
        · obtain ⟨later, htext, hlongest⟩ := markedKey?_eq_some_iff.mp hmarked
          obtain ⟨hkey, ⟨back, rfl⟩, hlongest⟩ := longestKey?_eq_some_iff.mp hlongest
          exact ⟨front, key, back, by rw [htext], rfl, hkey, hlongest⟩
        · exact hlater h
      · exact hlater h

end Longest

/-! ### The first key that fits -/

/-- The first key to be tried with which a text begins is the longest one. -/
theorem Lookup.find?_keys (mapping : Mapping) (caseSensitive : Bool) (text : List Char) :
    ((ofMapping mapping caseSensitive).keys.find? fun key => key.toList.isPrefixOf text).map
      String.toList = longestKey? mapping.keyTexts text := by
  have hmem : ∀ {key}, key ∈ (ofMapping mapping caseSensitive).keys ↔
      key.toList ∈ mapping.keyTexts := by
    intro key
    rw [Lookup.mem_keys, Mapping.keyTexts, List.mem_map, List.mem_map]
    simp only [String.toList_inj]
  cases hfound : (ofMapping mapping caseSensitive).keys.find? fun key =>
      key.toList.isPrefixOf text with
  | none =>
    refine (longestKey?_eq_none_iff.mpr fun other hother hbegins => ?_).symm
    obtain ⟨entry, hentry, rfl⟩ := List.mem_map.mp hother
    exact List.find?_eq_none.mp hfound entry.1 (hmem.mpr hother)
      (List.isPrefixOf_iff_prefix.mpr hbegins)
  | some key =>
    have hisFirst : mapping.IsFirstKey (fun key => key.isPrefixOf text = true) key :=
      isFirstKey_of_find? hfound
    obtain ⟨hkey, hbegins, hfirst⟩ := hisFirst
    have hbegins := List.isPrefixOf_iff_prefix.mp hbegins
    refine (longestKey?_eq_some_iff.mpr ⟨hmem.mp (mem_keys.mpr hkey), hbegins, ?_⟩).symm
    intro other hother hprefix
    obtain ⟨entry, hentry, rfl⟩ := List.mem_map.mp hother
    rcases hfirst entry.1 (List.mem_map_of_mem hentry) (List.isPrefixOf_iff_prefix.mpr hprefix) with
      heq | hprecedes
    · rw [heq]
    · -- a longer text with which the text begins would have more bytes
      by_contra hlonger
      obtain ⟨more, hmore⟩ := List.prefix_of_prefix_length_le hbegins hprefix (by omega)
      have hle := keyLe_iff.mp (precedes_iff.mp hprecedes).1
      have hsize := congrArg byteSize hmore
      rw [byteSize_append, byteSize_toList, byteSize_toList] at hsize
      have hnil : more = [] := byteSize_eq_zero_iff.mp (by omega)
      rw [← hmore, hnil, List.append_nil] at hlonger
      exact hlonger (Nat.le_refl _)

namespace Pattern

variable {mapping : Mapping} {next : Next} {c d e : Cursor} {captures : Captures}

/-- To search for a choice is to search for its branches in order, until one is found. -/
theorem find_choice (last : Pattern) (earlier : List Pattern) :
    (choice last earlier).find next c captures =
      (earlier.reverse ++ [last]).findSome? fun p => p.find next c captures := by
  induction earlier generalizing last with
  | nil => simp [choice]
  | cons p earlier ih =>
    refine (ih (.alt p last)).trans ?_
    rw [List.reverse_cons, List.append_assoc, List.findSome?_append, List.findSome?_append]
    cases hp : p.find next c captures <;> simp [find, hp]

/-- The texts of a choice are tried in order. -/
theorem find_oneOf {flags : Flags} {texts : List (List Char)} (hne : texts ≠ []) :
    (oneOf flags texts).find next c captures =
      texts.reverse.findSome? fun text => (spelled flags text).find next c captures := by
  cases texts with
  | nil => exact absurd rfl hne
  | cons last earlier =>
    rw [oneOf, ofBranches_spelled, find_choice, ← List.map_reverse, List.reverse_cons,
      List.findSome?_append, List.findSome?_append, List.findSome?_map]
    rfl

theorem literal_of_caseSensitive {flags : Flags} (h : flags.ignoreCase = false) :
    literal flags = char := by
  funext x
  rw [literal, h]
  rfl

/-- If case matters, a literal is a row of single characters. -/
theorem spelled_eq_row (flags : Flags) (h : flags.ignoreCase = false) (text : List Char) :
    spelled flags text = row (text.map char) := by
  rw [spelled, ofItems, List.foldl_reverse, literal_of_caseSensitive h]
  rfl

/-- What the first of some candidates yields, if those that qualify are those that yield
something. -/
theorem findSome?_eq_bind_find? {α β : Type} {f : α → Option β} {ok : α → Bool}
    (h : ∀ a, (f a).isSome = ok a) (candidates : List α) :
    candidates.findSome? f = (candidates.find? ok).bind f := by
  induction candidates with
  | nil => rfl
  | cons a candidates ih =>
    rw [List.findSome?_cons, List.find?_cons, ← h a, ih]
    cases hfound : f a <;> simp [hfound]

/-- The search for a key of a mapping tries the keys in order. -/
theorem find_keyPattern_eq (hmapping : mapping ≠ [])
    (hnext : ∀ d captures, (next d captures).isSome = true) :
    mapping.keyPattern.find next c captures =
      (longestKey? mapping.keyTexts c.rest).bind fun key =>
        (row (key.map char)).find next c captures := by
  have htexts : (Lookup.ofMapping mapping true).texts ≠ [] := by
    simpa [Lookup.texts, Lookup.ofMapping, ← List.length_eq_zero_iff] using hmapping
  have hfits : ∀ key : String, ((row (key.toList.map char)).find next c captures).isSome =
      key.toList.isPrefixOf c.rest := by
    intro key
    by_cases hbegins : key.toList <+: c.rest
    · obtain ⟨rest, hrest⟩ := hbegins
      obtain ⟨d, hd, -⟩ := Cursor.exists_over hrest.symm
      rw [find_chars hd, hnext, List.isPrefixOf_iff_prefix.mpr ⟨rest, hrest⟩]
    · rw [eq_comm, find_chars_of_not_prefix hbegins]
      exact Bool.eq_false_iff.mpr fun h => hbegins (List.isPrefixOf_iff_prefix.mp h)
  rw [Mapping.keyPattern, find_oneOf htexts, Lookup.texts, List.reverse_reverse,
    List.findSome?_map, ← Lookup.find?_keys mapping true]
  simp only [Function.comp_def, spelled_eq_row (.initial false) rfl]
  rw [findSome?_eq_bind_find? hfits, Option.bind_map]
  rfl

/-- **A search for a key goes on behind the longest key**, if it can go on anywhere. -/
theorem find_keyPattern (hmapping : mapping ≠ [])
    (hnext : ∀ d captures, (next d captures).isSome = true) {key : List Char}
    (hkey : longestKey? mapping.keyTexts c.rest = some key) (hd : c.Over key d) :
    mapping.keyPattern.find next c captures = next d captures := by
  rw [find_keyPattern_eq hmapping hnext, hkey, Option.bind_some, find_chars hd]

/-! ### Marked slots -/

def marked (marker : List Char) (mapping : Mapping) : Pattern :=
  row (marker.map char ++ [.group 1 (some "main".toList) (row [mapping.keyPattern])])

variable {marker : List Char}

theorem proper_marked (marker : List Char) (mapping : Mapping) :
    (marked marker mapping).proper = true := by
  refine proper_row fun p hp => ?_
  rw [List.mem_append, List.mem_map, List.mem_singleton] at hp
  rcases hp with ⟨x, -, rfl⟩ | rfl
  · rfl
  · exact mapping.proper_row_keyPattern

theorem nullable_marked (hmarker : marker ≠ []) (mapping : Mapping) :
    (marked marker mapping).nullable = false := by
  obtain ⟨x, marker, rfl⟩ := List.exists_cons_of_ne_nil hmarker
  rfl

/-- The only group is the one around the key. -/
theorem groups_marked (marker : List Char) (mapping : Mapping) :
    (marked marker mapping).groups = [(1, some "main".toList)] := by
  unfold marked
  induction marker with
  | nil =>
    have hkeys : (row [mapping.keyPattern]).groups = [] := by
      rw [groups_eq_map_nodes, mapping.nodes_row_keyPattern, List.map_nil]
    simp [row, groups] at hkeys ⊢
    exact hkeys
  | cons x marker ih => exact ih

/-- **A match is the marker and the longest key behind it.** -/
theorem matchAt_marked (hmapping : mapping ≠ []) {key : List Char} (he : c.Over marker e)
    (hkey : longestKey? mapping.keyTexts e.rest = some key) (hd : e.Over key d) :
    (Program.ofPattern (marked marker mapping)).matchAt c =
      some ⟨⟨c.offset, d.offset⟩, [(1, ⟨e.offset, d.offset⟩)]⟩ := by
  have hfound : (marked marker mapping).find .stop c [] =
      some (d, [(1, ⟨e.offset, d.offset⟩)]) := by
    rw [marked, find_row_append, find_chars he]
    exact find_keyPattern hmapping (fun _ _ => rfl) hkey hd
  rw [Program.matchAt_eq_find (proper_marked marker mapping), hfound]
  rfl

/-- Where no key follows the marker, there is no match. -/
theorem matchAt_marked_eq_none (hmapping : mapping ≠ [])
    (h : markedKey? marker mapping.keyTexts c.rest = none) :
    (Program.ofPattern (marked marker mapping)).matchAt c = none := by
  rw [Program.matchAt_eq_find (proper_marked marker mapping), Option.map_eq_none_iff, marked,
    find_row_append]
  by_cases hbegins : marker <+: c.rest
  · obtain ⟨rest, hrest⟩ := hbegins
    obtain ⟨e, he, rfl⟩ := Cursor.exists_over hrest.symm
    rw [← hrest, markedKey?_append] at h
    rw [find_chars he]
    refine (find_keyPattern_eq hmapping fun _ _ => rfl).trans ?_
    rw [h]
    rfl
  · exact find_chars_of_not_prefix hbegins _ _

/-- A text without slots consists of its characters. -/
theorem slotItems_of_hasSlot {flags : Flags} (hflags : flags.ignoreCase = false) {keys : Pattern}
    {text : List Char} (h : hasSlot text = false) : slotItems flags keys text = text.map char := by
  fun_induction slotItems flags keys text with
  | case1 rest ih => cases h
  | case2 x rest hslot ih =>
    rw [hasSlot] at h
    · rw [ih h, literal_of_caseSensitive hflags, List.map_cons]
    · exact hslot
  | case3 => rfl

/-- A slot that makes up the first group is read as that group. -/
theorem Reader.readTemplate_mainSlot {s : Reader} {keys : Flags → Pattern} (hmode : s.mode = .item)
    (hblanks : s.level.flags.ignoreBlanks = false) (hnames : s.names = []) :
    s.readTemplate keys "(?P<main>%s)".toList = some { s with
      level := s.level.push
        (.group (s.groupCount + 1) (some "main".toList) (row [keys s.level.flags]))
      groupCount := s.groupCount + 1
      names := ["main".toList] } := by
  obtain ⟨outer, ⟨kind, flags, branches, items, repeatable⟩, sets, mode, groupCount, names⟩ := s
  obtain ⟨ignoreCase, dotAll, multiLine, ignoreBlanks, swapGreed, carriageReturns⟩ := flags
  obtain rfl : mode = .item := hmode
  obtain rfl : ignoreBlanks = false := hblanks
  obtain rfl : names = [] := hnames
  rfl

end Pattern

def Template.marked (marker : List Char) : Template :=
  ⟨String.ofList (escape marker ++ "(?P<main>%s)".toList), by
    rw [String.toList_ofList]
    exact hasSlot_append rfl⟩

/-- **The template of a marker is a pattern for all keys.** -/
theorem Template.pattern_marked {marker : List Char} (h : hasSlot marker = false)
    (mapping : Mapping) :
    (Template.marked marker).pattern (Lookup.ofMapping mapping true).pattern true =
      .ok (Pattern.marked marker mapping) := by
  apply Template.pattern_of_readTemplate
  have hsource : (Template.marked marker).source.toList =
      escape marker ++ "(?P<main>%s)".toList := String.toList_ofList
  have hslot : "(?P<main>%s)".toList.head? ≠ some 's' := by decide
  obtain ⟨repeatable, hread⟩ :=
    Pattern.Reader.readTemplate_escape (s := .start false) rfl rfl marker hslot
  rw [hsource, Bool.not_true, hread, Pattern.slotItems_of_hasSlot rfl h,
    Pattern.Reader.readTemplate_mainSlot rfl rfl rfl, Option.bind_some]
  have hitems : Pattern.ofItems (.group 1 (some "main".toList) (.row [mapping.keyPattern]) ::
      ((marker.map Pattern.char).reverse ++ [])) = Pattern.marked marker mapping := by
    rw [List.append_nil, Pattern.ofItems, List.foldl_cons, List.foldl_reverse, Pattern.marked]
    change _ = List.foldr Pattern.seq Pattern.empty (marker.map Pattern.char ++ [_])
    rw [List.foldr_append]
    rfl
  rw [← hitems]
  rfl

namespace Matcher

variable {marker : List Char} {mapping : Mapping} {c : Cursor}

def marked (marker : List Char) (mapping : Mapping) : Matcher :=
  ofPattern "main".toList (.marked marker mapping)

theorem capture_marked (marker : List Char) (mapping : Mapping) :
    (marked marker mapping).capture = [1] := by
  rw [marked, ofPattern, Pattern.groups_marked]
  rfl

theorem ahead_marked (marker : List Char) (mapping : Mapping) :
    (marked marker mapping).ahead = [] := by
  rw [marked, ofPattern, Pattern.groups_marked]
  rfl

/-- A marker that is not empty lets scanning advance. -/
theorem advances_marked (hmarker : marker ≠ []) (mapping : Mapping) :
    (marked marker mapping).Advances :=
  advances_of_ahead (Pattern.nullable_marked hmarker mapping) (ahead_marked marker mapping)

/-- **The hits are those of the scanner.** The induction is along the walk: the scanner finds a key
where the matcher finds a match, and both go on behind it. -/
theorem map_hit_hits_marked (hmarker : marker ≠ []) (hmapping : mapping ≠ []) (c : Cursor) :
    ((marked marker mapping).hits c).map
        (fun entry => (marked marker mapping).hit entry.1 entry.2) =
      markedHits marker mapping.keyTexts 0 c.offset c.rest := by
  refine (advances_marked hmarker mapping).hits_induction (motive := fun c hits =>
    hits.map (fun entry => (marked marker mapping).hit entry.1 entry.2) =
      markedHits marker mapping.keyTexts 0 c.offset c.rest) ?_ ?_ ?_ c
  · intro c _ hrest
    rw [hrest]
    rfl
  · intro c x rest hits hnone hrest ih
    have hkey : markedKey? marker mapping.keyTexts (x :: rest) = none := by
      cases hkey : markedKey? marker mapping.keyTexts (x :: rest) with
      | none => rfl
      | some key =>
        obtain ⟨later, htext, hlongest⟩ := markedKey?_eq_some_iff.mp hkey
        obtain ⟨e, he, rfl⟩ := Cursor.exists_over (hrest.trans htext)
        obtain ⟨back, hback⟩ := (longestKey?_eq_some_iff.mp hlongest).2.1
        obtain ⟨d, hd, -⟩ := Cursor.exists_over hback.symm
        have hsome := Pattern.matchAt_marked hmapping he hlongest hd
        rw [show (marked marker mapping).program.matchAt c = _ from hsome] at hnone
        cases hnone
    rw [ih, hrest, markedHits, hkey]
    rfl
  · intro c found f hits hfound hresumes ih
    cases hkey : markedKey? marker mapping.keyTexts c.rest with
    | none =>
      have hnone := Pattern.matchAt_marked_eq_none hmapping hkey
      rw [show (marked marker mapping).program.matchAt c = _ from hnone] at hfound
      cases hfound
    | some key =>
      obtain ⟨later, htext, hlongest⟩ := markedKey?_eq_some_iff.mp hkey
      obtain ⟨e, he, rfl⟩ := Cursor.exists_over htext
      obtain ⟨back, hback⟩ := (longestKey?_eq_some_iff.mp hlongest).2.1
      obtain ⟨d, hd, rfl⟩ := Cursor.exists_over hback.symm
      have hsome := Pattern.matchAt_marked hmapping he hlongest hd
      obtain rfl := Option.some.inj (hfound.symm.trans hsome)
      obtain rfl := hresumes.eq_of_ahead (ahead_marked marker mapping) ⟨_, he.trans hd⟩ rfl
      rw [← hback] at hlongest
      rw [List.map_cons, ih, htext, ← hback, markedHits_found hmarker hlongest, hd.2.1, he.2.1]
      simp [hit, markedHit, capture?, capture_marked, firstGroup?, Match.group?]

end Matcher

/-- What a hit of the scanner captures lies in what it consumes, and is a key. -/
theorem MarksLongest.exists_value {marker text : List Char} {mapping : Mapping} {hit : Hit}
    (h : MarksLongest marker mapping.keyTexts text hit) :
    ∃ span key value, hit.capture = some span ∧ hit.consumed.covers span = true ∧
      span.slice? text = some key ∧ mapping.lookup (String.ofList key) = some value := by
  obtain ⟨front, key, back, rfl, rfl, hkey, -⟩ := h
  obtain ⟨entry, hentry, rfl⟩ := List.mem_map.mp hkey
  obtain ⟨value, hvalue⟩ := Option.isSome_iff_exists.mp
    (Lookup.lookup_isSome (List.mem_map_of_mem hentry))
  refine ⟨_, entry.1.toList, value, rfl, ?_, ?_, ?_⟩
  · simp [markedHit, Span.covers]
  · refine Span.slice?_eq_some_iff.mpr ⟨front ++ marker, back, by simp, ?_, rfl⟩
    rw [byteSize_append]
  · rwa [String.ofList_toList]

theorem forall₂_filterMap {α β : Type} {R : β → α → Prop} {f : α → Option β} {as : List α}
    (h : ∀ a ∈ as, ∃ b, f a = some b ∧ R b a) : List.Forall₂ R (as.filterMap f) as := by
  induction as with
  | nil => exact .nil
  | cons a as ih =>
    obtain ⟨⟨b, hb, hR⟩, has⟩ := List.forall_mem_cons.mp h
    rw [List.filterMap_cons_some hb]
    exact .cons hR (ih has)

namespace Matcher

variable {matcher : Matcher} {marker text : List Char} {mapping : Mapping}

/-- Where every hit is a marker with a key behind it, each capture lies in what its hit consumes. -/
theorem covers_of_marksLongest {lookup : Lookup}
    (h : ∀ hit ∈ matcher.scan text, MarksLongest marker mapping.keyTexts text hit) :
    ∀ r ∈ matcher.resolved lookup text, r.consumed.covers r.capture = true := by
  intro r hr
  obtain ⟨hit, hhit, hconsumed, hcapture⟩ := mem_resolved hr
  obtain ⟨span, -, -, hspan, hcover, -⟩ := (h hit hhit).exists_value
  obtain rfl := Option.some.inj (hcapture.symm.trans hspan)
  rwa [← hconsumed]

/-- Where every hit is a marker with a key behind it, there is one edit for each, which puts the
value of the key in its place. -/
theorem forall₂_plainEdit_of_marksLongest
    (h : ∀ hit ∈ matcher.scan text, MarksLongest marker mapping.keyTexts text hit) :
    List.Forall₂ (fun edit hit => hit.capture = some edit.span ∧ ∃ key value,
        edit.span.slice? text = some key ∧ mapping.lookup (String.ofList key) = some value ∧
          edit.text = value.toList)
      ((matcher.resolved (Lookup.ofMapping mapping true) text).map Resolved.plainEdit)
      (matcher.scan text) := by
  rw [resolved, List.map_filterMap]
  refine forall₂_filterMap fun hit hhit => ?_
  obtain ⟨span, key, value, hspan, -, hslice, hvalue⟩ := (h hit hhit).exists_value
  refine ⟨⟨span, value.toList⟩, ?_, hspan, key, value, hslice, hvalue, rfl⟩
  simp [hspan, Lookup.resolve?, hslice, Lookup.get?, Lookup.ofMapping, hvalue, Resolved.plainEdit]

end Matcher

/-- **The longest key wins where nothing follows the slot.** For every non-empty marker without a
slot, every non-empty mapping and every text, take the template of the marker with a slot behind it,
and let case matter. The template is a pattern; its hits are exactly those of the scanner that looks
for the marker and a key at one position after the other and goes on behind the key; and each hit is
the marker with the longest key that follows it in the text, which is captured. Replacing puts the
value of the key in the place of each capture and changes nothing else; as many replacements are
reported as there are hits, and there is no new text if there are none. -/
theorem longest_key_wins {marker : List Char} (hmarker : marker ≠ [])
    (hslot : hasSlot marker = false) {mapping : Mapping} (hmapping : mapping ≠ []) (text : String) :
    let e : Expression := ⟨.direct (.marked marker), "main", true⟩
    let hits := markedHits marker mapping.keyTexts 0 0 text.toList
    ∃ p, (Template.marked marker).pattern (Lookup.ofMapping mapping true).pattern true = .ok p ∧
      (Matcher.ofPattern "main".toList p).scan text.toList = hits ∧
      (∀ hit ∈ hits, MarksLongest marker mapping.keyTexts text.toList hit) ∧
      ∃ edits out,
        List.Forall₂ (fun edit hit => hit.capture = some edit.span ∧ ∃ key value,
          edit.span.slice? text.toList = some key ∧
          mapping.lookup (String.ofList key) = some value ∧ edit.text = value.toList) edits hits ∧
        Patched 0 text.toList edits out ∧
        (e.replaceAll text mapping).outcome =
          .ok (if hits = [] then none else some (String.ofList out)) ∧
        (e.replaceAll text mapping).events.getLast? = some (.directReplaced hits.length) := by
  intro e hits
  have hp := Template.pattern_marked hslot mapping
  have hscan : (Matcher.ofPattern "main".toList (.marked marker mapping)).scan text.toList = hits :=
    Matcher.map_hit_hits_marked hmarker hmapping (.start text.toList)
  have hmarks : ∀ hit ∈ hits, MarksLongest marker mapping.keyTexts text.toList hit :=
    fun hit hhit => MarksLongest.of_mem [] hhit
  have hm := Matcher.compiled_ofPattern "main".toList (.marked marker mapping)
  obtain ⟨out, hpatched, hsplice⟩ :=
    hm.patched_plain (Matcher.covers_of_marksLongest (hscan ▸ hmarks))
  have hedits := Matcher.forall₂_plainEdit_of_marksLongest (hscan ▸ hmarks)
  have hlength := hedits.length_eq
  rw [List.length_map, hscan] at hlength
  have hrun : e.replaceAll text mapping = _ := Expression.replaceAll_direct text hmapping hp
  rw [Matcher.replaceCaptures_eq_resolved, hsplice, hlength] at hrun
  refine ⟨_, hp, hscan, hmarks, _, out, hscan ▸ hedits, hpatched, ?_, ?_⟩
  · rw [hrun, Spliced.changed?_length]
  · rw [hrun, List.getLast?_concat]

/-- Of two keys that fit, the longer one is taken, also behind a percent sign; a key that is empty
fits everywhere. -/
theorem longest_key_wins_nested :
    ['5', '%'] ≠ [] ∧ hasSlot ['5', '%'] = false ∧
      ∃ p, (Template.marked ['5', '%']).pattern
          (Lookup.ofMapping [("a", "x"), ("ab", "y"), ("", "z")] true).pattern true = .ok p ∧
        (Matcher.ofPattern "main".toList p).scan "5%abé5%ca".toList =
          [⟨⟨0, 4⟩, some ⟨2, 4⟩⟩, ⟨⟨6, 8⟩, some ⟨8, 8⟩⟩] := by
  obtain ⟨p, hp, hscan, -⟩ := @longest_key_wins ['5', '%'] (by decide) (by decide)
    [("a", "x"), ("ab", "y"), ("", "z")] (by decide) "5%abé5%ca"
  refine ⟨by decide, by decide, p, hp, hscan.trans ?_⟩
  decide +kernel

end Relabel
