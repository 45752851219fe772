import Relabel.Proofs.Filling
import Relabel.Proofs.InvalidPatterns
import Relabel.Proofs.KeyOrder
import Relabel.Proofs.OpenGroups
import Relabel.Proofs.Progress

/-!
# Captured slots

Where each branch of the reported group consists of a slot and nothing else, what is captured is a
key. Whether a template is of that kind can be told without the keys: it is read with empty groups
in the slots, and each time a branch is opened the slot has to follow, and the end of the group
behind it (`Template.capturesSlots`). A reader of the filled template goes abreast of that one, so
every branch it opens holds the choice between the keys (`Template.groupsHold_of_capturesSlots`).
What is captured then resolves, to the value of the first key that it stands for
(`slot_captures_resolve`). White space in a key is an exception: where blanks are ignored it is
lost, and what is captured is no key (`ignored_blanks_captured_unresolved`); and a line break ends
the comment that a slot stands in, so that the rest of the comment is read as well.
-/

namespace Relabel

open Pattern

/-- Whether, in the rest of a template, each group with a name of a kind consists of a slot and
nothing else, under settings that pass a check. Slots are read as empty groups: unless one stands in
a comment, a template that cannot be read in this way is not a pattern with any keys either. -/
def Pattern.Reader.capturesSlots (kind : List Char → Bool) (check : Flags → Bool) :
    Reader → List Char → Bool
  | r, '%' :: 's' :: rest =>
    (r.read (grouped [])).any fun r => capturesSlots kind check r rest
  | r, c :: rest =>
    (r.step c).any fun r' =>
      (r.quiet kind r' || ("%s)".toList.isPrefixOf rest && check r'.level.flags)) &&
        capturesSlots kind check r' rest
  | _, [] => true

namespace Template

/-- Whether each branch of a group, in a template, consists of a slot and nothing else, which stands
where case matters or does not, as asked. -/
def capturesSlots (t : Template) (group : String) (caseSensitive : Bool) : Bool :=
  (Reader.start (!caseSensitive)).capturesSlots (isBranchOf group.toList)
    (fun flags => flags.ignoreCase == !caseSensitive) t.source.toList

/-- Whether each branch of a group, in a template, consists of a slot and nothing else, which stands
where blanks count. -/
def capturesBlanks (t : Template) (group : String) (caseSensitive : Bool) : Bool :=
  (Reader.start (!caseSensitive)).capturesSlots (isBranchOf group.toList)
    (fun flags => !flags.ignoreBlanks) t.source.toList

end Template

/-- Some text has a character of a kind. -/
def HasChar (kind : Char → Bool) (texts : List (List Char)) : Prop :=
  ∃ text ∈ texts, ∃ c ∈ text, kind c = true

namespace Pattern

/-! ### Slots -/

namespace Reader

variable {r r' s s' : Reader} {text : List Char}

/-- Reading a text in a group: behind the header either the innermost group is closed again, or all
are characters of a class or of a comment. -/
theorem read_grouped (htext : Inert text) (hline : r.mode.inComment = true → '\n' ∉ text)
    (h : r.read (grouped text) = some r') : ∃ t, r.read "(?:".toList = some t ∧ r'.names = t.names ∧
      r'.settings =
        if t.mode.inClass || t.mode.inComment then t.settings else t.settings.tail := by
  cases hr : r.mode.inComment with
  | true =>
    cases hmode : r.mode with
    | comment back =>
      rw [read_grouped_of_comment hmode (hline hr)] at h
      cases h
      refine ⟨_, read_of_comment hmode (by decide), rfl, ?_⟩
      simp [goto, Mode.inComment, settings]
    | _ =>
      rw [hmode] at hr
      cases hr
  | false =>
    rw [grouped, List.append_assoc, read_append] at h
    obtain ⟨t, ht, h⟩ := Option.bind_eq_some_iff.mp h
    refine ⟨t, ht, ?_⟩
    rw [read_append] at h
    rcases mode_of_read_header hr ht with hmode | hmode
    · obtain ⟨level, hlevel⟩ := htext.staysInGroup t hmode
      rw [hlevel, Option.bind_some, read_singleton, step_of_visible (by decide)] at h
      simp only [readChar, hmode, readItem, closeGroup] at h
      split at h
      · rename_i parent outer houter
        cases h
        rw [hmode, settings, settings, houter]
        exact ⟨rfl, rfl⟩
      · cases h
    · obtain ⟨sets, b, -, hsets⟩ := htext.staysInClass t ':' hmode
      rw [hsets, Option.bind_some, read_singleton] at h
      obtain ⟨closed, -, hclosed⟩ := step_after_plain
        (r := { t with sets, mode := .set (.after (.char b)) }) rfl ')' (by decide)
        (step_of_visible (by decide) _)
      obtain rfl := Option.some.inj (hclosed.symm.trans h)
      rw [hmode]
      exact ⟨rfl, rfl⟩

/-- What is put into a slot gives no name. -/
theorem names_read_grouped (htext : Inert text) (hline : r.mode.inComment = true → '\n' ∉ text)
    (h : r.read (grouped text) = some r') : r'.names = r.names := by
  obtain ⟨t, ht, hnames, -⟩ := read_grouped htext hline h
  have hheader : '>' ∉ "(?:".toList := by decide
  rw [hnames, read_names hheader ht]

/-- **Readers abreast stay so behind a slot**, whatever is put into it. -/
theorem Abreast.read_grouped (h : r.Abreast s) (htext : Inert text)
    (hline : s.mode.inComment = true → '\n' ∉ text) (hr : r.read (grouped []) = some r')
    (hs : s.read (grouped text) = some s') : r'.Abreast s' := by
  obtain ⟨t, ht, -, htsettings⟩ := Reader.read_grouped .nil (fun _ => List.not_mem_nil) hr
  obtain ⟨u, hu, -, husettings⟩ := Reader.read_grouped htext hline hs
  have hheader : t.Abreast u := h.read ht hu
  have halike := h.alike.read_grouped .nil htext fun hcomment =>
    ⟨List.not_mem_nil, hline (h.alike.mode ▸ hcomment)⟩
  rw [hr, hs] at halike
  cases halike with
  | some halike =>
    refine ⟨halike, ?_, read_tidy hr h.tidy.1, read_tidy hs h.tidy.2⟩
    rw [htsettings, husettings, hheader.settings, hheader.alike.mode]

end Reader

/-! ### Groups that consist of a slot -/

/-- Only one of the settings matters for literal texts. -/
theorem oneOf_congr {flags flags' : Flags} (h : flags.ignoreCase = flags'.ignoreCase)
    (texts : List (List Char)) : oneOf flags texts = oneOf flags' texts := by
  have hliteral : literal flags = literal flags' := by
    funext c
    rw [literal, literal, h]
  have hspelled : spelled flags = spelled flags' := by
    funext text
    rw [spelled, spelled, hliteral]
  cases texts with
  | nil => rfl
  | cons last earlier => rw [oneOf, oneOf, hspelled]

/-- A group that holds a choice between literal texts holds no other group. -/
theorem groupsHold_oneOf (kind : List Char → Bool) (flags : Flags) (texts : List (List Char))
    (index : Nat) (name : Option (List Char)) :
    (group index name (.seq (oneOf flags texts) .empty)).GroupsHold kind
      (.seq (oneOf flags texts) .empty) := by
  intro node hnode _
  rw [nodes, nodes, nodes_oneOf] at hnode
  rcases List.mem_cons.mp hnode with rfl | hnode
  · rfl
  · cases hnode

namespace Reader

variable {kind : List Char → Bool} {flags : Flags} {texts : List (List Char)}
  {r s s' t u : Reader}

/-- A group is opened that consists of a choice between literal texts. -/
theorem GroupsHold.capture (hs : s.GroupsHold kind (.seq (oneOf flags texts.reverse) .empty))
    {c : Char} (hopen : s.step c = some t) (hnames : t.names ≠ s.names)
    (hflags : t.level.flags.ignoreCase = flags.ignoreCase)
    (hcounts : ∀ text ∈ texts, t.level.flags.Counts text)
    (hkeys : t.read (grouped (joinBars (texts.map escape))) = some u)
    (hclose : u.step ')' = some s') :
    s'.GroupsHold kind (.seq (oneOf flags texts.reverse) .empty) := by
  obtain ⟨hlevel, houter⟩ := List.forall_mem_cons.mp hs
  rcases step_names hopen with hsame | ⟨-, name, rfl⟩
  · exact absurd hsame hnames
  · rw [grouped, read_oneOf rfl hcounts, oneOf_congr hflags] at hkeys
    obtain rfl := Option.some.inj hkeys
    rw [step_of_visible (by decide)] at hclose
    obtain rfl := Option.some.inj hclose
    exact List.forall_mem_cons.mpr ⟨hlevel.push (groupsHold_oneOf kind flags _ _ _), houter⟩

/-! ### Filled templates -/

section Template

variable {check check' : Flags → Bool} {rest source : List Char}

/-- Behind a slot the check goes on. -/
theorem exists_of_capturesSlots_slot
    (h : r.capturesSlots kind check ('%' :: 's' :: rest) = true) :
    ∃ r', r.read (grouped []) = some r' ∧ r'.capturesSlots kind check rest = true :=
  (Option.any_eq_true _ _).mp h

/-- Behind any other character the check goes on, and a group of the kind is opened for a slot only.
-/
theorem exists_of_capturesSlots_cons {c : Char}
    (hslot : ∀ later, c = '%' → rest = 's' :: later → False)
    (h : r.capturesSlots kind check (c :: rest) = true) :
    ∃ r', r.step c = some r' ∧
      ((∀ name ∈ r'.names, name ∈ r.names ∨ kind name = false) ∨
        ∃ later, rest = '%' :: 's' :: ')' :: later ∧ check r'.level.flags = true) ∧
      r'.capturesSlots kind check rest = true := by
  rw [capturesSlots] at h
  on_goal 2 => exact hslot
  obtain ⟨r', hr', h⟩ := (Option.any_eq_true _ _).mp h
  rw [Bool.and_eq_true, Bool.or_eq_true, Bool.and_eq_true] at h
  refine ⟨r', hr', h.1.imp ?_ ?_, h.2⟩
  · intro hquiet
    simpa [quiet] using hquiet
  · rintro ⟨hbegins, hcheck⟩
    obtain ⟨later, rfl⟩ := List.isPrefixOf_iff_prefix.mp hbegins
    exact ⟨later, rfl, hcheck⟩

/-- Two checks of the settings can be made at once. -/
theorem capturesSlots_and (h : r.capturesSlots kind check source = true)
    (h' : r.capturesSlots kind check' source = true) :
    r.capturesSlots kind (fun flags => check flags && check' flags) source = true := by
  fun_induction capturesSlots kind check r source with
  | case1 r rest ih =>
    obtain ⟨t, ht, h⟩ := (Option.any_eq_true _ _).mp h
    rw [capturesSlots, ht] at h' ⊢
    exact ih t h h'
  | case2 r c rest hslot ih =>
    obtain ⟨t, ht, h⟩ := (Option.any_eq_true _ _).mp h
    rw [capturesSlots, ht, Option.any_some] at h' ⊢
    on_goal 2 => exact hslot
    on_goal 2 => exact hslot
    simp only [Bool.and_eq_true, Bool.or_eq_true] at h h' ⊢
    refine ⟨?_, ih t h.2 h'.2⟩
    rcases h.1, h'.1 with ⟨hquiet | ⟨hbegins, hcheck⟩, hquiet' | ⟨-, hcheck'⟩⟩
    · exact .inl hquiet
    · exact .inl hquiet
    · exact .inl hquiet'
    · exact .inr ⟨hbegins, hcheck, hcheck'⟩
  | case3 => rfl

end Template

/-- In a comment the texts have no line breaks, so they do not end it. -/
theorem Abreast.newline_notMem (h : r.Abreast s) {rest : List Char}
    (hlines : HasChar (· == '\n') texts → r.slotsUncommented ('%' :: 's' :: rest) = true)
    (hcomment : s.mode.inComment = true) : '\n' ∉ joinBars (texts.map escape) := by
  intro hmem
  rcases mem_joinBars hmem with hbar | ⟨escaped, hescaped, hmem⟩
  · cases hbar
  · obtain ⟨text, htext, rfl⟩ := List.mem_map.mp hescaped
    have hline : '\n' ∈ text := (mem_escape hmem).resolve_left (by decide)
    have hslots := hlines ⟨text, htext, '\n', hline, rfl⟩
    rw [h.alike.mode.symm, inComment_of_slotsUncommented hslots] at hcomment
    cases hcomment

/-- **Behind a filled template that captures slots, every group of the kind holds a choice between
the texts in the slots**, if their characters count there and no line break ends a comment. The
reader `s` of the filled template goes abreast of the reader `r` that checks the template. -/
theorem GroupsHold.fillSlots {check : Flags → Bool} {source : List Char}
    (hs : s.GroupsHold kind (.seq (oneOf flags texts.reverse) .empty)) (habreast : r.Abreast s)
    (hslots : r.capturesSlots kind check source = true)
    (hcheck : ∀ given, check given = true →
      given.ignoreCase = flags.ignoreCase ∧ ∀ text ∈ texts, given.Counts text)
    (hlines : HasChar (· == '\n') texts → r.slotsUncommented source = true)
    (hread : s.read (fillSlots (grouped (joinBars (texts.map escape))) source) = some s') :
    s'.GroupsHold kind (.seq (oneOf flags texts.reverse) .empty) := by
  have hkeys : Inert (joinBars (texts.map escape)) := .joinBars_escape texts
  -- A group of the kind is read in one go, up to its end, so the rest is shorter by more than one.
  induction hlength : source.length using Nat.strong_induction_on generalizing source r s with
  | _ n ih =>
    subst hlength
    fun_cases Relabel.fillSlots (grouped (joinBars (texts.map escape))) source with
    | case1 rest =>
      obtain ⟨t, ht, hslots⟩ := exists_of_capturesSlots_slot hslots
      rw [Relabel.fillSlots, read_append] at hread
      obtain ⟨u, hu, hread⟩ := Option.bind_eq_some_iff.mp hread
      have hline := habreast.newline_notMem hlines
      have hholds := hs.read hu (names_read_grouped hkeys hline hu)
      have hnext : t.Abreast u := habreast.read_grouped hkeys hline ht hu
      have hlines' := fun h => slotsUncommented_of_slot (hlines h) ht
      refine ih rest.length ?_ hholds hnext hslots hlines' hread rfl
      simp only [List.length_cons]
      omega
    | case2 c rest hslot =>
      obtain ⟨t, ht, hopened, hslots⟩ := exists_of_capturesSlots_cons hslot hslots
      rw [Relabel.fillSlots, read_cons] at hread
      on_goal 2 => exact hslot
      obtain ⟨u, hu, hread⟩ := Option.bind_eq_some_iff.mp hread
      have hnext : t.Abreast u := habreast.step ht hu
      have hlines' := fun h => slotsUncommented_of_step hslot (hlines h) ht
      rw [hnext.alike.names, habreast.alike.names] at hopened
      by_cases hquiet : ∀ name ∈ u.names, name ∈ s.names ∨ kind name = false
      · have hholds := hs.step (.refl s) hu hu hquiet
        exact ih rest.length (Nat.lt_succ_self _) hholds hnext hslots hlines' hread rfl
      · obtain ⟨later, rfl, hflags⟩ := hopened.resolve_left hquiet
        obtain ⟨hcase, hcounts⟩ := hcheck u.level.flags (hnext.flags ▸ hflags)
        have hnames : u.names ≠ s.names :=
          fun hsame => hquiet fun name hname => .inl (hsame ▸ hname)
        obtain ⟨t', ht', hslots⟩ := exists_of_capturesSlots_slot hslots
        obtain ⟨t'', ht'', -, hslots⟩ := exists_of_capturesSlots_cons (by simp) hslots
        rw [Relabel.fillSlots, fillSlots_cons (by decide), read_append] at hread
        obtain ⟨u', hu', hread⟩ := Option.bind_eq_some_iff.mp hread
        obtain ⟨u'', hu'', hread⟩ := Option.bind_eq_some_iff.mp hread
        have hholds := hs.capture hu hnames hcase hcounts hu' hu''
        have hline := hnext.newline_notMem hlines'
        have hlast : t''.Abreast u'' := (hnext.read_grouped hkeys hline ht' hu').step ht'' hu''
        have hlater := fun h =>
          slotsUncommented_of_step (by simp) (slotsUncommented_of_slot (hlines' h) ht') ht''
        refine ih later.length ?_ hholds hlast hslots hlater hread rfl
        simp only [List.length_cons]
        omega
    | case3 =>
      cases hread
      exact hs

end Reader

end Pattern

/-- Where a template captures slots, the settings there let every character of the keys count. -/
theorem Template.exists_check {t : Template} {group : String} {caseSensitive : Bool}
    {texts : List (List Char)} (hslots : t.capturesSlots group caseSensitive = true)
    (hblanks : HasChar Unicode.isSpace texts → t.capturesBlanks group caseSensitive = true) :
    ∃ check : Flags → Bool,
      (Reader.start (!caseSensitive)).capturesSlots (isBranchOf group.toList) check
        t.source.toList = true ∧
      ∀ given, check given = true →
        given.ignoreCase = !caseSensitive ∧ ∀ text ∈ texts, given.Counts text := by
  by_cases hspaced : HasChar Unicode.isSpace texts
  · refine ⟨_, Reader.capturesSlots_and hslots (hblanks hspaced), fun given hgiven => ?_⟩
    rw [Bool.and_eq_true, beq_iff_eq, Bool.not_eq_true'] at hgiven
    exact ⟨hgiven.1, fun text _ => Flags.counts_of_eq_false hgiven.2 text⟩
  · refine ⟨_, hslots, fun given hgiven => ⟨beq_iff_eq.mp hgiven, ?_⟩⟩
    intro text htext _ c hc
    exact Bool.not_eq_true _ ▸ fun hspace => hspaced ⟨text, htext, c, hc, hspace⟩

/-- **In a template that captures slots every branch of the group holds the choice between the
keys**, whatever else the template holds. -/
theorem Template.groupsHold_of_capturesSlots {t : Template} {group : String} {caseSensitive : Bool}
    {lookup : Lookup} {p : Pattern} (hslots : t.capturesSlots group caseSensitive = true)
    (hblanks : HasChar Unicode.isSpace (lookup.keys.map String.toList) →
      t.capturesBlanks group caseSensitive = true)
    (hlines : HasChar (· == '\n') (lookup.keys.map String.toList) →
      t.slotsUncommented caseSensitive = true)
    (hp : t.pattern lookup.pattern caseSensitive = .ok p) :
    p.WellNumbered ∧ p.GroupsHold (isBranchOf group.toList)
      (.seq (.oneOf (.initial (!caseSensitive)) lookup.texts) .empty) := by
  have hkeys : lookup.pattern = joinBars ((lookup.keys.map String.toList).map escape) := by
    rw [Lookup.pattern, List.map_map]
    rfl
  obtain ⟨check, hchecked, hcheck⟩ := exists_check hslots hblanks
  unfold pattern at hp
  split at hp
  · rename_i q hq
    cases hp
    refine ⟨parse?_wellNumbered hq, ?_⟩
    rw [parse?] at hq
    split at hq
    · rename_i s hs
      refine Reader.GroupsHold.finish ?_ hq
      rw [fill, hkeys] at hs
      exact (Reader.tracks_start _ _ _).holds.fillSlots (.start _) hchecked hcheck hlines hs
    · cases hq
  · cases hp

-- The group may have several branches, and other slots may stand anywhere, also in classes.
example : Template.capturesSlots ⟨"[%s](?P<main>%s)|(?s:%s(?<main_1>%s)+)", by decide⟩ "main"
    true = true := by
  decide +kernel

-- The setting in front of the group makes it match what is no key.
example : Template.capturesSlots ⟨"(?i)(?P<main>%s)", by decide⟩ "main" true = false := by
  decide +kernel

/-! ### The key that a text stands for -/

/-- `MatchesWhole key part`: without regard to case, the pattern of the escaped key matches the
whole of a text. -/
def MatchesWhole (key part : List Char) : Prop :=
  ∃ p, parse? true (escape key) = some p ∧
    ∃ d new, p.Matches (.start part) d new ∧ d.rest = []

/-- An escaped text is the pattern of the text. -/
theorem parse?_escape (ignoreCase : Bool) (key : List Char) :
    parse? ignoreCase (escape key) = some (spelled (.initial ignoreCase) key) := by
  obtain ⟨repeatable, hread⟩ := Reader.read_escape (s := .start ignoreCase) rfl
    (Flags.counts_of_eq_false rfl key)
  rw [parse?, hread]
  simp [Reader.finish, Reader.start, Mode.uncommented, Level.start, Level.pattern, Level.body,
    ofBranches, spelled]

/-- An escaped key matches the texts that are equal to it up to case, character by character. -/
theorem matchesWhole_iff {key part : List Char} :
    MatchesWhole key part ↔ Unicode.sameFoldText part key = true := by
  have hlexical : (spelled (.initial true) key).lexical = true :=
    lexical_oneOf (.initial true) [key]
  have hlanguage : part ∈ (spelled (.initial true) key).language ↔
      Unicode.sameFoldText part key = true := mem_language_spelled
  rw [MatchesWhole, parse?_escape, ← hlanguage]
  constructor
  · rintro ⟨p, hp, d, new, hmatches, hend⟩
    obtain rfl := Option.some.inj hp
    obtain ⟨-, part', hpart', hover⟩ := (matches_iff_mem_language hlexical).mp hmatches
    have hall : part = part' ++ d.rest := hover.1
    rwa [hall, hend, List.append_nil]
  · intro hpart
    obtain ⟨d, hover, hend⟩ := Cursor.exists_over (c := .start part) (List.append_nil part).symm
    exact ⟨_, rfl, d, [], matches_of_mem_language hlexical hpart hover, hend⟩

namespace Lookup

variable {mapping : Mapping} {caseSensitive : Bool} {condition : List Char → Bool}

/-- The value of the first key that satisfies a condition is the value of that key. -/
theorem exists_isFirstKey_of_first? {value : String}
    (h : (ofMapping mapping caseSensitive).first? condition = some value) :
    ∃ key, mapping.IsFirstKey (fun key => condition key = true) key ∧
      mapping.lookup key = some value := by
  unfold first? at h
  split at h
  · rename_i key hkey
    exact ⟨key, isFirstKey_of_find? hkey, h⟩
  · cases h

/-- If there is no first key, none satisfies the condition. -/
theorem forall_not_of_first?_eq_none
    (h : (ofMapping mapping caseSensitive).first? condition = none) :
    ∀ key ∈ mapping.map Prod.fst, condition key.toList = false := by
  intro key hkey
  cases hcondition : condition key.toList with
  | false => rfl
  | true =>
    have hsome : ((ofMapping mapping caseSensitive).first? condition).isSome = true :=
      first?_isSome (mem_keys.mpr hkey) hcondition
    rw [h] at hsome
    cases hsome

/-- **What a text resolves to if case does not matter**: the value of the first key with the same
lowercase form or, if there is none, of the first key that matches the whole of the text. -/
theorem get?_insensitive_eq_some {part : List Char} {value : String}
    (h : (ofMapping mapping false).get? part = some value) :
    ∃ key, mapping.lookup key = some value ∧
      (mapping.IsFirstKey (fun key => Unicode.lowercase key = Unicode.lowercase part) key ∨
        (∀ other ∈ mapping.map Prod.fst,
          Unicode.lowercase other.toList ≠ Unicode.lowercase part) ∧
        mapping.IsFirstKey (fun key => MatchesWhole key part) key) := by
  rw [get?_of_insensitive, Option.or_eq_some_iff] at h
  rcases h with h | ⟨hnone, h⟩
  · obtain ⟨key, hfirst, hvalue⟩ := exists_isFirstKey_of_first? h
    simp only [beq_iff_eq] at hfirst
    exact ⟨key, hvalue, .inl hfirst⟩
  · obtain ⟨key, hfirst, hvalue⟩ := exists_isFirstKey_of_first? h
    simp only [← matchesWhole_iff] at hfirst
    refine ⟨key, hvalue, .inr ⟨fun other hother => ?_, hfirst⟩⟩
    exact beq_eq_false_iff_ne.mp (forall_not_of_first?_eq_none hnone other hother)

end Lookup

/-- Whether some key of a mapping has a character of a kind. -/
def Mapping.keyHas (mapping : Mapping) (kind : Char → Bool) : Bool :=
  mapping.any fun entry => entry.1.toList.any kind

theorem Mapping.keyHas_of_hasChar {mapping : Mapping} {caseSensitive : Bool} {kind : Char → Bool}
    (h : HasChar kind ((Lookup.ofMapping mapping caseSensitive).keys.map String.toList)) :
    mapping.keyHas kind = true := by
  obtain ⟨text, htext, hchar⟩ := h
  obtain ⟨key, hkey, rfl⟩ := List.mem_map.mp htext
  obtain ⟨entry, hentry, rfl⟩ := List.mem_map.mp (Lookup.mem_keys.mp hkey)
  exact List.any_eq_true.mpr ⟨entry, hentry, List.any_eq_true.mpr hchar⟩

/-- **Every captured slot resolves to the right key.** Let each branch of the reported group of a
template consist of a slot, and let the slots be filled with the keys of a mapping; if a key has
white space, let those of the group stand where blanks count, and if a key has a line break, let
none stand in a comment. Then every text that is captured resolves. If case matters the text is a
key, and it resolves to the value of that key. Otherwise it resolves to the value of the first key,
longer ones first, with the same lowercase form or, if there is none, of the first key whose escaped
text matches the whole of it without regard to case. -/
theorem slot_captures_resolve {template : Template} {group : String} {caseSensitive : Bool}
    {mapping : Mapping} {matcher : Matcher} (hmapping : mapping ≠ [])
    (hslots : template.capturesSlots group caseSensitive = true)
    (hblanks : mapping.keyHas Unicode.isSpace = true →
      template.capturesBlanks group caseSensitive = true)
    (hlines : mapping.keyHas (· == '\n') = true → template.slotsUncommented caseSensitive = true)
    (hmatcher : (Matcher.compile template (Lookup.ofMapping mapping caseSensitive).pattern group
      caseSensitive).outcome = .ok matcher)
    (text : List Char) {hit : Hit} (hhit : hit ∈ matcher.scan text) {span : Span}
    (hcapture : hit.capture = some span) :
    ∃ part value, span.slice? text = some part ∧
      (Lookup.ofMapping mapping caseSensitive).get? part = some value ∧
      (caseSensitive = true → ∃ key ∈ mapping.map Prod.fst,
        part = key.toList ∧ mapping.lookup key = some value) ∧
      (caseSensitive = false → ∃ key, mapping.lookup key = some value ∧
        (mapping.IsFirstKey (fun key => Unicode.lowercase key = Unicode.lowercase part) key ∨
          (∀ other ∈ mapping.map Prod.fst,
            Unicode.lowercase other.toList ≠ Unicode.lowercase part) ∧
          mapping.IsFirstKey (fun key => MatchesWhole key part) key)) := by
  obtain ⟨p, hp, rfl⟩ := Matcher.eq_ofPattern_of_compile hmatcher
  obtain ⟨hnumbered, hholds⟩ := template.groupsHold_of_capturesSlots hslots
    (fun h => hblanks (Mapping.keyHas_of_hasChar h))
    (fun h => hlines (Mapping.keyHas_of_hasChar h)) hp
  have hspan : span ∈ (Matcher.ofPattern group.toList p).captureSpans text :=
    List.mem_filterMap.mpr ⟨hit, hhit, hcapture⟩
  obtain ⟨part, hpart⟩ := Matcher.Compiled.captureSpans_slice ⟨p, rfl⟩ hspan
  have hne : (Lookup.ofMapping mapping caseSensitive).texts ≠ [] := by
    simpa [Lookup.texts, Lookup.ofMapping, ← List.length_eq_zero_iff] using hmapping
  obtain ⟨text', htext', hwritten⟩ :=
    Matcher.captured_writtenAs hnumbered hne hholds (Matcher.mem_captured hspan hpart)
  rw [Lookup.texts, List.mem_reverse] at htext'
  obtain ⟨key, hkey, rfl⟩ := List.mem_map.mp htext'
  rw [Lookup.mem_keys] at hkey
  obtain ⟨value, hvalue⟩ := Option.isSome_iff_exists.mp (Lookup.get?_isSome hkey hwritten)
  refine ⟨part, value, hpart, hvalue, ?_, ?_⟩
  · rintro rfl
    obtain rfl : part = key.toList := beq_iff_eq.mp hwritten
    have hlookup : mapping.lookup (String.ofList key.toList) = some value := hvalue
    rw [String.ofList_toList] at hlookup
    exact ⟨key, hkey, rfl, hlookup⟩
  · rintro rfl
    exact Lookup.get?_insensitive_eq_some hvalue

/-- A long s behind a blank resolves to the key with a plain one. Their lowercase forms differ, but
without regard to case the key matches it. Another slot stands in a comment. -/
theorem slot_captures_resolve_folded :
    Template.capturesSlots ⟨"(?x) [.] (?-x:(?P<main>%s)) # %s", by decide⟩ "main" false = true ∧
      Mapping.keyHas [("k s", "x")] Unicode.isSpace = true ∧
      Mapping.keyHas [("k s", "x")] (· == '\n') = false ∧
      Template.capturesBlanks ⟨"(?x) [.] (?-x:(?P<main>%s)) # %s", by decide⟩ "main" false = true ∧
      ∃ matcher, (Matcher.compile ⟨"(?x) [.] (?-x:(?P<main>%s)) # %s", by decide⟩
          (Lookup.ofMapping [("k s", "x")] false).pattern "main" false).outcome = .ok matcher ∧
        matcher.scan ".K ſ".toList = [⟨⟨0, 5⟩, some ⟨1, 5⟩⟩] ∧
        Unicode.lowercase "k s".toList ≠ Unicode.lowercase "K ſ".toList ∧
        ∃ key value, (Lookup.ofMapping [("k s", "x")] false).get? "K ſ".toList = some value ∧
          List.lookup key [("k s", "x")] = some value ∧
          Mapping.IsFirstKey [("k s", "x")] (fun key => MatchesWhole key "K ſ".toList) key := by
  have hpattern : (Lookup.ofMapping [("k s", "x")] false).pattern = "k s".toList :=
    Lookup.pattern_singleton "k s" "x" false
  have hslots : Template.capturesSlots ⟨"(?x) [.] (?-x:(?P<main>%s)) # %s", by decide⟩ "main"
      false = true := by
    decide +kernel
  have hblanks : Template.capturesBlanks ⟨"(?x) [.] (?-x:(?P<main>%s)) # %s", by decide⟩ "main"
      false = true := by
    decide +kernel
  have hlines : Mapping.keyHas [("k s", "x")] (· == '\n') = false := by
    decide +kernel
  have hlowered : Unicode.lowercase "k s".toList ≠ Unicode.lowercase "K ſ".toList := by
    decide +kernel
  have hrun : ((Matcher.compile ⟨"(?x) [.] (?-x:(?P<main>%s)) # %s", by decide⟩ "k s".toList "main"
      false).outcome.toOption.any fun matcher =>
        matcher.scan ".K ſ".toList == [⟨⟨0, 5⟩, some ⟨1, 5⟩⟩]) = true := by
    decide +kernel
  rw [← hpattern] at hrun
  obtain ⟨matcher, hmatcher, hpassed⟩ := exists_ok_of_any hrun
  have hscan : matcher.scan ".K ſ".toList = [⟨⟨0, 5⟩, some ⟨1, 5⟩⟩] := beq_iff_eq.mp hpassed
  obtain ⟨part, value, hpart, hvalue, -, hfolded⟩ := slot_captures_resolve (by decide) hslots
    (fun _ => hblanks) (fun hline => nomatch hlines.symm.trans hline) hmatcher ".K ſ".toList
    (hscan ▸ List.mem_singleton_self _) rfl
  obtain rfl : "K ſ".toList = part := Option.some.inj ((by decide : _ = _).trans hpart)
  obtain ⟨key, hkey, ⟨hmem, hsame, -⟩ | ⟨-, hfirst⟩⟩ := hfolded rfl
  · obtain rfl := List.mem_singleton.mp hmem
    exact absurd hsame hlowered
  · exact ⟨hslots, by decide +kernel, hlines, hblanks, matcher, hmatcher, hscan, hlowered, key,
      value, hvalue, hkey, hfirst⟩

/-- Where blanks are ignored a key with a blank captures a text without it, which is no key. -/
theorem ignored_blanks_captured_unresolved :
    Template.capturesSlots ⟨"(?x)(?P<main>%s)", by decide⟩ "main" true = true ∧
      ∃ matcher, (Matcher.compile ⟨"(?x)(?P<main>%s)", by decide⟩
          (Lookup.ofMapping [("a b", "c")] true).pattern "main" true).outcome = .ok matcher ∧
        matcher.scan "ab".toList = [⟨⟨0, 2⟩, some ⟨0, 2⟩⟩] ∧
        (Lookup.ofMapping [("a b", "c")] true).get? "ab".toList = none := by
  have hpattern : (Lookup.ofMapping [("a b", "c")] true).pattern = "a b".toList :=
    Lookup.pattern_singleton "a b" "c" true
  have hrun : ((Matcher.compile ⟨"(?x)(?P<main>%s)", by decide⟩ "a b".toList "main"
      true).outcome.toOption.any fun matcher =>
        matcher.scan "ab".toList == [⟨⟨0, 2⟩, some ⟨0, 2⟩⟩]) = true := by
    decide +kernel
  rw [← hpattern] at hrun
  obtain ⟨matcher, hmatcher, hscan⟩ := exists_ok_of_any hrun
  exact ⟨by decide +kernel, matcher, hmatcher, beq_iff_eq.mp hscan, by decide⟩

end Relabel
