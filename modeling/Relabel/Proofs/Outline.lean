import Relabel.Proofs.Insertion

/-!
# Outlines of templates

The text of a template is fixed except for fragments, each in a group of its own, and for what is
put into the slots. Its outline keeps the fixed characters and only marks the other places. Reading
the outline goes in lockstep with reading any filled template of that shape, so what is checked on
the outline, which is finite and known, holds of the pattern of every such template.
-/

namespace Relabel

inductive Piece where
  /-- A character of the template. -/
  | char (c : Char)
  /-- A slot. -/
  | slot
  /-- A group with a name that holds a slot and nothing else. -/
  | capture (name : List Char)
  /-- A fragment in a group of its own, which stands where case is ignored or is not. -/
  | fragment (ignoreCase : Bool)
deriving DecidableEq, Repr

/-! ### Filling texts -/

theorem fillSlots_cons {c : Char} (h : c ≠ '%') (filling rest : List Char) :
    fillSlots filling (c :: rest) = c :: fillSlots filling rest := by
  rw [fillSlots]
  rintro _ rfl
  exact absurd rfl h

/-- Where there is no percent sign, nothing is filled in. -/
theorem fillSlots_append {front : List Char} (h : '%' ∉ front) (filling back : List Char) :
    fillSlots filling (front ++ back) = front ++ fillSlots filling back := by
  induction front with
  | nil => rfl
  | cons c front ih =>
    rw [List.mem_cons, not_or] at h
    rw [List.cons_append, fillSlots_cons (Ne.symm h.1), ih h.2, List.cons_append]

/-- A fragment without a slot stays as it is, also if it ends in a percent sign. -/
theorem fillSlots_fragment {fragment : List Char} (h : hasSlot fragment = false)
    (filling rest : List Char) : fillSlots filling (fragment ++ ')' :: rest) =
      fragment ++ ')' :: fillSlots filling rest := by
  fun_induction hasSlot fragment with
  | case1 => cases h
  | case2 c fragment hstart ih =>
    rw [List.cons_append, fillSlots, ih h, List.cons_append]
    intro tail hc htail
    cases fragment with
    | nil => cases htail
    | cons d fragment =>
      rw [List.cons_append] at htail
      exact hstart fragment hc (by rw [(List.cons.inj htail).1])
  | case3 => exact fillSlots_cons (by decide) filling rest

/-- A group that holds no slot stays as it is. -/
theorem fillSlots_group {fragment : List Char} (h : hasSlot fragment = false)
    (filling rest : List Char) : fillSlots filling ("(?:".toList ++ fragment ++ [')'] ++ rest) =
      "(?:".toList ++ fragment ++ [')'] ++ fillSlots filling rest := by
  have hfront : '%' ∉ "(?:".toList := by decide
  rw [List.append_assoc, List.append_assoc, fillSlots_append hfront, List.singleton_append,
    fillSlots_fragment h, List.append_assoc, List.append_assoc, List.singleton_append]

/-- A group that holds a slot and nothing else holds the filling then. -/
theorem fillSlots_capture {name : List Char} (h : '%' ∉ name) (filling rest : List Char) :
    fillSlots filling ("(?P<".toList ++ name ++ ">%s)".toList ++ rest) =
      "(?P<".toList ++ name ++ ['>'] ++ filling ++ [')'] ++ fillSlots filling rest := by
  have hsplit : "(?P<".toList ++ name ++ ">%s)".toList ++ rest =
      ("(?P<".toList ++ name ++ ['>']) ++ '%' :: 's' :: ')' :: rest := by simp
  have hfront : '%' ∉ "(?P<".toList ++ name ++ ['>'] := by simp [h]
  rw [hsplit, fillSlots_append hfront, fillSlots, fillSlots_cons (by decide)]
  simp

/-! ### The shape of a text -/

open Pattern

/-- `Shape pieces text`: the pieces are an outline of the text. What stands for a fragment has no
slot, and its groups have no names. -/
inductive Shape : List Piece → List Char → Prop where
  | nil : Shape [] []
  | char {pieces : List Piece} {text : List Char} (c : Char) (rest : Shape pieces text) :
    Shape (.char c :: pieces) (c :: text)
  | slot {pieces : List Piece} {text : List Char} (rest : Shape pieces text) :
    Shape (.slot :: pieces) ('%' :: 's' :: text)
  | capture {pieces : List Piece} {text : List Char} (name : List Char) (rest : Shape pieces text) :
    Shape (.capture name :: pieces) ("(?P<".toList ++ name ++ ">%s)".toList ++ text)
  | fragment {pieces : List Piece} {text fragment : List Char} {ignoreCase : Bool}
    (unslotted : hasSlot fragment = false)
    (inserts : Inserts (.initial ignoreCase) fragment Unnamed) (rest : Shape pieces text) :
    Shape (.fragment ignoreCase :: pieces) ("(?:".toList ++ fragment ++ [')'] ++ text)

/-- Outlines are put together. -/
theorem Shape.append {pieces pieces' : List Piece} {text text' : List Char} (h : Shape pieces text)
    (h' : Shape pieces' text') : Shape (pieces ++ pieces') (text ++ text') := by
  induction h with
  | nil => exact h'
  | char c _ ih => exact .char c ih
  | slot _ ih => exact .slot ih
  | capture name _ ih =>
    rw [List.append_assoc]
    exact .capture name ih
  | fragment unslotted inserts _ ih =>
    rw [List.append_assoc]
    exact .fragment unslotted inserts ih

/-- The name of the group that a text begins with, if the group holds a slot and nothing else. -/
def captureName? (text : List Char) : Option (List Char) :=
  let name := (text.drop 4).takeWhile fun c => c != '>'
  if ("(?P<".toList ++ name ++ ">%s)".toList).isPrefixOf text then some name else none

theorem captureName?_eq_some {text name : List Char} (h : captureName? text = some name) :
    ∃ tail, text = "(?P<".toList ++ name ++ ">%s)".toList ++ tail := by
  unfold captureName? at h
  simp only [Option.ite_none_right_eq_some, Option.some.injEq, List.isPrefixOf_iff_prefix] at h
  obtain ⟨⟨tail, htail⟩, rfl⟩ := h
  exact ⟨tail, htail.symm⟩

/-- The outline of a text of which the first characters, `skip` of them, are accounted for. -/
def outlineFrom : Nat → List Char → List Piece
  | _, [] => []
  | skip + 1, _ :: rest => outlineFrom skip rest
  | 0, c :: rest =>
    match captureName? (c :: rest) with
    | some name => .capture name :: outlineFrom (name.length + 7) rest
    | none =>
      if c = '%' ∧ rest.head? = some 's' then .slot :: outlineFrom 1 rest
      else .char c :: outlineFrom 0 rest

/-- What is computed from a text is an outline of it. -/
theorem shape_outlineFrom (skip : Nat) (text : List Char) :
    Shape (outlineFrom skip text) (text.drop skip) := by
  fun_induction outlineFrom skip text with
  | case1 skip =>
    rw [List.drop_nil]
    exact .nil
  | case2 skip c rest ih => exact ih
  | case3 c rest name hname ih =>
    obtain ⟨tail, htail⟩ := captureName?_eq_some hname
    have hlength : name.length + 8 = ("(?P<".toList ++ name ++ ">%s)".toList).length := by
      simp only [List.length_append]
      exact Nat.add_comm 4 _ ▸ rfl
    have hdrop : rest.drop (name.length + 7) = tail := by
      rw [← List.drop_succ_cons, htail, hlength, List.drop_left]
    rw [hdrop] at ih
    rw [List.drop_zero, htail]
    exact .capture name ih
  | case4 c rest hname hslot ih =>
    obtain ⟨rfl, hhead⟩ := hslot
    obtain ⟨tail, rfl⟩ := List.head?_eq_some_iff.mp hhead
    exact .slot ih
  | case5 c rest hname hslot ih => exact .char c ih

/-! ### Reading an outline -/

namespace Pattern

def Mode.isOpening : Mode → Bool
  | .groupOpen => true
  | _ => false

theorem Mode.eq_of_isOpening {mode : Mode} (h : mode.isOpening = true) : mode = .groupOpen := by
  cases mode with
  | groupOpen => rfl
  | _ => cases h

namespace Reader

/-- Whether no group has been given a name of a kind between two states of a reader. -/
def quiet (kind : List Char → Bool) (r r' : Reader) : Bool :=
  r'.names.all fun name => r.names.contains name || !kind name

/-- Reads the parenthesis that opens a group, where a group may begin under the given settings. -/
def opening? (kind : List Char → Bool) (flags : Flags) (r : Reader) : Option Reader :=
  (r.step '(').filter fun r' => r'.mode.isOpening && r'.level.flags == flags && quiet kind r r'

end Reader

end Pattern

/-- Reads a piece of an outline in a template that ignores case or does not. Fragments and slots are
read as empty groups. No group gets a name of a kind but by a `capture` piece. -/
def Piece.follow (kind : List Char → Bool) (ignoreCase : Bool) (r : Reader) : Piece → Option Reader
  | .char c => if c = '%' then none else (r.step c).filter (r.quiet kind)
  | .slot => (r.opening? kind (.initial ignoreCase)).map fun r => r.push .empty
  | .capture name =>
    if name.contains '%' || name.contains '>' then none
    else (r.opening? kind (.initial ignoreCase)).map fun r =>
      r.push (.group 0 (some name) (.seq .empty .empty))
  | .fragment ignoreCase => (r.opening? kind (.initial ignoreCase)).map fun r => r.push .empty

namespace Pattern

namespace Reader

/-- What is known of a reader `s` that reads a filled template in lockstep with a reader `r` that
reads its outline: it reflects `r`, groups with a name of the kind hold `body`, and no bracketed
class is left open. -/
structure Tracks (kind : List Char → Bool) (body : Pattern) (s r : Reader) : Prop where
  reflects : s.Reflects [] r
  holds : s.GroupsHold kind body
  tidy : s.Tidy

theorem tracks_start (kind : List Char → Bool) (body : Pattern) (ignoreCase : Bool) :
    (start ignoreCase).Tracks kind body (start ignoreCase) where
  reflects := ⟨rfl, rfl, ⟨rfl, rfl, .nil, .nil⟩, [], rfl, .nil⟩
  holds := List.forall_mem_singleton.mpr
    ⟨rfl, List.forall_mem_nil _, List.forall_mem_nil _⟩
  tidy := start_tidy ignoreCase

variable {kind : List Char → Bool} {body : Pattern} {r r' s s' : Reader}

/-- One character, read by both. -/
theorem Tracks.step (h : s.Tracks kind body r) {c : Char} (hr : r.step c = some r')
    (hquiet : r.quiet kind r' = true) (hs : s.step c = some s') : s'.Tracks kind body r' := by
  refine
    ⟨h.reflects.step hr hs, h.holds.step h.reflects.agrees hr hs ?_, step_tidies h.tidy c s' hs⟩
  intro name hname
  simpa using List.all_eq_true.mp hquiet name hname

/-- One more item in the innermost group. -/
theorem Tracks.push (h : s.Tracks kind body r) {p q : Pattern} (hpq : p.Reflects q)
    (hp : p.GroupsHold kind body) (hopen : s.mode = .groupOpen) (hmode : s'.mode = .item)
    (hsets : s'.sets = []) (hlevel : s'.level = s.level.push p) (houter : s'.outer = s.outer) :
    s'.Tracks kind body (r.push q) := by
  have hempty : s.sets = [] := h.tidy (by rw [hopen]; rfl)
  obtain ⟨hholds, hbelow⟩ := List.forall_mem_cons.mp h.holds
  refine ⟨⟨hmode, ?_, ?_, ?_⟩, ?_, fun _ => hsets⟩
  · rw [hsets, ← hempty]
    exact h.reflects.sets
  · rw [hlevel]
    exact h.reflects.level.push hpq
  · rw [houter]
    exact h.reflects.outer
  · refine List.forall_mem_cons.mpr ⟨?_, ?_⟩
    · rw [hlevel]
      exact hholds.push hp
    · rw [houter]
      exact hbelow

/-- The parenthesis that opens a group, read by both. -/
theorem Tracks.opening (h : s.Tracks kind body r) {flags : Flags}
    (hr : r.opening? kind flags = some r') (hs : s.step '(' = some s') :
    s'.Tracks kind body r' ∧ s'.mode = .groupOpen ∧ s'.level.flags = flags := by
  obtain ⟨hstep, hchecked⟩ := Option.filter_eq_some_iff.mp hr
  simp only [Bool.and_eq_true, beq_iff_eq] at hchecked
  obtain ⟨⟨hmode, hflags⟩, hquiet⟩ := hchecked
  have htracks := h.step hstep hquiet hs
  refine ⟨htracks, ?_, ?_⟩
  · rw [htracks.reflects.mode]
    exact Mode.eq_of_isOpening hmode
  · rw [htracks.reflects.level.flags]
    exact hflags

/-! ### Groups -/

theorem read_paren (h : s.mode = .item) (text : List Char) :
    s.read ("(?:".toList ++ text) = (s.goto .groupOpen).read ("?:".toList ++ text) := by
  have hparen : s.step '(' = some (s.goto .groupOpen) := by
    rw [step_of_visible (by decide)]
    simp [readChar, h, readItem]
  rw [show "(?:".toList ++ text = ['('] ++ ("?:".toList ++ text) from rfl, read_append,
    read_singleton, hparen, Option.bind_some]

theorem read_plainHeader (h : s.mode = .groupOpen) :
    s.read "?:".toList = some (s.openGroup .plain s.level.flags) := by
  simp (disch := decide) [read, step_of_visible, readChar, h, goto, readFlag, FlagList.apply,
    openGroup]

/-- What opens a group without a number. -/
theorem read_openPlain (h : s.mode = .item) :
    s.read "(?:".toList = some (s.openGroup .plain s.level.flags) := by
  have hread := read_paren h []
  rw [List.append_nil, List.append_nil] at hread
  rw [hread, read_plainHeader rfl]
  rfl

/-- The name of a group is read up to its closing bracket. -/
theorem read_groupName {name letters : List Char} (hname : '>' ∉ name)
    (hmode : s.mode = .groupName letters) (h : s.read (name ++ ['>']) = some s') :
    s' = s.openCapture (some (letters.reverse ++ name)) := by
  induction name generalizing s letters with
  | nil =>
    rw [List.nil_append, read_singleton, step_of_groupName hmode] at h
    simp only [readGroupName, if_true] at h
    split at h
    · cases h
    · rw [List.append_nil]
      exact (Option.some.inj h).symm
  | cons c name ih =>
    rw [List.mem_cons, not_or] at hname
    obtain ⟨t, ht, h⟩ := Option.bind_eq_some_iff.mp h
    rw [step_of_groupName hmode, readGroupName, if_neg (Ne.symm hname.1)] at ht
    split at ht
    · cases ht
      rw [ih (s := s.goto (.groupName (c :: letters))) hname.2 rfl h]
      simp only [List.reverse_cons, List.append_assoc, List.singleton_append]
      rfl
    · cases ht

/-- The header of a group with a name opens that group. -/
theorem read_captureHeader {name : List Char} (hname : '>' ∉ name) (hmode : s.mode = .groupOpen)
    (h : s.read ("?P<".toList ++ name ++ ['>']) = some s') : s' = s.openCapture (some name) := by
  have hheader : s.read "?P<".toList = some (s.goto (.groupName [])) := by
    simp (disch := decide) [read, step_of_visible, readChar, hmode, goto]
  rw [List.append_assoc, read_append, hheader, Option.bind_some] at h
  exact read_groupName (s := s.goto (.groupName [])) hname rfl h

end Reader

/-- What is read into a group leaves one item behind. -/
theorem Inserts.read {flags : Flags} {text : List Char} {P : Pattern → Prop}
    (h : Inserts flags text P) {s s' : Reader} (hmode : s.mode = .groupOpen) (hsets : s.sets = [])
    (hflags : s.level.flags = flags) (hread : s.read ("?:".toList ++ text ++ [')']) = some s') :
    ∃ item, P item ∧ s'.mode = .item ∧ s'.sets = [] ∧ s'.level = s.level.push item ∧
      s'.outer = s.outer := by
  rw [List.append_assoc, Reader.read_append, Reader.read_plainHeader hmode,
    Option.bind_some] at hread
  subst hflags
  exact h (s.openGroup .plain s.level.flags) s' s.level s.outer rfl hsets rfl rfl hread

/-- What is read into a group that is itself the whole of a group with a name. -/
theorem Inserts.read_capture {flags : Flags} {text name : List Char} {item : Pattern}
    (h : Inserts flags text (· = item)) (hname : '>' ∉ name) {s s' : Reader}
    (hmode : s.mode = .groupOpen) (hsets : s.sets = []) (hflags : s.level.flags = flags)
    (hread : s.read ("?P<".toList ++ name ++ ['>'] ++ ("(?:".toList ++ text ++ [')']) ++ [')']) =
      some s') :
    ∃ index, s'.mode = .item ∧ s'.sets = [] ∧
      s'.level = s.level.push (.group index (some name) (.seq item .empty)) ∧
        s'.outer = s.outer := by
  rw [List.append_assoc, Reader.read_append] at hread
  obtain ⟨t, ht, hread⟩ := Option.bind_eq_some_iff.mp hread
  obtain rfl := Reader.read_captureHeader hname hmode ht
  rw [Reader.read_append] at hread
  obtain ⟨u, hu, hclose⟩ := Option.bind_eq_some_iff.mp hread
  rw [List.append_assoc, Reader.read_paren rfl, ← List.append_assoc] at hu
  obtain ⟨_, rfl, humode, husets, hulevel, huouter⟩ :=
    h.read (s := (s.openCapture (some name)).goto .groupOpen) rfl hsets hflags hu
  have hending : Reader.ending u.mode = some [] := by rw [humode]; rfl
  rw [Reader.read_singleton, Reader.step_close hending (by rw [humode]; rfl)] at hclose
  have houter : u.outer = s.level :: s.outer := huouter
  simp only [Op.applyAll_nil, Option.bind_some, Reader.closeGroup, houter,
    Option.some.injEq] at hclose
  subst hclose
  refine ⟨s.groupCount + 1, rfl, husets, ?_, rfl⟩
  rw [hulevel]
  rfl

/-! ### Whole outlines -/

namespace Reader

variable {kind : List Char → Bool} {body : Pattern} {r r' s s' : Reader}

/-- A fragment, which the reader of the outline takes for an empty group. -/
theorem Tracks.fragment (h : s.Tracks kind body r) {flags : Flags} {text : List Char}
    (hr : r.opening? kind flags = some r') (hinserts : Inserts flags text Unnamed)
    (hs : s.read ("(?:".toList ++ text ++ [')']) = some s') :
    s'.Tracks kind body (r'.push .empty) := by
  obtain ⟨t, ht, hs⟩ := Option.bind_eq_some_iff.mp hs
  obtain ⟨htracks, hmode, hflags⟩ := h.opening hr ht
  have hsets : t.sets = [] := htracks.tidy (by rw [hmode]; rfl)
  obtain ⟨item, hitem, hmode', hsets', hlevel, houter⟩ := hinserts.read hmode hsets hflags hs
  exact htracks.push hitem.reflects (hitem.groupsHold kind body) hmode hmode' hsets' hlevel houter

/-- A group with a slot and nothing else, which holds what fills the slot. -/
theorem Tracks.capture {item : Pattern} (h : s.Tracks kind (.seq item .empty) r) {flags : Flags}
    {text name : List Char} (hname : '>' ∉ name) (hr : r.opening? kind flags = some r')
    (hinserts : Inserts flags text (· = item)) (hitem : item.Unnamed)
    (hs : s.read ("(?P<".toList ++ name ++ ['>'] ++ ("(?:".toList ++ text ++ [')']) ++ [')']) =
      some s') :
    s'.Tracks kind (.seq item .empty) (r'.push (.group 0 (some name) (.seq .empty .empty))) := by
  obtain ⟨t, ht, hs⟩ := Option.bind_eq_some_iff.mp hs
  obtain ⟨htracks, hmode, hflags⟩ := h.opening hr ht
  have hsets : t.sets = [] := htracks.tidy (by rw [hmode]; rfl)
  obtain ⟨index, hmode', hsets', hlevel, houter⟩ :=
    hinserts.read_capture hname hmode hsets hflags hs
  refine htracks.push ((hitem.reflects.seq (.refl _)).group index 0 (some name)) ?_ hmode hmode'
    hsets' hlevel houter
  intro node hnode hkind
  rcases List.mem_cons.mp hnode with rfl | hnode
  · rfl
  · rw [nodes, nodes, List.append_nil] at hnode
    exact hitem.groupsHold kind _ node hnode hkind

end Reader

end Pattern

section

variable {kind : List Char → Bool} {ignoreCase : Bool} {keys text : List Char} {item : Pattern}
  {pieces : List Piece}

/-- **A filled template is read in lockstep with its outline**, piece by piece. -/
theorem Shape.tracks (hshape : Shape pieces text)
    (hkeys : Inserts (.initial ignoreCase) keys (· = item)) (hitem : item.Unnamed)
    {r r' s s' : Reader} (h : s.Tracks kind (.seq item .empty) r)
    (hr : pieces.foldlM (Piece.follow kind ignoreCase) r = some r')
    (hs : s.read (fillSlots ("(?:".toList ++ keys ++ [')']) text) = some s') :
    s'.Tracks kind (.seq item .empty) r' := by
  induction hshape generalizing r s with
  | nil =>
    cases hr
    cases hs
    exact h
  | char c _ ih =>
    obtain ⟨t, ht, hr⟩ := Option.bind_eq_some_iff.mp hr
    simp only [Piece.follow] at ht
    split at ht
    · cases ht
    · rename_i hc
      obtain ⟨hstep, hquiet⟩ := Option.filter_eq_some_iff.mp ht
      rw [fillSlots_cons hc] at hs
      obtain ⟨u, hu, hs⟩ := Option.bind_eq_some_iff.mp hs
      exact ih (h.step hstep hquiet hu) hr hs
  | slot _ ih =>
    obtain ⟨t, ht, hr⟩ := Option.bind_eq_some_iff.mp hr
    obtain ⟨t', ht', rfl⟩ := Option.map_eq_some_iff.mp ht
    rw [fillSlots, Reader.read_append] at hs
    obtain ⟨u, hu, hs⟩ := Option.bind_eq_some_iff.mp hs
    exact ih (h.fragment ht' (hkeys.mono fun _ heq => heq ▸ hitem) hu) hr hs
  | capture name _ ih =>
    obtain ⟨t, ht, hr⟩ := Option.bind_eq_some_iff.mp hr
    simp only [Piece.follow] at ht
    split at ht
    · cases ht
    · rename_i hname
      simp only [Bool.or_eq_true, List.contains_iff_mem, not_or] at hname
      obtain ⟨t', ht', rfl⟩ := Option.map_eq_some_iff.mp ht
      rw [fillSlots_capture hname.1, Reader.read_append] at hs
      obtain ⟨u, hu, hs⟩ := Option.bind_eq_some_iff.mp hs
      exact ih (h.capture hname.2 ht' hkeys hitem hu) hr hs
  | @fragment pieces text fragment _ unslotted inserts _ ih =>
    obtain ⟨t, ht, hr⟩ := Option.bind_eq_some_iff.mp hr
    obtain ⟨t', ht', rfl⟩ := Option.map_eq_some_iff.mp ht
    rw [fillSlots_group unslotted, Reader.read_append] at hs
    obtain ⟨u, hu, hs⟩ := Option.bind_eq_some_iff.mp hs
    exact ih (h.fragment ht' inserts hu) hr hs

/-- Whether an outline is that of a pattern whose captures for `wanted` lie in front of what follows
them, and which has no group with a name of a kind that holds more than a slot. -/
def Piece.accepted (kind : List Char → Bool) (ignoreCase : Bool) (wanted : List Char)
    (pieces : List Piece) : Bool :=
  ((pieces.foldlM (follow kind ignoreCase) (.start ignoreCase)).bind Reader.finish).any fun q =>
    q.ordered (isCaptureGroup wanted) (isAheadGroup wanted)

/-- **What is checked on an outline holds of every filled template of that shape.** -/
theorem Shape.ordered_and_groupsHold {wanted : List Char} (hshape : Shape pieces text)
    (haccepted : Piece.accepted kind ignoreCase wanted pieces = true)
    (hkeys : Inserts (.initial ignoreCase) keys (· = item)) (hitem : item.Unnamed)
    {p : Pattern}
    (hparse : parse? ignoreCase (fillSlots ("(?:".toList ++ keys ++ [')']) text) = some p) :
    p.ordered (isCaptureGroup wanted) (isAheadGroup wanted) = true ∧
      p.GroupsHold kind (.seq item .empty) := by
  obtain ⟨q, hq, hordered⟩ := (Option.any_eq_true _ _).mp haccepted
  obtain ⟨r, hr, hfinish⟩ := Option.bind_eq_some_iff.mp hq
  unfold parse? at hparse
  split at hparse
  · rename_i s hs
    have htracks := hshape.tracks hkeys hitem (Reader.tracks_start kind _ ignoreCase) hr hs
    have hreflects := htracks.reflects.finish hfinish hparse
    exact ⟨hreflects.ordered _ _ hordered, htracks.holds.finish hparse⟩
  · cases hparse

end

end Relabel
