import Relabel.Pattern.Reader

/-!
# What reading does to the open groups

Reading a character changes the mode of a reader and its open classes, and it acts on the stack of
open groups. `Reader.step_follows` says once for all that the latter is a list of nine kinds of
operations, and that the list is determined by the mode, the open classes and the settings: two
readers that agree on these do the same, however their stacks differ. Facts about patterns that are
read then follow from facts about the operations.
-/

namespace Relabel.Pattern

@[simp] theorem Flags.ignoreCase_initial (ignoreCase : Bool) :
    (initial ignoreCase).ignoreCase = ignoreCase :=
  rfl

inductive Op where
  /-- Appends a character of a set. -/
  | set (s : CharSet)
  /-- Appends a condition. -/
  | look (l : Look)
  /-- Demands that a repetition operator may come next. -/
  | expect
  /-- Repeats the last item. -/
  | again (min : Nat) (max : Option Nat) (greedy : Bool)
  /-- Ends a branch. -/
  | branch
  /-- Changes the settings of the innermost group. -/
  | settings (flags : Flags)
  /-- Opens a group that records nothing. -/
  | plain (flags : Flags)
  /-- Opens a group that records what it matches, under a name not used before. -/
  | capture (name : Option (List Char))
  /-- Closes the innermost group. -/
  | close

namespace Op

/-- Performs an operation, after which an item may begin. -/
def apply : Op → Reader → Option Reader
  | .set s, r => some (r.push (.set s))
  | .look l, r => some (r.push (.look l))
  | .expect, r => if r.level.repeatable then some (r.goto .item) else none
  | .again min max greedy, r => r.repeatLast min max greedy
  | .branch, r => some { r with level := r.level.branch, mode := .item }
  | .settings flags, r =>
    some { r with level := { r.level with flags, repeatable := false }, mode := .item }
  | .plain flags, r => some (r.openGroup .plain flags)
  | .capture name, r => if name.any r.names.contains then none else some (r.openCapture name)
  | .close, r => r.closeGroup

def applyAll (ops : List Op) (r : Reader) : Option Reader :=
  ops.foldlM (fun r op => op.apply r) r

@[simp] theorem applyAll_nil (r : Reader) : applyAll [] r = some r :=
  rfl

@[simp] theorem applyAll_cons (op : Op) (ops : List Op) (r : Reader) :
    applyAll (op :: ops) r = (op.apply r).bind (applyAll ops) :=
  rfl

end Op

namespace Reader

/-- The reader in another mode and with other open classes. -/
def settled (r : Reader) (mode : Mode) (sets : List SetLevel) : Reader :=
  { r with mode, sets }

/-- `r.Agrees s`: the two readers are in the same mode, with the same open classes, under the same
settings. -/
def Agrees (r s : Reader) : Prop :=
  s.mode = r.mode ∧ s.sets = r.sets ∧ s.level.flags = r.level.flags

theorem Agrees.refl (r : Reader) : r.Agrees r :=
  ⟨rfl, rfl, rfl⟩

end Reader

/-- An operation neither reads the mode and the open classes nor changes the latter. -/
theorem Op.apply_settled (op : Op) (r : Reader) (mode : Mode) (sets : List SetLevel) :
    op.apply (r.settled mode sets) = (op.apply r).map fun r => r.settled .item sets := by
  cases op with
  | set s => rfl
  | look l => rfl
  | expect =>
    by_cases h : r.level.repeatable = true <;> simp [apply, Reader.settled, Reader.goto, h]
  | again min max greedy =>
    simp only [apply, Reader.repeatLast, Reader.settled, Option.map_map]
    rfl
  | branch => rfl
  | settings flags => rfl
  | plain flags => rfl
  | capture name =>
    by_cases h : name.any r.names.contains = true <;>
      simp [apply, Reader.settled, Reader.openCapture, Reader.openGroup, h]
  | close =>
    simp only [apply, Reader.closeGroup, Reader.settled]
    split <;> rfl

/-- Operations on groups do not depend on modes and open classes. -/
theorem Op.applyAll_settled (ops : List Op) (r : Reader) (mode mode' : Mode)
    (sets sets' : List SetLevel) :
    (applyAll ops (r.settled mode sets)).map (fun r => r.settled mode' sets') =
      (applyAll ops r).map fun r => r.settled mode' sets' := by
  induction ops generalizing r mode with
  | nil => rfl
  | cons op ops ih =>
    simp only [applyAll_cons, apply_settled]
    cases op.apply r with
    | none => rfl
    | some r => exact ih r .item

namespace Reader

/-- `Follows act r`: if an action succeeds in the state `r`, then in every state that agrees with
`r` it comes to the same operations on the open groups, and ends in the same mode with the same open
classes. -/
def Follows (act : Reader → Option Reader) (r : Reader) : Prop :=
  ∀ r', act r = some r' → ∃ ops, ∀ s, r.Agrees s →
    act s = (Op.applyAll ops s).map fun s => s.settled r'.mode r'.sets

/-- An action that leaves the open groups alone. -/
def Local (act : Reader → Option Reader) (r : Reader) : Prop :=
  ∀ s, r.Agrees s → act s = (act r).map fun r' => s.settled r'.mode r'.sets

/-- What leaves the open groups alone comes to no operations. -/
theorem Local.follows {act : Reader → Option Reader} {r : Reader} (h : Local act r) :
    Follows act r := by
  intro r' hr'
  refine ⟨[], fun s hs => ?_⟩
  rw [h s hs, hr']
  rfl

theorem Follows.congr {act act' : Reader → Option Reader} {r : Reader} (h : Follows act r)
    (heq : ∀ s, r.Agrees s → act s = act' s) : Follows act' r := by
  intro r' hr'
  obtain ⟨ops, hops⟩ := h r' ((heq r (.refl r)).trans hr')
  exact ⟨ops, fun s hs => (heq s hs).symm.trans (hops s hs)⟩

/-- Two actions in a row: the settings after the first one must be the same in states that agree. -/
theorem Follows.bind {first second : Reader → Option Reader} {r : Reader} (hfirst : Follows first r)
    (hflags : ∀ s s' r', r.Agrees s → first r = some r' → first s = some s' →
      s'.level.flags = r'.level.flags)
    (hsecond : ∀ r', first r = some r' → Follows second r') :
    Follows (fun s => (first s).bind second) r := by
  intro r'' hr''
  obtain ⟨r', hr', hr''⟩ := Option.bind_eq_some_iff.mp hr''
  obtain ⟨ops, hops⟩ := hfirst r' hr'
  obtain ⟨ops', hops'⟩ := hsecond r' hr' r'' hr''
  refine ⟨ops ++ ops', fun s hs => ?_⟩
  have happend : Op.applyAll (ops ++ ops') s = (Op.applyAll ops s).bind (Op.applyAll ops') :=
    List.foldlM_append
  have hfs := hops s hs
  simp only [happend, hfs]
  cases happly : Op.applyAll ops s with
  | none => rfl
  | some t =>
    rw [happly] at hfs
    have hagrees : r'.Agrees (t.settled r'.mode r'.sets) :=
      ⟨rfl, rfl, hflags s _ r' hs hr' hfs⟩
    simp only [Option.map_some, Option.bind_some, hops' _ hagrees, Op.applyAll_settled]

/-- An action behind one that leaves the open groups alone. -/
theorem Local.bind {first second : Reader → Option Reader} {r : Reader} (hfirst : Local first r)
    (hsecond : ∀ r', first r = some r' → Follows second r') :
    Follows (fun s => (first s).bind second) r := by
  refine hfirst.follows.bind (fun s s' r' hs hr' hs' => ?_) hsecond
  have hflags : ∀ {t t' : Reader}, r.Agrees t → first t = some t' →
      t'.level.flags = r.level.flags := by
    intro t t' ht ht'
    rw [hfirst t ht, hr'] at ht'
    cases ht'
    exact ht.2.2
  rw [hflags hs hs', hflags (.refl r) hr']

theorem follows_none (r : Reader) : Follows (fun _ => none) r :=
  fun _ h => nomatch h

theorem local_goto (r : Reader) (mode : Mode) : Local (fun s => some (s.goto mode)) r := by
  rintro s ⟨-, hsets, -⟩
  simp only [goto, settled, Option.map_some, ← hsets]

/-- An action that comes to one operation. -/
theorem follows_op {act : Reader → Option Reader} {r : Reader} (op : Op)
    (h : ∀ s, r.Agrees s → act s = op.apply s) : Follows act r := by
  intro r' hr'
  refine ⟨[op], fun s hs => ?_⟩
  have hself : ∀ t, op.apply t = (op.apply t).map fun t' => t'.settled .item t.sets :=
    fun t => op.apply_settled t t.mode t.sets
  rw [h r (.refl r), hself] at hr'
  obtain ⟨t, -, rfl⟩ := Option.map_eq_some_iff.mp hr'
  rw [h s hs, hself, hs.2.1]
  cases hop : op.apply s <;> simp [hop, settled]

/-- A repetition can be expected only behind an item. -/
theorem follows_expect (r : Reader) (mode : Mode) :
    Follows (fun s => if s.level.repeatable then some (s.goto mode) else none) r := by
  intro r' h
  simp only at h
  split at h <;> cases h
  refine ⟨[.expect], fun s ⟨_, hsets, _⟩ => ?_⟩
  by_cases hrep : s.level.repeatable = true <;> simp [Op.apply, goto, settled, hrep, ← hsets]

theorem mapSet_eq_settled (r : Reader) (f : SetLevel → SetLevel) :
    r.mapSet f = r.settled r.mode (r.mapSet f).sets := by
  unfold mapSet
  split <;> rfl

theorem sets_mapSet_congr {r s : Reader} (h : s.sets = r.sets) (f : SetLevel → SetLevel) :
    (s.mapSet f).sets = (r.mapSet f).sets := by
  unfold mapSet
  rw [h]
  split
  · rfl
  · exact h

/-- Changing the innermost class leaves the open groups alone. -/
theorem mapSet_local (r : Reader) (f : SetLevel → SetLevel) :
    Local (fun s => some (s.mapSet f)) r := by
  rintro s ⟨hmode, hsets, -⟩
  have hs : s.mapSet f = s.settled r.mode (r.mapSet f).sets := by
    rw [mapSet_eq_settled s, sets_mapSet_congr hsets, hmode]
  have hr : (r.mapSet f).mode = r.mode := by
    rw [mapSet_eq_settled]
    rfl
  simp only [hs, hr, Option.map_some]

theorem Local.goto {act : Reader → Reader} {r : Reader} (h : Local (fun s => some (act s)) r)
    (mode : Mode) : Local (fun s => some ((act s).goto mode)) r := by
  intro s hs
  have hact : act s = s.settled (act r).mode (act r).sets := Option.some.inj (h s hs)
  simp only [hact]
  rfl

/-- What begins where an item may comes to the same operations. -/
theorem readItem_follows (r : Reader) (c : Char) : Follows (fun s => s.readItem c) r := by
  unfold readItem
  split
  case h_1 => exact (local_goto r _).follows
  case h_2 => exact follows_op .close fun _ _ => rfl
  case h_3 =>
    rintro r' ⟨⟩
    refine ⟨[.branch], fun s ⟨hmode, hsets, _⟩ => ?_⟩
    simp [Op.apply, settled, ← hsets, ← hmode]
  case h_4 =>
    rintro r' ⟨⟩
    exact ⟨[], fun _ _ => rfl⟩
  case h_5 => exact follows_expect r _
  case h_6 => exact follows_expect r _
  case h_7 => exact follows_expect r _
  case h_8 => exact follows_expect r _
  case h_9 => exact (local_goto r _).follows
  case h_10 => exact follows_op (.set _) fun s ⟨_, _, hflags⟩ => by rw [hflags]; rfl
  case h_11 => exact follows_op (.look _) fun s ⟨_, _, hflags⟩ => by rw [hflags]; rfl
  case h_12 => exact follows_op (.look _) fun s ⟨_, _, hflags⟩ => by rw [hflags]; rfl
  case h_13 => exact follows_op (.set _) fun s ⟨_, _, hflags⟩ => by rw [hflags]; rfl

/-! ### Escapes -/

theorem addRange_follows (r : Reader) (first last : Char) :
    Follows (fun s => s.addRange first last) r := by
  unfold addRange
  split
  · exact ((mapSet_local r _).goto _).follows
  · exact follows_none r

/-- What an escape denotes is put where it stands by the same operations. -/
theorem deliver_follows (r : Reader) (place : Place) (atom : Atom) :
    Follows (fun s => s.deliver place atom) r := by
  unfold deliver
  split
  · exact follows_op (.set _) fun s ⟨_, _, hflags⟩ => by rw [hflags]; rfl
  · exact follows_op (.set _) fun _ _ => rfl
  · exact follows_op (.look _) fun _ _ => rfl
  · exact follows_none r
  · exact (local_goto r _).follows
  · exact addRange_follows r _ _
  · exact follows_none r

theorem deliverCode_follows (r : Reader) (place : Place) (code : Nat) :
    Follows (fun s => s.deliverCode place code) r := by
  unfold deliverCode
  split
  · exact deliver_follows r place _
  · exact follows_none r

theorem readEscape_follows (r : Reader) (place : Place) (c : Char) :
    Follows (fun s => s.readEscape place c) r := by
  unfold readEscape
  split
  · exact (local_goto r _).follows
  · exact (local_goto r _).follows
  · exact (local_goto r _).follows
  · split
    · exact (local_goto r _).follows
    · exact follows_none r
  · split
    · exact deliver_follows r place _
    · exact follows_none r

theorem readHexDigit_follows (r : Reader) (place : Place) (missing value : Nat) (c : Char) :
    Follows (fun s => s.readHexDigit place missing value c) r := by
  unfold readHexDigit
  split
  · dsimp only
    split
    · exact deliverCode_follows r place _
    · exact (local_goto r _).follows
  · exact follows_none r

theorem readHexBrace_follows (r : Reader) (place : Place) (value : Option Nat) (c : Char) :
    Follows (fun s => s.readHexBrace place value c) r := by
  unfold readHexBrace
  split
  · split
    · exact deliverCode_follows r place _
    · exact follows_none r
  · split
    · exact (local_goto r _).follows
    · exact follows_none r

/-! ### Repetition counts -/

theorem endCount_follows (r : Reader) (min : Nat) (max : Option Nat) :
    Follows (fun s => s.endCount min max) r := by
  unfold endCount
  split
  · exact (local_goto r _).follows
  · exact follows_none r

theorem readCountMin_follows (r : Reader) (value : Option Nat) (ended : Bool) (c : Char) :
    Follows (fun s => s.readCountMin value ended c) r := by
  unfold readCountMin
  split
  · split
    · exact follows_none r
    · exact (local_goto r _).follows
  · split
    · exact (local_goto r _).follows
    · split
      · exact (local_goto r _).follows
      · exact endCount_follows r _ _
      · exact follows_none r

theorem readCountMax_follows (r : Reader) (min : Nat) (value : Option Nat) (ended : Bool)
    (c : Char) : Follows (fun s => s.readCountMax min value ended c) r := by
  unfold readCountMax
  split
  · split
    · exact follows_none r
    · exact (local_goto r _).follows
  · split
    · exact (local_goto r _).follows
    · split
      · exact endCount_follows r _ _
      · exact follows_none r

/-! ### Headers of groups -/

theorem readGroupName_follows (r : Reader) (letters : List Char) (c : Char) :
    Follows (fun s => s.readGroupName letters c) r := by
  unfold readGroupName
  split
  · by_cases hempty : letters.reverse.isEmpty = true
    · simp only [hempty, Bool.true_or, if_true]
      exact follows_none r
    · refine follows_op (.capture (some letters.reverse)) fun s _ => ?_
      simp [Op.apply, hempty]
  · split
    · exact (local_goto r _).follows
    · exact follows_none r

theorem readFlag_follows (r : Reader) (list : FlagList) (c : Char) :
    Follows (fun s => s.readFlag list c) r := by
  unfold readFlag
  split
  · split
    · exact follows_none r
    · exact follows_op (.plain _) fun s ⟨_, _, hflags⟩ => by rw [hflags]; rfl
  · split
    · exact follows_none r
    · exact follows_op (.settings _) fun s ⟨_, _, hflags⟩ => by rw [hflags]; rfl
  · split
    · exact follows_none r
    · exact (local_goto r _).follows
  · split
    · exact (local_goto r _).follows
    · exact follows_none r

/-! ### Classes -/

/-- A closed class is one item. -/
theorem closeSet_follows (r : Reader) : Follows (fun s => s.closeSet) r := by
  intro r' h
  simp only [closeSet] at h
  split at h
  case h_1 => cases h
  case h_2 top hr =>
    cases h
    refine ⟨[.set (top.finished r.level.flags.ignoreCase)], fun s ⟨_, hsets, hflags⟩ => ?_⟩
    simp only [closeSet, hsets, hr, hflags]
    rfl
  case h_3 top parent sets hr =>
    cases h
    refine ⟨[], fun s ⟨_, hsets, hflags⟩ => ?_⟩
    simp only [closeSet, hsets, hr, hflags]
    rfl

theorem setOperator_local (r : Reader) (op : SetOp) :
    Local (fun s => some (s.setOperator op)) r := by
  intro s hs
  simp only [setOperator, hs.2.2]
  exact (mapSet_local r _).goto _ s hs

theorem addAtom_local (r : Reader) (atom : Atom) : Local (fun s => s.addAtom atom) r := by
  cases atom with
  | char c => exact mapSet_local r _
  | set t => exact mapSet_local r _
  | look l => exact fun _ _ => rfl

theorem readMember_follows (r : Reader) (c : Char) : Follows (fun s => s.readMember c) r := by
  unfold readMember
  split
  · refine Local.follows fun s ⟨_, hsets, _⟩ => ?_
    simp only [hsets]
    rfl
  · exact closeSet_follows r
  · exact (local_goto r _).follows
  · exact (local_goto r _).follows
  · exact (local_goto r _).follows
  · exact (local_goto r _).follows
  · exact (local_goto r _).follows

theorem readAfterMember_follows (r : Reader) (atom : Atom) (c : Char) :
    Follows (fun s => s.readAfterMember atom c) r := by
  unfold readAfterMember
  split
  · exact (local_goto r _).follows
  · refine ((addAtom_local r atom).bind fun t _ => readMember_follows t c).congr fun s _ => ?_
    cases s.addAtom atom <;> rfl

theorem readRangeEnd_follows (r : Reader) (atom : Atom) (c : Char) :
    Follows (fun s => s.readRangeEnd atom c) r := by
  unfold readRangeEnd
  split
  · exact (local_goto r _).follows
  · exact addRange_follows r _ _
  · exact follows_none r

theorem readAfterDash_follows (r : Reader) (atom : Atom) (c : Char) :
    Follows (fun s => s.readAfterDash atom c) r := by
  unfold readAfterDash
  split
  · have hdash : ∀ t : Reader, Follows (fun s => (s.addSet (.single '-')).closeSet) t := fun t =>
      (mapSet_local t _).bind fun t' _ => closeSet_follows t'
    refine ((addAtom_local r atom).bind fun t _ => hdash t).congr fun s _ => ?_
    cases s.addAtom atom <;> rfl
  · refine ((addAtom_local r atom).bind fun t _ => (setOperator_local t .diff).follows).congr
      fun s _ => ?_
    cases s.addAtom atom <;> rfl
  · exact readRangeEnd_follows r atom _

theorem readApart_follows (r : Reader) (atom : Atom) (glimpse : Glimpse) (c : Char) :
    Follows (fun s => s.readApart atom glimpse c) r := by
  unfold readApart
  split
  · exact readRangeEnd_follows r atom c
  · refine ((addAtom_local r atom).bind fun t _ =>
      readAfterMember_follows t (.char '-') c).congr fun s _ => ?_
    cases s.addAtom atom <;> rfl

theorem readDoubled_follows (r : Reader) (first c : Char) :
    Follows (fun s => s.readDoubled first c) r := by
  unfold readDoubled
  split
  · split
    · exact (setOperator_local r _).follows
    · exact (setOperator_local r _).follows
    · exact (setOperator_local r _).follows
  · exact readAfterMember_follows r (.char first) c

theorem readLeading_follows (r : Reader) (c : Char) : Follows (fun s => s.readLeading c) r := by
  unfold readLeading
  split
  · exact ((mapSet_local r _).goto _).follows
  · exact ((mapSet_local r _).goto _).follows
  · exact readMember_follows r _

/-- The modes inside a bracketed class. -/
theorem readSet_follows (r : Reader) (mode : SetMode) (c : Char) :
    Follows (fun s => s.readSet mode c) r := by
  unfold readSet
  cases mode with
  | opened =>
    dsimp only
    split
    · exact ((mapSet_local r _).goto _).follows
    · exact readLeading_follows r c
  | leading => exact readLeading_follows r c
  | leadingDashes =>
    dsimp only
    split
    · exact (mapSet_local r _).follows
    · exact readMember_follows r c
  | member => exact readMember_follows r c
  | doubled first => exact readDoubled_follows r first c
  | after atom => exact readAfterMember_follows r atom c
  | dash atom => exact readAfterDash_follows r atom c
  | apart atom glimpse => exact readApart_follows r atom glimpse c

/-! ### One character, and a text -/

/-- An action behind an operation that does not touch the settings. -/
theorem follows_op_bind {r : Reader} (op : Op) {second : Reader → Option Reader}
    (hflags : ∀ s s', op.apply s = some s' → s'.level.flags = s.level.flags)
    (hsecond : ∀ r', Follows second r') : Follows (fun s => (op.apply s).bind second) r := by
  refine (follows_op op fun _ _ => rfl).bind (fun s s' r' hs hr' hs' => ?_) fun r' _ => hsecond r'
  rw [hflags s s' hs', hflags r r' hr', hs.2.2]

theorem follows_some (r : Reader) : Follows some r := by
  refine Local.follows fun s ⟨hmode, hsets, _⟩ => ?_
  rw [Option.map_some, ← hmode, ← hsets]
  rfl

theorem flags_repeatLast {r r' : Reader} {min : Nat} {max : Option Nat} {greedy : Bool}
    (h : r.repeatLast min max greedy = some r') : r'.level.flags = r.level.flags := by
  obtain ⟨level, hlevel, rfl⟩ := Option.map_eq_some_iff.mp h
  unfold Level.repeatLast at hlevel
  split at hlevel <;> cases hlevel
  rfl

theorem readChar_repetition_follows {r : Reader} {min : Nat} {max : Option Nat} {counted : Bool}
    (hmode : r.mode = .repetition min max counted) (c : Char) :
    Follows (fun s => s.readChar c) r := by
  have hbind : Follows (fun s => ((Op.again min max (c != '?')).apply s).bind
      fun s => if c = '?' then some s else s.readItem c) r := by
    refine follows_op_bind (.again min max (c != '?')) (fun s s' hs' => flags_repeatLast hs')
      fun r' => ?_
    split
    · exact follows_some r'
    · exact readItem_follows r' c
  refine hbind.congr fun s hs => ?_
  simp only [readChar, hs.1, hmode, Op.apply]
  cases s.repeatLast min max (c != '?') <;> rfl

theorem readChar_groupOpen_follows {r : Reader} (hmode : r.mode = .groupOpen) (c : Char) :
    Follows (fun s => s.readChar c) r := by
  have hopen : Follows (fun s => if c = '?' then some (s.goto .groupHeader)
      else (s.openCapture none).readItem c) r := by
    split
    · exact (local_goto r _).follows
    · refine follows_op_bind (.capture none) (fun s s' hs' => ?_) fun r' => readItem_follows r' c
      cases hs'
      rfl
  exact hopen.congr fun s hs => by simp only [readChar, hs.1, hmode]

/-- A boundary is appended before the character behind it is read. -/
theorem push_boundary_follows (r : Reader) {act : Reader → Option Reader}
    (hact : ∀ r', Follows act r') : Follows (fun s => act (s.push (.look .wordBoundary))) r := by
  refine follows_op_bind (.look .wordBoundary) (fun s s' hs' => ?_) hact
  cases hs'
  rfl

theorem readChar_boundaryBrace_follows {r : Reader} (hmode : r.mode = .boundaryBrace) (c : Char) :
    Follows (fun s => s.readChar c) r := by
  have hbrace : Follows (fun s =>
      if isAsciiLetter c || c == '-' then some (s.goto (.boundaryName [c]))
      else (s.push (.look .wordBoundary)).readCountMin none false c) r := by
    split
    · exact (local_goto r _).follows
    · exact push_boundary_follows r fun r' => readCountMin_follows r' none false c
  exact hbrace.congr fun s hs => by simp only [readChar, hs.1, hmode]

theorem readChar_boundaryName_follows {r : Reader} {letters : List Char}
    (hmode : r.mode = .boundaryName letters) (c : Char) : Follows (fun s => s.readChar c) r := by
  have hname : Follows (fun s => if c = '}' then
      (boundaryKind? letters.reverse).map fun l => s.push (.look l)
      else if isAsciiLetter c || c == '-' then some (s.goto (.boundaryName (c :: letters)))
      else none) r := by
    split
    · cases boundaryKind? letters.reverse with
      | none => exact follows_none r
      | some l => exact follows_op (.look l) fun _ _ => rfl
    · split
      · exact (local_goto r _).follows
      · exact follows_none r
  exact hname.congr fun s hs => by simp only [readChar, hs.1, hmode]

theorem readChar_groupHeader_follows {r : Reader} (hmode : r.mode = .groupHeader) (c : Char) :
    Follows (fun s => s.readChar c) r := by
  by_cases hP : c = 'P'
  · subst hP
    exact (local_goto r .groupP).follows.congr fun s hs => by simp only [readChar, hs.1, hmode]
  by_cases hAngle : c = '<'
  · subst hAngle
    exact (local_goto r .groupAngle).follows.congr fun s hs => by simp only [readChar, hs.1, hmode]
  · exact (readFlag_follows r ⟨[], false, false⟩ c).congr fun s hs => by
      simp only [readChar, hs.1, hmode]

/-- All modes together: one character comes to the same operations. -/
theorem readChar_follows (r : Reader) (c : Char) : Follows (fun s => s.readChar c) r := by
  cases hmode : r.mode with
  | item => exact (readItem_follows r c).congr fun s hs => by simp only [readChar, hs.1, hmode]
  | repetition min max counted => exact readChar_repetition_follows hmode c
  | escape place =>
    exact (readEscape_follows r place c).congr fun s hs => by simp only [readChar, hs.1, hmode]
  | hexStart place digits =>
    have hstart : Follows (fun s => if c = '{' then some (s.goto (.hexBrace place none))
        else s.readHexDigit place digits 0 c) r := by
      split
      · exact (local_goto r _).follows
      · exact readHexDigit_follows r place digits 0 c
    exact hstart.congr fun s hs => by simp only [readChar, hs.1, hmode]
  | hexDigits place missing value =>
    exact (readHexDigit_follows r place missing value c).congr fun s hs => by
      simp only [readChar, hs.1, hmode]
  | hexBrace place value =>
    exact (readHexBrace_follows r place value c).congr fun s hs => by
      simp only [readChar, hs.1, hmode]
  | boundary =>
    have hboundary : Follows (fun s => if c = '{' then some (s.goto .boundaryBrace)
        else (s.push (.look .wordBoundary)).readItem c) r := by
      split
      · exact (local_goto r _).follows
      · exact push_boundary_follows r fun r' => readItem_follows r' c
    exact hboundary.congr fun s hs => by simp only [readChar, hs.1, hmode]
  | boundaryBrace => exact readChar_boundaryBrace_follows hmode c
  | boundaryName letters => exact readChar_boundaryName_follows hmode c
  | groupOpen => exact readChar_groupOpen_follows hmode c
  | groupHeader => exact readChar_groupHeader_follows hmode c
  | groupP =>
    have hP : Follows (fun s => if c = '<' then some (s.goto (.groupName [])) else none) r := by
      split
      · exact (local_goto r _).follows
      · exact follows_none r
    exact hP.congr fun s hs => by simp only [readChar, hs.1, hmode]
  | groupAngle =>
    exact (readGroupName_follows r [] c).congr fun s hs => by simp only [readChar, hs.1, hmode]
  | groupName letters =>
    exact (readGroupName_follows r letters c).congr fun s hs => by simp only [readChar, hs.1, hmode]
  | flags list =>
    exact (readFlag_follows r list c).congr fun s hs => by simp only [readChar, hs.1, hmode]
  | countMin value ended =>
    exact (readCountMin_follows r value ended c).congr
      fun s hs => by simp only [readChar, hs.1, hmode]
  | countComma min =>
    have hcomma : Follows (fun s => if c = '}' then s.endCount min none
        else s.readCountMax min none false c) r := by
      split
      · exact endCount_follows r min none
      · exact readCountMax_follows r min none false c
    exact hcomma.congr fun s hs => by simp only [readChar, hs.1, hmode]
  | countMax min value ended =>
    exact (readCountMax_follows r min value ended c).congr fun s hs => by
      simp only [readChar, hs.1, hmode]
  | set mode =>
    have hset : Follows (fun s => (s.spell c).readSet mode c) r :=
      (mapSet_local r _).bind fun t _ => readSet_follows t mode c
    exact hset.congr fun s hs => by simp only [readChar, hs.1, hmode]
  | comment back =>
    have hcomment : Follows (fun s => some (s.readComment back c)) r := (local_goto r _).follows
    exact hcomment.congr fun s hs => by simp only [readChar, hs.1, hmode]

/-- A blank that is passed over settles what is pending and changes nothing else. -/
theorem readBlank_follows (r : Reader) (c : Char) : Follows (fun s => s.readBlank c) r := by
  have hpass : ∀ (r : Reader) (mode : Mode), Follows (fun s => some (s.passOver mode c)) r :=
    fun r mode => (local_goto r _).follows
  cases hmode : r.mode with
  | repetition min max counted =>
    cases counted with
    | true =>
      exact (hpass r (.repetition min max true)).congr fun s hs => by
        simp only [readBlank, hs.1, hmode, if_true]
    | false =>
      have hlast : Follows (fun s => ((Op.again min max true).apply s).bind
          fun s => some (s.passOver .item c)) r :=
        follows_op_bind (.again min max true) (fun s s' hs' => flags_repeatLast hs')
          fun r' => hpass r' .item
      refine hlast.congr fun s hs => ?_
      simp only [readBlank, hs.1, hmode, Op.apply, Option.map_eq_bind]
      rfl
  | boundary =>
    have hboundary : Follows (fun s => some ((s.push (.look .wordBoundary)).passOver .item c)) r :=
      push_boundary_follows r fun r' => hpass r' .item
    exact hboundary.congr fun s hs => by simp only [readBlank, hs.1, hmode]
  | set mode =>
    have hset : Follows (fun s => some ((s.spell c).passOver (.set (mode.spaced c)) c)) r :=
      (mapSet_local r _).bind fun t _ => hpass t _
    exact hset.congr fun s hs => by simp only [readBlank, hs.1, hmode]
  | escape | groupHeader | groupP | groupAngle | groupName | flags | comment =>
    exact (readChar_follows r c).congr fun s hs => by simp only [readBlank, hs.1, hmode]
  | _ => exact (hpass r r.mode).congr fun s hs => by simp only [readBlank, hs.1, hmode]

/-- **What one character does is a matter of mode, classes and settings.** -/
theorem step_follows (r : Reader) (c : Char) : Follows (fun s => s.step c) r := by
  by_cases hblank : (r.level.flags.ignoreBlanks && isBlank c) = true
  · exact (readBlank_follows r c).congr fun s hs => by simp only [step, hs.2.2, hblank, if_true]
  · exact (readChar_follows r c).congr fun s hs => by
      simp only [step, hs.2.2, hblank, Bool.false_eq_true, if_false]

theorem read_singleton (r : Reader) (c : Char) : r.read [c] = r.step c := by
  simp [read]

/-- A step performs operations, and every reader that agrees and makes it performs them too. -/
theorem step_ops {r r' : Reader} {c : Char} (h : r.step c = some r') :
    ∃ ops, ∀ s s', r.Agrees s → s.step c = some s' →
      ∃ t, Op.applyAll ops s = some t ∧ s' = t.settled r'.mode r'.sets := by
  obtain ⟨ops, hops⟩ := step_follows r c r' h
  refine ⟨ops, fun s s' hs hs' => ?_⟩
  obtain ⟨t, ht, hsettled⟩ := Option.map_eq_some_iff.mp ((hops s hs).symm.trans hs')
  exact ⟨t, ht, hsettled.symm⟩

/-! ### The end of a text, and of a group -/

/-- What is left to do where a text, or the body of a group, may end. -/
def ending (mode : Mode) : Option (List Op) :=
  match mode.uncommented with
  | .item => some []
  | .repetition min max _ => some [.again min max true]
  | .boundary => some [.look .wordBoundary]
  | _ => none

/-- Where a text may end, there may be something left to do. -/
theorem finish_eq (r : Reader) :
    r.finish = (ending r.mode).bind fun ops => (Op.applyAll ops r).bind fun t =>
      if t.outer.isEmpty then some t.level.pattern else none := by
  unfold finish ending
  cases r.mode.uncommented with
  | repetition min max counted =>
    simp only [Option.bind_some, Op.applyAll_cons, Op.apply]
    cases r.repeatLast min max true <;> rfl
  | _ => rfl

/-- A text that may end here leaves one group open, which holds the pattern. -/
theorem finish_some {r : Reader} {p : Pattern} (h : r.finish = some p) :
    ∃ ops t, ending r.mode = some ops ∧ Op.applyAll ops r = some t ∧ t.outer = [] ∧
      t.level.pattern = p := by
  rw [finish_eq] at h
  obtain ⟨ops, hops, h⟩ := Option.bind_eq_some_iff.mp h
  obtain ⟨t, ht, h⟩ := Option.bind_eq_some_iff.mp h
  split at h
  · rename_i houter
    exact ⟨ops, t, hops, ht, List.isEmpty_iff.mp houter, Option.some.inj h⟩
  · cases h

/-- What is left to do opens and closes no group. -/
theorem outer_of_ending {r t : Reader} {mode : Mode} {ops : List Op} (h : ending mode = some ops)
    (ht : Op.applyAll ops r = some t) : t.outer = r.outer := by
  unfold ending at h
  split at h <;> cases h
  · cases ht
    rfl
  · obtain ⟨u, hu, ht⟩ := Option.bind_eq_some_iff.mp ht
    cases ht
    obtain ⟨level, -, rfl⟩ := Option.map_eq_some_iff.mp hu
    rfl
  · cases ht
    rfl

/-- A character that is never passed over is read as it is, also where blanks are ignored. -/
theorem step_of_visible {c : Char} (h : isBlank c = false) (r : Reader) :
    r.step c = r.readChar c := by
  rw [step, h, Bool.and_false, if_neg Bool.false_ne_true]

/-- Where blanks count, every character is read as it is. -/
theorem step_of_counting {r : Reader} (h : r.level.flags.ignoreBlanks = false) (c : Char) :
    r.step c = r.readChar c := by
  rw [step, h, Bool.false_and, if_neg Bool.false_ne_true]

/-- In some modes a blank is read as it is, also where blanks are ignored. -/
theorem step_of_readBlank {r : Reader} {c : Char} (h : r.readBlank c = r.readChar c) :
    r.step c = r.readChar c := by
  rw [step, h, ite_self]

theorem step_of_comment {r : Reader} {back : Mode} (h : r.mode = .comment back) (c : Char) :
    r.step c = some (r.readComment back c) := by
  rw [step_of_readBlank (by simp only [readBlank, h])]
  simp only [readChar, h]

theorem step_of_escape {r : Reader} {place : Place} (h : r.mode = .escape place) (c : Char) :
    r.step c = r.readEscape place c := by
  rw [step_of_readBlank (by simp only [readBlank, h])]
  simp only [readChar, h]

theorem step_of_groupName {r : Reader} {letters : List Char} (h : r.mode = .groupName letters)
    (c : Char) : r.step c = r.readGroupName letters c := by
  rw [step_of_readBlank (by simp only [readBlank, h])]
  simp only [readChar, h]

/-- Where a text may end, a parenthesis closes the innermost group, unless it is in a comment. -/
theorem step_close {r : Reader} {ops : List Op} (h : ending r.mode = some ops)
    (hcomment : r.mode.inComment = false) :
    r.step ')' = (Op.applyAll ops r).bind closeGroup := by
  rw [step_of_visible (by decide)]
  unfold readChar
  cases hmode : r.mode with
  | repetition min max counted =>
    rw [hmode] at h
    cases h
    simp only [Op.applyAll_cons, Op.apply]
    cases hlast : r.repeatLast min max true with
    | none => simp [hlast]
    | some t => simp [hlast, readItem]
  | item | boundary =>
    rw [hmode] at h
    cases h
    rfl
  | comment back =>
    rw [hmode] at hcomment
    cases hcomment
  | _ =>
    rw [hmode] at h
    cases h

end Reader

theorem parse?_eq_bind (ignoreCase : Bool) (text : List Char) :
    parse? ignoreCase text = ((Reader.start ignoreCase).read text).bind Reader.finish := by
  unfold parse?
  cases (Reader.start ignoreCase).read text <;> rfl

end Relabel.Pattern
