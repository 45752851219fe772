import Mathlib.Data.List.Forall2
import Relabel.Proofs.Reading

/-!
# Which texts are patterns

Whether a reader can go on does not depend on the patterns it has read so far. All that counts is
its mode, how many groups and classes are open, whether these groups have an item that could be
repeated and ignore blanks, and which names are taken. Readers that agree on this are `Alike`, and a
character is read by both or by neither (`Reader.step_uniform`). So a part of a text can be
exchanged for another without the text ceasing to be a pattern, if both leave alike readers behind.
-/

namespace Relabel.Pattern

theorem rel_bind {α β : Type} {R : α → α → Prop} {S : β → β → Prop} {x y : Option α}
    {f g : α → Option β} (h : Option.Rel R x y)
    (hnext : ∀ a b, R a b → Option.Rel S (f a) (g b)) : Option.Rel S (x.bind f) (y.bind g) := by
  cases h with
  | none => exact .none
  | some hab => exact hnext _ _ hab

/-- Of two related computations both succeed or none. -/
theorem isSome_eq_of_rel {α : Type} {R : α → α → Prop} {x y : Option α} (h : Option.Rel R x y) :
    x.isSome = y.isSome := by
  cases h <;> rfl

theorem rel_cases {α : Type} {R : α → α → Prop} {x y : Option α} (h : Option.Rel R x y) :
    (x = none ∧ y = none) ∨ ∃ a b, x = some a ∧ y = some b ∧ R a b := by
  cases h with
  | none => exact .inl ⟨rfl, rfl⟩
  | some hab => exact .inr ⟨_, _, rfl, rfl, hab⟩

/-- Two open groups of which the same can be made next. -/
structure Level.Alike (a b : Level) : Prop where
  items : a.items = [] ↔ b.items = []
  repeatable : a.repeatable = b.repeatable
  blanks : a.flags.ignoreBlanks = b.flags.ignoreBlanks

namespace Level.Alike

variable {a b : Level}

theorem refl (a : Level) : a.Alike a :=
  ⟨Iff.rfl, rfl, rfl⟩

theorem start {flags flags' : Flags} (h : flags.ignoreBlanks = flags'.ignoreBlanks)
    (kind kind' : GroupKind) : (Level.start kind flags).Alike (Level.start kind' flags') :=
  ⟨Iff.rfl, rfl, h⟩

theorem push (h : a.Alike b) (p q : Pattern) : (a.push p).Alike (b.push q) :=
  ⟨iff_of_false (List.cons_ne_nil _ _) (List.cons_ne_nil _ _), rfl, h.blanks⟩

theorem branch (h : a.Alike b) : a.branch.Alike b.branch :=
  ⟨Iff.rfl, rfl, h.blanks⟩

/-- Of two alike groups, the last item can be repeated in both or in none. -/
theorem repeatLast (h : a.Alike b) (min : Nat) (max : Option Nat) (greedy greedy' : Bool) :
    Option.Rel Level.Alike (a.repeatLast min max greedy) (b.repeatLast min max greedy') := by
  unfold Level.repeatLast
  cases ha : a.items with
  | nil =>
    rw [h.items.mp ha]
    exact .none
  | cons last earlier =>
    cases hb : b.items with
    | nil => exact absurd (h.items.mpr hb) (ha ▸ List.cons_ne_nil _ _)
    | cons last' earlier' =>
      exact .some
        ⟨iff_of_false (List.cons_ne_nil _ _) (List.cons_ne_nil _ _), h.repeatable, h.blanks⟩

end Level.Alike

theorem Flags.ignoreBlanks_set {flags flags' : Flags} (h : flags.ignoreBlanks = flags'.ignoreBlanks)
    (name : Char) (value : Bool) :
    (flags.set name value).ignoreBlanks = (flags'.set name value).ignoreBlanks := by
  unfold Flags.set
  split
  case h_4 => rfl
  all_goals exact h

/-- Whether blanks are ignored depends on no other setting. -/
theorem FlagList.ignoreBlanks_apply (list : FlagList) {flags flags' : Flags}
    (h : flags.ignoreBlanks = flags'.ignoreBlanks) :
    (list.apply flags).ignoreBlanks = (list.apply flags').ignoreBlanks := by
  unfold apply
  induction list.named generalizing flags flags' with
  | nil => exact h
  | cons named others ih => exact ih (Flags.ignoreBlanks_set h named.1 named.2)

namespace Reader

/-- Two readers that can read the same. -/
structure Alike (r s : Reader) : Prop where
  mode : r.mode = s.mode
  level : r.level.Alike s.level
  outer : List.Forall₂ Level.Alike r.outer s.outer
  sets : r.sets.length = s.sets.length
  names : r.names = s.names

/-- `Uniform act`: alike readers both fail to act, or are alike afterwards. -/
def Uniform (act : Reader → Option Reader) : Prop :=
  ∀ r s : Reader, r.Alike s → Option.Rel Alike (act r) (act s)

namespace Alike

variable {r s : Reader}

theorem refl (r : Reader) : r.Alike r :=
  ⟨rfl, .refl _, List.forall₂_same.mpr fun level _ => .refl level, rfl, rfl⟩

theorem goto (h : r.Alike s) (mode : Mode) : (r.goto mode).Alike (s.goto mode) :=
  { h with mode := rfl }

theorem push (h : r.Alike s) (p q : Pattern) : (r.push p).Alike (s.push q) :=
  { h with mode := rfl, level := h.level.push p q }

theorem openGroup (h : r.Alike s) {flags flags' : Flags}
    (hblanks : flags.ignoreBlanks = flags'.ignoreBlanks) (kind kind' : GroupKind) :
    (r.openGroup kind flags).Alike (s.openGroup kind' flags') :=
  { h with mode := rfl, level := .start hblanks _ _, outer := .cons h.level h.outer }

theorem openCapture (h : r.Alike s) (name : Option (List Char)) :
    (r.openCapture name).Alike (s.openCapture name) :=
  { h.openGroup h.level.blanks _ _ with names := congrArg (name.toList ++ ·) h.names }

theorem length_sets_mapSet (r : Reader) (f : SetLevel → SetLevel) :
    (r.mapSet f).sets.length = r.sets.length := by
  unfold mapSet
  split
  · rename_i top sets hsets
    rw [hsets, List.length_cons, List.length_cons]
  · rfl

/-- What stands in a class makes no difference. -/
theorem mapSet (h : r.Alike s) (f g : SetLevel → SetLevel) : (r.mapSet f).Alike (s.mapSet g) := by
  have hsets : (r.mapSet f).sets.length = (s.mapSet g).sets.length := by
    rw [length_sets_mapSet, length_sets_mapSet, h.sets]
  rw [mapSet_eq_settled r, mapSet_eq_settled s]
  exact { h with sets := hsets }

theorem setOperator (h : r.Alike s) (op : SetOp) : (r.setOperator op).Alike (s.setOperator op) :=
  (h.mapSet _ _).goto _

end Alike

/-! ### Actions -/

theorem uniform_none : Uniform fun _ => none :=
  fun _ _ _ => .none

theorem uniform_some {act : Reader → Reader}
    (h : ∀ r s : Reader, r.Alike s → (act r).Alike (act s)) : Uniform fun r => some (act r) :=
  fun r s hrs => .some (h r s hrs)

theorem uniform_goto (mode : Mode) : Uniform fun r => some (r.goto mode) :=
  uniform_some fun _ _ h => h.goto mode

/-- Two uniform actions, one after the other, are uniform. -/
theorem Uniform.bind {first second : Reader → Option Reader} (hfirst : Uniform first)
    (hsecond : Uniform second) : Uniform fun r => (first r).bind second :=
  fun r s h => rel_bind (hfirst r s h) hsecond

theorem Uniform.congr {act act' : Reader → Option Reader} (h : Uniform act)
    (heq : ∀ r, act r = act' r) : Uniform act' := by
  intro r s hrs
  rw [← heq r, ← heq s]
  exact h r s hrs

/-- Whether an item can be repeated does not depend on what it is. -/
theorem repeatLast_uniform (min : Nat) (max : Option Nat) (greedy : Bool) :
    Uniform fun r => r.repeatLast min max greedy := by
  intro r s h
  simp only [repeatLast, Option.map_eq_bind]
  apply rel_bind (h.level.repeatLast min max _ _)
  intro level level' hlevel
  exact .some { h with mode := rfl, level := hlevel }

/-- The items of the group that is closed make no difference. -/
theorem closeGroup_rel {r s : Reader} (houter : List.Forall₂ Level.Alike r.outer s.outer)
    (hsets : r.sets.length = s.sets.length) (hnames : r.names = s.names) :
    Option.Rel Alike r.closeGroup s.closeGroup := by
  unfold closeGroup
  cases hr : r.outer with
  | nil =>
    have hs : s.outer = [] := List.forall₂_nil_left_iff.mp (hr ▸ houter)
    rw [hs]
    exact .none
  | cons parent outer =>
    obtain ⟨parent', outer', hparent, houter, hs⟩ := List.forall₂_cons_left_iff.mp (hr ▸ houter)
    rw [hs]
    exact .some ⟨rfl, hparent.push _ _, houter, hsets, hnames⟩

/-- A repetition operator may come next, or not. -/
theorem expect_uniform (mode : Mode) :
    Uniform fun r => if r.level.repeatable then some (r.goto mode) else none := by
  intro r s h
  dsimp only
  rw [h.level.repeatable]
  split
  · exact .some (h.goto mode)
  · exact .none

/-- What a character begins, where an item may, is the same for alike readers. -/
theorem readItem_uniform (c : Char) : Uniform fun r => r.readItem c := by
  unfold readItem
  split
  case h_1 => exact uniform_goto _
  case h_2 => exact fun r s h => closeGroup_rel h.outer h.sets h.names
  case h_3 => exact uniform_some fun r s h => { h with level := h.level.branch }
  case h_4 => exact uniform_some fun r s h => { h with mode := rfl, sets := rfl }
  case h_5 => exact expect_uniform _
  case h_6 => exact expect_uniform _
  case h_7 => exact expect_uniform _
  case h_8 => exact expect_uniform _
  case h_9 => exact uniform_goto _
  all_goals exact uniform_some fun r s h => h.push _ _

/-! ### Escapes and counts -/

theorem addRange_uniform (first last : Char) : Uniform fun r => r.addRange first last := by
  unfold addRange
  split
  · exact uniform_some fun r s h => (h.mapSet _ _).goto _
  · exact uniform_none

theorem deliver_uniform (place : Place) (atom : Atom) : Uniform fun r => r.deliver place atom := by
  unfold deliver
  split
  · exact uniform_some fun r s h => h.push _ _
  · exact uniform_some fun r s h => h.push _ _
  · exact uniform_some fun r s h => h.push _ _
  · exact uniform_none
  · exact uniform_goto _
  · exact addRange_uniform _ _
  · exact uniform_none

theorem deliverCode_uniform (place : Place) (code : Nat) :
    Uniform fun r => r.deliverCode place code := by
  unfold deliverCode
  split
  · exact deliver_uniform place _
  · exact uniform_none

theorem readEscape_uniform (place : Place) (c : Char) : Uniform fun r => r.readEscape place c := by
  unfold readEscape
  split
  · exact uniform_goto _
  · exact uniform_goto _
  · exact uniform_goto _
  · split
    · exact uniform_goto _
    · exact uniform_none
  · split
    · exact deliver_uniform place _
    · exact uniform_none

theorem readHexDigit_uniform (place : Place) (missing value : Nat) (c : Char) :
    Uniform fun r => r.readHexDigit place missing value c := by
  unfold readHexDigit
  split
  · dsimp only
    split
    · exact deliverCode_uniform place _
    · exact uniform_goto _
  · exact uniform_none

theorem readHexBrace_uniform (place : Place) (value : Option Nat) (c : Char) :
    Uniform fun r => r.readHexBrace place value c := by
  unfold readHexBrace
  split
  · split
    · exact deliverCode_uniform place _
    · exact uniform_none
  · split
    · exact uniform_goto _
    · exact uniform_none

theorem endCount_uniform (min : Nat) (max : Option Nat) : Uniform fun r => r.endCount min max := by
  unfold endCount
  split
  · exact uniform_goto _
  · exact uniform_none

theorem readCountMin_uniform (value : Option Nat) (ended : Bool) (c : Char) :
    Uniform fun r => r.readCountMin value ended c := by
  unfold readCountMin
  split
  · split
    · exact uniform_none
    · exact uniform_goto _
  · split
    · exact uniform_goto _
    · split
      · exact uniform_goto _
      · exact endCount_uniform _ _
      · exact uniform_none

theorem readCountMax_uniform (min : Nat) (value : Option Nat) (ended : Bool) (c : Char) :
    Uniform fun r => r.readCountMax min value ended c := by
  unfold readCountMax
  split
  · split
    · exact uniform_none
    · exact uniform_goto _
  · split
    · exact uniform_goto _
    · split
      · exact endCount_uniform _ _
      · exact uniform_none

/-! ### Headers of groups -/

theorem readGroupName_uniform (letters : List Char) (c : Char) :
    Uniform fun r => r.readGroupName letters c := by
  unfold readGroupName
  split
  · intro r s h
    dsimp only
    rw [h.names]
    split
    · exact .none
    · exact .some (h.openCapture _)
  · split
    · exact uniform_goto _
    · exact uniform_none

/-- Settings are applied to both readers, which then still agree on whether blanks are ignored. -/
theorem readFlag_uniform (list : FlagList) (c : Char) : Uniform fun r => r.readFlag list c := by
  unfold readFlag
  split
  · split
    · exact uniform_none
    · exact uniform_some fun r s h => h.openGroup (list.ignoreBlanks_apply h.level.blanks) _ _
  · split
    · exact uniform_none
    · exact uniform_some fun r s h =>
        { h with
          mode := rfl
          level := ⟨h.level.items, rfl, list.ignoreBlanks_apply h.level.blanks⟩ }
  · split
    · exact uniform_none
    · exact uniform_goto _
  · split
    · exact uniform_goto _
    · exact uniform_none

/-! ### Classes -/

/-- A class is closed in both readers, whatever has been read into it. -/
theorem closeSet_uniform : Uniform closeSet := by
  intro r s h
  have hsets := h.sets
  unfold closeSet
  cases hr : r.sets with
  | nil =>
    rw [hr] at hsets
    rw [List.length_eq_zero_iff.mp hsets.symm]
    exact .none
  | cons top sets =>
    cases hs : s.sets with
    | nil => simp [hr, hs] at hsets
    | cons top' sets' =>
      have hlength : sets.length = sets'.length := by simpa [hr, hs] using hsets
      cases sets with
      | nil =>
        rw [List.length_eq_zero_iff.mp hlength.symm]
        exact .some { h with mode := rfl, level := h.level.push _ _, sets := rfl }
      | cons parent rest =>
        cases sets' with
        | nil => cases hlength
        | cons parent' rest' => exact .some { h with mode := rfl, sets := hlength }

theorem addAtom_uniform (atom : Atom) : Uniform fun r => r.addAtom atom := by
  cases atom with
  | char c => exact uniform_some fun r s h => h.mapSet _ _
  | set t => exact uniform_some fun r s h => h.mapSet _ _
  | look l => exact uniform_none

theorem readMember_uniform (c : Char) : Uniform fun r => r.readMember c := by
  unfold readMember
  split
  · exact uniform_some fun r s h => { h with mode := rfl, sets := congrArg (· + 1) h.sets }
  · exact closeSet_uniform
  all_goals exact uniform_goto _

theorem readAfterMember_uniform (atom : Atom) (c : Char) :
    Uniform fun r => r.readAfterMember atom c := by
  unfold readAfterMember
  split
  · exact uniform_goto _
  · apply ((addAtom_uniform atom).bind (readMember_uniform c)).congr
    intro r
    cases r.addAtom atom <;> rfl

theorem readRangeEnd_uniform (atom : Atom) (c : Char) : Uniform fun r => r.readRangeEnd atom c := by
  unfold readRangeEnd
  split
  · exact uniform_goto _
  · exact addRange_uniform _ _
  · exact uniform_none

theorem readAfterDash_uniform (atom : Atom) (c : Char) :
    Uniform fun r => r.readAfterDash atom c := by
  unfold readAfterDash
  split
  · have hdash : Uniform fun r => (r.addSet (.single '-')).closeSet :=
      fun r s h => closeSet_uniform _ _ (h.mapSet _ _)
    apply ((addAtom_uniform atom).bind hdash).congr
    intro r
    cases r.addAtom atom <;> rfl
  · apply ((addAtom_uniform atom).bind (uniform_some fun r s h => h.setOperator .diff)).congr
    intro r
    cases r.addAtom atom <;> rfl
  · exact readRangeEnd_uniform atom _

theorem readApart_uniform (atom : Atom) (glimpse : Glimpse) (c : Char) :
    Uniform fun r => r.readApart atom glimpse c := by
  unfold readApart
  split
  · exact readRangeEnd_uniform atom c
  · apply ((addAtom_uniform atom).bind (readAfterMember_uniform (.char '-') c)).congr
    intro r
    cases r.addAtom atom <;> rfl

theorem readDoubled_uniform (first c : Char) : Uniform fun r => r.readDoubled first c := by
  unfold readDoubled
  split
  · split <;> exact uniform_some fun r s h => h.setOperator _
  · exact readAfterMember_uniform _ c

theorem readLeading_uniform (c : Char) : Uniform fun r => r.readLeading c := by
  unfold readLeading
  split
  · exact uniform_some fun r s h => (h.mapSet _ _).goto _
  · exact uniform_some fun r s h => (h.mapSet _ _).goto _
  · exact readMember_uniform _

/-- The modes inside a bracketed class. -/
theorem readSet_uniform (mode : SetMode) (c : Char) : Uniform fun r => r.readSet mode c := by
  unfold readSet
  cases mode with
  | opened =>
    dsimp only
    split
    · exact uniform_some fun r s h => (h.mapSet _ _).goto _
    · exact readLeading_uniform c
  | leading => exact readLeading_uniform c
  | leadingDashes =>
    dsimp only
    split
    · exact uniform_some fun r s h => h.mapSet _ _
    · exact readMember_uniform c
  | member => exact readMember_uniform c
  | doubled first => exact readDoubled_uniform first c
  | after atom => exact readAfterMember_uniform atom c
  | dash atom => exact readAfterDash_uniform atom c
  | apart atom glimpse => exact readApart_uniform atom glimpse c

/-! ### One character, and a text -/

theorem repetition_uniform (min : Nat) (max : Option Nat) (c : Char) : Uniform fun r =>
    match r.repeatLast min max (c != '?') with
    | some r => if c = '?' then some r else r.readItem c
    | none => none := by
  have hnext : Uniform fun r => if c = '?' then some r else r.readItem c := by
    split
    · exact fun r s h => .some h
    · exact readItem_uniform c
  apply ((repeatLast_uniform min max (c != '?')).bind hnext).congr
  intro r
  cases r.repeatLast min max (c != '?') <;> rfl

theorem boundaryName_uniform (letters : List Char) (c : Char) : Uniform fun r =>
    if c = '}' then (boundaryKind? letters.reverse).map fun l => r.push (.look l)
    else if isAsciiLetter c || c == '-' then some (r.goto (.boundaryName (c :: letters)))
    else none := by
  split
  · cases boundaryKind? letters.reverse with
    | none => exact uniform_none
    | some l => exact uniform_some fun r s h => h.push _ _
  · split
    · exact uniform_goto _
    · exact uniform_none

theorem groupHeader_uniform (c : Char) : Uniform fun r =>
    match c with
    | 'P' => some (r.goto .groupP)
    | '<' => some (r.goto .groupAngle)
    | c => r.readFlag ⟨[], false, false⟩ c := by
  split
  · exact uniform_goto _
  · exact uniform_goto _
  · exact readFlag_uniform _ _

/-- All modes together: what a character does in one of two alike readers it does in the other. -/
theorem readChar_uniform (c : Char) : Uniform fun r => r.readChar c := by
  intro r s h
  have hs := h.mode
  cases hr : r.mode <;> simp only [readChar, ← hs, hr]
  case item =>
    exact readItem_uniform c r s h
  case repetition min max counted =>
    exact repetition_uniform min max c r s h
  case escape place =>
    exact readEscape_uniform place c r s h
  case hexStart place digits =>
    split
    · exact .some (h.goto _)
    · exact readHexDigit_uniform place digits 0 c r s h
  case hexDigits place missing value =>
    exact readHexDigit_uniform place missing value c r s h
  case hexBrace place value =>
    exact readHexBrace_uniform place value c r s h
  case boundary =>
    split
    · exact .some (h.goto _)
    · exact readItem_uniform c _ _ (h.push _ _)
  case boundaryBrace =>
    split
    · exact .some (h.goto _)
    · exact readCountMin_uniform none false c _ _ (h.push _ _)
  case boundaryName letters =>
    exact boundaryName_uniform letters c r s h
  case groupOpen =>
    split
    · exact .some (h.goto _)
    · exact readItem_uniform c _ _ (h.openCapture none)
  case groupHeader =>
    exact groupHeader_uniform c r s h
  case groupP =>
    split
    · exact .some (h.goto _)
    · exact .none
  case groupAngle =>
    exact readGroupName_uniform [] c r s h
  case groupName letters =>
    exact readGroupName_uniform letters c r s h
  case flags list =>
    exact readFlag_uniform list c r s h
  case countMin value ended =>
    exact readCountMin_uniform value ended c r s h
  case countComma min =>
    split
    · exact endCount_uniform min none r s h
    · exact readCountMax_uniform min none false c r s h
  case countMax min value ended =>
    exact readCountMax_uniform min value ended c r s h
  case set mode =>
    exact readSet_uniform mode c _ _ (h.mapSet _ _)
  case comment back =>
    exact .some (h.goto _)

/-- Blanks are passed over in both readers or in none. -/
theorem readBlank_uniform (c : Char) : Uniform fun r => r.readBlank c := by
  intro r s h
  have hs := h.mode
  cases hr : r.mode <;> simp only [readBlank, ← hs, hr]
  case repetition min max counted =>
    split
    · exact .some (h.goto _)
    · simp only [Option.map_eq_bind]
      exact rel_bind (repeatLast_uniform min max true r s h) fun t u htu => .some (htu.goto _)
  case boundary =>
    exact .some ((h.push _ _).goto _)
  case set mode =>
    exact .some ((h.mapSet _ _).goto _)
  case escape | groupHeader | groupP | groupAngle | groupName | flags | comment =>
    exact readChar_uniform c r s h
  all_goals exact .some (h.goto _)

/-- **Alike readers read the same characters**, and are alike afterwards. -/
theorem step_uniform (c : Char) : Uniform fun r => r.step c := by
  intro r s h
  simp only [step, h.level.blanks]
  split
  · exact readBlank_uniform c r s h
  · exact readChar_uniform c r s h

/-- What holds of one character holds of a text. -/
theorem read_uniform (text : List Char) : Uniform fun r => r.read text := by
  induction text with
  | nil => exact fun r s h => .some h
  | cons c text ih => exact (step_uniform c).bind ih

theorem Alike.outermost {r s : Reader} (h : r.Alike s) : Option.Rel (fun _ _ => True)
    (if r.outer.isEmpty then some r.level.pattern else none)
    (if s.outer.isEmpty then some s.level.pattern else none) := by
  have hempty : r.outer.isEmpty = s.outer.isEmpty := by
    rw [Bool.eq_iff_iff, List.isEmpty_iff_length_eq_zero, List.isEmpty_iff_length_eq_zero,
      h.outer.length_eq]
  rw [hempty]
  split
  · exact .some trivial
  · exact .none

/-- A text may end for both of two alike readers or for neither. -/
theorem Alike.finish {r s : Reader} (h : r.Alike s) :
    Option.Rel (fun _ _ => True) r.finish s.finish := by
  rw [finish_eq, finish_eq, ← h.mode]
  unfold ending
  cases r.mode.uncommented with
  | item => exact h.outermost
  | boundary => exact (h.push (.look .wordBoundary) (.look .wordBoundary)).outermost
  | repetition min max counted =>
    have hlast : Option.Rel Alike (Op.applyAll [.again min max true] r)
        (Op.applyAll [.again min max true] s) :=
      rel_bind (repeatLast_uniform min max true r s h) fun _ _ hrs => .some hrs
    simp only [Option.bind_some]
    apply rel_bind hlast
    intro t u htu
    exact htu.outermost
  | _ => exact .none

end Reader

end Relabel.Pattern
