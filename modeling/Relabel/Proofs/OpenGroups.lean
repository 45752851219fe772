import Relabel.Proofs.AlikeReaders
import Relabel.Proofs.Lockstep
import Relabel.Proofs.OpenClasses

/-!
# The settings and names of open groups

What reading a character does to the settings of the open groups and to the names in use. Inside a
class it changes neither (`Reader.step_steady`). Outside, the settings change as the operations on
the groups say, whatever the groups hold. So two readers that are alike and have the same settings
keep the same settings while they read the same text (`Reader.Abreast.read`). A name comes into use
in one way only, by the bracket that ends it in the header of a group (`Reader.step_names`).
-/

namespace Relabel.Pattern

namespace Reader

def settings (r : Reader) : List Flags :=
  (r.level :: r.outer).map Level.flags

/-! ### Characters that open and close no group -/

/-- `r.Keeps r'`: between the two states no group was opened or closed, no settings were changed and
no name was given. -/
structure Keeps (r r' : Reader) : Prop where
  outer : r'.outer = r.outer
  flags : r'.level.flags = r.level.flags
  names : r'.names = r.names

/-- An action, if it succeeds in the state `r`, keeps groups, settings and names. -/
def Steady (r : Reader) (result : Option Reader) : Prop :=
  ∀ r', result = some r' → r.Keeps r'

theorem Keeps.settings {r r' : Reader} (h : r.Keeps r') : r'.settings = r.settings := by
  rw [Reader.settings, Reader.settings, List.map_cons, List.map_cons, h.outer, h.flags]

theorem Keeps.trans {r s t : Reader} (h : r.Keeps s) (h' : s.Keeps t) : r.Keeps t :=
  ⟨h'.outer.trans h.outer, h'.flags.trans h.flags, h'.names.trans h.names⟩

theorem keeps_goto (r : Reader) (mode : Mode) : r.Keeps (r.goto mode) :=
  ⟨rfl, rfl, rfl⟩

theorem keeps_push (r : Reader) (item : Pattern) : r.Keeps (r.push item) :=
  ⟨rfl, rfl, rfl⟩

theorem keeps_mapSet (r : Reader) (f : SetLevel → SetLevel) : r.Keeps (r.mapSet f) := by
  rw [mapSet_eq_settled]
  exact ⟨rfl, rfl, rfl⟩

theorem keeps_addSet (r : Reader) (s : CharSet) : r.Keeps (r.addSet s) :=
  r.keeps_mapSet _

theorem keeps_setOperator (r : Reader) (op : SetOp) : r.Keeps (r.setOperator op) :=
  (r.keeps_mapSet _).trans (keeps_goto _ _)

/-- What keeps groups, settings and names is steady. -/
theorem Keeps.steady {r r' : Reader} (h : r.Keeps r') : r.Steady (some r') := by
  rintro _ ⟨⟩
  exact h

/-- What is steady behind something that keeps them is steady. -/
theorem Keeps.trans_steady {r r' : Reader} {result : Option Reader} (h : r.Keeps r')
    (h' : r'.Steady result) : r.Steady result :=
  fun t ht => h.trans (h' t ht)

theorem steady_none (r : Reader) : r.Steady none :=
  fun _ h => nomatch h

theorem steady_goto (r : Reader) (mode : Mode) : r.Steady (some (r.goto mode)) :=
  (r.keeps_goto mode).steady

theorem addAtom_steady (r : Reader) (atom : Atom) : r.Steady (r.addAtom atom) := by
  cases atom with
  | char c => exact (r.keeps_addSet _).steady
  | set s => exact (r.keeps_addSet s).steady
  | look l => exact r.steady_none

theorem addRange_steady (r : Reader) (first last : Char) : r.Steady (r.addRange first last) := by
  unfold addRange
  split
  · exact ((r.keeps_addSet _).trans (keeps_goto _ _)).steady
  · exact r.steady_none

/-- Closing a class leaves the groups alone. -/
theorem closeSet_steady (r : Reader) : r.Steady r.closeSet := by
  unfold closeSet
  dsimp only
  split
  · exact r.steady_none
  · exact Keeps.steady ⟨rfl, rfl, rfl⟩
  · exact Keeps.steady ⟨rfl, rfl, rfl⟩

/-- An escape adds an item or a member, and leaves the groups alone. -/
theorem deliver_steady (r : Reader) (place : Place) (atom : Atom) :
    r.Steady (r.deliver place atom) := by
  unfold deliver
  split
  · exact (r.keeps_push _).steady
  · exact (r.keeps_push _).steady
  · exact (r.keeps_push _).steady
  · exact r.steady_none
  · exact r.steady_goto _
  · exact r.addRange_steady _ _
  · exact r.steady_none

theorem deliverCode_steady (r : Reader) (place : Place) (code : Nat) :
    r.Steady (r.deliverCode place code) := by
  unfold deliverCode
  split
  · exact r.deliver_steady place _
  · exact r.steady_none

theorem readEscape_steady (r : Reader) (place : Place) (c : Char) :
    r.Steady (r.readEscape place c) := by
  unfold readEscape
  split
  · exact r.steady_goto _
  · exact r.steady_goto _
  · exact r.steady_goto _
  · split
    · exact r.steady_goto _
    · exact r.steady_none
  · split
    · exact r.deliver_steady place _
    · exact r.steady_none

theorem readHexDigit_steady (r : Reader) (place : Place) (missing value : Nat) (c : Char) :
    r.Steady (r.readHexDigit place missing value c) := by
  unfold readHexDigit
  split
  · dsimp only
    split
    · exact r.deliverCode_steady place _
    · exact r.steady_goto _
  · exact r.steady_none

theorem readHexBrace_steady (r : Reader) (place : Place) (value : Option Nat) (c : Char) :
    r.Steady (r.readHexBrace place value c) := by
  unfold readHexBrace
  split
  · split
    · exact r.deliverCode_steady place _
    · exact r.steady_none
  · split
    · exact r.steady_goto _
    · exact r.steady_none

theorem endCount_steady (r : Reader) (min : Nat) (max : Option Nat) :
    r.Steady (r.endCount min max) := by
  unfold endCount
  split
  · exact r.steady_goto _
  · exact r.steady_none

theorem readCountMin_steady (r : Reader) (value : Option Nat) (ended : Bool) (c : Char) :
    r.Steady (r.readCountMin value ended c) := by
  unfold readCountMin
  split
  · split
    · exact r.steady_none
    · exact r.steady_goto _
  · split
    · exact r.steady_goto _
    · split
      · exact r.steady_goto _
      · exact r.endCount_steady _ _
      · exact r.steady_none

theorem readCountMax_steady (r : Reader) (min : Nat) (value : Option Nat) (ended : Bool)
    (c : Char) : r.Steady (r.readCountMax min value ended c) := by
  unfold readCountMax
  split
  · split
    · exact r.steady_none
    · exact r.steady_goto _
  · split
    · exact r.steady_goto _
    · split
      · exact r.endCount_steady _ _
      · exact r.steady_none

theorem readMember_steady (r : Reader) (c : Char) : r.Steady (r.readMember c) := by
  unfold readMember
  split
  case h_1 => exact Keeps.steady ⟨rfl, rfl, rfl⟩
  case h_2 => exact r.closeSet_steady
  all_goals exact r.steady_goto _

theorem readAfterMember_steady (r : Reader) (atom : Atom) (c : Char) :
    r.Steady (r.readAfterMember atom c) := by
  unfold readAfterMember
  split
  · exact r.steady_goto _
  · split
    · rename_i t ht
      exact (r.addAtom_steady atom t ht).trans_steady (t.readMember_steady c)
    · exact r.steady_none

theorem readRangeEnd_steady (r : Reader) (atom : Atom) (c : Char) :
    r.Steady (r.readRangeEnd atom c) := by
  unfold readRangeEnd
  split
  · exact r.steady_goto _
  · exact r.addRange_steady _ _
  · exact r.steady_none

theorem readAfterDash_steady (r : Reader) (atom : Atom) (c : Char) :
    r.Steady (r.readAfterDash atom c) := by
  unfold readAfterDash
  split
  · split
    · rename_i t ht
      exact ((r.addAtom_steady _ t ht).trans (t.keeps_addSet _)).trans_steady (closeSet_steady _)
    · exact r.steady_none
  · intro r' h
    obtain ⟨t, ht, rfl⟩ := Option.map_eq_some_iff.mp h
    exact (r.addAtom_steady _ t ht).trans (t.keeps_setOperator .diff)
  · exact r.readRangeEnd_steady atom _

theorem readApart_steady (r : Reader) (atom : Atom) (glimpse : Glimpse) (c : Char) :
    r.Steady (r.readApart atom glimpse c) := by
  unfold readApart
  split
  · exact r.readRangeEnd_steady atom c
  · split
    · rename_i t ht
      exact (r.addAtom_steady atom t ht).trans_steady (t.readAfterMember_steady _ c)
    · exact r.steady_none

theorem readDoubled_steady (r : Reader) (first c : Char) : r.Steady (r.readDoubled first c) := by
  unfold readDoubled
  split
  · split <;> exact (r.keeps_setOperator _).steady
  · exact r.readAfterMember_steady _ c

theorem readLeading_steady (r : Reader) (c : Char) : r.Steady (r.readLeading c) := by
  unfold readLeading
  split
  · exact ((r.keeps_addSet _).trans (keeps_goto _ _)).steady
  · exact ((r.keeps_addSet _).trans (keeps_goto _ _)).steady
  · exact r.readMember_steady _

/-- All modes inside a class leave the groups alone. -/
theorem readSet_steady (r : Reader) (mode : SetMode) (c : Char) : r.Steady (r.readSet mode c) := by
  unfold readSet
  split
  · split
    · exact ((r.keeps_mapSet _).trans (keeps_goto _ _)).steady
    · exact r.readLeading_steady c
  · exact r.readLeading_steady c
  · split
    · exact (r.keeps_addSet _).steady
    · exact r.readMember_steady c
  · exact r.readMember_steady c
  · exact r.readDoubled_steady _ c
  · exact r.readAfterMember_steady _ c
  · exact r.readAfterDash_steady _ c
  · exact r.readApart_steady _ _ c

theorem spell_readSet_steady (r : Reader) (mode : SetMode) (c : Char) :
    r.Steady ((r.spell c).readSet mode c) :=
  (r.keeps_mapSet _).trans_steady (readSet_steady _ mode c)

/-- A character of a class leaves the groups alone. -/
theorem readChar_steady {r : Reader} (h : r.mode.inClass = true) (c : Char) :
    r.Steady (r.readChar c) := by
  cases hmode : r.mode <;> simp only [readChar, hmode]
  case escape place => exact r.readEscape_steady place c
  case hexStart place digits =>
    split
    · exact r.steady_goto _
    · exact r.readHexDigit_steady place digits 0 c
  case hexDigits place missing value => exact r.readHexDigit_steady place missing value c
  case hexBrace place value => exact r.readHexBrace_steady place value c
  case set mode => exact r.spell_readSet_steady mode c
  case comment back => exact r.steady_goto _
  all_goals
    rw [hmode] at h
    cases h

theorem keeps_repeatLast {r r' : Reader} {min : Nat} {max : Option Nat} {greedy : Bool}
    (h : r.repeatLast min max greedy = some r') : r.Keeps r' := by
  have hflags := flags_repeatLast h
  obtain ⟨level, -, rfl⟩ := Option.map_eq_some_iff.mp h
  exact ⟨rfl, hflags, rfl⟩

/-- A blank that is not read as elsewhere keeps groups, settings and names. -/
theorem readBlank_steady (r : Reader) (c : Char) :
    r.readBlank c = r.readChar c ∨ r.Steady (r.readBlank c) := by
  have hpass : ∀ (t : Reader) (mode : Mode), t.Keeps (t.passOver mode c) :=
    fun t _ => t.keeps_goto _
  cases hmode : r.mode <;> simp only [readBlank, hmode]
  case escape | groupHeader | groupP | groupAngle | groupName | flags | comment =>
    exact .inl trivial
  all_goals right
  case repetition min max counted =>
    split
    · exact (hpass r _).steady
    · intro r' h
      obtain ⟨t, ht, rfl⟩ := Option.map_eq_some_iff.mp h
      exact (keeps_repeatLast ht).trans (hpass t _)
  case boundary => exact ((r.keeps_push _).trans (hpass _ _)).steady
  case set mode => exact ((r.keeps_mapSet _).trans (hpass _ _)).steady
  all_goals exact (hpass r _).steady

/-- **Inside a class groups, settings and names are kept**, whatever character comes next. -/
theorem step_steady {r : Reader} (h : r.mode.inClass = true) (c : Char) : r.Steady (r.step c) := by
  unfold step
  split
  · rcases r.readBlank_steady c with hsame | hsteady
    · exact hsame ▸ readChar_steady h c
    · exact hsteady
  · exact readChar_steady h c

end Reader

/-! ### Settings -/

/-- What an operation makes of the settings of the open groups. -/
def Op.resettle : Op → List Flags → List Flags
  | .settings flags, stack => flags :: stack.tail
  | .plain flags, stack => flags :: stack
  | .capture _, stack => stack.head?.toList ++ stack
  | .close, stack => stack.tail
  | _, stack => stack

/-- What an operation makes of the settings does not depend on what has been read. -/
theorem Op.apply_settings {op : Op} {r r' : Reader} (h : op.apply r = some r') :
    r'.settings = op.resettle r.settings := by
  cases op with
  | set | look | branch | settings | plain =>
    cases h
    rfl
  | expect =>
    simp only [apply] at h
    split at h <;> cases h
    rfl
  | again min max greedy =>
    obtain ⟨level, hlevel, rfl⟩ := Option.map_eq_some_iff.mp h
    unfold Level.repeatLast at hlevel
    split at hlevel <;> cases hlevel
    rfl
  | capture name =>
    simp only [apply] at h
    split at h <;> cases h
    rfl
  | close =>
    simp only [apply, Reader.closeGroup] at h
    split at h
    · rename_i parent outer houter
      cases h
      simp [resettle, Reader.settings, houter, Level.push]
    · cases h

theorem Op.applyAll_settings {ops : List Op} {r r' : Reader} (h : applyAll ops r = some r') :
    r'.settings = ops.foldl (fun stack op => op.resettle stack) r.settings := by
  induction ops generalizing r with
  | nil =>
    cases h
    rfl
  | cons op ops ih =>
    obtain ⟨t, ht, h⟩ := Option.bind_eq_some_iff.mp h
    rw [ih h, apply_settings ht, List.foldl_cons]

namespace Reader

/-- Two readers that can read the same, under the same settings. -/
structure Abreast (r s : Reader) : Prop where
  alike : r.Alike s
  settings : r.settings = s.settings
  tidy : r.Tidy ∧ s.Tidy

namespace Abreast

variable {r r' s s' : Reader}

theorem start (ignoreCase : Bool) : (start ignoreCase).Abreast (Reader.start ignoreCase) :=
  ⟨.refl _, rfl, start_tidy _, start_tidy _⟩

theorem flags (h : r.Abreast s) : r.level.flags = s.level.flags :=
  (List.cons.inj h.settings).1

/-- Outside of classes nothing distinguishes the readers but what their groups hold. -/
theorem agrees (h : r.Abreast s) (hmode : r.mode.inClass = false) : r.Agrees s := by
  refine ⟨h.alike.mode.symm, ?_, h.flags.symm⟩
  rw [h.tidy.1 hmode, h.tidy.2 (h.alike.mode ▸ hmode)]

/-- A character changes the settings of both readers alike. -/
theorem settings_step (h : r.Abreast s) {c : Char} (hr : r.step c = some r')
    (hs : s.step c = some s') : r'.settings = s'.settings := by
  cases hmode : r.mode.inClass with
  | true =>
    rw [(step_steady hmode c r' hr).settings, h.settings,
      (step_steady (h.alike.mode ▸ hmode) c s' hs).settings]
  | false =>
    obtain ⟨ops, hops⟩ := step_ops hr
    obtain ⟨t, ht, hr'⟩ := hops r r' (.refl r) hr
    obtain ⟨u, hu, hs'⟩ := hops s s' (h.agrees hmode) hs
    rw [hr', hs']
    calc t.settings
      _ = ops.foldl (fun stack op => op.resettle stack) r.settings := Op.applyAll_settings ht
      _ = u.settings := by rw [h.settings, Op.applyAll_settings hu]

/-- Readers stay abreast over one character. -/
theorem step (h : r.Abreast s) {c : Char} (hr : r.step c = some r') (hs : s.step c = some s') :
    r'.Abreast s' := by
  have halike : Option.Rel Alike (r.step c) (s.step c) := step_uniform c r s h.alike
  rw [hr, hs] at halike
  cases halike with
  | some halike =>
    have htidy := step_tidies h.tidy.1 c r' hr
    exact ⟨halike, h.settings_step hr hs, htidy, step_tidies h.tidy.2 c s' hs⟩

/-- Readers stay abreast over a text. -/
theorem read (h : r.Abreast s) {text : List Char} (hr : r.read text = some r')
    (hs : s.read text = some s') : r'.Abreast s' := by
  induction text generalizing r s with
  | nil =>
    cases hr
    cases hs
    exact h
  | cons c text ih =>
    obtain ⟨t, ht, hr⟩ := Option.bind_eq_some_iff.mp hr
    obtain ⟨u, hu, hs⟩ := Option.bind_eq_some_iff.mp hs
    exact ih (h.step ht hu) hr hs

end Abreast

/-! ### Names -/

theorem readItem_names {r r' : Reader} {c : Char} (h : r.readItem c = some r') :
    r'.names = r.names := by
  unfold readItem at h
  split at h
  case h_2 =>
    unfold closeGroup at h
    split at h <;> cases h
    rfl
  case h_5 | h_6 | h_7 | h_8 =>
    split at h <;> cases h
    rfl
  all_goals
    cases h
    rfl

theorem readFlag_names {r r' : Reader} {list : FlagList} {c : Char}
    (h : r.readFlag list c = some r') : r'.names = r.names := by
  unfold readFlag at h
  split at h
  all_goals
    split at h <;> cases h
    rfl

/-- A name is given where its closing bracket is read. -/
theorem readGroupName_names {r r' : Reader} {letters : List Char} {c : Char}
    (h : r.readGroupName letters c = some r') :
    r'.names = r.names ∨ c = '>' ∧ ∃ name, r' = r.openCapture (some name) := by
  unfold readGroupName at h
  split at h
  · dsimp only at h
    split at h <;> cases h
    exact .inr ⟨‹_›, _, rfl⟩
  · split at h <;> cases h
    exact .inl rfl

theorem readChar_names {r r' : Reader} {c : Char} (h : r.readChar c = some r') :
    r'.names = r.names ∨ c = '>' ∧ ∃ name, r' = r.openCapture (some name) := by
  have hsteady : ∀ {result}, result = some r' → r.Steady result → r'.names = r.names :=
    fun hresult hkeeps => (hkeeps r' hresult).names
  cases hmode : r.mode <;> simp only [readChar, hmode] at h
  case groupAngle | groupName => exact readGroupName_names h
  all_goals left
  case item => exact readItem_names h
  case repetition =>
    split at h
    · rename_i t ht
      obtain ⟨level, -, rfl⟩ := Option.map_eq_some_iff.mp ht
      split at h
      · cases h
        rfl
      · have hnames := readItem_names h
        exact hnames
    · cases h
  case escape place => exact hsteady h (r.readEscape_steady place c)
  case hexStart place digits =>
    split at h
    · cases h
      rfl
    · exact hsteady h (r.readHexDigit_steady place digits 0 c)
  case hexDigits place missing value =>
    exact hsteady h (r.readHexDigit_steady place missing value c)
  case hexBrace place value => exact hsteady h (r.readHexBrace_steady place value c)
  case boundary | groupOpen =>
    split at h
    · cases h
      rfl
    · have hnames := readItem_names h
      exact hnames
  case boundaryBrace =>
    split at h
    · cases h
      rfl
    · exact hsteady h ((r.keeps_push _).trans_steady (readCountMin_steady _ _ _ c))
  case boundaryName letters =>
    split at h
    · obtain ⟨l, -, rfl⟩ := Option.map_eq_some_iff.mp h
      rfl
    · split at h <;> cases h
      rfl
  case groupHeader =>
    split at h
    · cases h
      rfl
    · cases h
      rfl
    · exact readFlag_names h
  case groupP =>
    split at h <;> cases h
    rfl
  case flags list => exact readFlag_names h
  case countMin value ended => exact hsteady h (r.readCountMin_steady value ended c)
  case countComma min =>
    split at h
    · exact hsteady h (r.endCount_steady min none)
    · exact hsteady h (r.readCountMax_steady min none false c)
  case countMax min value ended => exact hsteady h (r.readCountMax_steady min value ended c)
  case set mode => exact hsteady h (r.spell_readSet_steady mode c)
  case comment back => exact hsteady h (r.steady_goto _)

/-- **A name is given where the header of a group ends**, and nowhere else. -/
theorem step_names {r r' : Reader} {c : Char} (h : r.step c = some r') :
    r'.names = r.names ∨ c = '>' ∧ ∃ name, r' = r.openCapture (some name) := by
  unfold step at h
  split at h
  · rcases r.readBlank_steady c with hsame | hsteady
    · exact readChar_names (hsame ▸ h)
    · exact .inl (hsteady r' h).names
  · exact readChar_names h

/-- Names are never taken back. -/
theorem step_names_suffix {r r' : Reader} {c : Char} (h : r.step c = some r') :
    r.names <:+ r'.names := by
  rcases step_names h with heq | ⟨-, name, rfl⟩
  · exact heq ▸ List.suffix_refl _
  · exact List.suffix_cons name r.names

theorem read_names_suffix {r r' : Reader} {text : List Char} (h : r.read text = some r') :
    r.names <:+ r'.names := by
  induction text generalizing r with
  | nil =>
    cases h
    exact List.suffix_refl _
  | cons c text ih =>
    obtain ⟨t, ht, h⟩ := Option.bind_eq_some_iff.mp h
    exact (step_names_suffix ht).trans (ih h)

/-- No name is given without a closing bracket. -/
theorem read_names {r r' : Reader} {text : List Char} (htext : '>' ∉ text)
    (h : r.read text = some r') : r'.names = r.names := by
  induction text generalizing r with
  | nil =>
    cases h
    rfl
  | cons c text ih =>
    rw [List.mem_cons, not_or] at htext
    obtain ⟨t, ht, h⟩ := Option.bind_eq_some_iff.mp h
    rcases step_names ht with heq | ⟨rfl, -⟩
    · rw [ih htext.2 h, heq]
    · exact absurd rfl htext.1

/-- A text that gives no name keeps what is known of the bodies of groups. -/
theorem GroupsHold.read {kind : List Char → Bool} {body : Pattern} {s s' : Reader}
    {text : List Char} (hs : s.GroupsHold kind body) (h : s.read text = some s')
    (hnames : s'.names = s.names) : s'.GroupsHold kind body := by
  induction text generalizing s with
  | nil =>
    cases h
    exact hs
  | cons c text ih =>
    obtain ⟨t, ht, h⟩ := Option.bind_eq_some_iff.mp h
    have hfirst := step_names_suffix ht
    have hlater := read_names_suffix h
    have heq : t.names = s.names :=
      (hfirst.eq_of_length_le (hnames ▸ hlater.length_le)).symm
    refine ih (hs.step (.refl s) ht ht fun name hname => .inl ?_) h (hnames.trans heq.symm)
    rwa [heq] at hname

end Reader

end Relabel.Pattern
