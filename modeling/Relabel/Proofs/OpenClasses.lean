import Relabel.Proofs.Reading

/-!
# Open classes

A reader keeps the bracketed classes that are open. Outside of them it keeps none: when the
outermost class is closed the list is empty again, so a reader that is about to read an item is the
same whether it has read classes before or not.
-/

namespace Relabel.Pattern

/-- Whether a mode continues a bracketed class. -/
def Mode.inClass : Mode → Bool
  | .escape place | .hexStart place _ | .hexDigits place _ _ | .hexBrace place _ =>
    place != .sequence
  | .set _ => true
  | .comment back => back.inClass
  | _ => false

theorem Mode.inClass_glance (mode : Mode) (c : Char) : (mode.glance c).inClass = mode.inClass := by
  unfold glance
  split <;> rfl

namespace Reader

/-- Outside of classes no class is open. -/
def Tidy (r : Reader) : Prop :=
  r.mode.inClass = false → r.sets = []

/-- An action, if it succeeds, leaves no class open outside of classes. -/
def Tidies (result : Option Reader) : Prop :=
  ∀ r, result = some r → r.Tidy

theorem tidies_none : Tidies none :=
  fun _ h => nomatch h

theorem tidies_of_sets {r : Reader} (h : r.sets = []) : Tidies (some r) := by
  rintro _ ⟨⟩ -
  exact h

theorem tidies_of_inClass {r : Reader} (h : r.mode.inClass = true) : Tidies (some r) := by
  rintro _ ⟨⟩ hout
  cases hout.symm.trans h

/-- What begins where an item may is no class, or opens the only one. -/
theorem readItem_tidies {r : Reader} (h : r.sets = []) (c : Char) : Tidies (r.readItem c) := by
  unfold readItem closeGroup
  split
  case h_2 =>
    split
    · exact tidies_of_sets h
    · exact tidies_none
  case h_4 => exact tidies_of_inClass rfl
  case h_5 | h_6 | h_7 | h_8 =>
    split
    · exact tidies_of_sets h
    · exact tidies_none
  all_goals exact tidies_of_sets h

theorem addRange_tidies (r : Reader) (first last : Char) : Tidies (r.addRange first last) := by
  unfold addRange
  split
  · exact tidies_of_inClass rfl
  · exact tidies_none

/-- An escape is put into a sequence only if no class is open. -/
theorem deliver_tidies {r : Reader} {place : Place} (h : place = .sequence → r.sets = [])
    (atom : Atom) : Tidies (r.deliver place atom) := by
  unfold deliver
  split
  · exact tidies_of_sets (h rfl)
  · exact tidies_of_sets (h rfl)
  · exact tidies_of_sets (h rfl)
  · exact tidies_none
  · exact tidies_of_inClass rfl
  · exact addRange_tidies r _ _
  · exact tidies_none

theorem tidies_place {r : Reader} {place : Place} (h : place = .sequence → r.sets = [])
    {mode : Mode} (hmode : mode.inClass = (place != .sequence)) : Tidies (some (r.goto mode)) := by
  by_cases hplace : place = .sequence
  · exact tidies_of_sets (h hplace)
  · exact tidies_of_inClass (by simp [goto, hmode, hplace])

theorem deliverCode_tidies {r : Reader} {place : Place} (h : place = .sequence → r.sets = [])
    (code : Nat) : Tidies (r.deliverCode place code) := by
  unfold deliverCode
  split
  · exact deliver_tidies h _
  · exact tidies_none

theorem readEscape_tidies {r : Reader} {place : Place} (h : place = .sequence → r.sets = [])
    (c : Char) : Tidies (r.readEscape place c) := by
  unfold readEscape
  split
  · exact tidies_place h rfl
  · exact tidies_place h rfl
  · exact tidies_place h rfl
  · split
    · rename_i hplace
      exact tidies_of_sets (h hplace)
    · exact tidies_none
  · split
    · exact deliver_tidies h _
    · exact tidies_none

theorem readHexDigit_tidies {r : Reader} {place : Place} (h : place = .sequence → r.sets = [])
    (missing value : Nat) (c : Char) : Tidies (r.readHexDigit place missing value c) := by
  unfold readHexDigit
  split
  · dsimp only
    split
    · exact deliverCode_tidies h _
    · exact tidies_place h rfl
  · exact tidies_none

theorem readHexBrace_tidies {r : Reader} {place : Place} (h : place = .sequence → r.sets = [])
    (value : Option Nat) (c : Char) : Tidies (r.readHexBrace place value c) := by
  unfold readHexBrace
  split
  · split
    · exact deliverCode_tidies h _
    · exact tidies_none
  · split
    · exact tidies_place h rfl
    · exact tidies_none

theorem endCount_tidies {r : Reader} (h : r.sets = []) (min : Nat) (max : Option Nat) :
    Tidies (r.endCount min max) := by
  unfold endCount
  split
  · exact tidies_of_sets h
  · exact tidies_none

theorem readCountMin_tidies {r : Reader} (h : r.sets = []) (value : Option Nat) (ended : Bool)
    (c : Char) : Tidies (r.readCountMin value ended c) := by
  unfold readCountMin
  split
  · split
    · exact tidies_none
    · exact tidies_of_sets h
  · split
    · exact tidies_of_sets h
    · split
      · exact tidies_of_sets h
      · exact endCount_tidies h _ _
      · exact tidies_none

theorem readCountMax_tidies {r : Reader} (h : r.sets = []) (min : Nat) (value : Option Nat)
    (ended : Bool) (c : Char) : Tidies (r.readCountMax min value ended c) := by
  unfold readCountMax
  split
  · split
    · exact tidies_none
    · exact tidies_of_sets h
  · split
    · exact tidies_of_sets h
    · split
      · exact endCount_tidies h _ _
      · exact tidies_none

theorem readGroupName_tidies {r : Reader} (h : r.sets = []) (letters : List Char) (c : Char) :
    Tidies (r.readGroupName letters c) := by
  unfold readGroupName
  split
  · dsimp only
    split
    · exact tidies_none
    · exact tidies_of_sets h
  · split
    · exact tidies_of_sets h
    · exact tidies_none

theorem readFlag_tidies {r : Reader} (h : r.sets = []) (list : FlagList) (c : Char) :
    Tidies (r.readFlag list c) := by
  unfold readFlag
  split
  · split
    · exact tidies_none
    · exact tidies_of_sets h
  · split
    · exact tidies_none
    · exact tidies_of_sets h
  · split
    · exact tidies_none
    · exact tidies_of_sets h
  · split
    · exact tidies_of_sets h
    · exact tidies_none

/-- Closing the outermost class leaves no class open. -/
theorem closeSet_tidies (r : Reader) : Tidies r.closeSet := by
  unfold closeSet
  dsimp only
  split
  · exact tidies_none
  · exact tidies_of_sets rfl
  · exact tidies_of_inClass rfl

theorem readMember_tidies (r : Reader) (c : Char) : Tidies (r.readMember c) := by
  unfold readMember
  split
  case h_2 => exact closeSet_tidies r
  all_goals exact tidies_of_inClass rfl

theorem readAfterMember_tidies (r : Reader) (atom : Atom) (c : Char) :
    Tidies (r.readAfterMember atom c) := by
  unfold readAfterMember
  split
  · exact tidies_of_inClass rfl
  · split
    · exact readMember_tidies _ c
    · exact tidies_none

theorem readRangeEnd_tidies (r : Reader) (atom : Atom) (c : Char) :
    Tidies (r.readRangeEnd atom c) := by
  unfold readRangeEnd
  split
  · exact tidies_of_inClass rfl
  · exact addRange_tidies r _ _
  · exact tidies_none

/-- A reader stays in a class until its outermost one is closed. -/
theorem readSet_tidies {r : Reader} {before : SetMode} (hr : r.mode = .set before) (mode : SetMode)
    (c : Char) : Tidies (r.readSet mode c) := by
  have hleading : Tidies (r.readLeading c) := by
    unfold readLeading
    split
    · exact tidies_of_inClass rfl
    · exact tidies_of_inClass rfl
    · exact readMember_tidies r _
  cases mode with
  | opened =>
    unfold readSet
    dsimp only
    split
    · exact tidies_of_inClass rfl
    · exact hleading
  | leading => exact hleading
  | leadingDashes =>
    unfold readSet
    dsimp only
    split
    · refine tidies_of_inClass ?_
      rw [addSet, mapSet_eq_settled, settled, hr]
      rfl
    · exact readMember_tidies r c
  | member => exact readMember_tidies r c
  | doubled first =>
    unfold readSet readDoubled
    dsimp only
    split
    · split <;> exact tidies_of_inClass rfl
    · exact readAfterMember_tidies r _ c
  | after atom => exact readAfterMember_tidies r atom c
  | dash atom =>
    unfold readSet readAfterDash
    dsimp only
    split
    · split
      · exact closeSet_tidies _
      · exact tidies_none
    · rintro r' h
      obtain ⟨t, -, rfl⟩ := Option.map_eq_some_iff.mp h
      exact tidies_of_inClass rfl _ rfl
    · exact readRangeEnd_tidies r atom _
  | apart atom glimpse =>
    unfold readSet readApart
    dsimp only
    split
    · exact readRangeEnd_tidies r atom c
    · split
      · exact readAfterMember_tidies _ _ c
      · exact tidies_none

/-- All modes together: one character leaves a tidy reader tidy. -/
theorem readChar_tidies {r : Reader} (hr : r.Tidy) (c : Char) : Tidies (r.readChar c) := by
  unfold Tidy at hr
  cases hmode : r.mode <;> rw [hmode] at hr <;> simp only [readChar, hmode]
  case item => exact readItem_tidies (hr rfl) c
  case repetition min max counted =>
    split
    · rename_i t ht
      obtain ⟨level, -, rfl⟩ := Option.map_eq_some_iff.mp ht
      split
      · exact tidies_of_sets (hr rfl)
      · refine readItem_tidies ?_ c
        exact hr rfl
    · exact tidies_none
  case escape place => exact readEscape_tidies (fun h => hr (by rw [h]; rfl)) c
  case hexStart place digits =>
    have hplace : place = .sequence → r.sets = [] := fun h => hr (by rw [h]; rfl)
    split
    · exact tidies_place hplace rfl
    · exact readHexDigit_tidies hplace digits 0 c
  case hexDigits place missing value =>
    exact readHexDigit_tidies (fun h => hr (by rw [h]; rfl)) missing value c
  case hexBrace place value => exact readHexBrace_tidies (fun h => hr (by rw [h]; rfl)) value c
  case boundary =>
    split
    · exact tidies_of_sets (hr rfl)
    · refine readItem_tidies ?_ c
      exact hr rfl
  case boundaryBrace =>
    split
    · exact tidies_of_sets (hr rfl)
    · refine readCountMin_tidies ?_ none false c
      exact hr rfl
  case boundaryName letters =>
    split
    · intro r' h
      obtain ⟨l, -, rfl⟩ := Option.map_eq_some_iff.mp h
      exact tidies_of_sets (r := r.push (.look l)) (hr rfl) _ rfl
    · split
      · exact tidies_of_sets (hr rfl)
      · exact tidies_none
  case groupOpen =>
    split
    · exact tidies_of_sets (hr rfl)
    · refine readItem_tidies ?_ c
      exact hr rfl
  case groupHeader =>
    split
    · exact tidies_of_sets (hr rfl)
    · exact tidies_of_sets (hr rfl)
    · exact readFlag_tidies (hr rfl) _ _
  case groupP =>
    split
    · exact tidies_of_sets (hr rfl)
    · exact tidies_none
  case groupAngle => exact readGroupName_tidies (hr rfl) [] c
  case groupName letters => exact readGroupName_tidies (hr rfl) letters c
  case flags list => exact readFlag_tidies (hr rfl) list c
  case countMin value ended => exact readCountMin_tidies (hr rfl) value ended c
  case countComma min =>
    split
    · exact endCount_tidies (hr rfl) min none
    · exact readCountMax_tidies (hr rfl) min none false c
  case countMax min value ended => exact readCountMax_tidies (hr rfl) min value ended c
  case set mode =>
    have hspelled : (r.spell c).mode = r.mode := by rw [spell, mapSet_eq_settled]; rfl
    exact readSet_tidies (hspelled.trans hmode) mode c
  case comment back =>
    rintro _ ⟨⟩ hout
    refine hr ?_
    simp only [readComment, goto] at hout
    rw [Mode.inClass]
    split at hout
    · exact hout
    · rwa [Mode.inClass, Mode.inClass_glance] at hout

/-- A blank that is passed over does not end a class. -/
theorem passOver_tidies {r : Reader} {mode : Mode} (h : mode.inClass = false → r.sets = [])
    (c : Char) : Tidies (some (r.passOver mode c)) := by
  rintro _ ⟨⟩ hout
  refine h ?_
  simp only [passOver, goto] at hout
  split at hout <;> exact hout

/-- A blank that is passed over leaves a tidy reader tidy. -/
theorem readBlank_tidies {r : Reader} (hr : r.Tidy) (c : Char) : Tidies (r.readBlank c) := by
  have hchar := readChar_tidies hr c
  unfold Tidy at hr
  cases hmode : r.mode <;> rw [hmode] at hr <;> simp only [readBlank, hmode]
  case repetition min max counted =>
    split
    · exact passOver_tidies hr c
    · intro r' h
      obtain ⟨t, ht, rfl⟩ := Option.map_eq_some_iff.mp h
      obtain ⟨level, -, rfl⟩ := Option.map_eq_some_iff.mp ht
      refine passOver_tidies ?_ c _ rfl
      exact fun _ => hr rfl
  case boundary =>
    refine passOver_tidies ?_ c
    exact fun _ => hr rfl
  case set mode =>
    refine passOver_tidies ?_ c
    rintro ⟨⟩
  case escape | groupHeader | groupP | groupAngle | groupName | flags | comment => exact hchar
  all_goals exact passOver_tidies hr c

/-- **Readers stay tidy**, whatever character comes next. -/
theorem step_tidies {r : Reader} (hr : r.Tidy) (c : Char) : Tidies (r.step c) := by
  unfold step
  split
  · exact readBlank_tidies hr c
  · exact readChar_tidies hr c

/-- A text leaves a tidy reader tidy. -/
theorem read_tidy {r r' : Reader} {text : List Char} (h : r.read text = some r') (hr : r.Tidy) :
    r'.Tidy := by
  induction text generalizing r with
  | nil =>
    cases h
    exact hr
  | cons c text ih =>
    obtain ⟨t, ht, h⟩ := Option.bind_eq_some_iff.mp h
    exact ih h (step_tidies hr c t ht)

theorem start_tidy (ignoreCase : Bool) : (start ignoreCase).Tidy :=
  fun _ => rfl

end Reader

end Relabel.Pattern
