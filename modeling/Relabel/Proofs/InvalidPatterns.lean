import Relabel.Proofs.AlikeReaders
import Relabel.Proofs.Builtin
import Relabel.Proofs.EmbedSize

/-!
# What is put into a slot does not make a pattern invalid

A slot can stand anywhere: where an item may begin, inside a class, behind a backslash or where
nothing makes sense. What is put there is a group around keys, all of whose characters are escaped.
Wherever it can be read at all, either the group is closed again and leaves one item behind, or its
characters are members of a class (`Reader.Alike.read_grouped`). Only in a comment they mean
nothing, and a line break in a key ends the comment. So if no slot stands in a comment, keys can be
exchanged for others without a template becoming, or ceasing to be, a pattern (`Fits.read`), and
whether an expression can be run does not depend on them (`Expression.valid_iff_of_inert`).
-/

namespace Relabel

open Pattern

def grouped (text : List Char) : List Char :=
  "(?:".toList ++ text ++ [')']

/-- Where an item may begin, reading the text changes nothing but the innermost group. -/
def StaysInGroup (text : List Char) : Prop :=
  ∀ r : Reader, r.mode = .item → ∃ level, r.read text = some { r with level }

/-- Behind a character of a class, reading the text changes only what the open classes hold. -/
def StaysInClass (text : List Char) : Prop :=
  ∀ (r : Reader) (a : Char), r.mode = .set (.after (.char a)) →
    ∃ sets b, sets.length = r.sets.length ∧
      r.read text = some { r with sets, mode := .set (.after (.char b)) }

/-- Texts that stay in the innermost group can be put one behind the other. -/
theorem StaysInGroup.append {front back : List Char} (hfront : StaysInGroup front)
    (hback : StaysInGroup back) : StaysInGroup (front ++ back) := by
  intro r hr
  obtain ⟨level, hlevel⟩ := hfront r hr
  obtain ⟨level', hlevel'⟩ := hback { r with level } hr
  exact ⟨level', by rw [Reader.read_append, hlevel, Option.bind_some, hlevel']⟩

theorem StaysInClass.append {front back : List Char} (hfront : StaysInClass front)
    (hback : StaysInClass back) : StaysInClass (front ++ back) := by
  intro r a hr
  obtain ⟨sets, b, hsets, hread⟩ := hfront r a hr
  obtain ⟨sets', b', hsets', hread'⟩ :=
    hback { r with sets, mode := .set (.after (.char b)) } b rfl
  exact ⟨sets', b', hsets'.trans hsets, by
    rw [Reader.read_append, hread, Option.bind_some, hread']⟩

namespace Pattern.Reader

/-- Behind a character of a class, a character that begins no range begins the next member. -/
theorem step_after {r : Reader} {a c : Char} (hr : r.mode = .set (.after (.char a)))
    (hc : c ≠ '-') (hread : r.step c = r.readChar c) : ∃ sets, sets.length = r.sets.length ∧
      r.step c = ({ r with sets } : Reader).readMember c := by
  refine ⟨((r.spell c).addSet (.single a)).sets, ?_, ?_⟩
  · rw [addSet, Alike.length_sets_mapSet, spell, Alike.length_sets_mapSet]
  · rw [hread]
    simp only [readChar, hr, readSet, readAfterMember, if_neg hc, addAtom]
    rw [addSet, spell, mapSet_eq_settled, mapSet_eq_settled r]
    rfl

/-- A plain character is a member. -/
theorem step_after_plain {r : Reader} {a : Char} (hr : r.mode = .set (.after (.char a))) (c : Char)
    (hc : c ∉ ['[', ']', '\\', '&', '-', '~']) (hread : r.step c = r.readChar c) :
    ∃ sets, sets.length = r.sets.length ∧
      r.step c = some { r with sets, mode := .set (.after (.char c)) } := by
  simp only [List.mem_cons, List.not_mem_nil, or_false, not_or] at hc
  obtain ⟨hopen, hclose, hback, hand, hdash, htilde⟩ := hc
  obtain ⟨sets, hsets, hstep⟩ := step_after hr hdash hread
  refine ⟨sets, hsets, ?_⟩
  rw [hstep, readMember]
  · rfl
  all_goals assumption

/-- White space is passed over where blanks are ignored. -/
theorem step_of_space {r : Reader} (hr : r.mode = .item)
    (hblanks : r.level.flags.ignoreBlanks = true) {c : Char}
    (hc : Unicode.isSpace c = true) : r.step c = some r := by
  have hsign : c ≠ '#' := by
    rintro rfl
    cases hc
  rw [step, hblanks, isBlank, hc]
  simp only [Bool.true_or, Bool.and_self, if_true, readBlank, hr, passOver, if_neg hsign, goto]
  rw [← hr]

end Pattern.Reader

/-- A character without a meaning in classes is a member, or is passed over. -/
theorem StaysInClass.singleton {c : Char} (hc : c ∉ ['#', '[', ']', '\\', '&', '-', '~']) :
    StaysInClass [c] := by
  intro r a hr
  rw [List.mem_cons, not_or] at hc
  rw [Reader.read_singleton]
  by_cases hpassed : (r.level.flags.ignoreBlanks && isBlank c) = true
  · refine ⟨(r.spell c).sets, a, Reader.Alike.length_sets_mapSet _ _, ?_⟩
    rw [Reader.step, if_pos hpassed]
    simp only [Reader.readBlank, hr, Reader.passOver, if_neg hc.1]
    rw [Reader.spell, Reader.mapSet_eq_settled]
    rfl
  · obtain ⟨sets, hsets, hstep⟩ := Reader.step_after_plain hr c hc.2 (if_neg hpassed)
    exact ⟨sets, c, hsets, hstep⟩

theorem isSpecial_of_isSpace {c : Char} (h : Unicode.isSpace c = true) : isSpecial c = false := by
  rw [← Bool.not_eq_true]
  intro hspecial
  simp only [isSpecial, List.contains_cons, List.contains_nil, Bool.or_false, Bool.or_eq_true,
    beq_iff_eq] at hspecial
  rcases hspecial with rfl | rfl | rfl | rfl | rfl | rfl | rfl | rfl | rfl | rfl | rfl | rfl | rfl |
    rfl | rfl | rfl | rfl | rfl <;> cases h

/-- A text that stays in the innermost group or class. -/
structure Inert (text : List Char) : Prop where
  staysInGroup : StaysInGroup text
  staysInClass : StaysInClass text

namespace Inert

theorem nil : Inert [] where
  staysInGroup r _ := ⟨r.level, rfl⟩
  staysInClass r a h := ⟨r.sets, a, rfl, by rw [← h]; rfl⟩

/-- Inert texts can be put one behind the other. -/
theorem append {front back : List Char} (hfront : Inert front) (hback : Inert back) :
    Inert (front ++ back) :=
  ⟨hfront.staysInGroup.append hback.staysInGroup, hfront.staysInClass.append hback.staysInClass⟩

theorem bar : Inert ['|'] where
  staysInGroup := by
    intro r hr
    refine ⟨r.level.branch, ?_⟩
    rw [Reader.read_singleton, Reader.step_of_visible (by decide)]
    simp only [Reader.readChar, hr, Reader.readItem]
  staysInClass := .singleton (by decide)

/-- A character that is meant literally. -/
theorem escape_singleton (c : Char) : Inert (escape [c]) where
  staysInGroup := by
    intro r hr
    by_cases hpassed : r.level.flags.ignoreBlanks = true ∧ Unicode.isSpace c = true
    · have hescape : escape [c] = [c] := by simp [escape, isSpecial_of_isSpace hpassed.2]
      refine ⟨r.level, ?_⟩
      rw [hescape, Reader.read_singleton, Reader.step_of_space hr hpassed.1 hpassed.2]
    · have hcounts : r.level.flags.Counts [c] := by
        intro hblanks d hd
        obtain rfl := List.mem_singleton.mp hd
        exact Bool.not_eq_true _ ▸ fun hspace => hpassed ⟨hblanks, hspace⟩
      refine ⟨r.level.push (literal r.level.flags c), ?_⟩
      rw [Reader.read_escape_singleton hr hcounts, Reader.push, hr]
  staysInClass := by
    by_cases hspecial : isSpecial c = true
    · have hescape : escape [c] = ['\\'] ++ [c] := by simp [escape, hspecial]
      intro r a hr
      have hslash : r.step '\\' = r.readChar '\\' := Reader.step_of_visible (by decide) r
      obtain ⟨sets, hsets, hstep⟩ := Reader.step_after hr (by decide) hslash
      refine ⟨sets, c, hsets, ?_⟩
      rw [hescape, Reader.read_append, Reader.read_singleton, hstep, Reader.readMember,
        Option.bind_some, Reader.read_singleton, Reader.step_of_escape rfl]
      exact Reader.readEscape_of_isSpecial hspecial _ .member
    · have hescape : escape [c] = [c] := by simp [escape, hspecial]
      have hall : ['#', '[', ']', '\\', '&', '-', '~'].all isSpecial = true := by decide
      rw [hescape]
      exact .singleton fun hmem => hspecial (List.all_eq_true.mp hall c hmem)

/-- An escaped text is inert, character by character. -/
theorem escape (text : List Char) : Inert (escape text) := by
  induction text with
  | nil => exact nil
  | cons c text ih =>
    have hcons : Relabel.escape (c :: text) = Relabel.escape [c] ++ Relabel.escape text := by
      simp [Relabel.escape]
    rw [hcons]
    exact (escape_singleton c).append ih

theorem joinBars {texts : List (List Char)} (h : ∀ text ∈ texts, Inert text) :
    Inert (joinBars texts) := by
  induction texts with
  | nil => exact nil
  | cons text texts ih =>
    obtain ⟨htext, htexts⟩ := List.forall_mem_cons.mp h
    cases texts with
    | nil => simpa [Relabel.joinBars] using htext
    | cons next texts =>
      have hjoin : Relabel.joinBars (text :: next :: texts) =
          text ++ (['|'] ++ Relabel.joinBars (next :: texts)) := by
        simp [Relabel.joinBars, List.intercalate]
      rw [hjoin]
      exact htext.append (bar.append (ih htexts))

/-- **What is put into slots is inert**: a choice between escaped texts. -/
theorem joinBars_escape (texts : List (List Char)) :
    Inert (Relabel.joinBars (texts.map Relabel.escape)) := by
  apply joinBars
  intro text htext
  obtain ⟨key, -, rfl⟩ := List.mem_map.mp htext
  exact escape key

/-- The pattern of the keys of a mapping. -/
theorem pattern (lookup : Lookup) : Inert lookup.pattern := by
  have hkeys := joinBars_escape (lookup.keys.map String.toList)
  rwa [List.map_map] at hkeys

/-- An inert text in a group is inert as well: the group is closed again. -/
theorem grouped {text : List Char} (h : Inert text) : Inert (grouped text) where
  staysInGroup := by
    intro r hr
    obtain ⟨level, hlevel⟩ := h.staysInGroup (r.openGroup .plain r.level.flags) rfl
    refine ⟨r.level.push level.pattern, ?_⟩
    rw [Relabel.grouped, Reader.read_append, Reader.read_append, Reader.read_openPlain hr,
      Option.bind_some, hlevel, Option.bind_some, Reader.read_singleton,
      Reader.step_of_visible (by decide)]
    simp [Reader.readChar, Reader.openGroup, Reader.readItem, Reader.closeGroup, hr]
  staysInClass := by
    have hheader : StaysInClass (['('] ++ (['?'] ++ [':'])) :=
      .append (.singleton (by decide)) (.append (.singleton (by decide)) (.singleton (by decide)))
    exact (hheader.append h.staysInClass).append (.singleton (by decide))

end Inert

/-! ### The header of the group in a slot -/

namespace Pattern.Reader

/-- The modes in which a parenthesis can leave a reader, outside of comments. -/
inductive AfterParen : Mode → Prop where
  | groupOpen : AfterParen .groupOpen
  | item : AfterParen .item
  | member : AfterParen (.set .member)
  | after (a : Char) : AfterParen (.set (.after (.char a)))

theorem afterParen_addRange {r r' : Reader} {first : Char}
    (h : r.addRange first '(' = some r') : AfterParen r'.mode := by
  simp only [addRange, Option.ite_none_right_eq_some] at h
  obtain ⟨-, h⟩ := h
  obtain rfl := Option.some.inj h
  exact .member

theorem afterParen_deliver {r r' : Reader} {place : Place}
    (h : r.deliver place (.char '(') = some r') : AfterParen r'.mode := by
  cases place with
  | sequence =>
    obtain rfl := Option.some.inj h
    exact .item
  | member =>
    obtain rfl := Option.some.inj h
    exact .after _
  | rangeEnd first => exact afterParen_addRange h

theorem afterParen_readAfterMember {r r' : Reader} {atom : Atom}
    (h : r.readAfterMember atom '(' = some r') : AfterParen r'.mode := by
  simp only [readAfterMember] at h
  cases atom with
  | look l => cases h
  | char c =>
    obtain rfl := Option.some.inj h
    exact .after _
  | set t =>
    obtain rfl := Option.some.inj h
    exact .after _

theorem afterParen_readRangeEnd {r r' : Reader} {atom : Atom}
    (h : r.readRangeEnd atom '(' = some r') : AfterParen r'.mode := by
  cases atom with
  | char first => exact afterParen_addRange h
  | set t => cases h
  | look l => cases h

/-- Inside a class, a parenthesis is a member or ends a range. -/
theorem afterParen_readSet {r r' : Reader} {mode : SetMode}
    (h : r.readSet mode '(' = some r') : AfterParen r'.mode := by
  cases mode with
  | opened | leading | leadingDashes | member =>
    obtain rfl := Option.some.inj h
    exact .after _
  | doubled first =>
    simp only [readSet, readDoubled] at h
    split at h
    · split at h <;> (obtain rfl := Option.some.inj h; exact .member)
    · exact afterParen_readAfterMember h
  | after atom => exact afterParen_readAfterMember h
  | dash atom => exact afterParen_readRangeEnd h
  | apart atom glimpse =>
    simp only [readSet, readApart] at h
    split at h
    · exact afterParen_readRangeEnd h
    · split at h
      · exact afterParen_readAfterMember h
      · cases h

/-- Outside of comments, a parenthesis opens a group, is a member of a class, or is escaped. -/
theorem afterParen_step {r r' : Reader} (hcomment : r.mode.inComment = false)
    (h : r.step '(' = some r') : AfterParen r'.mode := by
  rw [step_of_visible (by decide)] at h
  cases hmode : r.mode <;> simp only [readChar, hmode] at h
  case item =>
    obtain rfl := Option.some.inj h
    exact .groupOpen
  case repetition min max counted =>
    cases hlast : r.repeatLast min max ('(' != '?') <;> simp only [hlast] at h
    · cases h
    · obtain rfl := Option.some.inj h
      exact .groupOpen
  case escape place => exact afterParen_deliver h
  case boundary =>
    obtain rfl := Option.some.inj h
    exact .groupOpen
  case groupOpen =>
    obtain rfl := Option.some.inj h
    exact .groupOpen
  case set mode => exact afterParen_readSet h
  case hexStart place digits => cases h
  case hexDigits place missing value => cases h
  case hexBrace place value => cases h
  case boundaryBrace => cases h
  case boundaryName letters => cases h
  case groupHeader => cases h
  case groupP => cases h
  case groupAngle => cases h
  case groupName letters =>
    have hname : ∀ first, isNameChar first '(' = false := by decide
    simp [readGroupName, hname] at h
  case flags list =>
    have hflag : ∀ value, isFlag value '(' = false := by decide
    simp [readFlag, hflag] at h
  case countMin value ended => cases value <;> cases h
  case countComma min => cases h
  case countMax min value ended => cases value <;> cases h
  case comment back =>
    rw [hmode] at hcomment
    cases hcomment

/-- Behind the header of a group an item may begin, unless the header stands in a class. -/
theorem mode_of_read_header {r r' : Reader} (hcomment : r.mode.inComment = false)
    (h : r.read "(?:".toList = some r') :
    r'.mode = .item ∨ r'.mode = .set (.after (.char ':')) := by
  have hsplit : "(?:".toList = ['('] ++ (['?'] ++ [':']) := rfl
  rw [hsplit, read_append] at h
  obtain ⟨s, hs, h⟩ := Option.bind_eq_some_iff.mp h
  rw [read_append] at h
  obtain ⟨t, ht, hr'⟩ := Option.bind_eq_some_iff.mp h
  rw [read_singleton] at hs ht hr'
  have hcolon : ∀ {a : Char}, t.mode = .set (.after (.char a)) →
      r'.mode = .set (.after (.char ':')) := by
    intro a ha
    obtain ⟨sets, -, hstep⟩ := step_after_plain ha ':' (by decide) (step_of_visible (by decide) t)
    obtain rfl := Option.some.inj (hstep.symm.trans hr')
    rfl
  have hparen := afterParen_step hcomment hs
  cases hmode : s.mode <;> rw [hmode] at hparen <;> cases hparen
  case groupOpen =>
    have hheader := read_plainHeader hmode
    rw [show "?:".toList = ['?'] ++ [':'] from rfl, read_append, read_singleton, ht,
      Option.bind_some, read_singleton, hr'] at hheader
    obtain rfl := Option.some.inj hheader
    exact .inl rfl
  case item =>
    rw [step_of_visible (by decide)] at ht hr'
    simp only [readChar, hmode, readItem, Option.ite_none_right_eq_some] at ht
    obtain ⟨-, ht⟩ := ht
    obtain rfl := Option.some.inj ht
    simp only [readChar, goto] at hr'
    split at hr'
    · obtain rfl := Option.some.inj hr'
      exact .inl rfl
    · cases hr'
  case set.member =>
    have hmember : s.step '?' = some ((s.spell '?').goto (.set (.after (.char '?')))) := by
      rw [step_of_visible (by decide)]
      simp only [readChar, hmode, readSet]
      rfl
    obtain rfl := Option.some.inj (hmember.symm.trans ht)
    exact .inr (hcolon rfl)
  case set.after a =>
    obtain ⟨sets, -, hstep⟩ :=
      step_after_plain hmode '?' (by decide) (step_of_visible (by decide) s)
    obtain rfl := Option.some.inj (hstep.symm.trans ht)
    exact .inr (hcolon rfl)

/-! ### Comments -/

theorem glance_glance_paren (mode : Mode) (c : Char) :
    (mode.glance '(').glance c = mode.glance '(' := by
  cases mode with
  | set mode =>
    cases mode with
    | apart atom glimpse => cases glimpse <;> rfl
    | _ => rfl
  | _ => rfl

/-- Within a line of a comment no more is learned than its first characters tell. -/
theorem read_of_comment {r : Reader} {back : Mode} (hmode : r.mode = .comment back)
    {text : List Char} (htext : '\n' ∉ text) :
    r.read text = some (r.goto (.comment (text.foldl Mode.glance back))) := by
  induction text generalizing r back with
  | nil =>
    rw [List.foldl_nil, goto, ← hmode]
    rfl
  | cons c text ih =>
    rw [List.mem_cons, not_or] at htext
    have hstep : r.step c = some (r.goto (.comment (back.glance c))) := by
      rw [step_of_comment hmode, readComment, if_neg (Ne.symm htext.1)]
    rw [← List.singleton_append, read_append, read_singleton, hstep, Option.bind_some,
      ih rfl htext.2]
    rfl

/-- In a comment it does not matter what is put into a slot, unless it ends the comment. -/
theorem read_grouped_of_comment {r : Reader} {back : Mode} (hmode : r.mode = .comment back)
    {text : List Char} (htext : '\n' ∉ text) :
    r.read (grouped text) = some (r.goto (.comment (back.glance '('))) := by
  have hgrouped : grouped text = '(' :: ("?:".toList ++ text ++ [')']) := rfl
  have hglance : ∀ rest : List Char,
      rest.foldl Mode.glance (back.glance '(') = back.glance '(' := by
    intro rest
    induction rest with
    | nil => rfl
    | cons c rest ih => rw [List.foldl_cons, glance_glance_paren, ih]
  rw [read_of_comment hmode, hgrouped, List.foldl_cons, hglance]
  simp [grouped, htext]

/-! ### The filling of a slot -/

/-- **What is put into a slot can be exchanged.** Either a group is opened for it and closed again,
or its characters are members of a class, or it stands in a comment and does not end it. -/
theorem Alike.read_grouped {r s : Reader} (hrs : r.Alike s) {text text' : List Char}
    (h : Inert text) (h' : Inert text')
    (hcomment : r.mode.inComment = true → '\n' ∉ text ∧ '\n' ∉ text') :
    Option.Rel Alike (r.read (grouped text)) (s.read (grouped text')) := by
  cases hr : r.mode.inComment with
  | true =>
    obtain ⟨htext, htext'⟩ := hcomment hr
    cases hmode : r.mode with
    | comment back =>
      rw [read_grouped_of_comment hmode htext,
        read_grouped_of_comment (hrs.mode ▸ hmode) htext']
      exact .some { hrs with mode := rfl }
    | _ =>
      rw [hmode] at hr
      cases hr
  | false =>
    rw [grouped, grouped, List.append_assoc, List.append_assoc, read_append, read_append]
    have hheader : Option.Rel Alike (r.read "(?:".toList) (s.read "(?:".toList) :=
      read_uniform "(?:".toList r s hrs
    obtain ⟨hopen, hopen'⟩ | ⟨t, u, hopen, hopen', htu⟩ := rel_cases hheader
    · rw [hopen, hopen']
      exact .none
    rw [hopen, hopen', Option.bind_some, Option.bind_some, read_append, read_append]
    rcases mode_of_read_header hr hopen with hmode | hmode
    · obtain ⟨level, ht⟩ := h.staysInGroup t hmode
      obtain ⟨level', hu⟩ := h'.staysInGroup u (htu.mode ▸ hmode)
      rw [ht, hu, Option.bind_some, Option.bind_some, read_singleton, read_singleton,
        step_of_visible (by decide), step_of_visible (by decide)]
      simp only [readChar, ← htu.mode, hmode, readItem]
      exact closeGroup_rel htu.outer htu.sets htu.names
    · obtain ⟨sets, b, hsets, ht⟩ := h.staysInClass t ':' hmode
      obtain ⟨sets', b', hsets', hu⟩ := h'.staysInClass u ':' (htu.mode ▸ hmode)
      rw [ht, hu, Option.bind_some, Option.bind_some, read_singleton, read_singleton]
      obtain ⟨closed, hclosed, ht'⟩ := step_after_plain
        (r := { t with sets, mode := .set (.after (.char b)) }) rfl ')' (by decide)
        (step_of_visible (by decide) _)
      obtain ⟨closed', hclosed', hu'⟩ := step_after_plain
        (r := { u with sets := sets', mode := .set (.after (.char b')) }) rfl ')' (by decide)
        (step_of_visible (by decide) _)
      have hlength : closed.length = closed'.length := by
        rw [hclosed, hclosed', hsets, hsets', htu.sets]
      rw [ht', hu']
      exact .some { htu with mode := rfl, sets := hlength }

/-! ### Slots outside of comments -/

/-- Whether, in the rest of a template, no slot stands in a comment. Slots are read as empty groups;
behind a place where the template cannot be read nothing is asked. -/
def slotsUncommented : Reader → List Char → Bool
  | r, '%' :: 's' :: rest =>
    !r.mode.inComment && (r.read (grouped [])).all fun r => r.slotsUncommented rest
  | r, c :: rest => (r.step c).all fun r => r.slotsUncommented rest
  | _, [] => true

section SlotsUncommented

variable {r t : Reader} {rest : List Char}

/-- A slot stands outside of comments. -/
theorem inComment_of_slotsUncommented (h : r.slotsUncommented ('%' :: 's' :: rest) = true) :
    r.mode.inComment = false := by
  rw [slotsUncommented, Bool.and_eq_true, Bool.not_eq_true'] at h
  exact h.1

/-- Behind a slot the rest of the template is asked the same. -/
theorem slotsUncommented_of_slot (h : r.slotsUncommented ('%' :: 's' :: rest) = true)
    (ht : r.read (grouped []) = some t) : t.slotsUncommented rest = true := by
  rw [slotsUncommented, Bool.and_eq_true, ht, Option.all_some] at h
  exact h.2

/-- Behind any other character the rest of the template is asked the same. -/
theorem slotsUncommented_of_step {c : Char}
    (hslot : ∀ later, c = '%' → rest = 's' :: later → False)
    (h : r.slotsUncommented (c :: rest) = true) (ht : r.step c = some t) :
    t.slotsUncommented rest = true := by
  rw [slotsUncommented, ht, Option.all_some] at h
  · exact h
  · exact hslot

end SlotsUncommented

end Pattern.Reader

/-- `Fits source text`: the text is the template with something inert, in a group, in each slot. -/
inductive Fits : List Char → List Char → Prop where
  | nil : Fits [] []
  | slot {filling source text : List Char} (inert : Inert filling) (rest : Fits source text) :
    Fits ('%' :: 's' :: source) (grouped filling ++ text)
  | char {c : Char} {source text : List Char}
    (apart : ∀ later, c = '%' → source = 's' :: later → False) (rest : Fits source text) :
    Fits (c :: source) (c :: text)

namespace Fits

variable {source text : List Char}

/-- A filled template fits the template. -/
theorem fillSlots {filling : List Char} (h : Inert filling) (source : List Char) :
    Fits source (fillSlots (grouped filling) source) := by
  fun_induction Relabel.fillSlots (grouped filling) source with
  | case1 rest ih => exact .slot h ih
  | case2 c rest hslot ih => exact .char hslot ih
  | case3 => exact .nil

/-- **What stands in the slots does not matter for reading on**, if no slot stands in a comment: a
reader of any filling goes along with the reader of empty groups. -/
theorem read (h : Fits source text) {r s : Reader} (hrs : r.Alike s)
    (hslots : r.slotsUncommented source = true) :
    Option.Rel Reader.Alike (r.read (Relabel.fillSlots (grouped []) source)) (s.read text) := by
  induction h generalizing r s with
  | nil => exact .some hrs
  | @slot filling source text inert rest ih =>
    have hslot : Option.Rel Reader.Alike (r.read (grouped [])) (s.read (grouped filling)) := by
      refine hrs.read_grouped .nil inert fun hcomment => ?_
      cases (Reader.inComment_of_slotsUncommented hslots).symm.trans hcomment
    rw [Relabel.fillSlots, Reader.read_append, Reader.read_append]
    obtain ⟨hr, hs⟩ | ⟨t, u, hr, hs, htu⟩ := rel_cases hslot
    · rw [hr, hs]
      exact .none
    · rw [hr, hs]
      exact ih htu (Reader.slotsUncommented_of_slot hslots hr)
  | @char c source text apart rest ih =>
    rw [Relabel.fillSlots]
    on_goal 2 => exact apart
    have hstep : Option.Rel Reader.Alike (r.step c) (s.step c) := Reader.step_uniform c r s hrs
    rw [← List.singleton_append, ← List.singleton_append (l := text), Reader.read_append,
      Reader.read_append, Reader.read_singleton, Reader.read_singleton]
    obtain ⟨hr, hs⟩ | ⟨t, u, hr, hs, htu⟩ := rel_cases hstep
    · rw [hr, hs]
      exact .none
    · rw [hr, hs]
      exact ih htu (Reader.slotsUncommented_of_step apart hslots hr)

/-- Whether a text that fits a template is a pattern can be told with empty groups in the slots. -/
theorem isSome_parse? (h : Fits source text) {ignoreCase : Bool}
    (hslots : (Reader.start ignoreCase).slotsUncommented source = true) :
    (parse? ignoreCase text).isSome =
      (parse? ignoreCase (Relabel.fillSlots (grouped []) source)).isSome := by
  have hread := h.read (.refl _) hslots
  rw [parse?_eq_bind, parse?_eq_bind]
  exact (isSome_eq_of_rel (rel_bind hread fun r s hrs => hrs.finish)).symm

end Fits

/-! ### Templates and expressions -/

namespace Template

/-- Whether no slot of a template stands in a comment. -/
def slotsUncommented (t : Template) (caseSensitive : Bool) : Bool :=
  (Reader.start (!caseSensitive)).slotsUncommented t.source.toList

/-- `t.Compiles filling caseSensitive`: the template is a pattern once its slots are filled. -/
def Compiles (t : Template) (filling : List Char) (caseSensitive : Bool) : Prop :=
  ∃ p, t.pattern filling caseSensitive = .ok p

variable {t : Template} {filling : List Char} {caseSensitive : Bool}

theorem compiles_iff : t.Compiles filling caseSensitive ↔
    (parse? (!caseSensitive) (t.fill filling)).isSome = true := by
  unfold Compiles pattern
  cases parse? (!caseSensitive) (t.fill filling) <;> simp

/-- The only thing that can be wrong with a filled template is that it is no pattern. -/
theorem pattern_of_not_compiles (h : ¬ t.Compiles filling caseSensitive) :
    t.pattern filling caseSensitive = .error .invalidPattern := by
  unfold pattern
  split
  · rename_i p hp
    exact absurd ⟨p, by rw [pattern, hp]⟩ h
  · rfl

/-- Whether a template is a pattern does not depend on what inert text is in its slots. -/
theorem compiles_iff_of_inert (hslots : t.slotsUncommented caseSensitive = true)
    (hfilling : Inert filling) :
    t.Compiles filling caseSensitive ↔ t.Compiles [] caseSensitive := by
  have hparse := (Fits.fillSlots hfilling t.source.toList).isSome_parse? hslots
  rw [compiles_iff, compiles_iff, fill, fill]
  exact hparse ▸ Iff.rfl

-- A line break in a key ends a comment, and the rest of the key is read.
example : (parse? false (fillSlots (grouped []) "(?x)a#%s".toList)).isSome = true ∧
    (parse? false (fillSlots (grouped "\nb".toList) "(?x)a#%s".toList)).isSome = false := by
  decide

end Template

namespace Expression

def templates (e : Expression) : List Template :=
  e.strategy.regions ++ [e.strategy.template]

/-- Whether no slot of the templates of an expression stands in a comment. -/
def slotsUncommented (e : Expression) : Bool :=
  e.templates.all fun t => t.slotsUncommented e.caseSensitive

/-- `e.Valid filling`: all templates of the expression are patterns once their slots are filled. -/
def Valid (e : Expression) (filling : List Char) : Prop :=
  ∀ t ∈ e.templates, t.Compiles filling e.caseSensitive

end Expression

namespace Traced

variable {α β : Type}

theorem outcome_bind_of_error {first : Traced α} {error : Error} (h : first.outcome = .error error)
    (next : α → Traced β) : (first >>= next).outcome = .error error := by
  rw [outcome_bind, h]
  rfl

end Traced

namespace Expression

variable {e : Expression} {mapping : Mapping}

theorem matcher_yields {t : Template} {filling : List Char}
    (h : t.Compiles filling e.caseSensitive) : (e.matcher t filling).Yields fun _ => True := by
  obtain ⟨p, hp⟩ := h
  exact ⟨Matcher.ofPattern e.group.toList p, by rw [matcher, Matcher.compile_of_ok hp], trivial⟩

/-- A template that is no pattern makes an expression fail. -/
theorem outcome_matcher_of_not_compiles {t : Template} {filling : List Char}
    (h : ¬ t.Compiles filling e.caseSensitive) :
    (e.matcher t filling).outcome = .error .invalidPattern :=
  Traced.outcome_bind_of_error (Template.pattern_of_not_compiles h) _

/-- The first template that is no pattern ends the compilation. -/
theorem outcome_mapM_matcher_of_not_compiles {filling : List Char} {templates : List Template}
    (h : ¬ ∀ t ∈ templates, t.Compiles filling e.caseSensitive) :
    (templates.mapM fun t => e.matcher t filling).outcome = .error .invalidPattern := by
  induction templates with
  | nil => exact absurd (List.forall_mem_nil _) h
  | cons t templates ih =>
    rw [List.mapM_cons]
    by_cases ht : t.Compiles filling e.caseSensitive
    · have hrest : ¬ ∀ t ∈ templates, t.Compiles filling e.caseSensitive := fun hall =>
        h (List.forall_mem_cons.mpr ⟨ht, hall⟩)
      obtain ⟨m, hm, -⟩ := matcher_yields ht
      rw [Traced.outcome_bind, hm]
      exact Traced.outcome_bind_of_error (ih hrest) _
    · exact Traced.outcome_bind_of_error (outcome_matcher_of_not_compiles ht) _

/-- An expression is valid if what it narrows a text down by is, and what it captures with. -/
theorem valid_iff {filling : List Char} : e.Valid filling ↔
    (∀ t ∈ e.strategy.regions, t.Compiles filling e.caseSensitive) ∧
      e.strategy.template.Compiles filling e.caseSensitive := by
  rw [Valid, templates, List.forall_mem_append, List.forall_mem_singleton]

/-- Once the templates are patterns nothing can fail. -/
theorem replaceAll_yields (text : String) (hmapping : mapping ≠ [])
    (h : e.Valid (Lookup.ofMapping mapping e.caseSensitive).pattern) :
    (e.replaceAll text mapping).Yields fun _ => True := by
  have hempty : mapping.isEmpty = false := by simpa using hmapping
  obtain ⟨hregions, htemplate⟩ := valid_iff.mp h
  unfold replaceAll
  rw [hempty]
  cases hstrategy : e.strategy with
  | direct t | parallel t decoration =>
    rw [hstrategy] at htemplate
    exact (matcher_yields htemplate).bind fun m _ => ⟨_, rfl, trivial⟩
  | nested outer within inner =>
    rw [hstrategy] at hregions htemplate
    apply (Traced.Yields.mapM fun t ht => matcher_yields (hregions t ht)).bind
    intro levels _
    exact (matcher_yields htemplate).bind fun m _ => ⟨_, rfl, trivial⟩

/-- An expression that is not valid fails on every text. -/
theorem outcome_replaceAll_of_not_valid (text : String) (hmapping : mapping ≠ [])
    (h : ¬ e.Valid (Lookup.ofMapping mapping e.caseSensitive).pattern) :
    (e.replaceAll text mapping).outcome = .error .invalidPattern := by
  have hempty : mapping.isEmpty = false := by simpa using hmapping
  rw [valid_iff] at h
  unfold replaceAll
  rw [hempty]
  cases hstrategy : e.strategy with
  | direct t | parallel t decoration =>
    rw [hstrategy] at h
    have ht : ¬ t.Compiles (Lookup.ofMapping mapping e.caseSensitive).pattern e.caseSensitive :=
      fun ht => h ⟨List.forall_mem_nil _, ht⟩
    exact Traced.outcome_bind_of_error (outcome_matcher_of_not_compiles ht) _
  | nested outer within inner =>
    rw [hstrategy] at h
    by_cases hregions : ∀ t ∈ outer :: within,
        t.Compiles (Lookup.ofMapping mapping e.caseSensitive).pattern e.caseSensitive
    · have hinner : ¬ inner.Compiles (Lookup.ofMapping mapping e.caseSensitive).pattern
          e.caseSensitive := fun hinner => h ⟨hregions, hinner⟩
      obtain ⟨levels, hlevels, -⟩ :=
        Traced.Yields.mapM fun t ht => matcher_yields (hregions t ht)
      refine (Traced.outcome_bind _ _).trans ?_
      rw [hlevels]
      exact Traced.outcome_bind_of_error (outcome_matcher_of_not_compiles hinner) _
    · exact Traced.outcome_bind_of_error (outcome_mapM_matcher_of_not_compiles hregions) _

/-- **Whether an expression can be run does not depend on the keys.** -/
theorem valid_iff_of_inert (hslots : e.slotsUncommented = true) {filling : List Char}
    (hfilling : Inert filling) : e.Valid filling ↔ e.Valid [] := by
  have htemplates := List.all_eq_true.mp hslots
  exact forall₂_congr fun t ht => Template.compiles_iff_of_inert (htemplates t ht) hfilling

end Expression

end Relabel
