import Relabel.Proofs.ValueGuards

/-!
# Values of attributes

In the attributes of a start tag a match begins at the blank in front of an attribute or at a
quotation mark, and nowhere else, so a walk goes from attribute to attribute. If the names that are
looked at are plain (`Html.Selection`), rewriting the captures changes the values of the attributes
with these names (`Html.Selection.changed?_rewrite`). For the pattern that captures values with a
key in them, the tokens of these values are renamed (`Html.Values.changed?_rewrite`).
-/

namespace Relabel.Html

open Pattern

/-! ### Walking from attribute to attribute -/

namespace Values

variable {c d : Cursor}

/-- No value begins with a blank, so none is passed over there. -/
theorem not_passed_of_blank {part rest : List Char} (hrest : c.rest = ' ' :: rest)
    (hover : c.Over part d) :
    ¬ (part ∈ barePattern.language ∨ ∃ q, part ∈ (quotedPattern q).language) := by
  intro hvalue
  obtain ⟨y, later, rfl, hy⟩ := exists_cons_of_passed hvalue
  obtain ⟨rfl, -⟩ := List.cons.inj (hrest.symm.trans hover.1)
  exact absurd hy (by decide)

/-- What follows a name to which nothing is assigned: a blank or a delimiter, and no equals sign,
also not behind white space. -/
structure Unassigned (text : List Char) : Prop where
  head : ∀ y ∈ text.head?, y = ' ' ∨ y ∈ delimiters
  notAssigned : ∀ gap rest, (∀ y ∈ gap, Unicode.isSpace y = true) → text ≠ gap ++ '=' :: rest

/-- What follows an attribute in a tag is not assigned to it. -/
theorem unassigned_render (attributes : List Attribute) (closing : Bool) :
    Unassigned (attributes.flatMap Attribute.render ++ slashIf closing) := by
  have hshort : ∀ text : List Char, '=' ∉ text → (∀ y ∈ text.head?, y = ' ' ∨ y ∈ delimiters) →
      Unassigned text := by
    intro text hequals hhead
    refine ⟨hhead, ?_⟩
    rintro gap rest - rfl
    exact hequals (by simp)
  cases attributes with
  | nil =>
    cases closing with
    | false => exact hshort _ (by decide) (by simp [slashIf])
    | true => exact hshort _ (by decide) (by simp [slashIf, delimiters])
  | cons a attributes =>
    obtain ⟨z, later, hchars⟩ := a.name.exists_cons
    obtain ⟨hspace, hdelimiter⟩ := a.name.of_mem (y := z) (by simp [hchars])
    rw [List.flatMap_cons, Attribute.render, hchars]
    refine ⟨by rintro y ⟨rfl⟩; exact .inl rfl, fun gap rest hgap heq => ?_⟩
    -- the white space in front of an equals sign would have to go on into the name
    cases gap with
    | nil => cases (List.cons.inj heq).1
    | cons x gap =>
      cases gap with
      | nil =>
        obtain ⟨rfl, -⟩ := List.cons.inj (List.cons.inj heq).2
        exact hdelimiter (by decide)
      | cons x' gap =>
        obtain ⟨rfl, -⟩ := List.cons.inj (List.cons.inj heq).2
        rw [hgap z (by simp)] at hspace
        cases hspace

/-- A value in quotation marks follows the equals sign at once. -/
theorem rest_of_assigned {q : Quote} {gap gap' rest rest' : List Char}
    (hgap : ∀ y ∈ gap, Unicode.isSpace y = true) (hgap' : ∀ y ∈ gap', Unicode.isSpace y = true)
    (h : '=' :: q.char :: rest = gap ++ '=' :: (gap' ++ rest')) : rest' = q.char :: rest := by
  cases gap with
  | cons z gap =>
    obtain ⟨rfl, -⟩ := List.cons.inj h
    exact absurd (hgap _ List.mem_cons_self) (by decide)
  | nil =>
    obtain ⟨-, h⟩ := List.cons.inj h
    cases gap' with
    | cons z gap' =>
      obtain ⟨rfl, -⟩ := List.cons.inj h
      have hspace := hgap' _ List.mem_cons_self
      rw [q.not_isSpace] at hspace
      cases hspace
    | nil => exact h.symm

end Values

namespace Attribute

def withValue (change : List Char → Option (List Char)) (a : Attribute) : Attribute :=
  { a with value := a.value.map fun v => { v with text := (change v.text).getD v.text } }

def hasChange (change : List Char → Option (List Char)) (a : Attribute) : Bool :=
  a.value.any fun v => (change v.text).isSome

/-- An attribute whose value is not changed stays as it is. -/
theorem withValue_of_not_hasChange {change : List Char → Option (List Char)} {a : Attribute}
    (h : a.hasChange change = false) : a.withValue change = a := by
  obtain ⟨name, value⟩ := a
  cases value with
  | none => rfl
  | some v =>
    have hnone : change v.text = none := by simpa [hasChange] using h
    simp [withValue, hnone]

end Attribute

/-- Names without blanks and delimiters, and what is captured in the values behind them: content in
quotation marks, or a key. -/
structure Selection where
  named : Pattern
  content : Quote → Pattern
  keys : Pattern
  selects : Attribute → Bool
  lexical_named : named.lexical = true
  lexical_content : ∀ q, (content q).lexical = true
  lexical_keys : keys.lexical = true
  proper_named : named.proper = true
  proper_content : ∀ q, (content q).proper = true
  proper_keys : keys.proper = true
  plain_named : ∀ part ∈ named.language, part ≠ [] ∧ ∀ y ∈ part, y ≠ ' ' ∧ y ∉ delimiters
  plain_content : ∀ q, ∀ body ∈ (content q).language, q.char ∉ body
  plain_keys : ∀ key ∈ keys.language, key ≠ [] ∧ ∀ q : Quote, q.char ∉ key
  mem_named : ∀ a : Attribute, a.name.chars ∈ named.language ↔ selects a = true

namespace Selection

variable (s : Selection) {c d e f g : Cursor} {new : Captures}

def guard : Guard where
  named := s.named
  value := valuePattern s.content s.keys
  lexical := s.lexical_named
  proper_named := s.proper_named
  proper_value := proper_valuePattern s.proper_content s.proper_keys
  numbered := by
    rw [groups_valuePattern s.lexical_content s.lexical_keys]
    simp

theorem groups_pattern : s.guard.pattern.groups =
    [(1, some "main_1".toList), (2, some "main_2".toList), (3, some "main_3".toList),
      (4, some aheadGroup)] :=
  (groups_guardedPattern s.lexical_named).trans
    (groups_valuePattern s.lexical_content s.lexical_keys)

variable {s}

/-- The content of a quotation is the capture, whichever quotation mark it has. -/
theorem capture?_enclosed {q : Quote} (span content : Span) :
    s.guard.matcher.capture? ⟨span, [(q.group, content)]⟩ = some content := by
  rw [Matcher.capture?, Guard.matcher, Matcher.ofPattern, groups_pattern]
  cases q <;> rfl

/-- Behind a value in quotation marks, scanning resumes at the end of the match. -/
theorem resumes_enclosed {q : Quote} {content : Span} (hopened : c.Reaches g)
    (hclosed : g.Over [q.char] d) :
    s.guard.matcher.Resumes ⟨⟨c.offset, d.offset⟩, [(q.group, content)]⟩ c d := by
  refine ⟨hopened.trans ⟨_, hclosed⟩, ?_, ?_⟩
  · exact Nat.lt_of_le_of_lt hopened.offset_le (hclosed.offset_lt (List.cons_ne_nil _ _))
  · rw [Matcher.target, Matcher.ahead?, Guard.matcher, Matcher.ofPattern, groups_pattern]
    cases q <;> rfl

/-- An attribute without a value is not matched. -/
theorem matchAt_unassigned {name : Name} {tail : List Char}
    (hrest : c.rest = ' ' :: (name.chars ++ tail)) (htail : Values.Unassigned tail) :
    s.guard.matcher.program.matchAt c = none := by
  refine s.guard.passesValues.matchAt_eq_none_iff.mpr fun d new h => ?_
  rcases guarded_cases s.lexical_named h with ⟨-, part, hover, hvalue⟩ |
    ⟨e, f, text, hassigned, -⟩
  · exact Values.not_passed_of_blank hrest hover hvalue
  · obtain ⟨-, -, gap, gap', hgap, -, heq⟩ := hassigned.eq_name s.plain_named hrest htail.head
    exact htail.notAssigned gap _ hgap heq

/-- **What is matched at an attribute with a value**: if it has one of the names and content that is
to be captured, its content is captured. -/
theorem matches_attribute_iff {a : Attribute} {v : Value} (hv : v.quote.char ∉ v.text)
    {d' i : Cursor} (hfront : c.Over (' ' :: (a.name.chars ++ ['=', v.quote.char])) g)
    (htext : g.Over v.text i) (hclosed : i.Over [v.quote.char] d) :
    s.guard.pattern.Matches c d' new ↔
      s.selects a = true ∧ v.text ∈ (s.content v.quote).language ∧
        d' = d ∧ new = [(v.quote.group, ⟨g.offset, i.offset⟩)] := by
  obtain ⟨e, hblank, hlater⟩ := Cursor.Over.split (show c.Over ([' '] ++ _) g from hfront)
  have hopening : e.Over ((a.name.chars ++ ['=']) ++ [v.quote.char]) g := by simpa using hlater
  obtain ⟨f, hassigned, hopened⟩ := hopening.split
  constructor
  · intro h
    have hrest : c.rest = ' ' :: (a.name.chars ++ '=' :: v.quote.char :: g.rest) := by
      simpa using hfront.1
    have htail : ∀ y ∈ ('=' :: v.quote.char :: g.rest).head?, y = ' ' ∨ y ∈ delimiters := by
      rintro y ⟨rfl⟩
      decide
    rcases guarded_cases s.lexical_named h with ⟨-, part, hover, hvalue⟩ |
      ⟨e', f', text, hassigned', hvalue⟩
    · exact absurd hvalue (Values.not_passed_of_blank hrest hover)
    · obtain ⟨hblank', rfl, gap, gap', hgap, hgap', heq⟩ :=
        hassigned'.eq_name s.plain_named hrest htail
      have hname := hassigned'.mem
      obtain rfl := hblank.unique hblank'
      have hf : f'.rest = v.quote.char :: g.rest := Values.rest_of_assigned hgap hgap' heq
      obtain ⟨_, _, -, -, hstretch⟩ := hassigned'.stretch
      obtain rfl := hstretch.eq_of_rest_eq hassigned (hf.trans hopened.1.symm)
      rcases matches_valuePattern s.lexical_keys hvalue with ⟨q, henclosed⟩ |
        ⟨key, hkey, later, hkeyRest⟩
      · obtain ⟨g', i', hopened', ⟨body, hbody, hcaptured⟩, hclosed', rfl⟩ :=
          (matches_enclosedPattern_iff s.lexical_content).mp henclosed
        obtain ⟨hquote, -⟩ := List.cons.inj (hopened'.1.symm.trans hf)
        obtain rfl := Quote.char_injective hquote
        obtain rfl := hopened'.unique hopened
        have hbodyRest := hcaptured.1
        have htextRest := htext.1
        rw [hclosed'.1] at hbodyRest
        rw [hclosed.1] at htextRest
        obtain rfl : body = v.text := Quote.text_unique (s.plain_content _ _ hbody) hv
          (hbodyRest.symm.trans htextRest)
        obtain rfl := hcaptured.unique htext
        exact ⟨(s.mem_named a).mp hname, hbody, hclosed'.unique hclosed, rfl⟩
      · -- a key does not begin with a quotation mark
        obtain ⟨hnonempty, hquotes⟩ := s.plain_keys key hkey
        obtain ⟨y, key, rfl⟩ := List.exists_cons_of_ne_nil hnonempty
        obtain ⟨rfl, -⟩ := List.cons.inj (hf.symm.trans hkeyRest)
        exact absurd List.mem_cons_self (hquotes v.quote)
  · rintro ⟨hname, hbody, rfl, rfl⟩
    have hnamed : Assigned s.named c e f a.name.chars :=
      ⟨.inr ⟨' ', by decide, hblank⟩, (s.mem_named a).mpr hname, [], [], by simp, by simp,
        hassigned⟩
    refine guarded_of_assigned s.lexical_named hnamed (matches_of_enclosed (q := v.quote) ?_)
    exact (matches_enclosedPattern_iff s.lexical_content).mpr
      ⟨g, i, hopened, ⟨v.text, hbody, htext⟩, hclosed, rfl⟩

/-! #### Changing the values -/

section Rewrites

variable (s) (change : List Char → Option (List Char))

/-- Whether an attribute has one of the names and its value is changed. -/
def changes (a : Attribute) : Bool :=
  s.selects a && a.hasChange change

/-- The attribute with its value changed, if it has one of the names. -/
def apply (a : Attribute) : Attribute :=
  if s.selects a then a.withValue change else a

variable {s change} {changed : Bool} {out : List Char}

/-- An attribute that is not changed stays as it is. -/
theorem apply_of_not_changes {a : Attribute} (h : s.changes change a = false) :
    s.apply change a = a := by
  rw [apply]
  split
  · rename_i hselects
    rw [changes, hselects, Bool.true_and] at h
    exact Attribute.withValue_of_not_hasChange h
  · rfl

/-- Nothing is changed but what is captured. -/
def Covers (s : Selection) (change : List Char → Option (List Char)) : Prop :=
  ∀ q : Quote, ∀ body, q.char ∉ body → body ∉ (s.content q).language → change body = none

/-- **One attribute**: its value is captured and changed if it is matched, else passed over. -/
theorem rewrites_attribute (hcovers : s.Covers change) {a : Attribute} (ha : a.WellFormed)
    (hover : c.Over a.render d) (hd : Values.Unassigned d.rest)
    (later : s.guard.matcher.Rewrites change d changed out) :
    s.guard.matcher.Rewrites change c (s.changes change a || changed)
      ((s.apply change a).render ++ out) := by
  have hunmatched : s.guard.matcher.program.matchAt c = none → s.changes change a = false →
      s.guard.matcher.Rewrites change c (s.changes change a || changed)
        ((s.apply change a).render ++ out) := by
    intro hnone hchanges
    rw [apply_of_not_changes hchanges, hchanges]
    exact s.guard.passesValues.rewrites_unmatched ha hover hnone later
  obtain ⟨name, value⟩ := a
  cases value with
  | none =>
    have hrest : c.rest = ' ' :: (name.chars ++ d.rest) := by
      simpa [Attribute.render, Value.renderAssigned] using hover.1
    exact hunmatched (matchAt_unassigned hrest hd) (Bool.and_false _)
  | some v =>
    have hv : v.quote.char ∉ v.text := (ha v rfl).1
    have hparts : ∀ text : List Char, (Attribute.mk name (some ⟨v.quote, text⟩)).render =
        ' ' :: (name.chars ++ ['=', v.quote.char]) ++ (text ++ [v.quote.char]) := by
      simp [Attribute.render, Value.renderAssigned, Value.render]
    rw [hparts] at hover
    obtain ⟨g, hfront, hlater⟩ := hover.split
    obtain ⟨i, htext, hclosed⟩ := hlater.split
    have hiff : ∀ new d', s.guard.pattern.Matches c d' new ↔ _ := fun new d' =>
      matches_attribute_iff (a := ⟨name, some v⟩) hv hfront htext hclosed
    by_cases hmatched : s.selects ⟨name, some v⟩ = true ∧ v.text ∈ (s.content v.quote).language
    · have hmatch : s.guard.matcher.program.matchAt c =
          some ⟨⟨c.offset, d.offset⟩, [(v.quote.group, ⟨g.offset, i.offset⟩)]⟩ := by
        refine Program.matchAt_of_unique s.guard.passesValues.proper
          ((hiff _ d).mpr ⟨hmatched.1, hmatched.2, rfl, rfl⟩) fun d' new h => ?_
        obtain ⟨-, -, hsame⟩ := (hiff new d').mp h
        exact hsame
      have hhit := Matcher.Rewrites.hit hmatch (resumes_enclosed ⟨_, hfront.trans htext⟩ hclosed)
        (capture?_enclosed _ _) hfront htext hclosed later
      have happly : s.apply change ⟨name, some v⟩ =
          ⟨name, some ⟨v.quote, (change v.text).getD v.text⟩⟩ := by
        rw [apply, if_pos hmatched.1]
        rfl
      rw [happly, hparts, changes, hmatched.1, Bool.true_and, List.append_assoc, List.append_assoc]
      exact hhit
    · refine hunmatched (s.guard.passesValues.matchAt_eq_none_iff.mpr
        fun d' new h => hmatched ?_) ?_
      · obtain ⟨hselects, hbody, -⟩ := (hiff new d').mp h
        exact ⟨hselects, hbody⟩
      · rw [← Bool.not_eq_true]
        intro hchanges
        rw [changes, Bool.and_eq_true] at hchanges
        refine hmatched ⟨hchanges.1, Classical.byContradiction fun hbody => ?_⟩
        have hsome : (change v.text).isSome = true := hchanges.2
        rw [hcovers v.quote v.text hv hbody] at hsome
        cases hsome

/-- **The values of all attributes of a tag are changed**, up to the slash that may end it. -/
theorem rewrites_attributes (hcovers : s.Covers change) {attributes : List Attribute}
    (hwell : ∀ a ∈ attributes, a.WellFormed) {closing : Bool}
    (hbefore : attributes = [] → c.before ≠ none)
    (hc : c.rest = attributes.flatMap Attribute.render ++ slashIf closing) :
    s.guard.matcher.Rewrites change c (attributes.any (s.changes change))
      ((attributes.map (s.apply change)).flatMap Attribute.render ++ slashIf closing) := by
  induction attributes generalizing c with
  | nil => exact s.guard.passesValues.rewrites_slash (hbefore rfl) hc
  | cons a attributes ih =>
    obtain ⟨ha, hlater⟩ := List.forall_mem_cons.mp hwell
    rw [List.flatMap_cons, List.append_assoc] at hc
    obtain ⟨d, hover, hd⟩ := Cursor.exists_over hc
    have hnext : d.before ≠ none := by
      rw [hover.2.2, Attribute.render, List.getLast?_cons]
      simp
    rw [List.any_cons, List.map_cons, List.flatMap_cons, List.append_assoc]
    refine rewrites_attribute hcovers ha hover ?_ (ih hlater (fun _ => hnext) hd)
    rw [hd]
    exact Values.unassigned_render attributes closing

end Rewrites

/-- **The attributes of a tag are changed**, up to the slash that may end them. -/
theorem changed?_rewrite {change : List Char → Option (List Char)} (hcovers : s.Covers change)
    {attributes : List Attribute} (hwell : ∀ a ∈ attributes, a.WellFormed) (hsome : attributes ≠ [])
    (closing : Bool) :
    (s.guard.matcher.rewrite change
        (attributes.flatMap Attribute.render ++ slashIf closing)).changed? =
      if attributes.any (s.changes change) then
        some ((attributes.map (s.apply change)).flatMap Attribute.render ++ slashIf closing)
      else none :=
  (rewrites_attributes hcovers hwell (fun h => absurd h hsome) rfl).changed?_rewrite
    s.guard.advances

end Selection

/-! ### Renaming the tokens of values -/

namespace Values

def matcher (names : List Name) (mapping : Mapping) : Matcher :=
  .ofPattern "main".toList (valuesPattern names mapping.keyPattern)

variable {names : List Name} {mapping : Mapping} (hnames : names ≠ []) (hne : mapping ≠ [])
  (hkeys : mapping.Identifiers)

/-- A key that is an identifier is not taken for a quotation. -/
theorem plain_keyPattern (hne : mapping ≠ []) (hkeys : mapping.Identifiers) :
    ∀ key ∈ mapping.keyPattern.language, key ≠ [] ∧ ∀ q : Quote, q.char ∉ key := by
  intro key hkey
  rw [Mapping.mem_language_keyPattern hne] at hkey
  exact ⟨(hkeys.of_mem hkey).1, fun _ => quote_notMem_key hkeys hkey⟩

/-- Values that have a key in them, behind some names. -/
def selection : Selection where
  named := namePattern names
  content := fun q => holding (notQuote q) mapping.keyPattern
  keys := mapping.keyPattern
  selects := Attribute.isNamed names
  lexical_named := lexical_oneOf _ _
  lexical_content := fun q => mapping.lexical_holding (notQuote q)
  lexical_keys := mapping.lexical_keyPattern
  proper_named := proper_oneOf _ _
  proper_content := fun q => mapping.proper_holding (notQuote q)
  proper_keys := mapping.proper_keyPattern
  plain_named := fun _ => of_mem_language_namePattern hnames
  plain_content := fun _ _ hbody => ((mem_language_holding hne hkeys).mp hbody).1
  plain_keys := plain_keyPattern hne hkeys
  mem_named := fun _ => mem_language_namePattern_iff_isNamed hnames

/-- The matcher for values is that of a selection. -/
theorem matcher_eq : matcher names mapping = (selection hnames hne hkeys).guard.matcher :=
  rfl

/-- Only a value that has a key in it has a key among its tokens. -/
theorem covers : (selection hnames hne hkeys).Covers mapping.renameTokens? := by
  intro q body hquote hbody
  rw [← Option.isNone_iff_eq_none, ← Option.isSome_eq_false_iff, Mapping.isSome_renameTokens?,
    ← Bool.not_eq_true]
  intro hmentioned
  exact hbody ((mem_language_holding hne hkeys).mpr
    ⟨hquote, Mapping.exists_infix_of_mentionedIn hmentioned⟩)

/-- What a selection of tokens changes are the attributes that mention a key. -/
theorem changes_eq :
    (selection hnames hne hkeys).changes mapping.renameTokens? =
      Attribute.mentions names mapping := by
  funext a
  simp only [Selection.changes, Attribute.hasChange, Attribute.mentions,
    Mapping.isSome_renameTokens?]
  rfl

/-- How a selection of tokens changes an attribute is how it is renamed. -/
theorem apply_eq :
    (selection hnames hne hkeys).apply mapping.renameTokens? = Attribute.rename names mapping := by
  funext a
  simp only [Selection.apply, Attribute.withValue, Attribute.rename, Mapping.getD_renameTokens?]
  rfl

include hnames hne hkeys in
/-- **The attributes of a tag are renamed**, up to the slash that may end them. -/
theorem changed?_rewrite {attributes : List Attribute} (hwell : ∀ a ∈ attributes, a.WellFormed)
    (hsome : attributes ≠ []) (closing : Bool) :
    ((matcher names mapping).rewrite mapping.renameTokens?
        (attributes.flatMap Attribute.render ++ slashIf closing)).changed? =
      if attributes.any (Attribute.mentions names mapping) then
        some ((attributes.map (Attribute.rename names mapping)).flatMap Attribute.render ++
          slashIf closing)
      else none := by
  rw [matcher_eq hnames hne hkeys, (selection hnames hne hkeys).changed?_rewrite
    (covers hnames hne hkeys) hwell hsome, changes_eq, apply_eq]

end Values

end Relabel.Html
