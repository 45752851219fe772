import Relabel.Proofs.Markup
import Relabel.Proofs.ScriptLexing

/-!
# Class lists in scripts

Classes are looked for in three places of a script: in the value of a call that sets the attribute
`class`, between the parentheses of a call on a class list, and in what is assigned to a class name.
Comments and literals are stepped over, but what is taken from such a place is delimited by a
character only: a value ends at the next quote, be it escaped, and arguments end at the next closing
parenthesis, be it in a comment or in a literal. So a class can be changed inside a comment
(`Js.class_changed_in_comment`). Where what follows is delimited as it is read (`Js.valueClear`,
`Js.argumentsClear`), scanning keeps between the lexemes, and no comment is changed
(`Js.classes_changed_outside_comments`).
-/

open scoped Computability

namespace Relabel.Js

open Pattern Lexicon Fragment

/-! ### The patterns of class lists -/

def blanks : Pattern :=
  Pattern.star (.set .space)

def quotedClass (quote : Char) : Pattern :=
  row [char quote, row [row ("class".toList.map fun c => .set (.anyCase (.single c)))], char quote]

/-- What leads to the value in a call that sets the attribute. -/
def callLead : List Pattern :=
  "setAttribute".toList.map char ++ [blanks, char '(', blanks,
    .alt (quotedClass '"') (.alt (quotedClass '\'') (quotedClass '`')), blanks, char ',', blanks]

/-- What leads to the arguments in a call on a class list. -/
def listLead : List Pattern :=
  ".classList".toList.map char ++ [blanks, char '.', blanks,
    choice (row ("replace".toList.map char))
      (["contains", "toggle", "remove", "add"].map fun name => row (name.toList.map char)),
    blanks, char '(']

/-- What leads to the value in an assignment to a class name. -/
def assignedLead : List Pattern :=
  ".className".toList.map char ++ [blanks, .repeated 0 (some 1) true (char '+'), char '=', blanks]

/-- The pattern of a text with a key in it between quotes. -/
def quotedText (index : Nat) (name : String) (quote : Char) (s : CharSet) (keys : Pattern) :
    Pattern :=
  row [char quote, .group index (some name.toList) (holding s keys), char quote]

def valuePattern (keys : Pattern) : Pattern :=
  .alt (quotedText 1 "main_1" '"' (.compl (.union (.single '"') (.single '\n'))) keys)
    (.alt (quotedText 2 "main_2" '\'' (.compl (.union (.single '\'') (.single '\n'))) keys)
      (quotedText 3 "main_3" '`' (.compl (.single '`')) keys))

def valued (lead : List Pattern) (keys : Pattern) : Pattern :=
  row (lead ++ [valuePattern keys])

def listed (keys : Pattern) : Pattern :=
  row (listLead ++ [.group 1 (some "main".toList) (holding (.compl (.single ')')) keys), char ')'])

def quotedKey (index : Nat) (name : String) (quote : Char) (keys : Pattern) : Pattern :=
  row [char quote, .group index (some name.toList) (row [keys]), char quote]

def argumentPattern (keys : Pattern) : Pattern :=
  row [choice (quotedKey 3 "main_3" '`' keys)
    [quotedKey 2 "main_2" '\'' keys, quotedKey 1 "main_1" '"' keys]]

/-! ### The expressions -/

theorem toList_jsSkipped : jsSkipped.toList = "//[^\\n]*|/\\*(?s:.*?)\\*/".toList ++ ['|'] ++
    ("\"(?:[^\"\\\\\\n]|\\\\.)*\"|'(?:[^'\\\\\\n]|\\\\.)*'".toList ++
      "|`(?:[^`\\\\]|\\\\(?s:.))*`".toList) := by
  rw [jsSkipped, String.toList_append, String.toList_append, jsString, String.toList_append]
  rfl

/-- A reader that has read the alternatives for comments and literals. -/
def afterSkipped : Reader :=
  let r := Reader.start false
  { r with level := { r.level with branches := skipped } }

set_option maxRecDepth 8000 in
/-- The alternatives for comments and literals are read once, for all three templates. -/
theorem read_jsSkipped :
    (Reader.start false).read (jsSkipped.toList ++ ['|']) = some afterSkipped := by
  rw [toList_jsSkipped]
  rfl

theorem percent_notMem_jsSkipped : '%' ∉ jsSkipped.toList ++ ['|'] := by
  rw [toList_jsSkipped]
  decide

/-- What a template spells behind the alternatives for comments and literals. -/
theorem spells?_skipped {mapping : Mapping} {rest : List Char} {p : Pattern}
    (h : (afterSkipped.readTemplate
      (fun flags => .oneOf flags (Lookup.ofMapping mapping true).texts) rest).bind Reader.finish =
        some p) :
    Template.spells? (jsSkipped.toList ++ '|' :: rest) mapping = some p := by
  rw [← List.singleton_append, ← List.append_assoc, Template.spells?,
    Reader.readTemplate_append percent_notMem_jsSkipped, read_jsSkipped]
  exact h

section

variable (mapping : Mapping)

set_option maxRecDepth 4000 in
/-- The template for calls that set the attribute. -/
theorem spells?_call : Template.spells? (jsSkipped ++ "|setAttribute\\s*\\(\\s*" ++
      quotedName "(?:class)" ++ "\\s*,\\s*" ++ quotedRegion).toList mapping =
    some (choice (valued callLead mapping.keyPattern) skipped) := by
  have hsource : (jsSkipped ++ "|setAttribute\\s*\\(\\s*" ++ quotedName "(?:class)" ++
      "\\s*,\\s*" ++ quotedRegion).toList = jsSkipped.toList ++ '|' ::
        ("setAttribute\\s*\\(\\s*".toList ++ ((quotedName "(?:class)").toList ++
          ("\\s*,\\s*".toList ++ quotedRegion.toList))) := by
    rw [String.toList_append, String.toList_append, String.toList_append, String.toList_append]
    simp only [List.append_assoc]
    rfl
  rw [hsource, ← ofBranches_of_apart rfl]
  exact spells?_skipped rfl

set_option maxRecDepth 4000 in
/-- The template for calls on a class list. -/
theorem spells?_list : Template.spells? (jsSkipped ++
      "|\\.classList\\s*\\.\\s*(?:add|remove|toggle|contains|replace)\\s*\\(" ++
      "(?P<main>[^)]*(?:%s)[^)]*)\\)").toList mapping =
    some (choice (listed mapping.keyPattern) skipped) := by
  rw [String.toList_append, String.toList_append, List.append_assoc, ← ofBranches_of_apart rfl]
  exact spells?_skipped rfl

set_option maxRecDepth 4000 in
/-- The template for assignments to a class name. -/
theorem spells?_assigned : Template.spells?
      (jsSkipped ++ "|\\.className\\s*\\+?=\\s*" ++ quotedRegion).toList mapping =
    some (choice (valued assignedLead mapping.keyPattern) skipped) := by
  rw [String.toList_append, String.toList_append, List.append_assoc, ← ofBranches_of_apart rfl]
  exact spells?_skipped rfl

theorem spells?_token :
    Template.spells? token.toList mapping = some (Html.tokenPattern mapping.keyPattern) :=
  rfl

theorem toList_quotedArgument : (quotedArgument "" "").toList =
    "(?:\"(?P<main_1>%s)\"|'(?P<main_2>%s)'|`(?P<main_3>%s)`)".toList := by
  decide

/-- The template for arguments that are keys. -/
theorem spells?_argument : Template.spells? (quotedArgument "" "").toList mapping =
    some (argumentPattern mapping.keyPattern) := by
  rw [toList_quotedArgument, argumentPattern, ← ofBranches_of_apart rfl]
  rfl

end

/-- A template has a slot if its last piece has one. -/
theorem hasSlot_toList_append {front back : String} (h : hasSlot back.toList = true) :
    hasSlot (front ++ back).toList = true := by
  rw [String.toList_append]
  exact hasSlot_append h

/-- The expressions for classes: in calls that set the attribute, in class lists and in class
names. -/
theorem exists_classExpressions : ∃ call list assigned,
    multiValueAttributes ⟨["class"]⟩ = .ok [call, list, assigned] ∧
    call.Spells (fun mapping => [choice (valued callLead mapping.keyPattern) skipped])
      (fun mapping => Html.tokenPattern mapping.keyPattern) ∧
    list.Spells (fun mapping => [choice (listed mapping.keyPattern) skipped])
      (fun mapping => argumentPattern mapping.keyPattern) ∧
    assigned.Spells (fun mapping => [choice (valued assignedLead mapping.keyPattern) skipped])
      fun mapping => Html.tokenPattern mapping.keyPattern := by
  have hnames : Fragment.names ["class"] = some "(?:class)" := by
    decide
  have hname : hasName ["class"] "class" = true := by
    decide
  have hregion : hasSlot quotedRegion.toList = true := by
    decide
  obtain ⟨call, hcall, hcallSpells⟩ := nested_spells (hasSlot_toList_append hregion) rfl
    spells?_call spells?_token
  obtain ⟨list, hlist, hlistSpells⟩ := nested_spells (hasSlot_toList_append rfl) rfl
    spells?_list spells?_argument
  obtain ⟨assigned, hassigned, hassignedSpells⟩ := nested_spells (hasSlot_toList_append hregion) rfl
    spells?_assigned spells?_token
  refine ⟨call, list, assigned, ?_, hcallSpells, hlistSpells, hassignedSpells⟩
  unfold multiValueAttributes
  simp only [hnames, hname, if_true]
  rw [hcall, hlist, hassigned]
  rfl

/-! ### What stands in no comment -/

/-- `InComment text s`: some of what stands at a span of a script is in a comment. -/
def InComment (text : List Char) (s : Span) : Prop :=
  ∃ before part after, lexicon.lexemes text = before ++ .comment part :: after ∧
    s.start < byteSize (before.flatMap Lexeme.text) + byteSize part ∧
    byteSize (before.flatMap Lexeme.text) < s.stop

/-- The comment that reaches into a span is among the lexemes that reach over the span. -/
theorem InComment.exists_comment {text : List Char} {s : Span} (h : InComment text s)
    {before ls : List Lexeme} {c d : Cursor} (hbefore : lexicon.Lexed (.start text) before c)
    (hls : lexicon.Lexed c ls d) (hstart : c.offset ≤ s.start) (hstop : s.stop ≤ d.offset) :
    ∃ front part back, ls = front ++ .comment part :: back ∧
      s.start < c.offset + byteSize (front.flatMap Lexeme.text) + byteSize part ∧
      c.offset + byteSize (front.flatMap Lexeme.text) < s.stop := by
  obtain ⟨before', part, after, htext, hbegin, hend⟩ := h
  have hoffset : c.offset = byteSize (before.flatMap Lexeme.text) := by
    simpa [Cursor.start] using hbefore.2.2.1
  have hoffset' := hls.2.2.1
  have hall : before ++ (ls ++ lexicon.lexemes d.rest) = before' ++ .comment part :: after := by
    rw [← htext, ← hls.1]
    exact hbefore.1.symm
  -- the comment begins in the lexemes or behind them, or else in front of them
  rcases List.append_eq_append_iff.mp hall with ⟨front, rfl, hrest⟩ | ⟨_ | ⟨l, more⟩, rfl, hrest⟩
  · rw [List.flatMap_append, byteSize_append] at hbegin hend
    rcases List.append_eq_append_iff.mp hrest with ⟨gap, rfl, -⟩ | ⟨_ | ⟨l, back⟩, rfl, hcomment⟩
    · rw [List.flatMap_append, byteSize_append] at hend
      omega
    · rw [List.append_nil] at hoffset'
      omega
    · obtain rfl := (List.cons.inj hcomment).1
      exact ⟨front, part, back, rfl, by omega, by omega⟩
  · rw [List.append_nil] at hoffset
    cases ls with
    | nil =>
      simp only [List.flatMap_nil, byteSize] at hoffset'
      omega
    | cons l back =>
      obtain rfl := (List.cons.inj hrest).1
      refine ⟨[], part, back, rfl, ?_, ?_⟩
      · simp only [List.flatMap_nil, byteSize]
        omega
      · simp only [List.flatMap_nil, byteSize]
        omega
  · obtain rfl := (List.cons.inj hrest).1
    simp only [List.flatMap_append, List.flatMap_cons, byteSize_append, Lexeme.text] at hoffset
    omega

/-- From a position up to another stand whole lexemes, none of which is a comment. -/
def CommentFree (c d : Cursor) : Prop :=
  ∃ ls, lexicon.Lexed c ls d ∧ ∀ l ∈ ls, l.isComment = false

section CommentFree

variable {c d e : Cursor}

theorem CommentFree.trans (h : CommentFree c d) (h' : CommentFree d e) : CommentFree c e := by
  obtain ⟨ls, hls, hfree⟩ := h
  obtain ⟨ls', hls', hfree'⟩ := h'
  refine ⟨ls ++ ls', hls.trans hls', fun l hl => ?_⟩
  rcases List.mem_append.mp hl with hl | hl
  · exact hfree l hl
  · exact hfree' l hl

theorem CommentFree.of_lexeme? {first : Lexeme} (h : lexicon.lexeme? c.rest = some (first, d.rest))
    (hd : c.Over first.text d) (hfirst : first.isComment = false) : CommentFree c d :=
  ⟨[first], .of_lexeme? h hd, List.forall_mem_singleton.mpr hfirst⟩

/-- What has none of the characters that open comments and literals has no comment in it. -/
theorem CommentFree.of_avoids {p : Pattern} (hp : lexicon.openers.all p.avoids = true)
    {part : List Char} (hpart : part ∈ p.language) (hover : c.Over part d) : CommentFree c d := by
  refine ⟨part.map .char, .of_isInert (isInert_of_avoids hp hpart) hover, ?_⟩
  simp [Lexeme.isComment]

end CommentFree

/-- `KeepsComments e mapping text`: replacing patches the text, and no patch is in a comment. -/
def KeepsComments (e : Expression) (mapping : Mapping) (text : String) : Prop :=
  ∃ edits out, (e.replaceAll text mapping).outcome =
      .ok (if edits = [] then none else some (String.ofList out)) ∧
    Patched 0 text.toList edits out ∧ ∀ edit ∈ edits, ¬ InComment text.toList edit.span

/-- An expression keeps comments if nothing that is captured in its regions is in a comment. -/
theorem keepsComments_of_spells {e : Expression} {last inner : Mapping → Pattern}
    (hspells : e.Spells (fun mapping => [choice (last mapping) skipped]) inner)
    (hregular : e.Regular) {mapping : Mapping} (hne : mapping ≠ []) {text : String}
    (hregions : ∀ region ∈ (matcher (last mapping)).captureSpans text.toList, ∀ part,
      region.slice? text.toList = some part →
      ∀ s ∈ (Matcher.ofPattern "main".toList (inner mapping)).captureSpans part,
        ¬ InComment text.toList (s.shift region.start)) : KeepsComments e mapping text := by
  obtain ⟨out, hpatched, hreplaced⟩ := (hspells.findsAt hregular hne text).replaced
  refine ⟨_, out, hreplaced, hpatched, fun edit hedit => ?_⟩
  obtain ⟨s, hs, hedit⟩ := List.mem_filterMap.mp hedit
  rw [Lookup.edit?_span hedit]
  rw [Matcher.occurrences_eq (by simp [Matcher.compiled_ofPattern])] at hs
  obtain ⟨region, hregion, hs⟩ := List.mem_flatMap.mp hs
  obtain ⟨part, hpart, u, hu, rfl⟩ := Span.mem_within_iff.mp hs
  have hinner : Matcher.spansWithin [.ofPattern "main".toList (inner mapping)] part = _ :=
    Matcher.spansWithin_singleton (Matcher.compiled_ofPattern _ _)
  exact hregions region hregion part hpart u (hinner ▸ hu)

/-- What is captured inside a part of a text lies inside that part. -/
theorem shift_inside {text part : List Char} {region s : Span} {m : Matcher} (hm : m.Compiled)
    (hpart : region.slice? text = some part) (hs : s ∈ m.captureSpans part) :
    region.start ≤ (s.shift region.start).start ∧ (s.shift region.start).stop ≤ region.stop := by
  obtain ⟨found, hfound⟩ := hm.captureSpans_slice hs
  have hinside := (Span.stop_le_of_slice? hfound).2.1
  have hsize := (Span.stop_le_of_slice? hpart).2.2
  simp only [Span.shift_start, Span.shift_stop]
  omega

/-- **What is captured in a region is in no comment** if matches that begin between lexemes are free
of comments. -/
theorem Consumes.not_inComment {last : Pattern} (h : Consumes last) {text : List Char}
    (hread : ∀ {before c d new}, lexicon.Lexed (.start text) before c → last.Matches c d new →
      CommentFree c d) {region s : Span} (hregion : region ∈ (matcher last).captureSpans text)
    (hstart : region.start ≤ s.start) (hstop : s.stop ≤ region.stop) : ¬ InComment text s := by
  obtain ⟨before, c, d, new, index, hbefore, hmatches, hindex⟩ :=
    h.exists_matches_of_mem_captureSpans (fun hbefore hmatches => by
      obtain ⟨ls, hls, -⟩ := hread hbefore hmatches
      exact ⟨ls, hls⟩) hregion
  obtain ⟨hbegin, -, hend⟩ := (hmatches.records _ hindex).bounds
  obtain ⟨ls, hls, hfree⟩ := hread hbefore hmatches
  intro hcomment
  obtain ⟨front, part, back, rfl, -⟩ := hcomment.exists_comment hbefore hls
    (Nat.le_trans hbegin hstart) (Nat.le_trans hstop hend)
  have hnot := hfree (.comment part) (by simp)
  cases hnot

/-! ### Clear values and arguments -/

/-- Whether a value that follows is delimited as it is read: no quote stands alone, and a literal
has its quote nowhere inside. -/
def valueClear : List Lexeme → Bool
  | .char c :: _ => !quotes.contains c
  | .string quote body :: _ => !body.contains quote
  | _ => true

def lacksClose (l : Lexeme) : Bool :=
  !l.text.contains ')'

/-- Whether a lexeme is no comment with a quote in it. -/
def unquoted (l : Lexeme) : Bool :=
  !l.isComment || quotes.all fun quote => !l.text.contains quote

/-- Whether arguments that follow are delimited as they are read: the first closing parenthesis
stands in no comment and in no literal, and no comment in front of it has quotes. -/
def argumentsClear (ls : List Lexeme) : Bool :=
  match ls.dropWhile lacksClose with
  | [] => true
  | l :: _ => l == .char ')' && (ls.takeWhile lacksClose).all unquoted

/-- `Follows lead clear text`: wherever lexemes of a script spell a lead, what follows is clear. -/
def Follows (lead : List Pattern) (clear : List Lexeme → Bool) (text : List Char) : Prop :=
  ∀ before opening rest, lexicon.lexemes text = before ++ (opening ++ rest) →
    opening.flatMap Lexeme.text ∈ (row lead).language → clear rest = true

section Clear

variable {mapping : Mapping} {c d e : Cursor} {part : List Char} {new : Captures}

/-- A clear value is a literal. -/
theorem commentFree_of_valueClear {quote : Char} {body : List Char} (hquote : quote ∈ quotes)
    (hbody : quote ∉ body) (hover : c.Over (Lexeme.string quote body).text d)
    (hclear : valueClear (lexicon.lexemes c.rest) = true) : CommentFree c d := by
  have hrest : c.rest = quote :: (body ++ quote :: d.rest) := by
    simpa [Lexeme.text] using hover.1
  have hne : c.rest ≠ [] := hrest ▸ List.cons_ne_nil _ _
  obtain ⟨first, rest, hfirst⟩ := lexicon.exists_lexeme? hne
  rw [lexemes_of_lexeme? hfirst] at hclear
  rcases lexeme?_cases hfirst with ⟨part, rfl, hcomment⟩ | ⟨quote', body', rfl, -, hstring⟩ |
    ⟨x, rfl, -, -, hchar⟩
  · rw [hrest] at hcomment
    cases (comment?_of_ne (ne_slash_of_mem_quotes hquote) _).symm.trans hcomment
  · have htext := eq_append_of_string? hstring
    rw [hrest] at htext
    simp only [Lexeme.text, List.cons_append, List.append_assoc, List.cons.injEq] at htext
    obtain ⟨rfl, htext⟩ := htext
    have hbody' : quote ∉ body' := by simpa [valueClear] using hclear
    obtain rfl := delimited_unique hbody hbody' htext
    obtain rfl : d.rest = rest := (List.cons.inj (List.append_cancel_left htext)).2
    exact .of_lexeme? hfirst hover rfl
  · rw [hrest] at hchar
    obtain rfl := (List.cons.inj hchar).1
    simp [valueClear, hquote] at hclear

/-- Clear arguments are whole lexemes, and the comments among them have no quotes. -/
theorem exists_lexed_of_argumentsClear (hpart : ')' ∉ part) (hover : c.Over part e)
    (hclose : e.Over [')'] d) (hclear : argumentsClear (lexicon.lexemes c.rest) = true) :
    ∃ ls, lexicon.Lexed c ls e ∧ ∀ l ∈ ls, unquoted l = true := by
  have htext : (lexicon.lexemes c.rest).flatMap Lexeme.text = part ++ ')' :: d.rest := by
    rw [flatMap_text_lexemes, hover.1, hclose.1]
    rfl
  have hlexemes :=
    (List.takeWhile_append_dropWhile (p := lacksClose) (l := lexicon.lexemes c.rest)).symm
  have hfront : ')' ∉ ((lexicon.lexemes c.rest).takeWhile lacksClose).flatMap Lexeme.text := by
    intro hmem
    obtain ⟨l, hl, hmem⟩ := List.mem_flatMap.mp hmem
    have hlacks := List.mem_takeWhile_imp hl
    simp [lacksClose, hmem] at hlacks
  unfold argumentsClear at hclear
  cases hback : (lexicon.lexemes c.rest).dropWhile lacksClose with
  | nil =>
    rw [hback, List.append_nil] at hlexemes
    rw [← hlexemes, htext] at hfront
    simp at hfront
  | cons l back =>
    rw [hback] at hclear hlexemes
    simp only [Bool.and_eq_true, beq_iff_eq, List.all_eq_true] at hclear
    obtain ⟨rfl, hunquoted⟩ := hclear
    rw [hlexemes, List.flatMap_append] at htext
    rw [delimited_unique hpart hfront htext.symm] at hover
    exact ⟨_, .of_lexemes hlexemes hover, hunquoted⟩

/-- A key behind a quote ends in front of a comment without that quote, or begins behind it. -/
theorem outside_of_notMem {quote : Char} {front key back before later after : List Char}
    (h : front ++ quote :: (key ++ back) = before ++ ('/' :: later ++ after))
    (hquote : quote ∉ '/' :: later) (hkey : '/' ∉ key) :
    byteSize (front ++ [quote]) + byteSize key ≤ byteSize before ∨
      byteSize before + byteSize ('/' :: later) ≤ byteSize (front ++ [quote]) := by
  rw [← List.singleton_append, ← List.append_assoc] at h
  rcases List.append_eq_append_iff.mp h with ⟨more, rfl, hrest⟩ | ⟨more, hfront, hrest⟩
  · -- the comment begins behind the quote
    refine .inl ?_
    rcases List.append_eq_append_iff.mp hrest with ⟨gap, rfl, -⟩ | ⟨_ | ⟨x, gap⟩, rfl, hgap⟩
    · simp only [byteSize_append]
      omega
    · rw [List.append_nil, byteSize_append _ more]
    · obtain rfl := (List.cons.inj hgap).1
      exact absurd (by simp) hkey
  · -- the comment begins in front of what stands behind the quote
    rw [hfront, byteSize_append]
    rcases List.eq_nil_or_concat more with rfl | ⟨init, x, rfl⟩
    · cases key with
      | nil => exact .inl (by simp [byteSize])
      | cons x key =>
        obtain rfl := (List.cons.inj hrest).1
        exact absurd List.mem_cons_self hkey
    · obtain rfl : quote = x := by simpa using congrArg List.getLast? hfront
      rcases List.append_eq_append_iff.mp hrest with ⟨gap, hmore, -⟩ | ⟨gap, hcomment, -⟩
      · rw [hmore, byteSize_append]
        exact .inr (by omega)
      · exact absurd (by simp [hcomment]) hquote

end Clear

/-! ### What the patterns take -/

section Leads

variable {c d : Cursor} {new : Captures}

/-- The quoted name of the attribute is a literal. -/
theorem commentFree_of_quotedClass {quote : Char} (hquote : quote ∈ quotes) {part : List Char}
    (hpart : part ∈ (quotedClass quote).language) (hover : c.Over part d) : CommentFree c d := by
  obtain ⟨_, hopen, _, ⟨name, hname, _, ⟨_, hclose, _, rfl, rfl⟩, rfl⟩, rfl⟩ := hpart
  obtain rfl := mem_language_char.mp hopen
  obtain rfl := mem_language_char.mp hclose
  have havoids : ('\\' :: '\n' :: quotes).all (row [row ("class".toList.map fun c =>
      .set (.anyCase (.single c)))]).avoids = true := by
    decide +kernel
  have hfirst := lexeme?_of_plain hquote
    (fun x hx => notMem_of_avoids (List.all_eq_true.mp havoids x hx) hname) d.rest
  have hover : c.Over (Lexeme.string quote name).text d := hover
  have hrest : c.rest = quote :: (name ++ quote :: d.rest) := by
    simpa [Lexeme.text] using hover.1
  exact .of_lexeme? (hrest ▸ hfirst) hover rfl

/-- No comment stands in what leads to the value of a call. -/
theorem commentFree_of_callLead (h : (row callLead).Matches c d new) : CommentFree c d := by
  have hlead : callLead = ("setAttribute".toList.map char ++ [blanks, char '(', blanks]) ++
      (.alt (quotedClass '"') (.alt (quotedClass '\'') (quotedClass '`')) ::
        [blanks, char ',', blanks]) := rfl
  rw [hlead, matches_row_append] at h
  obtain ⟨e, _, _, hfront, ⟨f, _, _, hname, hback, -⟩, -⟩ := h
  obtain ⟨front, hfront, hover⟩ := hfront.exists_mem_language
  obtain ⟨name, hname, hover'⟩ := hname.exists_mem_language
  obtain ⟨back, hback, hover''⟩ := hback.exists_mem_language
  have hclass : CommentFree e f := by
    rcases hname with hname | hname | hname
    · exact commentFree_of_quotedClass (by decide) hname hover'
    · exact commentFree_of_quotedClass (by decide) hname hover'
    · exact commentFree_of_quotedClass (by decide) hname hover'
  exact (CommentFree.of_avoids (by decide) hfront hover).trans
    (hclass.trans (.of_avoids (by decide) hback hover''))

/-- No comment stands in what leads to an assigned value. -/
theorem commentFree_of_assignedLead (h : (row assignedLead).Matches c d new) : CommentFree c d := by
  obtain ⟨part, hpart, hover⟩ := h.exists_mem_language
  exact .of_avoids (by decide) hpart hover

/-- No comment stands in what leads to the arguments of a call. -/
theorem commentFree_of_listLead (h : (row listLead).Matches c d new) : CommentFree c d := by
  obtain ⟨part, hpart, hover⟩ := h.exists_mem_language
  exact .of_avoids (by decide) hpart hover

/-- What a lead leads to is clear if what follows it always is. -/
theorem Follows.clear {lead : List Pattern} {clear : List Lexeme → Bool} {text : List Char}
    (h : Follows lead clear text) {before : List Lexeme}
    (hbefore : lexicon.Lexed (.start text) before c) (hlead : (row lead).Matches c d new)
    (hfree : CommentFree c d) :
    clear (lexicon.lexemes d.rest) = true := by
  obtain ⟨ls, hls, -⟩ := hfree
  obtain ⟨part, hpart, hover⟩ := hlead.exists_mem_language
  refine h before ls _ (hbefore.1.trans (congrArg _ hls.1)) ?_
  rwa [List.append_cancel_right (hls.2.1.symm.trans hover.1)]

theorem groups_valuePattern (mapping : Mapping) :
    (row [valuePattern mapping.keyPattern]).groups = [(1, some "main_1".toList),
      (2, some "main_2".toList), (3, some "main_3".toList)] := by
  rw [groups_eq_map_nodes]
  simp [valuePattern, quotedText, row, char, nodes, mapping.nodes_holding]

theorem consumes_valued {lead : List Pattern}
    (hlead : lead.all (fun p => p.proper && p.nodes.isEmpty) = true) (mapping : Mapping) :
    Consumes (valued lead mapping.keyPattern) := by
  refine consumes_row hlead ?_ rfl ?_ ?_
  · simp [valuePattern, quotedText, row, char, proper, mapping.proper_holding]
  · rw [Matcher.ofPattern, groups_valuePattern]
    exact (by decide : 0 ∉ [1, 2, 3])
  · rw [Matcher.ofPattern, groups_valuePattern]
    rfl

theorem consumes_listed (mapping : Mapping) : Consumes (listed mapping.keyPattern) := by
  have hgroups : (row [.group 1 (some "main".toList)
      (holding (.compl (.single ')')) mapping.keyPattern), char ')']).groups =
        [(1, some "main".toList)] := by
    rw [groups_eq_map_nodes]
    simp [row, char, nodes, mapping.nodes_holding]
  refine consumes_row (by decide) ?_ ?_ ?_ ?_
  · simp [char, proper, mapping.proper_holding]
  · simp [row, char, nullable]
  · rw [Matcher.ofPattern, hgroups]
    exact (by decide : 0 ∉ [1])
  · rw [Matcher.ofPattern, hgroups]
    rfl

theorem groups_argumentPattern (mapping : Mapping) :
    (argumentPattern mapping.keyPattern).groups = [(1, some "main_1".toList),
      (2, some "main_2".toList), (3, some "main_3".toList)] := by
  rw [groups_eq_map_nodes]
  simp [argumentPattern, choice, quotedKey, row, char, nodes, mapping.nodes_keyPattern]

end Leads

section Places

variable {mapping : Mapping} (hne : mapping ≠ []) (hkeys : mapping.Identifiers) {text : List Char}
  {before : List Lexeme} {c d : Cursor} {new : Captures}

include hne hkeys

/-- A text with a key in it has only characters of the set or of identifiers. -/
theorem notMem_of_mem_holding {s : CharSet} {x : Char} (hs : s.contains x = false)
    (hx : isIdentifierChar x = false) {part : List Char}
    (hpart : part ∈ (holding s mapping.keyPattern).language) : x ∉ part := by
  obtain ⟨front, hfront, _, hlater, rfl⟩ := mem_language_row_cons.mp hpart
  obtain ⟨key, hkey, back, hback, rfl⟩ := mem_language_row_cons.mp hlater
  have hstar : (Pattern.star (.set s)).avoids x = true := by
    simp [Pattern.star, avoids, hs]
  rw [language_row_singleton, Mapping.mem_language_keyPattern hne] at hkey
  rw [List.mem_append, List.mem_append, not_or, not_or]
  refine ⟨notMem_of_avoids hstar hfront, fun hmem => ?_, notMem_of_avoids hstar ?_⟩
  · rw [(hkeys.of_mem hkey).2 x hmem] at hx
    cases hx
  · rwa [← language_row_singleton]

theorem exists_of_mem_language_quotedText {index : Nat} {name : String} {quote : Char} {s : CharSet}
    (hs : s.contains quote = false) (hquote : isIdentifierChar quote = false) {part : List Char}
    (hpart : part ∈ (quotedText index name quote s mapping.keyPattern).language) :
    ∃ body, quote ∉ body ∧ part = (Lexeme.string quote body).text := by
  obtain ⟨_, hopen, _, ⟨body, hbody, _, ⟨_, hclose, _, rfl, rfl⟩, rfl⟩, rfl⟩ := hpart
  obtain rfl := mem_language_char.mp hopen
  obtain rfl := mem_language_char.mp hclose
  exact ⟨body, notMem_of_mem_holding hne hkeys hs hquote hbody, rfl⟩

/-- A value as it is matched is a quotation in one of the three quotes. -/
theorem exists_of_mem_language_valuePattern {part : List Char}
    (hpart : part ∈ (valuePattern mapping.keyPattern).language) :
    ∃ quote ∈ quotes, ∃ body, quote ∉ body ∧ part = (Lexeme.string quote body).text := by
  rcases hpart with hpart | hpart | hpart
  · exact ⟨'"', by decide,
      exists_of_mem_language_quotedText hne hkeys (by decide) (by decide) hpart⟩
  · exact ⟨'\'', by decide,
      exists_of_mem_language_quotedText hne hkeys (by decide) (by decide) hpart⟩
  · exact ⟨'`', by decide,
      exists_of_mem_language_quotedText hne hkeys (by decide) (by decide) hpart⟩

/-- **A lead with a clear value is free of comments.** -/
theorem commentFree_of_valued {lead : List Pattern}
    (hfree : ∀ {c d new}, (row lead).Matches c d new → CommentFree c d)
    (hfollows : Follows lead valueClear text) (hbefore : lexicon.Lexed (.start text) before c)
    (h : (valued lead mapping.keyPattern).Matches c d new) : CommentFree c d := by
  rw [valued, matches_row_append] at h
  obtain ⟨e, _, _, hlead, hvalue, -⟩ := h
  obtain ⟨part, hpart, hover⟩ := hvalue.exists_mem_language
  rw [language_row_singleton] at hpart
  obtain ⟨quote, hquote, body, hbody, rfl⟩ := exists_of_mem_language_valuePattern hne hkeys hpart
  have hclear := hfollows.clear hbefore hlead (hfree hlead)
  exact (hfree hlead).trans (commentFree_of_valueClear hquote hbody hover hclear)

/-- **What is found in a clear value is in no comment**, whatever is looked for. -/
theorem not_inComment_of_valued {lead : List Pattern}
    (hlead : lead.all (fun p => p.proper && p.nodes.isEmpty) = true)
    (hfree : ∀ {c d new}, (row lead).Matches c d new → CommentFree c d)
    (hfollows : Follows lead valueClear text) {region s : Span} {part : List Char}
    (hregion : region ∈ (matcher (valued lead mapping.keyPattern)).captureSpans text)
    (hpart : region.slice? text = some part) {inner : Matcher} (hinner : inner.Compiled)
    (hs : s ∈ inner.captureSpans part) : ¬ InComment text (s.shift region.start) := by
  obtain ⟨hstart, hstop⟩ := shift_inside hinner hpart hs
  exact (consumes_valued hlead mapping).not_inComment
    (commentFree_of_valued hne hkeys hfree hfollows) hregion hstart hstop

/-- **A call with clear arguments** is read as whole lexemes, and the comments among its arguments
have no quotes. -/
theorem exists_lexed_of_listed (hfollows : Follows listLead argumentsClear text)
    (hbefore : lexicon.Lexed (.start text) before c)
    (h : (listed mapping.keyPattern).Matches c d new) :
    ∃ e f opening ls, lexicon.Lexed c opening e ∧ lexicon.Lexed e ls f ∧
      (∀ l ∈ ls, unquoted l = true) ∧ lexicon.Lexed f [.char ')'] d ∧
      new = [(1, ⟨e.offset, f.offset⟩)] := by
  have hlexical : (holding (.compl (.single ')')) mapping.keyPattern).lexical = true :=
    mapping.lexical_holding _
  obtain ⟨e, f, ⟨lead, hlead, hover⟩, ⟨part, hpart, hover'⟩, ⟨close, hclose, hover''⟩, rfl⟩ :=
    (matches_row_group (List.all_eq_true.mp (by decide)) hlexical
      (List.all_eq_true.mp (by decide))).mp h
  have hmatches : (row listLead).Matches c e [] :=
    (matches_iff_mem_language (lexical_row (List.all_eq_true.mp (by decide)))).mpr
      ⟨rfl, lead, hlead, hover⟩
  rw [language_row_singleton, mem_language_char] at hclose
  subst hclose
  have hnot : ')' ∉ part := notMem_of_mem_holding hne hkeys (by decide) (by decide) hpart
  have hfree := commentFree_of_listLead hmatches
  obtain ⟨ls, hls, hunquoted⟩ := exists_lexed_of_argumentsClear hnot hover' hover''
    (hfollows.clear hbefore hmatches hfree)
  obtain ⟨opening, hopening, -⟩ := hfree
  exact ⟨e, f, opening, ls, hopening, hls, hunquoted,
    .of_isInert (List.all_eq_true.mp (by decide)) hover'', rfl⟩

theorem matches_quotedKey {index : Nat} {name : String} {quote : Char}
    (h : (quotedKey index name quote mapping.keyPattern).Matches c d new) :
    ∃ e f key, c.Over [quote] e ∧ (∀ x ∈ key, isIdentifierChar x = true) ∧ e.Over key f ∧
      new = [(index, ⟨e.offset, f.offset⟩)] := by
  obtain ⟨e, f, ⟨opening, hopening, hover⟩, ⟨key, hkey, hover'⟩, -, rfl⟩ :=
    (matches_row_group (List.forall_mem_singleton.mpr rfl) Tokens.lexical_keys
      (List.forall_mem_singleton.mpr rfl)).mp h
  rw [language_row_singleton, mem_language_char] at hopening
  subst hopening
  rw [language_row_singleton, Mapping.mem_language_keyPattern hne] at hkey
  exact ⟨e, f, key, hover, (hkeys.of_mem hkey).2, hover', rfl⟩

/-- An argument as it is matched is a key between two quotes, which alone is captured. -/
theorem matches_argumentPattern (h : (argumentPattern mapping.keyPattern).Matches c d new) :
    ∃ quote ∈ quotes, ∃ e f key index, c.Over [quote] e ∧ (∀ x ∈ key, isIdentifierChar x = true) ∧
      e.Over key f ∧ new = [(index, ⟨e.offset, f.offset⟩)] := by
  obtain ⟨_, _, _, hchoice, ⟨rfl, rfl⟩, rfl⟩ := h
  obtain ⟨branch, hbranch, hmatches⟩ := matches_choice hchoice
  have hquoted : ∃ quote ∈ quotes, ∃ index name,
      branch = quotedKey index name quote mapping.keyPattern := by
    simp only [List.mem_cons, List.not_mem_nil, or_false] at hbranch
    rcases hbranch with rfl | rfl | rfl
    · exact ⟨'`', by decide, 3, "main_3", rfl⟩
    · exact ⟨'\'', by decide, 2, "main_2", rfl⟩
    · exact ⟨'"', by decide, 1, "main_1", rfl⟩
  obtain ⟨quote, hquote, index, name, rfl⟩ := hquoted
  obtain ⟨e, f, key, hopen, hkey, hover, rfl⟩ := matches_quotedKey hne hkeys hmatches
  exact ⟨quote, hquote, e, f, key, index, hopen, hkey, hover, rfl⟩

/-- A key that is captured in arguments stands behind a quote. -/
theorem exists_quote_of_mem_captureSpans {part : List Char} {s : Span}
    (hs : s ∈ (Matcher.ofPattern "main".toList
      (argumentPattern mapping.keyPattern)).captureSpans part) :
    ∃ quote ∈ quotes, ∃ front key back, part = front ++ quote :: (key ++ back) ∧
      (∀ x ∈ key, isIdentifierChar x = true) ∧
      s = ⟨byteSize (front ++ [quote]), byteSize (front ++ [quote]) + byteSize key⟩ := by
  rw [Matcher.captureSpans_eq] at hs
  obtain ⟨⟨found, offset⟩, hmem, hcapture⟩ := List.mem_filterMap.mp hs
  obtain ⟨⟨c, d, ⟨front, hc⟩, hmatches, -⟩, -, -⟩ := Matcher.walk_visited rfl hmem
  rcases Matcher.firstGroup?_mem hcapture with ⟨hzero, -⟩ | ⟨index, -, hindex⟩
  · rw [Matcher.ofPattern, groups_argumentPattern] at hzero
    exact absurd hzero (by decide : 0 ∉ [1, 2, 3])
  obtain ⟨quote, hquote, e, f, key, _, hopen, hkey, hover, hnew⟩ :=
    matches_argumentPattern hne hkeys hmatches
  rw [hnew] at hindex
  obtain ⟨-, rfl⟩ := Prod.mk.inj (List.mem_singleton.mp hindex)
  have hstart : e.offset = byteSize (front ++ [quote]) := by
    simpa [Cursor.start] using (hc.trans hopen).2.1
  refine ⟨quote, hquote, front, key, f.rest, ?_, hkey, ?_⟩
  · rw [← hover.1, ← List.singleton_append, ← hopen.1]
    exact hc.1
  · rw [hover.2.1, hstart]

/-- **What is found in clear arguments is in no comment.** -/
theorem not_inComment_of_listed (hfollows : Follows listLead argumentsClear text) {region s : Span}
    {part : List Char} (hregion : region ∈ (matcher (listed mapping.keyPattern)).captureSpans text)
    (hpart : region.slice? text = some part)
    (hs : s ∈ (Matcher.ofPattern "main".toList
      (argumentPattern mapping.keyPattern)).captureSpans part) :
    ¬ InComment text (s.shift region.start) := by
  have hinside := shift_inside (Matcher.compiled_ofPattern _ _) hpart hs
  obtain ⟨before, c, d, new, index, hbefore, hmatches, hindex⟩ :=
    (consumes_listed mapping).exists_matches_of_mem_captureSpans (fun hbefore hmatches => by
      obtain ⟨e, f, opening, ls, hopening, hls, -, hclose, -⟩ :=
        exists_lexed_of_listed hne hkeys hfollows hbefore hmatches
      exact ⟨_, hopening.trans (hls.trans hclose)⟩) hregion
  obtain ⟨e, f, opening, ls, hopening, hls, hunquoted, -, rfl⟩ :=
    exists_lexed_of_listed hne hkeys hfollows hbefore hmatches
  obtain ⟨-, rfl⟩ := Prod.mk.inj (List.mem_singleton.mp hindex)
  have hlead := hbefore.trans hopening
  obtain rfl : ls.flatMap Lexeme.text = part :=
    Option.some.inj ((hls.2.slice? ⟨_, hlead.2⟩).symm.trans hpart)
  obtain ⟨quote, hquote, front, key, back, htext, hkey, rfl⟩ :=
    exists_quote_of_mem_captureSpans hne hkeys hs
  intro hcomment
  obtain ⟨ls', comment, after, rfl, hbegin, hend⟩ :=
    hcomment.exists_comment hlead hls hinside.1 hinside.2
  have hmem : .comment comment ∈ lexicon.lexemes e.rest := by
    simp [hls.1]
  obtain ⟨later, rfl⟩ := exists_slash_of_comment_mem hmem
  have hnot : quote ∉ '/' :: later := by
    have hall := hunquoted (.comment ('/' :: later)) (by simp)
    simp only [unquoted, Lexeme.isComment, Lexeme.text, Bool.not_true, Bool.false_or,
      List.all_eq_true, Bool.not_eq_true', List.contains_eq_mem, decide_eq_false_iff_not] at hall
    exact hall quote hquote
  have hslash : '/' ∉ key := by
    intro hslash
    have hidentifier := hkey '/' hslash
    cases hidentifier
  rw [List.flatMap_append, List.flatMap_cons] at htext
  rcases outside_of_notMem htext.symm hnot hslash with hfront | hback
  · simp only [Span.shift] at hbegin hend
    omega
  · simp only [Span.shift] at hbegin hend
    omega

end Places

/-- **Classes are changed outside of comments** where what leads to them is followed by a literal
without its own quote inside, or by arguments that are delimited as they are read. -/
theorem classes_changed_outside_comments {mapping : Mapping} {text : String} (hne : mapping ≠ [])
    (hkeys : mapping.Identifiers) : ∃ call list assigned,
      multiValueAttributes ⟨["class"]⟩ = .ok [call, list, assigned] ∧
      (Follows callLead valueClear text.toList → KeepsComments call mapping text) ∧
      (Follows listLead argumentsClear text.toList → KeepsComments list mapping text) ∧
      (Follows assignedLead valueClear text.toList → KeepsComments assigned mapping text) := by
  obtain ⟨call, list, assigned, hall, hcall, hlist, hassigned⟩ := exists_classExpressions
  have hplain : Options.Plain (.multiValueAttributes ⟨["class"]⟩) :=
    List.forall_mem_singleton.mpr rfl
  have hregular := Grammar.js.expressions_ensures hplain _ hall
  refine ⟨call, list, assigned, hall, fun hfollows => ?_, fun hfollows => ?_, fun hfollows => ?_⟩
  · exact keepsComments_of_spells hcall (hregular call (by simp)) hne
      fun _ hregion _ hpart _ hs => not_inComment_of_valued hne hkeys (by decide)
        commentFree_of_callLead hfollows hregion hpart (Matcher.compiled_ofPattern _ _) hs
  · exact keepsComments_of_spells hlist (hregular list (by simp)) hne
      fun _ hregion _ hpart _ hs => not_inComment_of_listed hne hkeys hfollows hregion hpart hs
  · exact keepsComments_of_spells hassigned (hregular assigned (by simp)) hne
      fun _ hregion _ hpart _ hs => not_inComment_of_valued hne hkeys (by decide)
        commentFree_of_assignedLead hfollows hregion hpart (Matcher.compiled_ofPattern _ _) hs

/-- What follows a lead is clear if all is that follows a text with the end of a lead. -/
theorem follows_of_ends {lead : List Pattern} {clear : List Lexeme → Bool} {text : List Char}
    {ls : List Lexeme} (htext : lexicon.lexemes text = ls) (ends : List Char → Bool)
    (hlead : ∀ front, ∀ part ∈ (row lead).language, ends (front ++ part) = true)
    (hclear : ∀ n ≤ ls.length, ends ((ls.take n).flatMap Lexeme.text) = true →
      clear (ls.drop n) = true) : Follows lead clear text := by
  rintro before opening rest hlexemes hopening
  obtain rfl : ls = (before ++ opening) ++ rest := by
    rw [← htext, hlexemes, List.append_assoc]
  have hlast := hclear (before ++ opening).length (by simp)
  rw [List.take_left, List.drop_left, List.flatMap_append] at hlast
  exact hlast (hlead _ _ hopening)

theorem getLast?_listLead {part : List Char} (h : part ∈ (row listLead).language) :
    part.getLast? = some '(' := by
  have hlead : listLead = listLead.dropLast ++ [char '('] := rfl
  rw [hlead, language_row_append] at h
  obtain ⟨front, -, close, hclose, rfl⟩ := h
  obtain rfl := mem_language_char.mp (language_row_singleton (char '(') ▸ hclose)
  simp

theorem classes_changed_beside_comments :
    let text := "e.className='k';e.classList.add(\"k\"/*k*/)//.className='k'"
    Follows callLead valueClear text.toList ∧ Follows listLead argumentsClear text.toList ∧
    Follows assignedLead valueClear text.toList ∧ ∃ call list assigned,
      multiValueAttributes ⟨["class"]⟩ = .ok [call, list, assigned] ∧
      KeepsComments call [("k", "v")] text ∧ KeepsComments list [("k", "v")] text ∧
      KeepsComments assigned [("k", "v")] text := by
  intro text
  have htext : lexicon.lexemes text.toList =
      "e.className=".toList.map .char ++ .string '\'' ['k'] ::
      (";e.classList.add(".toList.map .char ++ [.string '"' ['k'], .comment "/*k*/".toList,
        .char ')', .comment "//.className='k'".toList]) := by
    decide +kernel
  have hvalue : ∀ lead, Follows lead valueClear text.toList := fun lead =>
    follows_of_ends htext (fun _ => true) (fun _ _ _ => rfl) (by decide)
  have hlist : Follows listLead argumentsClear text.toList := by
    refine follows_of_ends htext (fun part => part.getLast? == some '(') ?_ (by decide)
    intro front part hpart
    simp [List.getLast?_append, getLast?_listLead hpart]
  obtain ⟨call, list, assigned, hall, hcall, hlist', hassigned⟩ :=
    @classes_changed_outside_comments [("k", "v")] text (by decide) (by decide)
  exact ⟨hvalue _, hlist, hvalue _, call, list, assigned, hall, hcall (hvalue _), hlist' hlist,
    hassigned (hvalue _)⟩

/-- The arguments of a call are taken with the comments among them. -/
theorem captureSpans_listed_k : (matcher (listed (Mapping.keyPattern [("k", "v")]))).captureSpans
    "e.classList.add(/*\"k\"*/)".toList = [⟨16, 23⟩] := by
  have hconsumes := consumes_listed [("k", "v")]
  rw [hconsumes.advances.captureSpans_eq_trace hconsumes.proper_choice rfl, matcher,
    Mapping.keyPattern_singleton]
  decide +kernel

theorem captureSpans_argument_k : (Matcher.ofPattern "main".toList
    (argumentPattern (Mapping.keyPattern [("k", "v")]))).captureSpans "/*\"k\"*/".toList =
      [⟨3, 4⟩] := by
  have hahead : (Matcher.ofPattern "main".toList
      (argumentPattern (Mapping.keyPattern [("k", "v")]))).ahead = [] := by
    rw [Matcher.ofPattern, groups_argumentPattern]
    rfl
  rw [Mapping.keyPattern_singleton] at hahead ⊢
  rw [(Matcher.advances_of_ahead rfl hahead).captureSpans_eq_trace rfl rfl]
  decide +kernel

/-- A class that stands quoted in a comment among the arguments of a call is changed there. -/
theorem class_changed_in_comment : ∃ call list assigned,
    multiValueAttributes ⟨["class"]⟩ = .ok [call, list, assigned] ∧
    lexicon.lexemes "e.classList.add(/*\"k\"*/)".toList =
      "e.classList.add(".toList.map .char ++ [.comment "/*\"k\"*/".toList, .char ')'] ∧
    (list.replaceAll "e.classList.add(/*\"k\"*/)" [("k", "v")]).outcome =
      .ok (some "e.classList.add(/*\"v\"*/)") := by
  obtain ⟨call, list, assigned, hall, -, hlist, -⟩ := exists_classExpressions
  have hplain : Options.Plain (.multiValueAttributes ⟨["class"]⟩) :=
    List.forall_mem_singleton.mpr rfl
  have hregular : list.Regular := Grammar.js.expressions_ensures hplain _ hall list (by simp)
  refine ⟨call, list, assigned, hall, by decide +kernel, ?_⟩
  have hregion : (⟨16, 23⟩ : Span).slice? "e.classList.add(/*\"k\"*/)".toList =
      some "/*\"k\"*/".toList := by
    decide
  have hkey : (⟨19, 20⟩ : Span).slice? "e.classList.add(/*\"k\"*/)".toList = some ['k'] := by
    decide
  have hfound : Matcher.occurrences [matcher (listed (Mapping.keyPattern [("k", "v")])),
      .ofPattern "main".toList (argumentPattern (Mapping.keyPattern [("k", "v")]))]
      "e.classList.add(/*\"k\"*/)".toList = [⟨19, 20⟩] := by
    rw [Matcher.occurrences_eq (by simp [matcher, Matcher.compiled_ofPattern]), Matcher.spansWithin,
      captureSpans_listed_k, List.flatMap_singleton, Span.within_eq hregion,
      Matcher.spansWithin_singleton (Matcher.compiled_ofPattern _ _), captureSpans_argument_k]
    rfl
  have hedits : [⟨19, 20⟩].filterMap ((Lookup.ofMapping [("k", "v")] true).edit?
      "e.classList.add(/*\"k\"*/)".toList) = [⟨⟨19, 20⟩, ['v']⟩] := by
    rw [List.filterMap_cons, Lookup.edit?_of_slice? hkey]
    rfl
  have hpatched : Patched 0 "e.classList.add(/*\"k\"*/)".toList [⟨⟨19, 20⟩, ['v']⟩]
      "e.classList.add(/*\"v\"*/)".toList :=
    @Patched.edit 0 "e.classList.add(/*\"".toList ['k'] "\"*/)".toList _ [] ['v'] (.kept _ _)
  exact hlist.outcome_replaceAll hregular (by decide) hfound hedits hpatched

end Relabel.Js
