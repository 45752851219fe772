import Relabel.Pattern.Choice
import Relabel.Unicode.Alphabetic
import Relabel.Unicode.Numeric

/-!
# Reading patterns

The written form of a pattern is read one character at a time. The state of the reader holds the
groups and bracketed classes that are open and, as its mode, what the next character continues: an
escape, a repetition count, the header of a group and so on. Reading two texts one after the other
is reading their concatenation, so what a stretch of text does to the reader can be said on its own.

Where blanks are ignored, a character that is read in most modes is passed over if it is white space
or in a comment (`Reader.readBlank`); every other character is read as it would be elsewhere.

Some of what may be written in patterns is left out, and a text that uses it is not read: classes by
Unicode property (`\p` and `\P`) and the setting that confines a pattern to ASCII (`-u`). There is
no limit to the size of a pattern or to how deep its groups are nested.
-/

namespace Relabel.Pattern

/-- The settings a pattern is read under. -/
structure Flags where
  ignoreCase : Bool
  dotAll : Bool
  multiLine : Bool
  ignoreBlanks : Bool
  swapGreed : Bool
  carriageReturns : Bool
deriving DecidableEq, Repr

/-- The settings that hold until a pattern changes them. -/
def Flags.initial (ignoreCase : Bool) : Flags :=
  ⟨ignoreCase, false, false, false, false, false⟩

/-- What becomes of the body of a group. -/
inductive GroupKind where
  | plain
  | capture (index : Nat) (name : Option (List Char))
deriving DecidableEq, Repr

/-- An open group: its settings, its finished branches and the items of its current branch, both
latest first, and whether a repetition operator may come next. -/
structure Level where
  kind : GroupKind
  flags : Flags
  branches : List Pattern
  items : List Pattern
  repeatable : Bool

namespace Level

/-- A group without any item yet. -/
def start (kind : GroupKind) (flags : Flags) : Level :=
  ⟨kind, flags, [], [], false⟩

def push (level : Level) (item : Pattern) : Level :=
  { level with items := item :: level.items, repeatable := true }

def branch (level : Level) : Level :=
  { level with
    branches := ofItems level.items :: level.branches, items := [], repeatable := false }

def repeatLast (level : Level) (min : Nat) (max : Option Nat) (greedy : Bool) : Option Level :=
  match level.items with
  | last :: earlier => some { level with items := times min max greedy last :: earlier }
  | [] => none

def body (level : Level) : Pattern :=
  ofBranches (ofItems level.items) level.branches

/-- The pattern a closed group stands for. -/
def pattern (level : Level) : Pattern :=
  match level.kind with
  | .plain => level.body
  | .capture index name => .group index name level.body

end Level

/-- The operators between the parts of a bracketed class. -/
inductive SetOp where
  | inter
  | diff
  | symmDiff

/-- An open bracketed class: whether it is negated, what stands in front of its last operator, the
members read since, and how it is spelled from there on, latest character first. -/
structure SetLevel where
  negated : Bool
  left : Option (CharSet × SetOp)
  members : CharSet
  spelling : List Char

namespace SetLevel

/-- A class of which only the opening bracket has been read. -/
def start : SetLevel :=
  ⟨false, none, .empty, []⟩

def add (level : SetLevel) (s : CharSet) : SetLevel :=
  { level with members := level.members.add s }

/-- The set written so far. Operators associate to the left; under `ignoreCase` both operands are
closed under case variants first. -/
def written (ignoreCase : Bool) (level : SetLevel) : CharSet :=
  match level.left with
  | none => level.members
  | some (left, op) =>
    let left := left.folded ignoreCase
    let right := level.members.folded ignoreCase
    match op with
    | .inter => .inter left right
    | .diff => .diff left right
    | .symmDiff => .symmDiff left right

def operator (ignoreCase : Bool) (level : SetLevel) (op : SetOp) : SetLevel :=
  { level with left := some (level.written ignoreCase, op), members := .empty }

def finished (ignoreCase : Bool) (level : SetLevel) : CharSet :=
  ((level.written ignoreCase).folded ignoreCase).negatedIf level.negated

/-- The ASCII class a nested class stands for if it is spelled as `[:name:]` or `[:^name:]`. -/
def ascii? (ignoreCase : Bool) (level : SetLevel) : Option CharSet :=
  match level.spelling with
  | ']' :: ':' :: letters =>
    match letters.reverse with
    | ':' :: '^' :: name =>
      (CharSet.ascii? name).map fun s => (s.folded ignoreCase).negatedIf true
    | ':' :: name => (CharSet.ascii? name).map fun s => s.folded ignoreCase
    | _ => none
  | _ => none

end SetLevel

/-- What an escape sequence denotes. -/
inductive Atom where
  | char (c : Char)
  | set (s : CharSet)
  | look (l : Look)
deriving DecidableEq, Repr

/-- Where an escape sequence stands. -/
inductive Place where
  | sequence
  | member
  | rangeEnd (first : Char)
deriving DecidableEq, Repr

/-- What is known, behind a member and a dash, of the character that tells whether the two begin a
range, where blanks are ignored. -/
inductive Glimpse where
  /-- Nothing but white space has been read. -/
  | blanks
  /-- A comment has begun, and nothing but white space has been read since. -/
  | comment
  /-- It has been read, perhaps in a comment, and says whether there is a range. -/
  | told (range : Bool)
deriving DecidableEq, Repr

/-- What is known after one more character. A closing bracket or another dash tells that there is no
range. -/
def Glimpse.next (glimpse : Glimpse) (c : Char) : Glimpse :=
  match glimpse with
  | .told range => .told range
  | .blanks =>
    if Unicode.isSpace c then .blanks else if c = '#' then .comment else .told (c != ']' && c != '-')
  | .comment => if Unicode.isSpace c then .comment else .told (c != ']' && c != '-')

/-- What the next character of a bracketed class continues. -/
inductive SetMode where
  /-- Only the opening bracket has been read. -/
  | opened
  /-- No member has been read. -/
  | leading
  /-- Only literal dashes have been read. -/
  | leadingDashes
  /-- A member may begin. -/
  | member
  /-- A character has been read that is an operator if it stands twice. -/
  | doubled (c : Char)
  /-- A member has been read that may begin a range. -/
  | after (atom : Atom)
  /-- A member and a dash have been read. -/
  | dash (atom : Atom)
  /-- A member, a dash and blanks have been read. -/
  | apart (atom : Atom) (glimpse : Glimpse)

/-- What a blank that is passed over makes of the mode: a character in front of it does not stand
twice, and a dash stands apart from what comes next. -/
def SetMode.spaced (mode : SetMode) (c : Char) : SetMode :=
  match mode with
  | .doubled first => .after (.char first)
  | .dash atom => .apart atom (Glimpse.blanks.next c)
  | .apart atom glimpse => .apart atom (glimpse.next c)
  | mode => mode

/-- The settings in the header of a group: those named so far with the value they are given, latest
first, whether the dash has been read, and whether it was read last. -/
structure FlagList where
  named : List (Char × Bool)
  negated : Bool
  dangling : Bool

/-- What the next character continues. -/
inductive Mode where
  /-- An item may begin. -/
  | item
  /-- A repetition operator has been read; a question mark makes it lazy, also behind blanks if the
  operator was a count. -/
  | repetition (min : Nat) (max : Option Nat) (counted : Bool)
  /-- After a backslash. -/
  | escape (place : Place)
  /-- After `\x`, `\u` or `\U`, which take that many digits unless a brace follows. -/
  | hexStart (place : Place) (digits : Nat)
  /-- Some hexadecimal digits, with that many to come. -/
  | hexDigits (place : Place) (missing : Nat) (value : Nat)
  /-- Hexadecimal digits after a brace. -/
  | hexBrace (place : Place) (value : Option Nat)
  /-- After `\b`. -/
  | boundary
  /-- After `\b` and an opening brace. -/
  | boundaryBrace
  /-- After `\b`, an opening brace and some letters, latest first. -/
  | boundaryName (letters : List Char)
  /-- After `(`. -/
  | groupOpen
  /-- After `(?`. -/
  | groupHeader
  /-- After `(?P`. -/
  | groupP
  /-- After `(?<`. -/
  | groupAngle
  /-- The name of a group, latest character first. -/
  | groupName (letters : List Char)
  /-- The settings in the header of a group. -/
  | flags (list : FlagList)
  /-- The least number of copies, and whether a blank has ended it. -/
  | countMin (value : Option Nat) (ended : Bool)
  /-- After the comma of a repetition count. -/
  | countComma (min : Nat)
  /-- The greatest number of copies, and whether a blank has ended it. -/
  | countMax (min : Nat) (value : Option Nat) (ended : Bool)
  /-- A bracketed class. -/
  | set (mode : SetMode)
  /-- A comment, behind which reading goes on in the mode in which it began. -/
  | comment (back : Mode)

namespace Mode

/-- Whether a mode is that of a comment. -/
def inComment : Mode → Bool
  | .comment _ => true
  | _ => false

/-- The mode in which a comment began, or else the mode itself. -/
def uncommented : Mode → Mode
  | .comment back => back
  | mode => mode

/-- What a character of a comment makes of the mode in which the comment began. -/
def glance (mode : Mode) (c : Char) : Mode :=
  match mode with
  | .set (.apart atom glimpse) => .set (.apart atom (glimpse.next c))
  | mode => mode

end Mode

/-- The state of the reader: the enclosing groups and the innermost one, the open bracketed classes,
innermost first, the mode, and the number and the names of the groups opened so far. -/
structure Reader where
  outer : List Level
  level : Level
  sets : List SetLevel
  mode : Mode
  groupCount : Nat
  names : List (List Char)

/-- The largest number of copies that can be asked for. -/
def maxCount : Nat :=
  4294967295

def isAsciiDigit (c : Char) : Bool :=
  '0' ≤ c && c ≤ '9'

def isAsciiLetter (c : Char) : Bool :=
  ('a' ≤ c && c ≤ 'z') || ('A' ≤ c && c ≤ 'Z')

def hexValue? (c : Char) : Option Nat :=
  if isAsciiDigit c then some (c.toNat - 48)
  else if 'a' ≤ c && c ≤ 'f' then some (c.toNat - 87)
  else if 'A' ≤ c && c ≤ 'F' then some (c.toNat - 55)
  else none

def charOfCode? (code : Nat) : Option Char :=
  if code.isValidChar then some (Char.ofNat code) else none

def isNameChar (first : Bool) (c : Char) : Bool :=
  c == '_' || Unicode.isAlphabetic c ||
    (!first && (c == '.' || c == '[' || c == ']' || Unicode.isNumeric c))

def literal (flags : Flags) (c : Char) : Pattern :=
  .set ((CharSet.single c).folded flags.ignoreCase)

def dot (flags : Flags) : Pattern :=
  .set (if flags.dotAll then .all
    else if flags.carriageReturns then .compl (.union (.single '\n') (.single '\r'))
    else .compl (.single '\n'))

def caret (flags : Flags) : Look :=
  if flags.multiLine then if flags.carriageReturns then .anyLineStart else .lineStart
  else .textStart

def dollar (flags : Flags) : Look :=
  if flags.multiLine then if flags.carriageReturns then .anyLineEnd else .lineEnd else .textEnd

/-- What an escaped character denotes on its own. Escapes that take more characters are not among
them, and neither are letters and digits without a meaning. -/
def escaped? (c : Char) : Option Atom :=
  match c with
  | 'd' => some (.set .decimal)
  | 'D' => some (.set (.compl .decimal))
  | 's' => some (.set .space)
  | 'S' => some (.set (.compl .space))
  | 'w' => some (.set .word)
  | 'W' => some (.set (.compl .word))
  | 'a' => some (.char '\x07')
  | 'f' => some (.char '\x0c')
  | 't' => some (.char '\t')
  | 'n' => some (.char '\n')
  | 'r' => some (.char '\r')
  | 'v' => some (.char '\x0b')
  | 'A' => some (.look .textStart)
  | 'z' => some (.look .textEnd)
  | 'B' => some (.look .notWordBoundary)
  | '<' => some (.look .wordStart)
  | '>' => some (.look .wordEnd)
  | c => if c.toNat < 128 && !isAsciiLetter c && !isAsciiDigit c then some (.char c) else none

def boundaryKind? : List Char → Option Look
  | ['s', 't', 'a', 'r', 't'] => some .wordStart
  | ['e', 'n', 'd'] => some .wordEnd
  | ['s', 't', 'a', 'r', 't', '-', 'h', 'a', 'l', 'f'] => some .notAfterWord
  | ['e', 'n', 'd', '-', 'h', 'a', 'l', 'f'] => some .notBeforeWord
  | _ => none

/-- Whether a character names a setting that can be given a value. -/
def isFlag (value : Bool) (c : Char) : Bool :=
  ['i', 's', 'm', 'x', 'U', 'R'].contains c || (value && c == 'u')

def Flags.set (flags : Flags) (name : Char) (value : Bool) : Flags :=
  match name with
  | 'i' => { flags with ignoreCase := value }
  | 's' => { flags with dotAll := value }
  | 'm' => { flags with multiLine := value }
  | 'x' => { flags with ignoreBlanks := value }
  | 'U' => { flags with swapGreed := value }
  | 'R' => { flags with carriageReturns := value }
  | _ => flags

/-- Applies the settings named in the header of a group. -/
def FlagList.apply (list : FlagList) (flags : Flags) : Flags :=
  list.named.foldl (fun flags named => flags.set named.1 named.2) flags

/-- Whether a character is passed over where blanks are ignored. A number sign begins a comment. -/
def isBlank (c : Char) : Bool :=
  Unicode.isSpace c || c == '#'

namespace Reader

/-- The reader before the first character. -/
def start (ignoreCase : Bool) : Reader :=
  ⟨[], .start .plain (.initial ignoreCase), [], .item, 0, []⟩

def goto (r : Reader) (mode : Mode) : Reader :=
  { r with mode }

def push (r : Reader) (item : Pattern) : Reader :=
  { r with level := r.level.push item, mode := .item }

def repeatLast (r : Reader) (min : Nat) (max : Option Nat) (greedy : Bool) : Option Reader :=
  (r.level.repeatLast min max (greedy != r.level.flags.swapGreed)).map fun level =>
    { r with level, mode := .item }

def openGroup (r : Reader) (kind : GroupKind) (flags : Flags) : Reader :=
  { r with outer := r.level :: r.outer, level := .start kind flags, mode := .item }

/-- Opens a group that records what it matches. -/
def openCapture (r : Reader) (name : Option (List Char)) : Reader :=
  let r := r.openGroup (.capture (r.groupCount + 1) name) r.level.flags
  { r with groupCount := r.groupCount + 1, names := name.toList ++ r.names }

def closeGroup (r : Reader) : Option Reader :=
  match r.outer with
  | parent :: outer =>
    some { r with outer, level := parent.push r.level.pattern, mode := .item }
  | [] => none

def mapSet (r : Reader) (f : SetLevel → SetLevel) : Reader :=
  match r.sets with
  | top :: sets => { r with sets := f top :: sets }
  | [] => r

def addSet (r : Reader) (s : CharSet) : Reader :=
  r.mapSet fun level => level.add s

/-- Adds what an escape or a plain character denotes to the innermost bracketed class. -/
def addAtom (r : Reader) (atom : Atom) : Option Reader :=
  match atom with
  | .char c => some (r.addSet (.single c))
  | .set s => some (r.addSet s)
  | .look _ => none

def addRange (r : Reader) (first last : Char) : Option Reader :=
  if first ≤ last then some ((r.addSet (.range first last)).goto (.set .member)) else none

def setOperator (r : Reader) (op : SetOp) : Reader :=
  (r.mapSet fun level => level.operator r.level.flags.ignoreCase op).goto (.set .member)

def closeSet (r : Reader) : Option Reader :=
  let ignoreCase := r.level.flags.ignoreCase
  match r.sets with
  | [] => none
  | [top] => some ({ r with sets := [] }.push (.set (top.finished ignoreCase)))
  | top :: parent :: sets =>
    let s := (top.ascii? ignoreCase).getD (top.finished ignoreCase)
    some { r with sets := parent.add s :: sets, mode := .set .member }

/-- Puts what an escape denotes where the escape stands. -/
def deliver (r : Reader) (place : Place) (atom : Atom) : Option Reader :=
  match place, atom with
  | .sequence, .char c => some (r.push (literal r.level.flags c))
  | .sequence, .set s => some (r.push (.set s))
  | .sequence, .look l => some (r.push (.look l))
  | .member, .look _ => none
  | .member, atom => some (r.goto (.set (.after atom)))
  | .rangeEnd first, .char last => r.addRange first last
  | .rangeEnd _, _ => none

/-- Puts the character of a hexadecimal escape where the escape stands. -/
def deliverCode (r : Reader) (place : Place) (code : Nat) : Option Reader :=
  match charOfCode? code with
  | some c => r.deliver place (.char c)
  | none => none

def readItem (r : Reader) (c : Char) : Option Reader :=
  match c with
  | '(' => some (r.goto .groupOpen)
  | ')' => r.closeGroup
  | '|' => some { r with level := r.level.branch }
  | '[' => some { r with sets := [.start], mode := .set .opened }
  | '?' => if r.level.repeatable then some (r.goto (.repetition 0 (some 1) false)) else none
  | '*' => if r.level.repeatable then some (r.goto (.repetition 0 none false)) else none
  | '+' => if r.level.repeatable then some (r.goto (.repetition 1 none false)) else none
  | '{' => if r.level.repeatable then some (r.goto (.countMin none false)) else none
  | '\\' => some (r.goto (.escape .sequence))
  | '.' => some (r.push (dot r.level.flags))
  | '^' => some (r.push (.look (caret r.level.flags)))
  | '$' => some (r.push (.look (dollar r.level.flags)))
  | c => some (r.push (literal r.level.flags c))

def readEscape (r : Reader) (place : Place) (c : Char) : Option Reader :=
  match c with
  | 'x' => some (r.goto (.hexStart place 2))
  | 'u' => some (r.goto (.hexStart place 4))
  | 'U' => some (r.goto (.hexStart place 8))
  | 'b' => if place = .sequence then some (r.goto .boundary) else none
  | c =>
    match escaped? c with
    | some atom => r.deliver place atom
    | none => none

/-- Reads a hexadecimal digit, of which `missing` are to come. -/
def readHexDigit (r : Reader) (place : Place) (missing value : Nat) (c : Char) :
    Option Reader :=
  match hexValue? c with
  | some digit =>
    let value := value * 16 + digit
    if missing ≤ 1 then r.deliverCode place value
    else some (r.goto (.hexDigits place (missing - 1) value))
  | none => none

def readHexBrace (r : Reader) (place : Place) (value : Option Nat) (c : Char) :
    Option Reader :=
  if c = '}' then
    match value with
    | some code => r.deliverCode place code
    | none => none
  else
    match hexValue? c with
    | some digit => some (r.goto (.hexBrace place (some (value.getD 0 * 16 + digit))))
    | none => none

def endCount (r : Reader) (min : Nat) (max : Option Nat) : Option Reader :=
  if min ≤ maxCount ∧ max.getD min ≤ maxCount ∧ min ≤ max.getD min then
    some (r.goto (.repetition min max true))
  else none

def readCountMin (r : Reader) (value : Option Nat) (ended : Bool) (c : Char) :
    Option Reader :=
  if isAsciiDigit c then
    if ended then none
    else some (r.goto (.countMin (some (value.getD 0 * 10 + (c.toNat - 48))) false))
  else if Unicode.isSpace c then some (r.goto (.countMin value value.isSome))
  else
    match c, value with
    | ',', some min => some (r.goto (.countComma min))
    | '}', some min => r.endCount min (some min)
    | _, _ => none

def readCountMax (r : Reader) (min : Nat) (value : Option Nat) (ended : Bool) (c : Char) :
    Option Reader :=
  if isAsciiDigit c then
    if ended then none
    else some (r.goto (.countMax min (some (value.getD 0 * 10 + (c.toNat - 48))) false))
  else if Unicode.isSpace c then some (r.goto (.countMax min value value.isSome))
  else
    match c, value with
    | '}', some max => r.endCount min (some max)
    | _, _ => none

def readGroupName (r : Reader) (letters : List Char) (c : Char) : Option Reader :=
  if c = '>' then
    let name := letters.reverse
    if name.isEmpty || r.names.contains name then none else some (r.openCapture (some name))
  else if isNameChar letters.isEmpty c then some (r.goto (.groupName (c :: letters)))
  else none

def readFlag (r : Reader) (list : FlagList) (c : Char) : Option Reader :=
  match c with
  | ':' =>
    if list.dangling then none
    else some (r.openGroup .plain (list.apply r.level.flags))
  | ')' =>
    if list.dangling || list.named.isEmpty then none
    else
      let level := { r.level with flags := list.apply r.level.flags, repeatable := false }
      some { r with level, mode := .item }
  | '-' =>
    if list.negated then none
    else some (r.goto (.flags { list with negated := true, dangling := true }))
  | c =>
    if isFlag (!list.negated) c ∧ (list.named.lookup c).isNone then
      some (r.goto (.flags ⟨(c, !list.negated) :: list.named, list.negated, false⟩))
    else none

/-- Reads a character where a member of a bracketed class may begin. -/
def readMember (r : Reader) (c : Char) : Option Reader :=
  match c with
  | '[' => some { r with sets := .start :: r.sets, mode := .set .opened }
  | ']' => r.closeSet
  | '\\' => some (r.goto (.escape .member))
  | '&' => some (r.goto (.set (.doubled '&')))
  | '-' => some (r.goto (.set (.doubled '-')))
  | '~' => some (r.goto (.set (.doubled '~')))
  | c => some (r.goto (.set (.after (.char c))))

/-- Reads the character after a member that may begin a range. -/
def readAfterMember (r : Reader) (atom : Atom) (c : Char) : Option Reader :=
  if c = '-' then some (r.goto (.set (.dash atom)))
  else
    match r.addAtom atom with
    | some r => r.readMember c
    | none => none

def readRangeEnd (r : Reader) (atom : Atom) (c : Char) : Option Reader :=
  match c, atom with
  | '\\', .char first => some (r.goto (.escape (.rangeEnd first)))
  | c, .char first => r.addRange first c
  | _, _ => none

def readAfterDash (r : Reader) (atom : Atom) (c : Char) : Option Reader :=
  match c with
  | ']' =>
    match r.addAtom atom with
    | some r => (r.addSet (.single '-')).closeSet
    | none => none
  | '-' => (r.addAtom atom).map fun r => r.setOperator .diff
  | c => r.readRangeEnd atom c

/-- Reads the character after a member, a dash and blanks. Unless there is a range, the dash is a
member that may itself begin one. -/
def readApart (r : Reader) (atom : Atom) (glimpse : Glimpse) (c : Char) : Option Reader :=
  if glimpse.next c = .told true then r.readRangeEnd atom c
  else
    match r.addAtom atom with
    | some r => r.readAfterMember (.char '-') c
    | none => none

/-- Reads a character after a character that is an operator if it stands twice. -/
def readDoubled (r : Reader) (first c : Char) : Option Reader :=
  if c = first then
    match first with
    | '&' => some (r.setOperator .inter)
    | '~' => some (r.setOperator .symmDiff)
    | _ => some (r.setOperator .diff)
  else r.readAfterMember (.char first) c

/-- Reads a character where the members of a bracketed class begin. -/
def readLeading (r : Reader) (c : Char) : Option Reader :=
  match c with
  | '-' => some ((r.addSet (.single '-')).goto (.set .leadingDashes))
  | ']' => some ((r.addSet (.single ']')).goto (.set .member))
  | c => r.readMember c

def readSet (r : Reader) (mode : SetMode) (c : Char) : Option Reader :=
  match mode with
  | .opened =>
    if c = '^' then
      some ((r.mapSet fun level => { level with negated := true }).goto (.set .leading))
    else r.readLeading c
  | .leading => r.readLeading c
  | .leadingDashes => if c = '-' then some (r.addSet (.single '-')) else r.readMember c
  | .member => r.readMember c
  | .doubled first => r.readDoubled first c
  | .after atom => r.readAfterMember atom c
  | .dash atom => r.readAfterDash atom c
  | .apart atom glimpse => r.readApart atom glimpse c

/-- Adds a character to the spelling of the innermost bracketed class. -/
def spell (r : Reader) (c : Char) : Reader :=
  r.mapSet fun level => { level with spelling := c :: level.spelling }

def readComment (r : Reader) (back : Mode) (c : Char) : Reader :=
  r.goto (if c = '\n' then back else .comment (back.glance c))

/-- Reads one character that is not passed over. -/
def readChar (r : Reader) (c : Char) : Option Reader :=
  match r.mode with
  | .item => r.readItem c
  | .repetition min max _ =>
    match r.repeatLast min max (c != '?') with
    | some r => if c = '?' then some r else r.readItem c
    | none => none
  | .escape place => r.readEscape place c
  | .hexStart place digits =>
    if c = '{' then some (r.goto (.hexBrace place none)) else r.readHexDigit place digits 0 c
  | .hexDigits place missing value => r.readHexDigit place missing value c
  | .hexBrace place value => r.readHexBrace place value c
  | .boundary =>
    if c = '{' then some (r.goto .boundaryBrace)
    else (r.push (.look .wordBoundary)).readItem c
  | .boundaryBrace =>
    if isAsciiLetter c || c == '-' then some (r.goto (.boundaryName [c]))
    else (r.push (.look .wordBoundary)).readCountMin none false c
  | .boundaryName letters =>
    if c = '}' then (boundaryKind? letters.reverse).map fun l => r.push (.look l)
    else if isAsciiLetter c || c == '-' then some (r.goto (.boundaryName (c :: letters)))
    else none
  | .groupOpen =>
    if c = '?' then some (r.goto .groupHeader) else (r.openCapture none).readItem c
  | .groupHeader =>
    match c with
    | 'P' => some (r.goto .groupP)
    | '<' => some (r.goto .groupAngle)
    | c => r.readFlag ⟨[], false, false⟩ c
  | .groupP => if c = '<' then some (r.goto (.groupName [])) else none
  | .groupAngle => r.readGroupName [] c
  | .groupName letters => r.readGroupName letters c
  | .flags list => r.readFlag list c
  | .countMin value ended => r.readCountMin value ended c
  | .countComma min =>
    if c = '}' then r.endCount min none else r.readCountMax min none false c
  | .countMax min value ended => r.readCountMax min value ended c
  | .set mode => (r.spell c).readSet mode c
  | .comment back => some (r.readComment back c)

/-- Passes over a blank and goes on in a mode, unless a comment begins. -/
def passOver (r : Reader) (mode : Mode) (c : Char) : Reader :=
  r.goto (if c = '#' then .comment mode else mode)

/-- Reads one blank where blanks are ignored. Behind a backslash, in the header of a group and in a
comment it is read as elsewhere. -/
def readBlank (r : Reader) (c : Char) : Option Reader :=
  match r.mode with
  | .repetition min max counted =>
    if counted then some (r.passOver r.mode c)
    else (r.repeatLast min max true).map fun r => r.passOver .item c
  | .boundary => some ((r.push (.look .wordBoundary)).passOver .item c)
  | .set mode => some ((r.spell c).passOver (.set (mode.spaced c)) c)
  | .escape _ | .groupHeader | .groupP | .groupAngle | .groupName _ | .flags _ | .comment _ =>
    r.readChar c
  | mode => some (r.passOver mode c)

def step (r : Reader) (c : Char) : Option Reader :=
  if r.level.flags.ignoreBlanks && isBlank c then r.readBlank c else r.readChar c

def read (r : Reader) (text : List Char) : Option Reader :=
  text.foldlM step r

/-- Texts are read one after another. -/
theorem read_append (r : Reader) (front back : List Char) :
    r.read (front ++ back) = (r.read front).bind fun r => r.read back :=
  List.foldlM_append

/-- The pattern read, if the text may end here. -/
def finish (r : Reader) : Option Pattern :=
  let settled :=
    match r.mode.uncommented with
    | .item => some r
    | .repetition min max _ => r.repeatLast min max true
    | .boundary => some (r.push (.look .wordBoundary))
    | _ => none
  match settled with
  | some r => if r.outer.isEmpty then some r.level.pattern else none
  | none => none

end Reader

/-- The pattern a text spells, if it spells one. -/
def parse? (ignoreCase : Bool) (text : List Char) : Option Pattern :=
  match (Reader.start ignoreCase).read text with
  | some r => r.finish
  | none => none

end Relabel.Pattern
