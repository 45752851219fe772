import Relabel.Expression.Lookup
import Relabel.Expression.Matcher
import Relabel.Text.Splice

/-!
# Expressions

An expression finds the identifiers of one kind in a text, and replaces them. There are three ways to
do so.

* A direct expression captures the identifier with a single template.
* A parallel expression finds like a direct one, and writes a decorated identifier over everything
  that the match consumed.
* A nested expression captures a region with its outer template, narrows it with further ones, and
  runs its inner template inside, taking each region for a text of its own.
-/

namespace Relabel

/-- How an expression gets at identifiers. -/
inductive Strategy where
  | direct (template : Template)
  | parallel (template : Template) (decoration : String)
  | nested (outer : Template) (within : List Template) (inner : Template)

/-- A strategy, the group its templates report, and whether case matters. -/
structure Expression where
  strategy : Strategy
  group : String
  caseSensitive : Bool

namespace Matcher

def replaceCaptures (matcher : Matcher) (lookup : Lookup) (text : List Char) : Spliced :=
  splice text <| (matcher.scan text).filterMap fun hit => do
    let span ← hit.capture
    let identifier ← span.slice? text
    let value ← lookup.get? identifier
    return ⟨span, value.toList⟩

/-- Writes a decorated value over what each hit consumed, if its capture resolves. A capture that lies
elsewhere is itself replaced. -/
def replaceConsumed (matcher : Matcher) (decoration : List Char) (lookup : Lookup)
    (text : List Char) : Spliced :=
  splice text <| (matcher.scan text).filterMap fun hit => do
    let span ← hit.capture
    let identifier ← span.slice? text
    let value ← lookup.get? identifier
    let target := if hit.consumed.covers span then hit.consumed else span
    return ⟨target, fillSlots value.toList decoration⟩

/-- The innermost regions that some matchers narrow a text down to. -/
def regions : List Matcher → List Char → List (List Char)
  | [], text => [text]
  | level :: levels, text => (level.captured text).flatMap (regions levels)

/-- Replaces the captures in every innermost region of a text. Yields how many were replaced in their
regions, and the text in which each region that changed is replaced. -/
def replaceInRegions (inner : Matcher) (lookup : Lookup) :
    List Matcher → List Char → Nat × Spliced
  | [], text =>
    let spliced := inner.replaceCaptures lookup text
    (spliced.applied, spliced)
  | level :: levels, text =>
    let regions := (level.scan text).filterMap fun hit => do
      let span ← hit.capture
      let region ← span.slice? text
      return (span, replaceInRegions inner lookup levels region)
    let edits := regions.filterMap fun (span, _, spliced) =>
      spliced.changed?.map fun region => Edit.mk span region
    ((regions.map fun (_, count, _) => count).foldr (· + ·) 0, splice text edits)

end Matcher

namespace Expression

/-- An identifier as it is reported: in lower case, unless case matters. -/
def report (e : Expression) (identifier : List Char) : String :=
  String.ofList (if e.caseSensitive then identifier else Unicode.lowercase identifier)

def matcher (e : Expression) (template : Template) (pattern : List Char) : Traced Matcher :=
  Matcher.compile template pattern e.group e.caseSensitive

/-- Every identifier in a text that `pattern` matches where the expression looks for one. -/
def findAll (e : Expression) (text pattern : String) : Traced (List String) :=
  match e.strategy with
  | .direct template | .parallel template _ => do
    let matcher ← e.matcher template pattern.toList
    return (matcher.captured text.toList).map e.report
  | .nested outer within inner => do
    let levels ← (outer :: within).mapM fun template => e.matcher template pattern.toList
    let inner ← e.matcher inner pattern.toList
    return ((Matcher.regions levels text.toList).flatMap inner.captured).map e.report

/-- Replaces every identifier in a text that is a key of a mapping. Yields no text if there was nothing
to replace. -/
def replaceAll (e : Expression) (text : String) (mapping : Mapping) : Traced (Option String) :=
  if mapping.isEmpty then return none
  else
    let lookup := Lookup.ofMapping mapping e.caseSensitive
    match e.strategy with
    | .direct template => do
      let matcher ← e.matcher template lookup.pattern
      let spliced := matcher.replaceCaptures lookup text.toList
      Traced.emit (.directReplaced spliced.applied)
      return spliced.changed?.map String.ofList
    | .parallel template decoration => do
      let matcher ← e.matcher template lookup.pattern
      let spliced := matcher.replaceConsumed decoration.toList lookup text.toList
      Traced.emit (.parallelReplaced spliced.applied)
      return spliced.changed?.map String.ofList
    | .nested outer within inner => do
      let levels ← (outer :: within).mapM fun template => e.matcher template lookup.pattern
      let inner ← e.matcher inner lookup.pattern
      let (count, spliced) := Matcher.replaceInRegions inner lookup levels text.toList
      Traced.emit (.nestedReplaced levels.length count)
      return spliced.changed?.map String.ofList

end Expression

end Relabel
