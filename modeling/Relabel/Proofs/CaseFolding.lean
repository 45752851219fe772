import Relabel.Proofs.Languages
import Relabel.Proofs.Uncased
import Relabel.Proofs.Walking

/-!
# Ignoring case

A pattern that ignores case closes its sets under case variants. White space and punctuation have no
case (`Unicode.isUncased_of_mem_caseVariants`), so a set of such characters is closed already, and
may as well be written as it is. `Pattern.plain` does this wherever it can. A pattern and its plain
form search alike (`Pattern.find_plain`), so they find the same in a text (`Matcher.scan_plain`).
-/

namespace Relabel

/-! ### Sets without case -/

namespace CharSet

/-- Whether a set is put together from white space and single characters without case. -/
def caseless : CharSet → Bool
  | .space => true
  | .range first last => first == last && Unicode.isUncased first
  | .union s t => s.caseless && t.caseless
  | _ => false

/-- The members of a caseless set have no case. -/
theorem isUncased_of_contains {s : CharSet} {c : Char} (hs : s.caseless = true)
    (h : s.contains c = true) : Unicode.isUncased c = true := by
  induction s with
  | space => exact Unicode.isUncased_of_isSpace h
  | range first last =>
    rw [caseless, Bool.and_eq_true, beq_iff_eq] at hs
    obtain ⟨rfl, huncased⟩ := hs
    rw [← single, contains_single, beq_iff_eq] at h
    exact h ▸ huncased
  | union s t ihs iht =>
    rw [caseless, Bool.and_eq_true] at hs
    rw [contains, Bool.or_eq_true] at h
    rcases h with hleft | hright
    · exact ihs hs.1 hleft
    · exact iht hs.2 hright
  | _ => cases hs

/-- A set without case is closed under case variants. -/
theorem contains_anyCase {s : CharSet} (hs : s.caseless = true) (c : Char) :
    (anyCase s).contains c = s.contains c := by
  have hnone : ((Unicode.caseVariants c).any fun d => s.contains d) = false := by
    rw [← Bool.not_eq_true, List.any_eq_true]
    rintro ⟨d, hd, hcontains⟩
    have huncased := isUncased_of_contains hs hcontains
    rw [(Unicode.isUncased_of_mem_caseVariants hd).2] at huncased
    cases huncased
  rw [contains, hnone, Bool.or_false]

def plain : CharSet → CharSet
  | .anyCase s => if s.caseless then s else .anyCase s
  | .compl s => .compl s.plain
  | s => s

/-- A set as it is read if case is ignored: but for classes with a name, it is closed under case
variants before it is complemented. -/
def ignoringCase : CharSet → CharSet
  | .space => .space
  | .compl .empty => .compl .empty
  | .compl s => .compl (.anyCase s)
  | s => .anyCase s

/-- A set written plainly has the same members. -/
theorem contains_plain (s : CharSet) (c : Char) : s.plain.contains c = s.contains c := by
  induction s with
  | anyCase s =>
    rw [plain]
    split
    · rename_i hs
      exact (contains_anyCase hs c).symm
    · rfl
  | compl s ih => rw [plain, contains, contains, ih]
  | _ => rfl

end CharSet

/-! ### Plain patterns -/

namespace Pattern

def plain : Pattern → Pattern
  | .empty => .empty
  | .set s => .set s.plain
  | .look l => .look l
  | .seq a b => .seq a.plain b.plain
  | .alt a b => .alt a.plain b.plain
  | .group index name a => .group index name a.plain
  | .repeated min max greedy a => .repeated min max greedy a.plain

/-- A pattern as it is read if case is ignored. -/
def ignoringCase : Pattern → Pattern
  | .empty => .empty
  | .set s => .set s.ignoringCase
  | .look l => .look l
  | .seq a b => .seq a.ignoringCase b.ignoringCase
  | .alt a b => .alt a.ignoringCase b.ignoringCase
  | .group index name a => .group index name a.ignoringCase
  | .repeated min max greedy a => .repeated min max greedy a.ignoringCase

theorem nullable_plain (p : Pattern) : p.plain.nullable = p.nullable := by
  induction p with
  | seq a b iha ihb => rw [plain, nullable, nullable, iha, ihb]
  | alt a b iha ihb => rw [plain, nullable, nullable, iha, ihb]
  | group index name a ih => rw [plain, nullable, nullable, ih]
  | repeated min max greedy a ih => rw [plain, nullable, nullable, ih]
  | _ => rfl

theorem proper_plain (p : Pattern) : p.plain.proper = p.proper := by
  induction p with
  | seq a b iha ihb => rw [plain, proper, proper, iha, ihb]
  | alt a b iha ihb => rw [plain, proper, proper, iha, ihb]
  | group index name a ih => rw [plain, proper, proper, ih]
  | repeated min max greedy a ih =>
    cases max with
    | none => rw [plain, proper, proper, ih, nullable_plain]
    | some max => rw [plain, proper, proper, ih]
  | _ => rfl

theorem groups_plain (p : Pattern) : p.plain.groups = p.groups := by
  induction p with
  | seq a b iha ihb => rw [plain, groups, groups, iha, ihb]
  | alt a b iha ihb => rw [plain, groups, groups, iha, ihb]
  | group index name a ih => rw [plain, groups, groups, ih]
  | repeated min max greedy a ih => rw [plain, groups, groups, ih]
  | _ => rfl

theorem lexical_plain (p : Pattern) : p.plain.lexical = p.lexical := by
  induction p with
  | seq a b iha ihb => rw [plain, lexical, lexical, iha, ihb]
  | alt a b iha ihb => rw [plain, lexical, lexical, iha, ihb]
  | repeated min max greedy a ih => rw [plain, lexical, lexical, ih]
  | _ => rfl

/-- A pattern written plainly matches the same texts. -/
theorem language_plain (p : Pattern) : p.plain.language = p.language := by
  induction p with
  | set s =>
    simp only [plain, language, CharSet.contains_plain]
    rfl
  | seq a b iha ihb => rw [plain, language, language, iha, ihb]
  | alt a b iha ihb => rw [plain, language, language, iha, ihb]
  | group index name a ih => rw [plain, language, language, ih]
  | repeated min max greedy a ih => rw [plain, language, language, ih]
  | _ => rfl

/-- **A pattern and its plain form search alike.** -/
theorem find_plain (p : Pattern) : p.plain.find = p.find := by
  induction p with
  | set s =>
    funext next c captures
    simp only [plain, find, Next.set, CharSet.contains_plain]
  | seq a b iha ihb =>
    funext next
    rw [plain, find, find, iha, ihb]
  | alt a b iha ihb =>
    funext next
    rw [plain, find, find, iha, ihb]
  | group index name a ih =>
    funext next
    rw [plain, find, find, ih]
  | repeated min max greedy a ih =>
    funext next
    cases max with
    | none => rw [plain, find, find, ih]
    | some max => rw [plain, find, find, ih]
  | _ => rfl

/-- **A pattern written plainly matches the same**, at every position. -/
theorem matchAt_plain {p : Pattern} (hp : p.proper = true) (c : Cursor) :
    (Program.ofPattern p.plain).matchAt c = (Program.ofPattern p).matchAt c := by
  rw [Program.matchAt_eq_find hp, Program.matchAt_eq_find (p.proper_plain.trans hp), find_plain]

end Pattern

namespace Matcher

theorem search_congr {program other : Program} (h : ∀ c, program.matchAt c = other.matchAt c)
    (c : Cursor) : program.search c = other.search c := by
  obtain ⟨offset, before, rest⟩ := c
  unfold Program.search
  induction rest generalizing offset before with
  | nil => exact h _
  | cons x rest ih => rw [Program.searchFrom, Program.searchFrom, h, ih]

/-- Two matchers that find the same at every position walk through a text alike. -/
theorem walkFrom_congr {matcher other : Matcher} (hahead : matcher.ahead = other.ahead)
    (h : ∀ c, matcher.program.matchAt c = other.program.matchAt c) (fuel : Nat) (c : Cursor) :
    matcher.walkFrom fuel c = other.walkFrom fuel c := by
  have hresume : matcher.resume = other.resume := by
    funext c found
    rw [resume, resume, target, target, ahead?, ahead?, hahead]
  induction fuel generalizing c with
  | zero => rfl
  | succ fuel ih => simp only [walkFrom, search_congr h, hresume, ih]

/-- **A pattern and its plain form find the same in a text.** -/
theorem scan_plain (group : List Char) {p : Pattern} (hp : p.proper = true) (text : List Char) :
    (ofPattern group p.plain).scan text = (ofPattern group p).scan text := by
  have hgroups := p.groups_plain
  have hahead : (ofPattern group p.plain).ahead = (ofPattern group p).ahead := by
    rw [ofPattern, ofPattern, hgroups]
  have hcapture : (ofPattern group p.plain).capture = (ofPattern group p).capture := by
    rw [ofPattern, ofPattern, hgroups]
  rw [scan, scan, walk, walk, walkFrom_congr hahead fun c => p.matchAt_plain hp c]
  simp only [hit, capture?, hcapture]

/-- What is captured does not depend on how sets are written. -/
theorem captured_plain (group : List Char) {p : Pattern} (hp : p.proper = true) :
    (ofPattern group p.plain).captured = (ofPattern group p).captured := by
  funext text
  rw [captured, captured, scan_plain group hp]

theorem captureSpans_plain (group : List Char) {p : Pattern} (hp : p.proper = true) :
    (ofPattern group p.plain).captureSpans = (ofPattern group p).captureSpans := by
  funext text
  rw [captureSpans, captureSpans, scan_plain group hp]

/-- What is rewritten does not depend on how sets are written. -/
theorem rewrite_plain (group : List Char) {p : Pattern} (hp : p.proper = true) :
    (ofPattern group p.plain).rewrite = (ofPattern group p).rewrite := by
  funext change text
  rw [rewrite, rewrite, captureSpans_plain group hp]

end Matcher

end Relabel
