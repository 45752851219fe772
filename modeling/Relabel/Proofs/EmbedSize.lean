import Relabel.Renaming
import Relabel.Proofs.Scanning

/-!
# Embedded code is shorter than its host

Renaming works on embedded code as on a document of its own, so it comes to an end only because that
document is shorter than the one it was found in. For code that is handed out inside a wrapper this
is not plain: the wrapper makes it longer than the place it came from. It holds because a match of
one of the patterns covers more bytes around the place than the wrapper has, which `Pattern.spares`
computes from the pattern.
-/

namespace Relabel

/-! ### What a match covers outside its groups -/

/-- So many steps cover as many times what each of them covers at least. -/
theorem Copies.offset_add_le {one : Cursor → Cursor → Captures → Prop} {least : Nat}
    (hone : ∀ c d new, one c d new → c.offset + least ≤ d.offset) {n : Nat} {c d : Cursor}
    {new : Captures} (h : Copies one n c d new) : c.offset + n * least ≤ d.offset := by
  induction n generalizing c new with
  | zero =>
    obtain ⟨rfl, -⟩ := h
    omega
  | succ n ih =>
    obtain ⟨e, first, others, hfirst, hothers, -⟩ := h
    have hstep := hone c e first hfirst
    have hrest := ih hothers
    rw [Nat.succ_mul]
    omega

namespace Pattern

/-- The fewest bytes that a match of a pattern covers. -/
def minSize : Pattern → Nat
  | .empty => 0
  | .set _ => 1
  | .look _ => 0
  | .seq a b => a.minSize + b.minSize
  | .alt a b => min a.minSize b.minSize
  | .group _ _ a => a.minSize
  | .repeated least _ _ a => least * a.minSize

/-- Whether a match of a pattern covers `n` bytes or more besides those of any one group. -/
def spares (n : Nat) : Pattern → Bool
  | .empty => true
  | .set _ => true
  | .look _ => true
  | .seq a b => a.spares (n - b.minSize) && b.spares (n - a.minSize)
  | .alt a b => a.spares n && b.spares n
  | .group _ _ _ => n == 0
  | .repeated _ _ _ a => a.spares n

/-- A match covers no fewer bytes than its pattern promises. -/
theorem Matches.offset_add_minSize_le {p : Pattern} {c d : Cursor} {new : Captures}
    (h : p.Matches c d new) : c.offset + p.minSize ≤ d.offset := by
  induction p generalizing c d new with
  | empty =>
    obtain ⟨rfl, -⟩ := h
    exact Nat.le_refl _
  | set s =>
    obtain ⟨next, rest, -, -, rfl, -⟩ := h
    have hnext := next.utf8Size_pos
    simp only [minSize, Cursor.advance]
    omega
  | look l =>
    obtain ⟨-, rfl, -⟩ := h
    exact Nat.le_refl _
  | seq a b iha ihb =>
    obtain ⟨e, first, second, hfirst, hsecond, -⟩ := h
    have ha := iha hfirst
    have hb := ihb hsecond
    rw [minSize]
    omega
  | alt a b iha ihb =>
    rw [minSize]
    rcases h with h | h
    · have ha := iha h
      omega
    · have hb := ihb h
      omega
  | group index name a iha =>
    obtain ⟨inner, hinner, -⟩ := h
    exact iha hinner
  | repeated least most greedy a iha =>
    obtain ⟨n, hn, -, hcopies⟩ := h
    have hsize := Copies.offset_add_le (fun _ _ _ h => iha h) hcopies
    have hleast : least * a.minSize ≤ n * a.minSize := Nat.mul_le_mul_right _ hn
    rw [minSize]
    omega

/-- **What a pattern spares stands outside its groups**: any record of a match is shorter than the
match by that many bytes. -/
theorem Matches.size_add_le {p : Pattern} {n : Nat} {c d : Cursor} {new : Captures}
    (h : p.Matches c d new) (hspares : p.spares n = true) :
    ∀ entry ∈ new, entry.2.stop + n + c.offset ≤ d.offset + entry.2.start := by
  induction p generalizing n c d new with
  | empty =>
    obtain ⟨-, rfl⟩ := h
    simp
  | set s =>
    obtain ⟨-, -, -, -, -, rfl⟩ := h
    simp
  | look l =>
    obtain ⟨-, -, rfl⟩ := h
    simp
  | seq a b iha ihb =>
    obtain ⟨e, first, second, hfirst, hsecond, rfl⟩ := h
    obtain ⟨hspa, hspb⟩ := Bool.and_eq_true_iff.mp hspares
    have hsizea := hfirst.offset_add_minSize_le
    have hsizeb := hsecond.offset_add_minSize_le
    intro entry hentry
    rcases List.mem_append.mp hentry with hmem | hmem
    · have hb := ihb hsecond hspb entry hmem
      omega
    · have ha := iha hfirst hspa entry hmem
      omega
  | alt a b iha ihb =>
    obtain ⟨hspa, hspb⟩ := Bool.and_eq_true_iff.mp hspares
    rcases h with h | h
    · exact iha h hspa
    · exact ihb h hspb
  | group index name a iha =>
    obtain ⟨inner, hinner, rfl⟩ := h
    obtain rfl : n = 0 := by simpa [spares] using hspares
    have hgroup : Matches (.group index name a) c d ((index, ⟨c.offset, d.offset⟩) :: inner) :=
      ⟨inner, hinner, rfl⟩
    intro entry hentry
    have hbounds := (hgroup.records entry hentry).bounds
    omega
  | repeated least most greedy a iha =>
    obtain ⟨k, -, -, hcopies⟩ := h
    -- Standing still records nothing, so the bound needs one turn only.
    have hboth : c.offset ≤ d.offset ∧
        ∀ entry ∈ new, entry.2.stop + n + c.offset ≤ d.offset + entry.2.start := by
      refine hcopies.lift (motive := fun c d new => c.offset ≤ d.offset ∧
        ∀ entry ∈ new, entry.2.stop + n + c.offset ≤ d.offset + entry.2.start)
        (fun c => ⟨Nat.le_refl _, by simp⟩) ?_
      rintro c e d first others hfirst ⟨hle, hothers⟩
      have hstep := hfirst.reaches.offset_le
      refine ⟨by omega, fun entry hentry => ?_⟩
      rcases List.mem_append.mp hentry with hmem | hmem
      · have h := hothers entry hmem
        omega
      · have h := iha hfirst hspares entry hmem
        omega
    exact hboth.2

end Pattern

/-! ### Successive matches -/

namespace Program

theorem matchesFrom_sound {p : Pattern} {fuel : Nat} {c : Cursor} {lastStop : Option Nat} :
    ∀ found ∈ (ofPattern p).matchesFrom fuel c lastStop, ∃ e d, c.Reaches e ∧
      p.Matches e d found.captures ∧ found.span = ⟨e.offset, d.offset⟩ := by
  induction fuel generalizing c lastStop with
  | zero => simp [matchesFrom]
  | succ fuel ih =>
    intro found hfound
    rw [matchesFrom] at hfound
    split at hfound
    · cases hfound
    · rename_i first hfirst
      split at hfound
      · split at hfound
        · rename_i next rest hrest
          obtain ⟨e, d, hreaches, hmatches, hspan⟩ := ih found hfound
          have hnext : c.Reaches (c.advance next rest) := ⟨[next], .advance hrest⟩
          exact ⟨e, d, hnext.trans hreaches, hmatches, hspan⟩
        · cases hfound
      · split at hfound
        · rename_i b hseek
          rcases List.mem_cons.mp hfound with rfl | hmem
          · exact search_sound hfirst
          · obtain ⟨e, d, hreaches, hmatches, hspan⟩ := ih found hmem
            exact ⟨e, d, (Cursor.seek?_reaches hseek).1.trans hreaches, hmatches, hspan⟩
        · obtain rfl := List.mem_singleton.mp hfound
          exact search_sound hfirst

/-- Every match that is listed is a match of the pattern somewhere in the text. -/
theorem allMatches_sound {p : Pattern} {text : List Char} :
    ∀ found ∈ (ofPattern p).allMatches text, ∃ e d, (Cursor.start text).Reaches e ∧
      p.Matches e d found.captures ∧ found.span = ⟨e.offset, d.offset⟩ :=
  matchesFrom_sound

end Program

theorem Cursor.Reaches.offset_le_byteSize {text : List Char} {d : Cursor}
    (h : (Cursor.start text).Reaches d) : d.offset ≤ byteSize text := by
  obtain ⟨part, hrest, hoffset, -⟩ := h
  have hsize : byteSize text = byteSize part + byteSize d.rest := by
    rw [← byteSize_append, ← hrest]
    rfl
  simp only [Cursor.start] at hoffset
  omega

/-! ### Located code -/

namespace Locator

/-- What a group of a match records is shorter than the text by what the match covers besides. -/
theorem size_add_le_of_mem_contents {pattern : String} {groups : List Nat} {n : Nat}
    {host : List Char} {raw : String} {start : Nat}
    (hspares : (Pattern.parse? false pattern.toList).all (Pattern.spares n) = true)
    (hgroups : 0 ∉ groups) (h : (raw, start) ∈ contents pattern groups host) :
    raw.utf8ByteSize + n ≤ byteSize host := by
  unfold contents at h
  split at h
  · cases h
  · rename_i p hparse
    rw [hparse, Option.all_some] at hspares
    obtain ⟨found, hfound, htext⟩ := List.mem_filterMap.mp h
    obtain ⟨span, hspan, htext⟩ := Option.bind_eq_some_iff.mp htext
    split at htext
    · cases htext
    · obtain ⟨text, hslice, hraw⟩ := Option.bind_eq_some_iff.mp htext
      obtain ⟨rfl, -⟩ := Prod.mk.inj (Option.some.inj hraw)
      obtain ⟨e, d, hreaches, hmatches, -⟩ := Program.allMatches_sound found hfound
      have hmem : ∃ index ∈ groups, (index, span) ∈ found.captures :=
        (Matcher.firstGroup?_mem hspan).resolve_left fun h => hgroups h.1
      obtain ⟨index, -, hmem⟩ := hmem
      have hsize := hmatches.size_add_le hspares _ hmem
      have hend := (hreaches.trans hmatches.reaches).offset_le_byteSize
      obtain ⟨front, back, -, -, hstop⟩ := Span.slice?_eq_some_iff.mp hslice
      rw [← byteSize_toList, String.toList_ofList]
      simp only at hsize
      omega

/-- What stands around the body of an element is not empty. -/
theorem spares_elementPattern {tag : String} (htag : tag = "style" ∨ tag = "script") :
    (Pattern.parse? false (elementPattern tag).toList).all (Pattern.spares 1) = true := by
  rcases htag with rfl | rfl
  · decide +kernel
  · decide +kernel

/-- What stands around the value of a `style` attribute is longer than the wrapper. -/
theorem spares_styleAttributePattern :
    (Pattern.parse? false styleAttributePattern.toList).all (Pattern.spares
      (styleAttributeWrapper.front.utf8ByteSize + styleAttributeWrapper.back.utf8ByteSize + 1)) =
      true := by
  decide +kernel

/-- The body of an element is shorter than the document. -/
theorem size_lt_of_mem_elementBodies {tag : String} {kind : EmbedKind} {host : String} {e : Embed}
    (htag : tag = "style" ∨ tag = "script") (he : e ∈ elementBodies tag kind host) :
    e.content.utf8ByteSize < host.utf8ByteSize := by
  obtain ⟨⟨raw, start⟩, hraw, rfl⟩ := List.mem_map.mp he
  have h := size_add_le_of_mem_contents (spares_elementPattern htag) (by decide) hraw
  rw [byteSize_toList] at h
  exact h

/-- A style attribute, inside its rule, is shorter than the document. -/
theorem size_lt_of_mem_styleAttributes {host : String} {e : Embed}
    (he : e ∈ styleAttributes host) : e.content.utf8ByteSize < host.utf8ByteSize := by
  obtain ⟨⟨raw, start⟩, hraw, rfl⟩ := List.mem_map.mp he
  have h := size_add_le_of_mem_contents spares_styleAttributePattern (by decide) hraw
  rw [byteSize_toList] at h
  simp only [Embed.wrapped, String.utf8ByteSize_append]
  omega

/-- **Embedded code is shorter than its host**, wherever it is looked for. -/
theorem size_lt_of_mem_find {locator : Locator} {host : String} {e : Embed}
    (he : e ∈ locator.find host) : e.content.utf8ByteSize < host.utf8ByteSize := by
  cases locator with
  | styleTag => exact size_lt_of_mem_elementBodies (.inl rfl) he
  | styleAttribute => exact size_lt_of_mem_styleAttributes he
  | scriptTag => exact size_lt_of_mem_elementBodies (.inr rfl) he

end Locator

/-! ### Computations that succeed -/

namespace Traced

variable {α β : Type}

/-- `t.Yields P`: the computation does not fail, and its value has the property. -/
def Yields (t : Traced α) (P : α → Prop) : Prop :=
  ∃ a, t.outcome = .ok a ∧ P a

/-- A computation that does not fail can be continued by one that does not. -/
theorem Yields.bind {t : Traced α} {next : α → Traced β} {P : α → Prop} {Q : β → Prop}
    (h : t.Yields P) (hnext : ∀ a, P a → (next a).Yields Q) : (t >>= next).Yields Q := by
  obtain ⟨a, ha, hP⟩ := h
  obtain ⟨b, hb, hQ⟩ := hnext a hP
  refine ⟨b, ?_, hQ⟩
  rw [outcome_bind, ha]
  exact hb

theorem Yields.mapM {f : α → Traced β} {P : β → Prop} {xs : List α}
    (h : ∀ x ∈ xs, (f x).Yields P) : (xs.mapM f).Yields fun ys => ∀ y ∈ ys, P y := by
  induction xs with
  | nil => exact ⟨[], rfl, by simp⟩
  | cons x xs ih =>
    rw [List.mapM_cons]
    refine (h x List.mem_cons_self).bind fun y hy => ?_
    refine (ih fun z hz => h z (List.mem_cons_of_mem _ hz)).bind fun ys hys => ?_
    exact ⟨y :: ys, rfl, List.forall_mem_cons.mpr ⟨hy, hys⟩⟩

/-- Two continuations need agree only on what can come up. -/
theorem Yields.bind_congr {t : Traced α} {f g : α → Traced β} {P : α → Prop} (h : t.Yields P)
    (hfg : ∀ a, P a → f a = g a) : t >>= f = t >>= g := by
  obtain ⟨a, ha, hP⟩ := h
  simp only [Bind.bind, Traced.bind, ha, hfg a hP]

theorem mapM_congr {f g : α → Traced β} {xs : List α} (h : ∀ x ∈ xs, f x = g x) :
    xs.mapM f = xs.mapM g := by
  induction xs with
  | nil => rfl
  | cons x xs ih =>
    rw [List.mapM_cons, List.mapM_cons, h x List.mem_cons_self,
      ih fun y hy => h y (List.mem_cons_of_mem _ hy)]

end Traced

/-! ### Plugins -/

/-- `document.Holds e`: one of the locators finds the embed in the document. -/
def Document.Holds (document : Document) (e : Embed) : Prop :=
  ∃ locator : Locator, e ∈ locator.find document.content

/-- `document.Exceeds e`: the text of an embed is shorter than that of the document. -/
def Document.Exceeds (document : Document) (e : Embed) : Prop :=
  e.content.utf8ByteSize < document.content.utf8ByteSize

theorem Document.Holds.exceeds {document : Document} {e : Embed} (h : document.Holds e) :
    document.Exceeds e := by
  obtain ⟨locator, he⟩ := h
  exact Locator.size_lt_of_mem_find he

/-- What a family finds is found by one of its locators. -/
theorem Family.embeds_located (f : Family) (document : Document) :
    (f.embeds document).Yields fun embeds => ∀ e ∈ embeds, document.Holds e := by
  unfold Family.embeds
  split
  · have hlocate : ∀ locator ∈ f.locators, (locator.locate document.content).Yields
        fun embeds => ∀ e ∈ embeds, document.Holds e := fun locator _ =>
      ⟨locator.find document.content, rfl, fun e he => ⟨locator, he⟩⟩
    refine (Traced.Yields.mapM hlocate).bind fun found hfound => ⟨found.flatten, rfl, ?_⟩
    intro e he
    obtain ⟨embeds, hembeds, hmem⟩ := List.mem_flatten.mp he
    exact hfound embeds hembeds e hmem
  · exact ⟨[], rfl, by simp⟩

namespace Plugin

mutual

/-- Looking for embedded code never fails, and what is found is what some locator finds. -/
theorem embeds_located (document : Document) : (p : Plugin) →
    (embeds document p).Yields fun embeds => ∀ e ∈ embeds, document.Holds e
  | .family f => f.embeds_located document
  | .bundle children => embedsOfAll_located document children

/-- What plugins find is found by one of the locators. -/
theorem embedsOfAll_located (document : Document) : (children : List Plugin) →
    (embedsOfAll document children).Yields fun embeds => ∀ e ∈ embeds, document.Holds e
  | [] => ⟨[], rfl, by simp⟩
  | p :: rest =>
    (embeds_located document p).bind fun found hfound =>
      (embedsOfAll_located document rest).bind fun others hothers =>
        ⟨found ++ others, rfl, List.forall_mem_append.mpr ⟨hfound, hothers⟩⟩

end

/-- What a plugin finds is shorter than the document. -/
theorem embeds_yields (document : Document) (p : Plugin) :
    (embeds document p).Yields fun embeds => ∀ e ∈ embeds, document.Exceeds e := by
  obtain ⟨embeds, hembeds, hheld⟩ := embeds_located document p
  exact ⟨embeds, hembeds, fun e he => (hheld e he).exceeds⟩

/-- `p.Embedded inner outer`: the plugin finds the document `inner` embedded in `outer`. -/
def Embedded (p : Plugin) (inner outer : Document) : Prop :=
  ∃ embeds, (p.embeds outer).outcome = .ok embeds ∧ ∃ e ∈ embeds, e.document = inner

/-- Embedding makes documents shorter, so it comes to an end. -/
theorem Embedded.size_lt {p : Plugin} {inner outer : Document} (h : p.Embedded inner outer) :
    inner.content.utf8ByteSize < outer.content.utf8ByteSize := by
  obtain ⟨embeds, hembeds, e, he, rfl⟩ := h
  obtain ⟨embeds', hembeds', hsmall⟩ := embeds_yields outer p
  rw [hembeds, Except.ok.injEq] at hembeds'
  exact hsmall e (hembeds' ▸ he)

/-- A depth that exceeds the size of a document is as good as any other. -/
theorem renameTo_congr (p : Plugin) (renames : List Rename) {depth depth' : Nat}
    {document : Document} (h : document.content.utf8ByteSize < depth)
    (h' : document.content.utf8ByteSize < depth') :
    p.renameTo renames depth document = p.renameTo renames depth' document := by
  induction depth generalizing depth' document with
  | zero => omega
  | succ depth ih =>
    obtain ⟨depth', rfl⟩ : ∃ n, depth' = n + 1 := ⟨depth' - 1, by omega⟩
    rw [renameTo, renameTo]
    refine (embeds_yields document p).bind_congr fun embeds hembeds => ?_
    congr 1
    refine Traced.mapM_congr fun e he => ?_
    have hsize : e.document.content.utf8ByteSize < document.content.utf8ByteSize := hembeds e he
    have hsame : p.renameTo renames depth e.document = p.renameTo renames depth' e.document :=
      ih (by omega) (by omega)
    rw [hsame]

/-- **Renaming whole documents comes to an end.** For every plugin, looking for embedded code in a
document succeeds, and all of it, wrappers included, is shorter than the document; so no document is
embedded in another without end, and renaming embedded code as documents of their own, however deep,
is a recursion that its equation determines. -/
theorem embeds_shrink_and_rename_terminates (p : Plugin) :
    (∀ document : Document, ∃ embeds, (p.embeds document).outcome = .ok embeds ∧
      ∀ e ∈ embeds, e.content.utf8ByteSize < document.content.utf8ByteSize) ∧
    WellFounded p.Embedded ∧
    ∀ (renames : List Rename) (document : Document), p.rename renames document = (do
      let embeds ← p.embeds document
      let renamed ← embeds.mapM fun e => return e.withContent (← p.rename renames e.document)
      let text := spliceEmbeds document.content renamed
      renames.foldlM (fun text rename => p.applyRename document.kind text rename) text) := by
  refine ⟨fun document => embeds_yields document p, ?_, fun renames document => ?_⟩
  · exact Subrelation.wf (fun h => Embedded.size_lt h)
      (measure fun document : Document => document.content.utf8ByteSize).wf
  · rw [rename, renameTo]
    refine (embeds_yields document p).bind_congr fun embeds hembeds => ?_
    congr 1
    refine Traced.mapM_congr fun e he => ?_
    have hsize : e.document.content.utf8ByteSize < document.content.utf8ByteSize := hembeds e he
    rw [rename, p.renameTo_congr renames hsize (Nat.lt_succ_self _)]

end Plugin

end Relabel
