import SourceGen.Proofs.Builder.LineDocument

/-! # Bodies

A body is written line by line, so each of its lines is a line of the whole text, behind its margin.
Its first line goes on with the open line. Where the builder's text ends in a carriage return, a
line feed with nothing before it would only complete that break. -/
namespace SourceGen

open Text

/-- The lines, each behind its margin and with a terminator. -/
def LineEnding.writeLines (e : LineEnding) (margin : Text) (ls : List Text) : Text :=
  ls.flatMap (margin ++ · ++ e.terminator)

theorem bodyLines_writeLines (e : LineEnding) {ls : List Text} (h : ∀ l ∈ ls, BreakFree l) :
    bodyLines (e.writeLines [] ls) = ls ++ [[]] := by
  induction ls with
  | nil => simp [LineEnding.writeLines, bodyLines]
  | cons l ls ih =>
    obtain ⟨hl, hs⟩ := List.forall_mem_cons.mp h
    have hf : (l ++ e.terminator).getLast? ≠ some '\r' := by
      cases e <;> simp [LineEnding.terminator]
    have hw : e.writeLines [] (l :: ls) = (l ++ e.terminator) ++ e.writeLines [] ls := by
      simp [LineEnding.writeLines]
    rw [hw, bodyLines_append (seamFree_of_getLast? hf _), bodyLines_terminated hl, ih hs,
      seam_cons l (by simp), nil_seam (by simp), List.cons_append]

theorem LineEnding.writeLines_eq (e : LineEnding) (margin : Text) (ls : List Text) :
    e.writeLines margin ls = e.writeLines [] (ls.map (margin ++ ·)) := by
  simp [writeLines, List.flatMap_map]

theorem bodyLines_writeLines_margin (e : LineEnding) {margin : Text} (hm : BreakFree margin)
    {ls : List Text} (h : ∀ l ∈ ls, BreakFree l) :
    bodyLines (e.writeLines margin ls) = ls.map (margin ++ ·) ++ [[]] := by
  rw [e.writeLines_eq]
  refine bodyLines_writeLines e (List.forall_mem_map.mpr fun l hl => ?_)
  exact List.forall_mem_append.mpr ⟨hm, h l hl⟩

theorem ne_lf_of_breakFree_cons {c : Char} {t : Text} (h : BreakFree (c :: t)) : c ≠ '\n' := by
  rintro rfl
  exact absurd (h _ List.mem_cons_self) (by decide)

/-- Only an empty line without a margin, under line feeds, begins with a line feed. -/
theorem head?_writeLines_eq_lf {e : LineEnding} {margin l : Text} (hm : BreakFree margin)
    (hl : BreakFree l) (ls : List Text) :
    (e.writeLines margin (l :: ls)).head? = some '\n' ↔ margin = [] ∧ l = [] ∧ e = .lf := by
  cases margin with
  | cons c margin => simp [LineEnding.writeLines, ne_lf_of_breakFree_cons hm]
  | nil =>
    cases l with
    | cons c l => simp [LineEnding.writeLines, ne_lf_of_breakFree_cons hl]
    | nil => cases e <;> simp [LineEnding.writeLines, LineEnding.terminator]

namespace TextBuilder

theorem foldl_appendLine_eq_write (b : TextBuilder) (ls : List Text) :
    ls.foldl appendLine b = b.write (b.lineEnding.writeLines b.margin ls) := by
  induction ls generalizing b with
  | nil => exact b.write_nil.symm
  | cons l ls ih =>
    have hw : b.appendLine l = b.write (b.margin ++ l ++ b.lineEnding.terminator) := rfl
    rw [List.foldl_cons, ih, hw, write_write]
    rfl

theorem appendBody_eq_write (b : TextBuilder) (t : Text) :
    b.appendBody t = b.write (b.lineEnding.writeLines b.margin (bodyLines t)) :=
  b.foldl_appendLine_eq_write (bodyLines t)

/-- The line feed of a body's first line would stand right behind a carriage return, and be read as
one break with it. -/
def Swallows (b : TextBuilder) (l : Text) : Prop :=
  b.text.getLast? = some '\r' ∧ b.margin = [] ∧ l = [] ∧ b.lineEnding = .lf

instance (b : TextBuilder) : DecidablePred b.Swallows := fun _ =>
  inferInstanceAs (Decidable (_ ∧ _ ∧ _ ∧ _))

variable {b : TextBuilder} {l : Text}

theorem breakFree_margin_self (b : TextBuilder) : BreakFree b.margin :=
  breakFree_margin b.indent b.depth

theorem swallows_iff (hl : BreakFree l) (ls : List Text) :
    b.Swallows l ↔ ¬SeamFree b.text (b.lineEnding.writeLines b.margin (l :: ls)) := by
  rw [SeamFree, Classical.not_imp, not_ne_iff, head?_writeLines_eq_lf b.breakFree_margin_self hl,
    Swallows]

/-- The line that is lost is empty. -/
theorem Swallows.eq_nil (h : b.Swallows l) {before : List Text} {m : Text}
    (hb : bodyLines b.text = before ++ [m]) : m ++ b.margin ++ l = [] := by
  obtain ⟨hr, hm, rfl, -⟩ := h
  have hl : (bodyLines b.text).getLast? = some [] := by
    rw [getLast?_bodyLines_eq_nil_iff]
    intro c hc
    obtain rfl := Option.some.inj (hr.symm.trans hc)
    decide
  have hn : m = [] := by simpa [hb] using hl
  simp [hn, hm]

end TextBuilder

/-- A body leaves the depth and the settings as they are. The open line goes on with the margin and
the body's first line, the other lines of the body follow, each behind the margin, and behind the
last terminator stands an empty line. Only where a carriage return swallows the first line feed, the
line that the body's first one would have made, which is empty, is lost. -/
theorem bodyLines_appendBody (b : TextBuilder) (t : Text) {before ls : List Text} {m l : Text}
    (hb : bodyLines b.text = before ++ [m]) (ht : bodyLines t = l :: ls) :
    (b.appendBody t).depth = b.depth ∧ (b.appendBody t).indent = b.indent ∧
      (b.appendBody t).lineEnding = b.lineEnding ∧
      (¬b.Swallows l → bodyLines (b.appendBody t).text =
        before ++ (m ++ b.margin ++ l) :: ls.map (b.margin ++ ·) ++ [[]]) ∧
      (b.Swallows l → m ++ b.margin ++ l = [] ∧ bodyLines (b.appendBody t).text =
        before ++ ls.map (b.margin ++ ·) ++ [[]]) := by
  have hf : ∀ k ∈ l :: ls, BreakFree k := fun k hk => breakFree_of_mem_bodyLines (ht ▸ hk)
  have hm : BreakFree b.margin := b.breakFree_margin_self
  rw [b.appendBody_eq_write, ht]
  refine ⟨rfl, rfl, rfl, ?_, ?_⟩
  · intro h
    have hs := not_not.mp ((TextBuilder.swallows_iff (hf l List.mem_cons_self) ls).not.mp h)
    rw [TextBuilder.write, bodyLines_append hs, bodyLines_writeLines_margin _ hm hf, hb, seam_snoc]
    simp
  · intro h
    refine ⟨h.eq_nil hb, ?_⟩
    obtain ⟨hr, hn, rfl, he⟩ := h
    obtain ⟨s, hs⟩ := List.getLast?_eq_some_iff.mp hr
    have hw : b.lineEnding.writeLines b.margin ([] :: ls) =
        '\n' :: b.lineEnding.writeLines b.margin ls := by
      simp [LineEnding.writeLines, LineEnding.terminator, hn, he]
    rw [TextBuilder.write, hw, hs, bodyLines_append_crlf, ← hs, hb, bodyLines_lf,
      bodyLines_writeLines_margin _ hm (List.forall_mem_cons.mp hf).2]
    simp

theorem bodyLines_appendBody_swallowed :
    let b := (TextBuilder.withWidth 2).write "a\r".toList
    let c := b.withLineEnding .crlf
    bodyLines b.text = [['a']] ++ [[]] ∧ bodyLines "\rb\n".toList = [] :: [['b'], []] ∧
      bodyLines (b.appendBody "\rb\n".toList).text = [['a'], ['b'], [], []] ∧
      bodyLines (c.appendBody "\rb\n".toList).text = [['a'], [], ['b'], [], []] := by
  intro b c
  have hb : bodyLines b.text = [['a']] ++ [[]] := by decide
  have ht : bodyLines "\rb\n".toList = [] :: [['b'], []] := by decide
  obtain ⟨-, -, -, -, swallowed⟩ := bodyLines_appendBody b _ hb ht
  obtain ⟨-, -, -, kept, -⟩ := bodyLines_appendBody c _ hb ht
  exact ⟨hb, ht, (swallowed (by decide)).2, kept (by decide)⟩

end SourceGen
