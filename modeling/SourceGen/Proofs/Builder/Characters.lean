import SourceGen.Proofs.Builder.Body
import SourceGen.Proofs.Builder.Pieces

/-! # Texts character by character

A builder that is given a text one character at a time decides on a margin at each of them. If the
breaks in the text are its own terminators, it comes to the same lines as if the text were a body.
Only an empty last line gets no margin, since no character stands in it. -/
namespace SourceGen

open Text

/-- Every break in the text is the terminator. -/
def LineEnding.Uniform : LineEnding → Text → Prop
  | lf, t => '\r' ∉ t
  | crlf, t => t.head? ≠ some '\n' ∧ t.getLast? ≠ some '\r' ∧
      t.IsChain fun c d => c = '\r' ↔ d = '\n'

instance (e : LineEnding) : DecidablePred e.Uniform := fun t =>
  match e with
  | .lf => inferInstanceAs (Decidable ('\r' ∉ t))
  | .crlf => inferInstanceAs (Decidable (_ ∧ _ ∧ List.IsChain _ _))

namespace LineEnding

theorem uniform_crlf_of_cons {c : Char} {t : Text} (hc : c ≠ '\r')
    (hl : (c :: t).getLast? ≠ some '\r') (h : (c :: t).IsChain fun c d => c = '\r' ↔ d = '\n') :
    crlf.Uniform t := by
  obtain ⟨hd, ht⟩ := List.isChain_cons.mp h
  refine ⟨?_, ?_, ht⟩
  · intro hn
    exact hc ((hd '\n' hn).mpr rfl)
  · intro hr
    exact hl (by simp [List.getLast?_cons, hr])

theorem intercalate_nil_cons (sep : Text) {ls : List Text} (h : ls ≠ []) :
    sep.intercalate ([] :: ls) = sep ++ sep.intercalate ls := by
  obtain ⟨l, ls, rfl⟩ := List.exists_cons_of_ne_nil h
  simp [List.intercalate_cons_cons]

theorem intercalate_seam_singleton (sep l : Text) {ls : List Text} (h : ls ≠ []) :
    sep.intercalate (seam [l] ls) = l ++ sep.intercalate ls := by
  obtain ⟨k, ls, rfl⟩ := List.exists_cons_of_ne_nil h
  cases ls <;> simp [seam, List.intercalate_cons_cons]

/-- The text is its lines with terminators between them. -/
theorem Uniform.intercalate_bodyLines {e : LineEnding} {t : Text} (h : e.Uniform t) :
    e.terminator.intercalate (bodyLines t) = t := by
  induction t using break_induction with
  | nil => simp [bodyLines]
  | lf t ih =>
    cases e with
    | lf =>
      rw [bodyLines_lf, intercalate_nil_cons _ (bodyLines_ne_nil t),
        ih (List.not_mem_of_not_mem_cons h)]
      rfl
    | crlf => exact absurd rfl h.1
  | crlf t ih =>
    cases e with
    | lf => exact absurd List.mem_cons_self h
    | crlf =>
      have ht : crlf.Uniform t := uniform_crlf_of_cons (by decide) h.2.1 h.2.2.tail
      rw [bodyLines_crlf, intercalate_nil_cons _ (bodyLines_ne_nil t), ih ht]
      rfl
  | cr t hlf _ =>
    cases e with
    | lf => exact absurd List.mem_cons_self h
    | crlf =>
      cases t with
      | nil => exact absurd rfl h.2.1
      | cons d t => exact absurd (congrArg some (h.2.2.rel.mp rfl)) hlf
  | char c t hc ih =>
    have ht : e.Uniform t := by
      cases e with
      | lf => exact List.not_mem_of_not_mem_cons h
      | crlf =>
        have hr : c ≠ '\r' := by
          rintro rfl
          cases hc
        exact uniform_crlf_of_cons hr h.2.1 h.2.2
    rw [bodyLines_cons hc, intercalate_seam_singleton _ _ (bodyLines_ne_nil t), ih ht,
      List.singleton_append]

end LineEnding

theorem joins_of_not_isBreak {c : Char} (hc : isBreak c = false) (q : Text) : Joins [c] q := by
  constructor
  · intro h
    obtain rfl := Option.some.inj h
    cases hc
  · intro h
    obtain rfl := Option.some.inj h
    cases hc

theorem isChain_joins_append {l t : Text} (hl : BreakFree l)
    (ht : (t.map ([·])).IsChain Joins) : ((l ++ t).map ([·])).IsChain Joins := by
  induction l with
  | nil => exact ht
  | cons c l ih =>
    obtain ⟨hc, hl⟩ := List.forall_mem_cons.mp hl
    exact List.isChain_cons.mpr ⟨fun q _ => joins_of_not_isBreak hc q, ih hl⟩

namespace TextBuilder

variable {b : TextBuilder} {l : Text}

/-- The open line is empty, and no carriage return waits for a line feed. -/
def AtLineStart (b : TextBuilder) : Prop := b.text = [] ∨ b.text.getLast? = some '\n'

instance (b : TextBuilder) : Decidable b.AtLineStart :=
  inferInstanceAs (Decidable (_ ∨ _))

theorem atLineStart_appendLine (b : TextBuilder) (t : Text) : (b.appendLine t).AtLineStart := by
  right
  simp [appendLine, write, List.getLast?_append, LineEnding.getLast?_terminator]

theorem appendPieces_characters {t : Text} (h : (t.map ([·])).IsChain Joins) :
    b.appendPieces (t.map ([·])) = b.append t := by
  have hn : (t.map ([·])).filter (· ≠ []) = t.map ([·]) := by simp
  have hf : (t.map ([·])).flatten = t := by simp [← List.flatMap_def]
  have hj := (b.appendPieces_eq_append_flatten_iff (t.map ([·]))).mpr (.inr (hn.symm ▸ h))
  rwa [hf] at hj

theorem AtLineStart.append_eq (hb : b.AtLineStart) {t : Text} (ht : t ≠ []) :
    b.append t = b.write (b.margin ++ t) := by
  obtain ⟨c, t, rfl⟩ := List.exists_cons_of_ne_nil ht
  have ho : opensLine b.text c = true := by
    rcases hb with hb | hb <;> simp [opensLine, hb]
  rw [append, marginBefore, if_pos ho]

/-- The characters of a line and its terminator. -/
theorem AtLineStart.appendPieces_terminated (hb : b.AtLineStart) (hl : BreakFree l) :
    b.appendPieces ((l ++ b.lineEnding.terminator).map ([·])) = b.appendLine l := by
  have ht : (b.lineEnding.terminator.map ([·])).IsChain Joins := by
    cases b.lineEnding <;> decide
  have hn : l ++ b.lineEnding.terminator ≠ [] := by
    cases b.lineEnding <;> simp [LineEnding.terminator]
  rw [appendPieces_characters (isChain_joins_append hl ht), hb.append_eq hn, appendLine,
    List.append_assoc]

/-- The characters of the last line, which gets no margin of them if it is empty. -/
theorem AtLineStart.appendLine_eq (hb : b.AtLineStart) (hl : BreakFree l) :
    b.appendLine l = (b.appendPieces (l.map ([·]))).write
      ((if l = [] then b.margin else []) ++ b.lineEnding.terminator) := by
  by_cases hn : l = []
  · subst hn
    simp [appendLine, appendPieces]
  · have hj : (l.map ([·])).IsChain Joins := by
      simpa using isChain_joins_append hl (t := []) .nil
    rw [appendPieces_characters hj, hb.append_eq hn, write_write, if_neg hn, appendLine,
      List.nil_append]

/-- Every terminator brings the builder to the start of a line, where the next line is written in
the same way. -/
theorem AtLineStart.foldl_appendLine_eq (hb : b.AtLineStart) {ls : List Text} (hn : ls ≠ [])
    (hl : ∀ l ∈ ls, BreakFree l) :
    ls.foldl appendLine b =
      (b.appendPieces ((b.lineEnding.terminator.intercalate ls).map ([·]))).write
        ((if ls.getLast? = some [] then b.margin else []) ++ b.lineEnding.terminator) := by
  induction ls generalizing b with
  | nil => exact absurd rfl hn
  | cons l ls ih =>
    obtain ⟨hf, hl⟩ := List.forall_mem_cons.mp hl
    cases ls with
    | nil => simpa using hb.appendLine_eq hf
    | cons k ls =>
      have ha := b.atLineStart_appendLine l
      have hs : b.appendPieces ((b.lineEnding.terminator.intercalate (l :: k :: ls)).map ([·])) =
          (b.appendLine l).appendPieces
            ((b.lineEnding.terminator.intercalate (k :: ls)).map ([·])) := by
        rw [List.intercalate_cons_cons, List.map_append, ← hb.appendPieces_terminated hf]
        exact List.foldl_append
      rw [List.foldl_cons, ih ha (List.cons_ne_nil k ls) hl, hs, List.getLast?_cons_cons]
      rfl

end TextBuilder

/-- At the start of a line, a body whose breaks are all the builder's terminator is what its
characters leave one by one, but for the end: the last line gets its margin if it is empty, and its
terminator. -/
theorem appendBody_eq_characters {b : TextBuilder} (hb : b.AtLineStart) {t : Text}
    (ht : b.lineEnding.Uniform t) {calls : List Action}
    (hc : calls.map Action.piece? = t.map fun c => some [c]) :
    b.appendBody t = (calls.foldl Action.apply b).write
        ((if (bodyLines t).getLast? = some [] then b.margin else []) ++ b.lineEnding.terminator) ∧
      (b.appendBody t).depth = b.depth := by
  have hp : calls.map Action.piece? = (t.map ([·])).map some := by rw [hc, List.map_map]; rfl
  refine ⟨?_, by rw [b.appendBody_eq_write]; rfl⟩
  have hl := hb.foldl_appendLine_eq (bodyLines_ne_nil t)
    fun l hl => breakFree_of_mem_bodyLines hl
  rwa [ht.intercalate_bodyLines, ← Action.foldl_apply_of_pieces hp] at hl

theorem appendBody_eq_characters_crlf :
    let b := (((TextBuilder.withWidth 2).withLineEnding .crlf).atDepth 1).write ['\n']
    let t := "\r\na\r\n".toList
    let calls : List Action := [.appendChar '\r', .writeChar '\n', .appendChar 'a', .writeChar '\r',
      .appendChar '\n']
    b.AtLineStart ∧ b.lineEnding.Uniform t ∧
      calls.map Action.piece? = t.map (fun c => some [c]) ∧
      calls.foldl Action.apply b = b.write "  \r\n  a\r\n".toList ∧
      b.appendBody t = (calls.foldl Action.apply b).write "  \r\n".toList := by
  intro b t calls
  have hb : b.AtLineStart := by decide
  have ht : b.lineEnding.Uniform t := by decide
  have hc : calls.map Action.piece? = t.map fun c => some [c] := rfl
  exact ⟨hb, ht, hc, by decide, (appendBody_eq_characters hb ht hc).1⟩

end SourceGen
