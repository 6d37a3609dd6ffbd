import SourceGen.Proofs.Builder.Simulation
import SourceGen.Proofs.Builder.Stroke

/-! # Builders as documents of lines

A document keeps its finished lines apart from the open one and knows nothing of breaks. As
long as the texts written within lines hold no breaks of their own, a builder is such a document:
the lines of its text are the finished lines and the open one, whatever line endings were in use
on the way. -/
namespace SourceGen

open Text

structure LineDocument where
  finished : List Text := []
  current : Text := []
  depth : Nat := 0
  indent : Indent

namespace LineDocument

def lines (d : LineDocument) : List Text := d.finished ++ [d.current]

def finish (d : LineDocument) (t : Text) : LineDocument :=
  { d with finished := d.finished ++ [t], current := [] }

def marginAt (d : LineDocument) (levels : Int) : Text := d.indent.margin (d.depth + levels).toNat

/-- Text goes to the open line, which gets its margin with the first text. A line goes behind the
open line, margin included. Line endings make no difference. -/
def stroke (d : LineDocument) : Stroke → LineDocument
  | .raw [] => d
  | .raw t => { d with current := if d.current = [] then d.marginAt 0 ++ t else d.current ++ t }
  | .line levels t => d.finish (d.current ++ d.marginAt levels ++ t)
  | .blank => d.finish d.current
  | .deeper => { d with depth := d.depth + 1 }
  | .shallower => { d with depth := d.depth - 1 }
  | .ending _ => d
  | .clear => { indent := d.indent }

/-- Documents run programs as well. They answer no questions. -/
instance : Machine LineDocument where
  apply d a := a.strokes.foldl stroke d
  report? _ _ := none
  text d := ['\n'].intercalate d.lines
  depth d := d.depth
  enter d form := { d with depth := form.enter d.depth }
  restore d depth := { d with depth := depth }

end LineDocument

/-- The texts that the action writes within a line hold no breaks. -/
def Action.Plain (a : Action) : Prop := ∀ t ∈ a.verbatim, BreakFree t

instance : DecidablePred Action.Plain := fun a =>
  inferInstanceAs (Decidable (∀ t ∈ a.verbatim, BreakFree t))

theorem opensLine_iff_of_ne_lf (before : Text) {c : Char} (h : c ≠ '\n') :
    opensLine before c = true ↔ ∀ x, before.getLast? = some x → isBreak x = true := by
  unfold opensLine
  split <;> simp_all [isBreak]

/-- A margin is written where the last line is still empty. -/
theorem opensLine_iff_last_line (before : Text) {c : Char} (h : c ≠ '\n') :
    opensLine before c = true ↔ (bodyLines before).getLast? = some [] :=
  (opensLine_iff_of_ne_lf before h).trans (getLast?_bodyLines_eq_nil_iff before).symm

/-- The document shows the lines of the builder's text. No carriage return at the end waits for
its line feed. -/
structure Depicts (b : TextBuilder) (d : LineDocument) : Prop where
  depth : b.depth = d.depth
  indent : b.indent = d.indent
  lines : bodyLines b.text = d.lines
  settled : b.text.getLast? ≠ some '\r'

theorem breakFree_margin (indent : Indent) (depth : Nat) : BreakFree (indent.margin depth) := by
  intro c hc
  rw [List.eq_of_mem_replicate hc]
  decide

theorem bodyLines_terminated {t : Text} (h : BreakFree t) (e : LineEnding) :
    bodyLines (t ++ e.terminator) = [t, []] := by
  have he : bodyLines e.terminator = [[], []] := by
    cases e <;> simp [LineEnding.terminator, bodyLines]
  rw [bodyLines_breakFree_append h, he]
  simp [seam]

theorem getLast?_ne_cr_of_breakFree {t : Text} (h : BreakFree t) : t.getLast? ≠ some '\r' := by
  intro hl
  have hb := h '\r' (List.mem_of_getLast? hl)
  simp [isBreak] at hb

namespace Depicts

variable {b : TextBuilder} {d : LineDocument}

theorem empty {b : TextBuilder} (hb : b.text = []) :
    Depicts b { depth := b.depth, indent := b.indent } :=
  ⟨rfl, rfl, by simp [hb, bodyLines, LineDocument.lines], by simp [hb]⟩

theorem marginAt_eq (h : Depicts b d) (levels : Int) : b.marginAt levels = d.marginAt levels := by
  rw [TextBuilder.marginAt, LineDocument.marginAt, h.depth, h.indent]

theorem breakFree_behind_margin (d : LineDocument) (levels : Int) {t : Text} (ht : BreakFree t) :
    BreakFree (d.marginAt levels ++ t) :=
  List.forall_mem_append.mpr ⟨breakFree_margin d.indent _, ht⟩

theorem write_current (h : Depicts b d) {t : Text} (ht : BreakFree t) :
    Depicts (b.write t) { d with current := d.current ++ t } := by
  have hs := seamFree_of_getLast? h.settled t
  refine ⟨h.depth, h.indent, ?_, ?_⟩
  · rw [TextBuilder.write, bodyLines_append hs, bodyLines_breakFree ht, h.lines,
      LineDocument.lines, seam_snoc]
    simp [LineDocument.lines]
  · rw [TextBuilder.write, List.getLast?_append]
    cases hl : t.getLast? with
    | none => simpa using h.settled
    | some c => simpa [hl] using getLast?_ne_cr_of_breakFree ht

theorem write_finish (h : Depicts b d) {t : Text} (ht : BreakFree t) :
    Depicts (b.write (t ++ b.lineEnding.terminator)) (d.finish (d.current ++ t)) := by
  have hs := seamFree_of_getLast? h.settled (t ++ b.lineEnding.terminator)
  refine ⟨h.depth, h.indent, ?_, ?_⟩
  · rw [TextBuilder.write, bodyLines_append hs, bodyLines_terminated ht, h.lines,
      LineDocument.lines, seam_snoc]
    simp [LineDocument.lines, LineDocument.finish]
  · cases b.lineEnding <;> simp [TextBuilder.write, LineEnding.terminator]

/-- The builder looks at its last character, the document at its open line. -/
theorem opensLine_iff (h : Depicts b d) {c : Char} (hc : isBreak c = false) :
    opensLine b.text c = true ↔ d.current = [] := by
  have hlf : c ≠ '\n' := by rintro rfl; simp [isBreak] at hc
  rw [opensLine_iff_last_line b.text hlf, h.lines]
  simp [LineDocument.lines]

theorem raw (h : Depicts b d) {t : Text} (ht : BreakFree t) :
    Depicts (b.stroke (.raw t)) (d.stroke (.raw t)) := by
  cases t with
  | nil => exact h
  | cons c t =>
    have ho := h.opensLine_iff (ht c List.mem_cons_self)
    by_cases hd : d.current = []
    · have hm : b.marginBefore c = d.marginAt 0 := by
        rw [TextBuilder.marginBefore, if_pos (ho.mpr hd), ← h.marginAt_eq]
        simp [TextBuilder.margin, TextBuilder.marginAt]
      have hw := h.write_current (breakFree_behind_margin d 0 ht)
      simpa [TextBuilder.stroke, LineDocument.stroke, TextBuilder.append, hm, hd] using hw
    · have hm : b.marginBefore c = [] := by rw [TextBuilder.marginBefore, if_neg (ho.not.mpr hd)]
      simpa [TextBuilder.stroke, LineDocument.stroke, TextBuilder.append, hm, hd]
        using h.write_current ht

theorem line (h : Depicts b d) (levels : Int) {t : Text} (ht : BreakFree t) :
    Depicts (b.stroke (.line levels t)) (d.stroke (.line levels t)) := by
  have hw := h.write_finish (breakFree_behind_margin d levels ht)
  simpa [TextBuilder.stroke, LineDocument.stroke, h.marginAt_eq] using hw

theorem blank (h : Depicts b d) : Depicts (b.stroke .blank) (d.stroke .blank) := by
  have hn : BreakFree [] := by simp [BreakFree]
  simpa [TextBuilder.stroke, LineDocument.stroke, TextBuilder.appendBlankLine]
    using h.write_finish hn

theorem atDepth (h : Depicts b d) (depth : Nat) :
    Depicts (b.atDepth depth) { d with depth := depth } :=
  ⟨rfl, h.indent, h.lines, h.settled⟩

theorem stroke (h : Depicts b d) {s : Stroke} (hs : BreakFree s.body) :
    Depicts (b.stroke s) (d.stroke s) := by
  cases s with
  | raw t => exact h.raw hs
  | line levels t => exact h.line levels hs
  | blank => exact h.blank
  | deeper => exact ⟨congrArg (· + 1) h.depth, h.indent, h.lines, h.settled⟩
  | shallower => exact ⟨congrArg (· - 1) h.depth, h.indent, h.lines, h.settled⟩
  | ending e => exact ⟨h.depth, h.indent, h.lines, h.settled⟩
  | clear =>
    have hc := empty (b := b.clear) rfl
    exact ⟨rfl, h.indent, hc.lines, hc.settled⟩

theorem strokes {ss : List Stroke} (hs : ∀ s ∈ ss, BreakFree s.body) (h : Depicts b d) :
    Depicts (ss.foldl TextBuilder.stroke b) (ss.foldl LineDocument.stroke d) := by
  induction ss generalizing b d with
  | nil => exact h
  | cons s ss ih =>
    obtain ⟨hb, hs⟩ := List.forall_mem_cons.mp hs
    exact ih hs (h.stroke hb)

end Depicts

theorem depicts_simulation : Simulation Depicts (fun _ _ => True) Action.Plain where
  apply {b d a} ha h := by
    have hs := Action.forall_body (fun _ hc => hc) ha
    have hd := h.strokes hs
    rwa [← Action.apply_eq_foldl] at hd
  report _ _ := trivial
  enter {b d} form h := by
    simpa [Machine.enter, h.depth] using h.atDepth (form.enter b.depth)
  leave {b d b' d'} h h' := by
    simpa [Machine.restore, Machine.depth, h.depth] using h'.atDepth b.depth
  depth _ := trivial
  text _ := trivial
  silent := trivial
  handled _ := trivial
  caught _ := trivial

/-- After every step of every program whose texts hold no breaks within lines, the lines of the
builder's text are the lines of the document that ran the same program. -/
theorem run_lines_eq_document {p : Program} (hp : p.Every Action.Plain) {b : TextBuilder}
    (hb : b.text = []) :
    Run.Related (fun b d => bodyLines b.text = d.finished ++ [d.current] ∧ b.depth = d.depth)
      (fun _ _ => True) (p.run b)
      (p.run ({ depth := b.depth, indent := b.indent } : LineDocument)) :=
  (depicts_simulation.run hp (.empty hb)).mono fun h => ⟨h.lines, h.depth⟩

theorem run_lines_eq_document_mixed :
    let p := Program.ofList [
      .act (.append ['a']),
      .scope .indentWith 2 (.ofList [
        .act (.appendLine ['b']),
        .act (.setLineEnding .crlf),
        .act (.appendBody "c\rd\n".toList)]),
      .forEach [['x'], ['y']] fun item => .act (.appendLineIndented item),
      .attempt 1 false (.seq (.act .appendBlankLine) (.fail "no".toList)),
      .scope .unindented 1 (.act (.appendChar 'z'))]
    let b := TextBuilder.withWidth 1
    p.Every Action.Plain ∧ b.text = [] ∧
      (p.run b).state.text = "a  b\n  c\r\n  d\r\n  \r\n x\r\n y\r\n\r\nz".toList ∧
      bodyLines (p.run b).state.text =
        ["a  b", "  c", "  d", "  ", " x", " y", "", "z"].map String.toList := by
  intro p b
  have hp : p.Every Action.Plain := by decide
  have h := run_lines_eq_document hp (b := b) rfl
  exact ⟨hp, rfl, by decide, h.state.1.trans (by decide)⟩

end SourceGen
