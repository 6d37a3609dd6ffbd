import SourceGen.Proofs.Builder.Simulation
import SourceGen.Proofs.Builder.Stroke

/-! # Line endings are rendering

As long as the texts written within lines hold no line feeds, the terminator decides nothing: a
run under one line ending shows what the run under line feeds shows, with another terminator in
the place of each line feed. Carriage returns may stand anywhere, since a line starts behind one
under every line ending. -/
namespace SourceGen

open Text

namespace LineEnding

/-- The text with the terminator in the place of every line feed. -/
def render (e : LineEnding) (t : Text) : Text :=
  t.flatMap fun c => if c = '\n' then e.terminator else [c]

@[simp] theorem render_nil (e : LineEnding) : e.render [] = [] := rfl

@[simp] theorem render_append (e : LineEnding) (s t : Text) :
    e.render (s ++ t) = e.render s ++ e.render t :=
  List.flatMap_append

@[simp] theorem render_lf (e : LineEnding) : e.render ['\n'] = e.terminator := by
  simp [render]

theorem render_eq_self (e : LineEnding) {t : Text} (h : '\n' ∉ t) : e.render t = t := by
  induction t with
  | nil => rfl
  | cons c t ih =>
    have hc : c ≠ '\n' := (List.ne_of_not_mem_cons h).symm
    have hr : t.flatMap _ = t := ih (List.not_mem_of_not_mem_cons h)
    simp [render, hc, hr]

/-- Every terminator ends in a line feed, so rendering keeps the last character. -/
theorem getLast?_render (e : LineEnding) (t : Text) : (e.render t).getLast? = t.getLast? := by
  rcases List.eq_nil_or_concat t with rfl | ⟨t, c, rfl⟩
  · rfl
  by_cases hc : c = '\n'
  · simp [List.concat_eq_append, hc, List.getLast?_append, e.getLast?_terminator]
  · have hs : e.render [c] = [c] := e.render_eq_self (by simpa using Ne.symm hc)
    simp [List.concat_eq_append, hs]

theorem isEmpty_render (e : LineEnding) (t : Text) : (e.render t).isEmpty = t.isEmpty := by
  rw [Bool.eq_iff_iff, List.isEmpty_iff, List.isEmpty_iff, ← List.getLast?_eq_none_iff,
    e.getLast?_render, List.getLast?_eq_none_iff]

theorem opensLine_render (e : LineEnding) (t : Text) (next : Char) :
    opensLine (e.render t) next = opensLine t next := by
  unfold opensLine
  rw [e.getLast?_render]

end LineEnding

def Report.render (e : LineEnding) : Report → Report
  | .text t => .text (e.render t)
  | .settings width _ => .settings width e
  | r => r

namespace Action

def setsLineEnding : Action → Bool
  | setLineEnding _ => true
  | _ => false

/-- The action leaves the line ending as it is and writes no line feeds within lines. -/
def Unterminated (a : Action) : Prop := ¬a.setsLineEnding ∧ ∀ t ∈ a.verbatim, '\n' ∉ t

instance : DecidablePred Unterminated := fun a =>
  inferInstanceAs (Decidable (¬a.setsLineEnding ∧ ∀ t ∈ a.verbatim, '\n' ∉ t))

theorem ending_notMem_strokes {a : Action} (ha : ¬a.setsLineEnding) (e : LineEnding) :
    .ending e ∉ a.strokes := by
  cases a with
  | setLineEnding e => exact absurd rfl ha
  | _ => simp [strokes, bodyStrokes]

theorem Unterminated.lf_notMem_body {a : Action} (ha : a.Unterminated) :
    ∀ s ∈ a.strokes, '\n' ∉ s.body := by
  have hok : ∀ c, isBreak c = false → c ≠ '\n' := by
    rintro c hc rfl
    simp [isBreak] at hc
  have hv : ∀ t ∈ a.verbatim, ∀ c ∈ t, c ≠ '\n' := by
    rintro t ht c hc rfl
    exact ha.2 t ht hc
  intro s hs hn
  exact forall_body hok hv s hs '\n' hn rfl

end Action

/-- The second builder holds the text of the first, rendered. -/
structure Renders (e : LineEnding) (b c : TextBuilder) : Prop where
  depth : c.depth = b.depth
  indent : c.indent = b.indent
  feeds : b.lineEnding = .lf
  lineEnding : c.lineEnding = e
  text : c.text = e.render b.text

namespace Renders

variable {e : LineEnding} {b c : TextBuilder}

theorem empty {b : TextBuilder} (hb : b.text = []) :
    Renders e (b.withLineEnding .lf) (b.withLineEnding e) :=
  ⟨rfl, rfl, rfl, rfl, by simp [TextBuilder.withLineEnding, hb]⟩

theorem atDepth (h : Renders e b c) (depth : Nat) : Renders e (b.atDepth depth) (c.atDepth depth) :=
  ⟨rfl, h.indent, h.feeds, h.lineEnding, h.text⟩

theorem write (h : Renders e b c) (t : Text) : Renders e (b.write t) (c.write (e.render t)) :=
  ⟨h.depth, h.indent, h.feeds, h.lineEnding, by simp [TextBuilder.write, h.text]⟩

theorem render_margin (indent : Indent) (depth : Nat) :
    e.render (indent.margin depth) = indent.margin depth := by
  apply e.render_eq_self
  intro hn
  exact absurd (List.eq_of_mem_replicate hn) (by decide)

theorem append (h : Renders e b c) {t : Text} (ht : '\n' ∉ t) :
    Renders e (b.append t) (c.append t) := by
  cases t with
  | nil => exact h
  | cons x t =>
    have hm : e.render (b.marginBefore x) = c.marginBefore x := by
      rw [TextBuilder.marginBefore, TextBuilder.marginBefore, h.text, e.opensLine_render,
        TextBuilder.margin, TextBuilder.margin, h.depth, h.indent]
      split
      · exact render_margin b.indent b.depth
      · rfl
    have hw := h.write (b.marginBefore x ++ x :: t)
    rwa [e.render_append, hm, e.render_eq_self ht] at hw

theorem line (h : Renders e b c) (levels : Int) {t : Text} (ht : '\n' ∉ t) :
    Renders e (b.stroke (.line levels t)) (c.stroke (.line levels t)) := by
  have hm : e.render (b.marginAt levels) = c.marginAt levels := by
    rw [TextBuilder.marginAt, TextBuilder.marginAt, h.depth, h.indent]
    exact render_margin b.indent _
  have hw := h.write (b.marginAt levels ++ t ++ b.lineEnding.terminator)
  rw [e.render_append, e.render_append, hm, e.render_eq_self ht, h.feeds] at hw
  simpa [TextBuilder.stroke, h.feeds, h.lineEnding, LineEnding.terminator] using hw

theorem stroke (h : Renders e b c) {s : Stroke} (hn : ∀ e, s ≠ .ending e)
    (hs : '\n' ∉ s.body) : Renders e (b.stroke s) (c.stroke s) := by
  cases s with
  | raw t => exact h.append hs
  | line levels t => exact h.line levels hs
  | blank =>
    have hw := h.write ['\n']
    rw [e.render_lf] at hw
    simpa [TextBuilder.stroke, TextBuilder.appendBlankLine, h.feeds, h.lineEnding,
      LineEnding.terminator] using hw
  | deeper => exact ⟨congrArg (· + 1) h.depth, h.indent, h.feeds, h.lineEnding, h.text⟩
  | shallower => exact ⟨congrArg (· - 1) h.depth, h.indent, h.feeds, h.lineEnding, h.text⟩
  | ending e' => exact absurd rfl (hn e')
  | clear => exact ⟨rfl, h.indent, h.feeds, h.lineEnding, rfl⟩

theorem apply (h : Renders e b c) {a : Action} (ha : a.Unterminated) :
    Renders e (a.apply b) (a.apply c) := by
  rw [Action.apply_eq_foldl, Action.apply_eq_foldl]
  apply List.foldl_rel h
  intro s hs b c h
  have hn : ∀ e, s ≠ .ending e := by
    rintro e rfl
    exact Action.ending_notMem_strokes ha.1 e hs
  exact h.stroke hn (ha.lf_notMem_body s hs)

theorem report (h : Renders e b c) (a : Action) :
    a.report? c = (a.report? b).map (Report.render e) := by
  cases a with
  | flush | snapshot | build | display =>
    simp [Action.report?, Report.render, TextBuilder.flush, h.text]
  | isEmpty => simp [Action.report?, Report.render, TextBuilder.isEmpty, h.text, e.isEmpty_render]
  | settings => simp [Action.report?, Report.render, h.indent, h.lineEnding]
  | _ => rfl

end Renders

theorem renders_simulation (e : LineEnding) :
    Simulation (Renders e) (fun r q => q = r.map (Report.render e)) Action.Unterminated where
  apply ha h := h.apply ha
  report {_ _ a} _ h := h.report a
  enter {b c} form h := by
    simpa [Machine.enter, h.depth] using h.atDepth (form.enter b.depth)
  leave {b c b' c'} h h' := by
    simpa [Machine.restore, Machine.depth, h.depth] using h'.atDepth b.depth
  depth h := by simp [Machine.depth, h.depth, Report.render]
  text h := by simp [Machine.text, h.text, Report.render]
  silent := rfl
  handled _ := rfl
  caught _ := rfl

/-- After every step, the run under any line ending is at the depth of the run under line feeds and
holds its text, rendered. The reports show the same texts, rendered as well. -/
theorem run_renders_lineEnding (e : LineEnding) {p : Program} (hp : p.Every Action.Unterminated)
    {b : TextBuilder} (hb : b.text = []) :
    Run.Related (fun b c => c.depth = b.depth ∧ c.text = e.render b.text)
      (fun r q => q = r.map (Report.render e))
      (p.run (b.withLineEnding .lf)) (p.run (b.withLineEnding e)) := by
  have hr := (renders_simulation e).run hp (Renders.empty hb)
  exact hr.mono fun h => ⟨h.depth, h.text⟩

theorem run_renders_lineEnding_mixed :
    let p := Program.ofList [
      .act (.append "a\r".toList),
      .act .appendBlankLine,
      .scope .indentWith 1 (.ofList [
        .act (.appendBody "b\r\nc".toList),
        .act (.append "d\r".toList),
        .act .snapshot]),
      .act .flush,
      .forEach [['x'], ['\r']] fun item => .act (.appendLine item)]
    let b := (TextBuilder.withWidth 1).atDepth 1
    p.Every Action.Unterminated ∧ b.text = [] ∧
      (p.run (b.withLineEnding .lf)).state.text = "x\n\r\n".toList ∧
      (p.run (b.withLineEnding .crlf)).state.text = "x\r\n\r\r\n".toList ∧
      Run.Related (fun b c => c.depth = b.depth ∧ c.text = LineEnding.crlf.render b.text)
        (fun r q => q = r.map (Report.render .crlf))
        (p.run (b.withLineEnding .lf)) (p.run (b.withLineEnding .crlf)) := by
  intro p b
  have hp : p.Every Action.Unterminated := by decide
  have hb : (p.run (b.withLineEnding .lf)).state.text = "x\n\r\n".toList := by decide
  have h := run_renders_lineEnding .crlf hp (b := b) rfl
  refine ⟨hp, rfl, hb, ?_, h⟩
  rw [h.state.2, hb]
  decide

end SourceGen
