import SourceGen.Proofs.Builder.Body
import SourceGen.Proofs.Builder.Script

/-! # Deeper programs and indented texts

Some programs write whole lines only and never ask for less than no indentation. Such a program
may run at any depth, or its text may be written line by line at that depth: the lines are the
same. -/
namespace SourceGen

open Text

theorem Indent.margin_add {indent : Indent} {k depth : Nat}
    (h : indent.width * (k + depth) ≤ columnLimit) :
    indent.margin (k + depth) = indent.margin k ++ indent.margin depth := by
  have hm := Nat.mul_add indent.width k depth
  rw [margin, margin, margin, columns_eq_of_le h, columns_eq_of_le (by omega),
    columns_eq_of_le (by omega), hm, List.replicate_add]

/-- The action writes whole lines, or moves the depth by one, or only looks. -/
def Action.linewise : Action → Bool
  | .append _ | .appendChar _ | .writeText _ | .writeChar _ | .writePair _ _ => false
  | .appendComment _ | .appendBlankLine | .setLineEnding _ | .clear | .flush => false
  | _ => true

/-- The action is one of lines, and those it is given hold no breaks. -/
def Action.Lined (a : Action) : Prop := a.linewise ∧ a.Plain

instance : DecidablePred Action.Lined := fun a =>
  inferInstanceAs (Decidable (a.linewise ∧ a.Plain))

/-- The stroke asks for no depth below zero. -/
def Stroke.Unclamped (depth : Nat) : Stroke → Prop
  | shallower => 0 < depth
  | line levels _ => 0 ≤ depth + levels
  | _ => True

instance (depth : Nat) : DecidablePred (Stroke.Unclamped depth)
  | .shallower => inferInstanceAs (Decidable (0 < depth))
  | .line levels _ => inferInstanceAs (Decidable (0 ≤ depth + levels))
  | .raw _ | .blank | .deeper | .ending _ | .clear => isTrue trivial

def Scope.Unclamped (depth : Nat) : Scope → Prop
  | indentWith | indented => True
  | unindentWith | unindented => 0 < depth

instance (depth : Nat) : DecidablePred (Scope.Unclamped depth)
  | .indentWith | .indented => isTrue trivial
  | .unindentWith | .unindented => inferInstanceAs (Decidable (0 < depth))

def Moment.Unclamped : Moment TextBuilder → Prop
  | ⟨b, .act a⟩ => ∀ s ∈ a.strokes, s.Unclamped b.depth
  | ⟨b, .enter form⟩ => form.Unclamped b.depth

instance : DecidablePred Moment.Unclamped
  | ⟨b, .act a⟩ => inferInstanceAs (Decidable (∀ s ∈ a.strokes, s.Unclamped b.depth))
  | ⟨b, .enter form⟩ => inferInstanceAs (Decidable (form.Unclamped b.depth))

/-- No margin that the stroke may write is cut off at the column limit. -/
def Stroke.Unsaturated (b : TextBuilder) : Stroke → Prop
  | raw _ => b.indent.width * b.depth ≤ columnLimit
  | line levels _ => b.indent.width * (b.depth + levels).toNat ≤ columnLimit
  | _ => True

instance (b : TextBuilder) : DecidablePred (Stroke.Unsaturated b)
  | .raw _ => inferInstanceAs (Decidable (b.indent.width * b.depth ≤ columnLimit))
  | .line levels _ =>
    inferInstanceAs (Decidable (b.indent.width * (b.depth + levels).toNat ≤ columnLimit))
  | .blank | .deeper | .shallower | .ending _ | .clear => isTrue trivial

def Moment.Unsaturated : Moment TextBuilder → Prop
  | ⟨b, .act a⟩ => ∀ s ∈ a.strokes, s.Unsaturated b
  | ⟨_, .enter _⟩ => True

instance : DecidablePred Moment.Unsaturated
  | ⟨b, .act a⟩ => inferInstanceAs (Decidable (∀ s ∈ a.strokes, s.Unsaturated b))
  | ⟨_, .enter _⟩ => isTrue trivial

/-- Apart from the actions that move the depth, the linewise ones are sequences of lines. -/
theorem Action.strokes_of_linewise {a : Action} (ha : a.linewise) :
    a = .indent ∨ a = .unindent ∨ ∀ s ∈ a.strokes, ∃ levels t, s = .line levels t := by
  cases a with
  | append t | appendChar c | writeText t | writeChar c | writePair l r => cases ha
  | appendComment t | appendBlankLine | setLineEnding e | clear | flush => cases ha
  | indent => exact .inl rfl
  | unindent => exact .inr (.inl rfl)
  | appendBodies items | appendBodiesBy items format =>
    right; right
    intro s hs
    obtain ⟨item, -, hs⟩ := List.mem_flatMap.mp hs
    obtain ⟨l, -, rfl⟩ := List.mem_map.mp hs
    exact ⟨0, l, rfl⟩
  | appendMultipleUsings sources =>
    right; right
    intro s hs
    obtain ⟨ns, -, rfl⟩ := List.mem_map.mp hs
    exact ⟨0, TextBuilder.usingDirective ns, rfl⟩
  | _ => exact .inr (.inr (by simp [strokes, bodyStrokes]))

/-- Builders of the same settings, the second a number of levels deeper than the first. It holds the
lines of the first, that much further to the right. -/
structure Shifted (indent : Indent) (e : LineEnding) (k : Nat) (b c : TextBuilder) : Prop where
  depth : c.depth = k + b.depth
  indents : b.indent = indent ∧ c.indent = indent
  endings : b.lineEnding = e ∧ c.lineEnding = e
  lines : ∃ ls, (∀ l ∈ ls, BreakFree l) ∧ b.text = e.writeLines [] ls ∧
    c.text = e.writeLines (indent.margin k) ls

namespace Shifted

variable {indent : Indent} {e : LineEnding} {k : Nat} {b c b' c' : TextBuilder}

theorem empty {b : TextBuilder} (hb : b.text = []) (hd : b.depth = 0) (k : Nat) :
    Shifted b.indent b.lineEnding k b (b.atDepth k) :=
  ⟨by simp [TextBuilder.atDepth, hd], ⟨rfl, rfl⟩, ⟨rfl, rfl⟩, [], by simp, hb, hb⟩

theorem line (h : Shifted indent e k b c) {levels : Int} {t : Text} (ht : BreakFree t)
    (hu : 0 ≤ b.depth + levels)
    (hs : c.indent.width * (c.depth + levels).toNat ≤ columnLimit) :
    Shifted indent e k (b.stroke (.line levels t)) (c.stroke (.line levels t)) := by
  obtain ⟨hd, ⟨hib, hic⟩, ⟨heb, hec⟩, ls, hl, htb, htc⟩ := h
  have hn : (c.depth + levels).toNat = k + (b.depth + levels).toNat := by omega
  rw [hn, hic] at hs
  have hm : c.marginAt levels = indent.margin k ++ b.marginAt levels := by
    rw [TextBuilder.marginAt, TextBuilder.marginAt, hn, hib, hic, Indent.margin_add hs]
  have hf : BreakFree (b.marginAt levels ++ t) :=
    List.forall_mem_append.mpr ⟨breakFree_margin b.indent _, ht⟩
  refine ⟨hd, ⟨hib, hic⟩, ⟨heb, hec⟩, ls ++ [b.marginAt levels ++ t], ?_, ?_, ?_⟩
  · exact List.forall_mem_append.mpr ⟨hl, by simpa using hf⟩
  · simp [TextBuilder.stroke, TextBuilder.write, LineEnding.writeLines, htb, heb]
  · simp [TextBuilder.stroke, TextBuilder.write, LineEnding.writeLines, htc, hm, hec]

/-- Lines leave the depths as they are, so the conditions on all of them may speak of the start. -/
theorem lines_of_forall {ss : List Stroke} (h : Shifted indent e k b c)
    (hl : ∀ s ∈ ss, ∃ levels t, s = .line levels t) (hf : ∀ s ∈ ss, BreakFree s.body)
    (hu : ∀ s ∈ ss, s.Unclamped b.depth) (hs : ∀ s ∈ ss, s.Unsaturated c) :
    Shifted indent e k (ss.foldl TextBuilder.stroke b) (ss.foldl TextBuilder.stroke c) := by
  induction ss generalizing b c with
  | nil => exact h
  | cons s ss ih =>
    obtain ⟨⟨levels, t, rfl⟩, hls⟩ := List.forall_mem_cons.mp hl
    obtain ⟨hf₁, hf⟩ := List.forall_mem_cons.mp hf
    obtain ⟨hu₁, hu⟩ := List.forall_mem_cons.mp hu
    obtain ⟨hs₁, hs⟩ := List.forall_mem_cons.mp hs
    exact ih (h.line hf₁ hu₁ hs₁) hls hf hu hs

theorem apply (h : Shifted indent e k b c) {a : Action} (ha : a.Lined)
    (hu : ∀ s ∈ a.strokes, s.Unclamped b.depth) (hs : ∀ s ∈ a.strokes, s.Unsaturated c) :
    Shifted indent e k (Machine.apply b a) (Machine.apply c a) := by
  have hd := h.depth
  rcases Action.strokes_of_linewise ha.1 with rfl | rfl | hl
  · have hd' : c.depth + 1 = k + (b.depth + 1) := by omega
    exact ⟨hd', h.indents, h.endings, h.lines⟩
  · have hp : 0 < b.depth := hu .shallower List.mem_cons_self
    have hd' : c.depth - 1 = k + (b.depth - 1) := by omega
    exact ⟨hd', h.indents, h.endings, h.lines⟩
  · have hf := Action.forall_body (fun _ h => h) ha.2
    have hr := h.lines_of_forall hl hf hu hs
    rwa [← Action.apply_eq_foldl, ← Action.apply_eq_foldl] at hr

theorem enter (h : Shifted indent e k b c) {form : Scope} (hu : form.Unclamped b.depth) :
    Shifted indent e k (Machine.enter b form) (Machine.enter c form) := by
  have hd : form.enter c.depth = k + form.enter b.depth := by
    have hd := h.depth
    cases form <;> simp only [Scope.enter, Scope.Unclamped] at hu ⊢ <;> omega
  exact ⟨hd, h.indents, h.endings, h.lines⟩

theorem restore (h : Shifted indent e k b c) (h' : Shifted indent e k b' c') :
    Shifted indent e k (Machine.restore b' (Machine.depth b))
      (Machine.restore c' (Machine.depth c)) :=
  ⟨h.depth, h'.indents, h'.endings, h'.lines⟩

theorem play {script : Script} (h : Shifted indent e k b c) (hl : script.Every Action.Lined)
    (hu : ∀ m ∈ script.moments b, m.Unclamped) (hs : ∀ m ∈ script.moments c, m.Unsaturated) :
    Shifted indent e k (script.play b) (script.play c) := by
  induction script generalizing b c with
  | done => exact h
  | act a rest ih =>
    obtain ⟨hu₁, hu⟩ := List.forall_mem_cons.mp hu
    obtain ⟨hs₁, hs⟩ := List.forall_mem_cons.mp hs
    exact ih (h.apply hl.1 hu₁ hs₁) hl.2 hu hs
  | scope form body rest ihb ih =>
    obtain ⟨hu₁, hu⟩ := List.forall_mem_cons.mp hu
    obtain ⟨hub, hu⟩ := List.forall_mem_append.mp hu
    obtain ⟨hsb, hs⟩ := List.forall_mem_append.mp (List.forall_mem_cons.mp hs).2
    have hb := ihb (h.enter hu₁) hl.1 hub hsb
    exact ih (h.restore hb) hl.2 hu hs

/-- Behind the lines of the text stands its last line, which is empty. -/
theorem text_appendBody (h : Shifted indent e k b c) {d : TextBuilder} (ht : d.text = [])
    (hd : d.depth = k) (hi : d.indent = indent) (he : d.lineEnding = e) :
    (d.appendBody b.text).text = c.text ++ indent.margin k ++ e.terminator := by
  obtain ⟨ls, hl, htb, htc⟩ := h.lines
  rw [TextBuilder.appendBody_eq_write, htb, bodyLines_writeLines e hl, he, htc]
  simp [LineEnding.writeLines, TextBuilder.write, TextBuilder.margin, ht, hd, hi]

end Shifted

/-- A program of lines that never unindents at depth zero may run at any depth at which no margin
is cut off. It writes what it writes at depth zero, every line that much deeper: the same as a body
made of its text, but for the empty line behind the last terminator. -/
theorem appendBody_run_eq_run_deeper {p : Program} (hp : p.Every Action.Lined) {b : TextBuilder}
    (ht : b.text = []) (hd : b.depth = 0) {k : Nat} (hu : ∀ m ∈ p.moments b, m.Unclamped)
    (hs : ∀ m ∈ p.moments (b.atDepth k), m.Unsaturated) :
    ((b.atDepth k).appendBody (p.run b).state.text).text =
      (p.run (b.atDepth k)).state.text ++ b.indent.margin k ++ b.lineEnding.terminator := by
  have h := (Shifted.empty ht hd k).play hp.script hu hs
  rw [← p.run_state, ← p.run_state] at h
  exact h.text_appendBody ht rfl rfl rfl

theorem appendBody_run_eq_run_deeper_mixed :
    let p := Program.ofList [
      .act .appendAutoGenerated,
      .scope .indentWith 2 (.ofList [
        .act (.appendBody "a\r\n\rb".toList),
        .act .unindent,
        .act (.appendLine ['c'])]),
      .act .indent,
      .forEach [['x'], []] fun item => .scope .unindented 1 (.act (.appendLineIndented item))]
    let b := (TextBuilder.withWidth 1).withLineEnding .crlf
    p.Every Action.Lined ∧ b.text = [] ∧ b.depth = 0 ∧
      (∀ m ∈ p.moments b, m.Unclamped) ∧ (∀ m ∈ p.moments (b.atDepth 2), m.Unsaturated) ∧
      (p.run b).state.text =
        "// <auto-generated />\r\n  a\r\n  \r\n  b\r\n c\r\n x\r\n \r\n".toList ∧
      ((b.atDepth 2).appendBody (p.run b).state.text).text =
        (p.run (b.atDepth 2)).state.text ++ "  \r\n".toList := by
  intro p b
  have hp : p.Every Action.Lined := by decide
  have hu : ∀ m ∈ p.moments b, m.Unclamped := by decide
  have hs : ∀ m ∈ p.moments (b.atDepth 2), m.Unsaturated := by decide
  have h := appendBody_run_eq_run_deeper hp (b := b) rfl rfl hu hs
  exact ⟨hp, rfl, rfl, hu, hs, by decide, h.trans (List.append_assoc _ _ _)⟩

end SourceGen
