import SourceGen.Proofs.Builder.Script
import SourceGen.Proofs.Builder.Stroke

/-! # Locality

A builder never changes the text it holds, short of clearing it, and looks at no more of it than
the way it ends. So two builders with the same settings whose texts end alike write the same. -/
namespace SourceGen

/-- How a text ends, as far as the next append can tell. -/
inductive LineClass where
  | lineStart
  | carriageReturn
  | withinLine
  deriving DecidableEq

def lineClass (t : Text) : LineClass :=
  match t.getLast? with
  | none => .lineStart
  | some '\n' => .lineStart
  | some '\r' => .carriageReturn
  | some _ => .withinLine

def LineClass.opens : LineClass → Char → Bool
  | lineStart, _ => true
  | carriageReturn, next => next != '\n'
  | withinLine, _ => false

theorem opensLine_eq_opens (t : Text) (next : Char) : opensLine t next = (lineClass t).opens next := by
  unfold opensLine lineClass
  split <;> simp_all [LineClass.opens]

theorem lineClass_append_eq {s t : Text} (h : lineClass s = lineClass t) (u : Text) :
    lineClass (s ++ u) = lineClass (t ++ u) := by
  rcases List.eq_nil_or_concat u with rfl | ⟨u, c, rfl⟩
  · simpa using h
  · simp [lineClass, List.concat_eq_append, ← List.append_assoc]

namespace TextBuilder

/-- Builders that differ in the text they hold at most, but not in the way it ends. -/
structure Alike (b c : TextBuilder) : Prop where
  depth : b.depth = c.depth
  indent : b.indent = c.indent
  lineEnding : b.lineEnding = c.lineEnding
  ending : lineClass b.text = lineClass c.text

/-- The builders `b'` and `c'` came from `b` and `c` by writing the same. -/
structure WroteSame (b c b' c' : TextBuilder) : Prop where
  alike : b'.Alike c'
  suffix : ∃ u, b'.text = b.text ++ u ∧ c'.text = c.text ++ u

namespace WroteSame

variable {b c b' c' b'' c'' : TextBuilder}

theorem nothing (h : b'.Alike c') (hb : b'.text = b.text) (hc : c'.text = c.text) :
    WroteSame b c b' c' :=
  ⟨h, [], by simp [hb], by simp [hc]⟩

theorem write (h : b.Alike c) (t : Text) : WroteSame b c (b.write t) (c.write t) :=
  ⟨⟨h.depth, h.indent, h.lineEnding, lineClass_append_eq h.ending t⟩, t, rfl, rfl⟩

theorem trans (h : WroteSame b c b' c') (h' : WroteSame b' c' b'' c'') :
    WroteSame b c b'' c'' := by
  obtain ⟨u, hb, hc⟩ := h.suffix
  obtain ⟨v, hb', hc'⟩ := h'.suffix
  exact ⟨h'.alike, u ++ v, by simp [hb', hb], by simp [hc', hc]⟩

end WroteSame

namespace Alike

variable {b c : TextBuilder}

theorem atDepth (h : b.Alike c) (depth : Nat) : (b.atDepth depth).Alike (c.atDepth depth) :=
  ⟨rfl, h.indent, h.lineEnding, h.ending⟩

theorem append (h : b.Alike c) (t : Text) : WroteSame b c (b.append t) (c.append t) := by
  cases t with
  | nil => exact .nothing h rfl rfl
  | cons x t =>
    have hm : b.marginBefore x = c.marginBefore x := by
      simp only [marginBefore, opensLine_eq_opens, margin, h.ending, h.depth, h.indent]
    simpa only [TextBuilder.append, hm] using WroteSame.write h (c.marginBefore x ++ x :: t)

theorem line (h : b.Alike c) (levels : Int) (t : Text) :
    WroteSame b c (b.stroke (.line levels t)) (c.stroke (.line levels t)) := by
  have hm : b.marginAt levels = c.marginAt levels := by simp [marginAt, h.depth, h.indent]
  simpa only [TextBuilder.stroke, hm, h.lineEnding]
    using WroteSame.write h (c.marginAt levels ++ t ++ c.lineEnding.terminator)

theorem stroke (h : b.Alike c) {s : Stroke} (hs : s ≠ .clear) :
    WroteSame b c (b.stroke s) (c.stroke s) := by
  cases s with
  | raw t => exact h.append t
  | line levels t => exact h.line levels t
  | blank =>
    simpa only [TextBuilder.stroke, appendBlankLine, h.lineEnding]
      using WroteSame.write h c.lineEnding.terminator
  | deeper => exact .nothing ⟨congrArg (· + 1) h.depth, h.indent, h.lineEnding, h.ending⟩ rfl rfl
  | shallower => exact .nothing ⟨congrArg (· - 1) h.depth, h.indent, h.lineEnding, h.ending⟩ rfl rfl
  | ending e => exact .nothing ⟨h.depth, h.indent, rfl, h.ending⟩ rfl rfl
  | clear => exact absurd rfl hs

theorem strokes {ss : List Stroke} (hs : .clear ∉ ss) (h : b.Alike c) :
    WroteSame b c (ss.foldl TextBuilder.stroke b) (ss.foldl TextBuilder.stroke c) := by
  induction ss generalizing b c with
  | nil => exact .nothing h rfl rfl
  | cons s ss ih =>
    have hw := h.stroke (List.ne_of_not_mem_cons hs).symm
    exact hw.trans (ih (List.not_mem_of_not_mem_cons hs) hw.alike)

/-- Clearing leaves nothing in which the builders could differ. -/
theorem clear_eq (h : b.Alike c) : b.clear = c.clear := by
  simp [clear, h.indent, h.lineEnding]

end Alike

end TextBuilder

def Action.clears : Action → Bool
  | .clear | .flush => true
  | _ => false

def Operation.clears : Operation → Bool
  | .act a => a.clears
  | .enter _ => false

theorem Action.clear_notMem_strokes {a : Action} (ha : ¬a.clears) : .clear ∉ a.strokes := by
  cases a with
  | clear | flush => exact absurd rfl ha
  | _ => simp [strokes, bodyStrokes]

theorem Action.apply_of_clears {a : Action} (ha : a.clears) (b : TextBuilder) :
    a.apply b = b.clear := by
  cases a with
  | clear | flush => rfl
  | _ => cases ha

namespace TextBuilder.Alike

variable {b c b' c' : TextBuilder}

theorem apply (h : b.Alike c) {a : Action} (ha : ¬a.clears) :
    WroteSame b c (Machine.apply b a) (Machine.apply c a) := by
  have hs := h.strokes (Action.clear_notMem_strokes ha)
  rwa [← Action.apply_eq_foldl, ← Action.apply_eq_foldl] at hs

theorem apply_eq (h : b.Alike c) {a : Action} (ha : a.clears) :
    Machine.apply b a = Machine.apply c a :=
  (Action.apply_of_clears ha b).trans (h.clear_eq.trans (Action.apply_of_clears ha c).symm)

theorem enter (h : b.Alike c) (form : Scope) :
    Alike (Machine.enter b form) (Machine.enter c form) := by
  simpa [Machine.enter, h.depth] using h.atDepth (form.enter b.depth)

theorem restore (h : b.Alike c) (h' : b'.Alike c') :
    Alike (Machine.restore b' (Machine.depth b)) (Machine.restore c' (Machine.depth c)) := by
  simpa [Machine.restore, Machine.depth, h.depth] using h'.atDepth b.depth

/-- Entering and leaving a scope writes nothing. -/
theorem enclose (h : b.Alike c) {form : Scope} {f : TextBuilder → TextBuilder}
    (hw : WroteSame (Machine.enter b form) (Machine.enter c form)
      (f (Machine.enter b form)) (f (Machine.enter c form))) :
    WroteSame b c (Script.enclose form f b) (Script.enclose form f c) :=
  ⟨h.restore hw.alike, hw.suffix⟩

theorem play (script : Script) (h : b.Alike c)
    (hn : ∀ m ∈ script.moments b, ¬m.operation.clears) :
    WroteSame b c (script.play b) (script.play c) := by
  induction script generalizing b c with
  | done => exact .nothing h rfl rfl
  | act a rest ih =>
    obtain ⟨ha, hn⟩ := List.forall_mem_cons.mp hn
    have hw := h.apply ha
    exact hw.trans (ih hw.alike hn)
  | scope form body rest ihb ih =>
    obtain ⟨hb, hn⟩ := List.forall_mem_append.mp (List.forall_mem_cons.mp hn).2
    have hw := h.enclose (ihb (h.enter form) hb)
    exact hw.trans (ih hw.alike hn)

/-- From the first clearing on, the builders are the same. -/
theorem play_eq (script : Script) (h : b.Alike c)
    (hc : ∃ m ∈ script.moments b, m.operation.clears) : script.play b = script.play c := by
  induction script generalizing b c with
  | done => simp [Script.moments] at hc
  | act a rest ih =>
    by_cases ha : a.clears
    · exact congrArg rest.play (h.apply_eq ha)
    · obtain ⟨m, hm, hc⟩ := hc
      rcases List.mem_cons.mp hm with rfl | hm
      · exact absurd hc ha
      · exact ih (h.apply ha).alike ⟨m, hm, hc⟩
  | scope form body rest ihb ih =>
    by_cases hb : ∃ m ∈ body.moments (Machine.enter b form), m.operation.clears
    · have he := ihb (h.enter form) hb
      have hd : Machine.depth b = Machine.depth c := h.depth
      simp only [Script.play, Script.enclose, he, hd]
    · have hn : ∀ m ∈ body.moments (Machine.enter b form), ¬m.operation.clears :=
        fun m hm hc => hb ⟨m, hm, hc⟩
      obtain ⟨m, hm, hc⟩ := hc
      rcases List.mem_cons.mp hm with rfl | hm
      · cases hc
      rcases List.mem_append.mp hm with hm | hm
      · exact absurd hc (hn m hm)
      · exact ih (h.enclose (Alike.play body (h.enter form) hn)).alike ⟨m, hm, hc⟩

end TextBuilder.Alike

/-- Programs run alike on builders whose settings and depths agree and whose texts end alike. As
long as the run does not clear the builder, it writes the same behind both texts and leaves them as
they were; if it does, both builders hold the same text in the end. -/
theorem run_depends_only_on_lineClass (p : Program) {b c : TextBuilder} (hd : b.depth = c.depth)
    (hi : b.indent = c.indent) (he : b.lineEnding = c.lineEnding)
    (hl : lineClass b.text = lineClass c.text) :
    (p.run b).exit = (p.run c).exit ∧
    (p.run b).state.depth = (p.run c).state.depth ∧
    (p.run b).state.indent = (p.run c).state.indent ∧
    (p.run b).state.lineEnding = (p.run c).state.lineEnding ∧
    ((∀ m ∈ p.moments b, ¬m.operation.clears) →
      ∃ u, (p.run b).state.text = b.text ++ u ∧ (p.run c).state.text = c.text ++ u) ∧
    ((∃ m ∈ p.moments b, m.operation.clears) → (p.run b).state.text = (p.run c).state.text) := by
  have h : b.Alike c := ⟨hd, hi, he, hl⟩
  rw [p.run_exit, p.run_exit, p.run_state, p.run_state]
  by_cases hc : ∃ m ∈ p.moments b, m.operation.clears
  · have hp := h.play_eq p.script hc
    refine ⟨rfl, by rw [hp], by rw [hp], by rw [hp], ?_, fun _ => by rw [hp]⟩
    rintro hn
    obtain ⟨m, hm, hc⟩ := hc
    exact absurd hc (hn m hm)
  · have hn : ∀ m ∈ p.moments b, ¬m.operation.clears := fun m hm hm' => hc ⟨m, hm, hm'⟩
    have hw := h.play p.script hn
    exact ⟨rfl, hw.alike.depth, hw.alike.indent, hw.alike.lineEnding, fun _ => hw.suffix,
      fun hc' => absurd hc' hc⟩

theorem run_depends_only_on_lineClass_mixed :
    let p := Program.ofList [
      .act (.append "a\r".toList),
      .scope .indentWith 2 (.act (.appendChar '\n')),
      .act (.setLineEnding .crlf),
      .attempt 1 false (.seq (.act (.appendBody "x\ry".toList)) (.fail "no".toList)),
      .fork (.act .clear),
      .forEach [['i'], ['j']] fun item => .act (.appendLineIndented item)]
    let b := (TextBuilder.withWidth 1).write ['\r']
    let c := (TextBuilder.withWidth 1).write "first\nsecond\r".toList
    lineClass b.text = lineClass c.text ∧
      (∃ u, (p.run b).state.text = b.text ++ u ∧ (p.run c).state.text = c.text ++ u) ∧
      ((p.seq (.act .clear)).run b).state.text = ((p.seq (.act .clear)).run c).state.text := by
  intro p b c
  have hl : lineClass b.text = lineClass c.text := by decide
  have hp := run_depends_only_on_lineClass p (b := b) (c := c) rfl rfl rfl hl
  have hq := run_depends_only_on_lineClass (p.seq (.act .clear)) (b := b) (c := c) rfl rfl rfl hl
  obtain ⟨-, -, -, -, hu, -⟩ := hp
  obtain ⟨-, -, -, -, -, hc⟩ := hq
  exact ⟨hl, hu (by decide), hc (by decide)⟩

end SourceGen
