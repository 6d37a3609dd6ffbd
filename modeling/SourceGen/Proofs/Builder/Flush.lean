import SourceGen.Proofs.Builder.Depth

/-! # Flushed builders

A flush hands over the text and leaves a builder that is as good as new: nothing but the settings
stays in it. So what is written after a flush comes out as it would from a builder of its own,
whatever the programs before have left behind. -/
namespace SourceGen

/-- A new builder with the given settings. -/
def newBuilder (indent : Indent) (e : LineEnding) : TextBuilder :=
  (TextBuilder.withIndent indent).withLineEnding e

/-- What a run shows together with the flush behind it. The flush is reached only if the run ends
normally. It gives out the text that the run has left, and the builder is new. -/
def Run.withFlush (indent : Indent) (r : Run TextBuilder) : List (Entry TextBuilder) :=
  if r.exit = .done then
    r.trace ++ [{
      step := .act .flush
      state := newBuilder indent r.state.lineEnding
      report := some (.text r.state.text) }]
  else r.trace

namespace Program

/-- The programs one after the other, with a flush behind each. -/
def flushedEach (ps : List Program) : Program := ofList (ps.flatMap fun p => [p, .act .flush])

/-- The runs of the programs, each on a new builder with the line ending that the one before has
left. A run that does not end normally is the last. -/
def onNewBuilders (indent : Indent) : List Program → LineEnding → List (Run TextBuilder)
  | [], _ => []
  | p :: ps, e =>
    let alone := p.run (newBuilder indent e)
    alone :: if alone.exit = .done then onNewBuilders indent ps alone.state.lineEnding else []

theorem run_flush (b : TextBuilder) :
    (act .flush).run b = {
      state := newBuilder b.indent b.lineEnding
      trace := [{
        step := .act .flush
        state := newBuilder b.indent b.lineEnding
        report := some (.text b.text) }] } :=
  rfl

theorem run_flushedEach_cons (p : Program) (ps : List Program) (b : TextBuilder) :
    (flushedEach (p :: ps)).run b =
      (p.run b).andThen fun c => ((act .flush).run c).andThen (flushedEach ps).run :=
  rfl

variable {indent : Indent} {e : LineEnding} {p : Program}

/-- The flush starts the programs behind it anew. -/
theorem run_flushedEach_of_done (h : (p.run (newBuilder indent e)).exit = .done)
    (ps : List Program) :
    let alone := p.run (newBuilder indent e)
    let rest := (flushedEach ps).run (newBuilder indent alone.state.lineEnding)
    (flushedEach (p :: ps)).run (newBuilder indent e) =
      { rest with trace := alone.withFlush indent ++ rest.trace } := by
  intro alone rest
  have hi : alone.state.indent = indent := p.indent_run (newBuilder indent e)
  rw [run_flushedEach_cons, Run.andThen_of_done h, run_flush, Run.andThen_of_done rfl, hi,
    Run.withFlush, if_pos h, List.append_assoc]

theorem run_flushedEach_of_ne_done (h : (p.run (newBuilder indent e)).exit ≠ .done)
    (ps : List Program) :
    (flushedEach (p :: ps)).run (newBuilder indent e) = p.run (newBuilder indent e) :=
  Run.andThen_of_ne_done h _

end Program

/-- Programs that take turns on one builder, with a flush behind each, show step by step what each
shows on a new builder of the same width and with the line ending then in use. Each flush gives out
the text that its program has written there, and leaves a new builder with the settings as they are.
Every program has its turn as long as all end normally. -/
theorem flushed_builder_is_as_new (indent : Indent) (e : LineEnding) (ps : List Program) :
    let session := (Program.flushedEach ps).run (newBuilder indent e)
    let runs := Program.onNewBuilders indent ps e
    session.trace = runs.flatMap (Run.withFlush indent) ∧
      (session.exit = .done ↔ ∀ alone ∈ runs, alone.exit = .done) ∧
      (session.exit = .done →
        runs.length = ps.length ∧ session.state = newBuilder indent session.state.lineEnding) := by
  induction ps generalizing e with
  | nil =>
    have hn : ∀ alone ∈ Program.onNewBuilders indent [] e, alone.exit = .done :=
      List.forall_mem_nil _
    exact ⟨rfl, iff_of_true rfl hn, fun _ => ⟨rfl, rfl⟩⟩
  | cons p ps ih =>
    obtain ⟨trace, exit, ended⟩ := ih (p.run (newBuilder indent e)).state.lineEnding
    by_cases h : (p.run (newBuilder indent e)).exit = .done
    · rw [Program.run_flushedEach_of_done h, Program.onNewBuilders, if_pos h]
      refine ⟨?_, ?_, ?_⟩
      · rw [List.flatMap_cons, ← trace]
      · rw [List.forall_mem_cons, ← exit]
        exact (and_iff_right h).symm
      · intro hd
        obtain ⟨hl, hs⟩ := ended hd
        exact ⟨congrArg (· + 1) hl, hs⟩
    · -- the first program is the last, and its flush is not reached
      rw [Program.run_flushedEach_of_ne_done h, Program.onNewBuilders, if_neg h]
      simp [Run.withFlush, h]

theorem flushed_builder_is_as_new_unbalanced :
    let p := Program.ofList [
      .act .indent,
      .act (.append "a\r".toList),
      .attempt 1 false (.seq (.act (.setLineEnding .crlf)) (.fail "no".toList))]
    let q := Program.ofList [
      .act (.append ['b']),
      .scope .indentWith 1 (.act (.appendLine ['c']))]
    let session := (Program.flushedEach [p, q, p]).run (newBuilder (.spaces 2) .lf)
    session.exit = .done ∧
      session.state = newBuilder (.spaces 2) .crlf ∧
      session.trace.filterMap Entry.report = [
        .handled "no".toList, .text "  a\r".toList, .text "b  c\r\n".toList,
        .handled "no".toList, .text "  a\r".toList] := by
  intro p q session
  obtain ⟨trace, exit, ended⟩ := flushed_builder_is_as_new (.spaces 2) .lf [p, q, p]
  have hd : session.exit = .done := exit.mpr (by decide)
  exact ⟨hd, (ended hd).2.trans (by decide),
    (congrArg (List.filterMap Entry.report) trace).trans (by decide)⟩

end SourceGen
