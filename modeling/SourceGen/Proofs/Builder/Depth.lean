import Mathlib.Logic.Function.Iterate
import SourceGen.Proofs.Builder.Script
import SourceGen.Proofs.Builder.Stroke

/-! # Depth

A scope ends at the depth at which it began, however its body ends. So nothing within scopes has a
part in the depth a program leaves behind: what moves it are the steps outside of them. -/
namespace SourceGen

def Stroke.depthFrom (depth : Nat) : Stroke → Nat
  | .deeper => depth + 1
  | .shallower => depth - 1
  | .clear => 0
  | _ => depth

def Action.depthFrom (depth : Nat) : Action → Nat
  | .indent => depth + 1
  | .unindent => depth - 1
  | .clear | .flush => 0
  | _ => depth

/-- The action moves the depth, or sets it back. -/
def Action.movesDepth : Action → Bool
  | .indent | .unindent | .clear | .flush => true
  | _ => false

namespace TextBuilder

theorem depth_stroke (b : TextBuilder) (s : Stroke) : (b.stroke s).depth = s.depthFrom b.depth := by
  cases s with
  | raw t => cases t <;> rfl
  | _ => rfl

theorem indent_stroke (b : TextBuilder) (s : Stroke) : (b.stroke s).indent = b.indent := by
  cases s with
  | raw t => cases t <;> rfl
  | _ => rfl

theorem depth_foldl_stroke (ss : List Stroke) (b : TextBuilder) :
    (ss.foldl stroke b).depth = ss.foldl Stroke.depthFrom b.depth :=
  (List.foldl_hom depth fun b s => (b.depth_stroke s).symm).symm

theorem indent_foldl_stroke (ss : List Stroke) (b : TextBuilder) :
    (ss.foldl stroke b).indent = b.indent := by
  induction ss generalizing b with
  | nil => rfl
  | cons s ss ih => rw [List.foldl_cons, ih, indent_stroke]

end TextBuilder

namespace Action

/-- Among the strokes of an action, a line leaves the depth as it is. -/
theorem foldl_strokes_depthFrom (a : Action) (depth : Nat) :
    a.strokes.foldl Stroke.depthFrom depth = a.depthFrom depth := by
  cases a <;> simp [strokes, bodyStrokes, Stroke.depthFrom, depthFrom, List.foldl_flatMap,
    List.foldl_map]

theorem depth_apply (a : Action) (b : TextBuilder) : (a.apply b).depth = a.depthFrom b.depth := by
  rw [apply_eq_foldl, TextBuilder.depth_foldl_stroke, foldl_strokes_depthFrom]

theorem indent_apply (a : Action) (b : TextBuilder) : (a.apply b).indent = b.indent := by
  rw [apply_eq_foldl, TextBuilder.indent_foldl_stroke]

theorem depthFrom_of_not_movesDepth {a : Action} (ha : ¬a.movesDepth) (depth : Nat) :
    a.depthFrom depth = depth := by
  cases a with
  | indent | unindent | clear | flush => exact absurd rfl ha
  | _ => rfl

theorem foldl_filter_movesDepth (as : List Action) (depth : Nat) :
    (as.filter movesDepth).foldl depthFrom depth = as.foldl depthFrom depth := by
  induction as generalizing depth with
  | nil => rfl
  | cons a as ih =>
    by_cases ha : a.movesDepth
    · simp [ha, ih]
    · simp [ha, ih, depthFrom_of_not_movesDepth ha]

end Action

namespace Script

/-- Scopes in the script do not count. -/
theorem depth_play (script : Script) (b : TextBuilder) :
    (script.play b).depth = script.outside.foldl Action.depthFrom b.depth := by
  induction script generalizing b with
  | done => rfl
  | act a rest ih => exact (ih _).trans (congrArg (rest.outside.foldl _) (a.depth_apply b))
  | scope form body rest _ ih => exact ih _

theorem indent_play (script : Script) (b : TextBuilder) : (script.play b).indent = b.indent := by
  induction script generalizing b with
  | done => rfl
  | act a rest ih => exact (ih _).trans (a.indent_apply b)
  | scope form body rest ihb ih => exact (ih _).trans (ihb _)

end Script

namespace Program

/-- The steps that the program performs outside all scopes and that move the depth. -/
def depthSteps (p : Program) : List Action := p.script.outside.filter Action.movesDepth

theorem depth_run (p : Program) (b : TextBuilder) :
    (p.run b).state.depth = p.script.outside.foldl Action.depthFrom b.depth := by
  rw [run_state, Script.depth_play]

theorem indent_run (p : Program) (b : TextBuilder) : (p.run b).state.indent = b.indent := by
  rw [run_state, Script.indent_play]

theorem outside_ofList_act (as : List Action) : (ofList (as.map .act)).script.outside = as := by
  induction as with
  | nil => rfl
  | cons a as ih => exact congrArg (a :: ·) ih

end Program

/-- Each scope goes on from the depth of the one before, and the outermost gives back the depth at
which it was entered. -/
theorem Run.within_succ (form : Scope) (f : TextBuilder → Run TextBuilder) (n : Nat)
    (b : TextBuilder) :
    let inner := f (b.atDepth (form.enter^[n + 1] b.depth))
    Run.within form f (n + 1) b = { inner with state := inner.state.atDepth b.depth } := by
  induction n generalizing b with
  | zero => rfl
  | succ n ih =>
    have hi := ih (b.atDepth (form.enter b.depth))
    exact congrArg (fun r : Run TextBuilder => { r with state := r.state.atDepth b.depth }) hi

/-- The depth inside a number of scopes, each inside the one before. -/
def Scope.inside (form : Scope) (times depth : Nat) : Nat :=
  match form with
  | indentWith | indented => depth + times
  | unindentWith | unindented => depth - times

theorem Scope.iterate_enter (form : Scope) (n depth : Nat) :
    form.enter^[n] depth = form.inside n depth := by
  induction n generalizing depth with
  | zero => cases form <;> rfl
  | succ n ih =>
    rw [Function.iterate_succ_apply, ih]
    cases form <;> simp only [enter, inside] <;> omega

theorem Run.state_handle {σ : Type} [Machine σ] (r : Run σ) : r.handle.state = r.state := by
  unfold Run.handle
  split <;> exact Run.state_close _ _ _

theorem Run.trace_handle {σ : Type} [Machine σ] (r : Run σ) : r.trace <+: r.handle.trace := by
  unfold Run.handle
  split
  · exact Run.trace_close { r with exit := Exit.done } _ _
  · exact r.trace_close _ _

/-- The step runs its body at the depth `inside`, and gives back the depth and the indentation with
which it began, however the body ends. -/
structure Restores (step body : Program) (b : TextBuilder) (inside : Nat) : Prop where
  trace : (body.run (b.atDepth inside)).trace <+: (step.run b).trace
  text : (step.run b).state.text = (body.run (b.atDepth inside)).state.text
  lineEnding : (step.run b).state.lineEnding = (body.run (b.atDepth inside)).state.lineEnding
  depth : (step.run b).state.depth = b.depth
  indent : (step.run b).state.indent = b.indent

theorem Restores.of_within {step body : Program} {b : TextBuilder} (form : Scope) {n : Nat}
    (hs : (step.run b).state = (Run.within form body.run (n + 1) b).state)
    (ht : (Run.within form body.run (n + 1) b).trace <+: (step.run b).trace) :
    Restores step body b (form.inside (n + 1) b.depth) := by
  rw [Run.within_succ, form.iterate_enter] at hs ht
  exact ⟨ht, by rw [hs]; rfl, by rw [hs]; rfl, by rw [hs]; rfl, step.indent_run b⟩

/-- Scopes and attempts start at the depth they ask for and give back the one they found. So a
program moves the depth as its steps outside of them do when they run one after the other. -/
theorem scopes_restore_depth :
    (∀ (form : Scope) (n : Nat) (body : Program) (b : TextBuilder),
      Restores (.scope form (n + 1) body) body b (form.inside (n + 1) b.depth)) ∧
    (∀ (n : Nat) (propagate : Bool) (body : Program) (b : TextBuilder),
      Restores (.attempt (n + 1) propagate body) body b (b.depth + (n + 1))) ∧
    (∀ (p : Program) (b : TextBuilder), (p.run b).state.depth =
      ((Program.ofList (p.depthSteps.map .act)).run b).state.depth) := by
  refine ⟨?_, ?_, ?_⟩
  · intro form n body b
    exact .of_within form (Run.state_close _ _ _) (Run.trace_close _ _ _)
  · intro n propagate body b
    cases propagate with
    | true => exact .of_within .indentWith (Run.state_close _ _ _) (Run.trace_close _ _ _)
    | false => exact .of_within .indentWith (Run.state_handle _) (Run.trace_handle _)
  · intro p b
    rw [p.depth_run, Program.depth_run, Program.outside_ofList_act, Program.depthSteps,
      Action.foldl_filter_movesDepth]

end SourceGen
