import SourceGen.Builder.Action

/-!
# Builder programs

A program is a tree of builder steps. Its run ends normally, with a failure that a
callback returned, or with a panic. Every scope gives the depth back however its body
ends. The trace has one entry for each step that came to an end, in the order of the
ends; a step that a panic unwinds leaves none.

Programs run on any machine that can perform actions and knows a depth. Text builders are
one; coarser machines show what a program does to the depth alone, or to the lines.
-/
namespace SourceGen

/-- The forms of a scope. The first two run a callback, the others live as long as a guard. -/
inductive Scope where
  | indentWith
  | unindentWith
  | indented
  | unindented
  deriving DecidableEq

def Scope.enter : Scope → Nat → Nat
  | indentWith, depth | indented, depth => depth + 1
  | unindentWith, depth | unindented, depth => depth - 1

/-- Programs over a builder. A scope is entered a number of times, each time inside the one
before. `attempt` is the indenting scope that hands its body's failure to the caller, who
handles it or, with `propagate`, returns it once more. `fork` runs its body on a copy of
the builder. -/
inductive Program where
  | skip
  | seq (first second : Program)
  | act (action : Action)
  | scope (form : Scope) (times : Nat) (body : Program)
  | attempt (times : Nat) (propagate : Bool) (body : Program)
  | forEach (items : List Text) (body : Text → Program)
  | fork (body : Program)
  | rescue (body : Program)
  | fail (message : Text)
  | panic (message : Text)

def Program.ofList : List Program → Program
  | [] => .skip
  | p :: ps => .seq p (ofList ps)

inductive Exit where
  | done
  | failed (message : Text)
  | panicked (message : Text)
  deriving DecidableEq

inductive StepKind where
  | act (action : Action)
  | scope (form : Scope)
  | attempt
  | forEach
  | fork
  | rescue
  | fail

class Machine (σ : Type) where
  apply : σ → Action → σ
  report? : σ → Action → Option Report
  text : σ → Text
  depth : σ → Nat
  enter : σ → Scope → σ
  restore : σ → Nat → σ

instance : Machine TextBuilder where
  apply b a := a.apply b
  report? b a := a.report? b
  text b := b.text
  depth b := b.depth
  enter b form := b.atDepth (form.enter b.depth)
  restore b depth := b.atDepth depth

/-- A step that came to an end, with the state as it was then. -/
structure Entry (σ : Type) where
  step : StepKind
  state : σ
  report : Option Report := none
  failure : Option Text := none

/-- How a program ran: the state it left, how it ended, and the steps on the way. -/
structure Run (σ : Type) where
  state : σ
  exit : Exit := Exit.done
  trace : List (Entry σ) := []

namespace Run

variable {σ : Type}

/-- Goes on with `next` unless the run has failed or panicked. -/
def andThen (r : Run σ) (next : σ → Run σ) : Run σ :=
  match r.exit with
  | .done => { next r.state with trace := r.trace ++ (next r.state).trace }
  | _ => r

/-- Ends the step around a run: its entry tells the report, or the failure passed on. -/
def close (r : Run σ) (step : StepKind) (report : Option Report) : Run σ :=
  match r.exit with
  | .done => { r with trace := r.trace ++ [{ step, state := r.state, report }] }
  | .failed m => { r with trace := r.trace ++ [{ step, state := r.state, failure := some m }] }
  | .panicked _ => r

/-- Runs `f` on the items in order, until one does not end normally. -/
def each (f : Text → σ → Run σ) : List Text → σ → Run σ
  | [], s => { state := s }
  | item :: items, s => (f item s).andThen (each f items)

variable [Machine σ]

/-- Runs `body` inside a number of scopes. Each gives back the depth at which it was entered,
however the body ends. -/
def within (form : Scope) (body : σ → Run σ) : Nat → σ → Run σ
  | 0, s => body s
  | n + 1, s =>
    let r := within form body n (Machine.enter s form)
    { r with state := Machine.restore r.state (Machine.depth s) }

/-- Ends an attempt: a failure becomes its report. -/
def handle (r : Run σ) : Run σ :=
  match r.exit with
  | .failed m => { r with exit := Exit.done }.close .attempt (some (.handled m))
  | _ => r.close .attempt (some (.depth (Machine.depth r.state)))

/-- Ends an attempt that returns a failure once more. -/
def pass (r : Run σ) : Run σ := r.close .attempt (some (.depth (Machine.depth r.state)))

/-- Ends a rescue: a panic becomes its report. -/
def recover (r : Run σ) : Run σ :=
  match r.exit with
  | .panicked m => { r with exit := Exit.done }.close .rescue (some (.caught (some m)))
  | _ => r.close .rescue (some (.caught none))

/-- Ends a fork of `s`: the copy is dropped and its text reported. -/
def join (r : Run σ) (s : σ) : Run σ :=
  { r with state := s }.close .fork (some (.text (Machine.text r.state)))

end Run

def Program.run {σ : Type} [Machine σ] : Program → σ → Run σ
  | .skip, s => { state := s }
  | .seq p q, s => (p.run s).andThen q.run
  | .act a, s => { state := Machine.apply s a : Run σ }.close (.act a) (Machine.report? s a)
  | .scope form times body, s => (Run.within form body.run times s).close (.scope form) none
  | .attempt times propagate body, s =>
    let r := Run.within .indentWith body.run times s
    if propagate then r.pass else r.handle
  | .forEach items body, s => (Run.each (fun item => (body item).run) items s).close .forEach none
  | .fork body, s => (body.run s).join s
  | .rescue body, s => (body.run s).recover
  | .fail m, s => { state := s, exit := .failed m : Run σ }.close .fail none
  | .panic m, s => { state := s, exit := .panicked m }

end SourceGen
