import SourceGen.Proofs.Builder.Simulation

/-! # What a run performs

Failures, panics and loops of a program do not depend on the machine that runs it. So what a run
performs is known beforehand: actions, one after the other, and scopes around some of them. A
script lists just that. Loops are unrolled in it. What a failure or a panic skips is left out, and
so is what a fork does to its copy. -/
namespace SourceGen

inductive Script where
  | done
  | act (action : Action) (rest : Script)
  | scope (form : Scope) (body rest : Script)

namespace Script

def append : Script → Script → Script
  | done, next => next
  | act a rest, next => act a (rest.append next)
  | scope form body rest, next => scope form body (rest.append next)

/-- A script inside a number of scopes, each inside the one before. -/
def nest (form : Scope) : Nat → Script → Script
  | 0, script => script
  | n + 1, script => scope form (nest form n script) done

/-- The actions outside all scopes, in order. -/
def outside : Script → List Action
  | done => []
  | act a rest => a :: rest.outside
  | scope _ _ rest => rest.outside

variable {σ : Type} [Machine σ]

def enclose (form : Scope) (f : σ → σ) (s : σ) : σ :=
  Machine.restore (f (Machine.enter s form)) (Machine.depth s)

def play : Script → σ → σ
  | done, s => s
  | act a rest, s => rest.play (Machine.apply s a)
  | scope form body rest, s => rest.play (enclose form body.play s)

theorem play_append (script next : Script) (s : σ) :
    (script.append next).play s = next.play (script.play s) := by
  induction script generalizing s with
  | done => rfl
  | act a rest ih => exact ih _
  | scope form body rest _ ih => exact ih _

end Script

inductive Operation where
  | act (action : Action)
  | enter (form : Scope)

/-- An operation, with the state just before it. -/
structure Moment (σ : Type) where
  state : σ
  operation : Operation

def Script.moments {σ : Type} [Machine σ] : Script → σ → List (Moment σ)
  | done, _ => []
  | act a rest, s => ⟨s, .act a⟩ :: rest.moments (Machine.apply s a)
  | scope form body rest, s =>
    ⟨s, .enter form⟩ ::
      (body.moments (Machine.enter s form) ++ rest.moments (enclose form body.play s))

/-- The entry that an action leaves in the trace of a run. -/
def Moment.entry? {σ : Type} [Machine σ] : Moment σ → Option (Entry σ)
  | ⟨s, .act a⟩ =>
    some { step := .act a, state := Machine.apply s a, report := Machine.report? s a }
  | ⟨_, .enter _⟩ => none

namespace Script

variable {σ : Type} [Machine σ]

def entries (script : Script) (s : σ) : List (Entry σ) :=
  (script.moments s).filterMap Moment.entry?

theorem moments_append (script next : Script) (s : σ) :
    (script.append next).moments s = script.moments s ++ next.moments (script.play s) := by
  induction script generalizing s with
  | done => rfl
  | act a rest ih => exact congrArg (_ :: ·) (ih _)
  | scope form body rest _ ih => simp [append, moments, play, ih]

theorem entries_append (script next : Script) (s : σ) :
    (script.append next).entries s = script.entries s ++ next.entries (script.play s) := by
  rw [entries, moments_append, List.filterMap_append, entries, entries]

theorem entries_nest_succ (form : Scope) (n : Nat) (script : Script) (s : σ) :
    (script.nest form (n + 1)).entries s = (script.nest form n).entries (Machine.enter s form) := by
  simp only [nest, entries, moments, List.append_nil]
  exact List.filterMap_cons_none rfl

end Script

/-- What a program performs, and how it ends. -/
structure Course where
  script : Script := Script.done
  exit : Exit := Exit.done

namespace Course

def andThen (c next : Course) : Course :=
  match c.exit with
  | .done => ⟨c.script.append next.script, next.exit⟩
  | _ => c

def each (f : Text → Course) : List Text → Course
  | [] => {}
  | item :: items => (f item).andThen (each f items)

def within (form : Scope) (times : Nat) (c : Course) : Course :=
  { c with script := c.script.nest form times }

def handle (c : Course) : Course :=
  match c.exit with
  | .failed _ => { c with exit := Exit.done }
  | _ => c

def recover (c : Course) : Course :=
  match c.exit with
  | .panicked _ => { c with exit := Exit.done }
  | _ => c

end Course

namespace Program

def course : Program → Course
  | .skip => {}
  | .seq p q => p.course.andThen q.course
  | .act a => { script := .act a .done }
  | .scope form times body => body.course.within form times
  | .attempt times propagate body =>
    let c := body.course.within .indentWith times
    if propagate then c else c.handle
  | .forEach items body => .each (fun item => (body item).course) items
  | .fork body => { exit := body.course.exit }
  | .rescue body => body.course.recover
  | .fail m => { exit := .failed m }
  | .panic m => { exit := .panicked m }

def script (p : Program) : Script := p.course.script

/-- The moments of the program's run from a state, those on a fork's copy left out. -/
def moments {σ : Type} [Machine σ] (p : Program) (s : σ) : List (Moment σ) := p.script.moments s

end Program

theorem Run.state_close {σ : Type} (r : Run σ) (step : StepKind) (report : Option Report) :
    (r.close step report).state = r.state := by
  unfold Run.close
  split <;> rfl

theorem Run.exit_close {σ : Type} (r : Run σ) (step : StepKind) (report : Option Report) :
    (r.close step report).exit = r.exit := by
  unfold Run.close
  split <;> rfl

theorem Run.trace_close {σ : Type} (r : Run σ) (step : StepKind) (report : Option Report) :
    r.trace <+: (r.close step report).trace := by
  unfold Run.close
  split
  · exact List.prefix_append _ _
  · exact List.prefix_append _ _
  · exact List.prefix_rfl

theorem Run.andThen_of_done {σ : Type} {r : Run σ} (h : r.exit = .done) (next : σ → Run σ) :
    r.andThen next = { next r.state with trace := r.trace ++ (next r.state).trace } := by
  rw [andThen, h]

theorem Run.andThen_of_ne_done {σ : Type} {r : Run σ} (h : r.exit ≠ .done) (next : σ → Run σ) :
    r.andThen next = r := by
  unfold andThen
  split
  · exact absurd ‹_› h
  · rfl

/-- The run ends as foreseen, in the state to which the script leads. The actions of the script
stand in its trace, in order, among those of forks and the ends of larger steps. -/
structure Run.Follows {σ : Type} [Machine σ] (r : Run σ) (c : Course) (s : σ) : Prop where
  state : r.state = c.script.play s
  exit : r.exit = c.exit
  entries : (c.script.entries s).Sublist r.trace

namespace Run.Follows

variable {σ : Type} [Machine σ] {r : Run σ} {c : Course} {s : σ}

theorem start (s : σ) (exit : Exit) : Follows { state := s, exit := exit } { exit := exit } s :=
  ⟨rfl, rfl, List.nil_sublist _⟩

theorem andThen {f : σ → Run σ} {d : Course} (h : r.Follows c s)
    (next : ∀ t, (f t).Follows d t) : (r.andThen f).Follows (c.andThen d) s := by
  have hn := next r.state
  unfold Run.andThen Course.andThen
  rw [h.exit]
  cases c.exit with
  | done =>
    refine ⟨?_, hn.exit, ?_⟩
    · rw [Script.play_append, ← h.state]
      exact hn.state
    · rw [Script.entries_append, ← h.state]
      exact h.entries.append hn.entries
  | failed m | panicked m => exact h

theorem each {f : Text → σ → Run σ} {g : Text → Course} (items : List Text)
    (next : ∀ item t, (f item t).Follows (g item) t) :
    ∀ t, (Run.each f items t).Follows (Course.each g items) t := by
  induction items with
  | nil => exact fun t => start t .done
  | cons item items ih => exact fun t => (next item t).andThen ih

theorem close (h : r.Follows c s) (step : StepKind) (report : Option Report) :
    (r.close step report).Follows c s :=
  ⟨(r.state_close _ _).trans h.state, (r.exit_close _ _).trans h.exit,
    h.entries.trans (r.trace_close step report).sublist⟩

theorem within (form : Scope) {f : σ → Run σ} (body : ∀ t, (f t).Follows c t) (times : Nat) :
    ∀ t, (Run.within form f times t).Follows (c.within form times) t := by
  induction times with
  | zero => exact body
  | succ n ih =>
    intro t
    have hi := ih (Machine.enter t form)
    have he := hi.entries
    rw [Course.within, ← Script.entries_nest_succ] at he
    exact ⟨congrArg (Machine.restore · (Machine.depth t)) hi.state, hi.exit, he⟩

theorem done (h : r.Follows c s) :
    Follows { r with exit := Exit.done } { c with exit := Exit.done } s :=
  ⟨h.state, rfl, h.entries⟩

theorem handle (h : r.Follows c s) : r.handle.Follows c.handle s := by
  unfold Run.handle Course.handle
  rw [h.exit]
  cases c.exit with
  | failed m => exact h.done.close _ _
  | done | panicked m => exact h.close _ _

theorem recover (h : r.Follows c s) : r.recover.Follows c.recover s := by
  unfold Run.recover Course.recover
  rw [h.exit]
  cases c.exit with
  | panicked m => exact h.done.close _ _
  | done | failed m => exact h.close _ _

theorem join (h : r.Follows c s) (t : σ) : (r.join t).Follows { exit := c.exit } t := by
  have ht : Follows { r with state := t } { exit := c.exit } t := ⟨rfl, h.exit, List.nil_sublist _⟩
  exact ht.close _ _

end Run.Follows

namespace Program

theorem run_follows {σ : Type} [Machine σ] (p : Program) (s : σ) : (p.run s).Follows p.course s := by
  induction p generalizing s with
  | skip => exact .start s .done
  | seq p q ihp ihq => exact (ihp s).andThen ihq
  | act a => exact ⟨rfl, rfl, List.Sublist.refl _⟩
  | scope form times body ih => exact (Run.Follows.within form ih times s).close _ _
  | attempt times propagate body ih =>
    have h := Run.Follows.within .indentWith ih times s
    cases propagate with
    | true => exact h.close _ _
    | false => exact h.handle
  | forEach items body ih => exact (Run.Follows.each items ih s).close _ _
  | fork body ih => exact (ih s).join s
  | rescue body ih => exact (ih s).recover
  | fail m => exact (Run.Follows.start s (.failed m)).close _ _
  | panic m => exact .start s (.panicked m)

/-- Every machine plays the script of the program it runs. -/
theorem run_state {σ : Type} [Machine σ] (p : Program) (s : σ) :
    (p.run s).state = p.script.play s :=
  (p.run_follows s).state

/-- What the run performs on the state itself stands in its trace. -/
theorem run_entries {σ : Type} [Machine σ] (p : Program) (s : σ) :
    (p.script.entries s).Sublist (p.run s).trace :=
  (p.run_follows s).entries

theorem run_exit {σ : Type} [Machine σ] (p : Program) (s : σ) : (p.run s).exit = p.course.exit :=
  (p.run_follows s).exit

end Program

def Script.Every (ok : Action → Prop) : Script → Prop
  | .done => True
  | .act a rest => ok a ∧ rest.Every ok
  | .scope _ body rest => body.Every ok ∧ rest.Every ok

section Every

variable {ok : Action → Prop}

theorem Script.Every.append {script next : Script} (h : script.Every ok) (hn : next.Every ok) :
    (script.append next).Every ok := by
  induction script with
  | done => exact hn
  | act a rest ih => exact ⟨h.1, ih h.2⟩
  | scope form body rest _ ih => exact ⟨h.1, ih h.2⟩

theorem Script.Every.nest {script : Script} (h : script.Every ok) (form : Scope) (times : Nat) :
    (script.nest form times).Every ok := by
  induction times with
  | zero => exact h
  | succ n ih => exact ⟨ih, trivial⟩

theorem Course.every_andThen {c d : Course} (hc : c.script.Every ok) (hd : d.script.Every ok) :
    (c.andThen d).script.Every ok := by
  unfold andThen
  split
  · exact hc.append hd
  · exact hc

theorem Course.every_each {f : Text → Course} {items : List Text}
    (h : ∀ item ∈ items, (f item).script.Every ok) : (each f items).script.Every ok := by
  induction items with
  | nil => trivial
  | cons item items ih =>
    obtain ⟨hi, h⟩ := List.forall_mem_cons.mp h
    exact every_andThen hi (ih h)

theorem Course.every_handle {c : Course} (h : c.script.Every ok) : c.handle.script.Every ok := by
  unfold handle
  split <;> exact h

theorem Course.every_recover {c : Course} (h : c.script.Every ok) :
    c.recover.script.Every ok := by
  unfold recover
  split <;> exact h

/-- A program performs no actions but its own. -/
theorem Program.Every.script {p : Program} (h : p.Every ok) : p.script.Every ok := by
  induction p with
  | skip | fail m | panic m => trivial
  | seq p q ihp ihq => exact Course.every_andThen (ihp h.1) (ihq h.2)
  | act a => exact ⟨h, trivial⟩
  | scope form times body ih => exact (ih h).nest form times
  | attempt times propagate body ih =>
    have hn : (body.course.within .indentWith times).script.Every ok := (ih h).nest .indentWith times
    cases propagate with
    | true => exact hn
    | false => exact Course.every_handle hn
  | forEach items body ih => exact Course.every_each fun item hi => ih item (h item hi)
  | fork body ih => trivial
  | rescue body ih => exact Course.every_recover (ih h)

end Every

end SourceGen
