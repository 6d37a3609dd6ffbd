import SourceGen.Proofs.Builder.Depth

/-! # Failures

A failure takes back nothing and writes nothing: it leaves out the steps that would have followed,
up to the attempt that handles it. So a program with failures runs as the program does from which
the failing steps are deleted, together with what they skip. -/
namespace SourceGen

def Exit.isFailed : Exit → Bool
  | .failed _ => true
  | _ => false

/-- How a run ends whose failure is left out. -/
def Exit.unfailed : Exit → Exit
  | .failed _ => .done
  | exit => exit

def StepKind.isFail : StepKind → Bool
  | .fail => true
  | _ => false

namespace Program

/-- The program comes to a failure that it does not handle. -/
def fails (p : Program) : Bool := p.course.exit.isFailed

/-- The items up to the first one for which the body of a loop fails. -/
def visited (fails : Text → Bool) : List Text → List Text
  | [] => []
  | item :: items => item :: if fails item then [] else visited fails items

/-- Deletes the failing steps and all steps that are skipped because of them. A loop keeps the items
that it comes to visit, and for each of them its body is cut short by itself. -/
def truncate : Program → Program
  | .skip => .skip
  | .seq p q => if p.fails then p.truncate else .seq p.truncate q.truncate
  | .act a => .act a
  | .scope form times body => .scope form times body.truncate
  | .attempt times propagate body => .attempt times propagate body.truncate
  | .forEach items body =>
    .forEach (visited (fun item => (body item).fails) items) fun item => (body item).truncate
  | .fork body => .fork body.truncate
  | .rescue body => .rescue body.truncate
  | .fail _ => .skip
  | .panic m => .panic m

theorem isFailed_exit_run {σ : Type} [Machine σ] (p : Program) (s : σ) :
    (p.run s).exit.isFailed = p.fails := by
  rw [run_exit, fails]

end Program

variable {σ : Type}

/-- The entry `f` is left of the entry `e` when failures are left out. Only a step that passed a
failure on, or handled one, has another report. -/
structure Entry.Kept (e f : Entry σ) : Prop where
  step : f.step = e.step
  state : f.state = e.state
  failure : f.failure = none
  report : e.failure = none → (∀ m, e.report ≠ some (.handled m)) → f.report = e.report

/-- The run `q` is left of the run `r` when failures are left out: it comes to the same states in the
same steps. -/
structure Run.Truncated (r q : Run σ) : Prop where
  state : q.state = r.state
  exit : q.exit = r.exit.unfailed
  trace : List.Forall₂ Entry.Kept (r.trace.filter fun e => !e.step.isFail) q.trace

namespace Run

theorem andThen_of_failed {r : Run σ} {m : Text} (h : r.exit = .failed m) (next : σ → Run σ) :
    r.andThen next = r :=
  andThen_of_ne_done (by simp [h]) next

theorem andThen_of_isFailed {r : Run σ} (h : r.exit.isFailed = true) (next : σ → Run σ) :
    r.andThen next = r := by
  refine andThen_of_ne_done (fun hd => ?_) next
  simp [hd, Exit.isFailed] at h

theorem andThen_nothing (r : Run σ) : r.andThen (fun s => { state := s }) = r := by
  obtain ⟨s, exit, trace⟩ := r
  cases exit <;> simp [andThen]

namespace Truncated

variable {r q : Run σ}

theorem exit_eq (h : r.Truncated q) {exit : Exit} (hr : r.exit = exit) : q.exit = exit.unfailed :=
  hr ▸ h.exit

theorem start (s : σ) {exit : Exit} (h : exit.isFailed = false) :
    Truncated { state := s, exit := exit } { state := s, exit := exit } := by
  refine ⟨rfl, ?_, .nil⟩
  cases exit with
  | failed m => cases h
  | done | panicked m => rfl

theorem andThen {f g : σ → Run σ} (h : r.Truncated q) (hr : r.exit.isFailed = false)
    (next : ∀ s, (f s).Truncated (g s)) : (r.andThen f).Truncated (q.andThen g) := by
  have hn := next r.state
  unfold Run.andThen
  cases he : r.exit with
  | failed m => simp [he, Exit.isFailed] at hr
  | panicked m =>
    have hq : q.exit = .panicked m := h.exit_eq he
    simpa [hq] using h
  | done =>
    have hq : q.exit = .done := h.exit_eq he
    simp only [hq, h.state]
    refine ⟨hn.state, hn.exit, ?_⟩
    rw [List.filter_append]
    exact List.rel_append h.trace hn.trace

theorem done (h : r.Truncated q) (hq : q.exit = .done) :
    Truncated { r with exit := Exit.done } q :=
  ⟨h.state, hq, h.trace⟩

theorem trace_snoc (h : r.Truncated q) {e f : Entry σ} (he : e.step.isFail = false)
    (hk : e.Kept f) :
    List.Forall₂ Entry.Kept ((r.trace ++ [e]).filter fun e => !e.step.isFail) (q.trace ++ [f]) := by
  have hs : [e].filter (fun e => !e.step.isFail) = [e] := by simp [he]
  rw [List.filter_append, hs]
  exact List.rel_append h.trace (.cons hk .nil)

/-- Steps around the two runs end alike, unless the first one passes on or handles a failure. -/
theorem close (h : r.Truncated q) {step : StepKind} (hs : step.isFail = false)
    {a b : Option Report} (hab : r.exit = .done → (∀ m, a ≠ some (.handled m)) → b = a) :
    (r.close step a).Truncated (q.close step b) := by
  unfold Run.close
  cases he : r.exit with
  | done =>
    have hq : q.exit = .done := h.exit_eq he
    simp only [hq]
    have hk : Entry.Kept ⟨step, r.state, a, none⟩ ⟨step, q.state, b, none⟩ :=
      ⟨rfl, h.state, rfl, fun _ => hab he⟩
    exact ⟨h.state, rfl, h.trace_snoc hs hk⟩
  | failed m =>
    have hq : q.exit = .done := h.exit_eq he
    simp only [hq]
    have hk : Entry.Kept ⟨step, r.state, none, some m⟩ ⟨step, q.state, b, none⟩ := by
      refine ⟨rfl, h.state, rfl, ?_⟩
      rintro ⟨⟩
    exact ⟨h.state, rfl, h.trace_snoc hs hk⟩
  | panicked m =>
    have hq : q.exit = .panicked m := h.exit_eq he
    simpa [hq] using h

theorem each {f g : Text → σ → Run σ} {fails : Text → Bool}
    (hf : ∀ item s, (f item s).exit.isFailed = fails item)
    (hfg : ∀ item s, (f item s).Truncated (g item s)) (items : List Text) :
    ∀ s, (Run.each f items s).Truncated (Run.each g (Program.visited fails items) s) := by
  induction items with
  | nil => exact fun s => start s rfl
  | cons item items ih =>
    intro s
    have hi := hf item s
    by_cases h : fails item = true
    · -- the loop ends here, and the truncated loop has no items behind this one
      have hn : Run.each g (Program.visited fails (item :: items)) s = g item s := by
        rw [Program.visited, if_pos h]
        exact andThen_nothing _
      rw [hn, Run.each, andThen_of_isFailed (hi.trans h)]
      exact hfg item s
    · rw [Program.visited, if_neg h]
      exact (hfg item s).andThen (hi.trans (by simpa using h)) ih

theorem recover (h : r.Truncated q) : r.recover.Truncated q.recover := by
  unfold Run.recover
  cases he : r.exit with
  | done | failed m =>
    have hq : q.exit = .done := h.exit_eq he
    simp only [hq]
    exact h.close rfl fun _ _ => rfl
  | panicked m =>
    have hq : q.exit = .panicked m := h.exit_eq he
    simp only [hq]
    have hd : Truncated { r with exit := Exit.done } { q with exit := Exit.done } :=
      ⟨h.state, rfl, h.trace⟩
    exact hd.close rfl fun _ _ => rfl

variable [Machine σ]

theorem within (form : Scope) {f g : σ → Run σ} (body : ∀ s, (f s).Truncated (g s)) (n : Nat) :
    ∀ s, (Run.within form f n s).Truncated (Run.within form g n s) := by
  induction n with
  | zero => exact body
  | succ n ih =>
    intro s
    have hi := ih (Machine.enter s form)
    exact ⟨congrArg (Machine.restore · (Machine.depth s)) hi.state, hi.exit, hi.trace⟩

theorem pass (h : r.Truncated q) : r.pass.Truncated q.pass := by
  refine h.close rfl ?_
  intro _ _
  rw [h.state]

theorem handle (h : r.Truncated q) : r.handle.Truncated q.handle := by
  unfold Run.handle
  cases he : r.exit with
  | done | panicked m =>
    have hq := h.exit_eq he
    simp only [hq, Exit.unfailed]
    exact h.pass
  | failed m =>
    have hq : q.exit = .done := h.exit_eq he
    simp only [hq]
    refine (h.done hq).close rfl ?_
    intro _ hm
    exact absurd rfl (hm m)

theorem join (h : r.Truncated q) (s : σ) : (r.join s).Truncated (q.join s) := by
  have hs : Truncated { r with state := s } { q with state := s } := ⟨rfl, h.exit, h.trace⟩
  refine hs.close rfl ?_
  intro _ _
  rw [h.state]

end Truncated

end Run

namespace Program

variable [Machine σ]

/-- Every run goes as the run of the program without its failures. -/
theorem run_truncate (p : Program) (s : σ) : (p.run s).Truncated (p.truncate.run s) := by
  induction p generalizing s with
  | skip => exact .start s rfl
  | seq p q ihp ihq =>
    have hp := p.isFailed_exit_run s
    rw [truncate]
    by_cases h : p.fails = true
    · rw [if_pos h, run, Run.andThen_of_isFailed (hp.trans h)]
      exact ihp s
    · rw [if_neg h]
      exact (ihp s).andThen (hp.trans (by simpa using h)) ihq
  | act a => exact (Run.Truncated.start _ rfl).close rfl fun _ _ => rfl
  | scope form times body ih =>
    exact (Run.Truncated.within form ih times s).close rfl fun _ _ => rfl
  | attempt times propagate body ih =>
    have h := Run.Truncated.within .indentWith ih times s
    cases propagate with
    | true => exact h.pass
    | false => exact h.handle
  | forEach items body ih =>
    have h := Run.Truncated.each (fun item s => (body item).isFailed_exit_run s) ih items s
    exact h.close rfl fun _ _ => rfl
  | fork body ih => exact (ih s).join s
  | rescue body ih => exact (ih s).recover
  | fail m => exact ⟨rfl, rfl, .nil⟩
  | panic m => exact .start s rfl

end Program

/-- The run of the program from `b` comes to a failing callback that the program does not handle.
Its message is `m`, and `f` is the builder as it is then, its depth inside the scopes under way
included. Failures on the copy of a fork leave the builder as it was at the fork. -/
inductive Program.FailsAt : Program → TextBuilder → TextBuilder → Text → Prop where
  | fail {m b} : FailsAt (.fail m) b b m
  | first {p q b f m} : FailsAt p b f m → FailsAt (.seq p q) b f m
  | second {p q b f m} : (p.run b).exit = .done → FailsAt q (p.run b).state f m →
      FailsAt (.seq p q) b f m
  | scope {form n body b f m} : FailsAt body (b.atDepth (form.inside n b.depth)) f m →
      FailsAt (.scope form n body) b f m
  | passed {n body b f m} : FailsAt body (b.atDepth (b.depth + n)) f m →
      FailsAt (.attempt n true body) b f m
  | item (before item behind) {body b f m} : ((forEach before body).run b).exit = .done →
      FailsAt (body item) ((forEach before body).run b).state f m →
      FailsAt (.forEach (before ++ item :: behind) body) b f m
  | fork {body b f m} : FailsAt body b f m → FailsAt (.fork body) b b m
  | rescue {body b f m} : FailsAt body b f m → FailsAt (.rescue body) b f m

/-- The run ended by the failure `m` and left the builder as `f` was, its depth apart. -/
structure Run.StoppedAt (r : Run TextBuilder) (f : TextBuilder) (m : Text) : Prop where
  exit : r.exit = .failed m
  state : r.state = f.atDepth r.state.depth

namespace Run

theorem done_of_andThen {r : Run σ} {next : σ → Run σ} (h : (r.andThen next).exit = .done) :
    r.exit = .done := by
  unfold andThen at h
  cases hr : r.exit with
  | done => rfl
  | failed m | panicked m => simp [hr] at h

theorem exit_join [Machine σ] (r : Run σ) (s : σ) : (r.join s).exit = r.exit :=
  exit_close { r with state := s } _ _

theorem exit_handle_ne_failed [Machine σ] (r : Run σ) (m : Text) : r.handle.exit ≠ .failed m := by
  unfold handle
  split
  · rw [exit_close]
    simp
  · next h =>
    rw [exit_close]
    exact h m

theorem exit_of_recover {r : Run σ} {m : Text} (h : r.recover.exit = .failed m) :
    r.exit = .failed m := by
  unfold recover at h
  split at h
  · rw [exit_close] at h
    cases h
  · rwa [exit_close] at h

theorem within_eq (form : Scope) (body : TextBuilder → Run TextBuilder) (n : Nat)
    (b : TextBuilder) :
    let inner := body (b.atDepth (form.inside n b.depth))
    ∃ depth, Run.within form body n b = { inner with state := inner.state.atDepth depth } := by
  cases n with
  | zero =>
    have hb : b.atDepth (form.inside 0 b.depth) = b := by cases form <;> rfl
    rw [hb]
    exact ⟨(body b).state.depth, rfl⟩
  | succ n =>
    rw [← form.iterate_enter]
    exact ⟨b.depth, within_succ form body n b⟩

theorem exit_within (form : Scope) (body : TextBuilder → Run TextBuilder) (n : Nat)
    (b : TextBuilder) :
    (Run.within form body n b).exit = (body (b.atDepth (form.inside n b.depth))).exit := by
  obtain ⟨depth, hw⟩ := within_eq form body n b
  rw [hw]

namespace StoppedAt

variable {r : Run TextBuilder} {f : TextBuilder} {m : Text} {body : TextBuilder → Run TextBuilder}
  {n : Nat} {b : TextBuilder}

theorem first (h : r.StoppedAt f m) (next : TextBuilder → Run TextBuilder) :
    (r.andThen next).StoppedAt f m := by
  rwa [andThen_of_failed h.exit]

theorem second {next : TextBuilder → Run TextBuilder} (hr : r.exit = .done)
    (h : (next r.state).StoppedAt f m) : (r.andThen next).StoppedAt f m := by
  rw [andThen_of_done hr]
  exact ⟨h.exit, h.state⟩

theorem close (h : r.StoppedAt f m) (step : StepKind) (report : Option Report) :
    (r.close step report).StoppedAt f m := by
  refine ⟨(r.exit_close _ _).trans h.exit, ?_⟩
  rw [r.state_close]
  exact h.state

theorem within (form : Scope) (h : (body (b.atDepth (form.inside n b.depth))).StoppedAt f m) :
    (Run.within form body n b).StoppedAt f m := by
  obtain ⟨depth, hw⟩ := within_eq form body n b
  rw [hw]
  refine ⟨h.exit, ?_⟩
  simp only
  rw [h.state]
  rfl

theorem each {g : Text → TextBuilder → Run TextBuilder} {before : List Text} {item : Text}
    (behind : List Text) (hb : (Run.each g before b).exit = .done)
    (h : (g item (Run.each g before b).state).StoppedAt f m) :
    (Run.each g (before ++ item :: behind) b).StoppedAt f m := by
  induction before generalizing b with
  | nil => exact h.first _
  | cons i before ih =>
    rw [Run.each] at hb h
    have hi := done_of_andThen hb
    rw [andThen_of_done hi] at hb h
    exact second hi (ih hb h)

end StoppedAt

end Run

namespace Program

/-- Up to the failure nothing is lost, and behind it nothing is written. -/
theorem FailsAt.stopped {p : Program} {b f : TextBuilder} {m : Text} (h : p.FailsAt b f m) :
    (p.run b).StoppedAt f m := by
  induction h with
  | fail => exact ⟨rfl, rfl⟩
  | first _ ih => exact ih.first _
  | second hp _ ih => exact .second hp ih
  | scope _ ih => exact (Run.StoppedAt.within _ ih).close _ _
  | passed _ ih => exact (Run.StoppedAt.within .indentWith ih).close _ _
  | @item before item behind body b f m hb _ ih =>
    rw [run, Run.exit_close] at hb
    rw [run, Run.state_close] at ih
    exact (Run.StoppedAt.each behind hb ih).close _ _
  | @fork body b f m _ ih =>
    have hs : Run.StoppedAt { body.run b with state := b } b m := ⟨ih.exit, rfl⟩
    exact hs.close _ _
  | rescue _ ih =>
    rw [run, Run.recover, ih.exit]
    exact ih.close _ _

theorem exists_item_of_each {g : Text → TextBuilder → Run TextBuilder} {items : List Text}
    {b : TextBuilder} {m : Text} (h : (Run.each g items b).exit = .failed m) :
    ∃ before item behind, items = before ++ item :: behind ∧
      (Run.each g before b).exit = .done ∧
      (g item (Run.each g before b).state).exit = .failed m := by
  induction items generalizing b with
  | nil => cases h
  | cons item items ih =>
    rw [Run.each] at h
    cases hi : (g item b).exit with
    | done =>
      rw [Run.andThen_of_done hi] at h
      obtain ⟨before, next, behind, rfl, hb, hn⟩ := ih h
      refine ⟨item :: before, next, behind, rfl, ?_, ?_⟩
      · rw [Run.each, Run.andThen_of_done hi]
        exact hb
      · rw [Run.each, Run.andThen_of_done hi]
        exact hn
    | failed m' =>
      rw [Run.andThen_of_failed hi, hi] at h
      cases h
      exact ⟨[], item, items, rfl, rfl, hi⟩
    | panicked m' => simp [Run.andThen, hi] at h

/-- A run that fails has come to a failing callback, whose message it hands on. -/
theorem exists_failsAt {p : Program} {b : TextBuilder} {m : Text}
    (h : (p.run b).exit = .failed m) : ∃ f, p.FailsAt b f m := by
  induction p generalizing b with
  | skip | act a | panic m' => cases h
  | fail m' =>
    cases h
    exact ⟨b, .fail⟩
  | seq p q ihp ihq =>
    rw [run] at h
    cases hp : (p.run b).exit with
    | done =>
      rw [Run.andThen_of_done hp] at h
      obtain ⟨f, hf⟩ := ihq h
      exact ⟨f, .second hp hf⟩
    | failed m' =>
      rw [Run.andThen_of_failed hp] at h
      obtain ⟨f, hf⟩ := ihp h
      exact ⟨f, .first hf⟩
    | panicked m' => simp [Run.andThen, hp] at h
  | scope form n body ih =>
    rw [run, Run.exit_close, Run.exit_within] at h
    obtain ⟨f, hf⟩ := ih h
    exact ⟨f, .scope hf⟩
  | attempt n propagate body ih =>
    cases propagate with
    | true =>
      have h : (Run.within .indentWith body.run n b).exit = .failed m :=
        (Run.exit_close _ _ _).symm.trans h
      rw [Run.exit_within] at h
      obtain ⟨f, hf⟩ := ih h
      exact ⟨f, .passed hf⟩
    | false => exact absurd h (Run.exit_handle_ne_failed _ m)
  | forEach items body ih =>
    rw [run, Run.exit_close] at h
    obtain ⟨before, item, behind, rfl, hb, hi⟩ := exists_item_of_each h
    obtain ⟨f, hf⟩ := ih item hi
    refine ⟨f, .item before item behind ?_ ?_⟩
    · rw [run, Run.exit_close]
      exact hb
    · rw [run, Run.state_close]
      exact hf
  | fork body ih =>
    rw [run, Run.exit_join] at h
    obtain ⟨f, hf⟩ := ih h
    exact ⟨b, .fork hf⟩
  | rescue body ih =>
    obtain ⟨f, hf⟩ := ih (Run.exit_of_recover h)
    exact ⟨f, .rescue hf⟩

theorem exit_run_eq_failed_iff {p : Program} {b : TextBuilder} {m : Text} :
    (p.run b).exit = .failed m ↔ ∃ f, p.FailsAt b f m := by
  constructor
  · exact exists_failsAt
  · rintro ⟨f, h⟩
    exact h.stopped.exit

end Program

/-- An attempt whose body comes to a failing callback ends normally. It reports the message of that
callback, and leaves the builder as the callback found it, at the depth at which the attempt began.
All that runs before and afterwards goes as in the program from which the failing steps are deleted
with all that they made skip. -/
theorem failure_is_truncation :
    (∀ (p : Program) (b : TextBuilder) (m : Text),
      (p.run b).exit = .failed m ↔ ∃ f, p.FailsAt b f m) ∧
    (∀ {n : Nat} {body : Program} {b f : TextBuilder} {m : Text},
      body.FailsAt (b.atDepth (b.depth + (n + 1))) f m →
      let r := (Program.attempt (n + 1) false body).run b
      r.exit = .done ∧ r.state = f.atDepth b.depth ∧
      r.trace.getLast? =
        some { step := .attempt, state := f.atDepth b.depth, report := some (.handled m) }) ∧
    (∀ (p : Program) (b : TextBuilder), (p.run b).Truncated (p.truncate.run b)) := by
  refine ⟨fun p b m => Program.exit_run_eq_failed_iff, ?_, fun p b => p.run_truncate b⟩
  intro n body b f m h
  have hs := Run.StoppedAt.within .indentWith h.stopped
  have hf : (Run.within .indentWith body.run (n + 1) b).state = f.atDepth b.depth := hs.state
  simp only [Program.run, Run.handle, hs.exit, Run.close, hf]
  exact ⟨rfl, rfl, by simp⟩

theorem failure_is_truncation_nested :
    let body := Program.scope .indentWith 2 (.forEach [['x'], ['y']] fun item =>
      .seq (.act (.appendLine item)) (.seq (.fail item) (.act (.appendLine ['z']))))
    let p := Program.seq (.attempt 1 false body) (.act (.appendLine ['e']))
    let b := TextBuilder.withWidth 1
    let f := (b.atDepth 3).appendLine ['x']
    body.FailsAt (b.atDepth 1) f ['x'] ∧
      ((Program.attempt 1 false body).run b).state = f.atDepth 0 ∧
      (p.run b).state.text = "   x\ne\n".toList ∧
      (p.truncate.run b).state = (p.run b).state := by
  intro body p b f
  have h : body.FailsAt (b.atDepth 1) f ['x'] :=
    .scope (.item [] ['x'] [['y']] rfl (.second rfl (.first .fail)))
  obtain ⟨-, hr, ht⟩ := failure_is_truncation
  exact ⟨h, (hr (n := 0) h).2.1, by decide, (ht p b).state⟩

end SourceGen
