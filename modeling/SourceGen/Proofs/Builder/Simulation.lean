import Mathlib.Data.List.Forall2
import SourceGen.Builder.Program

/-! # Runs side by side

Two machines that stay related through single actions and through entering and leaving scopes
run every program alike: the runs end in the same way, take the same steps, and are in related
states after each of them. -/
namespace SourceGen

/-- Every action of the program satisfies `ok`; those in a loop do so for each of its items. -/
def Program.Every (ok : Action → Prop) : Program → Prop
  | .skip | .fail _ | .panic _ => True
  | .seq p q => p.Every ok ∧ q.Every ok
  | .act a => ok a
  | .scope _ _ body | .attempt _ _ body | .fork body | .rescue body => body.Every ok
  | .forEach items body => ∀ item ∈ items, (body item).Every ok

instance Program.decidableEvery (ok : Action → Prop) [DecidablePred ok] :
    (p : Program) → Decidable (p.Every ok)
  | .skip | .fail _ | .panic _ => isTrue trivial
  | .seq p q =>
    have := decidableEvery ok p
    have := decidableEvery ok q
    inferInstanceAs (Decidable (p.Every ok ∧ q.Every ok))
  | .act a => inferInstanceAs (Decidable (ok a))
  | .scope _ _ body | .attempt _ _ body | .fork body | .rescue body => decidableEvery ok body
  | .forEach items body =>
    have := fun item => decidableEvery ok (body item)
    inferInstanceAs (Decidable (∀ item ∈ items, (body item).Every ok))

variable {σ τ : Type} {R : σ → τ → Prop} {Q : Option Report → Option Report → Prop}

structure Entry.Related (R : σ → τ → Prop) (Q : Option Report → Option Report → Prop)
    (e : Entry σ) (f : Entry τ) : Prop where
  step : e.step = f.step
  state : R e.state f.state
  report : Q e.report f.report
  failure : e.failure = f.failure

structure Run.Related (R : σ → τ → Prop) (Q : Option Report → Option Report → Prop)
    (r : Run σ) (q : Run τ) : Prop where
  state : R r.state q.state
  exit : r.exit = q.exit
  trace : List.Forall₂ (Entry.Related R Q) r.trace q.trace

/-- What single operations keep. Related states may have different depths, as long as leaving a
scope at the depths of its start relates the states again. -/
structure Simulation [Machine σ] [Machine τ] (R : σ → τ → Prop)
    (Q : Option Report → Option Report → Prop) (ok : Action → Prop) : Prop where
  apply : ∀ {s t a}, ok a → R s t → R (Machine.apply s a) (Machine.apply t a)
  report : ∀ {s t a}, ok a → R s t → Q (Machine.report? s a) (Machine.report? t a)
  enter : ∀ {s t} (form : Scope), R s t → R (Machine.enter s form) (Machine.enter t form)
  leave : ∀ {s t s' t'}, R s t → R s' t' →
    R (Machine.restore s' (Machine.depth s)) (Machine.restore t' (Machine.depth t))
  depth : ∀ {s t}, R s t →
    Q (some (.depth (Machine.depth s))) (some (.depth (Machine.depth t)))
  text : ∀ {s t}, R s t → Q (some (.text (Machine.text s))) (some (.text (Machine.text t)))
  silent : Q none none
  handled : ∀ m, Q (some (.handled m)) (some (.handled m))
  caught : ∀ m, Q (some (.caught m)) (some (.caught m))

namespace Run.Related

variable {r : Run σ} {q : Run τ}

theorem start {s : σ} {t : τ} (h : R s t) (exit : Exit) :
    Related R Q { state := s, exit := exit } { state := t, exit := exit } :=
  ⟨h, rfl, .nil⟩

theorem mono {R' : σ → τ → Prop} (h : Related R Q r q) (hR : ∀ {s t}, R s t → R' s t) :
    Related R' Q r q :=
  ⟨hR h.state, h.exit, h.trace.imp fun _ _ he => ⟨he.step, hR he.state, he.report, he.failure⟩⟩

theorem andThen {f : σ → Run σ} {g : τ → Run τ} (h : Related R Q r q)
    (next : ∀ {s t}, R s t → Related R Q (f s) (g t)) :
    Related R Q (r.andThen f) (q.andThen g) := by
  have hn := next h.state
  unfold Run.andThen
  rw [← h.exit]
  cases r.exit with
  | done => exact ⟨hn.state, hn.exit, List.rel_append h.trace hn.trace⟩
  | failed m | panicked m => exact h

theorem each {f : Text → σ → Run σ} {g : Text → τ → Run τ} (items : List Text)
    (next : ∀ item ∈ items, ∀ {s t}, R s t → Related R Q (f item s) (g item t)) :
    ∀ {s t}, R s t → Related R Q (Run.each f items s) (Run.each g items t) := by
  induction items with
  | nil => exact fun h => start h .done
  | cons item items ih =>
    intro s t h
    refine (next item List.mem_cons_self h).andThen ?_
    exact ih fun i hi => next i (List.mem_cons_of_mem item hi)

theorem close (h : Related R Q r q) (silent : Q none none) (step : StepKind)
    {a b : Option Report} (hab : Q a b) : Related R Q (r.close step a) (q.close step b) := by
  unfold Run.close
  rw [← h.exit]
  cases r.exit with
  | done =>
    have he : Entry.Related R Q ⟨step, r.state, a, none⟩ ⟨step, q.state, b, none⟩ :=
      ⟨rfl, h.state, hab, rfl⟩
    exact ⟨h.state, rfl, List.rel_append h.trace (.cons he .nil)⟩
  | failed m =>
    have he : Entry.Related R Q ⟨step, r.state, none, some m⟩ ⟨step, q.state, none, some m⟩ :=
      ⟨rfl, h.state, silent, rfl⟩
    exact ⟨h.state, rfl, List.rel_append h.trace (.cons he .nil)⟩
  | panicked m => exact h

theorem done (h : Related R Q r q) :
    Related R Q { r with exit := Exit.done } { q with exit := Exit.done } :=
  ⟨h.state, rfl, h.trace⟩

variable [Machine σ] [Machine τ] {ok : Action → Prop}

theorem within (S : Simulation R Q ok) (form : Scope) {f : σ → Run σ} {g : τ → Run τ}
    (body : ∀ {s t}, R s t → Related R Q (f s) (g t)) (n : Nat) :
    ∀ {s t}, R s t → Related R Q (Run.within form f n s) (Run.within form g n t) := by
  induction n with
  | zero => exact body
  | succ n ih =>
    intro s t h
    have hr := ih (S.enter form h)
    exact ⟨S.leave h hr.state, hr.exit, hr.trace⟩

theorem pass (S : Simulation R Q ok) (h : Related R Q r q) : Related R Q r.pass q.pass :=
  h.close S.silent .attempt (S.depth h.state)

theorem handle (S : Simulation R Q ok) (h : Related R Q r q) : Related R Q r.handle q.handle := by
  have hp := h.pass S
  unfold Run.handle
  rw [← h.exit]
  cases r.exit with
  | failed m => exact h.done.close S.silent .attempt (S.handled m)
  | done | panicked m => exact hp

theorem recover (S : Simulation R Q ok) (h : Related R Q r q) :
    Related R Q r.recover q.recover := by
  unfold Run.recover
  rw [← h.exit]
  cases r.exit with
  | panicked m => exact h.done.close S.silent .rescue (S.caught (some m))
  | done | failed m => exact h.close S.silent .rescue (S.caught none)

theorem join (S : Simulation R Q ok) {s : σ} {t : τ} (hs : R s t) (h : Related R Q r q) :
    Related R Q (r.join s) (q.join t) := by
  have hc : Related R Q { r with state := s } { q with state := t } := ⟨hs, h.exit, h.trace⟩
  exact hc.close S.silent .fork (S.text h.state)

end Run.Related

/-- Machines that simulate each other in single operations do so in every run of a program. -/
theorem Simulation.run [Machine σ] [Machine τ] {ok : Action → Prop} (S : Simulation R Q ok)
    {p : Program} (hp : p.Every ok) {s : σ} {t : τ} (h : R s t) :
    Run.Related R Q (p.run s) (p.run t) := by
  induction p generalizing s t with
  | skip => exact .start h .done
  | seq p q ihp ihq => exact (ihp hp.1 h).andThen (ihq hp.2)
  | act a => exact (Run.Related.start (S.apply hp h) .done).close S.silent _ (S.report hp h)
  | scope form times body ih =>
    exact (Run.Related.within S form (ih hp) times h).close S.silent _ S.silent
  | attempt times propagate body ih =>
    have hr := Run.Related.within S .indentWith (ih hp) times h
    cases propagate with
    | true => exact hr.pass S
    | false => exact hr.handle S
  | forEach items body ih =>
    have hr := Run.Related.each items (fun item hi => ih item (hp item hi)) h
    exact hr.close S.silent _ S.silent
  | fork body ih => exact (ih hp h).join S h
  | rescue body ih => exact (ih hp h).recover S
  | fail m => exact (Run.Related.start h (.failed m)).close S.silent _ S.silent
  | panic m => exact .start h (.panicked m)

end SourceGen
