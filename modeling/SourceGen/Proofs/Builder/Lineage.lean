import SourceGen.Proofs.Builder.Depth

/-! # The states of a run

A run comes through more states than its trace shows: calls that write many lines come through one
state for each of them, calls that indent by themselves through the inside of a scope, and a fork
starts a copy that goes its own way. A stage is any of these states, counted by what can have raised
the depth before it. -/
namespace SourceGen

namespace Script

def lines (ls : List Text) : Script := ls.foldr (fun l rest => .act (.appendLine l) rest) .done

def indentedLines (ls : List Text) : Script :=
  ls.foldr (fun l rest => .scope .indentWith (lines [l]) rest) .done

end Script

/-- The action in single steps. None of them writes more than one margin, and the scopes that the
action opens by itself are written out. -/
def Action.script : Action → Script
  | .writePair left right =>
    .act (.append left)
      (.act (.append " = ".toList) (.act (.append right) (.act (.append [';']) .done)))
  | .appendBody t => .lines (bodyLines t)
  | .appendLineIndented t => .scope .indentWith (.lines [t]) .done
  | .appendBodyIndented t => .scope .indentWith (.lines (bodyLines t)) .done
  | .unindentLine t => .scope .unindentWith (.lines [t]) .done
  | .appendLines items => .lines items
  | .appendLinesIndented items => .indentedLines items
  | .appendBodies items => .lines (items.flatMap bodyLines)
  | .appendLinesBy items format => .lines (items.map format)
  | .appendLinesIndentedBy items format => .indentedLines (items.map format)
  | .appendBodiesBy items format => .lines (items.flatMap fun item => bodyLines (format item))
  | .appendUsings namespaces => .lines (namespaces.map TextBuilder.usingDirective)
  | .appendMultipleUsings sources =>
    .lines (sources.flatten.eraseDups.map TextBuilder.usingDirective)
  | a => .act a .done

namespace Script

def unfold : Script → Script
  | done => done
  | act a rest => a.script.append rest.unfold
  | scope form body rest => scope form body.unfold rest.unfold

theorem play_lines (ls : List Text) (b : TextBuilder) :
    (lines ls).play b = ls.foldl TextBuilder.appendLine b := by
  induction ls generalizing b with
  | nil => rfl
  | cons l ls ih => exact ih _

theorem play_indentedLines (ls : List Text) (b : TextBuilder) :
    (indentedLines ls).play b = ls.foldl TextBuilder.appendLineIndented b := by
  induction ls generalizing b with
  | nil => rfl
  | cons l ls ih => exact ih _

end Script

theorem Action.play_script (a : Action) (b : TextBuilder) : a.script.play b = a.apply b := by
  cases a with
  | appendBody t => exact Script.play_lines _ b
  | appendBodyIndented t =>
    exact congrArg (TextBuilder.atDepth · b.depth) (Script.play_lines _ b.deeper)
  | appendLines items => exact Script.play_lines _ b
  | appendLinesIndented items => exact Script.play_indentedLines _ b
  | appendBodies items =>
    rw [script, Script.play_lines, List.foldl_flatMap]
    rfl
  | appendLinesBy items format =>
    rw [script, Script.play_lines, List.foldl_map]
    rfl
  | appendLinesIndentedBy items format =>
    rw [script, Script.play_indentedLines, List.foldl_map]
    rfl
  | appendBodiesBy items format =>
    rw [script, Script.play_lines, List.foldl_flatMap]
    rfl
  | appendUsings namespaces =>
    rw [script, Script.play_lines, List.foldl_map]
    rfl
  | appendMultipleUsings sources =>
    rw [script, Script.play_lines, List.foldl_map]
    rfl
  -- The other actions do by definition what their scripts say.
  | _ => rfl

theorem Script.play_unfold (script : Script) (b : TextBuilder) :
    script.unfold.play b = script.play b := by
  induction script generalizing b with
  | done => rfl
  | act a rest ih =>
    rw [unfold, play_append, a.play_script, ih]
    rfl
  | scope form body rest ihb ih =>
    have hb : body.unfold.play = body.play := funext ihb
    rw [unfold, play, ih, hb, play]

/-- A state of a run, with the number of indent calls made and of scopes entered before it. -/
structure Stage where
  state : TextBuilder
  rises : Nat

def Action.rises : Action → Nat
  | .indent => 1
  | _ => 0

namespace Script

def rises : Script → Nat
  | done => 0
  | act a rest => a.rises + rest.rises
  | scope _ body rest => 1 + body.rises + rest.rises

/-- The stages of a script in single steps, from a state before which there were `n` rises. -/
def stages : Script → TextBuilder → Nat → List Stage
  | done, b, n => [⟨b, n⟩]
  | act a rest, b, n => ⟨b, n⟩ :: rest.stages (a.apply b) (n + a.rises)
  | scope form body rest, b, n =>
    ⟨b, n⟩ :: (body.stages (Machine.enter b form) (n + 1) ++
      rest.stages (enclose form body.play b) (n + 1 + body.rises))

theorem mem_stages_end (script : Script) (b : TextBuilder) (n : Nat) :
    ⟨script.play b, n + script.rises⟩ ∈ script.stages b n := by
  induction script generalizing b n with
  | done => exact List.mem_cons_self
  | act a rest ih =>
    have h := ih (a.apply b) (n + a.rises)
    rw [Nat.add_assoc] at h
    exact List.mem_cons_of_mem _ h
  | scope form body rest _ ih =>
    have h := ih (enclose form body.play b) (n + 1 + body.rises)
    have hn : n + 1 + body.rises + rest.rises = n + (scope form body rest).rises := by
      simp only [rises]
      omega
    rw [hn] at h
    exact List.mem_cons_of_mem _ (List.mem_append_right _ h)

theorem mem_stages_append_right {script next : Script} {b : TextBuilder} {n : Nat} {g : Stage}
    (h : g ∈ next.stages (script.play b) (n + script.rises)) :
    g ∈ (script.append next).stages b n := by
  induction script generalizing b n with
  | done => exact h
  | act a rest ih =>
    rw [rises, ← Nat.add_assoc] at h
    exact List.mem_cons_of_mem _ (ih h)
  | scope form body rest _ ih =>
    have hn : n + (scope form body rest).rises = n + 1 + body.rises + rest.rises := by
      simp only [rises]
      omega
    rw [hn] at h
    exact List.mem_cons_of_mem _ (List.mem_append_right _ (ih h))

/-- Nothing but a rise can make the depth larger than it ever was, as leaving a scope gives back a
depth from before. -/
theorem depth_le_rises (script : Script) {b : TextBuilder} {n : Nat} (h : b.depth ≤ n) :
    ∀ g ∈ script.stages b n, g.state.depth ≤ g.rises := by
  induction script generalizing b n with
  | done =>
    intro g hg
    rw [List.mem_singleton.mp hg]
    exact h
  | act a rest ih =>
    have ha : (a.apply b).depth ≤ n + a.rises := by
      rw [a.depth_apply]
      cases a <;> simp only [Action.depthFrom, Action.rises] <;> omega
    exact List.forall_mem_cons.mpr ⟨h, ih ha⟩
  | scope form body rest ihb ih =>
    have he : (Machine.enter b form).depth ≤ n + 1 := by
      change form.enter b.depth ≤ n + 1
      cases form <;> simp only [Scope.enter] <;> omega
    have hr : (enclose form body.play b).depth ≤ n + 1 + body.rises := by
      change b.depth ≤ n + 1 + body.rises
      omega
    exact List.forall_mem_cons.mpr ⟨h, List.forall_mem_append.mpr ⟨ihb he, ih hr⟩⟩

theorem indent_stages (script : Script) (b : TextBuilder) (n : Nat) :
    ∀ g ∈ script.stages b n, g.state.indent = b.indent := by
  induction script generalizing b n with
  | done =>
    intro g hg
    rw [List.mem_singleton.mp hg]
  | act a rest ih =>
    have hr := ih (a.apply b) (n + a.rises)
    rw [a.indent_apply] at hr
    exact List.forall_mem_cons.mpr ⟨rfl, hr⟩
  | scope form body rest ihb ih =>
    have hb := ihb (Machine.enter b form) (n + 1)
    have hr := ih (enclose form body.play b) (n + 1 + body.rises)
    have he : (enclose form body.play b).indent = b.indent := body.indent_play _
    rw [he] at hr
    exact List.forall_mem_cons.mpr ⟨rfl, List.forall_mem_append.mpr ⟨hb, hr⟩⟩

theorem append_assoc (script next last : Script) :
    (script.append next).append last = script.append (next.append last) := by
  induction script with
  | done => rfl
  | act a rest ih => exact congrArg (act a) ih
  | scope form body rest _ ih => exact congrArg (scope form body) ih

theorem unfold_append (script next : Script) :
    (script.append next).unfold = script.unfold.append next.unfold := by
  induction script with
  | done => rfl
  | act a rest ih => rw [append, unfold, unfold, ih, append_assoc]
  | scope form body rest _ ih => rw [append, unfold, unfold, ih, append]

end Script

/-- What the builders of a program's run perform, when it goes on as `next` do. -/
def Course.goingOn (c : Course) (here next : List Script) : List Script :=
  here ++ if c.exit = .done then next.map c.script.append else []

/-- The loop's lineages, where `f` tells the course and `g` the lineages of its body. -/
def Course.eachLineage (f : Text → Course) (g : Text → List Script) : List Text → List Script
  | [] => [.done]
  | item :: items => (f item).goingOn (g item) (eachLineage f g items)

/-- The scripts of the builder and of its copies, each from the start of the run on. A copy leaves
the scopes in which it was made at its end. -/
def Program.lineages : Program → List Script
  | .skip | .fail _ | .panic _ => [.done]
  | .seq p q => p.course.goingOn p.lineages q.lineages
  | .act a => [.act a .done]
  | .scope form times body => body.lineages.map (.nest form times)
  | .attempt times _ body => body.lineages.map (.nest .indentWith times)
  | .forEach items body =>
    Course.eachLineage (fun item => (body item).course) (fun item => (body item).lineages) items
  | .fork body => .done :: body.lineages
  | .rescue body => body.lineages

/-- The stages of the program's run, those of copies included. -/
def Program.stages (p : Program) (b : TextBuilder) : List Stage :=
  p.lineages.flatMap fun script => script.unfold.stages b 0

/-- One of the lineages comes to the state `s`, wherever its rises are counted from. -/
def Comes (ls : List Script) (b s : TextBuilder) : Prop :=
  ∀ n, ∃ script ∈ ls, ∃ k, ⟨s, k⟩ ∈ script.unfold.stages b n

namespace Comes

variable {ls ms : List Script} {b s : TextBuilder}

theorem play {script : Script} (h : script ∈ ls) (b : TextBuilder) : Comes ls b (script.play b) := by
  intro n
  have he := script.unfold.mem_stages_end b n
  rw [script.play_unfold] at he
  exact ⟨script, h, _, he⟩

theorem goingOn_left (h : Comes ls b s) (c : Course) : Comes (c.goingOn ls ms) b s := by
  intro n
  obtain ⟨script, hs, hk⟩ := h n
  exact ⟨script, List.mem_append_left _ hs, hk⟩

theorem goingOn_right {c : Course} (hc : c.exit = .done) (h : Comes ms (c.script.play b) s) :
    Comes (c.goingOn ls ms) b s := by
  intro n
  obtain ⟨script, hs, k, hk⟩ := h (n + c.script.unfold.rises)
  refine ⟨c.script.append script, ?_, k, ?_⟩
  · rw [Course.goingOn, if_pos hc]
    exact List.mem_append_right _ (List.mem_map_of_mem hs)
  · rw [Script.unfold_append]
    rw [← c.script.play_unfold] at hk
    exact Script.mem_stages_append_right hk

theorem nest_succ {form : Scope} {times : Nat}
    (h : Comes (ls.map (.nest form times)) (Machine.enter b form) s) :
    Comes (ls.map (.nest form (times + 1))) b s := by
  intro n
  obtain ⟨script, hs, k, hk⟩ := h (n + 1)
  obtain ⟨inner, hi, rfl⟩ := List.mem_map.mp hs
  exact ⟨_, List.mem_map_of_mem hi, k, List.mem_cons_of_mem _ (List.mem_append_left _ hk)⟩

end Comes

/-- The run follows its course, and all states in its trace are on its lineages. -/
structure Run.Tracked (r : Run TextBuilder) (c : Course) (ls : List Script) (b : TextBuilder) :
    Prop where
  follows : r.Follows c b
  own : c.script ∈ ls
  trace : ∀ e ∈ r.trace, Comes ls b e.state

namespace Run.Tracked

variable {r : Run TextBuilder} {c d : Course} {ls ms : List Script} {b : TextBuilder}

theorem state (h : r.Tracked c ls b) : Comes ls b r.state := by
  rw [h.follows.state]
  exact .play h.own b

theorem start (b : TextBuilder) (exit : Exit) :
    Tracked { state := b, exit := exit } { exit := exit } [.done] b :=
  ⟨.start b exit, List.mem_singleton.mpr rfl, List.forall_mem_nil _⟩

theorem andThen {f : TextBuilder → Run TextBuilder} (h : r.Tracked c ls b)
    (next : ∀ t, (f t).Tracked d ms t) : (r.andThen f).Tracked (c.andThen d) (c.goingOn ls ms) b := by
  refine ⟨h.follows.andThen fun t => (next t).follows, ?_, ?_⟩
  · by_cases hc : c.exit = .done
    · simpa [Course.andThen, Course.goingOn, hc] using Or.inr ⟨_, (next b).own, rfl⟩
    · have hs : c.andThen d = c := by
        unfold Course.andThen
        split
        · exact absurd ‹_› hc
        · rfl
      rw [hs]
      exact List.mem_append_left _ h.own
  · by_cases hc : c.exit = .done
    · rw [Run.andThen_of_done (h.follows.exit.trans hc)]
      have hn := (next r.state).trace
      rw [h.follows.state] at hn
      refine List.forall_mem_append.mpr ⟨fun e he => (h.trace e he).goingOn_left c, ?_⟩
      rw [h.follows.state]
      exact fun e he => .goingOn_right hc (hn e he)
    · rw [Run.andThen_of_ne_done (by rwa [h.follows.exit])]
      exact fun e he => (h.trace e he).goingOn_left c

theorem each {f : Text → TextBuilder → Run TextBuilder} {g : Text → Course}
    {k : Text → List Script} (items : List Text)
    (next : ∀ item t, (f item t).Tracked (g item) (k item) t) :
    ∀ t, (Run.each f items t).Tracked (Course.each g items) (Course.eachLineage g k items) t := by
  induction items with
  | nil => exact fun t => start t .done
  | cons item items ih => exact fun t => (next item t).andThen ih

theorem close (h : r.Tracked c ls b) (step : StepKind) (report : Option Report) :
    (r.close step report).Tracked c ls b := by
  refine ⟨h.follows.close step report, h.own, ?_⟩
  unfold Run.close
  split
  · exact List.forall_mem_append.mpr ⟨h.trace, List.forall_mem_singleton.mpr h.state⟩
  · exact List.forall_mem_append.mpr ⟨h.trace, List.forall_mem_singleton.mpr h.state⟩
  · exact h.trace

theorem within (form : Scope) {f : TextBuilder → Run TextBuilder}
    (body : ∀ t, (f t).Tracked c ls t) (times : Nat) :
    ∀ t, (Run.within form f times t).Tracked (c.within form times) (ls.map (.nest form times)) t := by
  intro t
  refine ⟨.within form (fun t => (body t).follows) times t, List.mem_map_of_mem (body t).own, ?_⟩
  induction times generalizing t with
  | zero =>
    have hm : ls.map (Script.nest form 0) = ls := List.map_id ls
    rw [hm]
    exact (body t).trace
  | succ n ih => exact fun e he => (ih _ e he).nest_succ

theorem done (h : r.Tracked c ls b) :
    Tracked { r with exit := Exit.done } { c with exit := Exit.done } ls b :=
  ⟨h.follows.done, h.own, h.trace⟩

theorem handle (h : r.Tracked c ls b) : r.handle.Tracked c.handle ls b := by
  unfold Run.handle Course.handle
  rw [h.follows.exit]
  cases c.exit with
  | failed m => exact h.done.close _ _
  | done | panicked m => exact h.close _ _

theorem recover (h : r.Tracked c ls b) : r.recover.Tracked c.recover ls b := by
  unfold Run.recover Course.recover
  rw [h.follows.exit]
  cases c.exit with
  | panicked m => exact h.done.close _ _
  | done | failed m => exact h.close _ _

theorem join (h : r.Tracked c ls b) : (r.join b).Tracked { exit := c.exit } (.done :: ls) b := by
  have hb : Tracked { r with state := b } { exit := c.exit } (.done :: ls) b := by
    refine ⟨⟨rfl, h.follows.exit, List.nil_sublist _⟩, List.mem_cons_self, ?_⟩
    intro e he n
    obtain ⟨script, hs, hk⟩ := h.trace e he n
    exact ⟨script, List.mem_cons_of_mem _ hs, hk⟩
  exact hb.close _ _

end Run.Tracked

namespace Program

theorem run_tracked (p : Program) (b : TextBuilder) :
    (p.run b).Tracked p.course p.lineages b := by
  induction p generalizing b with
  | skip => exact .start b .done
  | seq p q ihp ihq => exact (ihp b).andThen ihq
  | act a =>
    have hm : Script.act a .done ∈ (act a).lineages := List.mem_singleton.mpr rfl
    exact ⟨(act a).run_follows b, hm, List.forall_mem_singleton.mpr (.play hm b)⟩
  | scope form times body ih => exact (Run.Tracked.within form ih times b).close _ _
  | attempt times propagate body ih =>
    have h := Run.Tracked.within .indentWith ih times b
    cases propagate with
    | true => exact h.close _ _
    | false => exact h.handle
  | forEach items body ih => exact (Run.Tracked.each items ih b).close _ _
  | fork body ih => exact (ih b).join
  | rescue body ih => exact (ih b).recover
  | fail m => exact (Run.Tracked.start b (.failed m)).close _ _
  | panic m => exact .start b (.panicked m)

theorem exists_stage {p : Program} {b s : TextBuilder} (h : Comes p.lineages b s) :
    ∃ g ∈ p.stages b, g.state = s := by
  obtain ⟨script, hs, k, hk⟩ := h 0
  exact ⟨_, List.mem_flatMap.mpr ⟨script, hs, hk⟩, rfl⟩

end Program

end SourceGen
