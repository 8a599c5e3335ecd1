import Mathlib.Data.List.Basic
import Scriptlet.Proofs.Eval.Variations
import Scriptlet.Proofs.Timeline.Courses

/-!
# Tracing only observes

Whether statements are logged is one of the settings. A run with this setting and one without end
in the same way, and the log of the second is that of the first without the statements
(`tracing_observes`): both are told of one run on a machine with an empty log (`retold`). In the
first log there is one event for each statement whose evaluation begins
(`Course.filter_logged`).
-/

namespace Scriptlet

/-- The machine on which statements are logged, or on which they are not. -/
def Machine.tracing (m : Machine) (on : Bool) : Machine :=
  { m with settings := { m.settings with tracing := on } }

/-- The event that tells that the statement begins. -/
def Stmt.event (s : Stmt) : Event := .statement s.kindName s.position

/-- The statement that begins, if it is one. -/
def Frame.stmt? : Frame → Option Stmt
  | .node (.stmt s) => some s
  | _ => none

/-- The statements whose evaluation begins during the run, in this order. -/
def Program.statementsBegun (p : Program) (fuel : Nat) (m : Machine) : List Stmt :=
  (p.timeline fuel m).filterMap fun E => E.frame.stmt?

/-! ## One run, told in two ways -/

/-- Whether the event is told, with statements or without. -/
def Event.isTold (on : Bool) (e : Event) : Bool := on || !e.isStatement

/-- What is logged comes after `before`, and statements are told only if `on`. -/
def retold (before : Array Event) (on : Bool) : Variation where
  limit n := n
  settings σ := { σ with tracing := σ.tracing && on }
  events es := before ++ es.filter (Event.isTold on)
  Fits _ := True
  Lost _ := False
  callLimit_settings _ := rfl
  le_limit _ := Nat.le_refl _
  overflow _ := .inl rfl
  push {e} es he := by
    have htold : e.isTold on = true := by
      rw [Event.isTold, he]
      exact Bool.or_true on
    rw [Array.filter_push, if_pos htold, Array.append_push]
  begun σ es he := by
    cases σ.tracing with
    | false => rfl
    | true =>
      rw [if_pos rfl, Array.filter_push, Event.isTold, he]
      cases on with
      | false => rfl
      | true => exact Array.append_push

theorem Machine.events_retold (m : Machine) (before : Array Event) (on : Bool) :
    (m.varied (retold before on)).events.toList =
      before.toList ++ m.events.toList.filter (Event.isTold on) := by
  show (before ++ m.events.filter (Event.isTold on)).toList = _
  rw [Array.toList_append, Array.toList_filter]

/-- A machine with an empty log, told with statements or without. -/
theorem Machine.varied_retold (m : Machine) (on : Bool) :
    { m.tracing true with events := #[] }.varied (retold m.events on) = m.tracing on := by
  show { m.tracing on with events := m.events ++ #[].filter (Event.isTold on) } = _
  rw [Array.filter_empty, Array.append_empty]
  rfl

/-- A run with an empty log, told with statements or without. -/
theorem Program.run_retold (p : Program) (fuel : Nat) (m : Machine) : ∃ (r : Except Stop Value)
    (n : Machine), ∀ on, runProgram fuel p (m.tracing on) =
      Eval.ending r (n.varied (retold m.events on)) := by
  let silent : Machine := { m.tracing true with events := #[] }
  obtain ⟨r, n, hr⟩ := Eval.exists_ending (runProgram fuel p) silent
  refine ⟨r, n, fun on => ?_⟩
  obtain ⟨r', n', hr', hvaried⟩ :=
    (retold m.events on).follows_program fuel p (m := silent) trivial
  obtain ⟨rfl, rfl⟩ := Eval.ending_inj (hr'.symm.trans hr)
  rw [← m.varied_retold on]
  refine hvaried.resolve_left fun hmisses => ?_
  match r', hmisses with
  | .error (.failure _), hlost => exact hlost

/-! ## What is logged of statements -/

/-- Of what an episode logs, only that a statement begins is told by such an event. -/
theorem Episode.filter_logged {E : Episode} (htracing : E.start.settings.tracing = true) :
    E.logged.filter Event.isStatement = (E.frame.stmt?.map Stmt.event).toList := by
  have called {c : Prop} [Decidable c] {e : Event} (he : e.isStatement = false) :
      (if c then [e] else []).filter Event.isStatement = [] := by
    split
    · rw [List.filter_cons_of_neg (Bool.eq_false_iff.mp he), List.filter_nil]
    · exact List.filter_nil
  obtain ⟨outer, F, m, r, n, inner⟩ := E
  unfold logged
  dsimp only at htracing ⊢
  cases F with
  | node x =>
    cases x with
    | expr e => rfl
    | stmt s =>
      rw [Frame.logged, if_pos htracing]
      rfl
  | function f args => exact called rfl
  | builtin b args => exact called rfl

/-- If statements are logged, there is one event for each that begins. -/
theorem Course.filter_logged {site : Bool} {outer : List Frame} {α : Type} {m n : Machine}
    {eps : List Episode} {r : Except Stop α} (h : Course site outer m eps r n)
    (htracing : m.settings.tracing = true) :
    (eps.flatMap Episode.logged).filter Event.isStatement =
      (eps.filterMap fun E => E.frame.stmt?).map Stmt.event := by
  have hlogged : ∀ E ∈ eps, E.logged.filter Event.isStatement =
      (E.frame.stmt?.map Stmt.event).toList := by
    intro E hE
    refine Episode.filter_logged ?_
    rw [(h.between E hE).1.settings]
    exact htracing
  rw [List.filter_flatMap, List.flatMap_congr hlogged, List.map_filterMap,
    List.filterMap_eq_flatMap_toList]

/-- With tracing and without it, a program ends with the same outcome, and leaves the same bindings,
the same cells and the same host, so also the same output and files. What is logged without it is
what is logged with it, but for the statements; of these there is one event for each statement whose
evaluation begins, in this order, with its kind and its position. -/
theorem tracing_observes (p : Program) (fuel : Nat) (m : Machine) : ∃ r traced untraced es,
    runProgram fuel p (m.tracing true) = Eval.ending r traced ∧
    runProgram fuel p (m.tracing false) = Eval.ending r untraced ∧
    untraced.env = traced.env ∧ untraced.heap = traced.heap ∧ untraced.host = traced.host ∧
    untraced.interrupted = traced.interrupted ∧
    traced.events.toList = m.events.toList ++ es ∧
    untraced.events.toList = m.events.toList ++ es.filter (fun e => !e.isStatement) ∧
    es.filter Event.isStatement =
      (p.statementsBegun fuel (m.tracing true)).map Stmt.event := by
  obtain ⟨r, n, hrun⟩ := p.run_retold fuel m
  have hall : n.events.toList.filter (Event.isTold true) = n.events.toList :=
    List.filter_eq_self.mpr fun _ _ => rfl
  have htraced : (n.varied (retold m.events true)).events.toList =
      m.events.toList ++ n.events.toList := by
    rw [n.events_retold, hall]
  refine ⟨r, _, _, n.events.toList, hrun true, hrun false, rfl, rfl, rfl, rfl, htraced,
    n.events_retold m.events false, ?_⟩
  obtain ⟨_, -, hcourse⟩ := Program.course (hrun true)
  rw [Program.events_run (hrun true) htraced]
  exact hcourse.filter_logged rfl

end Scriptlet
