import Scriptlet.Proofs.Eval.Locations
import Scriptlet.Proofs.Relabel.Evaluation
import Scriptlet.Proofs.Session.Constants

/-!
# Relabelled sessions

What a session does when it executes a text depends neither on the log nor on whether it was asked
to stop before, and the limit on calls is set anew each time. `Relabeling.Sessions` leaves these
out, and `Relabeling.Results` is about how an execution is reported.
-/

namespace Scriptlet

/-- The session as it is when it begins to execute a text. -/
def Session.ready (s : Session) : Session :=
  { s with interrupted := false, env := s.env.setLimit s.settings.callLimit }

/-- The reports say the same, at positions that are related. A report that has no position is the
same. -/
inductive SameReport (P : Position → Position → Prop) : Diagnostic → Diagnostic → Prop
  | unplaced {d : Diagnostic} : (d.stage = .runtime → d.line = 0 ∧ d.column = 0) → SameReport P d d
  | placed {d : Diagnostic} {q : Position} : P d.position q →
    SameReport P d { d with line := q.line, column := q.column }

theorem SameReport.imp {P Q : Position → Position → Prop} (hPQ : ∀ p q, P p q → Q p q)
    {d d' : Diagnostic} (h : SameReport P d d') : SameReport Q d d' := by
  cases h with
  | unplaced hd => exact .unplaced hd
  | placed hq => exact .placed (hPQ _ _ hq)

theorem SameReport.eq {d d' : Diagnostic} (h : SameReport (· = ·) d d') : d = d' := by
  cases h with
  | unplaced => rfl
  | placed hq => rw [← hq, Diagnostic.position]

namespace Relabeling

variable {κ : Relabeling} {n : Nat}

/-- The sessions will differ only in how things are labelled. -/
def Sessions (κ : Relabeling) (s s' : Session) : Prop := κ.Machines s.ready s'.ready

theorem Machines.sessions (hκ : κ.settings.callLimit = κ.limit) {m m' : Machine}
    (h : κ.Machines m m') : κ.Sessions m m' := by
  have hlimit : m.settings.callLimit = κ.limit := h.settings ▸ hκ
  have hlimit' : m'.settings.callLimit = κ.limit := h.settings' ▸ hκ
  exact { h with env := { h.env with limit := hlimit, limit' := hlimit' }, interrupted := rfl }

theorem Sessions.log (hlogs : ∀ es es', κ.logs es es') {s s' : Session} (h : κ.Sessions s s')
    (events events' : List Event) : κ.Sessions (Machine.log s events) (Machine.log s' events') :=
  Machines.mk h.env h.heap h.host h.interrupted h.settings h.settings' (hlogs _ _)

/-- The executions are reported alike. -/
inductive Outcomes (κ : Relabeling) (n : Nat) : Outcome → Outcome → Prop
  | value {v v' : Value} : κ.Relates n v v' → Outcomes κ n (.value v) (.value v')
  | failure (c : Cause) {p p' : Option Position} : Option.Rel κ.Placed p p' →
    Outcomes κ n (.diagnostics [.ofFailure ⟨c, p⟩]) (.diagnostics [.ofFailure ⟨c, p'⟩])
  /-- Reports that are not of a failure with a position. -/
  | diagnostics {ds : List Diagnostic} :
    (∀ d ∈ ds, d.stage = .runtime → d.line = 0 ∧ d.column = 0) →
    Outcomes κ n (.diagnostics ds) (.diagnostics ds)
  | unfinished (why : Unfinished) : Outcomes κ n (.unfinished why) (.unfinished why)

/-- The executions are reported alike, and leave sessions that differ only in how things are
labelled. -/
structure Results (κ : Relabeling) (a a' : Outcome × Session) : Prop where
  outcome : κ.Outcomes a.2.heap.instances.size a.1 a'.1
  session : κ.Sessions a.2 a'.2

/-- A jump that nothing has taken is reported without a position. -/
theorem Outcomes.stray : Outcomes κ n (.diagnostics [⟨.runtime, strayJump, 0, 0⟩])
    (.diagnostics [⟨.runtime, strayJump, 0, 0⟩]) :=
  .diagnostics (List.forall_mem_singleton.mpr fun _ => ⟨rfl, rfl⟩)

/-- The mistakes of a text are no failures. -/
theorem Outcomes.rejected (errors : List SyntaxError) :
    Outcomes κ n (.diagnostics (errors.map Diagnostic.ofSyntaxError))
      (.diagnostics (errors.map Diagnostic.ofSyntaxError)) := by
  refine .diagnostics fun d hd hstage => ?_
  obtain ⟨e, -, rfl⟩ := List.mem_map.mp hd
  cases e <;> cases hstage

/-- If programs end alike, the executions do. -/
theorem Ends.results (hκ : κ.settings.callLimit = κ.limit) (hlogs : ∀ es es', κ.logs es es')
    {fuel fuel' : Nat} {p p' : Program} {m m' : Machine}
    (h : κ.Ends n κ.Relates (runProgram fuel p m) (runProgram fuel' p' m')) :
    κ.Results (m.execute fuel p) (m'.execute fuel' p') := by
  have hrun : (runProgram fuel p).run m = runProgram fuel p m := rfl
  have hrun' : (runProgram fuel' p').run m' = runProgram fuel' p' m' := rfl
  unfold Machine.execute
  rw [hrun, hrun']
  generalize runProgram fuel p m = r at h
  generalize runProgram fuel' p' m' = r' at h
  cases h with
  | ok hm _ hv => exact ⟨.value hv, hm.sessions hκ⟩
  | error hm _ he =>
    cases he with
    | failure c hp => exact ⟨.failure c hp, (hm.sessions hκ).log hlogs _ _⟩
    | returned _ => exact ⟨.stray, hm.sessions hκ⟩
    | broke _ => exact ⟨.stray, hm.sessions hκ⟩
    | continued _ => exact ⟨.stray, hm.sessions hκ⟩
    | unfinished why => exact ⟨.unfinished why, hm.sessions hκ⟩

/-! ## What is seen of it -/

variable {a b : Outcome × Session}

theorem Results.of_value (h : κ.Results a b) {v : Value} (hv : a.1 = .value v) :
    ∃ v', b.1 = .value v' ∧ κ.Relates a.2.heap.instances.size v v' ∧ v'.typeName = v.typeName ∧
      b.2.heap.display v' = a.2.heap.display v ∧ b.2.heap.inspect v' = a.2.heap.inspect v := by
  have houtcome := h.outcome
  rw [hv] at houtcome
  generalize b.1 = o at houtcome
  cases houtcome with
  | @value _ v' hv =>
    exact ⟨v', rfl, hv, hv.typeName, h.session.heap.display (Nat.le_refl _) hv,
      h.session.heap.inspect (Nat.le_refl _) hv⟩

theorem Results.of_diagnostics (h : κ.Results a b) {ds : List Diagnostic}
    (hds : a.1 = .diagnostics ds) :
    ∃ ds', b.1 = .diagnostics ds' ∧ List.Forall₂ (SameReport κ.Placed) ds ds' := by
  have houtcome := h.outcome
  rw [hds] at houtcome
  generalize b.1 = o at houtcome
  cases houtcome with
  | failure c hp =>
    refine ⟨_, rfl, .cons ?_ .nil⟩
    cases hp with
    | none => exact .unplaced fun _ => ⟨rfl, rfl⟩
    | some hp => exact .placed (d := .ofFailure ⟨c, some _⟩) hp
  | diagnostics hnone => exact ⟨_, rfl, List.forall₂_same.mpr fun d hd => .unplaced (hnone d hd)⟩

theorem Results.of_unfinished (h : κ.Results a b) {why : Unfinished} (hwhy : a.1 = .unfinished why) :
    b.1 = .unfinished why := by
  have houtcome := h.outcome
  rw [hwhy] at houtcome
  generalize b.1 = o at houtcome
  cases houtcome with
  | unfinished => rfl

end Relabeling

end Scriptlet
