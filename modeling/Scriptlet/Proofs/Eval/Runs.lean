import Scriptlet.Proofs.Eval.Judgement

/-!
# What every evaluation keeps

`Runs L J act Q` says of an evaluation `act` what it does on every machine whose
routines are allowed by the law `L`, however it ends: the routines of the machine
after it are allowed too, and the environment is at the same place, that is, in the
same scope and within as many calls. If `act` has a result, the result satisfies
`Q`. If it stops early with a signal, the signal satisfies `J`, and if it fails, the
law allows the cause.

There is one rule for each way to put evaluations together. The rules for what
takes a signal (a loop, a call, a program) say which signals are left. Together they
make a judgement (`Law.judgement`), so every evaluation runs by the law.
-/

namespace Scriptlet

/-- Which routines may be called, and why a program may then fail. -/
structure Law where
  routine : Routine → Prop
  cause : Cause → Prop
  /-- The functions that an allowed routine makes are allowed. -/
  body {r : Routine} : routine r → ∀ r' ∈ stmtsRoutines r.body, routine r'
  /-- Every cause other than a jump that nothing takes is allowed. -/
  ordinary {c : Cause} : c.isJump = false → cause c
  /-- If a jump leaves the body of an allowed routine, the failure that it causes is allowed. -/
  jump {r : Routine} : routine r → ∀ j ∈ stmtsJumps r.body, cause j.cause

/-- The second machine is at the place of the first, and holds allowed routines. -/
structure Law.Keeps (L : Law) (m m' : Machine) : Prop where
  place : m.env.SamePlace m'.env
  holds : m'.Holds L.routine

namespace Law.Keeps

variable {L : Law} {m : Machine}

theorem refl (hm : m.Holds L.routine) : L.Keeps m m := ⟨.refl _, hm⟩

theorem trans {m₁ m₂ m₃ : Machine} (h : L.Keeps m₁ m₂) (h' : L.Keeps m₂ m₃) : L.Keeps m₁ m₃ :=
  ⟨h.place.trans h'.place, h'.holds⟩

theorem of_keeps {m' : Machine} (h : m.Keeps L.routine m') : L.Keeps m m' := ⟨h.place, h.holds⟩

end Law.Keeps

/-- What leaves the statements with the jumps `js`: a `return` with an allowed value, or one of the
jumps. -/
def Law.Leaving (L : Law) (js : List Jump) : Signal → Prop
  | .returned v => v.Has L.routine
  | .broke p => .broke p ∈ js
  | .continued p => .continued p ∈ js

theorem Law.leaving_eq (L : Law) (js : List Jump) : L.Leaving js = Signal.Leaves L.routine js := by
  funext s
  cases s <;> rfl

/-- The law allows to stop in this way, if the signals with `J` may get through. -/
def Stop.Allowed (L : Law) (J : Signal → Prop) : Stop → Prop
  | .failure f => L.cause f.cause
  | .signal s => J s
  | .unfinished _ => True

theorem Stop.Allowed.mono {L : Law} {J J' : Signal → Prop} (h : ∀ s, J s → J' s) :
    ∀ {e : Stop}, e.Allowed L J → e.Allowed L J'
  | .failure _, he => he
  | .signal s, he => h s he
  | .unfinished _, _ => trivial

/-- The law allows this result, if the signals with `J` may get through. -/
def Law.Allows (L : Law) (J : Signal → Prop) : Except Stop Value → Prop
  | .ok v => v.Has L.routine
  | .error e => e.Allowed L J

/-- The law allows to end in this way on a machine at the place of `m`. -/
def Law.Ends (L : Law) (J : Signal → Prop) {α : Type} (Q : α → Prop) (m : Machine) :
    EStateM.Result Stop Machine α → Prop
  | .ok a m' => L.Keeps m m' ∧ Q a
  | .error e m' => L.Keeps m m' ∧ e.Allowed L J

/-- On a machine with allowed routines, the law allows all that `act` does. -/
def Runs (L : Law) (J : Signal → Prop) {α : Type} (act : Eval α) (Q : α → Prop) : Prop :=
  ∀ m, m.Holds L.routine → L.Ends J Q m (act m)

namespace Runs

variable {L : Law} {J : Signal → Prop} {α β : Type} {act : Eval α} {f : α → Eval β}
  {Q Q' : α → Prop} {R : β → Prop}

theorem pure {a : α} (h : Q a) : Runs L J (Pure.pure a) Q := fun _ hm => ⟨.refl hm, h⟩

theorem throw {e : Stop} (h : e.Allowed L J) : Runs L J (MonadExcept.throw e) Q :=
  fun _ hm => ⟨.refl hm, h⟩

theorem fail {c : Cause} (h : c.isJump = false) : Runs L J (Eval.fail c) Q :=
  throw (L.ordinary h)

/-- The two ways in which an evaluation ends. -/
theorem outcome (h : Runs L J act Q) {m : Machine} (hm : m.Holds L.routine) :
    (∃ a m', act m = .ok a m' ∧ L.Keeps m m' ∧ Q a) ∨
    (∃ e m', act m = .error e m' ∧ L.Keeps m m' ∧ e.Allowed L J) := by
  have hact := h m hm
  cases hr : act m with
  | ok a m' =>
    rw [hr] at hact
    exact .inl ⟨a, m', rfl, hact⟩
  | error e m' =>
    rw [hr] at hact
    exact .inr ⟨e, m', rfl, hact⟩

theorem mono {J' : Signal → Prop} (h : Runs L J act Q) (hJ : ∀ s, J s → J' s)
    (hQ : ∀ a, Q a → Q' a) : Runs L J' act Q' := by
  intro m hm
  obtain ⟨a, m', hr, hk, ha⟩ | ⟨e, m', hr, hk, he⟩ := h.outcome hm <;> rw [hr]
  · exact ⟨hk, hQ a ha⟩
  · exact ⟨hk, Stop.Allowed.mono hJ he⟩

theorem bind (h : Runs L J act Q) (hf : ∀ a, Q a → Runs L J (f a) R) : Runs L J (act >>= f) R := by
  intro m hm
  show L.Ends J R m (EStateM.bind act f m)
  unfold EStateM.bind
  obtain ⟨a, m', hr, hk, ha⟩ | ⟨e, m', hr, hk, he⟩ := h.outcome hm <;> rw [hr]
  · show L.Ends J R m (f a m')
    obtain ⟨b, m'', hr, hk', hb⟩ | ⟨e, m'', hr, hk', he⟩ := (hf a ha).outcome hk.holds <;> rw [hr]
    · exact ⟨hk.trans hk', hb⟩
    · exact ⟨hk.trans hk', he⟩
  · exact ⟨hk, he⟩

/-- What is read off the machine is read off one with allowed routines. -/
theorem get {f : Machine → Eval β} (h : ∀ m, m.Holds L.routine → Runs L J (f m) R) :
    Runs L J (MonadState.get >>= f) R :=
  fun m hm => h m hm m hm

theorem modifyGet {f : Machine → α × Machine}
    (h : ∀ m, m.Holds L.routine → L.Keeps m (f m).2 ∧ Q (f m).1) :
    Runs L J (MonadState.modifyGet f) Q :=
  fun m hm => h m hm

theorem modify {f : Machine → Machine} (h : ∀ m, m.Holds L.routine → L.Keeps m (f m)) :
    Runs L J (modify f) fun _ => True :=
  fun m hm => ⟨h m hm, trivial⟩

/-! ## Steps of the machine -/

theorem located (h : Runs L J act Q) (p : Position) : Runs L J (Eval.located p act) Q := by
  intro m hm
  unfold Eval.located
  obtain ⟨a, m', hr, hk, ha⟩ | ⟨e, m', hr, hk, he⟩ := h.outcome hm <;> rw [hr]
  · exact ⟨hk, ha⟩
  · -- a failure keeps its cause when it gets a position
    cases e <;> exact ⟨hk, he⟩

/-- Leaving a scope returns to the one that was the current one before. -/
theorem inScope (h : Runs L J act Q) (r : Ref .scope) : Runs L J (Eval.inScope r act) Q := by
  intro m hm
  let entered : Machine := { m with env := m.env.enter r }
  have leave {m' : Machine} (hk : L.Keeps entered m') :
      L.Keeps m { m' with env := m'.env.enter m.env.current } :=
    .mk ⟨rfl, hk.place.globals, hk.place.callDepth⟩ ⟨hk.holds.env, hk.holds.heap⟩
  have hentered : entered.Holds L.routine := ⟨hm.env, hm.heap⟩
  unfold Eval.inScope
  dsimp only
  obtain ⟨a, m', hr, hk, ha⟩ | ⟨e, m', hr, hk, he⟩ := h.outcome hentered <;> rw [hr]
  · exact ⟨leave hk, ha⟩
  · exact ⟨leave hk, he⟩

/-- Ending a call takes back what beginning it counted; a call that may not begin changes nothing. -/
theorem inCall (h : Runs L J act Q) : Runs L J (Eval.inCall act) Q := by
  intro m hm
  unfold Eval.inCall Environment.enterCall
  split
  · rename_i c hc
    split at hc <;> cases hc
    exact ⟨.refl hm, L.ordinary rfl⟩
  · rename_i env henv
    split at henv <;> cases henv
    let begun : Machine := { m with env := { m.env with callDepth := m.env.callDepth + 1 } }
    have finish {m' : Machine} (hk : L.Keeps begun m') :
        L.Keeps m { m' with env := m'.env.exitCall } := by
      refine .mk ⟨hk.place.current, hk.place.globals, ?_⟩ ⟨hk.holds.env, hk.holds.heap⟩
      show m'.env.callDepth - 1 = m.env.callDepth
      rw [hk.place.callDepth]
      exact Nat.add_sub_cancel _ 1
    have hbegun : begun.Holds L.routine := ⟨hm.env, hm.heap⟩
    obtain ⟨a, m', hr, hk, ha⟩ | ⟨e, m', hr, hk, he⟩ := h.outcome hbegun <;> rw [hr]
    · exact ⟨finish hk, ha⟩
    · exact ⟨finish hk, he⟩

theorem ask (request : Host → Reply α × Host) : Runs L J (Eval.ask request) fun _ => True := by
  intro m hm
  unfold Eval.ask
  dsimp only
  split
  · exact ⟨.of_keeps (.aside hm rfl rfl), trivial⟩
  · exact ⟨.of_keeps (.aside hm rfl rfl), trivial⟩
  · exact ⟨.of_keeps (.aside hm rfl rfl), trivial⟩

/-! ## What takes a signal -/

/-- A signal that is settled gives a value, or a failure because of a jump. -/
theorem settle {js : List Jump} (hjs : ∀ j ∈ js, L.cause j.cause) :
    ∀ s, L.Leaving js s → L.Allows J s.settle
  | .returned _, hs => hs
  | .broke _, hs => hjs _ hs
  | .continued _, hs => hjs _ hs

/-- No signal gets through the end of a call. -/
theorem callResult {js : List Jump} (hjs : ∀ j ∈ js, L.cause j.cause) :
    ∀ r, L.Allows (L.Leaving js) r → L.Allows J (Scriptlet.callResult r)
  | .ok _, _ => trivial
  | .error (.failure _), hr => hr
  | .error (.unfinished _), _ => trivial
  | .error (.signal s), hr => settle hjs s hr

/-- No signal gets through the end of a program. -/
theorem programResult {js : List Jump} (hjs : ∀ j ∈ js, L.cause j.cause) :
    ∀ r, L.Allows (L.Leaving js) r → L.Allows J (Scriptlet.programResult r)
  | .ok _, hr => hr
  | .error (.failure _), hr => hr
  | .error (.unfinished _), _ => trivial
  | .error (.signal s), hr => settle hjs s hr

theorem settling {J' : Signal → Prop} {act : Eval Value}
    {settle : Except Stop Value → Except Stop Value} (h : Runs L J' act (Value.Has L.routine))
    (hs : ∀ r, L.Allows J' r → L.Allows J (settle r)) :
    Runs L J (Eval.settling settle act) (Value.Has L.routine) := by
  intro m hm
  have allowed (r : Except Stop Value) {m' : Machine} (hk : L.Keeps m m') :
      L.Allows J r → L.Ends J (Value.Has L.routine) m (match r with
        | .ok v => .ok v m'
        | .error e => .error e m') := by
    intro hr
    cases r with
    | ok v => exact ⟨hk, hr⟩
    | error e => exact ⟨hk, hr⟩
  unfold Eval.settling
  obtain ⟨v, m', hr, hk, hv⟩ | ⟨e, m', hr, hk, he⟩ := h.outcome hm <;> rw [hr]
  · exact allowed _ hk (hs (.ok v) hv)
  · exact allowed _ hk (hs (.error e) he)

/-- Of the signals that leave its body, a loop lets only a `return` through. -/
theorem loopBody {js : List Jump} {body : Eval Value} {Q : Value → Prop}
    (h : Runs L (L.Leaving js) (Eval.inNewScope body) Q) (js' : List Jump) :
    Runs L (L.Leaving js') (Eval.loopBody body) fun _ => True := by
  intro m hm
  unfold Eval.loopBody
  obtain ⟨v, m', hr, hk, hv⟩ | ⟨e, m', hr, hk, he⟩ := h.outcome hm <;> rw [hr]
  · exact ⟨hk, trivial⟩
  · cases e with
    | failure f => exact ⟨hk, he⟩
    | unfinished why => exact ⟨hk, he⟩
    | signal s =>
      cases s with
      | returned v => exact ⟨hk, he⟩
      | broke p => exact ⟨hk, trivial⟩
      | continued p => exact ⟨hk, trivial⟩

end Runs

/-! ## The law as a judgement -/

/-- Nodes make the routines that they make together. -/
theorem Law.forall_nodes {L : Law} {xs : List Node}
    (h : ∀ r ∈ xs.flatMap Node.routines, L.routine r) : ∀ x ∈ xs, ∀ r ∈ x.routines, L.routine r :=
  fun x hx r hr => h r (List.mem_flatMap.mpr ⟨x, hx, hr⟩)

/-- What runs by the law, as a judgement: a node may be evaluated if it makes allowed routines, and
how many calls nest does not matter. -/
def Law.judgement (L : Law) : Judgement where
  routine := L.routine
  node x := ∀ r ∈ x.routines, L.routine r
  jump j := L.cause j.cause
  Passes _ J act Q := Runs L J act Q
  made hx := hx
  body hr := Law.forall_nodes (by rw [flatMap_stmtsNodes]; exact L.body hr)
  bodyJump := L.jump
  pure := Runs.pure
  bind := Runs.bind
  mono := Runs.mono
  signal hs := Runs.throw hs
  fail := Runs.fail
  get _ h := Runs.get h
  modifyGet _ h := Runs.modifyGet fun m hm => ⟨.of_keeps (h m hm).1, (h m hm).2⟩
  fetch _ := Runs.ask _
  save _ _ := Runs.ask _
  located _ h := h.located _
  inScope r h := h.inScope r
  inCall h := h.inCall
  settling {_ _ _ js _} hsettle hjs h := by
    rw [← L.leaving_eq js] at h
    rcases hsettle with rfl | rfl
    · exact h.settling (Runs.callResult hjs)
    · exact h.settling (Runs.programResult hjs)
  loopBody {_ _ _ js} js' h := by
    rw [← L.leaving_eq] at h ⊢
    exact h.loopBody js'
  uncalled := Runs.throw trivial
  repeated _ _ := Runs.throw trivial

/-- Values with allowed routines are called by the law. -/
def Law.Calls (L : Law) (call : Value → List Value → Eval Value) : Prop :=
  ∀ (J : Signal → Prop) {v : Value} {args : List Value}, v.Has L.routine →
    (∀ a ∈ args, a.Has L.routine) → Runs L J (call v args) (Value.Has L.routine)

namespace Runs

variable {L : Law} {J : Signal → Prop} {g : Engine}

theorem expr (hg : L.Calls g.call) (e : Expr) (h : ∀ r ∈ e.routines, L.routine r) :
    Runs L J (evalExpr g e) (Value.Has L.routine) := by
  rw [← e.flatMap_nodes] at h
  exact Judgement.expr (J := L.judgement) (k := 0) hg e (Law.forall_nodes h)

theorem stmt (hg : L.Calls g.call) (s : Stmt) (h : ∀ r ∈ s.routines, L.routine r) :
    Runs L (L.Leaving s.jumps) (evalStmt g s) (Value.Has L.routine) := by
  rw [← s.flatMap_nodes] at h
  rw [L.leaving_eq]
  exact Judgement.stmt (J := L.judgement) (k := 0) hg s (Law.forall_nodes h)

theorem stmts (hg : L.Calls g.call) (ss : List Stmt) (h : ∀ r ∈ stmtsRoutines ss, L.routine r)
    {last : Value} (hlast : last.Has L.routine) :
    Runs L (L.Leaving (stmtsJumps ss)) (evalStmts g last ss) (Value.Has L.routine) := by
  rw [← flatMap_stmtsNodes] at h
  rw [L.leaving_eq]
  exact Judgement.stmts (J := L.judgement) (k := 0) hg ss (Law.forall_nodes h) hlast

end Runs

namespace Law

variable (L : Law)

/-- Calls run by the law, however many nest. -/
theorem calls (fuel : Nat) : L.Calls (callValue fuel) := L.judgement.calls fuel

variable {L} (fuel : Nat) {J : Signal → Prop}

theorem runs_block (n : Nat) {body : List Stmt} (h : ∀ r ∈ stmtsRoutines body, L.routine r) :
    Runs L (L.Leaving (stmtsJumps body)) (evalBlock (.of fuel n) body) (Value.Has L.routine) :=
  L.judgement.inNewScope (k := 0) (Runs.stmts (L.calls fuel) body h Value.has_undefined)

theorem runs_numberProgram : Runs L J numberProgram fun _ => True :=
  L.judgement.numbered (k := 0)

theorem runs_program {p : Program} (h : ∀ r ∈ stmtsRoutines p.statements, L.routine r)
    (hjs : ∀ j ∈ stmtsJumps p.statements, L.cause j.cause) :
    Runs L J (runProgram fuel p) (Value.Has L.routine) := by
  rw [← flatMap_stmtsNodes] at h
  unfold runProgram
  refine (Runs.modify fun m hm => ?_).bind fun _ _ => ?_
  · exact ⟨⟨rfl, rfl, rfl⟩, hm.env, hm.heap⟩
  · exact L.judgement.settled fuel (Law.forall_nodes h) hjs

end Law

end Scriptlet
