import Scriptlet.Proofs.Eval.Outcomes

/-!
# What an evaluation hardly looks at

A machine keeps a few things besides its cells, its bindings and the host. The log is only
added to, the settings are looked at where a statement begins, and the limit on calls where
a call begins. A `Variation` says how they are changed. On the changed machine, an evaluation
goes the same way, unless it fails because of the limit that it has been begun under.

`Eval.Follows V act Q` says this of an evaluation. It is proved once from what a `Variation`
states of the smallest steps; the rules are those of a calculus (`Variation.calculus`), so it
holds of what the walk over the evaluator comes to.
-/

namespace Scriptlet

/-! ## Looking up names under another limit -/

namespace Environment

variable {e e' : Environment}

/-- Only the scopes matter for what is found. -/
theorem findWithin_congr (h : e'.scopes = e.scopes) (x : String) (fuel : Nat) (r : Ref .scope) :
    e'.findWithin x fuel r = e.findWithin x fuel r := by
  induction fuel generalizing r with
  | zero => rfl
  | succ fuel ih => simp only [findWithin, bindings, parent?, h, ih]

theorem find?_congr (h : e'.scopes = e.scopes) (r : Ref .scope) (x : String) :
    e'.find? r x = e.find? r x := by
  unfold find?
  rw [h, findWithin_congr h]

theorem assignable_congr (h : e'.scopes = e.scopes) (r : Ref .scope) (x : String) :
    e'.assignable r x = e.assignable r x := by
  unfold assignable
  rw [find?_congr h]

theorem lookup?_setLimit (e : Environment) (limit : Nat) (x : String) :
    (e.setLimit limit).lookup? x = e.lookup? x := by
  have hscopes : (e.setLimit limit).scopes = e.scopes := rfl
  exact congrArg _ (find?_congr hscopes e.current x)

theorem assignable_setLimit (e : Environment) (limit : Nat) (r : Ref .scope) (x : String) :
    (e.setLimit limit).assignable r x = e.assignable r x := by
  have hscopes : (e.setLimit limit).scopes = e.scopes := rfl
  exact assignable_congr hscopes r x

end Environment

/-! ## Variations -/

/-- A way to change the limit on calls, the settings and the log of a machine. -/
structure Variation where
  limit : Nat → Nat
  settings : Settings → Settings
  events : Array Event → Array Event
  /-- The limits that may be changed. -/
  Fits : Nat → Prop
  /-- The failures that may not occur after the change. -/
  Lost : Cause → Prop
  /-- The settings name the limit. -/
  callLimit_settings (σ : Settings) : (settings σ).callLimit = limit σ.callLimit
  /-- Where a call may begin, it may begin after the change. -/
  le_limit {n : Nat} : Fits n → n ≤ limit n
  /-- Where it may not, this is so after the change, or the failure is one that may not occur. -/
  overflow {n : Nat} : Fits n → limit n = n ∨ ∀ depth, Lost (.stackOverflow depth n)
  push {e : Event} (es : Array Event) : e.isStatement = false →
    events (es.push e) = (events es).push e
  /-- A statement is logged before the change and after it, or is not seen after it. -/
  begun {e : Event} (σ : Settings) (es : Array Event) : e.isStatement = true →
    events (if σ.tracing then es.push e else es) =
      if (settings σ).tracing then (events es).push e else events es

/-- The machine after the change. -/
def Machine.varied (m : Machine) (V : Variation) : Machine :=
  { m with
    env := m.env.setLimit (V.limit m.env.callLimit)
    settings := V.settings m.settings
    events := V.events m.events }

namespace Variation

variable (V : Variation)

/-- The evaluation failed in a way that may not occur after the change. -/
def Misses {α : Type} : Except Stop α → Prop
  | .error (.failure f) => V.Lost f.cause
  | _ => False

theorem begun_varied (s : Stmt) (m : Machine) : s.begun (m.varied V) = (s.begun m).varied V := by
  rw [s.begun_eq, s.begun_eq]
  unfold Machine.varied
  dsimp only
  rw [V.begun m.settings m.events rfl]

end Variation

/-- Begun under a limit that may be changed, the evaluation leaves it, its result satisfies `Q`,
and on the changed machine it ends in the same way, on the same machine up to the change. -/
def Eval.Follows {α : Type} (V : Variation) (act : Eval α) (Q : α → Prop) : Prop :=
  ∀ m, V.Fits m.env.callLimit → ∃ r m', act m = ending r m' ∧
    m'.env.callLimit = m.env.callLimit ∧ (∀ a, r = .ok a → Q a) ∧
    (V.Misses r ∨ act (m.varied V) = ending r (m'.varied V))

namespace Eval.Follows

variable {V : Variation} {α β : Type} {act : Eval α} {Q Q' : α → Prop} {R : β → Prop}

theorem pure {a : α} (h : Q a) : Follows V (Pure.pure a) Q := by
  refine fun m _ => ⟨.ok a, m, rfl, rfl, fun b hb => ?_, .inr rfl⟩
  cases hb
  exact h

theorem throw (e : Stop) : Follows V (MonadExcept.throw e) Q :=
  fun m _ => ⟨.error e, m, rfl, rfl, nofun, .inr rfl⟩

theorem mono (h : act.Follows V Q) (hQ : ∀ a, Q a → Q' a) : act.Follows V Q' := by
  intro m hm
  obtain ⟨r, m', hr, hlimit, ha, hvaried⟩ := h m hm
  exact ⟨r, m', hr, hlimit, fun a hok => hQ a (ha a hok), hvaried⟩

theorem bind {f : α → Eval β} (h : act.Follows V Q) (hf : ∀ a, Q a → (f a).Follows V R) :
    (act >>= f).Follows V R := by
  intro m hm
  obtain ⟨r, m₁, hr, hlimit, ha, hvaried⟩ := h m hm
  cases r with
  | error e =>
    refine ⟨.error e, m₁, bind_error hr, hlimit, nofun, ?_⟩
    refine hvaried.imp ?_ bind_error
    cases e <;> exact id
  | ok a =>
    have hvaried := hvaried.resolve_left id
    obtain ⟨r, m₂, hr₂, hlimit₂, hb, hvaried₂⟩ := hf a (ha a rfl) m₁ (hlimit ▸ hm)
    refine ⟨r, m₂, (bind_ok hr).trans hr₂, hlimit₂.trans hlimit, hb, ?_⟩
    exact hvaried₂.imp_right fun h => (bind_ok hvaried).trans h

/-- What is read off the machine is not changed. -/
theorem get {f : Machine → Eval β} (hf : ∀ m, f (m.varied V) = f m)
    (h : ∀ m, (f m).Follows V R) : (MonadState.get >>= f).Follows V R := by
  intro m hm
  obtain ⟨r, m', hr, hlimit, ha, hvaried⟩ := h m m hm
  refine ⟨r, m', hr, hlimit, ha, hvaried.imp_right fun hr => ?_⟩
  rw [← hf m] at hr
  exact hr

/-- A step of the machine that leaves the limit as it is. -/
theorem modifyGet {f : Machine → α × Machine}
    (hf : ∀ m, f (m.varied V) = ((f m).1, (f m).2.varied V))
    (h : ∀ m, (f m).2.env.callLimit = m.env.callLimit) :
    Follows V (MonadState.modifyGet f) fun _ => True := by
  refine fun m _ => ⟨.ok (f m).1, (f m).2, rfl, h m, fun _ _ => trivial, .inr ?_⟩
  show EStateM.Result.ok (f (m.varied V)).1 (f (m.varied V)).2 = _
  rw [hf]
  rfl

theorem log {e : Event} (he : e.isStatement = false) : (Eval.log e).Follows V fun _ => True := by
  refine modifyGet (fun m => congrArg (Prod.mk ()) ?_) fun _ => rfl
  unfold Machine.varied
  dsimp only
  rw [V.push m.events he]

theorem begun (s : Stmt) : Follows V (modify s.begun) fun _ => True := by
  refine modifyGet (fun m => congrArg (Prod.mk ()) (V.begun_varied s m)) fun m => ?_
  dsimp only
  rw [s.begun_eq]

/-- Binding a name, also in a scope that the environment determines. -/
theorem defineIn (r : Environment → Ref .scope) (x : String) (v : Value) (mode : Mode)
    (hr : ∀ e limit, r (e.setLimit limit) = r e) :
    (Eval.modifyEnv fun e => e.defineIn (r e) x v mode).Follows V fun _ => True := by
  refine modifyGet (fun m => ?_) fun _ => rfl
  have hscope : r (m.varied V).env = r m.env := hr m.env _
  dsimp only
  rw [hscope]
  rfl

theorem newScope (parent : Ref .scope) : (Eval.newScope parent).Follows V fun _ => True :=
  modifyGet (fun _ => rfl) fun _ => rfl

theorem lookup (x : String) : (Eval.lookup x).Follows V fun _ => True := by
  rw [Eval.lookup_eq]
  refine get (fun m => ?_) fun m => ?_
  · exact congrArg (Eval.found x) (m.env.lookup?_setLimit _ x)
  · cases m.env.lookup? x with
    | some v => exact pure trivial
    | none => exact throw _

theorem assign (x : String) (v : Value) : (Eval.assign x v).Follows V fun _ => True := by
  rw [Eval.assign_eq]
  refine get (fun m => ?_) fun m => ?_
  · exact congrArg (Eval.store x v) (m.env.assignable_setLimit _ m.env.current x)
  · unfold Eval.store
    split
    · exact defineIn (fun _ => _) x v .mutable fun _ _ => rfl
    · exact defineIn (fun e => e.globals) x v .mutable fun _ _ => rfl
    · exact throw _

theorem ask (request : Host → Reply α × Host) :
    (Eval.ask request).Follows V fun _ => True := by
  intro m _
  unfold Eval.ask
  rw [show (m.varied V).host = m.host from rfl]
  dsimp only
  cases (request m.host).1 with
  | granted a => exact ⟨.ok (.ok a), _, rfl, rfl, fun _ _ => trivial, .inr rfl⟩
  | refused e => exact ⟨.ok (.error e), _, rfl, rfl, fun _ _ => trivial, .inr rfl⟩
  | pending q =>
    exact ⟨.error (.unfinished (.awaiting q)), _, rfl, rfl, fun _ _ => trivial, .inr rfl⟩

/-! ## Evaluations that run others -/

/-- An evaluation that runs another one and changes its result by `t`, where no failure is lost. -/
theorem map {act' : Eval β} (t : Except Stop α → Except Stop β)
    (hact : ∀ m m' r, act m = ending r m' → act' m = ending (t r) m')
    (ht : ∀ r, V.Misses r → V.Misses (t r))
    (hR : ∀ r, (∀ a, r = .ok a → Q a) → ∀ b, t r = .ok b → R b) (h : act.Follows V Q) :
    act'.Follows V R := by
  intro m hm
  obtain ⟨r, m', hr, hlimit, ha, hvaried⟩ := h m hm
  exact ⟨t r, m', hact m m' r hr, hlimit, hR r ha, hvaried.imp (ht r) fun hr => hact _ _ r hr⟩

theorem located (p : Position) (h : act.Follows V Q) : (Eval.located p act).Follows V Q := by
  refine h.map (locatedResult p) (fun _ _ _ hr => located_of_ending p hr) (fun r hr => ?_)
    fun r ha b hb => ?_
  · match r with
    | .error (.failure f) => exact hr
  · match r with
    | .ok a =>
      cases hb
      exact ha _ rfl

theorem settling {act : Eval Value} {settle : Except Stop Value → Except Stop Value}
    (hsettle : settle = callResult ∨ settle = programResult) (h : act.Follows V fun _ => True) :
    (Eval.settling settle act).Follows V fun _ => True := by
  refine h.map settle (fun _ _ _ hr => settling_of_ending hr) (fun r hr => ?_)
    fun _ _ _ _ => trivial
  match r with
  | .error (.failure f) =>
    rcases hsettle with rfl | rfl
    · exact hr
    · exact hr

theorem loopBody {body : Eval Value} {Q : Value → Prop} (h : (Eval.inNewScope body).Follows V Q) :
    (Eval.loopBody body).Follows V fun _ => True := by
  refine h.map loopResult (fun _ _ _ hr => loopBody_of_ending hr) (fun r hr => ?_)
    fun _ _ _ _ => trivial
  match r with
  | .error (.failure f) => exact hr

theorem inScope (r : Ref .scope) (h : act.Follows V Q) : (Eval.inScope r act).Follows V Q := by
  intro m hm
  obtain ⟨r', m', hr, hlimit, ha, hvaried⟩ := h { m with env := m.env.enter r } hm
  refine ⟨r', _, inScope_of_ending hr, hlimit, ha, hvaried.imp_right fun hr => ?_⟩
  have hr : act { m.varied V with env := (m.varied V).env.enter r } =
    ending r' (m'.varied V) := hr
  exact inScope_of_ending hr

/-- The only place where the limit is looked at: a call that may begin may also begin after the
change, and one that may not fails in both cases, or as it may not after the change. -/
theorem inCall (h : act.Follows V Q) : (Eval.inCall act).Follows V Q := by
  intro m hm
  by_cases hfull : m.env.callLimit ≤ m.env.callDepth
  · refine ⟨.error (.failure ⟨.stackOverflow (m.env.callDepth + 1) m.env.callLimit, none⟩), m,
      inCall_of_full act hfull, rfl, nofun, (V.overflow hm).symm.imp (fun hlost => hlost _) ?_⟩
    intro hsame
    have hlimit : (m.varied V).env.callLimit = m.env.callLimit := hsame
    have hvaried := inCall_of_full act (m := m.varied V) (hlimit.symm ▸ hfull)
    rw [hlimit] at hvaried
    exact hvaried
  · have hroom : m.env.callDepth < m.env.callLimit := Nat.not_le.mp hfull
    obtain ⟨r, m', hr, hlimit, ha, hvaried⟩ :=
      h { m with env := { m.env with callDepth := m.env.callDepth + 1 } } hm
    refine ⟨r, _, inCall_of_ending hroom hr, hlimit, ha, hvaried.imp_right fun hr => ?_⟩
    let varied : Machine := m.varied V
    have hroom : varied.env.callDepth < varied.env.callLimit :=
      Nat.lt_of_lt_of_le hroom (V.le_limit hm)
    have hr : act { varied with
        env := { varied.env with callDepth := varied.env.callDepth + 1 } } =
      ending r (m'.varied V) := hr
    exact inCall_of_ending hroom hr

end Eval.Follows

open Eval in
/-- What goes the same way after the change, as a calculus: nothing is asked of values, of names and
of signals. -/
def Variation.calculus (V : Variation) : Calculus where
  World := Unit
  order := PUnit.instLinearOrder.toPartialOrder.toPreorder
  routine _ := True
  node _ := True
  jump _ := True
  value _ _ := True
  scope _ _ := True
  heap _ _ := True
  Meets _ _ _ _ act Q := act.Follows V (Q ())
  made _ _ _ := trivial
  body _ _ _ := trivial
  bodyJump _ _ _ := trivial
  value_mono _ _ := trivial
  scope_mono _ _ := trivial
  plain _ := trivial
  closed {_ h} _ := h.closed_any
  closure _ _ _ := trivial
  calledRoutine _ := trivial
  calledScope _ := trivial
  calledReceiver _ _ := trivial
  pure h := .pure (h () le_rfl)
  bind h hf := h.bind fun a ha => hf () le_rfl a ha
  mono h _ _ hQ := h.mono (hQ ())
  signal _ := .throw _
  fail _ := .throw _
  look h := .get (fun _ => rfl) fun m => h () le_rfl m.view trivial trivial
  log he := .log he
  begun := .begun
  lookup := .lookup
  assign x v _ := .assign x v
  define mode _ _ := .defineIn (fun e => e.current) _ _ mode fun _ _ => rfl
  write _ _ _ := .modifyGet (fun _ => rfl) fun _ => rfl
  newArray _ := .modifyGet (fun _ => rfl) fun _ => rfl
  newObject _ := .modifyGet (fun _ => rfl) fun _ => rfl
  newClass _ _ := .modifyGet (fun _ => rfl) fun _ => rfl
  newInstance _ := .modifyGet (fun _ => rfl) fun _ => rfl
  print _ := .ask _
  fetch _ := .ask _
  save _ _ := .ask _
  interrupt := .modifyGet (fun _ => rfl) fun _ => rfl
  numbered := .modifyGet (fun _ => rfl) fun _ => rfl
  located _ h := h.located _
  newReceiverScope _ _ := (Follows.newScope _).bind fun scope _ =>
    (Follows.defineIn (fun _ => scope) "this" _ .constant fun _ _ => rfl).bind fun _ _ =>
      .pure trivial
  within _ _ h := (Follows.newScope _).bind fun r _ => (h () le_rfl).inScope r
  inCall h := h.inCall
  settling hsettle _ h := h.settling hsettle
  loopBody _ h := h.loopBody
  uncalled := .throw _
  repeated _ _ := .throw _

/-- On the changed machine, a program ends in the same way, on the same machine up to the change,
unless it fails in a way that may not occur there. -/
theorem Variation.follows_program (V : Variation) (fuel : Nat) (p : Program) {m : Machine}
    (hm : V.Fits m.settings.callLimit) : ∃ r n, runProgram fuel p m = Eval.ending r n ∧
      (V.Misses r ∨ runProgram fuel p (m.varied V) = Eval.ending r (n.varied V)) := by
  let rest : Eval Value := do
    let n ← numberProgram
    Eval.settling programResult (evalStmts (.of fuel n) .undefined p.statements)
  have hrest : rest.Follows V fun _ => True :=
    V.calculus.settled (w := ()) (S := fun _ _ => True) fuel (fun _ _ => trivial)
      fun _ _ => trivial
  -- Once the limit is set, nothing else is done before the statements.
  let limited (m : Machine) : Machine := { m with env := m.env.setLimit m.settings.callLimit }
  have hlimited : limited (m.varied V) = (limited m).varied V := by
    show { m.varied V with env := m.env.setLimit (V.settings m.settings).callLimit } = _
    rw [V.callLimit_settings]
    rfl
  obtain ⟨r, n, hr, -, -, hvaried⟩ := hrest (limited m) hm
  refine ⟨r, n, hr, hvaried.imp_right fun hvaried => ?_⟩
  rw [← hlimited] at hvaried
  exact hvaried

end Scriptlet
