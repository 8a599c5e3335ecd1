import Scriptlet.Environment
import Scriptlet.Event
import Scriptlet.Heap
import Scriptlet.Host

/-!
# The state of an evaluation, and how it ends

An evaluation works on a `Machine`: the environment, the heap, the host, the flag
that asks it to stop, and the log of events. It ends with a value, or stops early:
because the program failed, because a `return`, `break` or `continue` is on its way
to the construct it belongs to, or because it cannot be finished here. The changes
made up to then stay.
-/

namespace Scriptlet

/-- What an evaluation is allowed, and what it logs. -/
structure Settings where
  /-- How many calls may be in progress. -/
  callLimit : Nat := defaultCallLimit
  /-- Whether every statement is logged. -/
  tracing : Bool := false
  deriving DecidableEq, Repr

/-- The state of an evaluation. -/
structure Machine where
  env : Environment
  heap : Heap
  host : Host
  /-- Whether the evaluation has been asked to stop. -/
  interrupted : Bool
  settings : Settings
  /-- The events so far, in order. -/
  events : Array Event

/-- A jump on its way to the construct it belongs to. -/
inductive Signal where
  | returned (value : Value)
  | broke (position : Position)
  | continued (position : Position)

/-- Why an evaluation cannot be finished here. -/
inductive Unfinished where
  /-- The bound on nested calls and on the rounds of a loop is used up. -/
  | outOfFuel
  /-- The world outside has not answered a request yet. -/
  | awaiting (request : FileRequest)
  deriving DecidableEq, Repr

/-- Why an evaluation stops before it has a value. -/
inductive Stop where
  | failure (failure : Failure)
  | signal (signal : Signal)
  | unfinished (why : Unfinished)

/-- An evaluation. -/
abbrev Eval := EStateM Stop Machine

namespace Machine

/-- A machine with the standard built-in functions. -/
def new (host : Host) (settings : Settings) : Machine :=
  { env := .withPrelude defaultCallLimit
    heap := .empty
    host := host
    interrupted := false
    settings := settings
    events := #[] }

end Machine

/-- What becomes of a signal that no loop and no call has taken: a `return` ends the program with its
value, and a jump of a loop is a failure where it stands. -/
def Signal.settle : Signal → Except Stop Value
  | .returned v => .ok v
  | .broke p => .error (.failure ⟨.breakOutsideLoop, some p⟩)
  | .continued p => .error (.failure ⟨.continueOutsideLoop, some p⟩)

/-- The result of a call, given that of the body: only `return` gives a value. -/
def callResult : Except Stop Value → Except Stop Value
  | .ok _ => .ok .undefined
  | .error (.signal s) => s.settle
  | r => r

/-- The result of a program, given that of its statements. -/
def programResult : Except Stop Value → Except Stop Value
  | .error (.signal s) => s.settle
  | r => r

namespace Eval

/-- Fails; where is found out on the way. -/
def fail {α : Type} (cause : Cause) : Eval α := throw (.failure ⟨cause, none⟩)

/-- A result that may be a failure. -/
def ofExcept {α : Type} (r : Except Cause α) : Eval α :=
  match r with
  | .ok a => pure a
  | .error c => fail c

/-- Runs `act`; a failure without a position gets the position `p`. -/
@[inline] def located {α : Type} (p : Position) (act : Eval α) : Eval α := fun m =>
  match act m with
  | .error (.failure f) m => .error (.failure (f.located p)) m
  | r => r

/-- Runs `act`, and changes its result by `settle`. -/
@[inline] def settling (settle : Except Stop Value → Except Stop Value) (act : Eval Value) :
    Eval Value := fun m =>
  let (r, m) : Except Stop Value × Machine :=
    match act m with
    | .ok v m => (.ok v, m)
    | .error e m => (.error e, m)
  match settle r with
  | .ok v => .ok v m
  | .error e => .error e m

/-- Logs an event. -/
def log (e : Event) : Eval Unit := modify fun m => { m with events := m.events.push e }

/-- Changes the environment. -/
@[inline] def modifyEnv (f : Environment → Environment) : Eval Unit :=
  modify fun m => { m with env := f m.env }

/-- Fails if the evaluation has been asked to stop. -/
def checkInterrupt : Eval Unit := do
  if (← get).interrupted then fail .interrupted

/-- Begins an expression or a statement at `p`: checks whether to stop, and says where a failure
happened that does not know it yet. -/
@[inline] def step {α : Type} (p : Position) (act : Eval α) : Eval α :=
  located p do
    checkInterrupt
    act

/-- Runs `act` in the scope `r`, and then returns to the scope before, however `act` ends. -/
@[inline] def inScope {α : Type} (r : Ref .scope) (act : Eval α) : Eval α := fun m =>
  let before := m.env.current
  match act { m with env := m.env.enter r } with
  | .ok a m => .ok a { m with env := m.env.enter before }
  | .error e m => .error e { m with env := m.env.enter before }

/-- Makes a new scope within `parent`. -/
def newScope (parent : Ref .scope) : Eval (Ref .scope) :=
  modifyGet fun m =>
    let (r, env) := m.env.newScope (some parent)
    (r, { m with env := env })

/-- Runs `act` in a new scope within the current one, and then leaves it, however `act` ends. -/
@[inline] def inNewScope {α : Type} (act : Eval α) : Eval α := do
  let r ← newScope (← get).env.current
  inScope r act

/-- Runs `act` as one more call in progress, and ends the call however `act` ends. Fails without
running it if too many calls are in progress. -/
@[inline] def inCall {α : Type} (act : Eval α) : Eval α := fun m =>
  match m.env.enterCall with
  | .error c => .error (.failure ⟨c, none⟩) m
  | .ok env =>
    match act { m with env := env } with
    | .ok a m => .ok a { m with env := m.env.exitCall }
    | .error e m => .error e { m with env := m.env.exitCall }

/-- Asks the host for a service: what it grants, or why it refuses. -/
def ask {α : Type} (request : Host → Reply α × Host) : Eval (Except HostError α) := fun m =>
  let (reply, host) := request m.host
  let m := { m with host := host }
  match reply with
  | .granted a => .ok (.ok a) m
  | .refused e => .ok (.error e) m
  | .pending r => .error (.unfinished (.awaiting r)) m

end Eval

end Scriptlet
