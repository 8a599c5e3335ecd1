import Scriptlet.Eval

/-!
# Parts of the evaluator

What begins a statement, what follows when a name has been looked up, what runs the body of a
called function, what passes a new instance to its constructor, and what evaluates the statements
of a program, each as a step of its own. The evaluator is made of these steps (`Eval.traced_eq`,
`Eval.lookup_eq`, `Eval.assign_eq`, `callFunction_eq`, `instantiate_eq`, `runProgram_eq`).
-/

namespace Scriptlet

/-- Whether it tells that a statement begins. -/
def Event.isStatement : Event → Bool
  | .statement .. => true
  | _ => false

/-- The machine on which the evaluation of the statement begins, after this has been logged. -/
def Stmt.begun (s : Stmt) (m : Machine) : Machine :=
  if m.settings.tracing then
    { m with events := m.events.push (.statement s.kindName s.position) }
  else m

/-- All that beginning a statement does is to log it. -/
theorem Stmt.begun_eq (s : Stmt) (m : Machine) : s.begun m =
    { m with
      events := if m.settings.tracing then m.events.push (.statement s.kindName s.position)
        else m.events } := by
  unfold begun
  split <;> rfl

/-- A statement begins by being logged, and by a check whether to stop. -/
theorem Eval.traced_eq {α : Type} (s : Stmt) (act : Eval α) (m : Machine) :
    (do
      if (← MonadState.get).settings.tracing then Eval.log (.statement s.kindName s.position)
      Eval.step s.position act : Eval α) m = Eval.step s.position act (s.begun m) := by
  show (if m.settings.tracing then
      Eval.log (.statement s.kindName s.position) >>= fun _ => Eval.step s.position act
    else Eval.step s.position act : Eval α) m = _
  unfold Stmt.begun
  split <;> rfl

/-- What the host says to a line: it takes the line or refuses it, and does not put it off. -/
def Host.printed (h : Host) (line : String) : Except HostError Unit :=
  match (h.print line).1 with
  | .refused e => .error e
  | _ => .ok ()

theorem Eval.ask_print (line : String) : (ask fun host => host.print line) =
    modifyGet fun m => (m.host.printed line, { m with host := (m.host.print line).2 }) := by
  funext m
  obtain ⟨env, heap, ⟨output, storage⟩, interrupted, settings, events⟩ := m
  cases storage with
  | external answers lines => obtain _ | ⟨_ | e, lines⟩ := lines <;> rfl
  | _ => rfl

/-- What becomes of a name that was looked up. -/
def Eval.found (x : String) : Option Value → Eval Value
  | some v => return v
  | none => fail (.undefinedVariable x)

theorem Eval.lookup_eq (x : String) :
    lookup x = MonadState.get >>= fun m => found x (m.env.lookup? x) := rfl

/-- Assigns to a name whose binding was looked for. -/
def Eval.store (x : String) (v : Value) : Except Cause (Ref .scope) → Eval Unit
  | .ok owner => modifyEnv fun e => e.defineIn owner x v .mutable
  | .error (.undefinedVariable _) => modifyEnv fun e => e.defineGlobal x v
  | .error c => fail c

theorem Eval.assign_eq (x : String) (v : Value) :
    assign x v = MonadState.get >>= fun m => store x v (m.env.assignable m.env.current x) := rfl

/-- Makes the scope of a method within `parent`, in which `this` stands for what the method is bound
to. -/
def Eval.newReceiverScope (parent : Ref .scope) (receiver : Value) : Eval (Ref .scope) := do
  let scope ← newScope parent
  modifyEnv fun e => e.defineIn scope "this" receiver .constant
  return scope

/-- Makes the scope of the body of a called function, and runs the body there. -/
def Eval.enterBody (run : Nat → List Stmt → Eval Value) (f : Function) (args : List Value)
    (outer : Ref .scope) : Eval Value := do
  let scope ← newScope outer
  inScope scope do
    bindParams f.routine.params args
    run f.program f.routine.body

/-- Runs the body of a called function. A method has one scope more, with `this`. -/
def Eval.runBody (run : Nat → List Stmt → Eval Value) (f : Function) (args : List Value) :
    Eval Value :=
  match f.receiver with
  | some v => newReceiverScope f.scope v >>= enterBody run f args
  | none => enterBody run f args f.scope

theorem callFunction_eq (run : Nat → List Stmt → Eval Value) (f : Function) (args : List Value) :
    callFunction run f args = (do
      if args.length ≠ f.routine.params.length then
        Eval.fail (.arityMismatch f.routine.name f.routine.params.length args.length)
      Eval.settling callResult (Eval.inCall do
        let m ← MonadState.get
        Eval.log (.functionCalled f.routine.name m.env.callDepth)
        Eval.runBody run f args)) := by
  unfold callFunction Eval.runBody Eval.newReceiverScope
  cases f.receiver with
  | none => rfl
  | some r => simp only [bind_assoc, pure_bind]; rfl

/-- Passes a new instance of the class to its constructor, if there is one. -/
def Eval.construct (run : Nat → List Stmt → Eval Value) (args : List Value) (i : Ref .inst)
    (c : Class) : Eval Value := do
  match c.method? constructorName (.inst i) with
  | some f => let _ ← callFunction run f args
  | none => if ¬ args.isEmpty then fail (.arityMismatch c.name 0 args.length)
  return .inst i

theorem instantiate_eq (run : Nat → List Stmt → Eval Value) (r : Ref .klass) (args : List Value) :
    instantiate run r args = (do
      let i ← modifyGet fun m =>
        let (i, heap) := m.heap.newInstance r
        (i, { m with heap := heap })
      let m ← MonadState.get
      Eval.construct run args i (m.heap.klass r)) := rfl

/-- The machine on which the statements of a program are evaluated. -/
def Machine.started (m : Machine) : Machine :=
  { m with env := (m.env.setLimit m.settings.callLimit).takeNumber.2 }

theorem runProgram_eq (fuel : Nat) (p : Program) (m : Machine) : runProgram fuel p m =
    Eval.settling programResult (evalStmts (.of fuel m.env.numbered) .undefined p.statements)
      m.started := rfl

end Scriptlet
