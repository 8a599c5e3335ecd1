import Scriptlet.Access
import Scriptlet.Builtin
import Scriptlet.Operator

/-!
# Evaluation

Expressions and statements are evaluated by recursion on the syntax. Two things
are not bounded by the syntax: the body of a called function comes from a value,
and a loop runs as often as its test holds. Both use up fuel, `callValue` one unit
for each call inside a call and a loop one unit for each round. With more fuel a
finished evaluation ends the same way.
-/

namespace Scriptlet

/-- What code needs besides the machine: the number of the program that it is part of, the way to
call a value, and the bound on the rounds of a loop. -/
structure Engine where
  program : Nat
  call : Value → List Value → Eval Value
  rounds : Nat

namespace Eval

/-- Repeats `round` until it says to stop. -/
def repeatRound (round : Eval Bool) : (rounds : Nat) → Eval Unit
  | 0 => throw (.unfinished .outOfFuel)
  | rounds + 1 => do
    if ← round then repeatRound round rounds

/-- Runs `round` on one item after another until it says to stop. -/
def visit (round : Value → Eval Bool) : List Value → Eval Unit
  | [] => pure ()
  | item :: rest => do
    if ← round item then visit round rest

/-- Runs the body of a loop once, in a scope of its own; says whether the loop goes on. -/
@[inline] def loopBody (body : Eval Value) : Eval Bool := fun m =>
  match inNewScope body m with
  | .ok _ m => .ok true m
  | .error (.signal (.continued _)) m => .ok true m
  | .error (.signal (.broke _)) m => .ok false m
  | .error e m => .error e m

/-- The value of a name. -/
def lookup (name : String) : Eval Value := do
  match (← get).env.lookup? name with
  | some v => return v
  | none => fail (.undefinedVariable name)

/-- Assigns to a name. One that is bound nowhere becomes a global name. -/
def assign (name : String) (v : Value) : Eval Unit := do
  let env := (← get).env
  match env.assignable env.current name with
  | .ok owner => modifyEnv fun e => e.defineIn owner name v .mutable
  | .error (.undefinedVariable _) => modifyEnv fun e => e.defineGlobal name v
  | .error c => fail c

/-- Binds a name in the current scope. -/
def define (name : String) (v : Value) (mode : Mode) : Eval Unit :=
  modifyEnv fun e => e.define name v mode

/-- Writes to a place in the heap. -/
def write (place : Place) (v : Value) : Eval Unit :=
  modify fun m => { m with heap := m.heap.write place v }

/-- A new array. -/
def newArray (items : List Value) : Eval Value :=
  modifyGet fun m =>
    let (v, heap) := m.heap.newArray items.toArray
    (v, { m with heap := heap })

/-- A new object. -/
def newObject (entries : OrderedMap Value) : Eval Value :=
  modifyGet fun m =>
    let (v, heap) := m.heap.newObject entries
    (v, { m with heap := heap })

/-- A function made in the current scope. -/
def newFunction (g : Engine) (r : Routine) : Eval Value := do
  return .function ⟨g.program, r, (← get).env.current, none, 0⟩

/-- Binds a new class in the current scope. -/
def defineClass (g : Engine) (name : String) (methods : List Routine) : Eval Unit := do
  let scope := (← get).env.current
  let c : Class := ⟨name, g.program, .ofList (methods.map fun r => (r.name, r)), scope⟩
  let v ← modifyGet fun m =>
    let (v, heap) := m.heap.newClass c
    (v, { m with heap := heap })
  define name v .mutable

end Eval

open Eval

mutual

/-- Evaluates an expression. -/
def evalExpr (g : Engine) (e : Expr) : Eval Value :=
  step e.position (match e with
    | .integer _ n => pure (.integer n)
    | .float _ x => pure (.float x)
    | .string _ s => pure (.string s)
    | .boolean _ b => pure (.boolean b)
    | .null _ => pure .null
    | .undefined _ => pure .undefined
    | .identifier _ name => lookup name
    | .unary _ op x => do
      let v ← evalExpr g x
      ofExcept (applyUnary op v)
    | .binary _ op l r => do
      let a ← evalExpr g l
      let b ← evalExpr g r
      let heap := (← get).heap
      ofExcept (heap.applyBinary op a b)
    | .logical _ op l r => do
      let a ← evalExpr g l
      let decided := match op with
        | .and => !a.truthy
        | .or => a.truthy
      if decided then return a else evalExpr g r
    | .assign _ (.name name) value => do
      let v ← evalExpr g value
      assign name v
      return v
    | .assign _ (.member owner name) value => do
      let o ← evalExpr g owner
      let v ← evalExpr g value
      let place ← ofExcept (memberPlace o name)
      write place v
      return v
    | .assign _ (.index owner key) value => do
      let o ← evalExpr g owner
      let k ← evalExpr g key
      let v ← evalExpr g value
      let heap := (← get).heap
      let place ← ofExcept (heap.indexPlace o k)
      write place v
      return v
    | .call _ callee args => do
      let f ← evalExpr g callee
      let vs ← evalArgs g args
      g.call f vs
    | .group _ inner => evalExpr g inner
    | .array _ items => do
      let vs ← evalArgs g items
      newArray vs
    | .object _ entries => do
      let map ← evalEntries g .empty entries
      newObject map
    | .member _ owner name => do
      let o ← evalExpr g owner
      let heap := (← get).heap
      ofExcept (heap.getMember o name)
    | .index _ owner key => do
      let o ← evalExpr g owner
      let k ← evalExpr g key
      let heap := (← get).heap
      ofExcept (heap.getIndex o k)
    | .lambda _ routine => newFunction g routine)

/-- Evaluates expressions from left to right. -/
def evalArgs (g : Engine) : List Expr → Eval (List Value)
  | [] => pure []
  | e :: rest => do
    let v ← evalExpr g e
    let vs ← evalArgs g rest
    return v :: vs

/-- Evaluates the entries of an object literal from left to right, and adds them to `map`. -/
def evalEntries (g : Engine) (map : OrderedMap Value) : List Entry → Eval (OrderedMap Value)
  | [] => pure map
  | ⟨key, value⟩ :: rest => do
    let v ← evalExpr g value
    evalEntries g (map.insert key v) rest

/-- Evaluates a statement. -/
def evalStmt (g : Engine) (s : Stmt) : Eval Value := do
  if (← get).settings.tracing then log (.statement s.kindName s.position)
  step s.position (match s with
    | .expression _ e => evalExpr g e
    | .declare _ mode name (some init) => do
      let v ← evalExpr g init
      define name v mode
      return .undefined
    | .declare _ mode name none => do
      define name .undefined mode
      return .undefined
    | .block _ body => inNewScope (evalStmts g .undefined body)
    | .conditional _ test yes no => do
      let c ← evalExpr g test
      if c.truthy then evalStmt g yes
      else
        match no with
        | some no => evalStmt g no
        | none => return .undefined
    | .whileLoop _ test body => do
      repeatRound (do
        checkInterrupt
        let c ← evalExpr g test
        if c.truthy then loopBody (evalStmt g body) else return false) g.rounds
      return .undefined
    | .forLoop _ init test next body => do
      inNewScope do
        match init with
        | some init => let _ ← evalStmt g init
        | none => pure ()
        repeatRound (do
          checkInterrupt
          let holds ← match test with
            | some test => do
              let c ← evalExpr g test
              pure c.truthy
            | none => pure true
          if holds then
            if ← loopBody (evalStmt g body) then
              match next with
              | some next => let _ ← evalExpr g next
              | none => pure ()
              return true
            else return false
          else return false) g.rounds
      return .undefined
    | .foreachLoop _ name items body => do
      let v ← evalExpr g items
      let heap := (← get).heap
      let visited ← ofExcept (heap.loopItems v)
      visit (fun item => do
        checkInterrupt
        inNewScope do
          define name item .mutable
          loopBody (evalStmt g body)) visited
      return .undefined
    | .function _ routine => do
      let f ← newFunction g routine
      define routine.name f .mutable
      return .undefined
    | .classDef _ name methods => do
      defineClass g name methods
      return .undefined
    | .returnStmt _ (some value) => do
      let v ← evalExpr g value
      throw (.signal (.returned v))
    | .returnStmt _ none => throw (.signal (.returned .undefined))
    | .breakStmt p => throw (.signal (.broke p))
    | .continueStmt p => throw (.signal (.continued p)))

/-- Evaluates statements in order; gives the value of the last one, and `last` if there are none. -/
def evalStmts (g : Engine) (last : Value) : List Stmt → Eval Value
  | [] => pure last
  | s :: rest => do
    let v ← evalStmt g s
    evalStmts g v rest

end

/-- Evaluates statements in a scope of their own. -/
def evalBlock (g : Engine) (body : List Stmt) : Eval Value :=
  inNewScope (evalStmts g .undefined body)

/-- Binds the parameters of a routine in the current scope. -/
def bindParams (params : List String) (args : List Value) : Eval Unit :=
  (params.zip args).forM fun p => define p.1 p.2 .mutable

/-- Calls a function; `run` evaluates the statements of a program. The body runs in a new scope
within the function's own, and in a method `this` is bound in a scope between the two. -/
def callFunction (run : Nat → List Stmt → Eval Value) (f : Function) (args : List Value) :
    Eval Value := do
  let params := f.routine.params
  if args.length ≠ params.length then
    fail (.arityMismatch f.routine.name params.length args.length)
  settling callResult (inCall do
    log (.functionCalled f.routine.name (← get).env.callDepth)
    let outer ← match f.receiver with
      | some r => do
        let scope ← newScope f.scope
        modifyEnv fun e => e.defineIn scope "this" r .constant
        pure scope
      | none => pure f.scope
    let scope ← newScope outer
    inScope scope do
      bindParams params args
      run f.program f.routine.body)

/-- Calls a built-in function. -/
def callBuiltin (b : Builtin) (args : List Value) : Eval Value := do
  match b.primitive.arity with
  | some n =>
    if args.length ≠ n then fail (.arityMismatch b.primitive.name n args.length)
  | none => pure ()
  log (.builtinCalled b.primitive.name args.length)
  b.primitive.run args

/-- Makes an instance of a class, and passes it to the constructor if there is one. -/
def instantiate (run : Nat → List Stmt → Eval Value) (r : Ref .klass) (args : List Value) :
    Eval Value := do
  let i ← modifyGet fun m =>
    let (i, heap) := m.heap.newInstance r
    (i, { m with heap := heap })
  let c := (← get).heap.klass r
  match c.method? constructorName (.inst i) with
  | some f => let _ ← callFunction run f args
  | none => if ¬ args.isEmpty then fail (.arityMismatch c.name 0 args.length)
  return .inst i

/-- Calls a value whose code `run` evaluates. -/
def applyValue (run : Nat → List Stmt → Eval Value) (callee : Value) (args : List Value) :
    Eval Value :=
  match callee with
  | .function f => callFunction run f args
  | .builtin b => callBuiltin b args
  | .klass r => instantiate run r args
  | v => fail (.wrongType (.notCallable v.typeName))

/-- Calls a value; at most `fuel` calls nest. -/
def callValue : (fuel : Nat) → Value → List Value → Eval Value
  | 0, _, _ => throw (.unfinished .outOfFuel)
  | fuel + 1, callee, args =>
    applyValue (fun program body => evalStmts ⟨program, callValue fuel, fuel⟩ .undefined body)
      callee args

/-- How the code of the program with the given number is evaluated with `fuel`. -/
def Engine.of (fuel program : Nat) : Engine := ⟨program, callValue fuel, fuel⟩

/-- Gives a program a number. -/
def numberProgram : Eval Nat :=
  modifyGet fun m =>
    let (n, env) := m.env.takeNumber
    (n, { m with env := env })

/-- Runs a program in the current scope, under the limit on calls that the settings give. Its value
is that of the last statement or of a `return` outside of all functions. -/
def runProgram (fuel : Nat) (p : Program) : Eval Value := do
  modify fun m => { m with env := m.env.setLimit m.settings.callLimit }
  let n ← numberProgram
  settling programResult (evalStmts (.of fuel n) .undefined p.statements)

/-- Runs a program as a block. Jumps that nothing in it has taken stay on their way. -/
def runBlock (fuel : Nat) (p : Program) : Eval Value := do
  let n ← numberProgram
  evalBlock (.of fuel n) p.statements

end Scriptlet
