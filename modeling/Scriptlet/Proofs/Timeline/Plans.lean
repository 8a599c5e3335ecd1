import Scriptlet.Proofs.Eval.Declarations
import Scriptlet.Proofs.Timeline.Quiet

/-!
# Evaluations as plans

A watcher of an evaluation sees expressions and statements begin and end, and functions and
built-in functions being called. Between these nothing happens that concerns it
(`Eval.Quiet`). A `Plan` is an evaluation that is put together from such parts, so that one can
see which they are and ask what begins within what: the parts within an expression, a statement
or a call are a plan of their own.

`Planner.expr`, `Planner.stmt` and `Planner.call` are the plans of the evaluator. Following a
plan is evaluating: `Planner.run_expr`, `Planner.run_stmt`, `run_planCall`.
-/

namespace Scriptlet

/-- Whether the node is an expression that calls something. -/
def Node.isCall : Node → Bool
  | .expr (.call ..) => true
  | _ => false

/-- The machine on which what the node asks for begins, after the statement has been logged. -/
def Node.begun : Node → Machine → Machine
  | .expr _, m => m
  | .stmt s, m => s.begun m

namespace Eval

/-- Evaluates a node; `act` is what it asks for. -/
def atNode (x : Node) (act : Eval Value) : Eval Value := fun m => step x.position act (x.begun m)

/-- Calls a function with as many arguments as it has parameters, and logs the call; `body` runs
its body. -/
def called (f : Function) (args : List Value) (body : Eval Value) : Eval Value := do
  if args.length ≠ f.routine.params.length then
    fail (.arityMismatch f.routine.name f.routine.params.length args.length)
  settling callResult (inCall do
    let m ← MonadState.get
    log (.functionCalled f.routine.name m.env.callDepth)
    body)

end Eval

/-- An evaluation put together from the parts that a watcher can tell apart. `site` says whether
it may call something directly. -/
inductive Plan : (site : Bool) → Type → Type 1
  /-- Nothing begins. -/
  | quiet {site : Bool} {α : Type} (act : Eval α) (h : act.Quiet) : Plan site α
  /-- One after the other. -/
  | bind {site : Bool} {α β : Type} (p : Plan site α) (f : α → Plan site β) : Plan site β
  /-- In a new scope. -/
  | within {site : Bool} {α : Type} (parent : Ref .scope) (p : Plan site α) : Plan site α
  /-- As the body of a loop, in a new scope within the current one. -/
  | loopBody {site : Bool} (p : Plan site Value) : Plan site Bool
  /-- An expression or a statement. Only an expression that calls something does so directly. -/
  | node {site : Bool} (x : Node) (p : Plan x.isCall Value) : Plan site Value
  /-- A call of a function, with the plan of its body. -/
  | function (f : Function) (args : List Value) (p : Plan false Value) : Plan true Value
  /-- A call of a built-in function. -/
  | builtin (b : Builtin) (args : List Value) : Plan true Value

namespace Plan

variable {site : Bool} {α β : Type}

/-- Follows the plan. -/
def run : {site : Bool} → {α : Type} → Plan site α → Eval α
  | _, _, .quiet act _ => act
  | _, _, .bind p f => p.run >>= fun a => (f a).run
  | _, _, .within parent p => Eval.newScope parent >>= fun r => Eval.inScope r p.run
  | _, _, .loopBody p => Eval.loopBody p.run
  | _, _, .node x p => Eval.atNode x p.run
  | _, _, .function f args p => Eval.called f args p.run
  | _, _, .builtin b args => callBuiltin b args

instance : Monad (Plan site) where
  pure a := .quiet (pure a) inferInstance
  bind := .bind

/-- A quiet step. -/
def lift (act : Eval α) [h : act.Quiet] : Plan site α := .quiet act h

/-- In a new scope within the current one. -/
def inNewScope (p : Plan site α) : Plan site α := do
  let r ← lift Eval.currentScope
  .within r p

/-- Repeats `round` until it says to stop. -/
def repeatRound (round : Plan site Bool) : (rounds : Nat) → Plan site Unit
  | 0 => lift (throw (.unfinished .outOfFuel))
  | rounds + 1 => do
    if ← round then repeatRound round rounds

/-- Runs `round` on one item after another until it says to stop. -/
def visit (round : Value → Plan site Bool) : List Value → Plan site Unit
  | [] => pure ()
  | item :: rest => do
    if ← round item then visit round rest

theorem run_bind (p : Plan site α) (f : α → Plan site β) :
    (p >>= f).run = p.run >>= fun a => (f a).run := rfl

end Plan

/-- How to make the plans of code: as for an engine, but calls are planned. -/
structure Planner where
  program : Nat
  call : Value → List Value → Plan true Value
  rounds : Nat

namespace Planner

/-- The engine that follows the plans. -/
def engine (P : Planner) : Engine := ⟨P.program, fun f args => (P.call f args).run, P.rounds⟩

mutual

/-- The plan of an expression. -/
def expr (P : Planner) {site : Bool} (e : Expr) : Plan site Value :=
  .node (.expr e) (match e with
    | .integer _ n => pure (.integer n)
    | .float _ x => pure (.float x)
    | .string _ s => pure (.string s)
    | .boolean _ b => pure (.boolean b)
    | .null _ => pure .null
    | .undefined _ => pure .undefined
    | .identifier _ name => .lift (Eval.lookup name)
    | .unary _ op x => do
      let v ← P.expr x
      .lift (Eval.ofExcept (applyUnary op v))
    | .binary _ op l r => do
      let a ← P.expr l
      let b ← P.expr r
      .lift (Eval.reading fun heap => heap.applyBinary op a b)
    | .logical _ op l r => do
      let a ← P.expr l
      let decided := match op with
        | .and => !a.truthy
        | .or => a.truthy
      if decided then return a else P.expr r
    | .assign _ (.name name) value => do
      let v ← P.expr value
      .lift (Eval.assign name v)
      return v
    | .assign _ (.member owner name) value => do
      let o ← P.expr owner
      let v ← P.expr value
      let place ← .lift (Eval.ofExcept (memberPlace o name))
      .lift (Eval.write place v)
      return v
    | .assign _ (.index owner key) value => do
      let o ← P.expr owner
      let k ← P.expr key
      let v ← P.expr value
      let place ← .lift (Eval.reading fun heap => heap.indexPlace o k)
      .lift (Eval.write place v)
      return v
    | .call _ callee args => do
      let f ← P.expr callee
      let vs ← P.args args
      P.call f vs
    | .group _ inner => P.expr inner
    | .array _ items => do
      let vs ← P.args items
      .lift (Eval.newArray vs)
    | .object _ entries => do
      let map ← P.entries .empty entries
      .lift (Eval.newObject map)
    | .member _ owner name => do
      let o ← P.expr owner
      .lift (Eval.reading fun heap => heap.getMember o name)
    | .index _ owner key => do
      let o ← P.expr owner
      let k ← P.expr key
      .lift (Eval.reading fun heap => heap.getIndex o k)
    | .lambda _ routine => .lift (Eval.newFunction P.engine routine))

/-- The plan of expressions from left to right. -/
def args (P : Planner) {site : Bool} : List Expr → Plan site (List Value)
  | [] => pure []
  | e :: rest => do
    let v ← P.expr e
    let vs ← P.args rest
    return v :: vs

/-- The plan of the entries of an object literal. -/
def entries (P : Planner) {site : Bool} (map : OrderedMap Value) :
    List Entry → Plan site (OrderedMap Value)
  | [] => pure map
  | ⟨key, value⟩ :: rest => do
    let v ← P.expr value
    P.entries (map.insert key v) rest

/-- The plan of a statement. -/
def stmt (P : Planner) {site : Bool} (s : Stmt) : Plan site Value :=
  .node (.stmt s) (match s with
    | .expression _ e => P.expr e
    | .declare _ mode name (some init) => do
      let v ← P.expr init
      .lift (Eval.define name v mode)
      return .undefined
    | .declare _ mode name none => do
      .lift (Eval.define name .undefined mode)
      return .undefined
    | .block _ body => .inNewScope (P.stmts .undefined body)
    | .conditional _ test yes no => do
      let c ← P.expr test
      if c.truthy then P.stmt yes
      else
        match no with
        | some no => P.stmt no
        | none => return .undefined
    | .whileLoop _ test body => do
      .repeatRound (do
        .lift Eval.checkInterrupt
        let c ← P.expr test
        if c.truthy then .loopBody (P.stmt body) else return false) P.rounds
      return .undefined
    | .forLoop _ init test next body => do
      .inNewScope do
        match init with
        | some init => let _ ← P.stmt init
        | none => pure ()
        .repeatRound (do
          .lift Eval.checkInterrupt
          let holds ← match test with
            | some test => do
              let c ← P.expr test
              pure c.truthy
            | none => pure true
          if holds then
            if ← .loopBody (P.stmt body) then
              match next with
              | some next => let _ ← P.expr next
              | none => pure ()
              return true
            else return false
          else return false) P.rounds
      return .undefined
    | .foreachLoop _ name items body => do
      let v ← P.expr items
      let visited ← .lift (Eval.reading fun heap => heap.loopItems v)
      .visit (fun item => do
        .lift Eval.checkInterrupt
        .inNewScope do
          .lift (Eval.define name item .mutable)
          .loopBody (P.stmt body)) visited
      return .undefined
    | .function _ routine => do
      let f ← .lift (Eval.newFunction P.engine routine)
      .lift (Eval.define routine.name f .mutable)
      return .undefined
    | .classDef _ name methods => do
      .lift (Eval.defineClass P.engine name methods)
      return .undefined
    | .returnStmt _ (some value) => do
      let v ← P.expr value
      .lift (throw (.signal (.returned v)))
    | .returnStmt _ none => .lift (throw (.signal (.returned .undefined)))
    | .breakStmt p => .lift (throw (.signal (.broke p)))
    | .continueStmt p => .lift (throw (.signal (.continued p))))

/-- The plan of statements in order. -/
def stmts (P : Planner) {site : Bool} (last : Value) : List Stmt → Plan site Value
  | [] => pure last
  | s :: rest => do
    let v ← P.stmt s
    P.stmts v rest

end

end Planner

/-! ## Calls -/

section

variable (run : Nat → List Stmt → Plan false Value)

/-- The plan of the body of a called function; `run` gives that of its statements. -/
def planBody (f : Function) (args : List Value) : Plan false Value := do
  let outer ← match f.receiver with
    | some v => .lift (Eval.newReceiverScope f.scope v)
    | none => pure f.scope
  .within outer do
    .lift (bindParams f.routine.params args)
    run f.program f.routine.body

/-- The plan of passing a new instance of the class to its constructor. -/
def planConstruction (args : List Value) (i : Ref .inst) (c : Class) : Plan true Value := do
  match c.method? constructorName (.inst i) with
  | some f => let _ ← .function f args (planBody run f args)
  | none => if ¬ args.isEmpty then .lift (Eval.fail (.arityMismatch c.name 0 args.length))
  return .inst i

/-- The plan of making an instance of a class. -/
def planInstance (r : Ref .klass) (args : List Value) : Plan true Value := do
  let i ← .lift (Eval.newInstance r)
  let c ← .lift (Eval.classAt r)
  planConstruction run args i c

/-- The plan of a call of a value. -/
def planApplication (callee : Value) (args : List Value) : Plan true Value :=
  match callee with
  | .function f => .function f args (planBody run f args)
  | .builtin b => .builtin b args
  | .klass r => planInstance run r args
  | v => .lift (Eval.fail (.wrongType (.notCallable v.typeName)))

end

/-- The plan of a call of a value; at most `fuel` calls nest. -/
def planCall : (fuel : Nat) → Value → List Value → Plan true Value
  | 0, _, _ => .lift (throw (.unfinished .outOfFuel))
  | fuel + 1, callee, args =>
    planApplication
      (fun program body => Planner.stmts ⟨program, planCall fuel, fuel⟩ .undefined body)
      callee args

/-- How the plans of the program with the given number are made with `fuel`. -/
def Planner.of (fuel program : Nat) : Planner := ⟨program, planCall fuel, fuel⟩

/-! ## Following a plan is evaluating -/

namespace Plan

variable {site : Bool} {α β : Type}

theorem run_bind_eq {p : Plan site α} {f : α → Plan site β} {act : Eval α} {g : α → Eval β}
    (h : p.run = act) (hf : ∀ a, (f a).run = g a) : (p >>= f).run = act >>= g := by
  rw [run_bind, h]
  exact congrArg _ (funext hf)

theorem run_ite_eq {c : Prop} [Decidable c] {p q : Plan site α} {act act' : Eval α}
    (h : p.run = act) (h' : q.run = act') :
    (if c then p else q).run = if c then act else act' := by
  split
  · exact h
  · exact h'

theorem run_inNewScope_eq {p : Plan site α} {act : Eval α} (h : p.run = act) :
    p.inNewScope.run = Eval.inNewScope act := by
  subst h
  rfl

theorem run_loopBody_eq {p : Plan site Value} {act : Eval Value} (h : p.run = act) :
    p.loopBody.run = Eval.loopBody act :=
  congrArg Eval.loopBody h

theorem run_repeatRound_eq {round : Plan site Bool} {act : Eval Bool} (h : round.run = act)
    (rounds : Nat) : (round.repeatRound rounds).run = Eval.repeatRound act rounds := by
  induction rounds with
  | zero => rfl
  | succ rounds ih => exact run_bind_eq h fun goesOn => run_ite_eq ih rfl

theorem run_visit_eq {round : Value → Plan site Bool} {act : Value → Eval Bool}
    (h : ∀ v, (round v).run = act v) (items : List Value) :
    (visit round items).run = Eval.visit act items := by
  induction items with
  | nil => rfl
  | cons item rest ih => exact run_bind_eq (h item) fun goesOn => run_ite_eq ih rfl

theorem run_stmt_node_eq {s : Stmt} {p : Plan (Node.stmt s).isCall Value} {act : Eval Value}
    (h : p.run = act) : (.node (.stmt s) p : Plan site Value).run = (do
      if (← MonadState.get).settings.tracing then Eval.log (.statement s.kindName s.position)
      Eval.step s.position act) := by
  subst h
  exact (funext (Eval.traced_eq s p.run)).symm

end Plan

namespace Planner

open Plan

mutual

theorem run_expr (P : Planner) {site : Bool} (e : Expr) :
    (P.expr e : Plan site Value).run = evalExpr P.engine e := by
  rw [expr.eq_def, evalExpr.eq_def]
  refine congrArg (Eval.step e.position) ?_
  cases e with
  | integer | float | string | boolean | null | undefined | identifier | lambda => rfl
  | group p x => exact P.run_expr x
  | unary p op x => exact run_bind_eq (P.run_expr x) fun v => rfl
  | member p x name => exact run_bind_eq (P.run_expr x) fun v => rfl
  | binary p op l r =>
    exact run_bind_eq (P.run_expr l) fun a => run_bind_eq (P.run_expr r) fun b => rfl
  | index p l r =>
    exact run_bind_eq (P.run_expr l) fun a => run_bind_eq (P.run_expr r) fun b => rfl
  | logical p op l r => exact run_bind_eq (P.run_expr l) fun a => run_ite_eq rfl (P.run_expr r)
  | assign p target value =>
    cases target with
    | name x => exact run_bind_eq (P.run_expr value) fun v => rfl
    | member owner x =>
      exact run_bind_eq (P.run_expr owner) fun o => run_bind_eq (P.run_expr value) fun v => rfl
    | index owner key =>
      exact run_bind_eq (P.run_expr owner) fun o => run_bind_eq (P.run_expr key) fun k =>
        run_bind_eq (P.run_expr value) fun v => rfl
  | call p callee args =>
    exact run_bind_eq (P.run_expr callee) fun f => run_bind_eq (P.run_args args) fun vs => rfl
  | array p items => exact run_bind_eq (P.run_args items) fun vs => rfl
  | object p entries => exact run_bind_eq (P.run_entries .empty entries) fun map => rfl

theorem run_args (P : Planner) {site : Bool} (es : List Expr) :
    (P.args es : Plan site (List Value)).run = evalArgs P.engine es := by
  cases es with
  | nil => rfl
  | cons e es =>
    exact run_bind_eq (P.run_expr e) fun v => run_bind_eq (P.run_args es) fun vs => rfl

theorem run_entries (P : Planner) {site : Bool} (map : OrderedMap Value) (es : List Entry) :
    (P.entries map es : Plan site (OrderedMap Value)).run = evalEntries P.engine map es := by
  cases es with
  | nil => rfl
  | cons e es =>
    obtain ⟨key, value⟩ := e
    exact run_bind_eq (P.run_expr value) fun v => P.run_entries (map.insert key v) es

theorem run_stmt (P : Planner) {site : Bool} (s : Stmt) :
    (P.stmt s : Plan site Value).run = evalStmt P.engine s := by
  rw [stmt.eq_def, evalStmt.eq_def]
  refine run_stmt_node_eq ?_
  cases s with
  | expression p e => exact P.run_expr e
  | declare p mode x init =>
    cases init with
    | none => rfl
    | some init => exact run_bind_eq (P.run_expr init) fun v => rfl
  | block p body => exact run_inNewScope_eq (P.run_stmts .undefined body)
  | conditional p test yes no =>
    refine run_bind_eq (P.run_expr test) fun c => run_ite_eq (P.run_stmt yes) ?_
    cases no with
    | none => rfl
    | some no => exact P.run_stmt no
  | whileLoop p test body =>
    refine run_bind_eq (run_repeatRound_eq (run_bind_eq rfl fun _ => ?_) _) fun _ => rfl
    exact run_bind_eq (P.run_expr test) fun c =>
      run_ite_eq (run_loopBody_eq (P.run_stmt body)) rfl
  | forLoop p init test next body =>
    have round (holds : Bool) : (do
        if holds then
          if ← .loopBody (P.stmt body) then
            match next with
            | some next => let _ ← P.expr next
            | none => pure ()
            return true
          else return false
        else return false : Plan false Bool).run = (do
        if holds then
          if ← Eval.loopBody (evalStmt P.engine body) then
            match next with
            | some next => let _ ← evalExpr P.engine next
            | none => pure ()
            return true
          else return false
        else return false) := by
      refine run_ite_eq (run_bind_eq (run_loopBody_eq (P.run_stmt body)) fun goesOn => ?_) rfl
      refine run_ite_eq ?_ rfl
      cases next with
      | none => rfl
      | some next => exact run_bind_eq (P.run_expr next) fun _ => rfl
    refine run_bind_eq (run_inNewScope_eq ?_) fun _ => rfl
    have tested (test : Expr) :=
      run_bind_eq (@run_expr P false test) fun c => round c.truthy
    cases init with
    | none =>
      refine run_repeatRound_eq (run_bind_eq rfl fun _ => ?_) _
      cases test with
      | none => exact round true
      | some test => exact tested test
    | some init =>
      refine run_bind_eq (P.run_stmt init) fun _ => ?_
      refine run_repeatRound_eq (run_bind_eq rfl fun _ => ?_) _
      cases test with
      | none => exact round true
      | some test => exact tested test
  | foreachLoop p x items body =>
    refine run_bind_eq (P.run_expr items) fun v => run_bind_eq rfl fun visited => ?_
    refine run_bind_eq (run_visit_eq (fun item => run_bind_eq rfl fun _ => ?_) _) fun _ => rfl
    exact run_inNewScope_eq (run_bind_eq rfl fun _ => run_loopBody_eq (P.run_stmt body))
  | function p r => rfl
  | classDef p x methods => rfl
  | returnStmt p value =>
    cases value with
    | none => rfl
    | some value => exact run_bind_eq (P.run_expr value) fun v => rfl
  | breakStmt p => rfl
  | continueStmt p => rfl

theorem run_stmts (P : Planner) {site : Bool} (last : Value) (ss : List Stmt) :
    (P.stmts last ss : Plan site Value).run = evalStmts P.engine last ss := by
  cases ss with
  | nil => rfl
  | cons s ss => exact run_bind_eq (P.run_stmt s) fun v => P.run_stmts v ss

end

end Planner

section

variable (run : Nat → List Stmt → Plan false Value)

theorem run_planBody (f : Function) (args : List Value) :
    (planBody run f args).run = Eval.runBody (fun n body => (run n body).run) f args := by
  unfold planBody Eval.runBody
  cases f.receiver with
  | none => rfl
  | some r => rfl

theorem run_planFunction (f : Function) (args : List Value) :
    (Plan.function f args (planBody run f args)).run =
      callFunction (fun n body => (run n body).run) f args := by
  rw [callFunction_eq, ← run_planBody]
  rfl

theorem run_planConstruction (args : List Value) (i : Ref .inst) (c : Class) :
    (planConstruction run args i c).run =
      Eval.construct (fun n body => (run n body).run) args i c := by
  unfold planConstruction Eval.construct
  cases c.method? constructorName (.inst i) with
  | none =>
    refine Plan.run_ite_eq ?_ rfl
    exact Plan.run_bind_eq rfl fun _ => rfl
  | some f => exact Plan.run_bind_eq (run_planFunction run f args) fun _ => rfl

theorem run_planInstance (r : Ref .klass) (args : List Value) :
    (planInstance run r args).run = instantiate (fun n body => (run n body).run) r args := by
  rw [instantiate_eq]
  refine Plan.run_bind_eq rfl fun i => ?_
  exact congrArg (Eval.classAt r >>= ·) (funext fun c => run_planConstruction run args i c)

theorem run_planApplication (callee : Value) (args : List Value) :
    (planApplication run callee args).run =
      applyValue (fun n body => (run n body).run) callee args := by
  cases callee with
  | function f => exact run_planFunction run f args
  | klass r => exact run_planInstance run r args
  | _ => rfl

end

/-- The plan of a call is what the call does. -/
theorem run_planCall (fuel : Nat) (callee : Value) (args : List Value) :
    (planCall fuel callee args).run = callValue fuel callee args := by
  induction fuel generalizing callee args with
  | zero => rfl
  | succ fuel ih =>
    refine (run_planApplication _ callee args).trans ?_
    rw [callValue]
    congr 1
    funext program body
    refine (Planner.run_stmts _ .undefined body).trans ?_
    unfold Planner.engine
    simp only [ih]

theorem Planner.engine_of (fuel program : Nat) :
    (Planner.of fuel program).engine = .of fuel program := by
  unfold engine of Engine.of
  simp only [run_planCall]

end Scriptlet
