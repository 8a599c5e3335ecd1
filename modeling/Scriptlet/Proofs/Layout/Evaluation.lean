import Scriptlet.Proofs.Eval.Parts
import Scriptlet.Proofs.Layout.Machines

/-!
# Evaluation follows a move

The evaluator hands positions on, to functions, to events and to failures, but never asks
where something stands: except that functions are compared by the places of their routines.
So if no two positions are moved to one, a moved program on a moved machine does what the
program does on the machine, but for the move (`runProgram_follows`). The walk over the
syntax takes for granted that calls of values follow the move; they do, by induction on the
fuel (`callValue_follows`).
-/

namespace Scriptlet

open Eval

variable {ρ : Position → Position}

namespace Follows

variable {α : Type} [Movable α] {act act' : Eval α}

/-! ## The smallest steps -/

theorem fail (c : Cause) : Follows ρ (Eval.fail c : Eval α) (Eval.fail c) := fun _ => rfl

theorem undefined :
    Follows ρ (Pure.pure .undefined : Eval Value) (Pure.pure .undefined) := fun _ => rfl

theorem signal (s : Signal) :
    Follows ρ (throw (.signal s) : Eval α) (throw (.signal (move ρ s))) := fun _ => rfl

theorem ofExcept {r r' : Except Cause α} (h : r' = move ρ r) :
    Follows ρ (Eval.ofExcept r) (Eval.ofExcept r') := by
  subst h
  cases r with
  | ok a => exact .pure a
  | error c => exact fail c

theorem located (p : Position) (h : Follows ρ act act') :
    Follows ρ (Eval.located p act) (Eval.located (ρ p) act') := by
  intro m
  unfold Eval.located
  rw [h m]
  match act m with
  | .ok a m' => rfl
  | .error (.failure f) m' =>
    exact congrArg (fun f => EStateM.Result.error (Stop.failure f) (move ρ m')) (f.located_move ρ p)
  | .error (.signal s) m' => rfl
  | .error (.unfinished why) m' => rfl

theorem settling {settle : Except Stop Value → Except Stop Value} {act act' : Eval Value}
    (hsettle : ∀ r, settle (move ρ r) = move ρ (settle r)) (h : Follows ρ act act') :
    Follows ρ (Eval.settling settle act) (Eval.settling settle act') := by
  intro m
  unfold Eval.settling
  rw [h m]
  cases act m with
  | ok v m' =>
    have hsettled : settle (.ok (move ρ v)) = move ρ (settle (.ok v)) := hsettle (.ok v)
    rw [move_result_ok]
    dsimp only
    rw [hsettled]
    cases settle (.ok v) <;> rfl
  | error e m' =>
    have hsettled : settle (.error (move ρ e)) = move ρ (settle (.error e)) := hsettle (.error e)
    rw [move_result_error]
    dsimp only
    rw [hsettled]
    cases settle (.error e) <;> rfl

theorem checkInterrupt : Follows ρ Eval.checkInterrupt Eval.checkInterrupt :=
  .look fun _ => .ite (fail .interrupted) (.pure ())

theorem step (p : Position) (h : Follows ρ act act') :
    Follows ρ (Eval.step p act) (Eval.step (ρ p) act') :=
  .located p (.bind checkInterrupt fun _ => h)

theorem modifyEnv {f f' : Environment → Environment} (hf : ∀ e, f' (move ρ e) = move ρ (f e)) :
    Follows ρ (Eval.modifyEnv f) (Eval.modifyEnv f') :=
  .change fun m => congrArg (fun env => { move ρ m with env := env }) (hf m.env)

theorem log {e e' : Event} (h : e' = move ρ e) : Follows ρ (Eval.log e) (Eval.log e') := by
  subst h
  exact .change fun m =>
    congrArg (fun events => { move ρ m with events := events }) Array.map_push.symm

/-- A statement at `p` is logged, if the settings say so, and begun. -/
theorem traced (kind : String) (p : Position) (h : Follows ρ act act') :
    Follows ρ (do
      if (← get).settings.tracing then Eval.log (.statement kind p)
      Eval.step p act) (do
      if (← get).settings.tracing then Eval.log (.statement kind (ρ p))
      Eval.step (ρ p) act') :=
  .look fun _ => .ite (.bind (.log rfl) fun _ => .step p h) (.step p h)

/-! ## Scopes and calls -/

theorem inScope (r : Ref .scope) (h : Follows ρ act act') :
    Follows ρ (Eval.inScope r act) (Eval.inScope r act') := by
  intro m
  have hact : act' { move ρ m with env := (move ρ m).env.enter r } =
      move ρ (act { m with env := m.env.enter r }) := h { m with env := m.env.enter r }
  unfold Eval.inScope
  dsimp only at hact ⊢
  rw [hact]
  cases act { m with env := m.env.enter r } <;> rfl

theorem newScope (parent : Ref .scope) :
    Follows ρ (Eval.newScope parent) (Eval.newScope parent) :=
  .modifyGet fun m =>
    congrArg (fun p => (p.1, { move ρ m with env := p.2 })) (m.env.newScope_move ρ (some parent))

theorem inNewScope (h : Follows ρ act act') :
    Follows ρ (Eval.inNewScope act) (Eval.inNewScope act') :=
  .look fun m => .bind (newScope m.env.current) fun r => inScope r h

theorem inCall (h : Follows ρ act act') : Follows ρ (Eval.inCall act) (Eval.inCall act') := by
  intro m
  unfold Eval.inCall
  rw [show (move ρ m).env.enterCall = _ from m.env.enterCall_move ρ]
  cases m.env.enterCall with
  | error c => rfl
  | ok env =>
    have hact : act' { move ρ m with env := move ρ env } = move ρ (act { m with env := env }) :=
      h { m with env := env }
    dsimp only [move] at hact ⊢
    rw [hact]
    cases act { m with env := env } <;> rfl

/-- The answer of the host has no positions, so what follows it gets the same one. -/
theorem ask {β : Type} (request : Host → Reply β × Host) {f f' : Except HostError β → Eval α}
    (h : ∀ reply, Follows ρ (f reply) (f' reply)) :
    Follows ρ (Eval.ask request >>= f) (Eval.ask request >>= f') := by
  intro m
  have hasked : Eval.ask request (move ρ m) = match Eval.ask request m with
      | .ok reply n => .ok reply (move ρ n)
      | .error e n => .error (move ρ e) (move ρ n) := by
    have hhost : (move ρ m).host = m.host := rfl
    unfold Eval.ask
    rw [hhost]
    dsimp only
    cases (request m.host).1 <;> rfl
  show EStateM.bind (Eval.ask request) f' (move ρ m) =
    move ρ (EStateM.bind (Eval.ask request) f m)
  unfold EStateM.bind
  rw [hasked]
  cases Eval.ask request m with
  | ok reply n => exact h reply n
  | error e n => rfl

/-! ## Loops -/

theorem repeatRound {round round' : Eval Bool} (h : Follows ρ round round') (rounds : Nat) :
    Follows ρ (Eval.repeatRound round rounds) (Eval.repeatRound round' rounds) := by
  induction rounds with
  | zero => exact .raise _
  | succ rounds ih => exact .bind h fun _ => .ite ih (.pure ())

theorem visit {round round' : Value → Eval Bool}
    (h : ∀ v, Follows ρ (round v) (round' (move ρ v))) (items : List Value) :
    Follows ρ (Eval.visit round items) (Eval.visit round' (move ρ items)) := by
  induction items with
  | nil => exact .pure ()
  | cons v items ih => exact .bind (h v) fun _ => .ite ih (.pure ())

theorem loopBody {body body' : Eval Value} (h : Follows ρ body body') :
    Follows ρ (Eval.loopBody body) (Eval.loopBody body') := by
  intro m
  unfold Eval.loopBody
  rw [inNewScope h m]
  match Eval.inNewScope body m with
  | .ok v m' => rfl
  | .error (.failure f) m' => rfl
  | .error (.signal (.returned v)) m' => rfl
  | .error (.signal (.broke p)) m' => rfl
  | .error (.signal (.continued p)) m' => rfl
  | .error (.unfinished why) m' => rfl

/-! ## Names and cells -/

theorem lookup (x : String) : Follows ρ (Eval.lookup x) (Eval.lookup x) := by
  rw [Eval.lookup_eq]
  refine .look fun m => ?_
  rw [show (move ρ m).env.lookup? x = _ from m.env.lookup?_move ρ x]
  cases m.env.lookup? x with
  | none => exact fail _
  | some v => exact .pure v

theorem define (x : String) (v : Value) (mode : Mode) :
    Follows ρ (Eval.define x v mode) (Eval.define x (move ρ v) mode) :=
  modifyEnv fun e => e.defineIn_move ρ e.current x v mode

theorem assign (x : String) (v : Value) :
    Follows ρ (Eval.assign x v) (Eval.assign x (move ρ v)) := by
  rw [Eval.assign_eq, Eval.assign_eq]
  refine .look fun m => ?_
  rw [show (move ρ m).env.assignable (move ρ m).env.current x = _ from
    m.env.assignable_move ρ m.env.current x]
  unfold Eval.store
  split
  · exact modifyEnv fun e => e.defineIn_move ρ _ x v .mutable
  · exact modifyEnv fun e => e.defineIn_move ρ e.globals x v .mutable
  · exact fail _

theorem write (place : Place) (v : Value) :
    Follows ρ (Eval.write place v) (Eval.write place (move ρ v)) :=
  .change fun m =>
    congrArg (fun heap => { move ρ m with heap := heap }) (m.heap.write_move ρ place v)

/-- A new cell in the heap. -/
theorem newCell (f f' : Heap → α × Heap) (hf : ∀ h, f' (move ρ h) = move ρ (f h)) :
    Follows ρ
      (MonadState.modifyGet fun m => ((f m.heap).1, { m with heap := (f m.heap).2 }) : Eval α)
      (MonadState.modifyGet fun m => ((f' m.heap).1, { m with heap := (f' m.heap).2 })) :=
  .modifyGet fun m => congrArg (fun p => (p.1, { move ρ m with heap := p.2 })) (hf m.heap)

theorem newArray (items : List Value) :
    Follows ρ (Eval.newArray items) (Eval.newArray (move ρ items)) :=
  newCell (·.newArray items.toArray) (·.newArray (move ρ items).toArray) fun h => by
    rw [show (move ρ items).toArray = move ρ items.toArray from (List.map_toArray ..).symm]
    exact h.newArray_move ρ items.toArray

theorem newObject (entries : OrderedMap Value) :
    Follows ρ (Eval.newObject entries) (Eval.newObject (move ρ entries)) :=
  newCell (·.newObject entries) (·.newObject (move ρ entries)) fun h => h.newObject_move ρ entries

theorem newFunction (g : Engine) (r : Routine) :
    Follows ρ (Eval.newFunction g r) (Eval.newFunction g (move ρ r)) :=
  .look fun m => .pure (Value.function ⟨g.program, r, m.env.current, none, 0⟩)

theorem defineClass (g : Engine) (x : String) (methods : List Routine) :
    Follows ρ (Eval.defineClass g x methods) (Eval.defineClass g x (move ρ methods)) := by
  have hmethods : OrderedMap.ofList ((move ρ methods).map fun r => (r.name, r)) =
      move ρ (OrderedMap.ofList (methods.map fun r => (r.name, r))) := by
    rw [← OrderedMap.ofList_move, List.map_map]
    show OrderedMap.ofList ((methods.map (move ρ)).map _) = _
    rw [List.map_map]
    refine congrArg _ (List.map_congr_left fun r _ => ?_)
    exact congrArg (·, move ρ r) (r.name_move ρ)
  refine .look fun m => ?_
  dsimp only
  rw [hmethods]
  let c : Class := ⟨x, g.program, .ofList (methods.map fun r => (r.name, r)), m.env.current⟩
  exact .bind (newCell (·.newClass c) (·.newClass (move ρ c)) fun h => h.newClass_move ρ c)
    fun v => define x v .mutable

end Follows

/-! ## Expressions -/

/-- Calls of values follow the move. -/
def CallsFollow (ρ : Position → Position) (call : Value → List Value → Eval Value) : Prop :=
  ∀ v args, Follows ρ (call v args) (call (move ρ v) (move ρ args))

variable {g : Engine}

mutual

theorem evalExpr_follows (hρ : Function.Injective ρ) (hg : CallsFollow ρ g.call) (e : Expr) :
    Follows ρ (evalExpr g e) (evalExpr g (move ρ e)) := by
  cases e with
  | integer p n | float p x | string p s | boolean p b | null p | undefined p =>
    unfold evalExpr
    exact .step p (.pure _)
  | identifier p x =>
    unfold evalExpr
    exact .step p (.lookup x)
  | unary p op x =>
    show Follows ρ _ (evalExpr g (.unary (ρ p) op (move ρ x)))
    unfold evalExpr
    exact .step p (.bind (evalExpr_follows hρ hg x) fun v => .ofExcept (applyUnary_move ρ op v))
  | binary p op l r =>
    show Follows ρ _ (evalExpr g (.binary (ρ p) op (move ρ l) (move ρ r)))
    unfold evalExpr
    refine .step p (.bind (evalExpr_follows hρ hg l) fun a =>
      .bind (evalExpr_follows hρ hg r) fun b => ?_)
    exact .look fun m => .ofExcept (m.heap.applyBinary_move hρ op a b)
  | logical p op l r =>
    show Follows ρ _ (evalExpr g (.logical (ρ p) op (move ρ l) (move ρ r)))
    unfold evalExpr
    refine .step p (.bind (evalExpr_follows hρ hg l) fun a => ?_)
    rw [Value.truthy_move]
    exact .ite (.pure a) (evalExpr_follows hρ hg r)
  | assign p target value =>
    cases target with
    | name x =>
      show Follows ρ _ (evalExpr g (.assign (ρ p) (.name x) (move ρ value)))
      unfold evalExpr
      refine .step p (.bind (evalExpr_follows hρ hg value) fun v => ?_)
      exact .bind (.assign x v) fun _ => .pure v
    | member owner x =>
      show Follows ρ _ (evalExpr g (.assign (ρ p) (.member (move ρ owner) x) (move ρ value)))
      unfold evalExpr
      refine .step p (.bind (evalExpr_follows hρ hg owner) fun o => ?_)
      refine .bind (evalExpr_follows hρ hg value) fun v => ?_
      refine .bind (.ofExcept (memberPlace_move ρ o x)) fun place => ?_
      exact .bind (.write place v) fun _ => .pure v
    | index owner key =>
      show Follows ρ _
        (evalExpr g (.assign (ρ p) (.index (move ρ owner) (move ρ key)) (move ρ value)))
      unfold evalExpr
      refine .step p (.bind (evalExpr_follows hρ hg owner) fun o => ?_)
      refine .bind (evalExpr_follows hρ hg key) fun k =>
        .bind (evalExpr_follows hρ hg value) fun v => ?_
      refine .look fun m => .bind (.ofExcept (m.heap.indexPlace_move ρ o k)) fun place => ?_
      exact .bind (.write place v) fun _ => .pure v
  | call p callee args =>
    rw [Expr.move_call]
    unfold evalExpr
    refine .step p (.bind (evalExpr_follows hρ hg callee) fun f => ?_)
    exact .bind (evalArgs_follows hρ hg args) fun vs => hg f vs
  | group p x =>
    show Follows ρ _ (evalExpr g (.group (ρ p) (move ρ x)))
    unfold evalExpr
    exact .step p (evalExpr_follows hρ hg x)
  | array p items =>
    rw [Expr.move_array]
    unfold evalExpr
    exact .step p (.bind (evalArgs_follows hρ hg items) fun vs => .newArray vs)
  | object p entries =>
    rw [Expr.move_object]
    unfold evalExpr
    exact .step p (.bind (evalEntries_follows hρ hg entries .empty) fun map => .newObject map)
  | member p owner x =>
    show Follows ρ _ (evalExpr g (.member (ρ p) (move ρ owner) x))
    unfold evalExpr
    refine .step p (.bind (evalExpr_follows hρ hg owner) fun o => ?_)
    exact .look fun m => .ofExcept (m.heap.getMember_move ρ o x)
  | index p owner key =>
    show Follows ρ _ (evalExpr g (.index (ρ p) (move ρ owner) (move ρ key)))
    unfold evalExpr
    refine .step p (.bind (evalExpr_follows hρ hg owner) fun o =>
      .bind (evalExpr_follows hρ hg key) fun k => ?_)
    exact .look fun m => .ofExcept (m.heap.getIndex_move ρ o k)
  | lambda p routine =>
    show Follows ρ _ (evalExpr g (.lambda (ρ p) (move ρ routine)))
    unfold evalExpr
    exact .step p (.newFunction g routine)

theorem evalArgs_follows (hρ : Function.Injective ρ) (hg : CallsFollow ρ g.call) (es : List Expr) :
    Follows ρ (evalArgs g es) (evalArgs g (move ρ es)) := by
  match es with
  | [] => exact .pure []
  | e :: es =>
    show Follows ρ _ (evalArgs g (move ρ e :: move ρ es))
    unfold evalArgs
    exact .bind (evalExpr_follows hρ hg e) fun v =>
      .bind (evalArgs_follows hρ hg es) fun vs => .pure (v :: vs)

theorem evalEntries_follows (hρ : Function.Injective ρ) (hg : CallsFollow ρ g.call)
    (es : List Entry) (map : OrderedMap Value) :
    Follows ρ (evalEntries g map es) (evalEntries g (move ρ map) (move ρ es)) := by
  match es with
  | [] => exact .pure map
  | ⟨key, value⟩ :: es =>
    show Follows ρ _ (evalEntries g (move ρ map) (⟨key, move ρ value⟩ :: move ρ es))
    unfold evalEntries
    refine .bind (evalExpr_follows hρ hg value) fun v => ?_
    rw [OrderedMap.insert_move]
    exact evalEntries_follows hρ hg es (map.insert key v)

end

/-! ## Statements -/

mutual

theorem evalStmt_follows (hρ : Function.Injective ρ) (hg : CallsFollow ρ g.call) (s : Stmt) :
    Follows ρ (evalStmt g s) (evalStmt g (move ρ s)) := by
  cases s with
  | expression p e =>
    show Follows ρ _ (evalStmt g (.expression (ρ p) (move ρ e)))
    unfold evalStmt
    exact .traced _ p (evalExpr_follows hρ hg e)
  | declare p mode x init =>
    rw [Stmt.move_declare]
    cases init with
    | none =>
      unfold evalStmt
      exact .traced _ p (.bind (.define x .undefined mode) fun _ => .undefined)
    | some init =>
      rw [move_some]
      unfold evalStmt
      refine .traced _ p (.bind (evalExpr_follows hρ hg init) fun v => ?_)
      exact .bind (.define x v mode) fun _ => .undefined
  | block p body =>
    rw [Stmt.move_block]
    unfold evalStmt
    exact .traced _ p (.inNewScope (evalStmts_follows hρ hg body .undefined))
  | conditional p test yes no =>
    rw [Stmt.move_conditional]
    unfold evalStmt
    refine .traced _ p (.bind (evalExpr_follows hρ hg test) fun c => ?_)
    rw [Value.truthy_move]
    refine .ite (evalStmt_follows hρ hg yes) ?_
    cases no with
    | none => exact .undefined
    | some no => exact evalStmt_follows hρ hg no
  | whileLoop p test body =>
    show Follows ρ _ (evalStmt g (.whileLoop (ρ p) (move ρ test) (move ρ body)))
    unfold evalStmt
    refine .traced _ p (.bind (.repeatRound ?_ g.rounds) fun _ => .undefined)
    refine .bind .checkInterrupt fun _ => .bind (evalExpr_follows hρ hg test) fun c => ?_
    rw [Value.truthy_move]
    exact .ite (.loopBody (evalStmt_follows hρ hg body)) (.pure false)
  | forLoop p init test next body =>
    have round (holds : Bool) : Follows ρ (do
        if holds then
          if ← loopBody (evalStmt g body) then
            match next with
            | some next => let _ ← evalExpr g next
            | none => pure ()
            return true
          else return false
        else return false) (do
        if holds then
          if ← loopBody (evalStmt g (move ρ body)) then
            match move ρ next with
            | some next => let _ ← evalExpr g next
            | none => pure ()
            return true
          else return false
        else return false) := by
      refine .ite (.bind (.loopBody (evalStmt_follows hρ hg body)) fun goesOn =>
        .ite ?_ (.pure false))
        (.pure false)
      cases next with
      | none => exact .pure true
      | some next => exact .bind (evalExpr_follows hρ hg next) fun _ => .pure true
    rw [Stmt.move_forLoop]
    unfold evalStmt
    refine .traced _ p (.bind (.inNewScope ?_) fun _ => .undefined)
    generalize hrounds : Eval.repeatRound _ g.rounds = rounds
    generalize hrounds' : Eval.repeatRound _ g.rounds = rounds'
    have rounds_follow : Follows ρ rounds rounds' := by
      subst hrounds hrounds'
      refine .repeatRound (.bind .checkInterrupt fun _ => ?_) g.rounds
      cases test with
      | none => exact round true
      | some test =>
        refine .bind (evalExpr_follows hρ hg test) fun c => ?_
        rw [Value.truthy_move]
        exact round c.truthy
    cases init with
    | none => exact rounds_follow
    | some init => exact .bind (evalStmt_follows hρ hg init) fun _ => rounds_follow
  | foreachLoop p x items body =>
    show Follows ρ _ (evalStmt g (.foreachLoop (ρ p) x (move ρ items) (move ρ body)))
    unfold evalStmt
    refine .traced _ p (.bind (evalExpr_follows hρ hg items) fun v => .look fun m => ?_)
    refine .bind (.ofExcept (m.heap.loopItems_move ρ v)) fun visited => ?_
    refine .bind (.visit (fun item => ?_) visited) fun _ => .undefined
    refine .bind .checkInterrupt fun _ => .inNewScope (.bind (.define x item .mutable) fun _ => ?_)
    exact .loopBody (evalStmt_follows hρ hg body)
  | function p r =>
    show Follows ρ _ (evalStmt g (.function (ρ p) (move ρ r)))
    unfold evalStmt
    refine .traced _ p (.bind (.newFunction g r) fun f => ?_)
    rw [Routine.name_move]
    exact .bind (.define r.name f .mutable) fun _ => .undefined
  | classDef p x methods =>
    rw [Stmt.move_classDef]
    unfold evalStmt
    exact .traced _ p (.bind (.defineClass g x methods) fun _ => .undefined)
  | returnStmt p value =>
    rw [Stmt.move_returnStmt]
    cases value with
    | none =>
      unfold evalStmt
      exact .traced _ p (.signal (.returned .undefined))
    | some value =>
      rw [move_some]
      unfold evalStmt
      refine .traced _ p (.bind (evalExpr_follows hρ hg value) fun v => ?_)
      exact .signal (.returned v)
  | breakStmt p =>
    show Follows ρ _ (evalStmt g (.breakStmt (ρ p)))
    unfold evalStmt
    exact .traced _ p (.signal (.broke p))
  | continueStmt p =>
    show Follows ρ _ (evalStmt g (.continueStmt (ρ p)))
    unfold evalStmt
    exact .traced _ p (.signal (.continued p))

theorem evalStmts_follows (hρ : Function.Injective ρ) (hg : CallsFollow ρ g.call) (ss : List Stmt)
    (last : Value) : Follows ρ (evalStmts g last ss) (evalStmts g (move ρ last) (move ρ ss)) := by
  match ss with
  | [] => exact .pure last
  | s :: ss =>
    show Follows ρ _ (evalStmts g (move ρ last) (move ρ s :: move ρ ss))
    unfold evalStmts
    exact .bind (evalStmt_follows hρ hg s) fun v => evalStmts_follows hρ hg ss v

end

/-! ## Calls -/

/-- The statements of routines, in each program, follow the move. -/
def RunsFollow (ρ : Position → Position) (run : Nat → List Stmt → Eval Value) : Prop :=
  ∀ n body, Follows ρ (run n body) (run n (move ρ body))

namespace Follows

theorem bindParams (params : List String) (args : List Value) :
    Follows ρ (Scriptlet.bindParams params args) (Scriptlet.bindParams params (move ρ args)) := by
  unfold Scriptlet.bindParams
  induction params generalizing args with
  | nil => exact .pure ()
  | cons x params ih =>
    cases args with
    | nil => exact .pure ()
    | cons v args => exact .bind (.define x v .mutable) fun _ => ih args

theorem action (name : String) (args : List Value) (a : Action) :
    Follows ρ (a.run name args) (a.run name (move ρ args)) := by
  induction a with
  | give result => exact .look fun m => .made (m.heap.yielded_move ρ args result).symm
  | complain message => exact fail _
  | relay e => exact fail _
  | print line next ih => exact .ask _ ih
  | read path next ih => exact .ask _ ih
  | write path text next ih => exact .ask _ ih
  | interrupt next ih => exact .bind (.change fun m => rfl) fun _ => ih

theorem builtinBody (p : Primitive) (args : List Value) :
    Follows ρ (p.run args) (p.run (move ρ args)) := by
  refine .look fun m => ?_
  have hsights : (move ρ args).map (move ρ m).heap.sight = args.map m.heap.sight := by
    show (args.map (move ρ)).map _ = _
    rw [List.map_map]
    exact List.map_congr_left fun v _ => m.heap.sight_move ρ v
  dsimp only
  rw [hsights]
  exact action p.name args _

theorem builtin (b : Builtin) (args : List Value) :
    Follows ρ (callBuiltin b args) (callBuiltin b (move ρ args)) := by
  have body_follows : Follows ρ (do
      Eval.log (.builtinCalled b.primitive.name args.length)
      b.primitive.run args) (do
      Eval.log (.builtinCalled b.primitive.name args.length)
      b.primitive.run (move ρ args)) :=
    .bind (.log rfl) fun _ => builtinBody b.primitive args
  unfold callBuiltin
  rw [length_move]
  cases b.primitive.arity with
  | none => exact body_follows
  | some n => exact .ite (.bind (.fail _) fun _ => body_follows) body_follows

variable {run : Nat → List Stmt → Eval Value}

theorem newReceiverScope (parent : Ref .scope) (v : Value) :
    Follows ρ (Eval.newReceiverScope parent v) (Eval.newReceiverScope parent (move ρ v)) :=
  .bind (.newScope parent) fun scope =>
    .bind (.modifyEnv fun e => e.defineIn_move ρ scope "this" v .constant) fun _ => .pure scope

theorem enterBody (hrun : RunsFollow ρ run) (f : Function) (args : List Value)
    (outer : Ref .scope) :
    Follows ρ (Eval.enterBody run f args outer)
      (Eval.enterBody run (move ρ f) (move ρ args) outer) := by
  refine .bind (.newScope outer) fun scope => .inScope scope ?_
  rw [show (move ρ f).routine.params = _ from f.routine.params_move ρ,
    show (move ρ f).routine.body = _ from f.routine.body_move ρ]
  exact .bind (.bindParams f.routine.params args) fun _ => hrun f.program f.routine.body

theorem runBody (hrun : RunsFollow ρ run) (f : Function) (args : List Value) :
    Follows ρ (Eval.runBody run f args) (Eval.runBody run (move ρ f) (move ρ args)) := by
  have hreceiver : (move ρ f).receiver = move ρ f.receiver := rfl
  unfold Eval.runBody
  rw [hreceiver]
  cases f.receiver with
  | none => exact enterBody hrun f args f.scope
  | some v => exact .bind (newReceiverScope f.scope v) fun outer => enterBody hrun f args outer

theorem function (hrun : RunsFollow ρ run) (f : Function) (args : List Value) :
    Follows ρ (callFunction run f args) (callFunction run (move ρ f) (move ρ args)) := by
  have call_follows : Follows ρ (Eval.settling callResult (Eval.inCall do
        let m ← MonadState.get
        Eval.log (.functionCalled f.routine.name m.env.callDepth)
        Eval.runBody run f args)) (Eval.settling callResult (Eval.inCall do
        let m ← MonadState.get
        Eval.log (.functionCalled f.routine.name m.env.callDepth)
        Eval.runBody run (move ρ f) (move ρ args))) :=
    .settling (callResult_move ρ) (.inCall (.look fun _ => .bind (.log rfl) fun _ =>
      runBody hrun f args))
  rw [callFunction_eq, callFunction_eq, length_move,
    show (move ρ f).routine.params = _ from f.routine.params_move ρ,
    show (move ρ f).routine.name = _ from f.routine.name_move ρ]
  exact .ite (.bind (.fail _) fun _ => call_follows) call_follows

theorem construct (hrun : RunsFollow ρ run) (args : List Value) (i : Ref .inst) (c : Class) :
    Follows ρ (Eval.construct run args i c) (Eval.construct run (move ρ args) i (move ρ c)) := by
  have hname : (move ρ c).name = c.name := rfl
  have hempty : (move ρ args).isEmpty = args.isEmpty := by cases args <;> rfl
  unfold Eval.construct
  rw [show (move ρ c).method? constructorName (.inst i) = _ from
    c.method?_move ρ constructorName (.inst i), hname, hempty, length_move]
  cases c.method? constructorName (.inst i) with
  | some f => exact .bind (function hrun f args) fun _ => .pure (Value.inst i)
  | none => exact .ite (.bind (.fail _) fun _ => .pure (Value.inst i)) (.pure (Value.inst i))

theorem instantiated (hrun : RunsFollow ρ run) (r : Ref .klass) (args : List Value) :
    Follows ρ (instantiate run r args) (instantiate run r (move ρ args)) := by
  rw [instantiate_eq, instantiate_eq]
  refine .bind (newCell (·.newInstance r) (·.newInstance r) fun h => h.newInstance_move ρ r)
    fun i => .look fun m => ?_
  rw [show (move ρ m).heap.klass r = _ from m.heap.klass_move ρ r]
  exact construct hrun args i (m.heap.klass r)

theorem applied (hrun : RunsFollow ρ run) : CallsFollow ρ (applyValue run) := by
  intro v args
  cases v with
  | function f =>
    rw [Value.move_function]
    exact function hrun f args
  | builtin b => exact builtin b args
  | klass r => exact instantiated hrun r args
  | _ => exact .fail _

end Follows

/-! ## Evaluation with fuel -/

theorem callValue_follows (hρ : Function.Injective ρ) (fuel : Nat) :
    CallsFollow ρ (callValue fuel) := by
  induction fuel with
  | zero => exact fun _ _ => .raise _
  | succ fuel ih =>
    exact Follows.applied fun n body =>
      evalStmts_follows (g := ⟨n, callValue fuel, fuel⟩) hρ ih body .undefined

theorem runProgram_follows (hρ : Function.Injective ρ) (fuel : Nat) (p : Program) :
    Follows ρ (runProgram fuel p) (runProgram fuel (move ρ p)) := by
  refine .bind (.change fun m => rfl) fun _ => .bind (.modifyGet fun m => rfl) fun n => ?_
  exact .settling (programResult_move ρ)
    (evalStmts_follows hρ (callValue_follows hρ fuel) p.statements .undefined)

end Scriptlet
