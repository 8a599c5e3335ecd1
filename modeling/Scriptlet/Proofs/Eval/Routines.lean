import Scriptlet.Failure

/-!
# Routines, jumps and nodes of the syntax

What the text of a program says about its evaluation. `Stmt.jumps` lists the
`break` and `continue` statements that leave a statement: those that stand in no
loop body and in no routine within it. `Stmt.declared` lists the names that it may
declare where it stands, and not in a scope of its own. `Stmt.routines` lists the
routines that evaluating a statement may make functions or methods of; routines
within these are made when they are called. `Stmt.nodes` lists the statement with all
statements and expressions in it that are in no routine; `Program.Contains` goes into
the routines too.

A routine is `Confined` if no jump leaves its body, nor that of any routine within
it.
-/

namespace Scriptlet

/-- A jump of a loop, and where it stands. -/
inductive Jump where
  | broke (position : Position)
  | continued (position : Position)
  deriving DecidableEq, Repr

/-- How a program fails if the jump leaves it. -/
def Jump.cause : Jump → Cause
  | .broke _ => .breakOutsideLoop
  | .continued _ => .continueOutsideLoop

mutual

/-- The jumps that leave the statement. What a `for` loop starts with is not in its body. -/
def Stmt.jumps : Stmt → List Jump
  | .block _ body => stmtsJumps body
  | .conditional _ _ yes no => yes.jumps ++ branchJumps no
  | .forLoop _ init _ _ _ => branchJumps init
  | .breakStmt p => [.broke p]
  | .continueStmt p => [.continued p]
  | _ => []

/-- The jumps that leave a statement that may be left out. -/
def branchJumps : Option Stmt → List Jump
  | none => []
  | some s => s.jumps

/-- The jumps that leave the statements. -/
def stmtsJumps : List Stmt → List Jump
  | [] => []
  | s :: ss => s.jumps ++ stmtsJumps ss

end

mutual

/-- The names that the statement may declare in the scope that it is evaluated in. -/
def Stmt.declared : Stmt → List String
  | .declare _ _ x _ => [x]
  | .conditional _ _ yes no => yes.declared ++ branchDeclared no
  | .function _ r => [r.name]
  | .classDef _ x _ => [x]
  | _ => []

/-- The names that a statement that may be left out may declare. -/
def branchDeclared : Option Stmt → List String
  | none => []
  | some s => s.declared

end

/-- The names that the statements may declare in the scope that they are evaluated in. -/
def stmtsDeclared (ss : List Stmt) : List String := ss.flatMap Stmt.declared

mutual

/-- The routines that the expression makes functions of. -/
def Expr.routines : Expr → List Routine
  | .unary _ _ x | .group _ x | .member _ x _ => x.routines
  | .binary _ _ l r | .logical _ _ l r | .index _ l r => l.routines ++ r.routines
  | .assign _ (.name _) value => value.routines
  | .assign _ (.member owner _) value => owner.routines ++ value.routines
  | .assign _ (.index owner key) value => owner.routines ++ (key.routines ++ value.routines)
  | .call _ callee args => callee.routines ++ exprsRoutines args
  | .array _ items => exprsRoutines items
  | .object _ entries => entriesRoutines entries
  | .lambda _ r => [r]
  | _ => []

/-- The routines that the expressions make functions of. -/
def exprsRoutines : List Expr → List Routine
  | [] => []
  | e :: es => e.routines ++ exprsRoutines es

/-- The routines that the entries make functions of. -/
def entriesRoutines : List Entry → List Routine
  | [] => []
  | ⟨_, value⟩ :: es => value.routines ++ entriesRoutines es

end

/-- The routines that an expression that may be left out makes functions of. -/
def clauseRoutines (o : Option Expr) : List Routine := (o.map Expr.routines).getD []

mutual

/-- The routines that the statement makes functions or methods of. -/
def Stmt.routines : Stmt → List Routine
  | .expression _ e => e.routines
  | .declare _ _ _ init => clauseRoutines init
  | .block _ body => stmtsRoutines body
  | .conditional _ test yes no => test.routines ++ (yes.routines ++ branchRoutines no)
  | .whileLoop _ test body => test.routines ++ body.routines
  | .forLoop _ init test step body =>
    branchRoutines init ++ (clauseRoutines test ++ (clauseRoutines step ++ body.routines))
  | .foreachLoop _ _ items body => items.routines ++ body.routines
  | .function _ r => [r]
  | .classDef _ _ methods => methods
  | .returnStmt _ value => clauseRoutines value
  | .breakStmt _ | .continueStmt _ => []

/-- The routines that a statement that may be left out makes functions or methods of. -/
def branchRoutines : Option Stmt → List Routine
  | none => []
  | some s => s.routines

/-- The routines that the statements make functions or methods of. -/
def stmtsRoutines : List Stmt → List Routine
  | [] => []
  | s :: ss => s.routines ++ stmtsRoutines ss

end

/-! ## Expressions and statements -/

/-- An expression or a statement. -/
inductive Node where
  | expr (e : Expr)
  | stmt (s : Stmt)

namespace Node

/-- The position of the expression or the statement. -/
def position : Node → Position
  | expr e => e.position
  | stmt s => s.position

/-- The routines that it makes functions or methods of itself, and not through a node in it. -/
def routines : Node → List Routine
  | expr (.lambda _ r) | stmt (.function _ r) => [r]
  | stmt (.classDef _ _ methods) => methods
  | _ => []

/-- Whether it is a loop whose test says how often it runs. -/
def repeats : Node → Bool
  | stmt (.whileLoop ..) | stmt (.forLoop ..) => true
  | _ => false

end Node

mutual

/-- The expression and all expressions in it, but none in the body of a routine. -/
def Expr.nodes (e : Expr) : List Node :=
  .expr e :: match e with
    | .unary _ _ x | .group _ x | .member _ x _ => x.nodes
    | .binary _ _ l r | .logical _ _ l r | .index _ l r => l.nodes ++ r.nodes
    | .assign _ (.name _) value => value.nodes
    | .assign _ (.member owner _) value => owner.nodes ++ value.nodes
    | .assign _ (.index owner key) value => owner.nodes ++ (key.nodes ++ value.nodes)
    | .call _ callee args => callee.nodes ++ exprsNodes args
    | .array _ items => exprsNodes items
    | .object _ entries => entriesNodes entries
    | _ => []

/-- The nodes of the expressions. -/
def exprsNodes : List Expr → List Node
  | [] => []
  | e :: es => e.nodes ++ exprsNodes es

/-- The nodes of the values of the entries. -/
def entriesNodes : List Entry → List Node
  | [] => []
  | ⟨_, value⟩ :: es => value.nodes ++ entriesNodes es

end

/-- The nodes of an expression that may be left out. -/
def clauseNodes : Option Expr → List Node
  | none => []
  | some e => e.nodes

mutual

/-- The statement and all statements and expressions in it, but none in the body of a routine. -/
def Stmt.nodes (s : Stmt) : List Node :=
  .stmt s :: match s with
    | .expression _ e => e.nodes
    | .declare _ _ _ init => clauseNodes init
    | .block _ body => stmtsNodes body
    | .conditional _ test yes no => test.nodes ++ (yes.nodes ++ branchNodes no)
    | .whileLoop _ test body => test.nodes ++ body.nodes
    | .forLoop _ init test step body =>
      branchNodes init ++ (clauseNodes test ++ (clauseNodes step ++ body.nodes))
    | .foreachLoop _ _ items body => items.nodes ++ body.nodes
    | .returnStmt _ value => clauseNodes value
    | _ => []

/-- The nodes of a statement that may be left out. -/
def branchNodes : Option Stmt → List Node
  | none => []
  | some s => s.nodes

/-- The nodes of the statements. -/
def stmtsNodes : List Stmt → List Node
  | [] => []
  | s :: ss => s.nodes ++ stmtsNodes ss

end

/-- The program contains the expression or the statement, perhaps in the body of a routine, or of a
routine within that one, and so on. -/
inductive Program.Contains (p : Program) : Node → Prop
  | outside {x : Node} : x ∈ stmtsNodes p.statements → p.Contains x
  | inside {x y : Node} {r : Routine} : p.Contains y → r ∈ y.routines → x ∈ stmtsNodes r.body →
    p.Contains x

mutual

/-- The routines that an expression makes functions of are those of its nodes. -/
theorem Expr.flatMap_nodes (e : Expr) : e.nodes.flatMap Node.routines = e.routines := by
  cases e with
  | integer | float | string | boolean | null | undefined | identifier | lambda => rfl
  | unary p op x | group p x | member p x name => exact x.flatMap_nodes
  | binary p op l r | logical p op l r | index p l r =>
    simp [Expr.nodes, Expr.routines, Node.routines, l.flatMap_nodes, r.flatMap_nodes]
  | assign p target value =>
    cases target with
    | name x => exact value.flatMap_nodes
    | member owner x =>
      simp [Expr.nodes, Expr.routines, Node.routines, owner.flatMap_nodes, value.flatMap_nodes]
    | index owner key =>
      simp [Expr.nodes, Expr.routines, Node.routines, owner.flatMap_nodes, key.flatMap_nodes,
        value.flatMap_nodes]
  | call p callee args =>
    simp [Expr.nodes, Expr.routines, Node.routines, callee.flatMap_nodes, flatMap_exprsNodes args]
  | array p items => exact flatMap_exprsNodes items
  | object p entries => exact flatMap_entriesNodes entries

theorem flatMap_exprsNodes (es : List Expr) :
    (exprsNodes es).flatMap Node.routines = exprsRoutines es := by
  cases es with
  | nil => rfl
  | cons e es => simp [exprsNodes, exprsRoutines, e.flatMap_nodes, flatMap_exprsNodes es]

theorem flatMap_entriesNodes (es : List Entry) :
    (entriesNodes es).flatMap Node.routines = entriesRoutines es := by
  cases es with
  | nil => rfl
  | cons e es =>
    obtain ⟨key, value⟩ := e
    simp [entriesNodes, entriesRoutines, value.flatMap_nodes, flatMap_entriesNodes es]

end

theorem flatMap_clauseNodes (o : Option Expr) :
    (clauseNodes o).flatMap Node.routines = clauseRoutines o := by
  cases o with
  | none => rfl
  | some e => exact e.flatMap_nodes

mutual

/-- The routines that a statement makes functions or methods of are those of its nodes. -/
theorem Stmt.flatMap_nodes (s : Stmt) : s.nodes.flatMap Node.routines = s.routines := by
  cases s with
  | function | breakStmt | continueStmt => rfl
  | classDef p name methods => exact List.append_nil methods
  | expression p e => exact e.flatMap_nodes
  | declare p mode name init => exact flatMap_clauseNodes init
  | returnStmt p value => exact flatMap_clauseNodes value
  | block p body => exact flatMap_stmtsNodes body
  | conditional p test yes no =>
    simp [Stmt.nodes, Stmt.routines, Node.routines, test.flatMap_nodes, yes.flatMap_nodes,
      flatMap_branchNodes no]
  | whileLoop p test body | foreachLoop p name test body =>
    simp [Stmt.nodes, Stmt.routines, Node.routines, test.flatMap_nodes, body.flatMap_nodes]
  | forLoop p init test step body =>
    simp [Stmt.nodes, Stmt.routines, Node.routines, flatMap_branchNodes init, flatMap_clauseNodes,
      body.flatMap_nodes]

theorem flatMap_branchNodes (o : Option Stmt) :
    (branchNodes o).flatMap Node.routines = branchRoutines o := by
  cases o with
  | none => rfl
  | some s => exact s.flatMap_nodes

theorem flatMap_stmtsNodes (ss : List Stmt) :
    (stmtsNodes ss).flatMap Node.routines = stmtsRoutines ss := by
  cases ss with
  | nil => rfl
  | cons s ss => simp [stmtsNodes, stmtsRoutines, s.flatMap_nodes, flatMap_stmtsNodes ss]

end

/-- Where the jump stands. -/
def Jump.position : Jump → Position
  | .broke p | .continued p => p

mutual

/-- A jump that leaves a statement is a statement in it. -/
theorem Stmt.exists_node_of_mem_jumps {j : Jump} (s : Stmt) (hj : j ∈ s.jumps) :
    ∃ x ∈ s.nodes, x.position = j.position := by
  cases s with
  | block p body =>
    obtain ⟨x, hx, hp⟩ := exists_node_of_mem_stmtsJumps body hj
    exact ⟨x, List.mem_cons_of_mem _ hx, hp⟩
  | conditional p test yes no =>
    rcases List.mem_append.mp hj with hj | hj
    · obtain ⟨x, hx, hp⟩ := yes.exists_node_of_mem_jumps hj
      exact ⟨x, by simp [Stmt.nodes, hx], hp⟩
    · obtain ⟨x, hx, hp⟩ := exists_node_of_mem_branchJumps no hj
      exact ⟨x, by simp [Stmt.nodes, hx], hp⟩
  | forLoop p init test step body =>
    obtain ⟨x, hx, hp⟩ := exists_node_of_mem_branchJumps init hj
    exact ⟨x, by simp [Stmt.nodes, hx], hp⟩
  | breakStmt p | continueStmt p =>
    cases List.mem_singleton.mp hj
    exact ⟨_, List.mem_cons_self, rfl⟩
  | _ => cases hj

theorem exists_node_of_mem_branchJumps {j : Jump} (o : Option Stmt) (hj : j ∈ branchJumps o) :
    ∃ x ∈ branchNodes o, x.position = j.position := by
  cases o with
  | none => cases hj
  | some s => exact s.exists_node_of_mem_jumps hj

theorem exists_node_of_mem_stmtsJumps {j : Jump} (ss : List Stmt) (hj : j ∈ stmtsJumps ss) :
    ∃ x ∈ stmtsNodes ss, x.position = j.position := by
  cases ss with
  | nil => cases hj
  | cons s ss =>
    rcases List.mem_append.mp hj with hj | hj
    · obtain ⟨x, hx, hp⟩ := s.exists_node_of_mem_jumps hj
      exact ⟨x, List.mem_append_left _ hx, hp⟩
    · obtain ⟨x, hx, hp⟩ := exists_node_of_mem_stmtsJumps ss hj
      exact ⟨x, List.mem_append_right _ hx, hp⟩

end

/-! ## Confined jumps -/

/-- No jump leaves the body of the routine, nor that of any routine within it. -/
inductive Routine.Confined : Routine → Prop
  | mk {r : Routine} : stmtsJumps r.body = [] → (∀ r' ∈ stmtsRoutines r.body, r'.Confined) →
    r.Confined

theorem Routine.Confined.jumps {r : Routine} : r.Confined → stmtsJumps r.body = []
  | .mk h _ => h

theorem Routine.Confined.routines {r : Routine} :
    r.Confined → ∀ r' ∈ stmtsRoutines r.body, r'.Confined
  | .mk _ h => h

/-- Every jump of the program stands in the body of a loop of the same routine, or of the same
program outside of all routines. -/
structure Program.Confined (p : Program) : Prop where
  jumps : stmtsJumps p.statements = []
  routines : ∀ r ∈ stmtsRoutines p.statements, r.Confined

end Scriptlet
