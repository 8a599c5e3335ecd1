import Scriptlet.Position

/-!
# Programs as trees

Every expression and every statement carries the position of its first token. A
routine is the text of a function, a method or a lambda; its position is that of
its name, and for a lambda that of its opening parenthesis. Two routines of one
program never share a position, so a routine is known by it.
-/

namespace Scriptlet

/-- Whether a binding may be assigned to. -/
inductive Mode where
  | mutable
  | constant
  deriving DecidableEq, Repr

/-- The operators on one operand. -/
inductive UnaryOp where
  | not
  | negate
  deriving DecidableEq, Repr

/-- The operators that evaluate both operands. -/
inductive BinaryOp where
  | add | subtract | multiply | divide | remainder | power
  | equal | notEqual | greater | greaterEqual | less | lessEqual
  deriving DecidableEq, Repr

/-- The operators that may leave their right operand alone. -/
inductive LogicalOp where
  | and
  | or
  deriving DecidableEq, Repr

namespace UnaryOp

/-- How the operator is written. -/
def text : UnaryOp → String
  | not => "!"
  | negate => "-"

end UnaryOp

namespace BinaryOp

/-- How the operator is written. -/
def text : BinaryOp → String
  | add => "+"
  | subtract => "-"
  | multiply => "*"
  | divide => "/"
  | remainder => "%"
  | power => "^"
  | equal => "=="
  | notEqual => "!="
  | greater => ">"
  | greaterEqual => ">="
  | less => "<"
  | lessEqual => "<="

end BinaryOp

namespace LogicalOp

/-- How the operator is written. -/
def text : LogicalOp → String
  | and => "&&"
  | or => "||"

end LogicalOp

mutual

/-- An expression. -/
inductive Expr where
  | integer (pos : Position) (value : Int64)
  | float (pos : Position) (value : Float)
  | string (pos : Position) (value : String)
  | boolean (pos : Position) (value : Bool)
  | null (pos : Position)
  | undefined (pos : Position)
  | identifier (pos : Position) (name : String)
  | unary (pos : Position) (op : UnaryOp) (operand : Expr)
  | binary (pos : Position) (op : BinaryOp) (left right : Expr)
  | logical (pos : Position) (op : LogicalOp) (left right : Expr)
  | assign (pos : Position) (target : Target) (value : Expr)
  | call (pos : Position) (callee : Expr) (args : List Expr)
  | group (pos : Position) (inner : Expr)
  | array (pos : Position) (items : List Expr)
  | object (pos : Position) (entries : List Entry)
  | member (pos : Position) (object : Expr) (name : String)
  | index (pos : Position) (object key : Expr)
  | lambda (pos : Position) (routine : Routine)

/-- What an assignment writes to. -/
inductive Target where
  | name (name : String)
  | member (object : Expr) (name : String)
  | index (object key : Expr)

/-- One entry of an object literal. -/
structure Entry where
  key : String
  value : Expr

/-- The text of a function, a method or a lambda. -/
structure Routine where
  name : String
  params : List String
  body : List Stmt
  position : Position

/-- A statement. -/
inductive Stmt where
  | expression (pos : Position) (expr : Expr)
  | declare (pos : Position) (mode : Mode) (name : String) (init : Option Expr)
  | block (pos : Position) (body : List Stmt)
  | conditional (pos : Position) (test : Expr) (yes : Stmt) (no : Option Stmt)
  | whileLoop (pos : Position) (test : Expr) (body : Stmt)
  | forLoop (pos : Position) (init : Option Stmt) (test step : Option Expr) (body : Stmt)
  | foreachLoop (pos : Position) (name : String) (items : Expr) (body : Stmt)
  | function (pos : Position) (routine : Routine)
  | classDef (pos : Position) (name : String) (methods : List Routine)
  | returnStmt (pos : Position) (value : Option Expr)
  | breakStmt (pos : Position)
  | continueStmt (pos : Position)

end

/-- The name of every lambda. -/
def lambdaName : String := "<lambda>"

namespace Expr

/-- The position of the first token. -/
def position : Expr → Position
  | integer p _ | float p _ | string p _ | boolean p _ | null p | undefined p | identifier p _
  | unary p _ _ | binary p _ _ _ | logical p _ _ _ | assign p _ _ | call p _ _ | group p _
  | array p _ | object p _ | member p _ _ | index p _ _ | lambda p _ => p

end Expr

namespace Stmt

/-- The position of the first token. -/
def position : Stmt → Position
  | expression p _ | declare p _ _ _ | block p _ | conditional p _ _ _ | whileLoop p _ _
  | forLoop p _ _ _ _ | foreachLoop p _ _ _ | function p _ | classDef p _ _ | returnStmt p _
  | breakStmt p | continueStmt p => p

/-- What kind of statement it is, in words. -/
def kindName : Stmt → String
  | expression .. => "expression"
  | declare .. => "variable declaration"
  | block .. => "block"
  | conditional .. => "if"
  | whileLoop .. => "while"
  | forLoop .. => "for"
  | foreachLoop .. => "foreach"
  | function .. => "function declaration"
  | classDef .. => "class declaration"
  | returnStmt .. => "return"
  | breakStmt .. => "break"
  | continueStmt .. => "continue"

end Stmt

/-- A program: its statements in order. -/
structure Program where
  statements : List Stmt

end Scriptlet
