import Scriptlet.Number.Decimal
import Scriptlet.Syntax.Parser.Rule

/-!
# The grammar of expressions

From the loosest to the tightest: assignment, infix operators by level, unary
operators, calls and accesses, primary expressions. A rule's `rules` parse what
follows a token it has read; `fuel` exceeds the number of unread tokens and
bounds its loops.
-/

namespace Scriptlet

/-- An infix operator. -/
inductive Infix where
  | binary (op : BinaryOp)
  | logical (op : LogicalOp)
  deriving DecidableEq, Repr

namespace Infix

/-- The infix operator that a token stands for. -/
def ofKind? : TokenKind → Option Infix
  | .symbol .orOr => some (logical .or)
  | .symbol .andAnd => some (logical .and)
  | .symbol .equalEqual => some (binary .equal)
  | .symbol .bangEqual => some (binary .notEqual)
  | .symbol .greater => some (binary .greater)
  | .symbol .greaterEqual => some (binary .greaterEqual)
  | .symbol .less => some (binary .less)
  | .symbol .lessEqual => some (binary .lessEqual)
  | .symbol .plus => some (binary .add)
  | .symbol .minus => some (binary .subtract)
  | .symbol .star => some (binary .multiply)
  | .symbol .slash => some (binary .divide)
  | .symbol .percent => some (binary .remainder)
  | .symbol .caret => some (binary .power)
  | _ => none

/-- How tightly the operator binds. -/
def level : Infix → Nat
  | logical .or => 1
  | logical .and => 2
  | binary .equal | binary .notEqual => 3
  | binary .greater | binary .greaterEqual | binary .less | binary .lessEqual => 4
  | binary .add | binary .subtract => 5
  | binary .multiply | binary .divide | binary .remainder => 6
  | binary .power => 7

/-- The least level of the operators within its right operand: only `^` groups to the right. -/
def rightLevel (op : Infix) : Nat :=
  if op = binary .power then op.level else op.level + 1

/-- The expression that joins two operands. It starts where the left one starts. -/
def join (op : Infix) (left right : Expr) : Expr :=
  match op with
  | binary op => .binary left.position op left right
  | logical op => .logical left.position op left right

end Infix

/-- The unary operator that a token stands for. -/
def UnaryOp.ofKind? : TokenKind → Option UnaryOp
  | .symbol .bang => some .not
  | .symbol .minus => some .negate
  | _ => none

/-- The literal of a number token: an integer if it is written without a point and fits, else the
nearest floating point number. -/
def numberLiteral? (t : Token) : Option Expr :=
  let float := (Number.readFloat? t.lexeme).map (Expr.float t.position)
  if t.lexeme.toList.contains '.' then float
  else
    match Number.readInteger? t.lexeme with
    | some n => some (.integer t.position n)
    | none => float

/-- What an assignment to the expression writes to, if it can be assigned to. -/
def Expr.target? : Expr → Option Target
  | .identifier _ name => some (.name name)
  | .member _ owner name => some (.member owner name)
  | .index _ owner key => some (.index owner key)
  | _ => none

/-- Whether the tokens after an opening parenthesis are names with commas between them, a closing
parenthesis and an arrow; there is at least one name. -/
def namesThenArrow : List Token → Bool
  | ⟨.identifier, _, _⟩ :: ⟨.symbol .comma, _, _⟩ :: rest => namesThenArrow rest
  | ⟨.identifier, _, _⟩ :: ⟨.symbol .rightParen, _, _⟩ :: ⟨.symbol .arrow, _, _⟩ :: _ => true
  | _ => false

/-- Whether the tokens begin with the parameters of a lambda and its arrow. -/
def startsLambda : List Token → Bool
  | ⟨.symbol .leftParen, _, _⟩ :: ⟨.symbol .rightParen, _, _⟩ :: ⟨.symbol .arrow, _, _⟩ :: _ => true
  | ⟨.symbol .leftParen, _, _⟩ :: rest => namesThenArrow rest
  | _ => false

namespace Parser

/-- The arguments of a call after the opening parenthesis, and the closing one. -/
def arguments (rules : Rules) (fuel : Nat) : Parser (List Expr) := do
  let args ←
    if ← checkSymbol .rightParen then pure []
    else commaList (rules .expression) fuel
  expectSymbol .rightParen "after arguments"
  return args

/-- A key with its value in an object literal. -/
def entry (rules : Rules) : Parser Entry := do
  let t ← peek
  if t.kind = .identifier || t.kind = .string then
    let _ ← advance
    expectSymbol .colon "after property name"
    return ⟨t.lexeme, ← rules .expression⟩
  else
    failHere (.item "property name")

/-- A lambda. A body that is an expression is the body that returns it. -/
def lambda (rules : Rules) (fuel : Nat) : Parser Expr := do
  let position := (← peek).position
  let params ← parameters fuel
  expectSymbol .arrow "after lambda parameters"
  let body ←
    if ← accept (.symbol .leftBrace) then block rules fuel
    else
      let value ← rules .expression
      pure [.returnStmt value.position (some value)]
  return .lambda position ⟨lambdaName, params, body, position⟩

/-- A literal, a name, a lambda, or an expression in brackets of some kind. -/
def primary (rules : Rules) (fuel : Nat) : Parser Expr := do
  let t ← peek
  let p := t.position
  match t.kind with
  | .number =>
    let _ ← advance
    match numberLiteral? t with
    | some e => return e
    | none => throw (.mistake ⟨.validNumber, t⟩)
  | .string =>
    let _ ← advance
    return .string p t.lexeme
  | .keyword .trueWord =>
    let _ ← advance
    return .boolean p true
  | .keyword .falseWord =>
    let _ ← advance
    return .boolean p false
  | .keyword .nullWord =>
    let _ ← advance
    return .null p
  | .keyword .undefinedWord =>
    let _ ← advance
    return .undefined p
  | .identifier =>
    let _ ← advance
    return .identifier p t.lexeme
  | .symbol .leftParen =>
    if startsLambda (← get).rest then lambda rules fuel
    else
      let _ ← advance
      let inner ← rules .expression
      expectSymbol .rightParen "after expression"
      return .group p inner
  | .symbol .leftBracket =>
    let _ ← advance
    let items ← looseCommaList .rightBracket (rules .expression) fuel
    expectSymbol .rightBracket "after array elements"
    return .array p items
  | .symbol .leftBrace =>
    let _ ← advance
    let entries ← looseCommaList .rightBrace (entry rules) fuel
    expectSymbol .rightBrace "after object literal"
    return .object p entries
  | _ => failHere (.item "expression")

/-- The calls, members and indexes that follow `e`. -/
def accesses (rules : Rules) : (fuel : Nat) → Expr → Parser Expr
  | 0, _ => throw .exhausted
  | fuel + 1, e => do
    if ← accept (.symbol .leftParen) then
      let args ← arguments rules fuel
      accesses rules fuel (.call e.position e args)
    else if ← accept (.symbol .dot) then
      let name ← expectName "property name after `.`"
      accesses rules fuel (.member e.position e name.lexeme)
    else if ← accept (.symbol .leftBracket) then
      let key ← rules .expression
      expectSymbol .rightBracket "after index"
      accesses rules fuel (.index e.position e key)
    else
      return e

/-- A unary operator and its operand, or a primary expression with its accesses. -/
def unary (rules : Rules) (fuel : Nat) : Parser Expr := do
  match UnaryOp.ofKind? (← peek).kind with
  | some op =>
    let t ← advance
    return .unary t.position op (← rules .unary)
  | none => accesses rules fuel (← primary rules fuel)

/-- The infix operators of at least level `level` that follow `left`, with their right operands. -/
def climb (rules : Rules) (level : Nat) : (fuel : Nat) → Expr → Parser Expr
  | 0, _ => throw .exhausted
  | fuel + 1, left => do
    match Infix.ofKind? (← peek).kind with
    | some op =>
      if op.level < level then return left
      else
        let _ ← advance
        let right ← rules (.operand op.rightLevel)
        climb rules level fuel (op.join left right)
    | none => return left

/-- Unary expressions joined by infix operators of at least level `level`. -/
def operand (rules : Rules) (fuel : Nat) (level : Nat) : Parser Expr := do
  climb rules level fuel (← unary rules fuel)

/-- An expression: operators of any level, or an assignment to such an expression. What may be
assigned to is checked only after the assigned value is read. -/
def expression (rules : Rules) (fuel : Nat) : Parser Expr := do
  let left ← operand rules fuel 1
  if ← checkSymbol .equal then
    let equals ← advance
    let value ← rules .expression
    match left.target? with
    | some target => return .assign left.position target value
    | none => throw (.mistake ⟨.validTarget, equals⟩)
  else
    return left

end Parser

end Scriptlet
