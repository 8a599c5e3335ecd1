import Scriptlet.Syntax.Parser.Expression

/-!
# The grammar of statements

As for expressions, a rule's `rules` parse what follows a token it has read, and
`fuel` exceeds the number of unread tokens.
-/

namespace Scriptlet.Parser

/-- A declared name after the word `let` or `const` at `p`, its value, and the end of the
declaration. A constant must have a value. -/
def variableDeclaration (rules : Rules) (p : Position) (mode : Mode) : Parser Stmt := do
  let name ← expectName "variable name"
  let init ←
    if ← accept (.symbol .equal) then pure (some (← rules .expression))
    else pure none
  if mode = .constant && init.isNone then
    failHere (.symbol .equal "after constant name")
  expectTerminator "after variable declaration"
  return .declare p mode name.lexeme init

/-- A name, parameters and a body; `what` says whether it is a function or a method. -/
def routine (rules : Rules) (fuel : Nat) (what : String) : Parser Routine := do
  let name ← expectName (what ++ " name")
  let params ← parameters fuel
  expectSymbol .leftBrace ("before " ++ what ++ " body")
  let body ← block rules fuel
  return ⟨name.lexeme, params, body, name.position⟩

/-- A method of a class. The word `function` before it may be left out. -/
def method (rules : Rules) (fuel : Nat) : Parser Routine := do
  let _ ← accept (.keyword .functionWord)
  routine rules fuel "method"

/-- The name and the methods of a class after the word `class` at `p`. -/
def classDefinition (rules : Rules) (fuel : Nat) (p : Position) : Parser Stmt := do
  let name ← expectName "class name"
  expectSymbol .leftBrace "before class body"
  let methods ← itemsToBrace (method rules fuel) fuel
  expectSymbol .rightBrace "after class body"
  return .classDef p name.lexeme methods

/-- The test and the branches of a conditional. An `else` belongs to the nearest one. -/
def conditional (rules : Rules) (p : Position) : Parser Stmt := do
  expectSymbol .leftParen "after `if`"
  let test ← rules .expression
  expectSymbol .rightParen "after if condition"
  let yes ← rules .statement
  let no ←
    if ← accept (.keyword .elseWord) then pure (some (← rules .statement))
    else pure none
  return .conditional p test yes no

/-- The test and the body of a `while` loop. -/
def whileLoop (rules : Rules) (p : Position) : Parser Stmt := do
  expectSymbol .leftParen "after `while`"
  let test ← rules .expression
  expectSymbol .rightParen "after while condition"
  return .whileLoop p test (← rules .statement)

/-- What a `for` loop starts with: nothing, a declaration or an expression. -/
def loopStart (rules : Rules) : Parser (Option Stmt) := do
  let t ← peek
  match t.kind with
  | .symbol .semicolon =>
    let _ ← advance
    return none
  | .keyword .letWord =>
    let _ ← advance
    return some (← variableDeclaration rules t.position .mutable)
  | .keyword .constWord =>
    let _ ← advance
    return some (← variableDeclaration rules t.position .constant)
  | _ =>
    let e ← rules .expression
    expectSymbol .semicolon "after loop initializer"
    return some (.expression t.position e)

/-- The expression before the symbol `close`, unless that comes at once. -/
def optionalBefore (rules : Rules) (close : Symbol) : Parser (Option Expr) := do
  if ← checkSymbol close then return none
  else return some (← rules .expression)

/-- The clauses and the body of a `for` loop. -/
def forLoop (rules : Rules) (p : Position) : Parser Stmt := do
  expectSymbol .leftParen "after `for`"
  let init ← loopStart rules
  let test ← optionalBefore rules .semicolon
  expectSymbol .semicolon "after loop condition"
  let step ← optionalBefore rules .rightParen
  expectSymbol .rightParen "after for clauses"
  return .forLoop p init test step (← rules .statement)

/-- The variable, the items and the body of a `foreach` loop. The word `in` may stand for the
colon, and `let` may stand before the variable. -/
def foreachLoop (rules : Rules) (p : Position) : Parser Stmt := do
  expectSymbol .leftParen "after `foreach`"
  let _ ← accept (.keyword .letWord)
  let name ← expectName "loop variable name"
  let t ← peek
  if t.kind = .identifier && t.lexeme = "in" then
    let _ ← advance
  else
    expectSymbol .colon "after loop variable"
  let items ← rules .expression
  expectSymbol .rightParen "after foreach iterable"
  return .foreachLoop p name.lexeme items (← rules .statement)

/-- What follows the word `return`. -/
def returnStatement (rules : Rules) (p : Position) : Parser Stmt := do
  let value ←
    if (← checkSymbol .semicolon) || (← checkSymbol .rightBrace) || (← atEnd) then pure none
    else pure (some (← rules .expression))
  expectTerminator "after return value"
  return .returnStmt p value

/-- A statement that is no declaration. -/
def statement (rules : Rules) (fuel : Nat) : Parser Stmt := do
  let t ← peek
  let p := t.position
  match t.kind with
  | .keyword .ifWord =>
    let _ ← advance
    conditional rules p
  | .keyword .whileWord =>
    let _ ← advance
    whileLoop rules p
  | .keyword .forWord =>
    let _ ← advance
    forLoop rules p
  | .keyword .foreachWord =>
    let _ ← advance
    foreachLoop rules p
  | .keyword .returnWord =>
    let _ ← advance
    returnStatement rules p
  | .keyword .breakWord =>
    let _ ← advance
    expectTerminator "after `break`"
    return .breakStmt p
  | .keyword .continueWord =>
    let _ ← advance
    expectTerminator "after `continue`"
    return .continueStmt p
  | .symbol .leftBrace =>
    let _ ← advance
    return .block p (← block rules fuel)
  | _ =>
    let e ← expression rules fuel
    expectTerminator "after expression"
    return .expression p e

/-- A declaration or a statement. -/
def declaration (rules : Rules) (fuel : Nat) : Parser Stmt := do
  let t ← peek
  let p := t.position
  match t.kind with
  | .keyword .letWord =>
    let _ ← advance
    variableDeclaration rules p .mutable
  | .keyword .constWord =>
    let _ ← advance
    variableDeclaration rules p .constant
  | .keyword .functionWord =>
    let _ ← advance
    return .function p (← routine rules fuel "function")
  | .keyword .classWord =>
    let _ ← advance
    classDefinition rules fuel p
  | _ => statement rules fuel

end Scriptlet.Parser
