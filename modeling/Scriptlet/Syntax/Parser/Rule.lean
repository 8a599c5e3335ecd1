import Scriptlet.Syntax.Parser.Basic

/-!
# The rules of the grammar that refer to each other

A rule of the grammar may refer to any of these rules, but only for what follows
a token that it has read itself. So the number of unread tokens bounds how deep
rules nest, and `Rule.parse` ties them together by recursion on such a bound.
-/

namespace Scriptlet

/-- The rules that other rules refer to, each with what it yields. -/
inductive Rule : Type → Type 1 where
  /-- An expression, assignments included. -/
  | expression : Rule Expr
  /-- An operand of an operator: operators of at least the given level bind within it. -/
  | operand (level : Nat) : Rule Expr
  /-- An operand of a unary operator. -/
  | unary : Rule Expr
  /-- A declaration or a statement. -/
  | declaration : Rule Stmt
  /-- A statement that is no declaration. -/
  | statement : Rule Stmt

/-- The parsers of the rules, for a rule to refer to. -/
abbrev Rules := {α : Type} → Rule α → Parser α

/-- The statements of a block after its opening brace, and the brace that closes it. Mistakes inside
are recorded here, and reading resumes at the next statement of the block. -/
def Parser.block (rules : Rules) (fuel : Nat) : Parser (List Stmt) := do
  modify fun s => { s with blockDepth := s.blockDepth + 1 }
  let body ← itemsToBrace (recovering (rules .declaration)) fuel
  modify fun s => { s with blockDepth := s.blockDepth - 1 }
  expectSymbol .rightBrace "after block"
  return body.filterMap id

end Scriptlet
