import Scriptlet.Proofs.Syntax.Grammar

/-!
# Printing

`Program.print` writes a program as tokens, with a semicolon after every simple
statement and without any parentheses of its own. A token is given by what it says
(`Mark`); its position does not matter, nor does the spelling of a number, as long
as it is read as that number.

Not every tree is the tree of a program. `wellFormed` says which are: operands
bind as tightly as their operator asks for, an expression that is a statement does
not start with a brace, a body is no declaration, and a branch before an `else`
does not end with a conditional that would take it.

`bare` forgets all positions, so two trees that differ only in positions have the
same bare tree.
-/

namespace Scriptlet

/-- What a token says. -/
inductive Mark where
  | keyword (word : Keyword)
  | symbol (symbol : Symbol)
  | name (text : String)
  | text (text : String)
  | integer (value : Int64)
  | float (value : Float)

/-- Whether a token says what the mark says. -/
def Mark.Matches : Mark → Token → Prop
  | .keyword w, t => t.kind = .keyword w
  | .symbol k, t => t.kind = .symbol k
  | .name x, t => t.kind = .identifier ∧ t.lexeme = x
  | .text x, t => t.kind = .string ∧ t.lexeme = x
  | .integer n, t => t.kind = .number ∧ numberLiteral? t = some (.integer t.position n)
  | .float x, t => t.kind = .number ∧ numberLiteral? t = some (.float t.position x)

/-- The symbol of the operator. -/
def UnaryOp.symbol : UnaryOp → Symbol
  | .not => .bang
  | .negate => .minus

/-- The symbol of the operator. -/
def Infix.symbol : Infix → Symbol
  | .logical .or => .orOr
  | .logical .and => .andAnd
  | .binary .equal => .equalEqual
  | .binary .notEqual => .bangEqual
  | .binary .greater => .greater
  | .binary .greaterEqual => .greaterEqual
  | .binary .less => .less
  | .binary .lessEqual => .lessEqual
  | .binary .add => .plus
  | .binary .subtract => .minus
  | .binary .multiply => .star
  | .binary .divide => .slash
  | .binary .remainder => .percent
  | .binary .power => .caret

/-- Pieces with a comma between any two. -/
def separated : List (List Mark) → List Mark
  | [] => []
  | [ms] => ms
  | ms :: ms' :: rest => ms ++ .symbol .comma :: separated (ms' :: rest)

/-- Marks in brackets. -/
def bracketed (left right : Symbol) (ms : List Mark) : List Mark :=
  .symbol left :: (ms ++ [.symbol right])

/-- The parameters of a routine, in parentheses. -/
def printParams (params : List String) : List Mark :=
  bracketed .leftParen .rightParen (separated (params.map fun x => [.name x]))

mutual

/-- The tokens of an expression. -/
def Expr.print : Expr → List Mark
  | .integer _ n => [.integer n]
  | .float _ x => [.float x]
  | .string _ s => [.text s]
  | .boolean _ b => [.keyword (if b then .trueWord else .falseWord)]
  | .null _ => [.keyword .nullWord]
  | .undefined _ => [.keyword .undefinedWord]
  | .identifier _ x => [.name x]
  | .unary _ op x => .symbol op.symbol :: x.print
  | .binary _ op l r => l.print ++ .symbol (Infix.binary op).symbol :: r.print
  | .logical _ op l r => l.print ++ .symbol (Infix.logical op).symbol :: r.print
  | .assign _ target value => target.print ++ .symbol .equal :: value.print
  | .call _ callee args =>
    callee.print ++ bracketed .leftParen .rightParen (separated (printExprs args))
  | .group _ inner => bracketed .leftParen .rightParen inner.print
  | .array _ items => bracketed .leftBracket .rightBracket (separated (printExprs items))
  | .object _ entries => bracketed .leftBrace .rightBrace (separated (printEntries entries))
  | .member _ owner x => owner.print ++ [.symbol .dot, .name x]
  | .index _ owner key => owner.print ++ bracketed .leftBracket .rightBracket key.print
  | .lambda _ r => r.printLambda

/-- The tokens of the left side of an assignment. -/
def Target.print : Target → List Mark
  | .name x => [.name x]
  | .member owner x => owner.print ++ [.symbol .dot, .name x]
  | .index owner key => owner.print ++ bracketed .leftBracket .rightBracket key.print

/-- The tokens of each expression. -/
def printExprs : List Expr → List (List Mark)
  | [] => []
  | e :: es => e.print :: printExprs es

/-- The tokens of an entry of an object literal. -/
def Entry.print : Entry → List Mark
  | ⟨key, value⟩ => .text key :: .symbol .colon :: value.print

/-- The tokens of each entry. -/
def printEntries : List Entry → List (List Mark)
  | [] => []
  | e :: es => e.print :: printEntries es

/-- The tokens of a lambda. -/
def Routine.printLambda : Routine → List Mark
  | ⟨_, params, body, _⟩ =>
    printParams params ++ .symbol .arrow :: bracketed .leftBrace .rightBrace (printStmts body)

/-- The tokens of a function or a method after the word `function`. -/
def Routine.print : Routine → List Mark
  | ⟨x, params, body, _⟩ =>
    .name x :: (printParams params ++ bracketed .leftBrace .rightBrace (printStmts body))

/-- The tokens of methods. -/
def printMethods : List Routine → List Mark
  | [] => []
  | r :: rs => r.print ++ printMethods rs

/-- The tokens of an expression that may be left out. -/
def printClause : Option Expr → List Mark
  | none => []
  | some e => e.print

/-- The tokens of a value that may be left out, after the name that it is for. -/
def printInit : Option Expr → List Mark
  | none => []
  | some e => .symbol .equal :: e.print

/-- The tokens of a branch that may be left out. -/
def printElse : Option Stmt → List Mark
  | none => []
  | some s => .keyword .elseWord :: s.print

/-- The tokens that a `for` loop starts with. -/
def printStart : Option Stmt → List Mark
  | none => [.symbol .semicolon]
  | some s => s.print

/-- The tokens of a statement. -/
def Stmt.print : Stmt → List Mark
  | .expression _ e => e.print ++ [.symbol .semicolon]
  | .declare _ mode x init => .keyword mode.word :: .name x :: (printInit init ++ [.symbol .semicolon])
  | .block _ body => bracketed .leftBrace .rightBrace (printStmts body)
  | .conditional _ test yes no =>
    .keyword .ifWord :: (bracketed .leftParen .rightParen test.print ++ (yes.print ++ printElse no))
  | .whileLoop _ test body =>
    .keyword .whileWord :: (bracketed .leftParen .rightParen test.print ++ body.print)
  | .forLoop _ init test step body =>
    .keyword .forWord :: .symbol .leftParen :: (printStart init ++ (printClause test ++
      .symbol .semicolon :: (printClause step ++ .symbol .rightParen :: body.print)))
  | .foreachLoop _ x items body =>
    .keyword .foreachWord :: .symbol .leftParen :: .name x :: .symbol .colon ::
      (items.print ++ .symbol .rightParen :: body.print)
  | .function _ r => .keyword .functionWord :: r.print
  | .classDef _ x methods =>
    .keyword .classWord :: .name x :: bracketed .leftBrace .rightBrace (printMethods methods)
  | .returnStmt _ value => .keyword .returnWord :: (printClause value ++ [.symbol .semicolon])
  | .breakStmt _ => [.keyword .breakWord, .symbol .semicolon]
  | .continueStmt _ => [.keyword .continueWord, .symbol .semicolon]

/-- The tokens of statements. -/
def printStmts : List Stmt → List Mark
  | [] => []
  | s :: ss => s.print ++ printStmts ss

end

/-- The tokens of a program. -/
def Program.print (p : Program) : List Mark := printStmts p.statements

/-! ## Well-formed trees -/

/-- Whether the marks start with an opening brace. -/
def startsBrace : List Mark → Bool
  | .symbol .leftBrace :: _ => true
  | _ => false

/-- Whether an `else` after the statement would be taken by a conditional within it. -/
def Stmt.endsOpen : Stmt → Bool
  | .conditional _ _ _ none => true
  | .conditional _ _ _ (some no) => no.endsOpen
  | .whileLoop _ _ body | .forLoop _ _ _ _ body | .foreachLoop _ _ _ body => body.endsOpen
  | _ => false

mutual

/-- Whether operands within the expression bind as tightly as they must, and all statements within
it are well-formed. -/
def Expr.wellFormed : Expr → Bool
  | .integer .. | .float .. | .string .. | .boolean .. | .null .. | .undefined .. | .identifier .. =>
    true
  | .unary _ _ x => unaryLevel ≤ x.level && x.wellFormed
  | .binary _ op l r =>
    (Infix.binary op).leftLevel ≤ l.level && (Infix.binary op).rightLevel ≤ r.level &&
      l.wellFormed && r.wellFormed
  | .logical _ op l r =>
    (Infix.logical op).leftLevel ≤ l.level && (Infix.logical op).rightLevel ≤ r.level &&
      l.wellFormed && r.wellFormed
  | .assign _ target value => target.wellFormed && value.wellFormed
  | .call _ callee args => postfixLevel ≤ callee.level && callee.wellFormed && wellFormedExprs args
  | .group _ inner => inner.wellFormed
  | .array _ items => wellFormedExprs items
  | .object _ entries => wellFormedEntries entries
  | .member _ owner _ => postfixLevel ≤ owner.level && owner.wellFormed
  | .index _ owner key => postfixLevel ≤ owner.level && owner.wellFormed && key.wellFormed
  | .lambda _ r => r.name = lambdaName && r.wellFormed

/-- As for expressions: the owner of a member or an index binds tighter than operators. -/
def Target.wellFormed : Target → Bool
  | .name _ => true
  | .member owner _ => postfixLevel ≤ owner.level && owner.wellFormed
  | .index owner key => postfixLevel ≤ owner.level && owner.wellFormed && key.wellFormed

/-- Whether all expressions are well-formed. -/
def wellFormedExprs : List Expr → Bool
  | [] => true
  | e :: es => e.wellFormed && wellFormedExprs es

/-- Whether the value of the entry is well-formed. -/
def Entry.wellFormed : Entry → Bool
  | ⟨_, value⟩ => value.wellFormed

/-- Whether all entries are well-formed. -/
def wellFormedEntries : List Entry → Bool
  | [] => true
  | e :: es => e.wellFormed && wellFormedEntries es

/-- Whether the body of the routine is well-formed. -/
def Routine.wellFormed : Routine → Bool
  | ⟨_, _, body, _⟩ => wellFormedStmts body

/-- Whether all routines are well-formed. -/
def wellFormedRoutines : List Routine → Bool
  | [] => true
  | r :: rs => r.wellFormed && wellFormedRoutines rs

/-- Whether the expression is well-formed or left out. -/
def wellFormedClause : Option Expr → Bool
  | none => true
  | some e => e.wellFormed

/-- Whether the branch is well-formed or left out. -/
def wellFormedElse : Option Stmt → Bool
  | none => true
  | some s => !s.isDeclaration && s.wellFormed

/-- Whether a `for` loop may start so: with nothing, a variable or an expression. The expression may
start with a brace. -/
def wellFormedStart : Option Stmt → Bool
  | none => true
  | some (.expression _ e) => e.wellFormed
  | some (.declare _ mode _ init) => (mode = .mutable || init.isSome) && wellFormedClause init
  | some _ => false

/-- Whether the statement can be read back from its tokens. -/
def Stmt.wellFormed : Stmt → Bool
  | .expression _ e => !startsBrace e.print && e.wellFormed
  | .declare _ mode _ init => (mode = .mutable || init.isSome) && wellFormedClause init
  | .block _ body => wellFormedStmts body
  | .conditional _ test yes no =>
    test.wellFormed && !yes.isDeclaration && yes.wellFormed && (no.isNone || !yes.endsOpen) &&
      wellFormedElse no
  | .whileLoop _ test body => test.wellFormed && !body.isDeclaration && body.wellFormed
  | .forLoop _ init test step body =>
    wellFormedStart init && wellFormedClause test && wellFormedClause step &&
      !body.isDeclaration && body.wellFormed
  | .foreachLoop _ _ items body => items.wellFormed && !body.isDeclaration && body.wellFormed
  | .function _ r => r.wellFormed
  | .classDef _ _ methods => wellFormedRoutines methods
  | .returnStmt _ value => wellFormedClause value
  | .breakStmt _ | .continueStmt _ => true

/-- Whether all statements are well-formed. -/
def wellFormedStmts : List Stmt → Bool
  | [] => true
  | s :: ss => s.wellFormed && wellFormedStmts ss

end

/-- Whether the program can be read back from its tokens. -/
def Program.wellFormed (p : Program) : Bool := wellFormedStmts p.statements

/-! ## Trees without positions -/

mutual

/-- The expression with all positions forgotten. -/
def Expr.bare : Expr → Expr
  | .integer _ n => .integer .start n
  | .float _ x => .float .start x
  | .string _ s => .string .start s
  | .boolean _ b => .boolean .start b
  | .null _ => .null .start
  | .undefined _ => .undefined .start
  | .identifier _ x => .identifier .start x
  | .unary _ op x => .unary .start op x.bare
  | .binary _ op l r => .binary .start op l.bare r.bare
  | .logical _ op l r => .logical .start op l.bare r.bare
  | .assign _ target value => .assign .start target.bare value.bare
  | .call _ callee args => .call .start callee.bare (bareExprs args)
  | .group _ inner => .group .start inner.bare
  | .array _ items => .array .start (bareExprs items)
  | .object _ entries => .object .start (bareEntries entries)
  | .member _ owner x => .member .start owner.bare x
  | .index _ owner key => .index .start owner.bare key.bare
  | .lambda _ r => .lambda .start r.bare

/-- The left side of an assignment with all positions forgotten. -/
def Target.bare : Target → Target
  | .name x => .name x
  | .member owner x => .member owner.bare x
  | .index owner key => .index owner.bare key.bare

/-- Expressions with all positions forgotten. -/
def bareExprs : List Expr → List Expr
  | [] => []
  | e :: es => e.bare :: bareExprs es

/-- An entry with all positions forgotten. -/
def Entry.bare : Entry → Entry
  | ⟨key, value⟩ => ⟨key, value.bare⟩

/-- Entries with all positions forgotten. -/
def bareEntries : List Entry → List Entry
  | [] => []
  | e :: es => e.bare :: bareEntries es

/-- A routine with all positions forgotten. -/
def Routine.bare : Routine → Routine
  | ⟨x, params, body, _⟩ => ⟨x, params, bareStmts body, .start⟩

/-- Routines with all positions forgotten. -/
def bareRoutines : List Routine → List Routine
  | [] => []
  | r :: rs => r.bare :: bareRoutines rs

/-- An expression that may be left out, with all positions forgotten. -/
def bareClause : Option Expr → Option Expr
  | none => none
  | some e => some e.bare

/-- A statement that may be left out, with all positions forgotten. -/
def bareBranch : Option Stmt → Option Stmt
  | none => none
  | some s => some s.bare

/-- The statement with all positions forgotten. -/
def Stmt.bare : Stmt → Stmt
  | .expression _ e => .expression .start e.bare
  | .declare _ mode x init => .declare .start mode x (bareClause init)
  | .block _ body => .block .start (bareStmts body)
  | .conditional _ test yes no => .conditional .start test.bare yes.bare (bareBranch no)
  | .whileLoop _ test body => .whileLoop .start test.bare body.bare
  | .forLoop _ init test step body =>
    .forLoop .start (bareBranch init) (bareClause test) (bareClause step) body.bare
  | .foreachLoop _ x items body => .foreachLoop .start x items.bare body.bare
  | .function _ r => .function .start r.bare
  | .classDef _ x methods => .classDef .start x (bareRoutines methods)
  | .returnStmt _ value => .returnStmt .start (bareClause value)
  | .breakStmt _ => .breakStmt .start
  | .continueStmt _ => .continueStmt .start

/-- Statements with all positions forgotten. -/
def bareStmts : List Stmt → List Stmt
  | [] => []
  | s :: ss => s.bare :: bareStmts ss

end

attribute [simp] Expr.bare Target.bare bareExprs Entry.bare bareEntries Routine.bare bareRoutines
  bareClause bareBranch Stmt.bare bareStmts

/-- The program with all positions forgotten. -/
def Program.bare (p : Program) : Program := ⟨bareStmts p.statements⟩

end Scriptlet
