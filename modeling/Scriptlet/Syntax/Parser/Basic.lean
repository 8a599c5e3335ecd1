import Scriptlet.Syntax
import Scriptlet.Syntax.Error

/-!
# The parser's state and its smallest steps

The parser holds the tokens that are still to be read. The end of input is kept
apart from them and is never consumed, so looking at the next token always
succeeds and reading never runs past the end. A mistake aborts the rule that
meets it; where parsing resumes is the business of statement lists.
-/

namespace Scriptlet

/-- What the parser knows while reading. -/
structure ParserState where
  /-- The tokens still to be read, without the end of input. -/
  rest : List Token
  /-- The end of input. -/
  endToken : Token
  /-- How many blocks enclose the current place. -/
  blockDepth : Nat
  /-- The mistakes met so far, the latest first. -/
  mistakes : List ParseError

/-- Why a rule ends without a result. -/
inductive Abort where
  | mistake (error : ParseError)
  /-- The bound on the nesting of rules is used up. It exceeds the number of tokens, and every
  nested rule reads at least one, so this does not happen. -/
  | exhausted
  deriving DecidableEq, Repr

/-- A step that reads some tokens. -/
abbrev Parser := EStateM Abort ParserState

namespace ParserState

/-- The next token; at the end it is the end of input. -/
def next (s : ParserState) : Token := s.rest.headD s.endToken

end ParserState

namespace Parser

/-- The next token, which stays unread. -/
def peek : Parser Token := do
  return (← get).next

/-- Whether all tokens are read. -/
def atEnd : Parser Bool := do
  return (← get).rest.isEmpty

/-- Reads the next token. The end of input stays where it is. -/
def advance : Parser Token := do
  let s ← get
  set { s with rest := s.rest.tail }
  return s.next

/-- Whether the next token is of kind `k`. -/
def check (k : TokenKind) : Parser Bool := do
  return (← peek).kind = k

/-- Whether the next token is the symbol `s`. -/
def checkSymbol (s : Symbol) : Parser Bool := check (.symbol s)

/-- Reads a token of kind `k` if it is next; says whether it was. -/
def accept (k : TokenKind) : Parser Bool := do
  if ← check k then
    let _ ← advance
    return true
  else
    return false

/-- Reports `e` at the next token. -/
def failHere {α : Type} (e : Expectation) : Parser α := do
  throw (.mistake ⟨e, ← peek⟩)

/-- Reads a token of kind `k`, and reports `e` if another one is next. -/
def expect (k : TokenKind) (e : Expectation) : Parser Token := do
  if ← check k then advance else failHere e

/-- Reads the symbol `s`, which the place described asks for. -/
def expectSymbol (s : Symbol) (place : String) : Parser Unit := do
  let _ ← expect (.symbol s) (.symbol s place)

/-- Reads a name. -/
def expectName (what : String) : Parser Token :=
  expect .identifier (.item what)

/-- Reads the semicolon that ends a statement. It may be missing before a closing brace and at the
end of input. -/
def expectTerminator (place : String) : Parser Unit := do
  if ← accept (.symbol .semicolon) then return
  if ← checkSymbol .rightBrace then return
  if ← atEnd then return
  failHere (.symbol .semicolon place)

/-- One or more items with a comma between any two. -/
def commaList {α : Type} (item : Parser α) : (fuel : Nat) → Parser (List α)
  | 0 => throw .exhausted
  | fuel + 1 => do
    let first ← item
    if ← accept (.symbol .comma) then
      return first :: (← commaList item fuel)
    else
      return [first]

/-- Items up to the symbol `close`, which is left unread: none, or some with a comma between any two
and perhaps one after the last. -/
def looseCommaList {α : Type} (close : Symbol) (item : Parser α) : (fuel : Nat) → Parser (List α)
  | 0 => throw .exhausted
  | fuel + 1 => do
    if ← checkSymbol close then return []
    let first ← item
    if ← accept (.symbol .comma) then
      return first :: (← looseCommaList close item fuel)
    else
      return [first]

/-- Items up to a closing brace or the end of input, which are left unread. -/
def itemsToBrace {α : Type} (item : Parser α) : (fuel : Nat) → Parser (List α)
  | 0 => throw .exhausted
  | fuel + 1 => do
    if (← checkSymbol .rightBrace) || (← atEnd) then return []
    let first ← item
    return first :: (← itemsToBrace item fuel)

/-- The parameter names of a routine, in parentheses. -/
def parameters (fuel : Nat) : Parser (List String) := do
  expectSymbol .leftParen "before parameters"
  let params ←
    if ← checkSymbol .rightParen then pure []
    else commaList (return (← expectName "parameter name").lexeme) fuel
  expectSymbol .rightParen "after parameters"
  return params

end Parser

/-- The tokens after a mistake at which the parser resumes: just after a semicolon, at a word that
begins a statement, or at the brace that closes the enclosing block. -/
def resume (inBlock : Bool) : List Token → List Token
  | [] => []
  | t :: rest =>
    if t.kind.startsStatement || (inBlock && t.kind = .symbol .rightBrace) then t :: rest
    else if t.kind = .symbol .semicolon then rest
    else resume inBlock rest

namespace Parser

/-- Runs `item`; after a mistake records it, skips to where parsing resumes, and gives no result. -/
def recovering {α : Type} (item : Parser α) : Parser (Option α) := do
  try
    return some (← item)
  catch
    | .mistake e => do
      modify fun s => { s with
        mistakes := e :: s.mistakes
        rest := resume (0 < s.blockDepth) s.rest }
      return none
    | .exhausted => throw .exhausted

end Parser

end Scriptlet
