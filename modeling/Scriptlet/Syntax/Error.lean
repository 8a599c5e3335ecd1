import Scriptlet.Token

/-!
# Mistakes in a source text

A mistake is either a fault of the text itself, found by the scanner, or a token
that the grammar does not expect, found by the parser. Each has a position and a
message.
-/

namespace Scriptlet

/-- What the grammar asks for where it meets an unexpected token. -/
inductive Expectation where
  /-- The symbol `s`, at the place described. -/
  | symbol (s : Symbol) (place : String)
  /-- Something that is no fixed symbol, such as a name. -/
  | item (what : String)
  /-- A number literal that can be read. -/
  | validNumber
  /-- A name, a member or an index to the left of an assignment. -/
  | validTarget
  deriving DecidableEq, Repr

namespace Expectation

/-- The expectation in words. -/
def message : Expectation → String
  | symbol s place => "expected `" ++ s.text ++ "` " ++ place
  | item what => "expected " ++ what
  | validNumber => "invalid number literal"
  | validTarget => "invalid assignment target"

end Expectation

/-- A token that does not fit, and what would have. -/
structure ParseError where
  expectation : Expectation
  found : Token
  deriving DecidableEq, Repr

namespace ParseError

/-- The mistake in words. -/
def message (e : ParseError) : String :=
  e.expectation.message ++ ", found " ++ e.found.describe

end ParseError

/-- A mistake in a source text. -/
inductive SyntaxError where
  | lexical (fault : Fault) (position : Position)
  | parse (error : ParseError)
  deriving DecidableEq, Repr

namespace SyntaxError

/-- Where the mistake is. -/
def position : SyntaxError → Position
  | lexical _ p => p
  | parse e => e.found.position

/-- The mistake in words. -/
def message : SyntaxError → String
  | lexical f _ => f.message
  | parse e => e.message

end SyntaxError

end Scriptlet
