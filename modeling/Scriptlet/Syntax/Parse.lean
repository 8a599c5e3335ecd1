import Scriptlet.Syntax.Parser.Statement
import Scriptlet.Token.Scan

/-!
# From tokens to a program

`parse` reads a list of tokens up to the first end of input. Faults of the text
count as mistakes and are otherwise left out; the grammar's own mistakes are
recorded as they are met. A list of tokens with any mistake yields no program,
but all its mistakes, in the order of their positions.
-/

namespace Scriptlet

/-- The parser of a rule. The bound `fuel` exceeds the number of unread tokens. -/
def Rule.parse : (fuel : Nat) → {α : Type} → Rule α → Parser α
  | 0, _, _ => throw .exhausted
  | fuel + 1, _, rule =>
    let rules : Rules := fun rule s => Rule.parse fuel rule s
    match rule with
    | .expression => Parser.expression rules (fuel + 1)
    | .operand level => Parser.operand rules (fuel + 1) level
    | .unary => Parser.unary rules (fuel + 1)
    | .declaration => Parser.declaration rules (fuel + 1)
    | .statement => Parser.statement rules (fuel + 1)

/-- The statements up to the end of input. -/
def Parser.program (rules : Rules) : (fuel : Nat) → Parser (List Stmt)
  | 0 => throw .exhausted
  | fuel + 1 => do
    if ← atEnd then return []
    let first ← recovering (rules .declaration)
    let rest ← Parser.program rules fuel
    return first.toList ++ rest

/-- A list of tokens cut at the first end of input: the tokens before it that are no faults, the end
of input itself, and the faults with their positions. -/
structure TokenStream where
  tokens : List Token
  endToken : Token
  faults : List SyntaxError

/-- The fault that a token reports, if it is one. -/
def Token.fault? (t : Token) : Option SyntaxError :=
  match t.kind with
  | .fault f => some (.lexical f t.position)
  | _ => none

/-- Cuts a list of tokens at the first end of input. If there is none, the input ends where the last
token starts. -/
def TokenStream.ofTokens (ts : List Token) : TokenStream :=
  let before := ts.takeWhile fun t => t.kind ≠ .endOfInput
  let kept := before.filter fun t => t.fault?.isNone
  let last := ((kept.getLast?).map Token.position).getD Position.start
  { tokens := kept
    endToken := (ts.find? fun t => t.kind = .endOfInput).getD ⟨.endOfInput, "", last⟩
    faults := before.filterMap Token.fault? }

/-- What reading a list of tokens found. -/
structure Reading where
  statements : List Stmt
  /-- The faults of the text, in order. -/
  faults : List SyntaxError
  /-- The mistakes of the grammar, in the order in which they were met. -/
  mistakes : List ParseError

/-- Reads a list of tokens. -/
def Reading.ofTokens (ts : List Token) : Reading :=
  let stream := TokenStream.ofTokens ts
  let fuel := stream.tokens.length + 1
  let start : ParserState := ⟨stream.tokens, stream.endToken, 0, []⟩
  match (Parser.program (fun rule s => Rule.parse fuel rule s) fuel).run start with
  | .ok statements s => ⟨statements, stream.faults, s.mistakes.reverse⟩
  | .error _ s => ⟨[], stream.faults, s.mistakes.reverse⟩

/-- All mistakes, by position; of two at one position the fault of the text comes first. -/
def Reading.errors (r : Reading) : List SyntaxError :=
  (r.faults ++ r.mistakes.map SyntaxError.parse).mergeSort fun a b => a.position.le b.position

/-- The program, unless there are mistakes. -/
def Reading.result (r : Reading) : Except (List SyntaxError) Program :=
  if r.faults.isEmpty && r.mistakes.isEmpty then .ok ⟨r.statements⟩ else .error r.errors

/-- Reads a list of tokens as a program. -/
def parse (ts : List Token) : Except (List SyntaxError) Program :=
  (Reading.ofTokens ts).result

/-- Reads a source text as a program. -/
def parseSource (source : String) : Except (List SyntaxError) Program :=
  parse (scan source)

end Scriptlet
