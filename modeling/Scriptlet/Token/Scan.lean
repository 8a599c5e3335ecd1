import Scriptlet.Text.Letter
import Scriptlet.Text.Numeral
import Scriptlet.Token

/-!
# From text to tokens

`scan` reads a text from left to right. Between tokens it skips gaps: blanks,
comments to the end of the line, and closed block comments. Each token takes as
many characters as it can. A comment or a string without an end runs to the end
of the text, and becomes a fault at the position where it starts. The last token
is always the end of input.
-/

namespace Scriptlet

/-- Whether `c` may stand between tokens. -/
def isGapChar (c : Char) : Bool :=
  c = ' ' || c = '\r' || c = '\t' || c = '\n'

/-- Whether `c` may begin a name. -/
def isNameStart (c : Char) : Bool :=
  Text.isLetter c || c = '_'

/-- Whether `c` may continue a name. -/
def isNamePart (c : Char) : Bool :=
  Text.isLetter c || Text.isNumeral c || c = '_'

/-- Whether the end of a block comment follows. -/
def commentCloses : List Char → Bool
  | [] => false
  | '*' :: '/' :: _ => true
  | _ :: cs => commentCloses cs

/-- Where in a gap the scanner stands. -/
inductive GapState where
  | between
  | inLine
  | inBlock
  deriving DecidableEq, Repr

/-- Skips a gap that starts at `p`; gives the position after it and what follows. A block comment
that does not close is no gap. -/
def skipGap : GapState → Position → List Char → Position × List Char
  | _, p, [] => (p, [])
  | .between, p, '/' :: '/' :: cs => skipGap .inLine ((p.advance '/').advance '/') cs
  | .between, p, '/' :: '*' :: cs =>
    if commentCloses cs then skipGap .inBlock ((p.advance '/').advance '*') cs
    else (p, '/' :: '*' :: cs)
  | .between, p, c :: cs =>
    if isGapChar c then skipGap .between (p.advance c) cs else (p, c :: cs)
  | .inLine, p, c :: cs =>
    skipGap (if c = '\n' then .between else .inLine) (p.advance c) cs
  | .inBlock, p, '*' :: '/' :: cs => skipGap .between ((p.advance '*').advance '/') cs
  | .inBlock, p, c :: cs => skipGap .inBlock (p.advance c) cs

/-- The characters that a backslash followed by `c` stands for in a string. -/
def unescape (c : Char) : List Char :=
  if c = 'n' then ['\n']
  else if c = 't' then ['\t']
  else if c = 'r' then ['\r']
  else if c = '"' then ['"']
  else if c = '\\' then ['\\']
  else ['\\', c]

/-- Reads a string up to its closing quote: the text it stands for (in front of which the reversed
`read` belongs), the position after the quote, and what follows. -/
def readString (read : List Char) : Position → List Char → Option (String × Position × List Char)
  | _, [] => none
  | p, '"' :: cs => some (String.ofList read.reverse, p.advance '"', cs)
  | _, ['\\'] => none
  | p, '\\' :: c :: cs =>
    readString ((unescape c).reverse ++ read) ((p.advance '\\').advance c) cs
  | p, c :: cs => readString (c :: read) (p.advance c) cs

/-- The digits of a number at the start of `cs`, with a fraction if the point is followed by a
digit. -/
def numberText (cs : List Char) : List Char :=
  let whole := cs.takeWhile Char.isDigit
  match cs.dropWhile Char.isDigit with
  | '.' :: d :: more =>
    if d.isDigit then whole ++ '.' :: d :: more.takeWhile Char.isDigit else whole
  | _ => whole

/-- A token's kind and text, with the position after it and what follows. -/
structure Piece where
  kind : TokenKind
  lexeme : String
  stop : Position
  rest : List Char

/-- The piece made of the first characters `text` of `cs`. -/
def Piece.take (kind : TokenKind) (text : List Char) (p : Position) (cs : List Char) : Piece :=
  ⟨kind, String.ofList text, p.after text, cs.drop text.length⟩

/-- Reads the token that starts with `c` at `p`. -/
def readPiece (p : Position) (c : Char) (cs : List Char) : Piece :=
  if c = '/' && cs.head? = some '*' then
    Piece.take (.fault .unterminatedComment) (c :: cs) p (c :: cs)
  else if c = '"' then
    match readString [] (p.advance c) cs with
    | some (text, stop, rest) => ⟨.string, text, stop, rest⟩
    | none => Piece.take (.fault .unterminatedString) (c :: cs) p (c :: cs)
  else if c.isDigit then
    Piece.take .number (numberText (c :: cs)) p (c :: cs)
  else if isNameStart c then
    let name := c :: cs.takeWhile isNamePart
    let kind := match Keyword.ofText? (String.ofList name) with
      | some word => TokenKind.keyword word
      | none => .identifier
    Piece.take kind name p (c :: cs)
  else
    match Symbol.leading? (c :: cs) with
    | some symbol => Piece.take (.symbol symbol) symbol.chars p (c :: cs)
    | none => Piece.take (.fault (.unexpectedCharacter c)) [c] p (c :: cs)

/-- The tokens of `cs`, which starts at `p`. Every token takes at least one character, so `fuel`
need only exceed the number of characters. -/
def scanFrom : (fuel : Nat) → Position → List Char → List Token
  | 0, p, _ => [⟨.endOfInput, "", p⟩]
  | fuel + 1, p, cs =>
    match skipGap .between p cs with
    | (p, []) => [⟨.endOfInput, "", p⟩]
    | (p, c :: cs) =>
      let piece := readPiece p c cs
      ⟨piece.kind, piece.lexeme, p⟩ :: scanFrom fuel piece.stop piece.rest

/-- The tokens of a source text, the last of them the end of input. -/
def scan (source : String) : List Token :=
  let cs := source.toList
  scanFrom (cs.length + 1) Position.start cs

end Scriptlet
