import Scriptlet.Position
import Scriptlet.Text.Quoted

/-!
# Tokens

A token is a word, a symbol, a literal or a fault of the source text, together
with its position. Text that is no token of the language still becomes one, of
kind `fault`, so that reading never stops early and a fault is reported like
anything else.
-/

namespace Scriptlet

/-- The reserved words. -/
inductive Keyword where
  | letWord | constWord | functionWord | classWord | ifWord | elseWord | whileWord | forWord
  | foreachWord | returnWord | breakWord | continueWord | trueWord | falseWord | nullWord
  | undefinedWord
  deriving DecidableEq, Repr

namespace Keyword

/-- How the word is spelled. -/
def text : Keyword → String
  | letWord => "let"
  | constWord => "const"
  | functionWord => "function"
  | classWord => "class"
  | ifWord => "if"
  | elseWord => "else"
  | whileWord => "while"
  | forWord => "for"
  | foreachWord => "foreach"
  | returnWord => "return"
  | breakWord => "break"
  | continueWord => "continue"
  | trueWord => "true"
  | falseWord => "false"
  | nullWord => "null"
  | undefinedWord => "undefined"

/-- All reserved words. -/
def all : List Keyword :=
  [letWord, constWord, functionWord, classWord, ifWord, elseWord, whileWord, forWord, foreachWord,
    returnWord, breakWord, continueWord, trueWord, falseWord, nullWord, undefinedWord]

/-- The reserved word spelled `s`. -/
def ofText? (s : String) : Option Keyword :=
  all.find? fun k => k.text = s

/-- Whether the word begins a declaration or a statement. The parser resumes at such a word after
a mistake. -/
def startsStatement : Keyword → Bool
  | letWord | constWord | functionWord | classWord | ifWord | whileWord | forWord | foreachWord
  | returnWord | breakWord | continueWord => true
  | elseWord | trueWord | falseWord | nullWord | undefinedWord => false

theorem mem_all (k : Keyword) : k ∈ all := by
  cases k <;> simp [all]

end Keyword

/-- Operators and punctuation. -/
inductive Symbol where
  | plus | minus | star | slash | percent | caret | bang | bangEqual | equal | equalEqual
  | greater | greaterEqual | less | lessEqual | andAnd | orOr
  | leftParen | rightParen | leftBrace | rightBrace | leftBracket | rightBracket
  | comma | semicolon | dot | colon | arrow
  deriving DecidableEq, Repr

namespace Symbol

/-- The characters of the symbol. -/
def chars : Symbol → List Char
  | plus => ['+']
  | minus => ['-']
  | star => ['*']
  | slash => ['/']
  | percent => ['%']
  | caret => ['^']
  | bang => ['!']
  | bangEqual => ['!', '=']
  | equal => ['=']
  | equalEqual => ['=', '=']
  | greater => ['>']
  | greaterEqual => ['>', '=']
  | less => ['<']
  | lessEqual => ['<', '=']
  | andAnd => ['&', '&']
  | orOr => ['|', '|']
  | leftParen => ['(']
  | rightParen => [')']
  | leftBrace => ['\x7b']
  | rightBrace => ['\x7d']
  | leftBracket => ['[']
  | rightBracket => [']']
  | comma => [',']
  | semicolon => [';']
  | dot => ['.']
  | colon => [':']
  | arrow => ['=', '>']

/-- How the symbol is spelled. -/
def text (s : Symbol) : String := String.ofList s.chars

/-- All symbols, each before any symbol that it starts with. -/
def all : List Symbol :=
  [bangEqual, equalEqual, arrow, greaterEqual, lessEqual, andAnd, orOr,
    plus, minus, star, slash, percent, caret, bang, equal, greater, less,
    leftParen, rightParen, leftBrace, rightBrace, leftBracket, rightBracket,
    comma, semicolon, dot, colon]

/-- The longest symbol that `cs` starts with. -/
def leading? (cs : List Char) : Option Symbol :=
  all.find? fun s => s.chars.isPrefixOf cs

theorem mem_all (s : Symbol) : s ∈ all := by
  cases s <;> simp [all]

end Symbol

/-- What can be wrong with a piece of source text. -/
inductive Fault where
  | unterminatedString
  | unterminatedComment
  | unexpectedCharacter (c : Char)
  deriving DecidableEq, Repr

namespace Fault

/-- The fault in words. -/
def message : Fault → String
  | unterminatedString => "unterminated string"
  | unterminatedComment => "unterminated block comment"
  | unexpectedCharacter c => "unexpected character `" ++ c.toString ++ "`"

end Fault

/-- What a token is. -/
inductive TokenKind where
  | keyword (word : Keyword)
  | symbol (symbol : Symbol)
  | number
  | string
  | identifier
  | fault (fault : Fault)
  | endOfInput
  deriving DecidableEq, Repr

namespace TokenKind

/-- Whether a token of this kind begins a declaration or a statement by a reserved word. -/
def startsStatement : TokenKind → Bool
  | keyword word => word.startsStatement
  | _ => false

end TokenKind

/-- A token with its position. -/
structure Token where
  kind : TokenKind
  /-- The text of the token as written, but for a string the text that it stands for. -/
  lexeme : String
  position : Position
  deriving DecidableEq, Repr

namespace Token

/-- The token as messages name it. -/
def describe (t : Token) : String :=
  match t.kind with
  | .endOfInput => "end of input"
  | .number => "number `" ++ t.lexeme ++ "`"
  | .string => "string \"" ++ Text.plainEscapes t.lexeme ++ "\""
  | .identifier => "identifier `" ++ t.lexeme ++ "`"
  | .fault f => f.message
  | .keyword _ | .symbol _ => "`" ++ t.lexeme ++ "`"

end Token

end Scriptlet
