import Scriptlet.Text.Extending
import Scriptlet.Text.Printable

/-!
# Text in double quotes

Two ways of writing a text so that every character of it can be seen.
`quoted` is how values show a text: printable characters stand for themselves,
apart from the quote and the backslash. `plainEscapes` uses printable ASCII only
and is how messages show the text of a token. Both write any other character as
its code point in hexadecimal, in braces.
-/

namespace Scriptlet.Text

/-- The code point of `c` in lower case hexadecimal, in the form `\u{…}`. -/
def codePointEscape (c : Char) : List Char :=
  ['\\', 'u', '\x7b'] ++ Nat.toDigits 16 c.toNat ++ ['\x7d']

/-- How `c` is written inside quotes. -/
def quotedChar (c : Char) : List Char :=
  if c = '\x00' then ['\\', '0']
  else if c = '\t' then ['\\', 't']
  else if c = '\r' then ['\\', 'r']
  else if c = '\n' then ['\\', 'n']
  else if c = '"' then ['\\', '"']
  else if c = '\\' then ['\\', '\\']
  else if (isExtending c && !isHalfwidthMark c) || !isPrintable c then codePointEscape c
  else [c]

/-- The text `s` in double quotes. -/
def quoted (s : String) : String :=
  String.ofList ('"' :: (s.toList.flatMap quotedChar ++ ['"']))

/-- How `c` is written in printable ASCII. -/
def plainEscape (c : Char) : List Char :=
  if c = '\t' then ['\\', 't']
  else if c = '\r' then ['\\', 'r']
  else if c = '\n' then ['\\', 'n']
  else if c = '\x27' then ['\\', '\x27']
  else if c = '"' then ['\\', '"']
  else if c = '\\' then ['\\', '\\']
  else if 32 ≤ c.toNat && c.toNat ≤ 126 then [c]
  else codePointEscape c

/-- The text `s` in printable ASCII, without quotes around it. -/
def plainEscapes (s : String) : String :=
  String.ofList (s.toList.flatMap plainEscape)

end Scriptlet.Text
