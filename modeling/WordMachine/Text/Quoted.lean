import WordMachine.Text.Numeral
import WordMachine.Text.Printable

/-! # Quoted text

Three ways of writing a text so that it stands between double quotes on one line.

* `quoted` is the form that diagnostic values use: a backslash before `"` and `\`, the usual
  letters for tab, line feed, carriage return and NUL, and `\u` with the code point in braces for a
  character that shows nothing or that joins its neighbour.
* `escaped` is the same without the quotes, also escapes `'`, and leaves joining marks alone unless
  they come first, where there is nothing to join.
* `json` is a JSON string: only `"`, `\` and the controls below the space are escaped. -/

namespace WordMachine.Quoted

/-- The code point of a character between braces. -/
def codePoint (c : Char) : List Char :=
  '\\' :: 'u' :: '\x7b' :: Numeral.chars 16 c.toNat ++ ['\x7d']

/-- One character of a quoted text; `marks` says whether joining marks are escaped. -/
def escapeChar (marks : Bool) (c : Char) : List Char :=
  if c = '\x00' then ['\\', '0']
  else if c = '\t' then ['\\', 't']
  else if c = '\n' then ['\\', 'n']
  else if c = '\r' then ['\\', 'r']
  else if c = '"' ∨ c = '\\' then ['\\', c]
  else if (marks && Printable.isExtending c) || !Printable.isPrintable c then codePoint c
  else [c]

/-- The diagnostic form of a text, between double quotes. -/
def quoted (s : String) : String :=
  String.ofList ('"' :: s.toList.flatMap (escapeChar true) ++ ['"'])

/-- One character of an escaped text, in which single quotes are escaped too. -/
def escapeCharOrQuote (marks : Bool) (c : Char) : List Char :=
  if c = '\x27' then ['\\', c] else escapeChar marks c

/-- The escaped form of a text, without quotes around it. -/
def escaped (s : String) : String :=
  match s.toList with
  | [] => ""
  | c :: cs => String.ofList (escapeCharOrQuote true c ++ cs.flatMap (escapeCharOrQuote false))

/-- One character of a JSON string. -/
def jsonChar (c : Char) : List Char :=
  if c = '"' ∨ c = '\\' then ['\\', c]
  else if c = '\n' then ['\\', 'n']
  else if c = '\r' then ['\\', 'r']
  else if c = '\t' then ['\\', 't']
  else if c = '\x08' then ['\\', 'b']
  else if c = '\x0c' then ['\\', 'f']
  else if c.toNat < 0x20 then '\\' :: 'u' :: Numeral.padded 16 4 c.toNat
  else [c]

/-- A text as a JSON string, with its quotes. -/
def json (s : String) : String := String.ofList ('"' :: s.toList.flatMap jsonChar ++ ['"'])

end WordMachine.Quoted
