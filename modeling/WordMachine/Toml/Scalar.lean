import WordMachine.Text.Numeral

/-! # TOML scalars

Readers for the parts of a TOML document that hold no other parts: blanks and comments, strings,
keys, numbers, dates and times. A reader takes characters and yields a value and the characters
after it, or nothing if its part does not stand there.

* **Strings** are basic, with escapes, or literal, on one line or on several. A string on several
  lines may hold up to two quotes in a row, also just before its end.
* **Integers** have 64 bits and a sign; underscores may stand between digits.
* **Dates and times** are recognized, not interpreted. -/

namespace WordMachine.Toml

/-- Reads a part from the front of a text. -/
abbrev Reader (α : Type) := List Char → Option (α × List Char)

/-- What a key or an array can hold on its own. -/
inductive Scalar where
  | string (s : String)
  | integer (n : Int)
  | float (text : String)
  | boolean (b : Bool)
  | time (text : String)
deriving DecidableEq, Repr

/-! ### Blanks, comments and line ends -/

def isBlank (c : Char) : Bool := c == ' ' || c == '\t'

/-- Whether a character may stand in a comment or a string. -/
def isPlain (c : Char) : Bool := c == '\t' || (0x20 ≤ c.toNat && c.toNat != 0x7f)

def skipBlanks (cs : List Char) : List Char := cs.dropWhile isBlank

/-- The text after a line end or at the end of the document. -/
def lineEnd? : List Char → Option (List Char)
  | [] => some []
  | '\n' :: cs => some cs
  | '\r' :: '\n' :: cs => some cs
  | _ => none

/-- The text after a comment, if there is one. -/
def skipComment : List Char → List Char
  | '#' :: cs => cs.dropWhile isPlain
  | cs => cs

/-- The text after what may follow a value on its line. -/
def restOfLine? (cs : List Char) : Option (List Char) := lineEnd? (skipComment (skipBlanks cs))

/-- The text after blanks, line ends and comments; `inComment` says that a comment has begun. -/
def skipSpace (inComment : Bool) : List Char → List Char
  | '\n' :: cs => skipSpace false cs
  | '\r' :: '\n' :: cs => skipSpace false cs
  | c :: cs =>
    if inComment then (if isPlain c then skipSpace true cs else c :: cs)
    else if isBlank c then skipSpace false cs
    else if c = '#' then skipSpace true cs
    else c :: cs
  | [] => []

/-! ### Strings -/

/-- Where a basic string is being read. -/
inductive Mode where
  /-- Between characters; `folding` skips blanks and line ends. -/
  | plain (folding : Bool)
  /-- Behind a backslash. -/
  | escape
  /-- Behind a backslash and blanks that a line end has to follow. -/
  | lineBreak
  /-- Before the last `left` digits of a code point. -/
  | code (left acc : Nat)

/-- The character that a letter behind a backslash stands for. -/
def escaped? (c : Char) : Option Char :=
  match c with
  | 'b' => some '\x08'
  | 't' => some '\t'
  | 'n' => some '\n'
  | 'f' => some '\x0c'
  | 'r' => some '\r'
  | '"' => some '"'
  | '\\' => some '\\'
  | _ => none

/-- The number of digits of a code point behind a letter. -/
def codeLength? (c : Char) : Option Nat :=
  match c with
  | 'u' => some 4
  | 'U' => some 8
  | _ => none

/-- The character of a code point. -/
def charOfCode? (n : Nat) : Option Char :=
  if n.isValidChar then some (Char.ofNat n) else none

/-- Puts a character in front of what a reader has read. -/
def consTo (c : Char) (r : Option (List Char × List Char)) : Option (List Char × List Char) :=
  r.map fun x => (c :: x.1, x.2)

/-- The rest of a basic string on one line. -/
def basicLine : Mode → Reader (List Char)
  | .plain _, c :: cs =>
    if c = '"' then some ([], cs)
    else if c = '\\' then basicLine .escape cs
    else if isPlain c then consTo c (basicLine (.plain false) cs)
    else none
  | .escape, c :: cs =>
    match escaped? c, codeLength? c with
    | some d, _ => consTo d (basicLine (.plain false) cs)
    | none, some n => basicLine (.code n 0) cs
    | none, none => none
  | .code left acc, c :: cs =>
    match Numeral.digit? 16 c with
    | none => none
    | some d =>
      if left ≤ 1 then
        match charOfCode? (acc * 16 + d) with
        | some e => consTo e (basicLine (.plain false) cs)
        | none => none
      else basicLine (.code (left - 1) (acc * 16 + d)) cs
  | .lineBreak, _ :: _ => none
  | _, [] => none

/-- The rest of a basic string on several lines. -/
def basicLines : Mode → Reader (List Char)
  | .plain _, '"' :: '"' :: '"' :: '"' :: '"' :: cs => some (['"', '"'], cs)
  | .plain _, '"' :: '"' :: '"' :: '"' :: cs => some (['"'], cs)
  | .plain _, '"' :: '"' :: '"' :: cs => some ([], cs)
  | .plain folding, '\r' :: '\n' :: cs =>
    if folding then basicLines (.plain true) cs else consTo '\n' (basicLines (.plain false) cs)
  | .plain folding, c :: cs =>
    if folding && (isBlank c || c == '\n') then basicLines (.plain true) cs
    else if c = '\\' then basicLines .escape cs
    else if isPlain c || c == '\n' then consTo c (basicLines (.plain false) cs)
    else none
  | .escape, '\r' :: '\n' :: cs => basicLines (.plain true) cs
  | .escape, c :: cs =>
    match escaped? c, codeLength? c with
    | some d, _ => consTo d (basicLines (.plain false) cs)
    | none, some n => basicLines (.code n 0) cs
    | none, none =>
      if c = '\n' then basicLines (.plain true) cs
      else if isBlank c then basicLines .lineBreak cs
      else none
  | .lineBreak, '\r' :: '\n' :: cs => basicLines (.plain true) cs
  | .lineBreak, c :: cs =>
    if c = '\n' then basicLines (.plain true) cs
    else if isBlank c then basicLines .lineBreak cs
    else none
  | .code left acc, c :: cs =>
    match Numeral.digit? 16 c with
    | none => none
    | some d =>
      if left ≤ 1 then
        match charOfCode? (acc * 16 + d) with
        | some e => consTo e (basicLines (.plain false) cs)
        | none => none
      else basicLines (.code (left - 1) (acc * 16 + d)) cs
  | _, [] => none

/-- The rest of a literal string on one line. -/
def literalLine : Reader (List Char)
  | [] => none
  | c :: cs =>
    if c = '\x27' then some ([], cs)
    else if isPlain c then consTo c (literalLine cs)
    else none

/-- The rest of a literal string on several lines. -/
def literalLines : Reader (List Char)
  | '\x27' :: '\x27' :: '\x27' :: '\x27' :: '\x27' :: cs => some (['\x27', '\x27'], cs)
  | '\x27' :: '\x27' :: '\x27' :: '\x27' :: cs => some (['\x27'], cs)
  | '\x27' :: '\x27' :: '\x27' :: cs => some ([], cs)
  | '\r' :: '\n' :: cs => consTo '\n' (literalLines cs)
  | c :: cs => if isPlain c || c == '\n' then consTo c (literalLines cs) else none
  | [] => none

/-- The text after a line end that opens a string on several lines. -/
def skipFirstLineEnd : List Char → List Char
  | '\n' :: cs => cs
  | '\r' :: '\n' :: cs => cs
  | cs => cs

/-- A string in one of the four forms. -/
def string : Reader (List Char)
  | '"' :: '"' :: '"' :: cs => basicLines (.plain false) (skipFirstLineEnd cs)
  | '"' :: cs => basicLine (.plain false) cs
  | '\x27' :: '\x27' :: '\x27' :: cs => literalLines (skipFirstLineEnd cs)
  | '\x27' :: cs => literalLine cs
  | _ => none

/-! ### Keys -/

/-- Whether a character may stand in a key without quotes. -/
def isBare (c : Char) : Bool := c.isAlphanum || c == '_' || c == '-'

/-- One part of a key. -/
def simpleKey : Reader String
  | '"' :: cs => (basicLine (.plain false) cs).map fun x => (String.ofList x.1, x.2)
  | '\x27' :: cs => (literalLine cs).map fun x => (String.ofList x.1, x.2)
  | cs =>
    let name := cs.takeWhile isBare
    if name.isEmpty then none else some (String.ofList name, cs.dropWhile isBare)

/-- The number of parts that a key has at most, and of arrays and inline tables in one another. -/
def maxDepth : Nat := 127

/-- A key of at most `n` parts with dots between them. -/
def keyOf : Nat → Reader (List String)
  | 0, _ => none
  | n + 1, cs => do
    let (part, cs) ← simpleKey (skipBlanks cs)
    match skipBlanks cs with
    | '.' :: cs => do
      let (parts, cs) ← keyOf n cs
      return (part :: parts, cs)
    | cs => return ([part], cs)

/-- A key, with the blanks around it. -/
def key : Reader (List String) := keyOf maxDepth

/-! ### Numbers -/

/-- Digits with single underscores between them; `due` says that a digit has to come next. -/
def digitsOf (base : Nat) (due : Bool) : Reader (List Nat)
  | [] => if due then none else some ([], [])
  | c :: cs =>
    match Numeral.digit? base c with
    | some d => (digitsOf base false cs).map fun x => (d :: x.1, x.2)
    | none =>
      if due then none
      else if c = '_' then digitsOf base true cs
      else some ([], c :: cs)

/-- The first integer that is too large: `2 ^ 63`. -/
def integerBound : Nat := 9223372036854775808

/-- A signed integer, if it has 64 bits. -/
def signed (negative : Bool) (n : Nat) : Option Scalar :=
  if negative then (if n ≤ integerBound then some (.integer (-(n : Int))) else none)
  else if n < integerBound then some (.integer n) else none

/-- An integer in a base other than ten, behind its mark. -/
def basedInteger (base : Nat) : Reader Scalar := fun cs => do
  let (ds, cs) ← digitsOf base true cs
  let n ← signed false (Numeral.value base ds)
  return (n, cs)

/-- The exponent of a float, behind its mark. -/
def exponent : Reader (Bool × List Nat) := fun cs =>
  let (negative, cs) := match cs with
    | '-' :: cs => (true, cs)
    | '+' :: cs => (false, cs)
    | cs => (false, cs)
  (digitsOf 10 true cs).map fun x => ((negative, x.1), x.2)

/-- Whether the decimal `n · 10 ^ e` is too large for a float of 64 bits: whether it lies half a
unit or more above the largest of them. -/
def overflows (n : Nat) (e : Int) : Bool :=
  let places : Int := (Numeral.digits 10 n).length + e
  if n = 0 ∨ places < 300 then false
  else if 320 < places then true
  else
    let bound := (1 <<< 1024) - (1 <<< 970)
    let scale := Nat.pow 10 e.natAbs
    if e < 0 then bound * scale ≤ n else bound ≤ n * scale

/-- The digits before the point, without a leading zero unless it stands alone. -/
def wholeDigits : Reader (List Nat)
  | '0' :: cs => some ([0], cs)
  | cs => digitsOf 10 true cs

/-- The fraction and the exponent of a number, if there is either. -/
def fraction (cs : List Char) : Option (Option (List Nat × Int) × List Char) := do
  let (fractional, cs) ← (match cs with
    | '.' :: cs => (digitsOf 10 true cs).map fun x => (some x.1, x.2)
    | cs => some (none, cs) : Option (Option (List Nat) × List Char))
  let (scale, cs) ← (match cs with
    | 'e' :: cs => (exponent cs).map fun x => (some x.1, x.2)
    | 'E' :: cs => (exponent cs).map fun x => (some x.1, x.2)
    | cs => some (none, cs) : Option (Option (Bool × List Nat) × List Char))
  match fractional, scale with
  | none, none => return (none, cs)
  | _, _ =>
    let places := fractional.getD []
    let power : Int := match scale with
      | some (true, ds) => -(Numeral.value 10 ds : Int)
      | some (false, ds) => Numeral.value 10 ds
      | none => 0
    return (some (places, power - places.length), cs)

/-- A decimal number behind its sign. -/
def decimalNumber (negative : Bool) (cs : List Char) : Option (Scalar × List Char) := do
  let (whole, rest) ← wholeDigits cs
  match ← fraction rest with
  | (none, rest) => do
    let n ← signed negative (Numeral.value 10 whole)
    return (n, rest)
  | (some (places, power), after) =>
    if !negative && overflows (Numeral.value 10 (whole ++ places)) power then none
    else return (.float (String.ofList (cs.take (cs.length - after.length))), after)

/-- The values that floats have besides numbers. -/
def specialFloat : Reader Scalar
  | 'i' :: 'n' :: 'f' :: cs => some (.float "inf", cs)
  | 'n' :: 'a' :: 'n' :: cs => some (.float "nan", cs)
  | _ => none

/-- A number. -/
def number : Reader Scalar
  | '0' :: 'x' :: cs => basedInteger 16 cs
  | '0' :: 'o' :: cs => basedInteger 8 cs
  | '0' :: 'b' :: cs => basedInteger 2 cs
  | '-' :: cs => specialFloat cs <|> decimalNumber true cs
  | '+' :: cs => specialFloat cs <|> decimalNumber false cs
  | cs => decimalNumber false cs

/-! ### Dates and times -/

/-- Exactly `n` digits, whose value lies between two bounds. -/
def fixedDigits (n low high : Nat) (cs : List Char) : Option (List Char) :=
  let ds := (cs.take n).filterMap (Numeral.digit? 10)
  if ds.length = n ∧ low ≤ Numeral.value 10 ds ∧ Numeral.value 10 ds ≤ high then some (cs.drop n)
  else none

/-- The text after one given character. -/
def after? (c : Char) : List Char → Option (List Char)
  | d :: cs => if c = d then some cs else none
  | [] => none

/-- The text after a month and a day. -/
def monthAndDay (cs : List Char) : Option (List Char) := do
  fixedDigits 2 1 31 (← after? '-' (← fixedDigits 2 1 12 cs))

/-- The text after the minutes, seconds and parts of seconds of a time. -/
def minutesAndSeconds (cs : List Char) : Option (List Char) := do
  let cs ← fixedDigits 2 0 60 (← after? ':' (← fixedDigits 2 0 59 cs))
  match cs with
  | '.' :: c :: rest =>
    if c.isDigit then return rest.dropWhile Char.isDigit else none
  | '.' :: [] => none
  | cs => return cs

/-- The text after a time of day. -/
def timeOfDay (cs : List Char) : Option (List Char) := do
  minutesAndSeconds (← after? ':' (← fixedDigits 2 0 23 cs))

/-- The text after the distance from universal time, if there is one. -/
def zone (cs : List Char) : Option (List Char) :=
  let distance (cs : List Char) := do
    fixedDigits 2 0 59 (← after? ':' (← fixedDigits 2 0 23 cs))
  match cs with
  | 'Z' :: cs => some cs
  | 'z' :: cs => some cs
  | '+' :: cs => distance cs
  | '-' :: cs => distance cs
  | cs => some cs

/-- The text after the time of day that may follow a date. -/
def timeAfterDate (cs : List Char) : Option (List Char) :=
  match cs with
  | c :: rest =>
    if c = 'T' ∨ c = 't' ∨ c = ' ' then
      match fixedDigits 2 0 23 rest >>= after? ':' with
      | some rest => minutesAndSeconds rest >>= zone
      | none => some cs
    else some cs
  | [] => some []

/-- A date, a time, or both. -/
def dateOrTime : Reader Scalar := fun cs => do
  let rest ← match fixedDigits 4 0 9999 cs >>= after? '-' with
    | some rest => monthAndDay rest >>= timeAfterDate
    | none => timeOfDay cs
  return (.time (String.ofList (cs.take (cs.length - rest.length))), rest)

/-- Whether a date or a time begins here. -/
def startsTime (cs : List Char) : Bool :=
  (fixedDigits 4 0 9999 cs >>= after? '-').isSome || (fixedDigits 2 0 23 cs >>= after? ':').isSome

/-- A scalar. -/
def scalar : Reader Scalar
  | 't' :: 'r' :: 'u' :: 'e' :: cs => some (.boolean true, cs)
  | 'f' :: 'a' :: 'l' :: 's' :: 'e' :: cs => some (.boolean false, cs)
  | cs =>
    match cs with
    | '"' :: _ => (string cs).map fun x => (.string (String.ofList x.1), x.2)
    | '\x27' :: _ => (string cs).map fun x => (.string (String.ofList x.1), x.2)
    | 'i' :: _ => specialFloat cs
    | 'n' :: _ => specialFloat cs
    | _ => if startsTime cs then dateOrTime cs else number cs

end WordMachine.Toml
