import WordMachine.Log.Record

/-! # Log lines

The three forms in which a record is shown, each on one line.

* **Terminal.** Time, level, target and message in a row, then the fields as `name=value`; with
  colours the parts are set off by escape sequences. Control characters of a message that a terminal
  would obey are written out.
* **JSON.** One object with the fields in an object of their own.
* **Logfmt.** `key=value` throughout; a value that holds a blank, a quote, a backslash or `=` is
  quoted. -/

namespace WordMachine.Log

/-- The form of a log line. -/
inductive Format where
  | json
  | logfmt
  | terminal
deriving DecidableEq, Repr

namespace Format

def name : Format → String
  | json => "json"
  | logfmt => "logfmt"
  | terminal => "terminal"

def all : List Format := [json, logfmt, terminal]

/-- The format of a name, exactly as written. -/
def ofName? (s : String) : Option Format := all.find? (·.name == s)

end Format

/-- How log lines look. -/
structure Style where
  format : Format := .terminal
  /-- Whether a line for the terminal has colours. -/
  ansi : Bool := false
  /-- Whether a line names the target of its record. -/
  showTarget : Bool := true
deriving DecidableEq, Repr

namespace Line

/-- A text between an escape sequence and the sequence that ends it. -/
def painted (ansi : Bool) (code : String) (s : String) : String :=
  if ansi then "\x1b[" ++ code ++ "m" ++ s ++ "\x1b[0m" else s

def dimmed : String := "2"

def italic : String := "3"

/-- The colour of a level. -/
def color : Level → String
  | .error => "31"
  | .warn => "33"
  | .info => "32"
  | .debug => "34"
  | .trace => "35"

/-- One character of a message for the terminal. -/
def visible (c : Char) : List Char :=
  let n := c.toNat
  if n = 0x1b ∨ n = 0x07 ∨ n = 0x08 ∨ n = 0x0c ∨ n = 0x7f then
    '\\' :: 'x' :: Numeral.padded 16 2 n
  else if 0x80 ≤ n ∧ n ≤ 0x9f then Quoted.codePoint c
  else [c]

/-- The line of a record for the terminal. -/
def terminal (style : Style) (time : String) (r : Record) : String :=
  let paint := painted style.ansi
  let target := if style.showTarget then paint dimmed r.target ++ paint dimmed ":" ++ " " else ""
  let field (f : String × Value) := " " ++ paint italic f.1 ++ paint dimmed "=" ++ f.2.display
  paint dimmed time ++ " " ++
    paint (color r.level) (String.ofList (r.level.upperName.toList.leftpad 5 ' ')) ++ " " ++
    target ++ String.ofList (r.message.toList.flatMap visible) ++
    String.join (r.fields.map field) ++ "\n"

/-- The value of a field in JSON. -/
def jsonValue : Value → String
  | .number n => Numeral.decimal n
  | .text s => Quoted.json s

/-- The line of a record in JSON. -/
def json (style : Style) (time : String) (r : Record) : String :=
  let field (f : String × Value) := Quoted.json f.1 ++ ":" ++ jsonValue f.2
  let fields := ",".intercalate (field ("message", .text r.message) :: r.fields.map field)
  "\x7b\"timestamp\":" ++ Quoted.json time ++ ",\"level\":\"" ++ r.level.upperName ++
    "\",\"fields\":\x7b" ++ fields ++ "\x7d" ++
    (if style.showTarget then ",\"target\":" ++ Quoted.json r.target else "") ++ "\x7d\n"

/-- Whether a character makes quotes necessary. -/
def needsQuotes (c : Char) : Bool := c.toNat ≤ 0x20 || c == '\\' || c == '"' || c == '='

/-- A value in logfmt. -/
def logfmtValue (s : String) : String :=
  if s.toList.any needsQuotes then "\"" ++ Quoted.escaped s ++ "\"" else s

/-- The line of a record in logfmt. -/
def logfmt (time : String) (r : Record) : String :=
  let field (f : String × Value) := " " ++ f.1 ++ "=" ++ logfmtValue f.2.display
  "ts=" ++ time ++ " level=" ++ r.level.name ++ " target=" ++ logfmtValue r.target ++
    field ("message", .text r.message) ++ String.join (r.fields.map field) ++ "\n"

/-- The line of a record. -/
def render (style : Style) (time : String) (r : Record) : String :=
  match style.format with
  | .terminal => terminal style time r
  | .json => json style time r
  | .logfmt => logfmt time r

end Line

end WordMachine.Log
