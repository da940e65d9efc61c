import WordMachine.Hex
import WordMachine.Machine.Run

/-! # Written reports

How the result of a run is shown.

* **Text.** A heading and one line for each word of the stack, bottom to top, then a heading and one
  line for each row of 32 bytes of memory. Indices are filled up to four places, row addresses to
  four digits.
* **JSON.** One object, indented by two spaces: every word with all its digits, memory as one
  string, and the numbers. -/

namespace WordMachine

/-- The form of a written report. -/
inductive ReportFormat where
  | text
  | json
deriving DecidableEq, Repr

namespace ReportFormat

def name : ReportFormat → String
  | text => "text"
  | json => "json"

def all : List ReportFormat := [text, json]

/-- The format of a name, exactly as written. -/
def ofName? (s : String) : Option ReportFormat := all.find? (·.name == s)

end ReportFormat

namespace Report

/-- Puts a heading in bold type, if colour is on. -/
def heading (color : Bool) (title : String) : String :=
  if color then "\x1b[1m" ++ title ++ "\x1b[0m" else title

/-- A list cut into rows of `n`, the last of which may be shorter. -/
def rows {α : Type} (n : Nat) (xs : List α) : List (List α) :=
  if _h : n = 0 ∨ xs.length ≤ n then (if xs.isEmpty then [] else [xs])
  else xs.take n :: rows n (xs.drop n)
termination_by xs.length
decreasing_by simp only [List.length_drop]; omega

/-- The line of one word of the stack. -/
def stackLine (index : Nat) (w : Word) : String :=
  "  " ++ String.ofList ((Numeral.chars 10 index).leftpad 4 ' ') ++ ": " ++ w.compact ++ "\n"

/-- The line of one row of memory. -/
def memoryLine (row : Nat) (bs : Bytes) : String :=
  "  0x" ++ String.ofList (Numeral.padded 16 4 (row * Memory.wordSize)) ++ ": " ++
    Hex.encode bs ++ "\n"

/-- The report as text. -/
def text (color : Bool) (r : Report) : String :=
  heading color "stack" ++ " (" ++ Numeral.decimal r.stack.length ++ " items, bottom to top)\n" ++
    String.join (r.stack.mapIdx stackLine) ++
    heading color "memory" ++ " (" ++ Numeral.decimal r.memory.length ++ " bytes)\n" ++
    String.join ((rows Memory.wordSize r.memory).mapIdx memoryLine)

/-- The stack as a JSON array, one word a line. -/
def jsonStack (ws : List Word) : String :=
  if ws.isEmpty then "[]"
  else "[\n" ++ ",\n".intercalate (ws.map fun w => "    \"" ++ w.full ++ "\"") ++ "\n  ]"

/-- The report as JSON. -/
def json (r : Report) : String :=
  "\x7b\n  \"stack\": " ++ jsonStack r.stack ++
    ",\n  \"memory\": \"" ++ Hex.encodePrefixed r.memory ++
    "\",\n  \"memory_size\": " ++ Numeral.decimal r.memory.length ++
    ",\n  \"instruction\": " ++ Numeral.decimal r.pc ++
    ",\n  \"steps\": " ++ Numeral.decimal r.steps ++ "\n\x7d\n"

/-- The report in a format; colour concerns the text alone. -/
def render (format : ReportFormat) (color : Bool) (r : Report) : String :=
  match format with
  | .text => r.text color
  | .json => r.json

end Report

end WordMachine
