import WordMachine.Text.Quoted

/-! # Log records

What a program notes while it works: a level, the part of the program that speaks (the target), a
message and named fields. A record is a value; whether and how it is shown is decided later. -/

namespace WordMachine.Log

/-- The weight of a record. -/
inductive Level where
  | error | warn | info | debug | trace
deriving DecidableEq, Repr

namespace Level

/-- Grows with the amount of detail. -/
def rank : Level → Nat
  | error => 1
  | warn => 2
  | info => 3
  | debug => 4
  | trace => 5

def name : Level → String
  | error => "error"
  | warn => "warn"
  | info => "info"
  | debug => "debug"
  | trace => "trace"

def upperName : Level → String
  | error => "ERROR"
  | warn => "WARN"
  | info => "INFO"
  | debug => "DEBUG"
  | trace => "TRACE"

def all : List Level := [error, warn, info, debug, trace]

end Level

/-- The value of a field. -/
inductive Value where
  | number (n : Nat)
  | text (s : String)
deriving DecidableEq, Repr

/-- The text of a field's value. -/
def Value.display : Value → String
  | number n => Numeral.decimal n
  | text s => s

/-- A note of the program. -/
structure Record where
  level : Level
  target : String
  message : String
  fields : List (String × Value) := []
deriving DecidableEq, Repr

end WordMachine.Log
