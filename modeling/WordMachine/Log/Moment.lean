import WordMachine.Text.Numeral

/-! # Moments

The time at which a log line is shown: a date and a time of day, to the microsecond. -/

namespace WordMachine.Log

/-- A point in universal time. -/
structure Moment where
  year : Nat
  month : Nat
  day : Nat
  hour : Nat
  minute : Nat
  second : Nat
  microsecond : Nat
deriving DecidableEq, Repr

/-- The text of a moment: date, `T`, time of day with all its digits, `Z`. -/
def Moment.text (m : Moment) : String :=
  let digits (width n : Nat) := String.ofList (Numeral.padded 10 width n)
  digits 4 m.year ++ "-" ++ digits 2 m.month ++ "-" ++ digits 2 m.day ++ "T" ++
    digits 2 m.hour ++ ":" ++ digits 2 m.minute ++ ":" ++ digits 2 m.second ++ "." ++
    digits 6 m.microsecond ++ "Z"

end WordMachine.Log
