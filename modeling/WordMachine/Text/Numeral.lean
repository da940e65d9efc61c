/-! # Numerals

Natural numbers written in a base, and read back.

* **Writing.** `digits base n` lists the digits of `n`, most significant first, with no leading
  zero; `chars` spells them with `0`–`9` and `a`–`z`.
* **Reading.** `read base bound` takes an optional `+` and digits of either case, and stops at the
  first fault from the left: a character that is no digit, or a value that reaches `bound`. -/

namespace WordMachine.Numeral

/-- The digits of `n`, most significant first; zero has the one digit `0`. -/
def digits (base n : Nat) : List Nat :=
  if _h : n < base ∨ base < 2 then [n]
  else digits base (n / base) ++ [n % base]
termination_by n
decreasing_by exact Nat.div_lt_self (by omega) (by omega)

/-- The number that a list of digits denotes, most significant first. -/
def value (base : Nat) (ds : List Nat) : Nat := ds.foldl (fun n d => n * base + d) 0

theorem value_append_singleton (base : Nat) (ds : List Nat) (d : Nat) :
    value base (ds ++ [d]) = value base ds * base + d := by
  simp [value]

/-- Writing a number and taking its value is the identity. -/
theorem value_digits (base n : Nat) : value base (digits base n) = n := by
  fun_induction digits base n with
  | case1 n h => simp [value]
  | case2 n h ih =>
    rw [value_append_singleton, ih]
    exact Nat.div_add_mod' n base

theorem digits_lt {base n : Nat} (hb : 2 ≤ base) : ∀ d ∈ digits base n, d < base := by
  fun_induction digits base n with
  | case1 n h => simp; omega
  | case2 n h ih =>
    intro d hd
    rcases List.mem_append.1 hd with hd | hd
    · exact ih d hd
    · rw [List.mem_singleton.1 hd]; exact Nat.mod_lt _ (by omega)

/-- The numeral of `n`, as characters. -/
def chars (base n : Nat) : List Char := (digits base n).map Nat.digitChar

/-- The decimal numeral of `n`. -/
def decimal (n : Nat) : String := String.ofList (chars 10 n)

/-- The numeral of `n`, filled with zeros on the left up to `width` digits. -/
def padded (base width n : Nat) : List Char := (chars base n).leftpad width '0'

/-- The value of a character as a digit of `base`, in either case. -/
def digit? (base : Nat) (c : Char) : Option Nat :=
  let d :=
    if '0' ≤ c ∧ c ≤ '9' then c.toNat - '0'.toNat
    else if 'a' ≤ c ∧ c ≤ 'z' then c.toNat - 'a'.toNat + 10
    else if 'A' ≤ c ∧ c ≤ 'Z' then c.toNat - 'A'.toNat + 10
    else base
  if d < base then some d else none

/-- Why a text is no numeral. -/
inductive Malformed where
  /-- There is no character at all. -/
  | empty
  /-- A character is not a digit, or a sign stands alone. -/
  | invalidDigit
  /-- The digits denote a number that does not fit. -/
  | tooLarge
deriving DecidableEq, Repr

/-- The wording of a reading fault. -/
def Malformed.message : Malformed → String
  | .empty => "cannot parse integer from empty string"
  | .invalidDigit => "invalid digit found in string"
  | .tooLarge => "number too large to fit in target type"

/-- Reads digits after `acc`, from the left, refusing a value of `bound` or more. -/
def readDigits (base bound : Nat) : Nat → List Char → Except Malformed Nat
  | acc, [] => .ok acc
  | acc, c :: cs =>
    match digit? base c with
    | none => .error .invalidDigit
    | some d =>
      if acc * base + d < bound then readDigits base bound (acc * base + d) cs
      else .error .tooLarge

/-- Reads an unsigned numeral below `bound`: an optional `+`, then at least one digit. -/
def read (base bound : Nat) : List Char → Except Malformed Nat
  | [] => .error .empty
  | '+' :: [] => .error .invalidDigit
  | '+' :: cs => readDigits base bound 0 cs
  | cs => readDigits base bound 0 cs

/-- The first number that does not fit in 64 bits: `2 ^ 64`. -/
def twoPow64 : Nat := 18446744073709551616

/-- Reads a decimal number of at most 64 bits. -/
def readUnsigned (text : String) : Except Malformed Nat := read 10 twoPow64 text.toList

end WordMachine.Numeral
