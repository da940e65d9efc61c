/-! # Blank characters

The characters with the Unicode property `White_Space`, and the two things that text input does
with them: dropping them at the ends of a text, and dropping them everywhere. -/

namespace WordMachine.Blank

/-- Whether a character has the property `White_Space`. -/
def isBlank (c : Char) : Bool :=
  let n := c.toNat
  (0x09 ≤ n && n ≤ 0x0d) || n == 0x20 || n == 0x85 || n == 0xa0 || n == 0x1680 ||
    (0x2000 ≤ n && n ≤ 0x200a) || n == 0x2028 || n == 0x2029 || n == 0x202f || n == 0x205f ||
    n == 0x3000

/-- The text without the blanks at its two ends. -/
def trim (cs : List Char) : List Char :=
  ((cs.dropWhile isBlank).reverse.dropWhile isBlank).reverse

/-- The text without any of its blanks. -/
def strip (cs : List Char) : List Char := cs.filter fun c => !isBlank c

/-- Stripped text holds no blank. -/
theorem not_isBlank_of_mem_strip {c : Char} {cs : List Char} (h : c ∈ strip cs) :
    isBlank c = false := by
  simpa using (List.mem_filter.1 h).2

/-- A text without blanks is its own trimming. -/
theorem trim_eq_self {cs : List Char} (h : ∀ c ∈ cs, isBlank c = false) : trim cs = cs := by
  have drop : ∀ ds : List Char, (∀ c ∈ ds, isBlank c = false) → ds.dropWhile isBlank = ds := by
    intro ds hd
    cases ds with
    | nil => rfl
    | cons d ds => simp [hd d (by simp)]
  rw [trim, drop cs h, drop cs.reverse (by simpa using h), List.reverse_reverse]

end WordMachine.Blank
