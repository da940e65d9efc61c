import WordMachine.Fault

/-! # The operand stack

A stack is the list of its words, top first. Taking words is an action, which leaves the stack as it
was if there are too few. Depth limits belong to the machine, not to the stack. -/

namespace WordMachine

/-- The operand stack, top first. -/
abbrev Stack := List Word

namespace Stack

/-- Puts a word on top. -/
def push (s : Stack) (w : Word) : Stack := w :: s

/-- The fault of taking `required` words from a stack that holds fewer. -/
def tooShallow (required available : Nat) : Fault := .stackUnderflow "POP" required available

/-- Takes the top word. -/
def pop : EStateM Fault Stack Word
  | [] => .error (tooShallow 1 0) []
  | w :: s => .ok w s

/-- Takes `n` words, top first, or none at all. -/
def popN (n : Nat) : EStateM Fault Stack (List Word) := fun s =>
  if s.length < n then .error (tooShallow n s.length) s else .ok (s.take n) (s.drop n)

/-- The word `index` places below the top, zero if the stack is not that deep. -/
def peek (s : Stack) (index : Nat) : Word := s.getD index 0#256

/-- Up to `n` words, top first. -/
def peekN (s : Stack) (n : Nat) : List Word := s.take n

/-- The words in the order in which they were pushed. -/
def bottomUp (s : Stack) : List Word := s.reverse

/-- The words in the order in which they were pushed, in brackets. -/
def display (s : Stack) : String :=
  "[" ++ ", ".intercalate ((bottomUp s).map Word.compact) ++ "]"

@[simp] theorem pop_push (s : Stack) (w : Word) : pop (s.push w) = .ok w s := rfl

/-- Taking words loses none: what is taken and what stays make up the stack. -/
theorem append_of_popN {s rest : Stack} {n : Nat} {ws : List Word}
    (h : popN n s = .ok ws rest) : ws ++ rest = s ∧ ws.length = n := by
  unfold popN at h
  split at h
  · cases h
  · cases h
    exact ⟨List.take_append_drop n s, by simp; omega⟩

/-- A stack from which too many words are asked is left as it was. -/
theorem eq_of_popN_error {s left : Stack} {n : Nat} {fault : Fault}
    (h : popN n s = .error fault left) : left = s := by
  unfold popN at h
  split at h <;> cases h
  rfl

end Stack

end WordMachine
