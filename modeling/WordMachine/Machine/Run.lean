import WordMachine.Machine.Step

/-! # Runs and traces

Three ways of driving a machine with `Machine.advance`.

* `step` executes one instruction and reports the machine's state after it.
* `peek` reports the states of the next steps without moving the machine.
* `run` executes to the end of the code, under the budget of steps that the policy gives, and
  reports the final stack and memory. It ends because every step moves the pointer. -/

namespace WordMachine

/-- The state that a step reports: the instruction, and stack and memory after it. -/
structure State where
  instruction : Instruction
  stack : Stack
  memory : Memory
deriving DecidableEq, Repr

/-- What a completed run reports. -/
structure Report where
  /-- The final stack, bottom to top. -/
  stack : List Word
  memory : Bytes
  /-- The final pointer. -/
  pc : Nat
  steps : Nat
deriving DecidableEq, Repr

namespace Machine

/-- Executes one instruction; there is no state at the end of the code. -/
def step [Host] (m : Machine) : Attempt (Option State) :=
  match m.advance with
  | .ok none next => .ok none next
  | .ok (some i) next => .ok (some ⟨i, next.stack, next.memory⟩) next
  | .error fault left => .error fault left

/-- The states of the next `n` steps, fewer if the code ends, or the first fault among them. -/
def peek [Host] (m : Machine) : Nat → Except Fault (List State)
  | 0 => .ok []
  | n + 1 =>
    match m.step with
    | .ok none _ => .ok []
    | .ok (some s) next => (s :: ·) <$> next.peek n
    | .error fault _ => .error fault

/-- What the machine would report if its run ended here. -/
def report (m : Machine) : Report := ⟨m.stack.bottomUp, m.memory.bytes.toList, m.pc, m.steps⟩

/-- The limit on steps, if it is used up. -/
def exhausted (m : Machine) : Option Nat := m.policy.stepLimit.filter (· ≤ m.steps)

/-- Executes to the end of the code, or to the first fault. -/
def run [Host] (m : Machine) : Attempt Report :=
  if _h : m.code.length ≤ m.pc then .ok m.report m
  else match m.exhausted with
    | some limit => .error (.stepLimitExceeded limit) m
    | none =>
      match _hs : m.advance with
      | .ok _ next => next.run
      | .error fault left => .error fault left
termination_by m.code.length - m.pc
decreasing_by
  have hpc := pc_lt_of_advance_ok (by omega) _hs
  rw [code_of_advance_ok _hs]
  omega

/-- Executes to the end of the code, to a fault, or for `n` steps, and collects the states. -/
def trace [Host] (m : Machine) : Nat → List State × Option Fault × Machine
  | 0 => ([], none, m)
  | n + 1 =>
    match m.step with
    | .ok none next => ([], none, next)
    | .ok (some s) next =>
      let (states, fault, left) := next.trace n
      (s :: states, fault, left)
    | .error fault left => ([], some fault, left)

/-- The offsets and bytes that a run skips because they name no instruction. -/
def skipped [Host] (m : Machine) : List (Nat × UInt8) :=
  if _h : m.code.length ≤ m.pc ∨ m.exhausted.isSome then []
  else match _hs : m.advance with
    | .ok (some i) next =>
      if (Opcode.ofByte? i.opcode).isNone then (i.offset, i.opcode) :: next.skipped
      else next.skipped
    | _ => []
termination_by m.code.length - m.pc
decreasing_by
  all_goals
    have hpc := pc_lt_of_advance_ok (by omega) _hs
    rw [code_of_advance_ok _hs]
    omega

end Machine

end WordMachine
