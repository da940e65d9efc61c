import WordMachine.Proofs.Machine.Drivers
import WordMachine.Proofs.Machine.Faults

/-! # Budgets

A budget stops a run between two steps and leaves no trace on it.

* **Blindness.** Steps do not look at the budget: under another one they do and report the same
  (`Steps.withBudget`). Only the loop of a run does, before each byte.
* **The pause.** A run that comes to the end of its budget with code left has made as many steps as
  the budget had room for, and stands where these steps lead (`run_eq_paused_iff`).
* **Resuming.** A run goes the way of the steps for which it has budget (`Steps.run_eq_of_room`), so
  one that was paused and is given a larger budget ends as one that had it from the start. -/

namespace WordMachine.Machine

/-- The machine under another budget of steps. -/
def withBudget (m : Machine) (limit : Option Nat) : Machine :=
  { m with policy := { m.policy with stepLimit := limit } }

@[simp] theorem withBudget_steps (m : Machine) (limit : Option Nat) :
    (m.withBudget limit).steps = m.steps := rfl

@[simp] theorem withBudget_withBudget (m : Machine) (k l : Option Nat) :
    (m.withBudget k).withBudget l = m.withBudget l := rfl

theorem next_withBudget (m : Machine) (byte : UInt8) (limit : Option Nat) :
    (m.withBudget limit).next byte = (m.next byte).withBudget limit := by
  unfold next
  cases Opcode.ofByte? byte <;> rfl

theorem entry_withBudget (m : Machine) (byte : UInt8) (limit : Option Nat) :
    (m.withBudget limit).entry byte = m.entry byte := by
  rw [entry, next_withBudget]
  rfl

variable [Host]

/-- Steps are the same under any budget. -/
theorem Steps.withBudget {m last : Machine} {states : List State} (h : Steps m states last)
    (limit : Option Nat) : Steps (m.withBudget limit) states (last.withBudget limit) := by
  induction h with
  | refl m => exact .refl _
  | step hs _ ih =>
    obtain ⟨byte, hbyte, hfault, rfl, rfl⟩ := step_eq_some_iff.1 hs
    refine .step (step_eq_some_iff.2 ⟨byte, hbyte, hfault, ?_, ?_⟩) ih
    · exact entry_withBudget _ byte limit
    · exact next_withBudget _ byte limit

/-- A single step has no budget to use up. -/
theorem step_ne_stepLimitExceeded (m left : Machine) (limit : Nat) :
    m.step ≠ .error (.stepLimitExceeded limit) left := by
  intro hs
  obtain ⟨byte, -, hfault, -⟩ := step_eq_error_iff.1 hs
  cases faultOf_eq_some_iff.1 hfault

/-- A run goes the way of the steps for which its budget has room. A budget that was used up from
the start has room for none. -/
theorem Steps.run_eq_of_room {m last : Machine} {states : List State} (h : Steps m states last)
    (hroom : ∀ limit, m.policy.stepLimit = some limit → states.length ≤ limit - m.steps) :
    m.run = last.run := by
  cases states with
  | nil => rw [steps_nil_iff.1 h]
  | cons s states =>
    refine h.run_eq fun limit hlimit => ?_
    have hcount := h.frame.2.2
    have hleft := hroom limit hlimit
    rw [List.length_cons] at hcount hleft
    omega

/-- Where the budget is used up and code is left, a run stops at once. -/
theorem run_of_exhausted {m : Machine} {limit : Nat} (hpc : m.pc < m.code.length)
    (hlimit : m.policy.stepLimit = some limit) (hused : limit ≤ m.steps) :
    m.run = .error (.stepLimitExceeded limit) m := by
  have hexhausted : m.exhausted = some limit := by
    rw [exhausted, hlimit, Option.filter_some, decide_eq_true hused]
    rfl
  rw [run_eq (List.getElem?_eq_getElem hpc), hexhausted]

/-- Where budget is left and no step can be made, a run has another end. -/
theorem Ended.run_ne_stepLimitExceeded {m left : Machine} {limit : Nat} (hended : m.Ended)
    (hbudget : m.exhausted = none) : m.run ≠ .error (.stepLimitExceeded limit) left := by
  intro h
  obtain hend | ⟨fault, left', hs⟩ := hended
  · rw [run_of_finished (step_eq_none_iff.1 hend).1] at h
    cases h
  · obtain ⟨byte, hbyte, hfault, rfl⟩ := step_eq_error_iff.1 hs
    rw [run_eq hbyte, hbudget, hfault] at h
    cases h
    exact step_ne_stepLimitExceeded m _ limit hs

/-- A run stops at the end of its budget if, and only if, code is left behind as many steps as the
budget has room for. -/
theorem run_eq_paused_iff {m left : Machine} {limit : Nat}
    (hlimit : m.policy.stepLimit = some limit) :
    m.run = .error (.stepLimitExceeded limit) left ↔
      ∃ states, Steps m states left ∧ states.length = limit - m.steps ∧
        left.pc < left.code.length := by
  have hroom : ∀ {states : List State}, states.length ≤ limit - m.steps →
      ∀ n, m.policy.stepLimit = some n → states.length ≤ n - m.steps := by
    intro states hle n hn
    cases hlimit.symm.trans hn
    exact hle
  have hstop : ∀ {states : List State} {last : Machine}, Steps m states last →
      states.length = limit - m.steps → last.pc < last.code.length →
      m.run = .error (.stepLimitExceeded limit) last := by
    intro states last hsteps hlen hpc
    obtain ⟨-, hpolicy, hcount⟩ := hsteps.frame
    rw [hsteps.run_eq_of_room (hroom (Nat.le_of_eq hlen))]
    exact run_of_exhausted hpc (hpolicy ▸ hlimit) (by omega)
  constructor
  · intro h
    obtain ⟨states, last, hsteps, hlen | ⟨hlen, hended⟩⟩ := exists_log m (limit - m.steps)
    · rcases Nat.lt_or_ge last.pc last.code.length with hpc | hend
      · cases h.symm.trans (hstop hsteps hlen hpc)
        exact ⟨states, hsteps, hlen, hpc⟩
      · rw [hsteps.run_eq_of_room (hroom (Nat.le_of_eq hlen)), run_of_finished hend] at h
        cases h
    · rw [hsteps.run_eq_of_room (hroom (Nat.le_of_lt hlen))] at h
      obtain ⟨-, hpolicy, hcount⟩ := hsteps.frame
      have hbudget : last.exhausted = none := exhausted_eq_none_iff.2 fun n hn => by
        rw [hpolicy] at hn
        cases hlimit.symm.trans hn
        omega
      exact absurd h (hended.run_ne_stepLimitExceeded hbudget)
  · rintro ⟨states, hsteps, hlen, hpc⟩
    exact hstop hsteps hlen hpc

/-- The budget of a run is exact, and a pause leaves no trace. -/
theorem budget_exact (m : Machine) (k : Nat) :
    (∀ left, (m.withBudget (some k)).run = .error (.stepLimitExceeded k) left ↔
      ∃ states, Steps (m.withBudget (some k)) states left ∧ states.length = k - m.steps ∧
        left.pc < left.code.length) ∧
    ∀ (l : Option Nat) (left : Machine), (∀ n, l = some n → k ≤ n) →
      (m.withBudget (some k)).run = .error (.stepLimitExceeded k) left →
        (left.withBudget l).run = (m.withBudget l).run := by
  have hpause : ∀ left, (m.withBudget (some k)).run = .error (.stepLimitExceeded k) left ↔
      ∃ states, Steps (m.withBudget (some k)) states left ∧ states.length = k - m.steps ∧
        left.pc < left.code.length := fun left => run_eq_paused_iff rfl
  refine ⟨hpause, fun l left hle hrun => ?_⟩
  obtain ⟨states, hsteps, hlen, -⟩ := (hpause left).1 hrun
  refine ((hsteps.withBudget l).run_eq_of_room fun n hn => ?_).symm
  have hkn : k ≤ n := hle n hn
  rw [withBudget_withBudget, withBudget_steps]
  omega

end WordMachine.Machine
