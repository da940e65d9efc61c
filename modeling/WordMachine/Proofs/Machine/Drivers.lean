import WordMachine.Proofs.Machine.Steps

/-! # Three drivers, one execution

Stepping one by one, looking ahead and running to the end follow the same log.

* **Running.** Without a budget a run is stepping to the end of the code, or to the step that fails
  (`run_eq_ok_iff_steps`, `run_eq_error_iff_steps`). What it reports is the last snapshot of the
  log, or the machine itself if the log is empty (`Steps.report_eq`).
* **Looking ahead.** A look at `n` steps shows the log of the first `n`, or all of a shorter log
  that ends the code, or the fault that stepping would meet among them (`peek_eq_ok_iff`,
  `peek_eq_error_iff`).

`drivers_agree` puts these together. -/

namespace WordMachine.Machine

section

variable [Host]

/-! ### Runs -/

/-- What a machine would report after a log is in the log. -/
theorem Steps.report_eq {m last : Machine} {states : List State} (h : Steps m states last) :
    last.report =
      { stack := (m.stackAfter states).bottomUp
        memory := (m.memoryAfter states).bytes.toList
        pc := last.pc
        steps := last.steps } := by
  obtain ⟨hstack, hmemory⟩ := h.snapshot
  rw [report, hstack, hmemory]

/-- Without a limit the budget is never used up. -/
theorem Steps.exhausted_of_no_limit {m last : Machine} {states : List State}
    (h : Steps m states last) (hfree : m.policy.stepLimit = none) : last.exhausted = none :=
  Machine.exhausted_of_no_limit (h.frame.2.1 ▸ hfree)

/-- Without a budget a run goes the way of single steps. -/
theorem Steps.run_eq_of_no_limit {m last : Machine} {states : List State}
    (h : Steps m states last) (hfree : m.policy.stepLimit = none) : m.run = last.run :=
  h.run_eq fun limit hlimit => by
    rw [hfree] at hlimit
    cases hlimit

/-- Without a budget a run reports if stepping comes to the end of the code. -/
theorem run_eq_ok_iff_steps {m left : Machine} {r : Report} (hfree : m.policy.stepLimit = none) :
    m.run = .ok r left ↔
      ∃ states, Steps m states left ∧ left.step = .ok none left ∧ r = left.report := by
  constructor
  · intro h
    obtain ⟨states, hsteps, hend, rfl⟩ := exists_steps_of_run h
    exact ⟨states, hsteps, step_of_finished hend, rfl⟩
  · rintro ⟨states, hsteps, hend, rfl⟩
    rw [hsteps.run_eq_of_no_limit hfree]
    exact run_of_finished (step_eq_none_iff.1 hend).1

/-- Without a budget a run fails as the first step that fails. -/
theorem run_eq_error_iff_steps {m left : Machine} {fault : Fault}
    (hfree : m.policy.stepLimit = none) :
    m.run = .error fault left ↔
      ∃ states last, Steps m states last ∧ last.step = .error fault left := by
  constructor
  · intro h
    obtain ⟨states, last, hsteps, ⟨-, -, limit, hlimit, -⟩ | hstep⟩ := exists_steps_of_run_error h
    · rw [hsteps.exhausted_of_no_limit hfree] at hlimit
      cases hlimit
    · exact ⟨states, last, hsteps, hstep⟩
  · rintro ⟨states, last, hsteps, hstep⟩
    obtain ⟨byte, hbyte, hfault, rfl⟩ := step_eq_error_iff.1 hstep
    rw [hsteps.run_eq_of_no_limit hfree, run_eq hbyte, hsteps.exhausted_of_no_limit hfree, hfault]

/-! ### Looking ahead -/

/-- A look at the first `n` steps has a log to show: one of `n` steps, or one that stepping cannot
go on from. -/
theorem exists_log (m : Machine) (n : Nat) :
    ∃ states last, Steps m states last ∧ (states.length = n ∨ states.length < n ∧ last.Ended) := by
  induction n with
  | zero => exact ⟨[], m, .refl m, .inl rfl⟩
  | succ n ih =>
    obtain ⟨states, last, hsteps, hlen | ⟨hlen, hended⟩⟩ := ih
    · cases hs : last.step with
      | error fault left =>
        exact ⟨states, last, hsteps, .inr ⟨by omega, .inr ⟨fault, left, hs⟩⟩⟩
      | ok s? after =>
        cases s? with
        | none =>
          obtain ⟨-, rfl⟩ := step_eq_none_iff.1 hs
          exact ⟨states, after, hsteps, .inr ⟨by omega, .inl hs⟩⟩
        | some s =>
          have hmore : Steps m (states ++ [s]) after :=
            steps_append_iff.2 ⟨last, hsteps, .step hs (.refl after)⟩
          exact ⟨states ++ [s], after, hmore, .inl (by simp [hlen])⟩
    · exact ⟨states, last, hsteps, .inr ⟨by omega, hended⟩⟩

/-- A look past the end of a log shows the log and what a look from there shows. -/
theorem Steps.peek_eq {m last : Machine} {states : List State} (h : Steps m states last) (n : Nat) :
    m.peek (states.length + n) = (last.peek n).map (states ++ ·) := by
  induction h with
  | refl m =>
    rw [List.length_nil, Nat.zero_add]
    cases m.peek n <;> rfl
  | @step m after last s states hs _ ih =>
    have hlen : (s :: states).length + n = states.length + n + 1 := by
      rw [List.length_cons]
      omega
    rw [hlen, peek, hs]
    simp only [ih]
    cases last.peek n <;> rfl

theorem Steps.peek_length {m last : Machine} {states : List State} (h : Steps m states last) :
    m.peek states.length = .ok states := by
  have hnone := h.peek_eq 0
  simpa [peek, Except.map] using hnone

/-- A look past the end of the code shows what there is. -/
theorem Steps.peek_of_none {m last : Machine} {states : List State} {n : Nat}
    (h : Steps m states last) (hlen : states.length < n) (hend : last.step = .ok none last) :
    m.peek n = .ok states := by
  obtain ⟨k, rfl⟩ := Nat.exists_eq_add_of_lt hlen
  rw [Nat.add_assoc, h.peek_eq, peek, hend]
  simp [Except.map]

/-- A look past a step that fails shows its fault alone. -/
theorem Steps.peek_of_error {m last left : Machine} {states : List State} {n : Nat} {fault : Fault}
    (h : Steps m states last) (hlen : states.length < n) (hs : last.step = .error fault left) :
    m.peek n = .error fault := by
  obtain ⟨k, rfl⟩ := Nat.exists_eq_add_of_lt hlen
  rw [Nat.add_assoc, h.peek_eq, peek, hs]
  rfl

/-- A look shows the log of the steps asked for, or the whole log if the code ends before. -/
theorem peek_eq_ok_iff {m : Machine} {n : Nat} {states : List State} :
    m.peek n = .ok states ↔
      ∃ last, Steps m states last ∧
        (states.length = n ∨ states.length < n ∧ last.step = .ok none last) := by
  constructor
  · intro h
    obtain ⟨states', last, hsteps, rfl | ⟨hlen, hend | ⟨fault, left, hs⟩⟩⟩ := exists_log m n
    · cases h.symm.trans hsteps.peek_length
      exact ⟨last, hsteps, .inl rfl⟩
    · cases h.symm.trans (hsteps.peek_of_none hlen hend)
      exact ⟨last, hsteps, .inr ⟨hlen, hend⟩⟩
    · cases h.symm.trans (hsteps.peek_of_error hlen hs)
  · rintro ⟨last, hsteps, rfl | ⟨hlen, hend⟩⟩
    · exact hsteps.peek_length
    · exact hsteps.peek_of_none hlen hend

/-- A look fails if one of the steps asked for is the first to fail. -/
theorem peek_eq_error_iff {m : Machine} {n : Nat} {fault : Fault} :
    m.peek n = .error fault ↔
      ∃ states last left, Steps m states last ∧ states.length < n ∧
        last.step = .error fault left := by
  constructor
  · intro h
    obtain ⟨states, last, hsteps, rfl | ⟨hlen, hend | ⟨fault', left, hs⟩⟩⟩ := exists_log m n
    · cases h.symm.trans hsteps.peek_length
    · cases h.symm.trans (hsteps.peek_of_none hlen hend)
    · cases h.symm.trans (hsteps.peek_of_error hlen hs)
      exact ⟨states, last, left, hsteps, hlen, hs⟩
  · rintro ⟨states, last, left, hsteps, hlen, hs⟩
    exact hsteps.peek_of_error hlen hs

/-- A shorter look shows the first states of a longer one. -/
theorem peek_take {m : Machine} {k n : Nat} {states : List State} (hle : k ≤ n)
    (h : m.peek n = .ok states) : m.peek k = .ok (states.take k) := by
  obtain ⟨last, hsteps, hlen⟩ := peek_eq_ok_iff.1 h
  rcases Nat.lt_or_ge states.length k with hshort | hlong
  · obtain hfull | ⟨-, hend⟩ := hlen
    · omega
    · rw [List.take_of_length_le (Nat.le_of_lt hshort)]
      exact hsteps.peek_of_none hshort hend
  · rw [← List.take_append_drop k states] at hsteps
    obtain ⟨between, hfront, -⟩ := steps_append_iff.1 hsteps
    have hk : (states.take k).length = k := by
      rw [List.length_take]
      exact Nat.min_eq_left hlong
    have hpeek := hfront.peek_length
    rwa [hk] at hpeek

/-! ### The three drivers -/

/-- Without a budget, running is stepping to the end. It reports, and leaves behind, what stepping
to the end of the code leaves behind, and it fails, and leaves behind, as the first step that fails.
The count has grown by the number of states that stepping reports, if the counter had room for them.
A look at `n` steps shows the states that the first `n` steps report, fewer if the code ends, or the
fault of the one that is the first to fail; a shorter look shows the first of these states. A run
after any number of steps ends as the run from the start. -/
theorem drivers_agree (m : Machine) (hfree : m.policy.stepLimit = none) :
    (∀ r left, m.run = .ok r left ↔
      ∃ states, Steps m states left ∧ left.step = .ok none left ∧
        r = { stack := (m.stackAfter states).reverse
              memory := (m.memoryAfter states).bytes.toList
              pc := left.pc
              steps := left.steps }) ∧
    (∀ states left, Steps m states left → m.HasRoom states.length →
      left.steps = m.steps + states.length) ∧
    (∀ fault left, m.run = .error fault left ↔
      ∃ states last, Steps m states last ∧ last.step = .error fault left) ∧
    (∀ n states, m.peek n = .ok states ↔
      ∃ last, Steps m states last ∧
        (states.length = n ∨ states.length < n ∧ last.step = .ok none last)) ∧
    (∀ n fault, m.peek n = .error fault ↔
      ∃ states last left, Steps m states last ∧ states.length < n ∧
        last.step = .error fault left) ∧
    (∀ k n states, k ≤ n → m.peek n = .ok states → m.peek k = .ok (states.take k)) ∧
    ∀ states last, Steps m states last → last.run = m.run := by
  refine ⟨fun r left => ?_, fun states left h _ => h.frame.2.2,
    fun fault left => run_eq_error_iff_steps hfree,
    fun n states => peek_eq_ok_iff, fun n fault => peek_eq_error_iff,
    fun k n states => peek_take, fun states last h => (h.run_eq_of_no_limit hfree).symm⟩
  rw [run_eq_ok_iff_steps hfree]
  constructor
  · rintro ⟨states, hsteps, hend, rfl⟩
    exact ⟨states, hsteps, hend, hsteps.report_eq⟩
  · rintro ⟨states, hsteps, hend, rfl⟩
    exact ⟨states, hsteps, hend, hsteps.report_eq.symm⟩

end

/-- Code that ends inside an immediate. -/
theorem drivers_agree_cut_short :
    let m := load [0x5f, 0x61, 0x01]
    m.policy.stepLimit = none ∧ m.HasRoom 2 ∧
      ∃ left, m.run = .ok ⟨[0#256, 256#256], [], 4, 2⟩ left ∧ left.steps = m.steps + 2 := by
  intro m
  have hfree : m.policy.stepLimit = none := rfl
  have hroom : m.HasRoom 2 := by decide
  have hfirst : m.step = .ok (some ⟨⟨0, 0x5f, [], [0#256]⟩, [0#256], {}⟩)
      { m with stack := [0#256], pc := 1, steps := 1 } := rfl
  have hsecond : step { m with stack := [0#256], pc := 1, steps := 1 } =
      .ok (some ⟨⟨1, 0x61, [], [256#256]⟩, [256#256, 0#256], {}⟩)
        { m with stack := [256#256, 0#256], pc := 4, steps := 2 } := rfl
  have hsteps := Steps.step hfirst (.step hsecond (.refl _))
  obtain ⟨hreports, hcounts, -⟩ := drivers_agree m hfree
  exact ⟨hfree, hroom, _, (hreports _ _).2 ⟨_, hsteps, rfl, rfl⟩, hcounts _ _ hsteps hroom⟩

end WordMachine.Machine
