import WordMachine.Proofs.Machine.Transition

/-! # Step after step

How the transition of one byte makes up the three ways of driving a machine.

* **Induction.** Every transition moves the pointer forward, so a property of all machines may be
  proved from the end of the code backwards (`code_induction`).
* **Logs.** `Steps m states last` says that stepping from `m` reports `states`, one after the other,
  and reaches `last`. From every machine stepping comes to an end, at the end of the code or at a
  fault (`exists_ended`).
* **Runs.** A run is one look at the budget and one transition for each byte (`run_eq`). -/

namespace WordMachine.Machine

/-- Every machine is at the end of its code or at a byte, and the transition of a byte leads closer
to the end. -/
@[elab_as_elim]
theorem code_induction {motive : Machine → Prop}
    (finished : ∀ m, m.code.length ≤ m.pc → motive m)
    (next : ∀ m byte, m.code[m.pc]? = some byte → motive (m.next byte) → motive m)
    (m : Machine) : motive m := by
  generalize hleft : m.code.length - m.pc = left
  induction left using Nat.strongRecOn generalizing m with
  | ind left ih =>
    cases hbyte : m.code[m.pc]? with
    | none => exact finished m (List.getElem?_eq_none_iff.1 hbyte)
    | some byte =>
      have hpc : m.pc < m.code.length := (List.getElem?_eq_some_iff.1 hbyte).1
      refine next m byte hbyte (ih _ ?_ (m.next byte) rfl)
      rw [next_code, next_pc]
      omega

/-- The budget is not used up as long as the count is below the limit. -/
theorem exhausted_eq_none_iff {m : Machine} :
    m.exhausted = none ↔ ∀ limit, m.policy.stepLimit = some limit → m.steps < limit := by
  simp [exhausted, Option.filter_eq_none_iff]

/-- Without a limit there is no budget to use up. -/
theorem exhausted_of_no_limit {m : Machine} (hfree : m.policy.stepLimit = none) :
    m.exhausted = none :=
  exhausted_eq_none_iff.2 fun limit hlimit => by cases hfree.symm.trans hlimit

/-- What a step reports about a byte without fault. -/
def entry (m : Machine) (byte : UInt8) : State :=
  ⟨m.executed byte, (m.next byte).stack, (m.next byte).memory⟩

/-- The stack after a log: that of its last snapshot. -/
def stackAfter (m : Machine) (states : List State) : Stack :=
  states.getLast?.elim m.stack State.stack

/-- The memory after a log: that of its last snapshot. -/
def memoryAfter (m : Machine) (states : List State) : Memory :=
  states.getLast?.elim m.memory State.memory

@[simp] theorem stackAfter_nil (m : Machine) : m.stackAfter [] = m.stack := rfl

@[simp] theorem memoryAfter_nil (m : Machine) : m.memoryAfter [] = m.memory := rfl

variable [Host]

/-! ### Single steps -/

theorem advance_of_finished {m : Machine} (h : m.code.length ≤ m.pc) : m.advance = .ok none m := by
  unfold advance
  rw [List.getElem?_eq_none h]

theorem step_of_finished {m : Machine} (h : m.code.length ≤ m.pc) : m.step = .ok none m := by
  rw [step, advance_of_finished h]

theorem step_eq {m : Machine} {byte : UInt8} (hbyte : m.code[m.pc]? = some byte) :
    m.step =
      match m.faultOf byte with
      | some fault => .error fault (m.stopped fault)
      | none => .ok (some (m.entry byte)) (m.next byte) := by
  rw [step, advance_eq hbyte]
  cases m.faultOf byte <;> rfl

/-- A step reports no state exactly at the end of the code. -/
theorem step_eq_none_iff {m after : Machine} :
    m.step = .ok none after ↔ m.code.length ≤ m.pc ∧ after = m := by
  cases hbyte : m.code[m.pc]? with
  | none =>
    have hend := List.getElem?_eq_none_iff.1 hbyte
    simp [step_of_finished hend, hend, eq_comm]
  | some byte =>
    have hpc := (List.getElem?_eq_some_iff.1 hbyte).1
    rw [step_eq hbyte]
    cases m.faultOf byte <;> simp [Nat.not_le.2 hpc]

/-- A step reports the state after a byte without fault. -/
theorem step_eq_some_iff {m after : Machine} {s : State} :
    m.step = .ok (some s) after ↔
      ∃ byte, m.code[m.pc]? = some byte ∧ m.faultOf byte = none ∧ m.entry byte = s ∧
        m.next byte = after := by
  cases hbyte : m.code[m.pc]? with
  | none => simp [step_of_finished (List.getElem?_eq_none_iff.1 hbyte)]
  | some byte =>
    rw [step_eq hbyte]
    cases hfault : m.faultOf byte <;> simp [hfault]

/-- A step fails with the fault of the byte at the pointer. -/
theorem step_eq_error_iff {m left : Machine} {fault : Fault} :
    m.step = .error fault left ↔
      ∃ byte, m.code[m.pc]? = some byte ∧ m.faultOf byte = some fault ∧
        m.stopped fault = left := by
  cases hbyte : m.code[m.pc]? with
  | none => simp [step_of_finished (List.getElem?_eq_none_iff.1 hbyte)]
  | some byte =>
    rw [step_eq hbyte]
    cases hfault : m.faultOf byte with
    | none => simp [hfault]
    | some f =>
      simp only [EStateM.Result.error.injEq, Option.some.injEq]
      constructor
      · rintro ⟨rfl, rfl⟩
        exact ⟨byte, rfl, hfault, rfl⟩
      · rintro ⟨_, rfl, hf, rfl⟩
        obtain rfl := Option.some.inj (hfault.symm.trans hf)
        exact ⟨rfl, rfl⟩

/-! ### Logs -/

/-- Stepping from one machine reports these states and reaches another machine. -/
inductive Steps : Machine → List State → Machine → Prop
  | refl (m : Machine) : Steps m [] m
  | step {m after last : Machine} {s : State} {states : List State} :
      m.step = .ok (some s) after → Steps after states last → Steps m (s :: states) last

/-- Stepping cannot go on: the code has ended, or the next step fails. -/
def Ended (m : Machine) : Prop :=
  m.step = .ok none m ∨ ∃ fault left, m.step = .error fault left

theorem Steps.of_next {m last : Machine} {byte : UInt8} {states : List State}
    (hbyte : m.code[m.pc]? = some byte) (hfault : m.faultOf byte = none)
    (h : Steps (m.next byte) states last) : Steps m (m.entry byte :: states) last :=
  .step (step_eq_some_iff.2 ⟨byte, hbyte, hfault, rfl, rfl⟩) h

/-- The first state of a log that has one is the state of the first step. -/
theorem steps_cons_iff {m last : Machine} {s : State} {states : List State} :
    Steps m (s :: states) last ↔
      ∃ after, m.step = .ok (some s) after ∧ Steps after states last := by
  constructor
  · intro h
    cases h with
    | step hs hrest => exact ⟨_, hs, hrest⟩
  · rintro ⟨after, hs, hrest⟩
    exact .step hs hrest

@[simp] theorem steps_nil_iff {m last : Machine} : Steps m [] last ↔ last = m := by
  constructor
  · intro h
    cases h
    rfl
  · rintro rfl
    exact .refl _

/-- A log may be cut anywhere. -/
theorem steps_append_iff {m last : Machine} {front back : List State} :
    Steps m (front ++ back) last ↔ ∃ between, Steps m front between ∧ Steps between back last := by
  induction front generalizing m with
  | nil => simp
  | cons s front ih =>
    rw [List.cons_append, steps_cons_iff]
    constructor
    · rintro ⟨after, hs, hrest⟩
      obtain ⟨between, hfront, hback⟩ := ih.1 hrest
      exact ⟨between, .step hs hfront, hback⟩
    · rintro ⟨between, hfront, hback⟩
      obtain ⟨after, hs, hrest⟩ := steps_cons_iff.1 hfront
      exact ⟨after, hs, ih.2 ⟨between, hrest, hback⟩⟩

/-- A step reports the stack and the memory that it leaves. -/
theorem snapshot_of_step {m after : Machine} {s : State} (h : m.step = .ok (some s) after) :
    s.stack = after.stack ∧ s.memory = after.memory := by
  obtain ⟨byte, -, -, rfl, rfl⟩ := step_eq_some_iff.1 h
  exact ⟨rfl, rfl⟩

/-- The last snapshot of a log is the stack and the memory that stepping leaves. -/
theorem Steps.snapshot {m last : Machine} {states : List State} (h : Steps m states last) :
    last.stack = m.stackAfter states ∧ last.memory = m.memoryAfter states := by
  induction h with
  | refl m => exact ⟨rfl, rfl⟩
  | @step m after last s states hs _ ih =>
    obtain ⟨hstack, hmemory⟩ := snapshot_of_step hs
    rw [ih.1, ih.2]
    cases states with
    | nil => exact ⟨hstack.symm, hmemory.symm⟩
    | cons s' states => simp [stackAfter, memoryAfter, List.getLast?_cons]

/-- A log that goes from a byte to the end of the code begins with the state after that byte. -/
theorem Steps.exists_cons {m last : Machine} {byte : UInt8} {states : List State}
    (h : Steps m states last) (hbyte : m.code[m.pc]? = some byte)
    (hend : last.code.length ≤ last.pc) :
    ∃ rest, states = m.entry byte :: rest ∧ Steps (m.next byte) rest last := by
  cases h with
  | refl =>
    have hpc := (List.getElem?_eq_some_iff.1 hbyte).1
    omega
  | @step _ _ _ _ rest hs hrest =>
    obtain ⟨byte', hbyte', -, rfl, rfl⟩ := step_eq_some_iff.1 hs
    obtain rfl := Option.some.inj (hbyte.symm.trans hbyte')
    exact ⟨rest, rfl, hrest⟩

/-- Stepping is deterministic, so it has one end and one log. -/
theorem Steps.eq_of_ended {m last last' : Machine} {states states' : List State}
    (h : Steps m states last) (h' : Steps m states' last') (hended : last.Ended)
    (hended' : last'.Ended) : states = states' ∧ last = last' := by
  have hstuck : ∀ {m after : Machine} {s : State}, m.Ended → m.step ≠ .ok (some s) after := by
    rintro m after s (hend | ⟨fault, left, hfault⟩) hs
    · cases hend.symm.trans hs
    · cases hfault.symm.trans hs
  induction h generalizing states' with
  | refl m =>
    cases h' with
    | refl => exact ⟨rfl, rfl⟩
    | step hs _ => exact absurd hs (hstuck hended)
  | step hs _ ih =>
    cases h' with
    | refl => exact absurd hs (hstuck hended')
    | step hs' hrest =>
      cases hs.symm.trans hs'
      obtain ⟨rfl, rfl⟩ := ih hrest hended
      exact ⟨rfl, rfl⟩

/-- Stepping keeps code and policy and counts its steps. -/
theorem Steps.frame {m last : Machine} {states : List State} (h : Steps m states last) :
    last.code = m.code ∧ last.policy = m.policy ∧ last.steps = m.steps + states.length := by
  induction h with
  | refl m => exact ⟨rfl, rfl, rfl⟩
  | step hs _ ih =>
    obtain ⟨byte, -, -, -, rfl⟩ := step_eq_some_iff.1 hs
    obtain ⟨hcode, hpolicy, hcount⟩ := ih
    rw [next_code] at hcode
    rw [next_policy] at hpolicy
    rw [next_steps] at hcount
    refine ⟨hcode, hpolicy, ?_⟩
    rw [hcount, List.length_cons]
    omega

/-- Stepping never moves the pointer back. -/
theorem Steps.pc_le {m last : Machine} {states : List State} (h : Steps m states last) :
    m.pc ≤ last.pc := by
  induction h with
  | refl m => exact Nat.le_refl _
  | step hs _ ih =>
    obtain ⟨byte, -, -, -, rfl⟩ := step_eq_some_iff.1 hs
    rw [next_pc] at ih
    omega

/-- Stepping never shrinks memory. -/
theorem Steps.size_le {m last : Machine} {states : List State} (h : Steps m states last) :
    m.memory.size ≤ last.memory.size := by
  induction h with
  | refl m => exact Nat.le_refl _
  | @step m _ _ _ _ hs _ ih =>
    obtain ⟨byte, -, -, -, rfl⟩ := step_eq_some_iff.1 hs
    exact Nat.le_trans (size_le_next m byte) ih

/-! ### Runs -/

theorem run_of_finished {m : Machine} (h : m.code.length ≤ m.pc) : m.run = .ok m.report m := by
  rw [run]
  simp [h]

/-- Only before the end of its code can a run fail. -/
theorem pc_lt_of_run_error {m left : Machine} {fault : Fault} (h : m.run = .error fault left) :
    m.pc < m.code.length := by
  rcases Nat.lt_or_ge m.pc m.code.length with hlt | hend
  · exact hlt
  · rw [run_of_finished hend] at h
    cases h

/-- Before the end of the code a run looks at its budget, then executes the byte at the pointer. -/
theorem run_eq {m : Machine} {byte : UInt8} (hbyte : m.code[m.pc]? = some byte) :
    m.run =
      match m.exhausted with
      | some limit => .error (.stepLimitExceeded limit) m
      | none =>
        match m.faultOf byte with
        | some fault => .error fault (m.stopped fault)
        | none => (m.next byte).run := by
  have hpc : ¬ m.code.length ≤ m.pc := Nat.not_le.2 (List.getElem?_eq_some_iff.1 hbyte).1
  rw [run]
  simp only [hpc, dite_false]
  cases m.exhausted with
  | some limit => rfl
  | none =>
    -- The recursive call carries the proof that the pointer moves, so the step is not rewritten
    -- in place but compared with each of its two outcomes.
    have hadvance := advance_eq hbyte
    dsimp only
    cases hfault : m.faultOf byte with
    | none =>
      rw [hfault] at hadvance
      split <;> rename_i hs <;> cases hadvance.symm.trans hs
      rfl
    | some fault =>
      rw [hfault] at hadvance
      split <;> rename_i hs <;> cases hadvance.symm.trans hs
      rfl

/-- A lenient run without budget goes on behind a byte that names no instruction. -/
theorem run_eq_of_unknown {m : Machine} {byte : UInt8} (hbyte : m.code[m.pc]? = some byte)
    (hop : Opcode.ofByte? byte = none) (hlenient : m.policy.strict = false)
    (hfree : m.policy.stepLimit = none) : m.run = m.fetched.run := by
  have hfault : m.faultOf byte = none := by simp [faultOf, hop, hlenient]
  rw [run_eq hbyte, exhausted_of_no_limit hfree, hfault]
  simp only [next_of_unknown hop]

/-- A run that reports passes its first byte and reports what the rest of it reports. -/
theorem run_eq_ok_iff {m left : Machine} {byte : UInt8} {r : Report}
    (hbyte : m.code[m.pc]? = some byte) :
    m.run = .ok r left ↔
      m.exhausted = none ∧ m.faultOf byte = none ∧ (m.next byte).run = .ok r left := by
  rw [run_eq hbyte]
  cases m.exhausted with
  | some limit => simp
  | none => cases m.faultOf byte <;> simp

/-- Within its budget a run goes the way of single steps. -/
theorem Steps.run_eq {m last : Machine} {states : List State} (h : Steps m states last)
    (hbudget : ∀ limit, m.policy.stepLimit = some limit → last.steps ≤ limit) :
    m.run = last.run := by
  induction h with
  | refl m => rfl
  | @step m after last s states hs hrest ih =>
    obtain ⟨byte, hbyte, hfault, -, rfl⟩ := step_eq_some_iff.1 hs
    have hcount := hrest.frame.2.2
    rw [next_steps] at hcount
    rw [next_policy] at ih
    have hleft : m.exhausted = none := exhausted_eq_none_iff.2 fun limit hlimit => by
      have := hbudget limit hlimit
      omega
    rw [Machine.run_eq hbyte, hleft, hfault]
    exact ih hbudget

/-- A run that reports has stepped to the end of the code. -/
theorem exists_steps_of_run {m left : Machine} {r : Report} (h : m.run = .ok r left) :
    ∃ states, Steps m states left ∧ left.code.length ≤ left.pc ∧ left.report = r := by
  induction m using code_induction with
  | finished m hend =>
    rw [run_of_finished hend] at h
    cases h
    exact ⟨[], .refl _, hend, rfl⟩
  | next m byte hbyte ih =>
    obtain ⟨-, hfault, hrest⟩ := (run_eq_ok_iff hbyte).1 h
    obtain ⟨states, hsteps, hend⟩ := ih hrest
    exact ⟨m.entry byte :: states, .of_next hbyte hfault hsteps, hend⟩

/-- A run that fails has stepped to where its budget is used up, or to a step that fails. -/
theorem exists_steps_of_run_error {m left : Machine} {fault : Fault}
    (h : m.run = .error fault left) :
    ∃ states last, Steps m states last ∧
      ((left = last ∧ last.pc < last.code.length ∧
          ∃ limit, last.exhausted = some limit ∧ fault = .stepLimitExceeded limit) ∨
        last.step = .error fault left) := by
  induction m using code_induction with
  | finished m hend =>
    rw [run_of_finished hend] at h
    cases h
  | next m byte hbyte ih =>
    have hpc : m.pc < m.code.length := pc_lt_of_run_error h
    rw [run_eq hbyte] at h
    cases hbudget : m.exhausted with
    | some limit =>
      rw [hbudget] at h
      cases h
      exact ⟨[], _, .refl _, .inl ⟨rfl, hpc, limit, hbudget, rfl⟩⟩
    | none =>
      cases hfault : m.faultOf byte with
      | some f =>
        rw [hbudget, hfault] at h
        cases h
        exact ⟨[], m, .refl m, .inr (step_eq_error_iff.2 ⟨byte, hbyte, hfault, rfl⟩)⟩
      | none =>
        rw [hbudget, hfault] at h
        obtain ⟨states, last, hsteps, hend⟩ := ih h
        exact ⟨m.entry byte :: states, last, .of_next hbyte hfault hsteps, hend⟩

/-- A run that fails leaves the code alone. -/
theorem code_of_run_error {m left : Machine} {fault : Fault} (h : m.run = .error fault left) :
    left.code = m.code := by
  obtain ⟨states, last, hsteps, ⟨rfl, -⟩ | hstep⟩ := exists_steps_of_run_error h
  · exact hsteps.frame.1
  · obtain ⟨byte, -, -, rfl⟩ := step_eq_error_iff.1 hstep
    exact hsteps.frame.1

end WordMachine.Machine
