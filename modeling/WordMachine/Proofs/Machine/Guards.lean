import WordMachine.Proofs.Machine.Steps

/-! # Policies as guards

A policy decides whether a run reports, never what it reports. `Policy.Admits` says in terms of the
log and the report of a run what a policy asks for; a run under a policy reports exactly what the
run without one does if the policy admits it (`run_load_ok_iff`).

The limits of a policy stand at four places, and each is looked at before the step that would break
it. What connects them with the end of the run is that `Policy.Within` is kept by every step that
passes: a machine that starts within the limits passes a step if and only if the step passes without
limits and ends within them (`faultOf_under_eq_none_iff`). -/

namespace WordMachine

/-- Stack and memory of a machine are within the limits. -/
structure Policy.Within (p : Policy) (m : Machine) : Prop where
  depth : ∀ limit, p.stackLimit = some limit → m.stack.length ≤ limit
  size : ∀ limit, p.memoryLimit = some limit → m.memory.size ≤ limit

/-- What a policy asks of a run with a log and a report: that a strict policy meets no unknown byte,
that the stack is within its limit after every instruction, and that the report is within the limits
on memory and steps. -/
structure Policy.Admits (p : Policy) (states : List State) (r : Report) : Prop where
  known : p.strict = true → ∀ s ∈ states, (Opcode.ofByte? s.instruction.opcode).isSome
  depth : ∀ limit, p.stackLimit = some limit → ∀ s ∈ states, s.stack.length ≤ limit
  size : ∀ limit, p.memoryLimit = some limit → r.memory.length ≤ limit
  steps : ∀ limit, p.stepLimit = some limit → r.steps ≤ limit

/-- A policy is no tighter than another one, field by field. -/
structure Policy.Relaxes (loose tight : Policy) : Prop where
  strict : loose.strict = true → tight.strict = true
  stackLimit : ∀ n, loose.stackLimit = some n → ∃ k, tight.stackLimit = some k ∧ k ≤ n
  memoryLimit : ∀ n, loose.memoryLimit = some n → ∃ k, tight.memoryLimit = some k ∧ k ≤ n
  stepLimit : ∀ n, loose.stepLimit = some n → ∃ k, tight.stepLimit = some k ∧ k ≤ n

theorem Policy.Admits.relax {loose tight : Policy} {states : List State} {r : Report}
    (h : tight.Admits states r) (hrelax : loose.Relaxes tight) : loose.Admits states r := by
  refine ⟨fun hs => h.known (hrelax.strict hs), fun n hn s hmem => ?_, fun n hn => ?_,
    fun n hn => ?_⟩
  · obtain ⟨k, hk, hle⟩ := hrelax.stackLimit n hn
    exact Nat.le_trans (h.depth k hk s hmem) hle
  · obtain ⟨k, hk, hle⟩ := hrelax.memoryLimit n hn
    exact Nat.le_trans (h.size k hk) hle
  · obtain ⟨k, hk, hle⟩ := hrelax.stepLimit n hn
    exact Nat.le_trans (h.steps k hk) hle

/-- What is asked of a log is asked of each of its states. -/
theorem Policy.admits_cons_iff {p : Policy} {s : State} {states : List State} {r : Report} :
    p.Admits (s :: states) r ↔
      (p.strict = true → (Opcode.ofByte? s.instruction.opcode).isSome) ∧
        (∀ limit, p.stackLimit = some limit → s.stack.length ≤ limit) ∧ p.Admits states r := by
  constructor
  · intro h
    refine ⟨fun hs => h.known hs s List.mem_cons_self,
      fun limit hl => h.depth limit hl s List.mem_cons_self, ?_, ?_, h.size, h.steps⟩
    · exact fun hs s' hmem => h.known hs s' (List.mem_cons_of_mem s hmem)
    · exact fun limit hl s' hmem => h.depth limit hl s' (List.mem_cons_of_mem s hmem)
  · rintro ⟨hknown, hdepth, h⟩
    refine ⟨fun hs => ?_, fun limit hl => ?_, h.size, h.steps⟩
    · exact List.forall_mem_cons.2 ⟨hknown hs, h.known hs⟩
    · exact List.forall_mem_cons.2 ⟨hdepth limit hl, h.depth limit hl⟩

/-- The memory under another limit. -/
def Memory.under (m : Memory) (limit : Option Nat) : Memory := { m with limit }

/-- A write is the same under any limit. -/
theorem Memory.put_under (m : Memory) (offset : Nat) (bs : Bytes) (limit : Option Nat) :
    (m.under limit).put offset bs = (m.put offset bs).under limit := rfl

/-- Under a limit that memory keeps, a store passes if it passes without one and keeps it. -/
theorem Memory.refusal_under_eq_none_iff [Host] {m : Memory} {limit : Option Nat} {address : Word}
    (hin : ∀ n, limit = some n → m.size ≤ n) :
    (m.under limit).refusal address = none ↔
      (m.under none).refusal address = none ∧
        ∀ n, limit = some n → max m.size (address.toNat + wordSize) ≤ n := by
  have hsize : ∀ l, (m.under l).size = m.size := fun _ => rfl
  simp only [refusal_eq_none_iff, hsize]
  constructor
  · rintro ⟨hlt, hgrow⟩
    refine ⟨⟨hlt, fun h => ⟨fun _ hn => (by cases hn), (hgrow h).2⟩⟩, fun n hn => ?_⟩
    refine Nat.max_le.2 ⟨hin n hn, ?_⟩
    rcases Nat.lt_or_ge m.size (address.toNat + wordSize) with h | h
    · exact (hgrow h).1 n hn
    · exact Nat.le_trans h (hin n hn)
  · rintro ⟨⟨hlt, hgrow⟩, hkept⟩
    exact ⟨hlt, fun h => ⟨fun n hn => (Nat.max_le.1 (hkept n hn)).2, (hgrow h).2⟩⟩

/-- The same for an instruction that has its operands. -/
theorem Opcode.refusal_under_eq_none_iff [Host] {op : Opcode} {args : List Word} {m : Memory}
    {limit : Option Nat} (hargs : args.length = op.inputs)
    (hin : ∀ n, limit = some n → m.size ≤ n) :
    op.refusal args (m.under limit) = none ↔
      op.refusal args (m.under none) = none ∧
        ∀ n, limit = some n → (op.memoryAfter args m).size ≤ n := by
  cases op with
  | mstore =>
    obtain ⟨address, value, rfl⟩ := exists_pair hargs
    simp only [memoryAfter, Memory.size_put]
    exact Memory.refusal_under_eq_none_iff hin
  | mstore8 =>
    obtain ⟨address, value, rfl⟩ := exists_pair hargs
    simp only [memoryAfter, Memory.size_put]
    exact Memory.refusal_under_eq_none_iff hin
  | _ => simpa [refusal, memoryAfter] using hin

namespace Machine

/-- The machine under another policy, its memory under the limit of that policy. -/
def under (m : Machine) (p : Policy) : Machine :=
  { m with policy := p, memory := m.memory.under p.memoryLimit }

theorem memoryAfter_under (op : Opcode) (args : List Word) (m : Memory) (limit : Option Nat) :
    op.memoryAfter args (m.under limit) = (op.memoryAfter args m).under limit := by
  fun_cases Opcode.memoryAfter op args m with
  | case1 address value => exact m.put_under address.toNat value.toBytes limit
  | case2 address value => exact m.put_under address.toNat [value.lowByte] limit
  | case3 op args hbyte hword => rw [Opcode.memoryAfter] <;> assumption

/-- The transition does not depend on the policy. -/
theorem next_under (m : Machine) (byte : UInt8) (p : Policy) :
    (m.under p).next byte = (m.next byte).under p := by
  unfold next
  cases Opcode.ofByte? byte with
  | none => rfl
  | some op =>
    have hmemory : op.memoryAfter (m.operands op) (m.under p).memory =
        (op.memoryAfter (m.operands op) m.memory).under p.memoryLimit :=
      memoryAfter_under op (m.operands op) m.memory p.memoryLimit
    have hargs : (m.under p).operands op = m.operands op := rfl
    simp only [hargs, hmemory]
    rfl

variable [Host]

/-- From within the limits of a policy, a byte passes under the policy if it passes without one, is
known to a strict policy, and leads to within the limits. -/
theorem faultOf_under_eq_none_iff {m : Machine} {byte : UInt8} {p : Policy} (hin : p.Within m) :
    (m.under p).faultOf byte = none ↔
      (m.under {}).faultOf byte = none ∧
        (p.strict = true → (Opcode.ofByte? byte).isSome) ∧ p.Within (m.next byte) := by
  cases hop : Opcode.ofByte? byte with
  | none =>
    have hstay : p.Within (m.next byte) := by
      rw [next_of_unknown hop]
      exact ⟨hin.depth, hin.size⟩
    cases hstrict : p.strict <;> simp [faultOf, hop, under, hstrict, hstay]
  | some op =>
    have hdepth : ∀ q : Policy, (m.under q).checkDepth op = none ↔
        op.inputs ≤ m.stack.length ∧ ∀ limit, q.stackLimit = some limit →
          m.stack.length - op.inputs + op.outputs ≤ limit :=
      fun q => checkDepth_eq_none_iff
    have hmemory : ∀ q : Policy, (m.under q).memory = m.memory.under q.memoryLimit := fun _ => rfl
    have hargs : ∀ q : Policy, (m.under q).operands op = m.operands op := fun _ => rfl
    have hafter : (m.next byte).memory = op.memoryAfter (m.operands op) m.memory := by
      rw [next, hop]
    simp only [faultOf, hop, Option.or_eq_none_iff, hdepth, hmemory, hargs, Option.isSome_some,
      implies_true, true_and]
    constructor
    · rintro ⟨⟨hlen, hkept⟩, hrefusal⟩
      obtain ⟨hfree, hsize⟩ :=
        (Opcode.refusal_under_eq_none_iff (length_operands hlen) hin.size).1 hrefusal
      refine ⟨⟨⟨hlen, fun _ hn => (by cases hn)⟩, hfree⟩, ⟨fun n hn => ?_, fun n hn => ?_⟩⟩
      · rw [length_next_stack hop hlen]
        exact hkept n hn
      · rw [hafter]
        exact hsize n hn
    · rintro ⟨⟨⟨hlen, -⟩, hfree⟩, hnext⟩
      refine ⟨⟨hlen, fun n hn => ?_⟩, ?_⟩
      · rw [← length_next_stack hop hlen]
        exact hnext.depth n hn
      · refine (Opcode.refusal_under_eq_none_iff (length_operands hlen) hin.size).2
          ⟨hfree, fun n hn => ?_⟩
        rw [← hafter]
        exact hnext.size n hn

/-- A run under a policy that reports has budget left for its first byte, passes it, and goes on
from there. -/
theorem run_under_eq_ok_iff {m left : Machine} {byte : UInt8} {p : Policy} {r : Report}
    (hbyte : m.code[m.pc]? = some byte) :
    (m.under p).run = .ok r left ↔
      (∀ limit, p.stepLimit = some limit → m.steps < limit) ∧
        (m.under p).faultOf byte = none ∧ ((m.next byte).under p).run = .ok r left := by
  have hbyte' : (m.under p).code[(m.under p).pc]? = some byte := hbyte
  rw [run_eq_ok_iff hbyte', exhausted_eq_none_iff, next_under]
  rfl

/-- Memory and count only grow, so the limits that a report keeps were kept all the way. -/
theorem within_of_admits {m left : Machine} {p : Policy} {states : List State}
    (hsteps : Steps (m.under {}) states left) (hadmits : p.Admits states left.report)
    (hdepth : ∀ limit, p.stackLimit = some limit → m.stack.length ≤ limit) :
    p.Within m ∧ ∀ limit, p.stepLimit = some limit → m.steps ≤ limit := by
  have hsize : m.memory.size ≤ left.report.memory.length := hsteps.size_le
  have hsum : left.report.steps = m.steps + states.length := hsteps.frame.2.2
  refine ⟨⟨hdepth, fun limit hl => ?_⟩, fun limit hl => ?_⟩
  · exact Nat.le_trans hsize (hadmits.size limit hl)
  · have := hadmits.steps limit hl
    omega

/-- From within the limits of a policy, a run under the policy reports what the run without one
reports, if the policy admits it. -/
theorem run_under_iff {m : Machine} {p : Policy} {r : Report} (hin : p.Within m)
    (hbudget : ∀ limit, p.stepLimit = some limit → m.steps ≤ limit) :
    (∃ left, (m.under p).run = .ok r left) ↔
      ∃ states left, (m.under {}).run = .ok r left ∧ Steps (m.under {}) states left ∧
        p.Admits states r := by
  induction m using code_induction with
  | finished m hend =>
    have hrun : ∀ q : Policy, (m.under q).run = .ok m.report (m.under q) :=
      fun q => run_of_finished hend
    rw [hrun p, hrun {}]
    constructor
    · rintro ⟨left, h⟩
      cases h
      refine ⟨[], m.under {}, rfl, .refl _, by simp, by simp, fun limit hlimit => ?_, hbudget⟩
      exact hin.size limit hlimit
    · rintro ⟨states, left, h, -, -⟩
      cases h
      exact ⟨_, rfl⟩
  | next m byte hbyte ih =>
    have hopcode : ((m.under {}).entry byte).instruction.opcode = byte := executed_opcode _ byte
    have hstack : ((m.under {}).entry byte).stack = (m.next byte).stack := by
      rw [entry, next_under]
      rfl
    have hcount : ∀ limit, m.steps < limit ↔ (m.next byte).steps ≤ limit := by
      intro limit
      rw [next_steps]
      rfl
    constructor
    · rintro ⟨left, h⟩
      obtain ⟨hleft, hfault, hrest⟩ := (run_under_eq_ok_iff hbyte).1 h
      obtain ⟨hfree, hknown, hnext⟩ := (faultOf_under_eq_none_iff hin).1 hfault
      obtain ⟨states, left', hrun, hsteps, hadmits⟩ :=
        (ih hnext fun limit hl => (hcount limit).1 (hleft limit hl)).1 ⟨left, hrest⟩
      rw [← next_under] at hsteps
      refine ⟨_, left', (run_under_eq_ok_iff hbyte).2 ⟨fun _ hn => (by cases hn), hfree, hrun⟩,
        .of_next hbyte hfree hsteps, Policy.admits_cons_iff.2 ⟨?_, ?_, hadmits⟩⟩
      · rw [hopcode]
        exact hknown
      · rw [hstack]
        exact hnext.depth
    · rintro ⟨states, left, h, hsteps, hadmits⟩
      obtain ⟨-, hfree, hrest⟩ := (run_under_eq_ok_iff hbyte).1 h
      obtain ⟨_, -, hend, rfl⟩ := exists_steps_of_run h
      obtain ⟨states', rfl, hsteps'⟩ := hsteps.exists_cons hbyte hend
      obtain ⟨hknown, hdepth, hadmits'⟩ := Policy.admits_cons_iff.1 hadmits
      rw [hopcode] at hknown
      rw [hstack] at hdepth
      rw [next_under] at hsteps'
      obtain ⟨hnext, hbudget'⟩ := within_of_admits hsteps' hadmits' hdepth
      obtain ⟨left', hrun⟩ := (ih hnext hbudget').2 ⟨states', left, hrest, hsteps', hadmits'⟩
      have hpass := (faultOf_under_eq_none_iff hin).2 ⟨hfree, hknown, hnext⟩
      exact ⟨left', (run_under_eq_ok_iff hbyte).2
        ⟨fun limit hl => (hcount limit).2 (hbudget' limit hl), hpass, hrun⟩⟩

/-- A run under a policy reports exactly what the run without one reports, provided that the policy
admits its log and its report. Hence a run that reports under a policy reports the same under any
policy that is no tighter. -/
theorem run_load_ok_iff (code : Bytes) (p : Policy) (r : Report) :
    ((∃ left, (load code p).run = .ok r left) ↔
      ∃ states left, (load code).run = .ok r left ∧ Steps (load code) states left ∧
        p.Admits states r) ∧
      ∀ loose : Policy, loose.Relaxes p → (∃ left, (load code p).run = .ok r left) →
        ∃ left, (load code loose).run = .ok r left := by
  have hfresh : ∀ q : Policy, q.Within (load code) ∧
      ∀ limit, q.stepLimit = some limit → (load code).steps ≤ limit :=
    fun q => ⟨⟨fun _ _ => Nat.zero_le _, fun _ _ => Nat.zero_le _⟩, fun _ _ => Nat.zero_le _⟩
  have hguard : ∀ q : Policy, (∃ left, (load code q).run = .ok r left) ↔
      ∃ states left, (load code).run = .ok r left ∧ Steps (load code) states left ∧
        q.Admits states r :=
    fun q => run_under_iff (hfresh q).1 (hfresh q).2
  refine ⟨hguard p, fun loose hrelax hrun => ?_⟩
  obtain ⟨states, left, hfree, hsteps, hadmits⟩ := (hguard p).1 hrun
  exact (hguard loose).2 ⟨states, left, hfree, hsteps, hadmits.relax hrelax⟩

end Machine

end WordMachine
