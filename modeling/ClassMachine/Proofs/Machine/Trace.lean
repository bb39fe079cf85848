import ClassMachine.Proofs.Machine.Runs

/-!
# Dispatched instructions

A step dispatches the instruction at the place of the machine, unless the machine has halted, no
instruction starts there, or the budget is exhausted.  A step that dispatches none halts the
machine and changes nothing else, so the count of executed instructions grows by the number of
instructions that were dispatched.
-/

namespace ClassMachine

namespace Machine

variable {p : Program} {config config' : Config} {m : Machine} {i : Instruction} {n k : Nat}

/-- The machine has not halted yet. -/
def Live (m : Machine) : Prop := ∀ halt, m.status ≠ .halted halt

theorem live_of_running (h : m.status = .running) : m.Live := by
  intro halt hhalted
  rw [h] at hhalted
  cases hhalted

theorem live_initial (p : Program) : (initial p).Live := by
  intro halt hhalted
  cases hhalted

theorem live_or_halted (m : Machine) : m.Live ∨ ∃ halt, m.status = .halted halt := by
  by_cases h : ∃ halt, m.status = .halted halt
  · exact .inr h
  · exact .inl fun halt hhalted => h ⟨halt, hhalted⟩

theorem outcome?_eq_none_of_live (h : m.Live) : m.outcome? = none := by
  rw [← Option.not_isSome_iff_eq_none, outcome?_isSome_iff]
  rintro ⟨halt, hhalted⟩
  exact h halt hhalted

/-- The machine as its next step takes it up. -/
def started (m : Machine) : Machine := { m with status := .running }

theorem step_of_live (h : m.Live) :
    step p config m = settle p m.pc (Execution.fetch p config m.started) := by
  cases hstatus : m.status with
  | halted halt => exact absurd hstatus (h halt)
  | ready | running => simp only [step, hstatus, started]

/-- Numbers of steps that suffice to halt lead to the same machine. -/
theorem after_runFor_eq_of_outcome? (hn : (after (runFor p config n) m).outcome?.isSome)
    (hk : (after (runFor p config k) m).outcome?.isSome) :
    after (runFor p config n) m = after (runFor p config k) m := by
  obtain hle | hle := Nat.le_total n k
  · exact (after_runFor_of_outcome? hn hle).symm
  · exact after_runFor_of_outcome? hk hle

theorem not_live_of_outcome? (h : m.outcome?.isSome) : ¬m.Live := by
  intro hlive
  rw [outcome?_eq_none_of_live hlive] at h
  cases h

theorem after_congr {x y : Stepper α} (h : x m = y m) : after x m = after y m := by
  rw [after, after, h]

theorem live_started (m : Machine) : m.started.Live := live_of_running rfl

theorem after_runFor_succ_started (h : m.Live) :
    after (runFor p config (n + 1)) m.started = after (runFor p config (n + 1)) m := by
  have hstep : after (step p config) m.started = after (step p config) m := by
    rw [after, after, step_of_live h, step_of_live m.live_started]
    rfl
  rw [after_runFor_succ, after_runFor_succ, hstep]

/-- Starting a machine makes no difference to how its run ends. -/
theorem outcome?_after_runFor_started (h : m.Live) :
    (after (runFor p config n) m.started).outcome? = (after (runFor p config n) m).outcome? := by
  cases n with
  | zero =>
      rw [after_runFor_zero, after_runFor_zero, outcome?_eq_none_of_live h,
        outcome?_eq_none_of_live m.live_started]
  | succ n => rw [after_runFor_succ_started h]

/-- The instruction that the next step dispatches. -/
def dispatched? (p : Program) (config : Config) (m : Machine) : Option Instruction :=
  match m.status with
  | .halted _ => none
  | .ready | .running =>
      match config.exhaustedLimit? m.executed with
      | some _ => none
      | none => p.instructionAt? m.pc

theorem dispatched?_of_halted {halt : Halt} (h : m.status = .halted halt) :
    dispatched? p config m = none := by
  simp only [dispatched?, h]

theorem dispatched?_of_live (h : m.Live) (hlimit : config.exhaustedLimit? m.executed = none) :
    dispatched? p config m = p.instructionAt? m.pc := by
  cases hstatus : m.status with
  | halted halt => exact absurd hstatus (h halt)
  | ready | running => simp only [dispatched?, hstatus, hlimit]

theorem dispatched?_eq_some_iff :
    dispatched? p config m = some i ↔
      m.Live ∧ config.exhaustedLimit? m.executed = none ∧ p.instructionAt? m.pc = some i := by
  obtain hlive | ⟨halt, hhalted⟩ := m.live_or_halted
  · cases hlimit : config.exhaustedLimit? m.executed with
    | none =>
        rw [dispatched?_of_live hlive hlimit]
        exact ⟨fun hi => ⟨hlive, rfl, hi⟩, fun h => h.2.2⟩
    | some limit =>
        unfold dispatched?
        split <;> simp [hlimit]
  · rw [dispatched?_of_halted hhalted]
    constructor
    · intro h
      cases h
    · rintro ⟨hlive, _⟩
      exact absurd hhalted (hlive halt)

theorem step_of_dispatched? {action : Action} (h : dispatched? p config m = some i)
    (haction : i.action? = some action) :
    step p config m =
      settle p m.pc
        (Execution.perform p config.unhandled i action
          (m.started.moved i.nextOffset m.stack 1)) := by
  obtain ⟨hlive, hlimit, hi⟩ := dispatched?_eq_some_iff.mp h
  have hinside : ¬p.codeSize ≤ m.pc := Nat.not_le_of_lt (Program.offset_lt_codeSize hi)
  rw [step_of_live hlive]
  simp only [started, Execution.fetch, if_neg hinside, hi, hlimit, Execution.evaluate, haction]
  rfl

/-- A step that dispatches no instruction only halts the machine. -/
theorem after_step_of_dispatched?_eq_none (h : dispatched? p config m = none) :
    ∃ halt, after (step p config) m = { m with status := .halted halt } := by
  obtain hlive | ⟨halt, hhalted⟩ := m.live_or_halted
  · rw [after, step_of_live hlive]
    rcases fetch_cases p config m.started with
      ⟨_, hfetch⟩ | ⟨_, hfetch⟩ | ⟨_, _, hfetch⟩ | ⟨i, action, hi, _, hlimit, hfetch⟩
    · rw [hfetch]
      exact ⟨.normal, rfl⟩
    · rw [hfetch]
      exact ⟨_, rfl⟩
    · rw [hfetch]
      exact ⟨_, rfl⟩
    · rw [dispatched?_eq_some_iff.mpr ⟨hlive, hlimit, hi⟩] at h
      cases h
  · refine ⟨halt, ?_⟩
    rw [← hhalted, after_step_of_halted hhalted]

/-- The instructions that the next steps dispatch, in order. -/
def dispatched (p : Program) (config : Config) : (steps : Nat) → Machine → List Instruction
  | 0, _ => []
  | steps + 1, m =>
      (dispatched? p config m).toList ++ dispatched p config steps (after (step p config) m)

theorem dispatched_of_halted {halt : Halt} (h : m.status = .halted halt) :
    dispatched p config n m = [] := by
  induction n with
  | zero => rfl
  | succ n ih =>
      rw [dispatched, dispatched?_of_halted h, after_step_of_halted h, ih]
      rfl

theorem executed_after_step (p : Program) (config : Config) (m : Machine) :
    (after (step p config) m).executed =
      m.executed + (dispatched? p config m).toList.length := by
  cases h : dispatched? p config m with
  | none =>
      obtain ⟨halt, hafter⟩ := after_step_of_dispatched?_eq_none h
      rw [hafter]
      rfl
  | some i =>
      obtain ⟨_, _, hi⟩ := dispatched?_eq_some_iff.mp h
      obtain ⟨action, haction⟩ :=
        Option.isSome_iff_exists.mp (Instruction.action?_isSome (Program.operands_length hi))
      have hcount : ((Execution.perform p config.unhandled i action).final
          (m.started.moved i.nextOffset m.stack 1)).executed = m.executed + 1 :=
        Execution.executed_final_perform _
      rw [after, step_of_dispatched? h haction]
      revert hcount
      unfold Execution.final
      generalize Execution.perform p config.unhandled i action _ = result
      intro hcount
      rcases result with ⟨flow, m'⟩ | ⟨cause, m'⟩
      · cases flow <;> exact hcount
      · exact hcount

theorem executed_after_runFor (p : Program) (config : Config) (n : Nat) (m : Machine) :
    (after (runFor p config n) m).executed =
      m.executed + (dispatched p config n m).length := by
  induction n generalizing m with
  | zero => rfl
  | succ n ih =>
      rw [after_runFor_succ, ih, executed_after_step, dispatched, List.length_append,
        Nat.add_assoc]

theorem length_dispatched_le (p : Program) (config : Config) (n : Nat) (m : Machine) :
    (dispatched p config n m).length ≤ n := by
  induction n generalizing m with
  | zero => exact Nat.le_refl 0
  | succ n ih =>
      have hrest := ih (after (step p config) m)
      rw [dispatched, List.length_append]
      cases dispatched? p config m <;> simp only [Option.toList_none, Option.toList_some,
        List.length_nil, List.length_singleton] <;> omega

/-- Every step of a machine that has not halted by then dispatches an instruction. -/
theorem length_dispatched_of_live (h : (after (runFor p config n) m).Live) :
    (dispatched p config n m).length = n := by
  induction n generalizing m with
  | zero => rfl
  | succ n ih =>
      rw [after_runFor_succ] at h
      cases hnext : dispatched? p config m with
      | none =>
          obtain ⟨halt, hafter⟩ := after_step_of_dispatched?_eq_none hnext
          have hhalted : (after (step p config) m).status = .halted halt := by rw [hafter]
          rw [after_runFor_of_halted hhalted] at h
          exact absurd hhalted (h halt)
      | some i =>
          rw [dispatched, hnext, List.length_append, ih h]
          simp only [Option.toList_some, List.length_singleton]
          omega

theorem executed_le_after_runFor (p : Program) (config : Config) (n : Nat) (m : Machine) :
    m.executed ≤ (after (runFor p config n) m).executed := by
  rw [executed_after_runFor]
  exact Nat.le_add_right _ _

end Machine

end ClassMachine
