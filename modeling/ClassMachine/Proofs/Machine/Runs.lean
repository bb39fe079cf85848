import ClassMachine.Launch
import ClassMachine.Proofs.Machine.Steps

/-!
# Runs of a machine

The answer of a step tells the status of the machine behind it, and a machine that has
halted stays as it is.  So the machine behind a number of steps is the same however the
steps are grouped, and the outcome of a machine that halts does not depend on the number
of steps that it is given.  A limit on the instructions makes every machine halt.
-/

namespace ClassMachine

namespace Machine

variable {p : Program} {config : Config} {m m' : Machine} {n k : Nat}

theorem status_final_fetch (p : Program) (config : Config) (m : Machine) :
    ((Execution.fetch p config).final m).status = m.status := by
  rcases fetch_cases p config m with
    ⟨_, hfetch⟩ | ⟨_, hfetch⟩ | ⟨_, _, hfetch⟩ | ⟨i, action, _, _, _, hfetch⟩
  · rw [Execution.final_of_ok hfetch]
  · rw [Execution.final_of_error hfetch]
  · rw [Execution.final_of_error hfetch]
  · rw [Execution.final_congr hfetch]
    have hkept : Execution.Tolerant fun m m' => m'.status = m.status :=
      .of_keeps (fun _ _ => rfl) (fun _ _ => rfl) (fun _ _ => rfl) (fun _ _ => rfl)
    exact Execution.Respects.perform hkept (fun _ _ _ => rfl) (m.moved i.nextOffset m.stack 1)

/-- The answer of a step is the status of the machine behind it. -/
theorem step_cases (p : Program) (config : Config) (m : Machine) :
    (∃ m', step p config m = .ok true m' ∧ m'.status = .running) ∨
      (∃ m', step p config m = .ok false m' ∧ m'.status = .halted .normal) ∨
      ∃ fault m', step p config m = .error fault m' ∧ m'.status = .halted (.faulted fault) := by
  cases hstatus : m.status with
  | halted halt =>
      right
      cases halt with
      | normal => exact .inl ⟨m, by simp only [step, hstatus], hstatus⟩
      | faulted fault => exact .inr ⟨fault, m, by simp only [step, hstatus], hstatus⟩
  | ready | running =>
      simp only [step, hstatus]
      cases hfetch : Execution.fetch p config { m with status := .running } with
      | ok flow m' =>
          cases flow with
          | next =>
              have hkept := status_final_fetch p config { m with status := .running }
              rw [Execution.final_of_ok hfetch] at hkept
              exact .inl ⟨m', rfl, hkept⟩
          | halt => exact .inr (.inl ⟨_, rfl, rfl⟩)
      | error cause m' => exact .inr (.inr ⟨_, _, rfl, rfl⟩)

theorem step_of_halted (p : Program) (config : Config) {halt : Halt}
    (h : m.status = .halted halt) :
    step p config m = .ok false m ∨ ∃ fault, step p config m = .error fault m := by
  cases halt with
  | normal => exact .inl (by simp only [step, h])
  | faulted fault => exact .inr ⟨fault, by simp only [step, h]⟩

theorem after_of_ok {x : Stepper α} {a : α} (h : x m = .ok a m') : after x m = m' := by
  rw [after, h]

theorem after_of_error {x : Stepper α} {fault : Fault} (h : x m = .error fault m') :
    after x m = m' := by
  rw [after, h]

theorem after_runFor_zero : after (runFor p config 0) m = m := rfl

theorem after_runFor_of_halted {halt : Halt} (h : m.status = .halted halt) :
    after (runFor p config n) m = m := by
  cases n with
  | zero => rfl
  | succ n =>
      rw [after, runFor_succ]
      rcases step_of_halted p config h with hstep | ⟨fault, hstep⟩
      · rw [hstep]
      · rw [hstep]

theorem after_runFor_succ :
    after (runFor p config (n + 1)) m = after (runFor p config n) (after (step p config) m) := by
  rcases step_cases p config m with ⟨m', hstep, _⟩ | ⟨m', hstep, hhalt⟩ | ⟨fault, m', hstep, hhalt⟩
  · rw [after_of_ok hstep, after, runFor_succ, hstep, after]
  · rw [after_of_ok hstep, after_runFor_of_halted hhalt, after, runFor_succ, hstep]
  · rw [after_of_error hstep, after_runFor_of_halted hhalt, after, runFor_succ, hstep]

theorem after_runFor_add :
    after (runFor p config (n + k)) m =
      after (runFor p config k) (after (runFor p config n) m) := by
  induction n generalizing m with
  | zero => rw [Nat.zero_add, after_runFor_zero]
  | succ n ih => rw [Nat.add_right_comm, after_runFor_succ, ih, ← after_runFor_succ]

theorem after_runFor_one : after (runFor p config 1) m = after (step p config) m := by
  rw [after_runFor_succ, after_runFor_zero]

theorem after_step_of_halted {halt : Halt} (h : m.status = .halted halt) :
    after (step p config) m = m := by
  rw [← after_runFor_one, after_runFor_of_halted h]

theorem outcome?_isSome_iff : m.outcome?.isSome ↔ ∃ halt, m.status = .halted halt := by
  unfold outcome?
  cases m.status with
  | halted halt => exact ⟨fun _ => ⟨halt, rfl⟩, fun _ => rfl⟩
  | ready | running => simp

theorem after_runFor_of_outcome? (h : (after (runFor p config n) m).outcome?.isSome)
    (hle : n ≤ k) : after (runFor p config k) m = after (runFor p config n) m := by
  obtain ⟨halt, hhalt⟩ := outcome?_isSome_iff.mp h
  obtain ⟨more, rfl⟩ := Nat.exists_eq_add_of_le hle
  rw [after_runFor_add, after_runFor_of_halted hhalt]

/-- A step that leaves the machine running has executed one instruction, which the budget
allowed. -/
theorem executed_of_step_running (h : step p config m = .ok true m') :
    m'.executed = m.executed + 1 ∧ config.exhaustedLimit? m.executed = none := by
  have hfetch : Execution.fetch p config { m with status := .running } = .ok .next m' := by
    unfold step at h
    split at h
    · cases h
    · cases h
    all_goals
      unfold settle at h
      split at h <;> cases h
      assumption
  -- only an executed instruction makes the machine go on
  rcases fetch_cases p config { m with status := .running } with
    ⟨_, hcase⟩ | ⟨_, hcase⟩ | ⟨_, _, hcase⟩ | ⟨i, action, _, _, hlimit, hcase⟩
  · rw [hcase] at hfetch
    cases hfetch
  · rw [hcase] at hfetch
    cases hfetch
  · rw [hcase] at hfetch
    cases hfetch
  · rw [hcase] at hfetch
    let dispatched := moved { m with status := .running } i.nextOffset m.stack 1
    have hexecuted :
        ((Execution.perform p config.unhandled i action).final dispatched).executed =
          m.executed + 1 :=
      Execution.executed_final_perform dispatched
    rw [Execution.final_of_ok hfetch] at hexecuted
    exact ⟨hexecuted, hlimit⟩

theorem executed_of_runFor_running (h : runFor p config n m = .ok true m') :
    m'.executed = m.executed + n := by
  induction n generalizing m with
  | zero =>
      cases h
      rfl
  | succ n ih =>
      rw [runFor_succ] at h
      cases hstep : step p config m with
      | error fault middle =>
          rw [hstep] at h
          cases h
      | ok running middle =>
          rw [hstep] at h
          cases running with
          | false => cases h
          | true => rw [ih h, (executed_of_step_running hstep).1, Nat.add_right_comm, Nat.add_assoc]

theorem runFor_cases (p : Program) (config : Config) (n : Nat) (m : Machine) :
    (∃ m', runFor p config n m = .ok true m') ∨
      (after (runFor p config n) m).outcome?.isSome := by
  induction n generalizing m with
  | zero => exact .inl ⟨m, rfl⟩
  | succ n ih =>
      rw [runFor_succ, after_runFor_succ]
      rcases step_cases p config m with ⟨m', hstep, _⟩ | ⟨m', hstep, hhalt⟩ | ⟨_, m', hstep, hhalt⟩
      · rw [after_of_ok hstep, hstep]
        exact ih m'
      · rw [after_of_ok hstep, after_runFor_of_halted hhalt]
        exact .inr (outcome?_isSome_iff.mpr ⟨_, hhalt⟩)
      · rw [after_of_error hstep, after_runFor_of_halted hhalt]
        exact .inr (outcome?_isSome_iff.mpr ⟨_, hhalt⟩)

/-- With a limit, the step behind the last instruction that it allows halts the machine. -/
theorem outcome?_isSome_of_limit {limit : Nat} (hlimit : config.maxInstructions = some limit)
    (hexecuted : m.executed = 0) :
    (after (runFor p config (limit + 1)) m).outcome?.isSome := by
  rcases runFor_cases p config limit m with ⟨last, hrun⟩ | hhalted
  · have hspent : config.exhaustedLimit? last.executed = some limit := by
      have hcount := executed_of_runFor_running hrun
      rw [hexecuted, Nat.zero_add] at hcount
      simp [Config.exhaustedLimit?, hlimit, hcount]
    rw [after_runFor_add, after_of_ok hrun, after_runFor_succ, after_runFor_zero,
      outcome?_isSome_iff]
    rcases step_cases p config last with
      ⟨m', hstep, _⟩ | ⟨m', hstep, hhalt⟩ | ⟨_, m', hstep, hhalt⟩
    · have hallowed := (executed_of_step_running hstep).2
      rw [hspent] at hallowed
      cases hallowed
    · exact ⟨_, after_of_ok hstep ▸ hhalt⟩
    · exact ⟨_, after_of_error hstep ▸ hhalt⟩
  · rw [after_runFor_of_outcome? hhalted (Nat.le_succ limit)]
    exact hhalted

end Machine

open Machine

variable {p : Program} {config : Config} {m m' : Machine} {n : Nat} {outcome : Outcome}

theorem advance_eq_inr_iff :
    advance p config m = .inr outcome ↔ (after (step p config) m).outcome? = some outcome := by
  cases houtcome : (after (step p config) m).outcome? <;> simp [advance, houtcome]

theorem advance_eq_inl_iff :
    advance p config m = .inl m' ↔
      (after (step p config) m).outcome? = none ∧ after (step p config) m = m' := by
  cases houtcome : (after (step p config) m).outcome? <;> simp [advance, houtcome]

theorem runToHalt_eq (p : Program) (config : Config) (m : Machine) :
    runToHalt p config m = (advance p config m).elim (runToHalt p config) id := by
  conv_lhs => rw [runToHalt, repeatM_eq_of_monadTail, repeatM.body, pure_bind]
  cases advance p config m <;> rfl

theorem advance_of_outcome? (h : m.outcome? = some outcome) :
    advance p config m = .inr outcome := by
  obtain ⟨halt, hhalt⟩ := outcome?_isSome_iff.mp (Option.isSome_of_eq_some h)
  rw [advance_eq_inr_iff, after_step_of_halted hhalt]
  exact h

/-- What holds of the machines that the next step halts, and of a machine when it holds behind
its next step, holds of every machine that halts. -/
theorem halting_induction {motive : Machine → Prop}
    (hhalts : ∀ m outcome, advance p config m = .inr outcome → motive m)
    (hgoes : ∀ m m', advance p config m = .inl m' → motive m' → motive m)
    (h : (after (runFor p config n) m).outcome?.isSome) : motive m := by
  induction n generalizing m with
  | zero =>
      obtain ⟨outcome, houtcome⟩ := Option.isSome_iff_exists.mp h
      exact hhalts m outcome (advance_of_outcome? houtcome)
  | succ n ih =>
      rw [after_runFor_succ] at h
      cases hadvance : advance p config m with
      | inr outcome => exact hhalts m outcome hadvance
      | inl m' =>
          obtain ⟨_, hnext⟩ := advance_eq_inl_iff.mp hadvance
          rw [hnext] at h
          exact hgoes m m' hadvance (ih h)

/-- Running to the halt gives the outcome that any sufficient number of steps gives. -/
theorem outcome?_after_runFor (h : (after (runFor p config n) m).outcome?.isSome) :
    (after (runFor p config n) m).outcome? = some (runToHalt p config m) := by
  induction n generalizing m with
  | zero =>
      obtain ⟨outcome, houtcome⟩ := Option.isSome_iff_exists.mp h
      rw [after_runFor_zero] at houtcome ⊢
      rw [runToHalt_eq, advance_of_outcome? houtcome]
      exact houtcome
  | succ n ih =>
      rw [runToHalt_eq, after_runFor_succ]
      rw [after_runFor_succ] at h
      cases hadvance : advance p config m with
      | inr outcome =>
          have houtcome := advance_eq_inr_iff.mp hadvance
          obtain ⟨halt, hhalt⟩ := outcome?_isSome_iff.mp (Option.isSome_of_eq_some houtcome)
          rw [after_runFor_of_halted hhalt]
          exact houtcome
      | inl m' =>
          obtain ⟨_, hnext⟩ := advance_eq_inl_iff.mp hadvance
          rw [hnext] at h ⊢
          exact ih h

end ClassMachine
