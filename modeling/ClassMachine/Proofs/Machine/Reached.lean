import ClassMachine.Proofs.Machine.Trace

/-!
# Machines that a run reaches

Each step of a run reaches one more machine.  What holds of the initial machine and is kept by
every step holds of all of them, and a machine that has halted was left behind by a step of a
machine that had not.
-/

namespace ClassMachine

namespace Machine

variable {p : Program} {config : Config} {n k : Nat}

/-- The machine behind so many steps of a run, however they came out. -/
def reached (p : Program) (config : Config) : (steps : Nat) → Machine
  | 0 => initial p
  | steps + 1 => after (step p config) (reached p config steps)

theorem reached_succ : reached p config (n + 1) = after (step p config) (reached p config n) := rfl

theorem reached_eq_after_runFor (p : Program) (config : Config) (n : Nat) :
    reached p config n = after (runFor p config n) (initial p) := by
  induction n with
  | zero => rfl
  | succ n ih => rw [reached_succ, ih, after_runFor_add, after_runFor_one]

theorem reached_induction {motive : Machine → Prop} (hinitial : motive (initial p))
    (hstep : ∀ m, motive m → motive (after (step p config) m)) (n : Nat) :
    motive (reached p config n) := by
  induction n with
  | zero => exact hinitial
  | succ n ih => exact hstep _ ih

/-- What a run from the beginning ends with is the outcome of the first halted machine it reaches. -/
theorem outcome?_of_reached (h : (reached p config n).outcome?.isSome) :
    (reached p config n).outcome? = some (runToHalt p config (initial p)) := by
  rw [reached_eq_after_runFor] at h ⊢
  exact outcome?_after_runFor h

theorem reached_of_reached_halted {halt : Halt} (hle : n ≤ k)
    (h : (reached p config n).status = .halted halt) : reached p config k = reached p config n := by
  induction hle with
  | refl => rfl
  | step _ ih => rw [reached_succ, ih, after_step_of_halted h]

theorem dispatched_add (p : Program) (config : Config) (n k : Nat) (m : Machine) :
    dispatched p config (n + k) m =
      dispatched p config n m ++ dispatched p config k (after (runFor p config n) m) := by
  induction n generalizing m with
  | zero => rw [Nat.zero_add, dispatched, List.nil_append, after_runFor_zero]
  | succ n ih =>
      rw [Nat.add_right_comm, dispatched, ih, dispatched, List.append_assoc, after_runFor_succ]

theorem dispatched_initial_succ (p : Program) (config : Config) (n : Nat) :
    dispatched p config (n + 1) (initial p) =
      dispatched p config n (initial p) ++ (dispatched? p config (reached p config n)).toList := by
  rw [dispatched_add, ← reached_eq_after_runFor, dispatched, dispatched, List.append_nil]

/-- A halted machine was halted by one of the steps that led to it. -/
theorem exists_live_of_reached_halted {halt : Halt}
    (h : (reached p config n).status = .halted halt) :
    ∃ k < n, (reached p config k).Live ∧ reached p config (k + 1) = reached p config n := by
  induction n with
  | zero => cases h
  | succ n ih =>
      obtain hlive | ⟨halt', hhalted⟩ := (reached p config n).live_or_halted
      · exact ⟨n, Nat.lt_succ_self n, hlive, rfl⟩
      · have hstays : reached p config (n + 1) = reached p config n :=
          reached_of_reached_halted n.le_succ hhalted
        rw [hstays] at h ⊢
        obtain ⟨k, hk, hlive, hsame⟩ := ih h
        exact ⟨k, Nat.lt_succ_of_lt hk, hlive, hsame⟩

end Machine

end ClassMachine
