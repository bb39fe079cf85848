import ClassMachine.Proofs.Machine.Shift
import ClassMachine.Proofs.Machine.Trace

/-!
# Runs beside shifted runs

Since actions are mirrored, so is a step at which both runs dispatch the same instruction, and
so is the step that ends a run.  A whole run is followed step by step, where the other run may
need more steps than one, as long as no excused fault occurs.
-/

namespace ClassMachine

open Execution

namespace Machine

/-- The machine has halted with a fault whose cause is excused. -/
def Excused (excused : FaultCause → Prop) (m : Machine) : Prop :=
  ∃ fault, m.status = .halted (.faulted fault) ∧ excused fault.cause

theorem Live.machine {m : Machine} (h : m.Live) (s : Shift) (ahead : Nat) :
    (s.machine ahead m).Live := by
  intro halt hhalted
  simp only [Shift.machine] at hhalted
  cases hstatus : m.status with
  | halted found => exact h found hstatus
  | ready | running =>
      rw [hstatus] at hhalted
      cases hhalted

theorem not_excused_of_outcome? {m : Machine} {excused : FaultCause → Prop} {outcome : Outcome}
    (h : m.outcome? = some outcome)
    (hkept : ∀ fault, outcome.halt = .faulted fault → ¬excused fault.cause) :
    ¬m.Excused excused := by
  rintro ⟨fault, hhalted, hexcused⟩
  rw [outcome?, hhalted] at h
  cases h
  exact hkept fault rfl hexcused

end Machine

open Machine

namespace Shift.Relates

variable {s : Shift} {excused : FaultCause → Prop} {p p' : Program} {config config' : Config}
  {m : Machine} (h : s.Relates excused p p') (hfree : config.maxInstructions = none)
  (hfree' : config'.maxInstructions = none)

include h hfree hfree'

theorem fetch (ahead : Nat)
    (hnext : ∀ i, p.instructionAt? m.pc = some i →
      p'.instructionAt? (m.pc + s.distance) = some (s.instruction i) ∧
        (i.action? = some .unhandled → config'.unhandled = config.unhandled)) :
    s.Corresponds excused ahead (Execution.fetch p config m)
      (Execution.fetch p' config' (s.machine ahead m)) := by
  have hlimit := Config.exhaustedLimit?_of_none hfree m.executed
  have hlimit' := Config.exhaustedLimit?_of_none hfree' (s.machine ahead m).executed
  have hpc : (s.machine ahead m).pc = m.pc + s.distance := rfl
  by_cases hend : p.codeSize ≤ m.pc
  · have hend' : p'.codeSize ≤ m.pc + s.distance := by
      rw [h.codeSize_eq]
      omega
    simp only [Execution.fetch, if_pos hend, hpc, if_pos hend']
    rfl
  · have hend' : ¬p'.codeSize ≤ m.pc + s.distance := by
      rw [h.codeSize_eq]
      omega
    cases hi : p.instructionAt? m.pc with
    | none =>
        simp only [Execution.fetch, if_neg hend, hi, hpc, if_neg hend']
        cases hi' : p'.instructionAt? (m.pc + s.distance) with
        | none =>
            refine Or.inr ?_
            simp only [Shift.cause, Int.natCast_add]
        | some found => exact Or.inl (h.excused_of_instructionAt? hi hi')
    | some i =>
        obtain ⟨hi', hpolicy⟩ := hnext i hi
        obtain ⟨action, haction⟩ :=
          Option.isSome_iff_exists.mp (Instruction.action?_isSome (Program.operands_length hi))
        have hperform : s.Corresponds excused ahead
            (perform p config.unhandled i action (m.moved i.nextOffset m.stack 1))
            (perform p' config'.unhandled (s.instruction i) action
              (s.machine ahead (m.moved i.nextOffset m.stack 1))) :=
          Mirrors.perform h (fun hunhandled => hpolicy (by rw [haction, hunhandled])) ahead _
        have hmoved : s.machine ahead (m.moved i.nextOffset m.stack 1) =
            (s.machine ahead m).moved (s.instruction i).nextOffset (s.machine ahead m).stack 1 := by
          simp only [Shift.machine, Machine.moved, s.nextOffset_instruction, Nat.add_right_comm]
        rw [hmoved] at hperform
        simp only [Execution.fetch, if_neg hend, hi, hlimit, Execution.evaluate, haction, hpc,
          if_neg hend', hi', hlimit', s.action?_instruction]
        exact hperform

/-- The step of the other run from a machine where both dispatch the same. -/
theorem after_step (ahead : Nat) (hlive : m.Live)
    (hnext : ∀ i, p.instructionAt? m.pc = some i →
      p'.instructionAt? (m.pc + s.distance) = some (s.instruction i) ∧
        (i.action? = some .unhandled → config'.unhandled = config.unhandled))
    (hkept : ¬(after (step p config) m).Excused excused) :
    after (step p' config') (s.machine ahead m) =
      s.machine ahead (after (step p config) m) := by
  have hfetch := h.fetch hfree hfree' (m := m.started) ahead hnext
  have hstart : (s.machine ahead m).started = s.machine ahead m.started := rfl
  have hline := h.lineFor?_eq m.pc
  rw [after, step_of_live hlive] at hkept
  rw [after, after, step_of_live hlive, step_of_live (hlive.machine s ahead), hstart]
  cases hresult : Execution.fetch p config m.started with
  | ok flow m' =>
      rw [hresult] at hfetch
      rw [hfetch]
      cases flow <;> rfl
  | error cause m' =>
      rw [hresult] at hfetch hkept
      obtain hexcused | hfetch := hfetch
      · exact absurd ⟨_, rfl, hexcused⟩ hkept
      · have hpc : (s.machine ahead m).pc = m.pc + s.distance := rfl
        rw [hfetch]
        simp only [settle, hpc, hline]
        rfl

end Shift.Relates

namespace Machine

variable {s : Shift} {excused : FaultCause → Prop} {p p' : Program} {config config' : Config}
  {m : Machine} {n : Nat}

/-- When the other run answers every step of a run by one step and some more for the instruction
that the step dispatches, it comes to the shifted machine in the end. -/
theorem exists_after_runFor_machine {extra : Instruction → Nat}
    (hstep : ∀ ahead m, m.Live → ¬(after (step p config) m).Excused excused →
      let more := ((dispatched? p config m).toList.map extra).sum
      after (runFor p' config' (1 + more)) (s.machine ahead m) =
        s.machine (ahead + more) (after (step p config) m))
    (ahead : Nat) (hkept : ¬(after (runFor p config n) m).Excused excused) :
    ∃ steps, after (runFor p' config' steps) (s.machine ahead m) =
      s.machine (ahead + ((dispatched p config n m).map extra).sum)
        (after (runFor p config n) m) := by
  induction n generalizing ahead m with
  | zero => exact ⟨0, rfl⟩
  | succ n ih =>
      obtain hlive | ⟨halt, hhalted⟩ := m.live_or_halted
      · rw [after_runFor_succ] at hkept ⊢
        have hfirst : ¬(after (step p config) m).Excused excused := by
          rintro ⟨fault, hhalted, hexcused⟩
          rw [after_runFor_of_halted hhalted] at hkept
          exact hkept ⟨fault, hhalted, hexcused⟩
        let more := ((dispatched? p config m).toList.map extra).sum
        obtain ⟨steps, hsteps⟩ := ih (ahead + more) hkept
        refine ⟨1 + more + steps, ?_⟩
        rw [after_runFor_add, hstep ahead m hlive hfirst, hsteps, dispatched, List.map_append,
          List.sum_append, ← Nat.add_assoc]
      · refine ⟨0, ?_⟩
        rw [dispatched_of_halted hhalted, after_runFor_of_halted hhalted]
        rfl

end Machine

end ClassMachine
