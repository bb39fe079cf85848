import ClassMachine.Proofs.Machine.Blanking
import ClassMachine.Proofs.Machine.Reached

/-!
# Runs under the two policies

The policy for opcodes without a meaning plays a part only when an instruction with such an opcode
is dispatched.  Up to there the run that skips these instructions and the run that fails at them
are the same.  There the second one halts, and it holds what the first one holds in front of that
instruction.  So a run that never fails for want of a meaning is the run that skips.
-/

namespace ClassMachine

namespace Machine

variable {p : Program} {limit : Option Nat} {policy policy' : UnhandledPolicy} {m : Machine}
variable {i : Instruction} {n k : Nat}

theorem evaluate_eq_of_handled (policy policy' : UnhandledPolicy) (h : i.isUnhandled = false) :
    Execution.evaluate p policy i = Execution.evaluate p policy' i := by
  unfold Execution.evaluate
  cases haction : i.action? with
  | none => rfl
  | some action =>
      cases action with
      | unhandled => simp [Instruction.isUnhandled, haction] at h
      | _ => rfl

theorem step_eq_of_handled
    (h : ∀ i, dispatched? p ⟨policy, limit⟩ m = some i → i.isUnhandled = false) :
    step p ⟨policy, limit⟩ m = step p ⟨policy', limit⟩ m := by
  rcases m.live_or_halted with hlive | ⟨halt, hhalted⟩
  · have hfetch : Execution.fetch p ⟨policy, limit⟩ m.started =
        Execution.fetch p ⟨policy', limit⟩ m.started := by
      cases hi : p.instructionAt? m.pc with
      | none => simp [Execution.fetch, started, hi]
      | some i =>
          -- the limit is that of both configurations
          have hsame : Config.exhaustedLimit? ⟨policy', limit⟩ m.executed =
              Config.exhaustedLimit? ⟨policy, limit⟩ m.executed := rfl
          cases hlimit : Config.exhaustedLimit? ⟨policy, limit⟩ m.executed with
          | some spent => simp [Execution.fetch, started, hi, hsame, hlimit]
          | none =>
              have hhandled := h i (dispatched?_eq_some_iff.mpr ⟨hlive, hlimit, hi⟩)
              simp [Execution.fetch, started, hi, hsame, hlimit,
                evaluate_eq_of_handled policy policy' hhandled]
    rw [step_of_live hlive, step_of_live hlive, hfetch]
  · cases halt <;> simp [step, hhalted]

/-- A run under the other policy is the same as long as no instruction asks for the policy. -/
theorem reached_eq_of_handled
    (h : ∀ i ∈ dispatched p ⟨policy, limit⟩ n (initial p), i.isUnhandled = false) :
    reached p ⟨policy', limit⟩ n = reached p ⟨policy, limit⟩ n := by
  induction n with
  | zero => rfl
  | succ n ih =>
      simp only [dispatched_initial_succ, List.mem_append, Option.mem_toList] at h
      have hpast := ih fun i hi => h i (.inl hi)
      have hstep : step p ⟨policy, limit⟩ (reached p ⟨policy, limit⟩ n) =
          step p ⟨policy', limit⟩ (reached p ⟨policy, limit⟩ n) := by
        apply step_eq_of_handled
        intro i hi
        exact h i (.inr hi)
      rw [reached_succ, reached_succ, hpast]
      exact (after_congr hstep).symm

/-- Either nothing in front of a step asks for the policy, or some step is the first to do so. -/
theorem handled_or_first (p : Program) (config : Config) (n : Nat) :
    (∀ i ∈ dispatched p config n (initial p), i.isUnhandled = false) ∨
      ∃ k < n, (∀ i ∈ dispatched p config k (initial p), i.isUnhandled = false) ∧
        ∃ i, dispatched? p config (reached p config k) = some i ∧ i.isUnhandled = true := by
  induction n with
  | zero => simp [dispatched]
  | succ n ih =>
      rcases ih with hpast | ⟨k, hk, hfirst⟩
      · cases hnext : dispatched? p config (reached p config n) with
        | none => simpa [dispatched_initial_succ, hnext] using Or.inl hpast
        | some i =>
            cases hunhandled : i.isUnhandled with
            | false =>
                left
                simp only [dispatched_initial_succ, hnext, List.mem_append, Option.mem_toList]
                rintro j (hj | hj)
                · exact hpast j hj
                · cases hj
                  exact hunhandled
            | true => exact .inr ⟨n, n.lt_succ_self, hpast, i, hnext, hunhandled⟩
      · exact .inr ⟨k, hk.trans n.lt_succ_self, hfirst⟩

/-- An instruction without a meaning is counted and passed before it halts the run. -/
theorem after_step_of_unhandled (h : dispatched? p ⟨.fail, limit⟩ m = some i)
    (hunhandled : i.isUnhandled = true) :
    let fault := Fault.mk (.unhandledOpcode i.opcode) m.pc (p.lineFor? m.pc)
    after (step p ⟨.fail, limit⟩) m =
      { m with
        pc := i.nextOffset
        executed := m.executed + 1
        status := .halted (.faulted fault) } := by
  intro fault
  have haction : i.action? = some .unhandled := by simpa [Instruction.isUnhandled] using hunhandled
  exact after_of_error (step_of_dispatched? h haction)

theorem reached_of_first_unhandled
    (hpast : ∀ i ∈ dispatched p ⟨.skip, limit⟩ n (initial p), i.isUnhandled = false)
    (h : dispatched? p ⟨.skip, limit⟩ (reached p ⟨.skip, limit⟩ n) = some i)
    (hunhandled : i.isUnhandled = true) (hlt : n < k) :
    let last := reached p ⟨.skip, limit⟩ n
    let fault := Fault.mk (.unhandledOpcode i.opcode) i.offset (p.lineFor? i.offset)
    reached p ⟨.fail, limit⟩ k =
      { last with
        pc := i.nextOffset
        executed := last.executed + 1
        status := .halted (.faulted fault) } := by
  intro last fault
  have hoffset : i.offset = last.pc :=
    Program.offset_of_instructionAt? (dispatched?_eq_some_iff.mp h).2.2
  have hhalts : reached p ⟨.fail, limit⟩ (n + 1) =
      { last with
        pc := i.nextOffset
        executed := last.executed + 1
        status := .halted (.faulted fault) } := by
    rw [reached_succ, reached_eq_of_handled hpast]
    simpa [fault, hoffset] using after_step_of_unhandled h hunhandled
  rw [reached_of_reached_halted hlt (by rw [hhalts]), hhalts]

/-- As long as the run that skips has met no instruction without a meaning, the run that fails is
the same, to the end if need be.  The first such instruction halts the run that fails: it is
counted, and all that the machine holds is left as it was.  A run that fails, but not at such an
instruction, is the run that skips. -/
theorem policies_reached (p : Program) (limit : Option Nat) (n : Nat) :
    let skipping : Config := ⟨.skip, limit⟩
    let failing : Config := ⟨.fail, limit⟩
    let last := reached p skipping n
    ((∀ i ∈ dispatched p skipping n (initial p), i.isUnhandled = false) →
      reached p failing n = last ∧
        (last.outcome?.isSome →
          runToHalt p failing (initial p) = runToHalt p skipping (initial p)) ∧
        ∀ i, dispatched? p skipping last = some i → i.isUnhandled = true →
          let fault := Fault.mk (.unhandledOpcode i.opcode) i.offset (p.lineFor? i.offset)
          ∀ k > n, reached p failing k =
            { last with
              pc := i.nextOffset
              executed := last.executed + 1
              status := .halted (.faulted fault) }) ∧
      ((∀ opcode pc line, (reached p failing n).status ≠
          .halted (.faulted ⟨.unhandledOpcode opcode, pc, line⟩)) →
        reached p failing n = last) := by
  intro skipping failing last
  constructor
  · intro hpast
    have hsame : reached p failing n = last := reached_eq_of_handled hpast
    refine ⟨hsame, ?_, ?_⟩
    · intro hhalts
      have hhalts' : (reached p failing n).outcome?.isSome := by simpa [hsame] using hhalts
      have houtcome := outcome?_of_reached hhalts
      have houtcome' := outcome?_of_reached hhalts'
      simpa [hsame, last, houtcome] using houtcome'.symm
    · intro i hi hunhandled fault k hk
      exact reached_of_first_unhandled hpast hi hunhandled hk
  · intro hother
    rcases handled_or_first p skipping n with hpast | ⟨k, hk, hpast, i, hi, hunhandled⟩
    · exact reached_eq_of_handled hpast
    · have hfaulted := reached_of_first_unhandled hpast hi hunhandled hk
      exact absurd (congrArg status hfaulted) (hother _ _ _)

/-- The second instruction has no meaning, and the limit would have allowed it. -/
theorem policies_reached_second :
    let p := Program.ofCode .empty none ⟨1, 0, [0x04, 0x58, 0xb1], [], []⟩
      #[⟨0, .iconst1, []⟩, ⟨1, .pop2, []⟩, ⟨2, .returnVoid, []⟩] (by decide +kernel)
    let p' := Program.ofCode .empty none ⟨1, 0, [0x04, 0xb1], [], []⟩
      #[⟨0, .iconst1, []⟩, ⟨1, .returnVoid, []⟩] (by decide +kernel)
    let skipping : Config := ⟨.skip, some 2⟩
    let failing : Config := ⟨.fail, some 2⟩
    let last := reached p skipping 1
    (∀ i ∈ dispatched p skipping 1 (initial p), i.isUnhandled = false) ∧
      dispatched? p skipping last = some ⟨1, .pop2, []⟩ ∧
        reached p failing 2 =
          { last with
            pc := 2
            executed := last.executed + 1
            status := .halted (.faulted ⟨.unhandledOpcode .pop2, 1, p.lineFor? 1⟩) } ∧
          last.stack = #[.int 1] ∧ last.executed = 1 ∧ (reached p failing 1).status = .running ∧
            reached p failing 1 = last ∧ (reached p' skipping 2).outcome?.isSome ∧
              runToHalt p' failing (initial p') = runToHalt p' skipping (initial p') := by
  intro p p' skipping failing last
  have hpast : ∀ i ∈ dispatched p skipping 1 (initial p), i.isUnhandled = false := by
    decide +kernel
  have hpast' : ∀ i ∈ dispatched p' skipping 2 (initial p'), i.isUnhandled = false := by
    decide +kernel
  have hnext : dispatched? p skipping last = some ⟨1, .pop2, []⟩ := by decide +kernel
  have hhalts : (reached p' skipping 2).outcome?.isSome := by decide +kernel
  have hrunning : (reached p failing 1).status = .running := by decide +kernel
  rcases policies_reached p (some 2) 1 with ⟨hfirst, hother⟩
  refine ⟨hpast, hnext, ?_, by decide +kernel, by decide +kernel, hrunning, ?_, hhalts, ?_⟩
  · exact (hfirst hpast).2.2 _ hnext (by decide +kernel) 2 (by decide)
  · apply hother
    simp [failing, hrunning]
  · exact ((policies_reached p' (some 2) 2).1 hpast').2.1 hhalts

end Machine

end ClassMachine
