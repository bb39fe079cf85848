import ClassMachine.Proofs.Machine.Trace

/-!
# Runs under a limit

As long as fewer instructions were executed than a limit allows, a step under the limit is the
step without one.  So the run under a limit is the run without one, cut off behind as many
instructions: it is the same run when that one halts in time, and else it halts at the first
instruction that the limit does not cover.
-/

namespace ClassMachine

namespace Machine

variable {p : Program} {config config' : Config} {policy : UnhandledPolicy} {limit n k : Nat}
  {m : Machine}

theorem step_eq_of_exhaustedLimit?_eq (hpolicy : config.unhandled = config'.unhandled)
    (hlimit : config.exhaustedLimit? m.executed = config'.exhaustedLimit? m.executed) :
    step p config m = step p config' m := by
  obtain hlive | ⟨halt, hhalted⟩ := m.live_or_halted
  · have hlimit' : config.exhaustedLimit? m.started.executed =
        config'.exhaustedLimit? m.started.executed := hlimit
    rw [step_of_live hlive, step_of_live hlive]
    simp only [Execution.fetch, hlimit', hpolicy]
  · cases halt <;> simp only [step, hhalted]

/-- Where no instruction starts the configuration plays no part. -/
theorem step_eq_of_instructionAt?_eq_none (h : p.instructionAt? m.pc = none) :
    step p config m = step p config' m := by
  obtain hlive | ⟨halt, hhalted⟩ := m.live_or_halted
  · have h' : p.instructionAt? m.started.pc = none := h
    rw [step_of_live hlive, step_of_live hlive]
    simp only [Execution.fetch, h']
  · cases halt <;> simp only [step, hhalted]

theorem exhaustedLimit?_limited (executed : Nat) :
    Config.exhaustedLimit? ⟨policy, some limit⟩ executed =
      if limit ≤ executed then some limit else none := by
  simp only [Config.exhaustedLimit?, Option.filter_some, decide_eq_true_eq]

theorem step_limited_of_lt (h : m.executed < limit) :
    step p ⟨policy, some limit⟩ m = step p ⟨policy, none⟩ m := by
  refine step_eq_of_exhaustedLimit?_eq (by rfl) ?_
  rw [exhaustedLimit?_limited, if_neg (Nat.not_le_of_lt h), Config.exhaustedLimit?_of_none rfl]

theorem after_runFor_limited (h : m.executed + n ≤ limit) :
    after (runFor p ⟨policy, some limit⟩ n) m = after (runFor p ⟨policy, none⟩ n) m := by
  induction n with
  | zero => rfl
  | succ n ih =>
      have hcount := executed_after_runFor p ⟨policy, none⟩ n m
      have hsteps := length_dispatched_le p ⟨policy, none⟩ n m
      rw [after_runFor_add, after_runFor_add, ih (by omega), after_runFor_one, after_runFor_one]
      exact after_congr (step_limited_of_lt (by omega))

/-- At the limit an instruction is not executed any more, and the machine keeps all it holds. -/
theorem step_limited_of_instructionAt? {i : Instruction} (hlive : m.Live)
    (hspent : m.executed = limit) (hi : p.instructionAt? m.pc = some i) :
    let fault := Fault.mk (.budgetExhausted limit) m.pc (p.lineFor? m.pc)
    step p ⟨policy, some limit⟩ m =
      .error fault { m with status := .halted (.faulted fault) } := by
  have hinside : ¬p.codeSize ≤ m.pc := Nat.not_le_of_lt (Program.offset_lt_codeSize hi)
  rw [step_of_live hlive]
  simp only [started, Execution.fetch, if_neg hinside, hi, exhaustedLimit?_limited, hspent,
    Nat.le_refl, if_true]
  rfl

/-- A run that executes an instruction behind the limit halts behind the limit, if at all. -/
theorem limit_lt_executed_of_halts {i : Instruction}
    (hlive : (after (runFor p ⟨policy, none⟩ limit) m).Live)
    (hspent : (after (runFor p ⟨policy, none⟩ limit) m).executed = limit)
    (hi : p.instructionAt? (after (runFor p ⟨policy, none⟩ limit) m).pc = some i)
    (hhalts : (after (runFor p ⟨policy, none⟩ n) m).outcome?.isSome) :
    limit < (after (runFor p ⟨policy, none⟩ n) m).executed := by
  obtain hle | hbehind := Nat.lt_or_ge limit n
  · obtain ⟨more, rfl⟩ := Nat.exists_eq_add_of_lt hle
    have hnext : dispatched? p ⟨policy, none⟩ (after (runFor p ⟨policy, none⟩ limit) m) =
        some i := by
      rw [dispatched?_of_live hlive rfl, hi]
    have hstep := executed_after_step p ⟨policy, none⟩ (after (runFor p ⟨policy, none⟩ limit) m)
    rw [hnext, hspent] at hstep
    rw [Nat.add_right_comm, after_runFor_add, after_runFor_add, after_runFor_one]
    exact (Nat.lt_of_succ_le hstep.ge).trans_le (executed_le_after_runFor _ _ _ _)
  · have hstays := after_runFor_of_outcome? hhalts hbehind
    rw [← hstays] at hhalts
    exact absurd hlive (not_live_of_outcome? hhalts)

/-- A run under a limit either ends as the run without one, or stops in front of the instruction
that the run without one executes next. -/
theorem after_runFor_limited_cases (p : Program) (policy : UnhandledPolicy) (limit : Nat)
    (hstart : m.executed = 0) :
    let free : Config := ⟨policy, none⟩
    let final := after (runFor p ⟨policy, some limit⟩ (limit + 1)) m
    (∃ n, (after (runFor p free n) m).outcome?.isSome ∧
        (after (runFor p free n) m).executed ≤ limit ∧ final = after (runFor p free n) m) ∨
      ∃ i, (after (runFor p free limit) m).Live ∧
        (after (runFor p free limit) m).executed = limit ∧
          p.instructionAt? (after (runFor p free limit) m).pc = some i ∧
            let last := after (runFor p free limit) m
            let fault := Fault.mk (.budgetExhausted limit) last.pc (p.lineFor? last.pc)
            final = { last with status := .halted (.faulted fault) } := by
  intro free final
  have hsame : after (runFor p ⟨policy, some limit⟩ limit) m = after (runFor p free limit) m :=
    after_runFor_limited (by omega)
  have hfinal : final =
      after (step p ⟨policy, some limit⟩) (after (runFor p free limit) m) := by
    rw [← hsame, ← after_runFor_one, ← after_runFor_add]
  have hcount := executed_after_runFor p free limit m
  rw [hstart, Nat.zero_add] at hcount
  obtain hlive | ⟨halt, hhalted⟩ := (after (runFor p free limit) m).live_or_halted
  · rw [length_dispatched_of_live hlive] at hcount
    cases hi : p.instructionAt? (after (runFor p free limit) m).pc with
    | none =>
        -- the next step halts the run with or without a limit
        have hnext : dispatched? p free (after (runFor p free limit) m) = none := by
          rw [dispatched?_of_live hlive rfl, hi]
        obtain ⟨halt, hafter⟩ := after_step_of_dispatched?_eq_none hnext
        left
        refine ⟨limit + 1, ?_, ?_, ?_⟩
        · rw [after_runFor_add, after_runFor_one, hafter]
          exact outcome?_isSome_iff.mpr ⟨halt, rfl⟩
        · rw [after_runFor_add, after_runFor_one, hafter]
          exact hcount.le
        · rw [hfinal, after_runFor_add, after_runFor_one]
          exact after_congr (step_eq_of_instructionAt?_eq_none hi)
    | some i =>
        right
        refine ⟨i, hlive, hcount, rfl, ?_⟩
        rw [hfinal]
        exact after_of_error (step_limited_of_instructionAt? hlive hcount hi)
  · have hhalts := outcome?_isSome_iff.mpr ⟨halt, hhalted⟩
    left
    refine ⟨limit, hhalts, ?_, ?_⟩
    · rw [hcount]
      exact length_dispatched_le p free limit m
    · rw [hfinal, after_step_of_halted hhalted]

/-- Under a limit a run halts at the latest with the step behind the instructions that the limit
allows.  When it halts without a limit by then, it is the same run; otherwise it stops in front of
the first instruction too many, and holds what it holds without a limit at that point. -/
theorem runFor_limit (p : Program) (policy : UnhandledPolicy) (limit : Nat) :
    let limited : Config := ⟨policy, some limit⟩
    let free : Config := ⟨policy, none⟩
    let final := after (runFor p limited (limit + 1)) (initial p)
    let halts := fun n => (after (runFor p free n) (initial p)).outcome?.isSome ∧
      (after (runFor p free n) (initial p)).executed ≤ limit
    final.outcome? = some (runToHalt p limited (initial p)) ∧ final.executed ≤ limit ∧
      (∀ n, halts n → final = after (runFor p free n) (initial p)) ∧
        ((¬∃ n, halts n) →
          ∃ last i, runFor p free limit (initial p) = .ok true last ∧ last.executed = limit ∧
            p.instructionAt? last.pc = some i ∧
              let fault := Fault.mk (.budgetExhausted limit) last.pc (p.lineFor? last.pc)
              final = { last with status := .halted (.faulted fault) }) := by
  intro limited free final halts
  have hhalted : final.outcome?.isSome := outcome?_isSome_of_limit rfl rfl
  obtain ⟨n, hhalts, hwithin, hfinal⟩ | ⟨i, hlive, hcount, hi, hfinal⟩ :=
    after_runFor_limited_cases p policy limit (m := initial p) rfl
  · refine ⟨outcome?_after_runFor hhalted, (congrArg executed hfinal).trans_le hwithin, ?_, ?_⟩
    · rintro k ⟨hhalts', _⟩
      exact hfinal.trans (after_runFor_eq_of_outcome? hhalts hhalts')
    · intro hnone
      exact absurd ⟨n, hhalts, hwithin⟩ hnone
  · have hfaulted : final.executed = limit := (congrArg executed hfinal).trans hcount
    refine ⟨outcome?_after_runFor hhalted, hfaulted.le, ?_, ?_⟩
    · rintro k ⟨hhalts, hwithin⟩
      exact absurd hwithin (Nat.not_le_of_lt (limit_lt_executed_of_halts hlive hcount hi hhalts))
    · intro _
      obtain ⟨last, hlast⟩ | hhalts := runFor_cases p free limit (initial p)
      · rw [after_of_ok hlast] at hcount hi hfinal
        exact ⟨last, i, hlast, hcount, hi, hfinal⟩
      · exact absurd hlive (not_live_of_outcome? hhalts)

/-- A limit of as many instructions as there are is none; one less is met in front of the return. -/
example :
    let p : Program :=
      { pool := .empty
        methodType := none
        code := ⟨1, 0, [0x03, 0xb1], [], []⟩
        lines := []
        instructions := #[⟨0, .iconst0, []⟩, ⟨1, .returnVoid, []⟩]
        decode_eq := by decide +kernel }
    let halt := fun limit =>
      ((after (runFor p ⟨.fail, some limit⟩ (limit + 1)) (initial p)).outcome?.map (·.halt))
    halt 2 = some .normal ∧ halt 1 = some (.faulted ⟨.budgetExhausted 1, 1, none⟩) := by
  decide +kernel

end Machine

end ClassMachine
