import ClassMachine.Proofs.Machine.Lifecycle

/-!
# Code without backward branches

Every instruction ends behind its start, so only a branch can lead back.  In code whose branches all
go forward the place of a machine grows with every instruction that it dispatches.  No instruction
comes up twice then, and the number of instructions bounds the steps of every run.
-/

namespace ClassMachine

open Machine

namespace Program

/-- Every branch in the bytecode goes to a place behind its own. -/
def BranchesForward (p : Program) : Prop :=
  ∀ i ∈ p.instructions.toList, ∀ distance ∈ i.branch?, 0 < distance

instance (p : Program) : Decidable p.BranchesForward :=
  inferInstanceAs (Decidable (∀ i ∈ p.instructions.toList, ∀ distance ∈ i.branch?, 0 < distance))

end Program

namespace Machine

variable {p : Program} {config : Config} {m m' : Machine} {i : Instruction} {action : Action}
variable {n : Nat}

theorem Completes.offset_lt_pc {flow : Flow} (h : Completes p i m action flow m')
    (hforward : ∀ distance, action.distance? = some distance → 0 < distance)
    (hpc : i.offset < m.pc) : i.offset < m'.pc := by
  cases h with
  | @jump _ rest distance target hdecides htarget _ =>
      have hpositive := hforward distance hdecides.distance?_eq_some
      change i.offset < target
      omega
  | _ => exact hpc

/-- A step that dispatches an instruction leaves the machine behind the start of it. -/
theorem offset_lt_pc_after_step (h : p.BranchesForward) (hnext : dispatched? p config m = some i) :
    i.offset < (after (step p config) m).pc := by
  rcases dispatched?_eq_some_iff.mp hnext with ⟨_, _, hi⟩
  have hbehind : i.offset < i.nextOffset := by
    simp only [Instruction.nextOffset]
    omega
  apply after_step_induction (motive := fun m' => i.offset < m'.pc)
  · intro status hidle
    simp [hnext] at hidle
  · intro j action flow m' status hdispatched haction hcompletes
    obtain rfl : i = j := by simpa [hnext] using hdispatched
    apply hcompletes.offset_lt_pc _ hbehind
    intro distance hdistance
    apply h i (Program.instructionAt?_eq_some_iff.mp hi).1
    exact Instruction.branch?_eq_of_action? haction hdistance
  · intro j action cause m' status hdispatched _ hfails
    obtain rfl : i = j := by simpa [hnext] using hdispatched
    have hpc : m'.pc = i.nextOffset := hfails.pc
    simpa [hpc] using hbehind

theorem pc_after_step_of_dispatched?_eq_none (h : dispatched? p config m = none) :
    (after (step p config) m).pc = m.pc := by
  rcases after_step_of_dispatched?_eq_none h with ⟨halt, hafter⟩
  simp [hafter]

/-- The instructions that forward code dispatches from a place on follow each other in the
bytecode. -/
theorem dispatched_forward (h : p.BranchesForward) (n : Nat) (m : Machine) :
    (∀ i ∈ dispatched p config n m, m.pc ≤ i.offset) ∧
      (dispatched p config n m).Pairwise fun i j => i.offset < j.offset := by
  induction n generalizing m with
  | zero => simp [dispatched]
  | succ n ih =>
      rcases ih (after (step p config) m) with ⟨hplaces, hordered⟩
      cases hnext : dispatched? p config m with
      | none =>
          rw [pc_after_step_of_dispatched?_eq_none hnext] at hplaces
          simpa [dispatched, hnext] using ⟨hplaces, hordered⟩
      | some i =>
          have hpc : i.offset = m.pc := by
            rcases dispatched?_eq_some_iff.mp hnext with ⟨_, _, hi⟩
            exact Program.offset_of_instructionAt? hi
          have hlater : ∀ j ∈ dispatched p config n (after (step p config) m),
              i.offset < j.offset := by
            intro j hj
            have hbehind := offset_lt_pc_after_step h hnext
            have hplace := hplaces j hj
            omega
          simp only [dispatched, hnext, Option.toList_some, List.singleton_append,
            List.mem_cons, forall_eq_or_imp, List.pairwise_cons]
          refine ⟨⟨hpc.ge, ?_⟩, hlater, hordered⟩
          intro j hj
          have hbehind := hlater j hj
          omega

theorem mem_of_mem_dispatched (hi : i ∈ dispatched p config n m) :
    i ∈ p.instructions.toList := by
  induction n generalizing m with
  | zero => simp [dispatched] at hi
  | succ n ih =>
      rw [dispatched, List.mem_append, Option.mem_toList] at hi
      rcases hi with hnext | hlater
      · rcases dispatched?_eq_some_iff.mp hnext with ⟨_, _, hfound⟩
        exact (Program.instructionAt?_eq_some_iff.mp hfound).1
      · exact ih hlater

theorem nodup_dispatched (h : p.BranchesForward) (n : Nat) (m : Machine) :
    (dispatched p config n m).Nodup := by
  apply (dispatched_forward h n m).2.imp
  intro i j hlt hsame
  simp [hsame] at hlt

theorem executed_reached (p : Program) (config : Config) (n : Nat) :
    (reached p config n).executed = (dispatched p config n (initial p)).length := by
  rw [reached_eq_after_runFor, executed_after_runFor]
  simp [initial]

theorem executed_reached_le (h : p.BranchesForward) (n : Nat) :
    (reached p config n).executed ≤ p.instructions.size := by
  rw [executed_reached, ← Array.length_toList]
  apply List.Subperm.length_le
  apply (nodup_dispatched h n (initial p)).subperm
  intro i
  exact mem_of_mem_dispatched

/-- More steps than instructions cannot all leave the machine running. -/
theorem exists_answer_of_branchesForward (h : p.BranchesForward) (config : Config) :
    ∃ last halt, Answers p config (initial p) .run (haltedAnswer last halt) ∧
      last.status = .halted halt ∧ last = reached p config (p.instructions.size + 1) := by
  have hends : ∀ m', runFor p config (p.instructions.size + 1) (initial p) ≠ .ok true m' := by
    intro m' hrun
    have hcount := executed_of_runFor_running hrun
    have hbound : (reached p config (p.instructions.size + 1)).executed ≤ p.instructions.size :=
      executed_reached_le h _
    rw [reached_eq_after_runFor, after_of_ok hrun, hcount] at hbound
    omega
  rcases exists_halt_of_runFor _ rfl hends with ⟨last, halt, hresult, hstatus, hafter⟩
  refine ⟨last, halt, ⟨_, hresult, ?_⟩, hstatus, ?_⟩
  · simpa [hresult] using hends
  · rw [reached_eq_after_runFor, hafter]

/-- A run of code whose branches all go forward comes to its halt, whatever the configuration.  The
offsets of the instructions that it dispatches increase, so none of them is dispatched twice, and
no more instructions are executed than there are. -/
theorem run_of_branchesForward (h : p.BranchesForward) (config : Config) :
    (∃ last halt, Answers p config (initial p) .run (haltedAnswer last halt) ∧
        last.status = .halted halt ∧ last.outcome? = some (runToHalt p config (initial p)) ∧
        last.executed ≤ p.instructions.size) ∧
      ∀ n, (dispatched p config n (initial p)).Pairwise (fun i j => i.offset < j.offset) ∧
        (dispatched p config n (initial p)).Nodup ∧
        (reached p config n).executed = (dispatched p config n (initial p)).length ∧
        (reached p config n).executed ≤ p.instructions.size := by
  constructor
  · rcases exists_answer_of_branchesForward h config with ⟨last, halt, hanswer, hstatus, rfl⟩
    refine ⟨_, halt, hanswer, hstatus, ?_, executed_reached_le h _⟩
    apply outcome?_of_reached
    rw [outcome?_isSome_iff]
    exact ⟨halt, hstatus⟩
  · intro n
    exact ⟨(dispatched_forward h n _).2, nodup_dispatched h n _, executed_reached p config n,
      executed_reached_le h n⟩

/-- One branch is not taken, and a wide one leaves out the instruction behind it. -/
theorem run_of_branchesForward_wide :
    let p := Program.ofCode .empty none
      ⟨1, 0, [0x04, 0x99, 0, 9, 0xc8, 0, 0, 0, 6, 0x00, 0xb1], [], []⟩
      #[⟨0, .iconst1, []⟩, ⟨1, .ifeq, [0, 9]⟩, ⟨4, .gotoW, [0, 0, 0, 6]⟩, ⟨9, .nop, []⟩,
        ⟨10, .returnVoid, []⟩] (by decide +kernel)
    let run := dispatched p ⟨.fail, none⟩ 6 (initial p)
    p.BranchesForward ∧ run.map (·.offset) = [0, 1, 4, 10] ∧ run.Nodup ∧
      ∃ last halt, Answers p ⟨.fail, none⟩ (initial p) .run (haltedAnswer last halt) ∧
        last.executed ≤ 5 := by
  intro p run
  have hforward : p.BranchesForward := by decide +kernel
  rcases run_of_branchesForward hforward ⟨.fail, none⟩ with
    ⟨⟨last, halt, hanswer, _, _, hexecuted⟩, hruns⟩
  exact ⟨hforward, by decide +kernel, (hruns 6).2.1, last, halt, hanswer, hexecuted⟩

end Machine

end ClassMachine
