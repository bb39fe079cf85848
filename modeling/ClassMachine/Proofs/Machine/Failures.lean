import ClassMachine.Proofs.Machine.Boundaries
import ClassMachine.Proofs.Machine.Objects

/-!
# What a fault leaves behind

A step that faults takes at most two operands off the stack and changes nothing else that the
machine holds, except that an object stays allocated when there is no room for its reference.  An
instruction that faults is counted and passed, and a branch that fails does not move the machine.
In front of an instruction that the budget does not cover nothing changes at all.
-/

namespace ClassMachine

namespace Machine

variable {p : Program} {config : Config} {m m' : Machine} {i : Instruction} {action : Action}
variable {cause : FaultCause} {fault : Fault} {n : Nat}

theorem Fails.cause_ne_budgetExhausted (h : Fails p i m action cause m') (limit : Nat) :
    cause ≠ .budgetExhausted limit := by
  cases h with
  | drops _ _ hinternal =>
      rintro rfl
      simp [FaultCause.isInternal] at hinternal
  | branch => simp
  | allocate => simp

/-- Making an object fails only for want of room for its reference. -/
theorem Fails.cause_of_class? {classIndex : UInt16} (h : Fails p i m action cause m')
    (hclass : action.class? = some classIndex) : cause = .stackOverflow p.code.maxStack := by
  cases h with
  | drops hother _ _ => simp [hother] at hclass
  | branch hdecides _ => simp [hdecides.class?_eq_none] at hclass
  | allocate _ => rfl

theorem status_of_step_error (h : step p config m = .error fault m') :
    m'.status = .halted (.faulted fault) := by
  rcases step_cases p config m with ⟨_, hstep, _⟩ | ⟨_, hstep, _⟩ | ⟨_, _, hstep, hstatus⟩
  · simp [hstep] at h
  · simp [hstep] at h
  · rw [hstep] at h
    cases h
    exact hstatus

theorem eq_of_step_error (h : step p config m = .error fault m')
    (hnone : dispatched? p config m = none) :
    m' = { m with status := .halted (.faulted fault) } := by
  have hstatus := status_of_step_error h
  rcases after_step_of_dispatched?_eq_none hnone with ⟨halt, hafter⟩
  rw [after_of_error h] at hafter
  subst hafter
  simpa using hstatus

/-- A run that faults in front of an instruction has exhausted its budget. -/
theorem exists_limit_of_step_error (hlive : m.Live) (hplace : m.AtBoundary p)
    (h : step p config m = .error fault m') (hnone : dispatched? p config m = none) :
    ∃ limit, fault.cause = .budgetExhausted limit := by
  rcases step_error_cases hlive hplace h with ⟨_, _, hspent | ⟨i, _, _, hi, _⟩⟩
  · exact hspent
  · rw [hi] at hnone
    cases hnone

theorem heap_of_step_error (h : step p config m = .error fault m') :
    m'.heap =
      m.heap.allocateAll ((dispatched? p config m).toList.filterMap Instruction.newClass?) := by
  rw [← heap_after_step, after_of_error h]

theorem objects_of_step_error {classIndex : UInt16} (h : step p config m = .error fault m')
    (hi : dispatched? p config m = some i) (hclass : i.newClass? = some classIndex) :
    m'.heap.objects = m.heap.objects.push ⟨m.heap.nextId, classIndex⟩ := by
  rw [heap_of_step_error h, hi]
  simp [hclass, Heap.allocateAll, Heap.allocate]

theorem heap_eq_of_step_error (h : step p config m = .error fault m')
    (hnone : ∀ i, dispatched? p config m = some i → i.newClass? = none) : m'.heap = m.heap := by
  rw [heap_of_step_error h]
  cases hnext : dispatched? p config m with
  | none => simp [Heap.allocateAll]
  | some i => simp [hnone i hnext, Heap.allocateAll]

/-- An instruction that faults has been counted and passed. -/
theorem kept_of_step_error (h : step p config m = .error fault m')
    (hi : dispatched? p config m = some i) :
    m'.locals = m.locals ∧ m'.returned = m.returned ∧ m.Leaves 2 m'.stack ∧
      m'.executed = m.executed + 1 ∧ m'.pc = i.nextOffset := by
  rcases fails_of_step_error hi h with ⟨action, m'', _, _, rfl, hfails⟩
  rcases hfails.kept with ⟨hlocals, hreturned, hexecuted⟩
  exact ⟨hlocals, hreturned, hfails.leaves, hexecuted, hfails.pc⟩

theorem cause_ne_budgetExhausted_of_step_error (h : step p config m = .error fault m')
    (hi : dispatched? p config m = some i) (limit : Nat) : fault.cause ≠ .budgetExhausted limit := by
  rcases fails_of_step_error hi h with ⟨_, _, _, _, _, hfails⟩
  exact hfails.cause_ne_budgetExhausted limit

theorem cause_of_step_error_of_newClass? {classIndex : UInt16}
    (h : step p config m = .error fault m') (hi : dispatched? p config m = some i)
    (hclass : i.newClass? = some classIndex) : fault.cause = .stackOverflow p.code.maxStack := by
  rcases fails_of_step_error hi h with ⟨action, _, haction, _, _, hfails⟩
  rw [Instruction.newClass?_eq_of_action? haction] at hclass
  exact hfails.cause_of_class? hclass

/-- When a step of a run faults, the machine keeps its local variables, what it returned, and all
but at most two operands.  Its heap is as it was, or has one more object that there was no room for
a reference to.  An exhausted budget changes nothing, and any other fault counts the instruction at
its place and goes on behind it. -/
theorem fault_reached (p : Program) (config : Config) (n : Nat) {fault : Fault} {m' : Machine}
    (hlive : (reached p config n).Live)
    (hstep : step p config (reached p config n) = .error fault m') :
    let m := reached p config n
    m'.status = .halted (.faulted fault) ∧ m'.locals = m.locals ∧ m'.returned = m.returned ∧
      (∃ popped, m.stack = m'.stack ++ popped ∧ popped.size ≤ 2) ∧
      (∀ i classIndex, dispatched? p config m = some i → i.newClass? = some classIndex →
        fault.cause = .stackOverflow p.code.maxStack ∧
          m'.heap.objects = m.heap.objects.push ⟨m.heap.nextId, classIndex⟩) ∧
      ((∀ i, dispatched? p config m = some i → i.newClass? = none) → m'.heap = m.heap) ∧
      (∀ limit, fault.cause = .budgetExhausted limit →
        m' = { m with status := .halted (.faulted fault) }) ∧
      ((∀ limit, fault.cause ≠ .budgetExhausted limit) →
        ∃ i, p.instructionAt? fault.pc = some i ∧ fault.pc = m.pc ∧
          m'.executed = m.executed + 1 ∧ m'.pc = i.nextOffset) := by
  intro m
  have hplace : m.AtBoundary p := atBoundary_reached p config n
  have hpc : fault.pc = m.pc := congrArg Fault.pc (step_error_cases hlive hplace hstep).2.1
  refine ⟨status_of_step_error hstep, ?_⟩
  cases hnext : dispatched? p config m with
  | none =>
      have hsame := eq_of_step_error hstep hnext
      have hspent := exists_limit_of_step_error hlive hplace hstep hnext
      subst hsame
      refine ⟨rfl, rfl, Leaves.all m 2, by simp, by simp [m], by simp [m], ?_⟩
      intro hother
      rcases hspent with ⟨limit, hlimit⟩
      exact absurd hlimit (hother limit)
  | some i =>
      rcases kept_of_step_error hstep hnext with ⟨hlocals, hreturned, hleaves, hexecuted, hafter⟩
      refine ⟨hlocals, hreturned, hleaves, ?_, ?_, ?_, ?_⟩
      · rintro _ classIndex ⟨⟩ hclass
        exact ⟨cause_of_step_error_of_newClass? hstep hnext hclass,
          objects_of_step_error hstep hnext hclass⟩
      · intro hnone
        apply heap_eq_of_step_error hstep
        simpa [m, hnext] using hnone
      · intro limit hlimit
        exact absurd hlimit (cause_ne_budgetExhausted_of_step_error hstep hnext limit)
      · intro _
        rcases dispatched?_eq_some_iff.mp hnext with ⟨_, _, hi⟩
        exact ⟨i, hpc ▸ hi, hpc, hexecuted, hafter⟩

/-- A branch has taken two operands off the stack when it finds no instruction at its target. -/
theorem fault_reached_branch :
    let p := Program.ofCode .empty none ⟨3, 0, [0x03, 0x04, 0x04, 0x9f, 0, 9], [], []⟩
      #[⟨0, .iconst0, []⟩, ⟨1, .iconst1, []⟩, ⟨2, .iconst1, []⟩, ⟨3, .ifIcmpeq, [0, 9]⟩]
      (by decide +kernel)
    let m := reached p ⟨.fail, some 9⟩ 3
    let m' := reached p ⟨.fail, some 9⟩ 4
    let fault : Fault := ⟨.invalidBranch 12, 3, none⟩
    m.Live ∧ step p ⟨.fail, some 9⟩ m = .error fault m' ∧
      m.stack = #[.int 0, .int 1, .int 1] ∧ m'.stack = #[.int 0] ∧ m'.pc = 6 ∧
        (∃ popped, m.stack = m'.stack ++ popped ∧ popped.size ≤ 2) ∧ m'.heap = m.heap ∧
          ∃ i, p.instructionAt? 3 = some i ∧ m'.pc = i.nextOffset := by
  intro p m m' fault
  have hlive : m.Live := live_of_running (by decide +kernel)
  have hstep : step p ⟨.fail, some 9⟩ m = .error fault m' := by
    have hstatus : m'.status = .halted (.faulted fault) := by decide +kernel
    rcases step_error_of_status hstatus with ⟨last, hlast⟩
    have hsame : last = m' := (after_of_error hlast).symm
    rw [hlast, hsame]
  rcases fault_reached p ⟨.fail, some 9⟩ 3 hlive hstep with ⟨_, _, _, hstack, _, hheap, _, hother⟩
  rcases hother (by simp [fault]) with ⟨i, hi, _, _, hafter⟩
  refine ⟨hlive, hstep, by decide +kernel, by decide +kernel, by decide +kernel, hstack, ?_, i, hi,
    hafter⟩
  apply hheap
  decide +kernel

end Machine

end ClassMachine
