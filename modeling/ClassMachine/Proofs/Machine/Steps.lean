import ClassMachine.Machine.Run
import ClassMachine.Proofs.Bytecode.Operands
import ClassMachine.Proofs.Machine.Frame
import ClassMachine.Proofs.Program.Placement

/-!
# Steps of a machine

A step of a running machine fetches the instruction at its place in the bytecode and
performs its action, unless the budget forbids it.  What the primitive executions do is
said here once, so that a step can be followed without opening them.
-/

namespace ClassMachine

namespace Config

theorem exhaustedLimit?_of_none {config : Config} (h : config.maxInstructions = none)
    (executed : Nat) : config.exhaustedLimit? executed = none := by
  rw [exhaustedLimit?, h, Option.filter_none]

end Config

namespace Execution

variable {p : Program} {m m' : Machine} {α β : Type}

theorem bind_of_ok {x : Execution α} {f : α → Execution β} {a : α} (h : x m = .ok a m') :
    (x >>= f) m = f a m' := by
  change EStateM.bind x f m = f a m'
  rw [EStateM.bind, h]

theorem bind_of_error {x : Execution α} {f : α → Execution β} {cause : FaultCause}
    (h : x m = .error cause m') : (x >>= f) m = .error cause m' := by
  change EStateM.bind x f m = .error cause m'
  rw [EStateM.bind, h]

theorem push_of_lt {value : Value} (h : m.stack.size < p.code.maxStack.toNat) :
    push p value m = .ok () { m with stack := m.stack.push value } := by
  rw [push, if_pos h]

theorem pop_of_push {stack : Array Value} {value : Value} (h : m.stack = stack.push value) :
    pop m = .ok value { m with stack := stack } := by
  simp only [pop, h, Array.back?_push, Array.pop_push]

theorem popInt_of_push {stack : Array Value} {a : Int32} (h : m.stack = stack.push (.int a)) :
    popInt m = .ok a { m with stack := stack } := by
  rw [popInt, bind_of_ok (pop_of_push h)]
  rfl

theorem load_of_getElem? {index : Nat} {value : Value} (h : m.locals[index]? = some (some value)) :
    load index m = .ok value m := by
  simp only [load, h]

theorem check_of_accepts {type : OperandType} {value : Value} (h : type.accepts value.type) :
    check type value m = .ok () m := by
  rw [check, if_pos h]
  rfl

theorem branch_of_boundary {i : Instruction} {distance : Int} {target : Nat}
    (htarget : (i.offset : Int) + distance = target) (h : p.Boundary target) :
    branch p i distance m = .ok () { m with pc := target } := by
  obtain ⟨found, hfound⟩ := Option.isSome_iff_exists.mp h
  have hnonneg : ¬((target : Int) < 0) := by omega
  simp only [branch, htarget, if_neg hnonneg, Int.toNat_natCast, hfound]

section Perform

variable {policy : UnhandledPolicy} {i : Instruction} {stack : Array Value} {a b : Int32}

theorem push_then_next {value : Value} (hroom : m.stack.size < p.code.maxStack.toNat) :
    (push p value >>= fun _ => return Flow.next : Execution Flow) m =
      .ok .next { m with stack := m.stack.push value } := by
  rw [bind_of_ok (push_of_lt hroom)]
  rfl

theorem perform_push {value : Value} (hroom : m.stack.size < p.code.maxStack.toNat) :
    perform p policy i (.push value) m = .ok .next { m with stack := m.stack.push value } := by
  exact push_then_next hroom

theorem perform_loadConstant {index : UInt16} {wide : Bool} {value : Value}
    (hvalue : p.pool.loadable? index wide = .ok value)
    (hroom : m.stack.size < p.code.maxStack.toNat) :
    perform p policy i (.loadConstant index wide) m =
      .ok .next { m with stack := m.stack.push value } := by
  rw [perform, hvalue]
  exact push_then_next hroom

theorem perform_load {type : OperandType} {index : Nat} {value : Value}
    (hset : m.locals[index]? = some (some value)) (haccepts : type.accepts value.type)
    (hroom : m.stack.size < p.code.maxStack.toNat) :
    perform p policy i (.load type index) m =
      .ok .next { m with stack := m.stack.push value } := by
  rw [perform, bind_of_ok (load_of_getElem? hset), bind_of_ok (check_of_accepts haccepts)]
  exact push_then_next hroom

theorem perform_negate (hstack : m.stack = stack.push (.int a))
    (hroom : stack.size < p.code.maxStack.toNat) :
    perform p policy i .negate m = .ok .next { m with stack := stack.push (.int (-a)) } := by
  rw [perform, bind_of_ok (popInt_of_push hstack)]
  exact push_then_next hroom

theorem perform_compute {op : IntOp} {result : Int32}
    (hstack : m.stack = (stack.push (.int a)).push (.int b)) (hresult : op.apply a b = .ok result)
    (hroom : stack.size < p.code.maxStack.toNat) :
    perform p policy i (.compute op) m =
      .ok .next { m with stack := stack.push (.int result) } := by
  rw [perform, bind_of_ok (popInt_of_push hstack), bind_of_ok (popInt_of_push rfl), hresult]
  exact push_then_next hroom

theorem perform_compute_of_error {op : IntOp} {cause : FaultCause}
    (hstack : m.stack = (stack.push (.int a)).push (.int b))
    (hresult : op.apply a b = .error cause) :
    perform p policy i (.compute op) m = .error cause { m with stack } := by
  rw [perform, bind_of_ok (popInt_of_push hstack), bind_of_ok (popInt_of_push rfl), hresult]
  rfl

theorem branch_then_next {distance : Int} {target : Nat}
    (htarget : (i.offset : Int) + distance = target) (hboundary : p.Boundary target) :
    (branch p i distance >>= fun _ => return Flow.next : Execution Flow) m =
      .ok .next { m with pc := target } := by
  rw [bind_of_ok (branch_of_boundary htarget hboundary)]
  rfl

theorem perform_branch {distance : Int} {target : Nat}
    (htarget : (i.offset : Int) + distance = target) (hboundary : p.Boundary target) :
    perform p policy i (.branch distance) m = .ok .next { m with pc := target } := by
  exact branch_then_next htarget hboundary

theorem perform_branchInts {comparison : Comparison} {distance : Int} {target : Nat}
    (hstack : m.stack = (stack.push (.int a)).push (.int b))
    (htarget : (i.offset : Int) + distance = target) (hboundary : p.Boundary target) :
    perform p policy i (.branchInts comparison distance) m =
      .ok .next { m with stack, pc := if comparison.holds a b then target else m.pc } := by
  rw [perform, bind_of_ok (popInt_of_push hstack), bind_of_ok (popInt_of_push rfl), branchWhen]
  cases comparison.holds a b with
  | true => exact branch_then_next htarget hboundary
  | false => rfl

end Perform

end Execution

namespace Machine

variable {p : Program} {config : Config} {m m' : Machine}

/-- The machine at another place and with another stack, after some more instructions that
changed nothing else. -/
def moved (m : Machine) (pc : Nat) (stack : Array Value) (steps : Nat) : Machine :=
  { m with pc, stack, executed := m.executed + steps }

@[simp]
theorem moved_pc (pc : Nat) (stack : Array Value) (steps : Nat) :
    (m.moved pc stack steps).pc = pc := rfl

@[simp]
theorem moved_stack (pc : Nat) (stack : Array Value) (steps : Nat) :
    (m.moved pc stack steps).stack = stack := rfl

@[simp]
theorem moved_locals (pc : Nat) (stack : Array Value) (steps : Nat) :
    (m.moved pc stack steps).locals = m.locals := rfl

@[simp]
theorem moved_status (pc : Nat) (stack : Array Value) (steps : Nat) :
    (m.moved pc stack steps).status = m.status := rfl

@[simp]
theorem moved_moved (pc pc' : Nat) (stack stack' : Array Value) (steps steps' : Nat) :
    (m.moved pc stack steps).moved pc' stack' steps' = m.moved pc' stack' (steps + steps') := by
  simp only [moved, Nat.add_assoc]

theorem step_of_running (h : m.status = .running) :
    step p config m = settle p m.pc (Execution.fetch p config m) := by
  cases m
  cases h
  rfl

/-- What fetching can come to: the end of the bytecode, a place where no instruction starts, an
exhausted budget, or the action of the instruction at the place of the machine. -/
theorem fetch_cases (p : Program) (config : Config) (m : Machine) :
    (p.codeSize ≤ m.pc ∧ Execution.fetch p config m = .ok .halt m) ∨
      (p.instructionAt? m.pc = none ∧
        Execution.fetch p config m = .error (.invalidBranch m.pc) m) ∨
      (∃ limit, config.exhaustedLimit? m.executed = some limit ∧
        Execution.fetch p config m = .error (.budgetExhausted limit) m) ∨
      ∃ i action, p.instructionAt? m.pc = some i ∧ i.action? = some action ∧
        config.exhaustedLimit? m.executed = none ∧
          Execution.fetch p config m =
            Execution.perform p config.unhandled i action (m.moved i.nextOffset m.stack 1) := by
  by_cases hend : p.codeSize ≤ m.pc
  · exact .inl ⟨hend, by rw [Execution.fetch, if_pos hend]⟩
  · right
    cases hi : p.instructionAt? m.pc with
    | none => exact .inl ⟨rfl, by simp only [Execution.fetch, if_neg hend, hi]⟩
    | some i =>
        right
        cases hlimit : config.exhaustedLimit? m.executed with
        | some limit =>
            exact .inl ⟨limit, rfl, by simp only [Execution.fetch, if_neg hend, hi, hlimit]⟩
        | none =>
            obtain ⟨action, haction⟩ := Option.isSome_iff_exists.mp
              (Instruction.action?_isSome (Program.operands_length hi))
            refine .inr ⟨i, action, rfl, haction, rfl, ?_⟩
            simp only [Execution.fetch, if_neg hend, hi, hlimit, Execution.evaluate, haction]
            rfl

/-- A step leaves behind what fetching leaves behind, up to the status. -/
theorem after_step (p : Program) (config : Config) (m : Machine) :
    after (step p config) m = m ∨
      ∃ status, after (step p config) m =
        { (Execution.fetch p config).final { m with status := .running } with status } := by
  cases hstatus : m.status with
  | halted halt =>
      left
      cases halt <;> simp only [after, step, hstatus]
  | ready | running =>
      right
      simp only [after, step, hstatus, Execution.final]
      cases Execution.fetch p config { m with status := .running } with
      | ok flow m' =>
          cases flow with
          | next => exact ⟨m'.status, rfl⟩
          | halt => exact ⟨.halted .normal, rfl⟩
      | error cause m' => exact ⟨_, rfl⟩

/-- There are never more objects than executed instructions. -/
theorem heap_size_le_executed_after_step (p : Program) (config : Config)
    (h : m.heap.size ≤ m.executed) :
    (after (step p config) m).heap.size ≤ (after (step p config) m).executed := by
  obtain hsame | ⟨status, hafter⟩ := after_step p config m
  · rw [hsame]
    exact h
  · rw [hafter]
    obtain ⟨_, hfetch⟩ | ⟨_, hfetch⟩ | ⟨_, _, hfetch⟩ | ⟨i, action, _, _, _, hfetch⟩ :=
      fetch_cases p config { m with status := .running }
    · rw [Execution.final_of_ok hfetch]
      exact h
    · rw [Execution.final_of_error hfetch]
      exact h
    · rw [Execution.final_of_error hfetch]
      exact h
    · rw [Execution.final_congr hfetch]
      refine (Execution.heap_size_final_perform_le _).trans ?_
      rw [Execution.executed_final_perform]
      exact Nat.succ_le_succ h

theorem step_of_action {i : Instruction} {action : Action} (hrunning : m.status = .running)
    (hi : p.instructionAt? m.pc = some i) (haction : i.action? = some action)
    (hlimit : config.exhaustedLimit? m.executed = none) :
    step p config m =
      settle p m.pc
        (Execution.perform p config.unhandled i action (m.moved i.nextOffset m.stack 1)) := by
  have hinside : ¬p.codeSize ≤ m.pc := Nat.not_le_of_lt (Program.offset_lt_codeSize hi)
  rw [step_of_running hrunning]
  simp only [Execution.fetch, if_neg hinside, hi, hlimit, Execution.evaluate, haction]
  rfl

theorem step_of_perform {i : Instruction} {action : Action} {pc : Nat} {stack : Array Value}
    (hrunning : m.status = .running) (hi : p.instructionAt? m.pc = some i)
    (haction : i.action? = some action) (hlimit : config.exhaustedLimit? m.executed = none)
    (hperform : Execution.perform p config.unhandled i action (m.moved i.nextOffset m.stack 1) =
      .ok .next (m.moved pc stack 1)) :
    step p config m = .ok true (m.moved pc stack 1) := by
  rw [step_of_action hrunning hi haction hlimit, hperform]
  rfl

theorem step_of_perform_error {i : Instruction} {action : Action} {pc : Nat}
    {stack : Array Value} {cause : FaultCause} (hrunning : m.status = .running)
    (hi : p.instructionAt? m.pc = some i) (haction : i.action? = some action)
    (hlimit : config.exhaustedLimit? m.executed = none)
    (hperform : Execution.perform p config.unhandled i action (m.moved i.nextOffset m.stack 1) =
      .error cause (m.moved pc stack 1)) :
    let fault := Fault.mk cause m.pc (p.lineFor? m.pc)
    step p config m =
      .error fault { m.moved pc stack 1 with status := .halted (.faulted fault) } := by
  rw [step_of_action hrunning hi haction hlimit, hperform]
  rfl

theorem runFor_succ (n : Nat) :
    runFor p config (n + 1) m =
      match step p config m with
      | .ok true m' => runFor p config n m'
      | .ok false m' => .ok false m'
      | .error fault m' => .error fault m' := by
  change EStateM.bind (step p config) _ m = _
  rw [EStateM.bind]
  cases step p config m with
  | ok running m' => cases running <;> rfl
  | error fault m' => rfl

theorem runFor_one : runFor p config 1 m = step p config m := by
  rw [runFor_succ]
  cases step p config m with
  | ok running m' => cases running <;> rfl
  | error fault m' => rfl

theorem runFor_add_of_running {n k : Nat} (h : runFor p config n m = .ok true m') :
    runFor p config (n + k) m = runFor p config k m' := by
  induction n generalizing m with
  | zero =>
      cases h
      rw [Nat.zero_add]
  | succ n ih =>
      rw [runFor_succ] at h
      rw [Nat.add_right_comm, runFor_succ]
      cases hstep : step p config m with
      | ok running middle =>
          rw [hstep] at h
          cases running with
          | true => exact ih h
          | false => cases h
      | error fault middle =>
          rw [hstep] at h
          cases h

theorem runFor_add_one_of_running {n : Nat} (h : runFor p config n m = .ok true m') :
    runFor p config (n + 1) m = step p config m' := by
  rw [runFor_add_of_running h, runFor_one]

end Machine

end ClassMachine
