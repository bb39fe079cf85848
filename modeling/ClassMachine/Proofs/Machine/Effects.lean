import ClassMachine.Proofs.Bytecode.Meaning
import ClassMachine.Proofs.Machine.Trace

/-!
# What actions do

An action that completes leaves a machine that is told by the operands it took off the stack, and
its constructor here says which those are and which conditions they met.  An action that fails has
taken at most two operands off the stack and has changed nothing else, except that an object stays
allocated when there is no room for its reference.

Facts about steps are read off these two relations, without looking into the executions again.
-/

namespace ClassMachine

/-- The cause lies with the instruction itself, and not with its target or with the budget. -/
def FaultCause.isInternal : FaultCause → Bool
  | .invalidBranch _ | .budgetExhausted _ => false
  | _ => true

/-- A branch finds its operands on a stack and leaves the rest; they decide whether it is taken. -/
inductive Action.Decides : Action → (stack rest : Array Value) → (taken : Bool) →
    (distance : Int) → Prop where
  | always {stack : Array Value} {distance : Int} :
      Decides (.branch distance) stack stack true distance
  | zero {comparison : Comparison} {rest : Array Value} {a : Int32} {distance : Int} :
      Decides (.branchZero comparison distance) (rest.push (.int a)) rest
        (comparison.holds a 0) distance
  | ints {comparison : Comparison} {rest : Array Value} {a b : Int32} {distance : Int} :
      Decides (.branchInts comparison distance) ((rest.push (.int a)).push (.int b)) rest
        (comparison.holds a b) distance
  | same {same : Bool} {rest : Array Value} {a b : Value} {distance : Int} :
      OperandType.reference.accepts a.type → OperandType.reference.accepts b.type →
        Decides (.branchSame same distance) ((rest.push a).push b) rest ((a == b) == same) distance
  | null {null : Bool} {rest : Array Value} {a : Value} {distance : Int} :
      OperandType.reference.accepts a.type →
        Decides (.branchNull null distance) (rest.push a) rest ((a == .null) == null) distance

namespace Action.Decides

variable {action : Action} {stack rest : Array Value} {taken : Bool} {distance : Int}

theorem class?_eq_none (h : action.Decides stack rest taken distance) : action.class? = none := by
  cases h <;> rfl

theorem returns?_eq_none (h : action.Decides stack rest taken distance) :
    action.returns? = none := by
  cases h <;> rfl

theorem distance?_eq_some (h : action.Decides stack rest taken distance) :
    action.distance? = some distance := by
  cases h <;> rfl

end Action.Decides

namespace Machine

variable {p : Program} {policy : UnhandledPolicy} {i : Instruction} {m : Machine} {action : Action}

/-- What a completed action has done to the machine, and whether the run goes on. -/
inductive Completes (p : Program) (i : Instruction) (m : Machine) :
    Action → Flow → Machine → Prop where
  | nop : Completes p i m .nop .next m
  | push {value : Value} :
      m.stack.size < p.code.maxStack.toNat →
        Completes p i m (.push value) .next { m with stack := m.stack.push value }
  | loadConstant {index : UInt16} {wide : Bool} {value : Value} :
      p.pool.loadable? index wide = .ok value → m.stack.size < p.code.maxStack.toNat →
        Completes p i m (.loadConstant index wide) .next { m with stack := m.stack.push value }
  | load {type : OperandType} {index : Nat} {value : Value} :
      m.locals[index]? = some (some value) → type.accepts value.type →
        m.stack.size < p.code.maxStack.toNat →
          Completes p i m (.load type index) .next { m with stack := m.stack.push value }
  | store {type : OperandType} {index : Nat} {value : Value} {rest : Array Value} :
      m.stack = rest.push value → type.accepts value.type → index < m.locals.size →
        Completes p i m (.store type index) .next
          { m with stack := rest, locals := m.locals.setIfInBounds index (some value) }
  | pop {value : Value} {rest : Array Value} :
      m.stack = rest.push value → Completes p i m .pop .next { m with stack := rest }
  | dup {value : Value} {rest : Array Value} :
      m.stack = rest.push value → m.stack.size < p.code.maxStack.toNat →
        Completes p i m .dup .next { m with stack := m.stack.push value }
  | compute {op : IntOp} {a b result : Int32} {rest : Array Value} :
      m.stack = (rest.push (.int a)).push (.int b) → op.apply a b = .ok result →
        rest.size < p.code.maxStack.toNat →
          Completes p i m (.compute op) .next { m with stack := rest.push (.int result) }
  | negate {a : Int32} {rest : Array Value} :
      m.stack = rest.push (.int a) → rest.size < p.code.maxStack.toNat →
        Completes p i m .negate .next { m with stack := rest.push (.int (-a)) }
  | increment {index : Nat} {amount a : Int32} :
      m.locals[index]? = some (some (.int a)) →
        Completes p i m (.increment index amount) .next
          { m with locals := m.locals.setIfInBounds index (some (.int (a + amount))) }
  | jump {action : Action} {rest : Array Value} {distance : Int} {target : Nat} :
      action.Decides m.stack rest true distance → (i.offset : Int) + distance = target →
        p.Boundary target → Completes p i m action .next { m with stack := rest, pc := target }
  | fallThrough {action : Action} {rest : Array Value} {distance : Int} :
      action.Decides m.stack rest false distance →
        Completes p i m action .next { m with stack := rest }
  | allocate {classIndex : UInt16} :
      m.stack.size < p.code.maxStack.toNat →
        Completes p i m (.allocate classIndex) .next
          { m with
            heap := m.heap.allocate classIndex
            stack := m.stack.push (.reference m.heap.nextId) }
  | returnValue {type : OperandType} {value : Value} {rest : Array Value} :
      m.stack = rest.push value → type.accepts value.type →
        Completes p i m (.returnValue type) .halt
          { m with stack := rest, returned := some value }
  | returnVoid : Completes p i m .returnVoid .halt m
  | skipped : Completes p i m .unhandled .next m

/-- What is left of the stack when no more than some operands have been taken off it. -/
def Leaves (m : Machine) (count : Nat) (rest : Array Value) : Prop :=
  ∃ popped, m.stack = rest ++ popped ∧ popped.size ≤ count

/-- What an action that failed has done to the machine. -/
inductive Fails (p : Program) (i : Instruction) (m : Machine) :
    Action → FaultCause → Machine → Prop where
  | drops {action : Action} {cause : FaultCause} {rest : Array Value} :
      action.class? = none → m.Leaves 2 rest → cause.isInternal →
        Fails p i m action cause { m with stack := rest }
  | branch {action : Action} {rest : Array Value} {distance : Int} :
      action.Decides m.stack rest true distance →
        (∀ target : Nat, (i.offset : Int) + distance = target → ¬p.Boundary target) →
          Fails p i m action (.invalidBranch (i.offset + distance)) { m with stack := rest }
  | allocate {classIndex : UInt16} :
      p.code.maxStack.toNat ≤ m.stack.size →
        Fails p i m (.allocate classIndex) (.stackOverflow p.code.maxStack)
          { m with heap := m.heap.allocate classIndex }

/-- The result of an execution is one that the action can have. -/
def Explains (p : Program) (i : Instruction) (m : Machine) (action : Action) :
    EStateM.Result FaultCause Machine Flow → Prop
  | .ok flow m' => Completes p i m action flow m'
  | .error cause m' => Fails p i m action cause m'

namespace Leaves

theorem all (m : Machine) (count : Nat) : m.Leaves count m.stack :=
  ⟨#[], Array.append_empty.symm, Nat.zero_le count⟩

theorem of_push {count : Nat} {rest : Array Value} {value : Value}
    (h : m.Leaves count (rest.push value)) : m.Leaves (count + 1) rest := by
  obtain ⟨popped, hstack, hpopped⟩ := h
  refine ⟨#[value] ++ popped, ?_, ?_⟩
  · rw [hstack, Array.push_eq_append, Array.append_assoc]
  · rw [Array.size_append, Array.size_singleton]
    omega

theorem mono {count count' : Nat} {rest : Array Value} (h : m.Leaves count rest)
    (hle : count ≤ count') : m.Leaves count' rest := by
  obtain ⟨popped, hstack, hpopped⟩ := h
  exact ⟨popped, hstack, hpopped.trans hle⟩

theorem of_stack_eq {rest : Array Value} {value : Value} (h : m.stack = rest.push value) :
    m.Leaves 1 rest :=
  of_push (h ▸ all m 0)

end Leaves

open Execution

/-! ## Following an execution

Each primitive is followed from a machine that may have lost some operands already. -/

section Explained

variable {top : Array Value} {α : Type} {f : α → Execution Flow}

section Others

variable (hother : action.class? = none)

include hother

theorem explains_drops {cause : FaultCause} (htop : m.Leaves 2 top)
    (hcause : cause.isInternal) :
    Explains p i m action (.error cause { m with stack := top }) :=
  .drops hother htop hcause

theorem explains_pop {f : Value → Execution Flow} (htop : m.Leaves 2 top)
    (h : ∀ rest value, top = rest.push value →
      Explains p i m action (f value { m with stack := rest })) :
    Explains p i m action ((pop >>= f) { m with stack := top }) := by
  by_cases hempty : top = #[]
  · have hpop : pop { m with stack := top } = .error .stackUnderflow { m with stack := top } := by
      simp only [pop, hempty, Array.back?_empty]
    rw [bind_of_error hpop]
    exact explains_drops hother htop rfl
  · obtain ⟨rest, value, hrest⟩ := Array.eq_push_of_size_ne_zero (by simpa using hempty)
    have hpop : pop { m with stack := top } = .ok value { m with stack := rest } :=
      pop_of_push hrest
    rw [bind_of_ok hpop]
    exact h rest value hrest

theorem explains_check {f : Unit → Execution Flow} {type : OperandType} {value : Value}
    (htop : m.Leaves 2 top)
    (h : type.accepts value.type → Explains p i m action (f () { m with stack := top })) :
    Explains p i m action ((check type value >>= f) { m with stack := top }) := by
  by_cases haccepts : type.accepts value.type
  · rw [bind_of_ok (check_of_accepts haccepts)]
    exact h haccepts
  · have hcheck : check type value { m with stack := top } =
        .error (.typeMismatch type value.type) { m with stack := top } := by
      rw [check, if_neg haccepts]
      rfl
    rw [bind_of_error hcheck]
    exact explains_drops hother htop rfl

theorem explains_checkInt {f : Int32 → Execution Flow} {value : Value}
    (htop : m.Leaves 2 top)
    (h : ∀ a, value = .int a → Explains p i m action (f a { m with stack := top })) :
    Explains p i m action ((checkInt value >>= f) { m with stack := top }) := by
  cases value with
  | int a => exact h a rfl
  | long | float | double | reference | null => exact explains_drops hother htop rfl

theorem explains_load {f : Value → Execution Flow} {index : Nat}
    (h : ∀ value, m.locals[index]? = some (some value) → Explains p i m action (f value m)) :
    Explains p i m action ((load index >>= f) m) := by
  cases hload : load index m with
  | ok value m' =>
      rw [bind_of_ok hload]
      unfold load at hload
      split at hload <;> cases hload
      exact h value ‹_›
  | error cause m' =>
      rw [bind_of_error hload]
      unfold load at hload
      split at hload <;> cases hload
      exact explains_drops hother (.all m 2) rfl

theorem explains_popInt {f : Int32 → Execution Flow} (htop : m.Leaves 1 top)
    (h : ∀ rest a, top = rest.push (.int a) →
      Explains p i m action (f a { m with stack := rest })) :
    Explains p i m action ((popInt >>= f) { m with stack := top }) := by
  rw [popInt, bind_assoc]
  refine explains_pop hother (htop.mono (by decide)) fun rest value hrest => ?_
  subst hrest
  exact explains_checkInt hother htop.of_push fun a ha => h rest a (by rw [ha])

theorem explains_popReference {f : Value → Execution Flow} (htop : m.Leaves 1 top)
    (h : ∀ rest a, top = rest.push a → OperandType.reference.accepts a.type →
      Explains p i m action (f a { m with stack := rest })) :
    Explains p i m action ((popReference >>= f) { m with stack := top }) := by
  rw [popReference, bind_assoc]
  refine explains_pop hother (htop.mono (by decide)) fun rest value hrest => ?_
  subst hrest
  rw [bind_assoc]
  refine explains_check hother htop.of_push fun haccepts => ?_
  rw [pure_bind]
  exact h rest value rfl haccepts

theorem explains_ofExcept {f : α → Execution Flow} {result : Except FaultCause α}
    (htop : m.Leaves 2 top)
    (hcause : ∀ cause, result = .error cause → cause.isInternal)
    (h : ∀ a, result = .ok a → Explains p i m action (f a { m with stack := top })) :
    Explains p i m action ((ofExcept result >>= f) { m with stack := top }) := by
  cases result with
  | ok a => exact h a rfl
  | error cause => exact explains_drops hother htop (hcause cause rfl)

theorem explains_push {f : Unit → Execution Flow} {value : Value}
    (htop : m.Leaves 2 top)
    (h : top.size < p.code.maxStack.toNat →
      Explains p i m action (f () { m with stack := top.push value })) :
    Explains p i m action ((push p value >>= f) { m with stack := top }) := by
  by_cases hroom : top.size < p.code.maxStack.toNat
  · have hpush : push p value { m with stack := top } = .ok () { m with stack := top.push value } :=
      push_of_lt hroom
    rw [bind_of_ok hpush]
    exact h hroom
  · have hpush : push p value { m with stack := top } =
        .error (.stackOverflow p.code.maxStack) { m with stack := top } := by
      rw [push, if_neg hroom]
    rw [bind_of_error hpush]
    exact explains_drops hother htop rfl

theorem explains_store {f : Unit → Execution Flow} {index : Nat} {value : Value}
    (htop : m.Leaves 2 top)
    (h : index < m.locals.size →
      Explains p i m action
        (f () { m with stack := top, locals := m.locals.setIfInBounds index (some value) })) :
    Explains p i m action ((store index value >>= f) { m with stack := top }) := by
  by_cases hindex : index < m.locals.size
  · have hstore : store index value { m with stack := top } =
        .ok () { m with stack := top, locals := m.locals.setIfInBounds index (some value) } := by
      rw [store, if_pos hindex]
    rw [bind_of_ok hstore]
    exact h hindex
  · have hstore : store index value { m with stack := top } =
        .error (.invalidLocal index) { m with stack := top } := by
      rw [store, if_neg hindex]
    rw [bind_of_error hstore]
    exact explains_drops hother htop rfl

end Others

/-- A branch that is taken goes to an instruction or fails. -/
theorem explains_branch {rest : Array Value} {distance : Int}
    (hdecides : action.Decides m.stack rest true distance) :
    Explains p i m action
      ((branch p i distance >>= fun _ => return .next : Execution Flow)
        { m with stack := rest }) := by
  by_cases hboundary : ∃ target : Nat, (i.offset : Int) + distance = target ∧ p.Boundary target
  · obtain ⟨target, htarget, hboundary⟩ := hboundary
    rw [bind_of_ok (branch_of_boundary htarget hboundary)]
    exact .jump hdecides htarget hboundary
  · have hnowhere : ∀ target : Nat, (i.offset : Int) + distance = target → ¬p.Boundary target :=
      fun target htarget h => hboundary ⟨target, htarget, h⟩
    have hbranch : branch p i distance { m with stack := rest } =
        .error (.invalidBranch (i.offset + distance)) { m with stack := rest } := by
      by_cases hfront : (i.offset : Int) + distance < 0
      · simp only [branch, if_pos hfront]
      · obtain ⟨target, htarget⟩ := Int.eq_ofNat_of_zero_le (Int.not_lt.mp hfront)
        have hnone := Option.not_isSome_iff_eq_none.mp (hnowhere target htarget)
        have hnonneg : ¬((target : Int) < 0) := by omega
        simp only [branch, htarget, if_neg hnonneg, Int.toNat_natCast, hnone]
    rw [bind_of_error hbranch]
    exact .branch hdecides hnowhere

theorem explains_branchWhen {rest : Array Value} {taken : Bool} {distance : Int}
    (hdecides : action.Decides m.stack rest taken distance) :
    Explains p i m action
      ((branchWhen p i taken distance >>= fun _ => return .next : Execution Flow)
        { m with stack := rest }) := by
  cases taken with
  | true => exact explains_branch hdecides
  | false => exact .fallThrough hdecides

end Explained

theorem isInternal_of_loadable? {pool : Pool} {index : UInt16} {wide : Bool}
    {cause : FaultCause} (h : pool.loadable? index wide = .error cause) : cause.isInternal := by
  unfold Pool.loadable? at h
  split at h
  · cases h
    rfl
  · split at h <;> cases h
    rfl

theorem isInternal_of_apply {op : IntOp} {a b : Int32} {cause : FaultCause}
    (h : op.apply a b = .error cause) : cause.isInternal := by
  cases op with
  | add | sub | mul => cases h
  | div | rem =>
      simp only [IntOp.apply] at h
      split at h <;> cases h
      rfl

theorem explains_perform (p : Program) (policy : UnhandledPolicy) (i : Instruction)
    (action : Action) (m : Machine) : Explains p i m action (perform p policy i action m) := by
  cases action with
  | nop => exact .nop
  | push value => exact explains_push rfl (.all m 2) .push
  | loadConstant index wide =>
      exact explains_ofExcept rfl (.all m 2) (fun _ => isInternal_of_loadable?)
        fun value hvalue => explains_push rfl (.all m 2) (.loadConstant hvalue)
  | load type index =>
      refine explains_load rfl fun value hvalue => ?_
      exact explains_check rfl (.all m 2) fun haccepts =>
        explains_push rfl (.all m 2) (.load hvalue haccepts)
  | store type index =>
      refine explains_pop rfl (.all m 2) fun rest value hrest => ?_
      have hleaves : m.Leaves 2 rest := (Leaves.of_stack_eq hrest).mono (by decide)
      exact explains_check rfl hleaves fun haccepts =>
        explains_store rfl hleaves (.store hrest haccepts)
  | pop => exact explains_pop rfl (.all m 2) fun rest value hrest => .pop hrest
  | dup =>
      refine explains_pop rfl (.all m 2) fun rest value hrest => ?_
      refine explains_push rfl ((Leaves.of_stack_eq hrest).mono (by decide)) fun _ => ?_
      -- the operand is back on the stack before its copy is pushed
      rw [← hrest]
      exact explains_push rfl (.all m 2) (.dup hrest)
  | compute op =>
      refine explains_popInt rfl (.all m 1) fun middle b hb => ?_
      refine explains_popInt rfl (.of_stack_eq hb) fun rest a ha => ?_
      have hstack : m.stack = (rest.push (.int a)).push (.int b) := by rw [hb, ha]
      have hleaves : m.Leaves 2 rest := .of_push (.of_stack_eq hstack)
      exact explains_ofExcept rfl hleaves (fun _ => isInternal_of_apply)
        fun result hresult => explains_push rfl hleaves (.compute hstack hresult)
  | negate =>
      refine explains_popInt rfl (.all m 1) fun rest a ha => ?_
      exact explains_push rfl ((Leaves.of_stack_eq ha).mono (by decide)) (.negate ha)
  | increment index amount =>
      refine explains_load rfl fun value hvalue => ?_
      refine explains_checkInt rfl (.all m 2) fun a ha => ?_
      exact explains_store rfl (.all m 2) fun _ => .increment (ha ▸ hvalue)
  | branch distance => exact explains_branch .always
  | branchZero comparison distance =>
      refine explains_popInt rfl (.all m 1) fun rest a ha => ?_
      exact explains_branchWhen (ha ▸ .zero)
  | branchInts comparison distance =>
      refine explains_popInt rfl (.all m 1) fun middle b hb => ?_
      refine explains_popInt rfl (.of_stack_eq hb) fun rest a ha => ?_
      exact explains_branchWhen (by rw [hb, ha]; exact .ints)
  | branchSame same distance =>
      refine explains_popReference rfl (.all m 1) fun middle b hb hbType => ?_
      refine explains_popReference rfl (.of_stack_eq hb) fun rest a ha haType => ?_
      exact explains_branchWhen (by rw [hb, ha]; exact .same haType hbType)
  | branchNull null distance =>
      refine explains_popReference rfl (.all m 1) fun rest a ha haType => ?_
      exact explains_branchWhen (by rw [ha]; exact .null haType)
  | allocate classIndex =>
      by_cases hroom : m.stack.size < p.code.maxStack.toNat
      · have hpush : perform p policy i (.allocate classIndex) m =
            .ok .next { m with
              heap := m.heap.allocate classIndex
              stack := m.stack.push (.reference m.heap.nextId) } :=
          push_then_next (m := { m with heap := m.heap.allocate classIndex }) hroom
        rw [hpush]
        exact .allocate hroom
      · have hpush : perform p policy i (.allocate classIndex) m =
            .error (.stackOverflow p.code.maxStack)
              { m with heap := m.heap.allocate classIndex } :=
          bind_of_error (m := { m with heap := m.heap.allocate classIndex })
            (by rw [push, if_neg hroom])
        rw [hpush]
        exact .allocate (Nat.le_of_not_lt hroom)
  | returnValue type =>
      refine explains_pop rfl (.all m 2) fun rest value hrest => ?_
      refine explains_check rfl ((Leaves.of_stack_eq hrest).mono (by decide)) fun haccepts => ?_
      exact .returnValue hrest haccepts
  | returnVoid => exact .returnVoid
  | unhandled =>
      cases policy with
      | skip => exact .skipped
      | fail => exact explains_drops rfl (.all m 2) rfl

/-! ## Steps -/

section Step

variable {config : Config}

theorem explains_step (h : dispatched? p config m = some i) :
    ∃ action result, i.action? = some action ∧ step p config m = settle p m.pc result ∧
      Explains p i (m.started.moved i.nextOffset m.stack 1) action result := by
  obtain ⟨_, _, hi⟩ := dispatched?_eq_some_iff.mp h
  obtain ⟨action, haction⟩ :=
    Option.isSome_iff_exists.mp (Instruction.action?_isSome (Program.operands_length hi))
  exact ⟨action, _, haction, step_of_dispatched? h haction,
    explains_perform p config.unhandled i action _⟩

/-- Up to its status, the machine behind a step is the machine itself, when no instruction was
dispatched, or the one that the action of the dispatched instruction leaves. -/
theorem after_step_induction {motive : Machine → Prop}
    (idle : ∀ status, dispatched? p config m = none → motive { m with status })
    (completes : ∀ i action flow m' status, dispatched? p config m = some i →
      i.action? = some action →
        Completes p i (m.started.moved i.nextOffset m.stack 1) action flow m' →
          motive { m' with status })
    (fails : ∀ i action cause m' status, dispatched? p config m = some i →
      i.action? = some action →
        Fails p i (m.started.moved i.nextOffset m.stack 1) action cause m' →
          motive { m' with status }) :
    motive (after (step p config) m) := by
  cases hnext : dispatched? p config m with
  | none =>
      rcases after_step_of_dispatched?_eq_none hnext with ⟨halt, hafter⟩
      rw [hafter]
      exact idle _ hnext
  | some i =>
      rcases explains_step hnext with ⟨action, result, haction, hstep, hexplains⟩
      rw [after, hstep]
      cases result with
      | ok flow m' =>
          cases flow with
          | next => exact completes i action .next m' m'.status hnext haction hexplains
          | halt => exact completes i action .halt m' _ hnext haction hexplains
      | error cause m' => exact fails i action cause m' _ hnext haction hexplains

/-- The fault of a step that dispatches an instruction is the failure of its action, at the place
of the machine. -/
theorem fails_of_step_error {fault : Fault} {m' : Machine} (h : dispatched? p config m = some i)
    (hstep : step p config m = .error fault m') :
    ∃ action m'', i.action? = some action ∧ fault = ⟨fault.cause, m.pc, p.lineFor? m.pc⟩ ∧
      m' = { m'' with status := .halted (.faulted fault) } ∧
        Fails p i (m.started.moved i.nextOffset m.stack 1) action fault.cause m'' := by
  obtain ⟨action, result, haction, hresult, hexplains⟩ := explains_step h
  rw [hresult] at hstep
  cases result with
  | ok flow m'' => cases flow <;> cases hstep
  | error cause m'' =>
      cases hstep
      exact ⟨action, m'', haction, rfl, rfl, hexplains⟩

end Step

end Machine

end ClassMachine
