import ClassMachine.Machine.Outcome
import ClassMachine.Proofs.Machine.Steps

/-!
# Shifted runs

Two runs can differ only in where they are and in what lies below: the bytecode of the one stands
some bytes further back, its stack has values under the operands of the other, and it has
executed more instructions.  An action does the same in both, since it takes its operands from
the top of the stack and branches relative to its own place.  Faults name an offset, a branch
target or the size of the stack, and differ accordingly.

Some causes of faults can be excused: what the other run does instead of such a fault is left
open.  Popping from an empty stack is one of them when there are values below, and so is a
branch to a place in front of the bytecode.
-/

namespace ClassMachine

/-- Where one run is beside another: how much further back, and on top of which values. -/
structure Shift where
  distance : Nat
  below : Array Value

namespace Shift

variable (s : Shift)

def cause : FaultCause → FaultCause
  | .stackOverflow maxStack => .stackOverflow (maxStack + UInt16.ofNat s.below.size)
  | .invalidBranch target => .invalidBranch (target + s.distance)
  | cause => cause

def fault (fault : Fault) : Fault :=
  ⟨s.cause fault.cause, fault.pc + s.distance, fault.line⟩

def halt : Halt → Halt
  | .normal => .normal
  | .faulted fault => .faulted (s.fault fault)

def status : Status → Status
  | .ready => .ready
  | .running => .running
  | .halted halt => .halted (s.halt halt)

def instruction (i : Instruction) : Instruction := { i with offset := i.offset + s.distance }

/-- The machine of the other run, which has executed `ahead` more instructions. -/
def machine (ahead : Nat) (m : Machine) : Machine :=
  { m with
    pc := m.pc + s.distance
    stack := s.below ++ m.stack
    status := s.status m.status
    executed := m.executed + ahead }

def outcome (ahead : Nat) (outcome : Outcome) : Outcome :=
  { outcome with
    halt := s.halt outcome.halt
    stack := s.below ++ outcome.stack
    instructionsExecuted := outcome.instructionsExecuted + ahead }

theorem outcome?_machine (ahead : Nat) (m : Machine) :
    (s.machine ahead m).outcome? = m.outcome?.map (s.outcome ahead) := by
  unfold Machine.outcome?
  cases hstatus : m.status <;> simp only [machine, hstatus, status] <;> rfl

@[simp]
theorem action?_instruction (i : Instruction) : (s.instruction i).action? = i.action? := rfl

theorem nextOffset_instruction (i : Instruction) :
    (s.instruction i).nextOffset = i.nextOffset + s.distance := by
  simp only [Instruction.nextOffset, instruction]
  omega

end Shift

open Execution

/-- What two programs must have in common for their runs to correspond. -/
structure Shift.Relates (s : Shift) (excused : FaultCause → Prop) (p p' : Program) : Prop where
  pool_eq : p'.pool = p.pool
  maxStack_eq : p'.code.maxStack = p.code.maxStack + UInt16.ofNat s.below.size
  maxStack_lt : p.code.maxStack.toNat + s.below.size < 2 ^ 16
  codeSize_eq : p'.codeSize = p.codeSize + s.distance
  lineFor?_eq : ∀ pc, p'.lineFor? (pc + s.distance) = p.lineFor? pc
  boundary : ∀ offset, p.Boundary offset → p'.Boundary (offset + s.distance)
  boundary_conv : ∀ offset : Nat, p'.Boundary (offset + s.distance) →
    p.Boundary offset ∨ excused (.invalidBranch offset)
  in_front : ∀ target < 0, excused (.invalidBranch target)
  underflow : s.below = #[] ∨ excused .stackUnderflow

namespace Shift.Relates

variable {s : Shift} {excused : FaultCause → Prop} {p p' : Program} (h : s.Relates excused p p')

include h

theorem toNat_maxStack : p'.code.maxStack.toNat = p.code.maxStack.toNat + s.below.size := by
  have hlt := h.maxStack_lt
  rw [h.maxStack_eq, UInt16.toNat_add, UInt16.toNat_ofNat']
  omega

/-- An instruction that starts in the other program alone is only found by an excused branch. -/
theorem excused_of_instructionAt? {offset : Nat} {found : Instruction}
    (hnone : p.instructionAt? offset = none)
    (hfound : p'.instructionAt? (offset + s.distance) = some found) :
    excused (.invalidBranch offset) := by
  refine (h.boundary_conv offset (Option.isSome_of_eq_some hfound)).resolve_left ?_
  simp only [Program.Boundary, hnone, Option.isSome_none, Bool.false_eq_true, not_false_eq_true]

end Shift.Relates

/-- The result of an execution in the other run is the shifted one, unless the fault is
excused. -/
def Shift.Corresponds (s : Shift) (excused : FaultCause → Prop) (ahead : Nat)
    (result result' : EStateM.Result FaultCause Machine α) : Prop :=
  match result with
  | .ok a m => result' = .ok a (s.machine ahead m)
  | .error cause m => excused cause ∨ result' = .error (s.cause cause) (s.machine ahead m)

/-- Executed in the other run, `y` has the result that corresponds to that of `x`. -/
def Shift.Mirrors (s : Shift) (excused : FaultCause → Prop) (x y : Execution α) : Prop :=
  ∀ ahead m, s.Corresponds excused ahead (x m) (y (s.machine ahead m))

namespace Shift.Mirrors

variable {s : Shift} {excused : FaultCause → Prop} {α β : Type}

theorem pure (a : α) : s.Mirrors excused (pure a) (pure a) := fun _ _ => rfl

theorem throw {cause : FaultCause} (h : s.cause cause = cause) :
    s.Mirrors excused (throw cause : Execution α) (throw cause) := by
  intro ahead m
  refine Or.inr ?_
  rw [h]
  rfl

theorem bind {x y : Execution α} {f g : α → Execution β} (hx : s.Mirrors excused x y)
    (hf : ∀ a, s.Mirrors excused (f a) (g a)) : s.Mirrors excused (x >>= f) (y >>= g) := by
  intro ahead m
  have hfirst := hx ahead m
  change s.Corresponds excused ahead (EStateM.bind x f m)
    (EStateM.bind y g (s.machine ahead m))
  unfold EStateM.bind
  cases hresult : x m with
  | ok a m' =>
      rw [hresult] at hfirst
      rw [hfirst]
      exact hf a ahead m'
  | error cause m' =>
      rw [hresult] at hfirst
      obtain hexcused | hfirst := hfirst
      · exact Or.inl hexcused
      · rw [hfirst]
        exact Or.inr rfl

theorem next {x y : Execution α} (hx : s.Mirrors excused x y) :
    s.Mirrors excused (x >>= fun _ => return Flow.next) (y >>= fun _ => return Flow.next) :=
  hx.bind fun _ => .pure Flow.next

theorem ofExcept {result : Except FaultCause α}
    (h : ∀ cause, result = .error cause → s.cause cause = cause) :
    s.Mirrors excused (ofExcept result : Execution α) (ofExcept result) := by
  cases result with
  | ok a => exact pure a
  | error cause => exact throw (h cause rfl)

theorem load (index : Nat) : s.Mirrors excused (load index) (load index) := by
  intro ahead m
  simp only [Execution.load, machine]
  rcases m.locals[index]? with _ | _ | value
  · exact Or.inr rfl
  · exact Or.inr rfl
  · rfl

theorem store (index : Nat) (value : Value) :
    s.Mirrors excused (store index value) (store index value) := by
  intro ahead m
  have hsame : (s.machine ahead m).locals = m.locals := rfl
  by_cases hindex : index < m.locals.size
  · simp only [Execution.store, hsame, if_pos hindex]
    rfl
  · simp only [Execution.store, hsame, if_neg hindex]
    exact Or.inr rfl

theorem check (type : OperandType) (value : Value) :
    s.Mirrors excused (check type value) (check type value) := by
  unfold Execution.check
  split
  · exact pure ()
  · exact throw rfl

theorem checkInt (value : Value) : s.Mirrors excused (checkInt value) (checkInt value) := by
  unfold Execution.checkInt
  split
  · exact pure _
  · exact throw rfl

theorem setReturned (value : Value) :
    s.Mirrors excused (setReturned value) (setReturned value) := fun _ _ => rfl

theorem allocate (classIndex : UInt16) :
    s.Mirrors excused (allocate classIndex) (allocate classIndex) := fun _ _ => rfl

theorem cause_of_loadable? {pool : Pool} {index : UInt16} {wide : Bool} {cause : FaultCause}
    (h : pool.loadable? index wide = .error cause) : s.cause cause = cause := by
  unfold Pool.loadable? at h
  split at h
  · cases h
    rfl
  · split at h <;> cases h
    rfl

theorem cause_of_apply {op : IntOp} {a b : Int32} {cause : FaultCause}
    (h : op.apply a b = .error cause) : s.cause cause = cause := by
  cases op with
  | add | sub | mul => cases h
  | div | rem =>
      simp only [IntOp.apply] at h
      split at h <;> cases h
      rfl

section Programs

variable {p p' : Program} (h : s.Relates excused p p')

include h

theorem push (value : Value) : s.Mirrors excused (push p value) (push p' value) := by
  intro ahead m
  have hmax := h.toNat_maxStack
  have hsize : (s.machine ahead m).stack.size = s.below.size + m.stack.size :=
    Array.size_append
  by_cases hroom : m.stack.size < p.code.maxStack.toNat
  · have hroom' : (s.machine ahead m).stack.size < p'.code.maxStack.toNat := by omega
    simp only [Execution.push, if_pos hroom, if_pos hroom']
    simp only [Corresponds, machine, Array.push_append]
  · have hroom' : ¬(s.machine ahead m).stack.size < p'.code.maxStack.toNat := by omega
    simp only [Execution.push, if_neg hroom, if_neg hroom']
    refine Or.inr ?_
    rw [cause, h.maxStack_eq]

theorem pop : s.Mirrors excused pop pop := by
  intro ahead m
  have hstack : (s.machine ahead m).stack = s.below ++ m.stack := rfl
  by_cases hempty : m.stack = #[]
  · simp only [Execution.pop, hstack, hempty, Array.append_empty, Array.back?_empty]
    obtain hbelow | hexcused := h.underflow
    · refine Or.inr ?_
      rw [hbelow]
      rfl
    · exact Or.inl hexcused
  · obtain ⟨rest, value, hrest⟩ := Array.eq_push_of_size_ne_zero (by simpa using hempty)
    have hpushed : (s.machine ahead m).stack = (s.below ++ rest).push value := by
      rw [hstack, hrest, Array.push_append]
    rw [pop_of_push hrest, pop_of_push hpushed]
    rfl

theorem popInt : s.Mirrors excused popInt popInt := (pop h).bind checkInt

theorem popReference : s.Mirrors excused popReference popReference :=
  (pop h).bind fun value => (check .reference value).bind fun _ => pure value

theorem branch (i : Instruction) (distance : Int) :
    s.Mirrors excused (branch p i distance) (branch p' (s.instruction i) distance) := by
  intro ahead m
  have htarget : ((s.instruction i).offset : Int) + distance = i.offset + distance + s.distance := by
    simp only [instruction]
    omega
  by_cases hfront : (i.offset : Int) + distance < 0
  · simp only [Execution.branch, if_pos hfront]
    exact Or.inl (h.in_front _ hfront)
  · obtain ⟨target, hsame⟩ := Int.eq_ofNat_of_zero_le (Int.not_lt.mp hfront)
    have hbehind : ¬((target : Int) + s.distance < 0) := by omega
    have hnonneg : ¬((target : Int) < 0) := by omega
    have hplace : ((target : Int) + s.distance).toNat = target + s.distance := by omega
    simp only [Execution.branch, htarget, hsame, if_neg hnonneg, if_neg hbehind, hplace,
      Int.toNat_natCast]
    cases hfound : p.instructionAt? target with
    | some found =>
        obtain ⟨found', hfound'⟩ := Option.isSome_iff_exists.mp
          (h.boundary target (Option.isSome_of_eq_some hfound))
        rw [hfound']
        rfl
    | none =>
        cases hfound' : p'.instructionAt? (target + s.distance) with
        | none => exact Or.inr rfl
        | some found' => exact Or.inl (h.excused_of_instructionAt? hfound hfound')

theorem branchWhen (i : Instruction) (condition : Bool) (distance : Int) :
    s.Mirrors excused (branchWhen p i condition distance)
      (branchWhen p' (s.instruction i) condition distance) := by
  cases condition with
  | true => exact branch h i distance
  | false => exact pure ()

/-- An action is mirrored by the same action at the shifted instruction.  What there is to do at
an opcode without a meaning must be the same. -/
theorem perform {policy policy' : UnhandledPolicy} {i : Instruction} {action : Action}
    (hpolicy : action = .unhandled → policy' = policy) :
    s.Mirrors excused (perform p policy i action)
      (perform p' policy' (s.instruction i) action) := by
  cases action with
  | nop => exact pure _
  | push value => exact (push h value).next
  | loadConstant index wide =>
      unfold Execution.perform
      rw [h.pool_eq]
      exact (ofExcept fun _ => cause_of_loadable?).bind fun value => (push h value).next
  | load type index =>
      exact (load index).bind fun value => (check type value).bind fun _ => (push h value).next
  | store type index =>
      exact (pop h).bind fun value => (check type value).bind fun _ => (store index value).next
  | pop => exact (pop h).next
  | dup =>
      exact (pop h).bind fun value => (push h value).bind fun _ => (push h value).next
  | compute op =>
      exact (popInt h).bind fun b => (popInt h).bind fun a =>
        (ofExcept fun _ => cause_of_apply).bind fun result => (push h _).next
  | negate => exact (popInt h).bind fun a => (push h _).next
  | increment index amount =>
      exact (load index).bind fun value => (checkInt value).bind fun a => (store index _).next
  | branch distance => exact (branch h i distance).next
  | branchZero comparison distance =>
      exact (popInt h).bind fun a => (branchWhen h i _ distance).next
  | branchInts comparison distance =>
      exact (popInt h).bind fun b => (popInt h).bind fun a => (branchWhen h i _ distance).next
  | branchSame same distance =>
      exact (popReference h).bind fun b => (popReference h).bind fun a =>
        (branchWhen h i _ distance).next
  | branchNull null distance =>
      exact (popReference h).bind fun a => (branchWhen h i _ distance).next
  | allocate classIndex => exact (allocate classIndex).bind fun value => (push h value).next
  | returnValue type =>
      exact (pop h).bind fun value => (check type value).bind fun _ =>
        (setReturned value).bind fun _ => pure Flow.halt
  | returnVoid => exact pure _
  | unhandled =>
      rw [hpolicy rfl]
      cases policy with
      | skip => exact pure _
      | fail => exact throw rfl

end Programs

end Shift.Mirrors

end ClassMachine
