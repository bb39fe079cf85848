import ClassMachine.Machine.Run
import Mathlib

/-!
# What an execution changes

A relation between the machine before and behind an execution can be shown piece by
piece: when every primitive respects it, so does every action.  Which primitives an
action uses decides which parts of the machine it can change.
-/

namespace ClassMachine

namespace Execution

variable {α β : Type}

/-- The machine that an execution leaves behind, however it comes out. -/
def final (x : Execution α) (m : Machine) : Machine :=
  match x m with
  | .ok _ m' => m'
  | .error _ m' => m'

/-- The relation holds between the machine before an execution and the one behind it. -/
def Respects (R : Machine → Machine → Prop) (x : Execution α) : Prop :=
  ∀ m, R m (x.final m)

theorem final_of_ok {x : Execution α} {m m' : Machine} {a : α} (h : x m = .ok a m') :
    x.final m = m' := by
  rw [final, h]

theorem final_of_error {x : Execution α} {m m' : Machine} {cause : FaultCause}
    (h : x m = .error cause m') : x.final m = m' := by
  rw [final, h]

theorem final_congr {x y : Execution α} {m m' : Machine} (h : x m = y m') :
    x.final m = y.final m' := by
  rw [final, final, h]

/-- Relations that may hold between the machines before and behind an execution: what changes
only the place, the operands or the returned value is never told apart. -/
structure Tolerant (R : Machine → Machine → Prop) : Prop where
  refl : ∀ m, R m m
  trans : ∀ {m m' m''}, R m m' → R m' m'' → R m m''
  pc : ∀ m pc, R m { m with pc }
  stack : ∀ m stack, R m { m with stack }
  locals : ∀ m locals, R m { m with locals }
  returned : ∀ m returned, R m { m with returned }

theorem Tolerant.of_keeps {f : Machine → β} (hpc : ∀ m pc, f { m with pc } = f m)
    (hstack : ∀ m stack, f { m with stack } = f m)
    (hlocals : ∀ m locals, f { m with locals } = f m)
    (hreturned : ∀ m returned, f { m with returned } = f m) :
    Tolerant fun m m' => f m' = f m where
  refl _ := rfl
  trans h h' := h'.trans h
  pc := hpc
  stack := hstack
  locals := hlocals
  returned := hreturned

namespace Respects

variable {R : Machine → Machine → Prop} (hR : Tolerant R)

include hR

theorem pure (a : α) : Respects R (pure a : Execution α) := fun m => hR.refl m

theorem throw (cause : FaultCause) : Respects R (throw cause : Execution α) :=
  fun m => hR.refl m

theorem bind {x : Execution α} {f : α → Execution β} (hx : Respects R x)
    (hf : ∀ a, Respects R (f a)) : Respects R (x >>= f) := by
  intro m
  have hfirst := hx m
  change R m (final (EStateM.bind x f) m)
  unfold final EStateM.bind
  cases hresult : x m with
  | ok a m' =>
      rw [final_of_ok hresult] at hfirst
      exact hR.trans hfirst (hf a m')
  | error cause m' =>
      rw [final_of_error hresult] at hfirst
      exact hfirst

theorem ofExcept (result : Except FaultCause α) :
    Respects R (ofExcept result : Execution α) := by
  cases result with
  | ok a => exact pure hR a
  | error cause => exact throw hR cause

theorem push (p : Program) (value : Value) : Respects R (push p value) := by
  intro m
  by_cases hroom : m.stack.size < p.code.maxStack.toNat
  · rw [final, Execution.push, if_pos hroom]
    exact hR.stack m _
  · rw [final, Execution.push, if_neg hroom]
    exact hR.refl m

theorem pop : Respects R pop := by
  intro m
  unfold final Execution.pop
  cases m.stack.back? with
  | some value => exact hR.stack m _
  | none => exact hR.refl m

theorem load (index : Nat) : Respects R (load index) := by
  intro m
  unfold final Execution.load
  rcases m.locals[index]? with _ | _ | value
  · exact hR.refl m
  · exact hR.refl m
  · exact hR.refl m

theorem store (index : Nat) (value : Value) : Respects R (store index value) := by
  intro m
  by_cases hindex : index < m.locals.size
  · rw [final, Execution.store, if_pos hindex]
    exact hR.locals m _
  · rw [final, Execution.store, if_neg hindex]
    exact hR.refl m

theorem check (type : OperandType) (value : Value) : Respects R (check type value) := by
  unfold Execution.check
  split
  · exact pure hR ()
  · exact throw hR _

theorem checkInt (value : Value) : Respects R (checkInt value) := by
  unfold Execution.checkInt
  split
  · exact pure hR _
  · exact throw hR _

theorem popInt : Respects R popInt := bind hR (pop hR) (checkInt hR)

theorem popReference : Respects R popReference :=
  bind hR (pop hR) fun value => bind hR (check hR .reference value) fun _ => pure hR value

theorem setReturned (value : Value) : Respects R (setReturned value) :=
  fun m => hR.returned m (some value)

theorem branch (p : Program) (i : Instruction) (distance : Int) :
    Respects R (branch p i distance) := by
  intro m
  by_cases hnegative : (i.offset : Int) + distance < 0
  · simp only [final, Execution.branch, if_pos hnegative]
    exact hR.refl m
  · simp only [final, Execution.branch, if_neg hnegative]
    cases p.instructionAt? ((i.offset : Int) + distance).toNat with
    | none => exact hR.refl m
    | some target => exact hR.pc m _

theorem branchWhen (p : Program) (i : Instruction) (condition : Bool) (distance : Int) :
    Respects R (branchWhen p i condition distance) := by
  cases condition with
  | true => exact branch hR p i distance
  | false => exact pure hR ()

theorem next {x : Execution α} (hx : Respects R x) :
    Respects R (x >>= fun _ => return Flow.next) :=
  bind hR hx fun _ => pure hR Flow.next

/-- Only allocation can break a relation that tolerates all other changes. -/
theorem perform {p : Program} {policy : UnhandledPolicy} {i : Instruction} {action : Action}
    (hallocate : ∀ classIndex, action = .allocate classIndex →
      ∀ m, R m { m with heap := m.heap.allocate classIndex }) :
    Respects R (perform p policy i action) := by
  cases action with
  | nop => exact pure hR _
  | push value => exact next hR (push hR p value)
  | loadConstant index wide =>
      exact bind hR (ofExcept hR _) fun value => next hR (push hR p value)
  | load type index =>
      exact bind hR (load hR index) fun value => bind hR (check hR type value) fun _ =>
        next hR (push hR p value)
  | store type index =>
      exact bind hR (pop hR) fun value => bind hR (check hR type value) fun _ =>
        next hR (store hR index value)
  | pop => exact next hR (pop hR)
  | dup =>
      exact bind hR (pop hR) fun value => bind hR (push hR p value) fun _ =>
        next hR (push hR p value)
  | compute op =>
      exact bind hR (popInt hR) fun b => bind hR (popInt hR) fun a =>
        bind hR (ofExcept hR _) fun result => next hR (push hR p (.int result))
  | negate => exact bind hR (popInt hR) fun a => next hR (push hR p _)
  | increment index amount =>
      exact bind hR (load hR index) fun value => bind hR (checkInt hR value) fun a =>
        next hR (store hR index _)
  | branch distance => exact next hR (branch hR p i distance)
  | branchZero comparison distance =>
      exact bind hR (popInt hR) fun a => next hR (branchWhen hR p i _ distance)
  | branchInts comparison distance =>
      exact bind hR (popInt hR) fun b => bind hR (popInt hR) fun a =>
        next hR (branchWhen hR p i _ distance)
  | branchSame same distance =>
      exact bind hR (popReference hR) fun b => bind hR (popReference hR) fun a =>
        next hR (branchWhen hR p i _ distance)
  | branchNull null distance =>
      exact bind hR (popReference hR) fun a => next hR (branchWhen hR p i _ distance)
  | allocate classIndex =>
      have hheap : Respects R (Execution.allocate classIndex) := hallocate classIndex rfl
      exact bind hR hheap fun value => next hR (push hR p value)
  | returnValue type =>
      exact bind hR (pop hR) fun value => bind hR (check hR type value) fun _ =>
        bind hR (setReturned hR value) fun _ => pure hR Flow.halt
  | returnVoid => exact pure hR _
  | unhandled =>
      cases policy with
      | skip => exact pure hR _
      | fail => exact throw hR _

end Respects

theorem tolerant_executed : Tolerant fun m m' => m'.executed = m.executed :=
  .of_keeps (fun _ _ => rfl) (fun _ _ => rfl) (fun _ _ => rfl) (fun _ _ => rfl)

theorem tolerant_heap : Tolerant fun m m' => m'.heap = m.heap :=
  .of_keeps (fun _ _ => rfl) (fun _ _ => rfl) (fun _ _ => rfl) (fun _ _ => rfl)

section Perform

variable {p : Program} {policy : UnhandledPolicy} {i : Instruction} {action : Action}

theorem executed_final_perform (m : Machine) :
    ((perform p policy i action).final m).executed = m.executed :=
  Respects.perform tolerant_executed (fun _ _ _ => rfl) m

theorem heap_final_perform (haction : ∀ classIndex, action ≠ .allocate classIndex) (m : Machine) :
    ((perform p policy i action).final m).heap = m.heap :=
  Respects.perform tolerant_heap (fun classIndex h => absurd h (haction classIndex)) m

theorem heap_final_perform_allocate {classIndex : UInt16} (m : Machine) :
    ((perform p policy i (.allocate classIndex)).final m).heap = m.heap.allocate classIndex :=
  Respects.next tolerant_heap (Respects.push tolerant_heap p (.reference m.heap.nextId))
    { m with heap := m.heap.allocate classIndex }

theorem heap_size_final_perform_le (m : Machine) :
    ((perform p policy i action).final m).heap.size ≤ m.heap.size + 1 := by
  by_cases haction : ∃ classIndex, action = .allocate classIndex
  · obtain ⟨classIndex, rfl⟩ := haction
    rw [heap_final_perform_allocate, Heap.allocate, Heap.size, Array.size_push]
    exact Nat.le_refl _
  · rw [heap_final_perform fun classIndex h => haction ⟨classIndex, h⟩]
    exact Nat.le_succ _

end Perform

end Execution

end ClassMachine
