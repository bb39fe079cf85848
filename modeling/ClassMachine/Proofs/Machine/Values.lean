import ClassMachine.Proofs.Machine.Effects
import ClassMachine.Proofs.Program.Arguments

/-!
# Where values come from

A machine holds the values on its stack, in its local variables and in what it returned.  At first
it holds only the zero values of its arguments.  A step moves values from one of these places to
another, and the only values that were nowhere before are those that the action of the dispatched
instruction introduces.
-/

namespace ClassMachine

/-- The action brings the value into a machine with such a heap. -/
inductive Action.Introduces (p : Program) (heap : Heap) : Action → Value → Prop where
  | operand {value : Value} : Introduces p heap (.push value) value
  | constant {index : UInt16} {wide : Bool} {value : Value} :
      p.pool.loadable? index wide = .ok value → Introduces p heap (.loadConstant index wide) value
  | computed {op : IntOp} {a : Int32} : Introduces p heap (.compute op) (.int a)
  | negated {a : Int32} : Introduces p heap .negate (.int a)
  | incremented {index : Nat} {amount a : Int32} :
      Introduces p heap (.increment index amount) (.int a)
  | allocated {classIndex : UInt16} :
      Introduces p heap (.allocate classIndex) (.reference heap.nextId)

theorem Pool.type_ne_reference_of_loadable? {pool : Pool} {index : UInt16} {wide : Bool}
    {value : Value} (h : pool.loadable? index wide = .ok value) : value.type ≠ .reference := by
  unfold Pool.loadable? at h
  split at h
  · cases h
  · split at h <;> cases h <;> nofun

namespace Machine

variable {p : Program} {config : Config} {m m' : Machine} {i : Instruction} {action : Action}
variable {value : Value} {rest : Array Value}

/-- The value is on the stack, in a local variable, or what the machine returned. -/
def Holds (m : Machine) (value : Value) : Prop :=
  value ∈ m.stack ∨ some value ∈ m.locals ∨ m.returned = some value

theorem Leaves.mem {count : Nat} (h : m.Leaves count rest) : ∀ value ∈ rest, value ∈ m.stack := by
  obtain ⟨popped, hstack, _⟩ := h
  intro value hvalue
  rw [hstack]
  exact Array.mem_append_left popped hvalue

theorem Leaves.size_le {count : Nat} (h : m.Leaves count rest) : rest.size ≤ m.stack.size := by
  rcases h with ⟨popped, hstack, _⟩
  rw [hstack, Array.size_append]
  exact Nat.le_add_right _ _

theorem leaves_of_decides {taken : Bool} {distance : Int}
    (h : action.Decides m.stack rest taken distance) : m.Leaves 2 rest := by
  generalize hstack : m.stack = stack at h
  cases h with
  | always => exact ⟨#[], by rw [hstack, Array.append_empty], by decide⟩
  | zero | null => exact (Leaves.of_stack_eq hstack).mono (by decide)
  | ints | same => exact .of_push (.of_stack_eq hstack)

/-- The action can push the value: it was an operand already, it is new, or it was in the local
variable that is loaded. -/
inductive Pushes (p : Program) (m : Machine) : Action → Value → Prop where
  | operand {action : Action} {value : Value} : value ∈ m.stack → Pushes p m action value
  | introduced {action : Action} {value : Value} :
      action.Introduces p m.heap value → Pushes p m action value
  | loaded {type : OperandType} {index : Nat} {value : Value} :
      m.locals[index]? = some (some value) → type.accepts value.type →
        Pushes p m (.load type index) value

/-- The action can store the value in the local variable. -/
inductive Stores (m : Machine) : Action → Nat → Value → Prop where
  | stored {type : OperandType} {index : Nat} {value : Value} :
      value ∈ m.stack → type.accepts value.type → Stores m (.store type index) index value
  | incremented {index : Nat} {amount a : Int32} : Stores m (.increment index amount) index (.int a)

variable {flow : Flow} {cause : FaultCause}

/-- A completed action takes at most two operands off the stack, and then pushes at most one value
when there is room for it. -/
theorem Completes.stack_cases (h : Completes p i m action flow m') :
    ∃ rest, m.Leaves 2 rest ∧
      (m'.stack = rest ∨ ∃ value, m'.stack = rest.push value ∧
        rest.size < p.code.maxStack.toNat ∧ Pushes p m action value) := by
  cases h with
  | nop | returnVoid | skipped | increment _ => exact ⟨_, .all m 2, .inl rfl⟩
  | push hroom => exact ⟨_, .all m 2, .inr ⟨_, rfl, hroom, .introduced .operand⟩⟩
  | loadConstant hconstant hroom =>
      exact ⟨_, .all m 2, .inr ⟨_, rfl, hroom, .introduced (.constant hconstant)⟩⟩
  | load hlocal haccepts hroom =>
      exact ⟨_, .all m 2, .inr ⟨_, rfl, hroom, .loaded hlocal haccepts⟩⟩
  | store hstack _ _ | pop hstack | returnValue hstack _ =>
      exact ⟨_, (Leaves.of_stack_eq hstack).mono (by decide), .inl rfl⟩
  | dup hstack hroom =>
      refine ⟨_, .all m 2, .inr ⟨_, rfl, hroom, .operand ?_⟩⟩
      simp [hstack]
  | compute hstack _ hroom =>
      exact ⟨_, .of_push (.of_stack_eq hstack), .inr ⟨_, rfl, hroom, .introduced .computed⟩⟩
  | negate hstack hroom =>
      exact ⟨_, (Leaves.of_stack_eq hstack).mono (by decide),
        .inr ⟨_, rfl, hroom, .introduced .negated⟩⟩
  | jump hdecides _ _ => exact ⟨_, leaves_of_decides hdecides, .inl rfl⟩
  | fallThrough hdecides => exact ⟨_, leaves_of_decides hdecides, .inl rfl⟩
  | allocate hroom => exact ⟨_, .all m 2, .inr ⟨_, rfl, hroom, .introduced .allocated⟩⟩

/-- A completed action changes at most one local variable, which is there. -/
theorem Completes.locals_cases (h : Completes p i m action flow m') :
    m'.locals = m.locals ∨ ∃ index value, index < m.locals.size ∧
      m'.locals = m.locals.setIfInBounds index (some value) ∧ Stores m action index value := by
  cases h with
  | store hstack haccepts hindex =>
      refine .inr ⟨_, _, hindex, rfl, .stored ?_ haccepts⟩
      simp [hstack]
  | increment hlocal =>
      rcases Array.getElem?_eq_some_iff.mp hlocal with ⟨hindex, _⟩
      exact .inr ⟨_, _, hindex, rfl, .incremented⟩
  | _ => exact .inl rfl

theorem Completes.returned_of_next (h : Completes p i m action .next m') :
    m'.returned = m.returned ∧ action.returns? = none := by
  cases h with
  | jump hdecides _ _ => exact ⟨rfl, hdecides.returns?_eq_none⟩
  | fallThrough hdecides => exact ⟨rfl, hdecides.returns?_eq_none⟩
  | _ => exact ⟨rfl, rfl⟩

/-- A completed action that ends the run is a return, of the value on top of the stack or of none. -/
theorem Completes.returned_of_halt (h : Completes p i m action .halt m') :
    (action.returns? = some none ∧ m'.returned = m.returned) ∨
      ∃ type value, action.returns? = some (some type) ∧ type.accepts value.type ∧
        m.stack.back? = some value ∧ m'.returned = some value := by
  cases h with
  | returnValue hstack haccepts =>
      right
      exact ⟨_, _, rfl, haccepts, by simp [hstack], rfl⟩
  | returnVoid => exact .inl ⟨rfl, rfl⟩

theorem Fails.kept (h : Fails p i m action cause m') :
    m'.locals = m.locals ∧ m'.returned = m.returned ∧ m'.executed = m.executed := by
  cases h <;> simp

theorem Fails.leaves (h : Fails p i m action cause m') : m.Leaves 2 m'.stack := by
  cases h with
  | drops _ hleaves _ => exact hleaves
  | branch hdecides _ => exact leaves_of_decides hdecides
  | allocate _ => exact .all _ 2

/-- The value is on the stack, or what the machine returned. -/
def HasOperand (m : Machine) (value : Value) : Prop :=
  value ∈ m.stack ∨ m.returned = some value

theorem Completes.hasOperand (h : Completes p i m action flow m') (hvalue : m'.HasOperand value) :
    m.HasOperand value ∨ Pushes p m action value := by
  rcases hvalue with hstack | hreturned
  · rcases h.stack_cases with ⟨rest, hleaves, hrest | ⟨top, hpush, _, hpushes⟩⟩
    · rw [hrest] at hstack
      exact .inl (.inl (hleaves.mem value hstack))
    · rw [hpush, Array.mem_push] at hstack
      rcases hstack with hbelow | rfl
      · exact .inl (.inl (hleaves.mem value hbelow))
      · exact .inr hpushes
  · left
    cases flow with
    | next => exact .inr (h.returned_of_next.1 ▸ hreturned)
    | halt =>
        rcases h.returned_of_halt with ⟨_, hkept⟩ | ⟨type, top, _, _, htop, hvalue⟩
        · exact .inr (hkept ▸ hreturned)
        · rw [hvalue, Option.some.injEq] at hreturned
          subst hreturned
          exact .inl (Array.mem_of_back? htop)

theorem Fails.hasOperand (h : Fails p i m action cause m') (hvalue : m'.HasOperand value) :
    m.HasOperand value := by
  rcases hvalue with hstack | hreturned
  · exact .inl (h.leaves.mem value hstack)
  · exact .inr (h.kept.2.1 ▸ hreturned)

theorem Completes.holds (h : Completes p i m action flow m') (hvalue : m'.Holds value) :
    m.Holds value ∨ action.Introduces p m.heap value := by
  have hoperand : m'.HasOperand value → m.Holds value ∨ action.Introduces p m.heap value := by
    intro hvalue
    rcases h.hasOperand hvalue with (hstack | hreturned) | hpushes
    · exact .inl (.inl hstack)
    · exact .inl (.inr (.inr hreturned))
    · cases hpushes with
      | operand hstack => exact .inl (.inl hstack)
      | introduced hintroduces => exact .inr hintroduces
      | loaded hlocal _ => exact .inl (.inr (.inl (Array.mem_of_getElem? hlocal)))
  rcases hvalue with hstack | hlocals | hreturned
  · exact hoperand (.inl hstack)
  · rcases h.locals_cases with hkept | ⟨index, stored, _, hset, hstores⟩
    · exact .inl (.inr (.inl (hkept ▸ hlocals)))
    · rw [hset] at hlocals
      rcases Array.mem_or_eq_of_mem_setIfInBounds hlocals with hkept | hvalue
      · exact .inl (.inr (.inl hkept))
      · cases hvalue
        cases hstores with
        | stored hstack _ => exact .inl (.inl hstack)
        | incremented => exact .inr .incremented
  · exact hoperand (.inr hreturned)

theorem Fails.holds (h : Fails p i m action cause m') (hvalue : m'.Holds value) :
    m.Holds value := by
  rcases hvalue with hstack | hlocals | hreturned
  · exact .inl (h.leaves.mem value hstack)
  · exact .inr (.inl (h.kept.1 ▸ hlocals))
  · exact .inr (.inr (h.kept.2.1 ▸ hreturned))

/-- What a machine holds after a step it held before, or the dispatched instruction brought it
in. -/
theorem holds_of_holds_after_step (h : (after (step p config) m).Holds value) :
    m.Holds value ∨ ∃ i action, dispatched? p config m = some i ∧ i.action? = some action ∧
      action.Introduces p m.heap value := by
  revert h
  apply after_step_induction
    (motive := fun m' => m'.Holds value → m.Holds value ∨ ∃ i action,
      dispatched? p config m = some i ∧ i.action? = some action ∧
        action.Introduces p m.heap value)
  · intro status _ hheld
    exact .inl hheld
  · intro i action flow m' status hnext haction hcompletes hheld
    rcases hcompletes.holds hheld with hbefore | hintroduces
    · exact .inl hbefore
    · exact .inr ⟨i, action, hnext, haction, hintroduces⟩
  · intro i action cause m' status _ _ hfails hheld
    exact .inl (hfails.holds hheld)

end Machine

end ClassMachine
