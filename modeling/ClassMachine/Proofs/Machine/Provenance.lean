import ClassMachine.Proofs.Machine.Reached
import ClassMachine.Proofs.Machine.Values

/-!
# What the stack and the local variables of a run can hold

The stack of a run stays within the size that the code asks for, and the number of local variables
is the one that the code asks for.  Only integers and references are stored, so a local variable
with a long, a float or a double in it is one that nothing was stored in.  Such a value gets onto the
stack only as the literal of an opcode or as a constant of the pool, and from there it can only be
returned.
-/

namespace ClassMachine

/-- The long, float or double that the constant is. -/
def Constant.number? : Constant → Option Value
  | .long value => some (.long value)
  | .float value => some (.float value)
  | .double value => some (.double value)
  | _ => none

theorem Pool.number?_of_loadable? {pool : Pool} {index : UInt16} {wide : Bool} {value : Value}
    (h : pool.loadable? index wide = .ok value) (hvalue : value.type.isStorable = false) :
    ∃ constant, pool.get index = .ok constant ∧ constant.number? = some value := by
  unfold loadable? at h
  split at h
  · cases h
  next constant hget =>
    refine ⟨constant, hget, ?_⟩
    split at h <;> cases h <;> cases hvalue <;> rfl

theorem DescriptorType.zeroValue_cases {type : DescriptorType} {value : Value}
    (h : type.zeroValue = some value) (hvalue : value.type.isStorable = false) :
    value = .long 0 ∨ value = .float .zero ∨ value = .double .zero := by
  cases type <;> cases h <;> cases hvalue <;> simp

/-- The instruction stands for the long, float or double, or names it in the pool. -/
inductive Instruction.Supplies (p : Program) (i : Instruction) : Value → Prop where
  | literal {value : Value} : i.opcode.literal? = some value → Supplies p i value
  | constant {index : UInt16} {wide : Bool} {constant : Constant} {value : Value} :
      i.action? = some (.loadConstant index wide) → p.pool.get index = .ok constant →
        constant.number? = some value → Supplies p i value

namespace Machine

variable {p : Program} {config : Config} {m m' : Machine} {i : Instruction} {action : Action}
variable {value : Value} {flow : Flow} {cause : FaultCause} {n k index : Nat}

/-! ## Sizes -/

/-- The stack and the local variables take as much room as the code asks for. -/
structure Framed (p : Program) (m : Machine) : Prop where
  stack : m.stack.size ≤ p.code.maxStack.toNat
  locals : m.locals.size = p.code.maxLocals.toNat

theorem framed_initial (p : Program) : Framed p (initial p) where
  stack := Nat.zero_le _
  locals := p.size_initialLocals

theorem Completes.framed (h : Completes p i m action flow m') (hm : Framed p m) :
    Framed p m' where
  stack := by
    rcases h.stack_cases with ⟨rest, hleaves, hrest | ⟨value, hpush, hroom, _⟩⟩
    · rw [hrest]
      exact hleaves.size_le.trans hm.stack
    · rw [hpush, Array.size_push]
      exact hroom
  locals := by
    rcases h.locals_cases with hkept | ⟨index, value, _, hset, _⟩
    · rw [hkept]
      exact hm.locals
    · rw [hset, Array.size_setIfInBounds]
      exact hm.locals

theorem Fails.framed (h : Fails p i m action cause m') (hm : Framed p m) : Framed p m' where
  stack := h.leaves.size_le.trans hm.stack
  locals := by
    rw [h.kept.1]
    exact hm.locals

theorem framed_after_step (h : Framed p m) : Framed p (after (step p config) m) := by
  apply after_step_induction (motive := Framed p)
  · intro status _
    exact ⟨h.stack, h.locals⟩
  · intro i action flow m' status _ _ hcompletes
    have hm' : Framed p m' := hcompletes.framed ⟨h.stack, h.locals⟩
    exact ⟨hm'.stack, hm'.locals⟩
  · intro i action cause m' status _ _ hfails
    have hm' : Framed p m' := hfails.framed ⟨h.stack, h.locals⟩
    exact ⟨hm'.stack, hm'.locals⟩

theorem framed_reached (p : Program) (config : Config) (n : Nat) :
    Framed p (reached p config n) :=
  reached_induction (framed_initial p) (fun _ => framed_after_step) n

/-! ## Local variables -/

theorem Stores.isStorable (h : Stores m action index value) (haction : i.action? = some action) :
    value.type.isStorable := by
  cases h with
  | stored _ haccepts => exact Instruction.isStorable_of_accepts haction rfl haccepts
  | incremented => rfl

/-- An action leaves a local variable as it is, or stores an integer or a reference in it. -/
theorem Completes.getElem?_locals (h : Completes p i m action flow m')
    (haction : i.action? = some action) (index : Nat) :
    m'.locals[index]? = m.locals[index]? ∨
      ∃ value, m'.locals[index]? = some (some value) ∧ value.type.isStorable := by
  rcases h.locals_cases with hkept | ⟨changed, value, hchanged, hset, hstores⟩
  · exact .inl (by rw [hkept])
  · by_cases hindex : changed = index
    · subst hindex
      right
      refine ⟨value, ?_, hstores.isStorable haction⟩
      rw [hset, Array.getElem?_setIfInBounds_self_of_lt hchanged]
    · left
      rw [hset, Array.getElem?_setIfInBounds_ne hindex]

theorem getElem?_locals_after_step (p : Program) (config : Config) (m : Machine) (index : Nat) :
    (after (step p config) m).locals[index]? = m.locals[index]? ∨
      ∃ value, (after (step p config) m).locals[index]? = some (some value) ∧
        value.type.isStorable := by
  apply after_step_induction
    (motive := fun m' => m'.locals[index]? = m.locals[index]? ∨
      ∃ value, m'.locals[index]? = some (some value) ∧ value.type.isStorable)
  · intro status _
    exact .inl rfl
  · intro i action flow m' status _ haction hcompletes
    exact hcompletes.getElem?_locals haction index
  · intro i action cause m' status _ _ hfails
    exact .inl (congrArg (·[index]?) hfails.kept.1)

/-- From one step of a run to a later one, a local variable stays as it is all the way, or holds an
integer or a reference in the end. -/
theorem getElem?_locals_reached (index : Nat) (h : k ≤ n) :
    (∀ j, k ≤ j → j ≤ n →
        (reached p config j).locals[index]? = (reached p config k).locals[index]?) ∨
      ∃ value, (reached p config n).locals[index]? = some (some value) ∧ value.type.isStorable := by
  induction h with
  | refl =>
      left
      intro j hlower hupper
      rw [Nat.le_antisymm hupper hlower]
  | @step n hle ih =>
      rcases getElem?_locals_after_step p config (reached p config n) index with hkept | hstored
      · rw [← reached_succ] at hkept
        rcases ih with huntouched | hstored
        · left
          intro j hlower hupper
          rcases Nat.le_succ_iff.mp hupper with hearlier | rfl
          · exact huntouched j hlower hearlier
          · exact hkept.trans (huntouched n hle n.le_refl)
        · exact .inr (hkept ▸ hstored)
      · exact .inr hstored

/-- A local variable with a value in it has one from then on. -/
theorem exists_local_reached (h : k ≤ n)
    (hset : (reached p config k).locals[index]? = some (some value)) :
    ∃ value', (reached p config n).locals[index]? = some (some value') := by
  rcases getElem?_locals_reached index h with huntouched | ⟨value', hstored, _⟩
  · exact ⟨value, (huntouched n h n.le_refl).trans hset⟩
  · exact ⟨value', hstored⟩

/-- A local variable with a long, a float or a double in it was never stored in. -/
theorem untouched_of_not_isStorable
    (hset : (reached p config n).locals[index]? = some (some value))
    (hvalue : value.type.isStorable = false) :
    (∀ k ≤ n, (reached p config k).locals[index]? = some (some value)) ∧
      (value = .long 0 ∨ value = .float .zero ∨ value = .double .zero) := by
  have huntouched : ∀ k ≤ n, (reached p config k).locals[index]? = p.initialLocals[index]? := by
    rcases getElem?_locals_reached index n.zero_le with huntouched | ⟨value', hstored, hstorable⟩
    · intro k hk
      exact huntouched k k.zero_le hk
    · rw [hset, Option.some.injEq, Option.some.injEq] at hstored
      subst hstored
      rw [hvalue] at hstorable
      cases hstorable
  have hseed : p.initialLocals[index]? = some (some value) :=
    (huntouched n n.le_refl).symm.trans hset
  constructor
  · intro k hk
    rw [huntouched k hk, hseed]
  · rcases Program.exists_zeroValue_of_mem_initialLocals (Array.mem_of_getElem? hseed) with
      ⟨type, hzero⟩
    exact DescriptorType.zeroValue_cases hzero hvalue

/-! ## Operands -/

theorem Pushes.mem_or_supplies (h : Pushes p m action value) (haction : i.action? = some action)
    (hvalue : value.type.isStorable = false) : value ∈ m.stack ∨ i.Supplies p value := by
  cases h with
  | operand hstack => exact .inl hstack
  | introduced hintroduces =>
      right
      cases hintroduces with
      | operand => exact .literal (Instruction.literal?_eq_of_action? haction hvalue)
      | constant hconstant =>
          rcases Pool.number?_of_loadable? hconstant hvalue with ⟨constant, hget, hnumber⟩
          exact .constant haction hget hnumber
      | _ => cases hvalue
  | loaded _ haccepts =>
      have hstorable := Instruction.isStorable_of_accepts haction rfl haccepts
      rw [hvalue] at hstorable
      cases hstorable

theorem hasOperand_or_supplies_of_after_step
    (h : (after (step p config) m).HasOperand value) (hvalue : value.type.isStorable = false) :
    m.HasOperand value ∨ ∃ i, dispatched? p config m = some i ∧ i.Supplies p value := by
  revert h
  apply after_step_induction
    (motive := fun m' => m'.HasOperand value →
      m.HasOperand value ∨ ∃ i, dispatched? p config m = some i ∧ i.Supplies p value)
  · intro status _ hoperand
    exact .inl hoperand
  · intro i action flow m' status hnext haction hcompletes hoperand
    rcases hcompletes.hasOperand hoperand with hkept | hpushes
    · exact .inl hkept
    · rcases hpushes.mem_or_supplies haction hvalue with hstack | hsupplies
      · exact .inl (.inl hstack)
      · exact .inr ⟨i, hnext, hsupplies⟩
  · intro i action cause m' status _ _ hfails hoperand
    exact .inl (hfails.hasOperand hoperand)

/-- A long, float or double among the operands of a run comes from an instruction of that run. -/
theorem supplied_reached (h : (reached p config n).HasOperand value)
    (hvalue : value.type.isStorable = false) :
    ∃ i ∈ dispatched p config n (initial p), i.Supplies p value := by
  induction n with
  | zero =>
      rcases h with hstack | hreturned
      · cases Array.not_mem_empty _ hstack
      · cases hreturned
  | succ n ih =>
      rw [dispatched_initial_succ]
      rcases hasOperand_or_supplies_of_after_step h hvalue with hearlier | ⟨i, hnext, hsupplies⟩
      · rcases ih hearlier with ⟨i, hi, hsupplies⟩
        exact ⟨i, List.mem_append_left _ hi, hsupplies⟩
      · exact ⟨i, by simp [hnext], hsupplies⟩

/-- However far a run gets, its stack has room and its local variables are as many as the code says.
A local variable that holds a value keeps holding one.  Each is as it was at the start of the run or
holds an integer or a reference, so a long, a float or a double in it is a zero that was never
touched.  On the stack and in what was returned, every long, float or double is the literal of an
instruction that was dispatched or a constant that such an instruction names. -/
theorem provenance_reached (p : Program) (config : Config) (n : Nat) :
    let m := reached p config n
    m.stack.size ≤ p.code.maxStack.toNat ∧ m.locals.size = p.code.maxLocals.toNat ∧
      (∀ k ≤ n, ∀ (index : Nat) (value : Value),
        (reached p config k).locals[index]? = some (some value) →
          ∃ value', m.locals[index]? = some (some value')) ∧
      (∀ index : Nat, (∀ k ≤ n, (reached p config k).locals[index]? = p.initialLocals[index]?) ∨
        ∃ value : Value, m.locals[index]? = some (some value) ∧ value.type.isStorable) ∧
      (∀ (index : Nat) (value : Value), m.locals[index]? = some (some value) →
        value.type.isStorable = false →
        (∀ k ≤ n, (reached p config k).locals[index]? = some (some value)) ∧
          (value = .long 0 ∨ value = .float .zero ∨ value = .double .zero)) ∧
      ∀ value, m.HasOperand value → value.type.isStorable = false →
        ∃ i ∈ dispatched p config n (initial p), i.Supplies p value := by
  intro m
  have hframed := framed_reached p config n
  refine ⟨hframed.stack, hframed.locals, ?_, ?_, ?_, ?_⟩
  · intro k hk index value
    exact exists_local_reached hk
  · intro index
    rcases getElem?_locals_reached index n.zero_le with huntouched | hstored
    · left
      intro k hk
      exact huntouched k k.zero_le hk
    · exact .inr hstored
  · intro index value
    exact untouched_of_not_isStorable
  · intro value
    exact supplied_reached

/-- A long argument is there, but it is not for an instruction that loads integers. -/
example :
    let p := Program.ofCode .empty (some ⟨[.long], .void⟩) ⟨1, 2, [0x1a], [], []⟩ #[⟨0, .iload0, []⟩]
      (by decide +kernel)
    let m := reached p ⟨.skip, none⟩ 1
    m.status = .halted (.faulted ⟨.typeMismatch .int .long, 0, none⟩) ∧ m.stack = #[] ∧
      m.locals = #[some (.long 0), none] := by
  decide +kernel

end Machine

end ClassMachine
