import ClassMachine.Proofs.Bytecode.Operands

/-!
# Which instructions have which actions

The action of an instruction tells its opcode back where that matters: only one opcode makes
objects, no constant operand is a reference, a branch goes as far as its operand says, and a return
asks for the type that its opcode names.  Integers and references are the only values that are
loaded from a local variable or stored in one, so a long, a float or a double stays on the stack,
where the literal of an opcode or a constant of the pool has put it.
-/

namespace ClassMachine

namespace ValueType

/-- There are instructions that load values of the type and store them. -/
def isStorable : ValueType → Bool
  | .int | .reference | .null => true
  | .long | .float | .double => false

end ValueType

namespace Action

/-- The class of the object that the action makes, if it makes one. -/
def class? : Action → Option UInt16
  | .allocate classIndex => some classIndex
  | _ => none

/-- The distance that an action can branch over. -/
def distance? : Action → Option Int
  | .branch distance => some distance
  | .branchZero _ distance => some distance
  | .branchInts _ distance => some distance
  | .branchSame _ distance => some distance
  | .branchNull _ distance => some distance
  | _ => none

/-- What the action returns, if it ends a run: a value of a type, or none. -/
def returns? : Action → Option (Option OperandType)
  | .returnValue type => some (some type)
  | .returnVoid => some none
  | _ => none

/-- The type that the action asks of a value on its way from or to a local variable. -/
def localType? : Action → Option OperandType
  | .load type _ | .store type _ => some type
  | _ => none

end Action

namespace Opcode

/-- What the opcode returns, if it ends a run: a value of a type, or none. -/
def returns? : Opcode → Option (Option OperandType)
  | .ireturn => some (some .int)
  | .lreturn => some (some .long)
  | .freturn => some (some .float)
  | .dreturn => some (some .double)
  | .areturn => some (some .reference)
  | .returnVoid => some none
  | _ => none

/-- The long, float or double that the opcode stands for. -/
def literal? : Opcode → Option Value
  | .lconst0 => some (.long 0)
  | .lconst1 => some (.long 1)
  | .fconst0 => some (.float .zero)
  | .fconst1 => some (.float .one)
  | .fconst2 => some (.float .two)
  | .dconst0 => some (.double .zero)
  | .dconst1 => some (.double .one)
  | _ => none

theorem eq_returnVoid_of_returns? {opcode : Opcode} (h : opcode.returns? = some none) :
    opcode = .returnVoid := by
  unfold returns? at h
  split at h <;> first | rfl | cases h

end Opcode

namespace Instruction

variable {i : Instruction} {action : Action}

/-- The class of the object that the instruction makes, if it makes one. -/
def newClass? (i : Instruction) : Option UInt16 :=
  if i.opcode = .new then i.u16? else none

theorem newClass?_eq_of_action? (h : i.action? = some action) : i.newClass? = action.class? := by
  unfold newClass?
  split
  next hopcode =>
    simp only [action?, hopcode] at h
    obtain ⟨classIndex, hclass, rfl⟩ := Option.map_eq_some_iff.mp h
    exact hclass
  next hopcode =>
    unfold action? at h
    split at h
    -- no other opcode makes objects
    all_goals first
      | cases h
        rfl
      | split at h <;> cases h
        rfl
      | obtain ⟨operand, _, rfl⟩ := Option.map_eq_some_iff.mp h
        first
          | rfl
          | exact absurd ‹_› hopcode

/-- The distance from the start of the instruction to the place that it can branch to. -/
def branch? (i : Instruction) : Option Int :=
  match i.opcode with
  | .goto | .ifeq | .ifne | .iflt | .ifge | .ifgt | .ifle
  | .ifIcmpeq | .ifIcmpne | .ifIcmplt | .ifIcmpge | .ifIcmpgt | .ifIcmple
  | .ifAcmpeq | .ifAcmpne | .ifnull | .ifnonnull => i.i16?.map (·.toInt)
  | .gotoW => i.i32?.map (·.toInt)
  | _ => none

theorem branch?_eq_of_action? {distance : Int} (h : i.action? = some action)
    (hdistance : action.distance? = some distance) : i.branch? = some distance := by
  unfold action? at h
  split at h
  -- what is left are the branches, whose distances are their operands
  all_goals first
    | cases h
      cases hdistance
    | split at h <;> cases h
      cases hdistance
    | obtain ⟨operand, hoperand, rfl⟩ := Option.map_eq_some_iff.mp h
      cases hdistance
  all_goals rename_i hopcode
  all_goals simp only [branch?, hopcode]
  all_goals first
    | exact hoperand
    | rw [hoperand, Option.map_some]

theorem type_ne_reference_of_action? {value : Value} (h : i.action? = some (.push value)) :
    value.type ≠ .reference := by
  unfold action? at h
  split at h
  -- the opcodes that push a value of their own, and those that push their operand
  all_goals first
    | cases h <;> nofun
    | split at h <;> cases h
    | obtain ⟨operand, _, hmade⟩ := Option.map_eq_some_iff.mp h
      cases hmade
      try nofun

theorem returns?_eq_of_action? (h : i.action? = some action) :
    i.opcode.returns? = action.returns? := by
  unfold action? at h
  split at h
  -- the opcodes whose action is fixed are told apart, and no operand makes another one a return
  all_goals first
    | cases h
      simp only [Opcode.returns?, *, Action.returns?]
    | split at h <;> cases h
      simp only [Opcode.returns?, *, Action.returns?]
    | obtain ⟨operand, _, rfl⟩ := Option.map_eq_some_iff.mp h
      simp only [Opcode.returns?, *, Action.returns?]

theorem literal?_eq_of_action? {value : Value} (h : i.action? = some (.push value))
    (hvalue : value.type.isStorable = false) : i.opcode.literal? = some value := by
  unfold action? at h
  split at h
  -- the other opcodes that push a value of their own push an integer or null
  all_goals first
    | cases h <;> cases hvalue <;> simp only [Opcode.literal?, *]
    | split at h <;> cases h
    | obtain ⟨operand, _, hmade⟩ := Option.map_eq_some_iff.mp h
      cases hmade <;> cases hvalue

theorem localType?_cases {type : OperandType} (h : i.action? = some action)
    (htype : action.localType? = some type) : type = .int ∨ type = .reference := by
  unfold action? at h
  split at h
  all_goals first
    | cases h
      cases htype <;> simp
    | split at h <;> cases h
      cases htype
    | obtain ⟨operand, _, rfl⟩ := Option.map_eq_some_iff.mp h
      cases htype <;> simp

theorem isStorable_of_accepts {type : OperandType} {valueType : ValueType}
    (h : i.action? = some action) (htype : action.localType? = some type)
    (haccepts : type.accepts valueType) : valueType.isStorable := by
  rcases localType?_cases h htype with rfl | rfl
  · cases valueType <;> first | rfl | cases haccepts
  · cases valueType <;> first | rfl | cases haccepts

end Instruction

end ClassMachine
