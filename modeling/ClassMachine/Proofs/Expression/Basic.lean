import ClassMachine.Pool.Basic
import ClassMachine.Proofs.Machine.Arithmetic
import ClassMachine.Proofs.Program.Placement

/-!
# Integer expressions and their code

Expressions over 32-bit integers, what they mean, and the code that they are translated
to.  The meaning is said with unbounded integers: a result is wrapped around at 32 bits,
and division by zero has none.  Operands are evaluated from left to right, and of the two
arms of a conditional only the chosen one is.

The same expression has several translations, since a constant can be loaded in several
ways.
-/

namespace ClassMachine

namespace IntOp

def opcode : IntOp → Opcode
  | .add => .iadd
  | .sub => .isub
  | .mul => .imul
  | .div => .idiv
  | .rem => .irem

theorem opcode_of_result?_eq_none {op : IntOp} {a b : Int} (h : op.result? a b = none) :
    op.opcode = .idiv ∨ op.opcode = .irem := by
  cases op with
  | add => cases h
  | sub => cases h
  | mul => cases h
  | div => exact .inl rfl
  | rem => exact .inr rfl

end IntOp

namespace Comparison

/-- The opcode that compares two integers and branches when the comparison holds. -/
def opcode : Comparison → Opcode
  | .eq => .ifIcmpeq
  | .ne => .ifIcmpne
  | .lt => .ifIcmplt
  | .ge => .ifIcmpge
  | .gt => .ifIcmpgt
  | .le => .ifIcmple

end Comparison

inductive Expression where
  | constant (value : Int32)
  | readLocal (index : UInt8)
  | negate (operand : Expression)
  | binary (op : IntOp) (left right : Expression)
  | conditional (comparison : Comparison) (left right whenTrue whenFalse : Expression)
  deriving DecidableEq, Repr

namespace Expression

/-- The value of an expression over the values of the local variables, unless it divides by zero. -/
def value? (locals : UInt8 → Int32) : Expression → Option Int32
  | .constant value => some value
  | .readLocal index => some (locals index)
  | .negate operand => (operand.value? locals).map fun a => Int32.ofInt (-a.toInt)
  | .binary op left right => do
      let a ← left.value? locals
      let b ← right.value? locals
      op.result? a.toInt b.toInt
  | .conditional comparison left right whenTrue whenFalse => do
      let a ← left.value? locals
      let b ← right.value? locals
      if comparison.Rel a.toInt b.toInt then whenTrue.value? locals
      else whenFalse.value? locals

/-- The expression reads a local variable, in whichever arm of a conditional. -/
def Reads (index : UInt8) : Expression → Prop
  | .constant _ => False
  | .readLocal other => other = index
  | .negate operand => operand.Reads index
  | .binary _ left right => left.Reads index ∨ right.Reads index
  | .conditional _ left right whenTrue whenFalse =>
      left.Reads index ∨ right.Reads index ∨ whenTrue.Reads index ∨ whenFalse.Reads index

/-- How many values the code of an expression keeps on the stack at once. -/
def need : Expression → Nat
  | .constant _ => 1
  | .readLocal _ => 1
  | .negate operand => operand.need
  | .binary _ left right => max left.need (1 + right.need)
  | .conditional _ left right whenTrue whenFalse =>
      max (max left.need (1 + right.need)) (max whenTrue.need whenFalse.need)

theorem need_pos (e : Expression) : 0 < e.need := by
  induction e with
  | constant value => exact Nat.one_pos
  | readLocal index => exact Nat.one_pos
  | negate operand ih => exact ih
  | binary op left right ihleft ihright => exact lt_max_of_lt_left ihleft
  | conditional comparison left right whenTrue whenFalse ihleft ihright ihtrue ihfalse =>
      exact lt_max_of_lt_left (lt_max_of_lt_left ihleft)

theorem lt_of_add_need_le {e : Expression} {size bound : Nat} (h : size + e.need ≤ bound) :
    size < bound := by
  have := e.need_pos
  omega

end Expression

def Opcode.withWord (opcode : Opcode) (n : Nat) : List UInt8 :=
  opcode.byte :: BigEndian.toBytes 2 n

def Opcode.constant? : Opcode → Option Int32
  | .iconstM1 => some (-1)
  | .iconst0 => some 0
  | .iconst1 => some 1
  | .iconst2 => some 2
  | .iconst3 => some 3
  | .iconst4 => some 4
  | .iconst5 => some 5
  | _ => none

/-- The codes of one instruction that load an integer constant: by an opcode of its own, out
of one or two signed operand bytes, or from the pool. -/
inductive ConstantCode (pool : Pool) : Int32 → List UInt8 → Prop where
  | short {value : Int32} {opcode : Opcode} :
      opcode.constant? = some value → ConstantCode pool value [opcode.byte]
  | byte (value : Int8) :
      ConstantCode pool value.toInt32 [Opcode.bipush.byte, value.toUInt8]
  | word (value : Int16) :
      ConstantCode pool value.toInt32 (Opcode.sipush.withWord value.toUInt16.toNat)
  | pool {value : Int32} (index : UInt16) :
      pool.get index = .ok (.integer value) →
        ConstantCode pool value (Opcode.ldcW.withWord index.toNat)

/-- The codes that an expression is translated to.  Behind the operands of a conditional stands
a branch over the arm for false, and behind that arm a branch over the other one. -/
inductive Translation (pool : Pool) : Expression → List UInt8 → Prop where
  | constant {value : Int32} {code : List UInt8} :
      ConstantCode pool value code → Translation pool (.constant value) code
  | readLocal (index : UInt8) :
      Translation pool (.readLocal index) [Opcode.iload.byte, index]
  | negate {operand : Expression} {code : List UInt8} :
      Translation pool operand code →
        Translation pool (.negate operand) (code ++ [Opcode.ineg.byte])
  | binary {op : IntOp} {left right : Expression} {leftCode rightCode : List UInt8} :
      Translation pool left leftCode → Translation pool right rightCode →
        Translation pool (.binary op left right) (leftCode ++ (rightCode ++ [op.opcode.byte]))
  | conditional {comparison : Comparison} {left right whenTrue whenFalse : Expression}
      {leftCode rightCode trueCode falseCode : List UInt8} :
      Translation pool left leftCode → Translation pool right rightCode →
        Translation pool whenTrue trueCode → Translation pool whenFalse falseCode →
          Translation pool (.conditional comparison left right whenTrue whenFalse)
            (leftCode ++ (rightCode ++ (comparison.opcode.withWord (falseCode.length + 6) ++
              (falseCode ++ (Opcode.goto.withWord (trueCode.length + 3) ++ trueCode)))))

end ClassMachine
