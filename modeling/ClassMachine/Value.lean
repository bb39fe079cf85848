import ClassMachine.Number.Binary

/-!
# Values

What an operand stack, a local variable or a return holds.  An object is only
known by its reference.
-/

namespace ClassMachine

inductive Value where
  | int (value : Int32)
  | long (value : Int64)
  | float (value : Binary32)
  | double (value : Binary64)
  | reference (id : UInt32)
  | null
  deriving DecidableEq, Repr

/-- The types of values.  Null has a type of its own. -/
inductive ValueType where
  | int
  | long
  | float
  | double
  | reference
  | null
  deriving DecidableEq, Repr

/-- The types that an instruction can ask of an operand. -/
inductive OperandType where
  | int
  | long
  | float
  | double
  | reference
  deriving DecidableEq, Repr

namespace ValueType

def name : ValueType → String
  | .int => "int"
  | .long => "long"
  | .float => "float"
  | .double => "double"
  | .reference => "reference"
  | .null => "null"

end ValueType

namespace OperandType

/-- Null is accepted wherever a reference is. -/
def accepts : OperandType → ValueType → Bool
  | .int, .int => true
  | .long, .long => true
  | .float, .float => true
  | .double, .double => true
  | .reference, .reference => true
  | .reference, .null => true
  | _, _ => false

/-- The name of the type with its article. -/
def description : OperandType → String
  | .int => "an integer"
  | .long => "a long"
  | .float => "a float"
  | .double => "a double"
  | .reference => "a reference"

end OperandType

namespace Value

def type : Value → ValueType
  | .int _ => .int
  | .long _ => .long
  | .float _ => .float
  | .double _ => .double
  | .reference _ => .reference
  | .null => .null

def text : Value → String
  | .int value => toString value.toInt
  | .long value => toString value.toInt ++ "L"
  | .float value => value.text ++ "f"
  | .double value => value.text ++ "d"
  | .reference id => "@" ++ toString id.toNat
  | .null => "null"

end Value

end ClassMachine
