import ClassMachine.Value

/-!
# Descriptor types

The types that a method descriptor is made of, and their text: one letter for a
primitive type, `L` name `;` for a class, and `[` before the component of an
array.
-/

namespace ClassMachine

inductive DescriptorType where
  | byte
  | char
  | double
  | float
  | int
  | long
  | short
  | boolean
  | void
  | object (name : String)
  | array (component : DescriptorType)
  deriving DecidableEq, Repr

namespace DescriptorType

/-- How many local variables a value of the type takes. -/
def size : DescriptorType → Nat
  | .long | .double => 2
  | .void => 0
  | _ => 1

/-- The value of a local variable of the type before anything is stored in it. -/
def zeroValue : DescriptorType → Option Value
  | .void => none
  | .long => some (.long 0)
  | .float => some (.float .zero)
  | .double => some (.double .zero)
  | .object _ | .array _ => some .null
  | .byte | .char | .short | .boolean | .int => some (.int 0)

def chars : DescriptorType → List Char
  | .byte => ['B']
  | .char => ['C']
  | .double => ['D']
  | .float => ['F']
  | .int => ['I']
  | .long => ['J']
  | .short => ['S']
  | .boolean => ['Z']
  | .void => ['V']
  | .object name => 'L' :: (name.toList ++ [';'])
  | .array component => '[' :: component.chars

def dimensions : DescriptorType → Nat
  | .array component => component.dimensions + 1
  | _ => 0

/-- The innermost component of an array, and any other type itself. -/
def element : DescriptorType → DescriptorType
  | .array component => component.element
  | type => type

end DescriptorType

/-- The types of the arguments and of the result of a method. -/
structure MethodType where
  args : List DescriptorType
  ret : DescriptorType
  deriving DecidableEq, Repr

namespace MethodType

/-- How many local variables the arguments take. -/
def argSlots (type : MethodType) : Nat :=
  type.args.foldr (fun arg slots => arg.size + slots) 0

def chars (type : MethodType) : List Char :=
  '(' :: (type.args.flatMap DescriptorType.chars ++ ')' :: type.ret.chars)

end MethodType

end ClassMachine
