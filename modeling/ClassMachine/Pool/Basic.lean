import ClassMachine.Constant.Basic

/-!
# Constant pools

A pool is a row of slots, addressed by a two-byte index.  Slot 0 and the slot
after a wide constant are empty.  `push` fills the next slot, and leaves an empty
one behind a wide constant.

A pool that was read may have no slot at all, and its last slot may hold a wide
constant with no empty slot behind it.
-/

namespace ClassMachine

/-- Why an index does not address a constant. -/
inductive IndexError where
  | reserved
  | outOfRange (index : UInt16)
  /-- The index is that of an empty slot. -/
  | placeholder (index : UInt16)
  deriving DecidableEq, Repr

namespace IndexError

def message : IndexError → String
  | .reserved => "constant pool index 0 is reserved"
  | .outOfRange index => "constant pool index " ++ toString index.toNat ++ " is out of range"
  | .placeholder index =>
      "constant pool index " ++ toString index.toNat ++
        " is the unusable half of a wide entry"

end IndexError

structure Pool where
  slots : Array (Option Constant)
  deriving DecidableEq, Repr

namespace Pool

/-- The pool whose only slot is the reserved one. -/
def empty : Pool := ⟨#[none]⟩

/-- The number of slots, the reserved one included. -/
def size (pool : Pool) : Nat := pool.slots.size

def isEmpty (pool : Pool) : Bool := pool.slots.all (·.isNone)

/-- Appends a constant, and an empty slot after a wide one. -/
def push (pool : Pool) (constant : Constant) : Pool :=
  let slots := pool.slots.push (some constant)
  ⟨if constant.isWide then slots.push none else slots⟩

/-- The index that the next constant gets, which wraps around in two bytes. -/
def nextIndex (pool : Pool) : UInt16 := UInt16.ofNat pool.size

def get (pool : Pool) (index : UInt16) : Except IndexError Constant :=
  if index = 0 then .error .reserved
  else
    match pool.slots[index.toNat]? with
    | some (some constant) => .ok constant
    | some none => .error (.placeholder index)
    | none => .error (.outOfRange index)

/-- The text at an index, if there is a text. -/
def text? (pool : Pool) (index : UInt16) : Option String :=
  match pool.get index with
  | .ok (.utf8 text) => some text
  | _ => none

/-- The name of the class that the constant at an index refers to. -/
def className? (pool : Pool) (index : UInt16) : Option String :=
  match pool.get index with
  | .ok (.classRef nameIndex) => pool.text? nameIndex
  | _ => none

/-- The constants of a list of slots, each with its index in two bytes; the first
slot has the index `start`. -/
def entriesFrom (start : Nat) : List (Option Constant) → List (UInt16 × Constant)
  | [] => []
  | none :: rest => entriesFrom (start + 1) rest
  | some constant :: rest => (UInt16.ofNat start, constant) :: entriesFrom (start + 1) rest

def entries (pool : Pool) : List (UInt16 × Constant) :=
  entriesFrom 0 pool.slots.toList

def constants (pool : Pool) : List Constant :=
  pool.slots.toList.filterMap id

end Pool

end ClassMachine
