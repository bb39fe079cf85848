import ClassMachine.Number.Shortest

/-!
# Binary floating point numbers by their bits

A floating point constant is kept as the bit pattern that the class file holds,
so every pattern survives, also those of the numbers that are not a number.  Its
text is the shortest decimal that no other number of the format is nearer to.
-/

namespace ClassMachine

/-- A binary interchange format: a sign bit, then the exponent field, then the
fraction field. -/
structure BinaryFormat where
  exponentBits : Nat
  fractionBits : Nat
  deriving DecidableEq, Repr

inductive BinaryClass where
  | nan
  | infinite
  | zero
  /-- The number `significand * 2 ^ exponent`; `leastOfBinade` tells that its lower
  neighbour is only half as far away as its upper one. -/
  | finite (significand : Nat) (exponent : Int) (leastOfBinade : Bool)
  deriving DecidableEq, Repr

namespace BinaryFormat

def single : BinaryFormat := ⟨8, 23⟩

def double : BinaryFormat := ⟨11, 52⟩

def isNegative (f : BinaryFormat) (bits : Nat) : Bool :=
  bits >>> (f.exponentBits + f.fractionBits) % 2 = 1

/-- The number without its sign. -/
def classify (f : BinaryFormat) (bits : Nat) : BinaryClass :=
  let hidden := 1 <<< f.fractionBits
  let fields := 1 <<< f.exponentBits
  let fraction := bits % hidden
  let field := bits / hidden % fields
  let bias : Int := fields / 2 - 1 + f.fractionBits
  if field = fields - 1 then
    if fraction = 0 then .infinite else .nan
  else if field = 0 then
    if fraction = 0 then .zero else .finite fraction (1 - bias) false
  else
    .finite (hidden + fraction) (field - bias)
      (decide (fraction = 0) && decide (1 < field))

/-- The reals that round to `significand * 2 ^ exponent`.  An even significand
wins a tie, so its interval has its end points. -/
def roundingInterval (significand : Nat) (exponent : Int) (leastOfBinade : Bool) : Interval :=
  let factor := 1 <<< (exponent - 2).toNat
  { low := (4 * significand - if leastOfBinade then 1 else 2) * factor
    point := 4 * significand * factor
    high := (4 * significand + 2) * factor
    scale := 1 <<< (2 - exponent).toNat
    closed := significand % 2 = 0 }

def text (f : BinaryFormat) (bits : Nat) : String :=
  let sign := if f.isNegative bits then "-" else ""
  match f.classify bits with
  | .nan => "NaN"
  | .infinite => sign ++ "inf"
  | .zero => sign ++ "0"
  | .finite significand exponent leastOfBinade =>
      let interval := roundingInterval significand exponent leastOfBinade
      sign ++ (interval.shortest (2 - exponent).toNat).text

end BinaryFormat

/-- A single precision number, as its 32 bits. -/
structure Binary32 where
  bits : UInt32
  deriving DecidableEq, Repr

/-- A double precision number, as its 64 bits. -/
structure Binary64 where
  bits : UInt64
  deriving DecidableEq, Repr

namespace Binary32

def zero : Binary32 := ⟨0x00000000⟩

def one : Binary32 := ⟨0x3f800000⟩

def two : Binary32 := ⟨0x40000000⟩

def text (x : Binary32) : String :=
  BinaryFormat.single.text x.bits.toNat

end Binary32

namespace Binary64

def zero : Binary64 := ⟨0x0000000000000000⟩

def one : Binary64 := ⟨0x3ff0000000000000⟩

def text (x : Binary64) : String :=
  BinaryFormat.double.text x.bits.toNat

end Binary64

end ClassMachine
