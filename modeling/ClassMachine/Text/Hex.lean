/-!
# Hexadecimal text

Numbers in base sixteen, padded with zeros on the left to a least width.  A
number that needs more digits than the width keeps all of them.
-/

namespace ClassMachine.Hex

def pad (width : Nat) (digits : List Char) : String :=
  String.ofList (List.replicate (width - digits.length) '0' ++ digits)

def lower (width n : Nat) : String :=
  pad width (Nat.toDigits 16 n)

def upper (width n : Nat) : String :=
  pad width ((Nat.toDigits 16 n).map Char.toUpper)

end ClassMachine.Hex
