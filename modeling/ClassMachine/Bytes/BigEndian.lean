/-!
# Big-endian words

A number is written in a fixed count of bytes, most significant byte first.
Writing keeps the number modulo `256 ^ width`, so a count that is too large for
its field wraps around.  Writing back what was read gives the same bytes
(`toBytes_ofBytes`).
-/

namespace ClassMachine.BigEndian

/-- The lowest `width` bytes of a number, most significant first. -/
def toBytes : (width : Nat) → Nat → List UInt8
  | 0, _ => []
  | width + 1, n => toBytes width (n / 256) ++ [UInt8.ofNat n]

/-- The number whose base-256 digits are the given bytes. -/
def ofBytes (bytes : List UInt8) : Nat :=
  bytes.foldl (fun n byte => n * 256 + byte.toNat) 0

@[simp]
theorem toBytes_length (width n : Nat) : (toBytes width n).length = width := by
  induction width generalizing n with
  | zero => rfl
  | succ width ih => simp [toBytes, ih]

@[simp]
theorem ofBytes_nil : ofBytes [] = 0 := rfl

theorem ofBytes_append_singleton (bytes : List UInt8) (byte : UInt8) :
    ofBytes (bytes ++ [byte]) = ofBytes bytes * 256 + byte.toNat := by
  simp [ofBytes, List.foldl_append]

theorem toBytes_ofBytes (bytes : List UInt8) :
    toBytes bytes.length (ofBytes bytes) = bytes := by
  rw [← List.reverse_reverse bytes]
  induction bytes.reverse with
  | nil => rfl
  | cons byte rest ih =>
      rw [List.reverse_cons, ofBytes_append_singleton, List.length_append, List.length_singleton,
        toBytes]
      have hlt := byte.toNat_lt
      have hdiv : (ofBytes rest.reverse * 256 + byte.toNat) / 256 = ofBytes rest.reverse := by
        omega
      have hlast : UInt8.ofNat (ofBytes rest.reverse * 256 + byte.toNat) = byte := by
        apply UInt8.toNat_inj.mp
        simp only [UInt8.toNat_ofNat']
        omega
      rw [hdiv, hlast, ih]

end ClassMachine.BigEndian
