import ClassMachine.Bytes.BigEndian
import Mathlib

/-!
# Sizes of big-endian words

Reading back a written number gives its remainder modulo `256 ^ width`, and what
is read from `width` bytes is below that power.
-/

namespace ClassMachine.BigEndian

theorem ofBytes_toBytes (width n : Nat) :
    ofBytes (toBytes width n) = n % 256 ^ width := by
  induction width generalizing n with
  | zero => simp [toBytes, Nat.mod_one]
  | succ width ih =>
      rw [toBytes, ofBytes_append_singleton, ih, Nat.pow_succ, Nat.mul_comm (256 ^ width),
        Nat.mod_mul]
      simp only [UInt8.toNat_ofNat']
      omega

theorem ofBytes_lt (bytes : List UInt8) : ofBytes bytes < 256 ^ bytes.length := by
  rw [← List.reverse_reverse bytes]
  induction bytes.reverse with
  | nil => simp
  | cons byte rest ih =>
      rw [List.reverse_cons, ofBytes_append_singleton, List.length_append, List.length_singleton,
        Nat.pow_succ]
      have := byte.toNat_lt
      omega

theorem ofBytes_toBytes_of_lt {width n : Nat} (h : n < 256 ^ width) :
    ofBytes (toBytes width n) = n := by
  rw [ofBytes_toBytes, Nat.mod_eq_of_lt h]

end ClassMachine.BigEndian
