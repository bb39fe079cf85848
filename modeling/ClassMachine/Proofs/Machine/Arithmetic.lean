import ClassMachine.Machine.Execute
import Mathlib

/-!
# Arithmetic of machines

What the integer operations and comparisons of a machine mean, said with unbounded
integers: a result is wrapped around at 32 bits, division by zero has none, and words
are compared as signed numbers.
-/

namespace ClassMachine

namespace IntOp

def result? (op : IntOp) (a b : Int) : Option Int32 :=
  match op with
  | .add => some (Int32.ofInt (a + b))
  | .sub => some (Int32.ofInt (a - b))
  | .mul => some (Int32.ofInt (a * b))
  | .div => if b = 0 then none else some (Int32.ofInt (a.tdiv b))
  | .rem => if b = 0 then none else some (Int32.ofInt (a.tmod b))

/-- Arithmetic on words is arithmetic on integers, wrapped around. -/
theorem apply_eq (op : IntOp) (a b : Int32) :
    op.apply a b =
      match op.result? a.toInt b.toInt with
      | some result => .ok result
      | none => .error .divisionByZero := by
  have hzero : b = 0 ↔ b.toInt = 0 := Int32.toInt_inj.symm
  cases op with
  | add => exact congrArg Except.ok (by rw [Int32.ofInt_add, Int32.ofInt_toInt, Int32.ofInt_toInt])
  | sub => exact congrArg Except.ok (by rw [Int32.ofInt_sub, Int32.ofInt_toInt, Int32.ofInt_toInt])
  | mul => exact congrArg Except.ok (by rw [Int32.ofInt_mul, Int32.ofInt_toInt, Int32.ofInt_toInt])
  | div =>
      by_cases hb : b.toInt = 0
      · simp only [apply, result?, hzero, if_pos hb]
      · simp only [apply, result?, hzero, if_neg hb]
        congr 1
        rw [← Int32.toInt_inj, Int32.toInt_div, Int32.toInt_ofInt]
  | rem =>
      by_cases hb : b.toInt = 0
      · simp only [apply, result?, hzero, if_pos hb]
      · simp only [apply, result?, hzero, if_neg hb]
        rw [← Int32.toInt_mod, Int32.ofInt_toInt]

end IntOp

namespace Comparison

/-- The relation between integers that a comparison stands for. -/
def Rel : Comparison → Int → Int → Prop
  | .eq, a, b => a = b
  | .ne, a, b => a ≠ b
  | .lt, a, b => a < b
  | .ge, a, b => b ≤ a
  | .gt, a, b => b < a
  | .le, a, b => a ≤ b

instance : (comparison : Comparison) → (a b : Int) → Decidable (comparison.Rel a b)
  | .eq, a, b => inferInstanceAs (Decidable (a = b))
  | .ne, a, b => inferInstanceAs (Decidable (a ≠ b))
  | .lt, a, b => inferInstanceAs (Decidable (a < b))
  | .ge, a, b => inferInstanceAs (Decidable (b ≤ a))
  | .gt, a, b => inferInstanceAs (Decidable (b < a))
  | .le, a, b => inferInstanceAs (Decidable (a ≤ b))

theorem holds_iff (comparison : Comparison) (a b : Int32) :
    comparison.holds a b = true ↔ comparison.Rel a.toInt b.toInt := by
  cases comparison with
  | eq => simp [holds, Rel, Int32.toInt_inj]
  | ne => simp [holds, Rel, Int32.toInt_inj]
  | lt => simp [holds, Rel, Int32.lt_iff_toInt_lt]
  | ge => simp [holds, Rel, Int32.le_iff_toInt_le]
  | gt => simp [holds, Rel, Int32.lt_iff_toInt_lt]
  | le => simp [holds, Rel, Int32.le_iff_toInt_le]

end Comparison

end ClassMachine
