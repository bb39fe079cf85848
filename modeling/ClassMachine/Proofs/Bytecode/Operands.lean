import ClassMachine.Machine.Action
import Mathlib

/-!
# Operands of decoded instructions

What an instruction does is read off its operand bytes, in the width that its action
needs.  The opcode table gives every opcode at least that many, so an instruction with
the operand bytes of its opcode always has an action.
-/

namespace ClassMachine

namespace Instruction

variable {i : Instruction}

theorem operand?_isSome {width : Nat} (h : width ≤ i.operands.length) :
    (i.operand? width).isSome := by
  rw [operand?, if_pos h]
  rfl

theorem u8?_isSome (h : 1 ≤ i.operands.length) : i.u8?.isSome := by
  rw [u8?, Option.isSome_map]
  exact operand?_isSome h

theorem u16?_isSome (h : 2 ≤ i.operands.length) : i.u16?.isSome := by
  rw [u16?, Option.isSome_map]
  exact operand?_isSome h

theorem i8?_isSome (h : 1 ≤ i.operands.length) : i.i8?.isSome := by
  rw [i8?, Option.isSome_map]
  exact u8?_isSome h

theorem i16?_isSome (h : 2 ≤ i.operands.length) : i.i16?.isSome := by
  rw [i16?, Option.isSome_map]
  exact u16?_isSome h

theorem i32?_isSome (h : 4 ≤ i.operands.length) : i.i32?.isSome := by
  rw [i32?, Option.isSome_map]
  exact operand?_isSome h

theorem second?_isSome (h : 2 ≤ i.operands.length) : i.second?.isSome := by
  rw [second?, Option.isSome_map, List.getElem?_eq_getElem h]
  rfl

theorem local?_isSome (h : 1 ≤ i.operands.length) : i.local?.isSome := by
  rw [local?, Option.isSome_map]
  exact u8?_isSome h

theorem distance?_isSome (h : 2 ≤ i.operands.length) : i.distance?.isSome := by
  rw [distance?, Option.isSome_map]
  exact i16?_isSome h

theorem action?_isSome_of_iinc (hopcode : i.opcode = .iinc) (h : 2 ≤ i.operands.length) :
    i.action?.isSome := by
  obtain ⟨index, hindex⟩ := Option.isSome_iff_exists.mp (local?_isSome (Nat.le_of_succ_le h))
  obtain ⟨amount, hamount⟩ := Option.isSome_iff_exists.mp (second?_isSome h)
  simp only [action?, hopcode, hindex, hamount, Option.isSome_some]

theorem action?_isSome (h : i.operands.length = i.opcode.operandCount) : i.action?.isSome := by
  by_cases hiinc : i.opcode = .iinc
  · rw [hiinc] at h
    exact action?_isSome_of_iinc hiinc h.ge
  · unfold action?
    split
    -- most opcodes need no operands; the others are told apart by the width that they need
    all_goals try rfl
    all_goals rename_i hopcode
    all_goals rw [hopcode] at h
    all_goals first
      | exact absurd hopcode hiinc
      | rw [Option.isSome_map]
    all_goals first
      | exact u8?_isSome h.ge
      | exact i8?_isSome h.ge
      | exact u16?_isSome h.ge
      | exact i16?_isSome h.ge
      | exact i32?_isSome h.ge
      | exact local?_isSome h.ge
      | exact distance?_isSome h.ge

end Instruction

end ClassMachine
