import ClassMachine.Bytes.BigEndian.Lemmas
import ClassMachine.Proofs.Expression.Basic

/-!
# The instructions of translated expressions

A translation is a row of whole instructions, so it stands in a program where an
instruction starts and ends where the next one does.  What its instructions do is read
off their operand bytes here.
-/

namespace ClassMachine

open Bytecode

namespace Instruction

variable {offset : Nat} {opcode : Opcode}

theorem u8?_singleton (byte : UInt8) : Instruction.u8? ⟨offset, opcode, [byte]⟩ = some byte := by
  have hread : Instruction.operand? ⟨offset, opcode, [byte]⟩ 1 = some byte.toNat := by
    simp [operand?, BigEndian.ofBytes]
  rw [u8?, hread, Option.map_some, UInt8.ofNat_toNat]

theorem u16?_toBytes (n : UInt16) :
    Instruction.u16? ⟨offset, opcode, BigEndian.toBytes 2 n.toNat⟩ = some n := by
  have hread : Instruction.operand? ⟨offset, opcode, BigEndian.toBytes 2 n.toNat⟩ 2 =
      some n.toNat := by
    rw [operand?, if_pos (by rw [BigEndian.toBytes_length])]
    rw [List.take_of_length_le (by rw [BigEndian.toBytes_length]),
      BigEndian.ofBytes_toBytes_of_lt n.toNat_lt]
  rw [u16?, hread, Option.map_some, UInt16.ofNat_toNat]

theorem distance?_toBytes {n : Nat} (h : n < 2 ^ 15) :
    Instruction.distance? ⟨offset, opcode, BigEndian.toBytes 2 n⟩ = some (n : Int) := by
  have hsmall : n < 2 ^ 16 := by omega
  have hword : (UInt16.ofNat n).toNat = n := UInt16.toNat_ofNat_of_lt hsmall
  have hread :
      Instruction.u16? ⟨offset, opcode, BigEndian.toBytes 2 n⟩ = some (UInt16.ofNat n) := by
    conv => lhs; rw [← hword]
    exact u16?_toBytes _
  rw [distance?, i16?, hread, Option.map_some, Option.map_some, ← Int16.toInt_toBitVec]
  have hbits : (UInt16.ofNat n).toInt16.toBitVec.toNat = n := hword
  rw [BitVec.toInt_eq_toNat_of_lt (by rw [hbits]; omega), hbits]

end Instruction

namespace Opcode

@[simp]
theorem withWord_length (opcode : Opcode) (n : Nat) : (opcode.withWord n).length = 3 := by
  rw [withWord, List.length_cons, BigEndian.toBytes_length]

theorem whole_withWord {opcode : Opcode} (h : opcode.operandCount = 2) (n : Nat) :
    Whole (opcode.withWord n) :=
  .single (by rw [BigEndian.toBytes_length, h])

end Opcode

theorem IntOp.operandCount_opcode (op : IntOp) : op.opcode.operandCount = 0 := by
  cases op <;> rfl

theorem Comparison.operandCount_opcode (comparison : Comparison) :
    comparison.opcode.operandCount = 2 := by
  cases comparison <;> rfl

theorem IntOp.action?_opcode (op : IntOp) (offset : Nat) :
    Instruction.action? ⟨offset, op.opcode, []⟩ = some (.compute op) := by
  cases op <;> rfl

theorem Comparison.action?_opcode (comparison : Comparison) (offset : Nat) {n : Nat}
    (h : n < 2 ^ 15) :
    Instruction.action? ⟨offset, comparison.opcode, BigEndian.toBytes 2 n⟩ =
      some (.branchInts comparison n) := by
  cases comparison <;>
    exact congrArg (Option.map _) (Instruction.distance?_toBytes h)

theorem action?_goto (offset : Nat) {n : Nat} (h : n < 2 ^ 15) :
    Instruction.action? ⟨offset, .goto, BigEndian.toBytes 2 n⟩ = some (.branch n) :=
  congrArg (Option.map _) (Instruction.distance?_toBytes h)

theorem Opcode.action?_of_constant? {opcode : Opcode} {value : Int32}
    (h : opcode.constant? = some value) (offset : Nat) :
    opcode.operandCount = 0 ∧
      Instruction.action? ⟨offset, opcode, []⟩ = some (.push (.int value)) := by
  unfold Opcode.constant? at h
  split at h <;> cases h <;> exact ⟨rfl, rfl⟩

/-- The code that loads a constant is one instruction, which pushes the value or gets it from
the pool. -/
theorem ConstantCode.exists_action {pool : Pool} {value : Int32} {code : List UInt8}
    (h : ConstantCode pool value code) (offset : Nat) :
    ∃ opcode operands, code = opcode.byte :: operands ∧ operands.length = opcode.operandCount ∧
      (Instruction.action? ⟨offset, opcode, operands⟩ = some (.push (.int value)) ∨
        ∃ index, Instruction.action? ⟨offset, opcode, operands⟩ =
          some (.loadConstant index false) ∧ pool.loadable? index false = .ok (.int value)) := by
  cases h with
  | @short _ opcode hconstant =>
      obtain ⟨hoperands, haction⟩ := Opcode.action?_of_constant? hconstant offset
      exact ⟨opcode, [], rfl, hoperands.symm, .inl haction⟩
  | byte value =>
      refine ⟨.bipush, [value.toUInt8], rfl, rfl, .inl ?_⟩
      simp only [Instruction.action?, Instruction.i8?, Instruction.u8?_singleton, Option.map_some]
      rfl
  | word value =>
      refine ⟨.sipush, _, rfl, by rw [BigEndian.toBytes_length]; rfl, .inl ?_⟩
      simp only [Instruction.action?, Instruction.i16?, Instruction.u16?_toBytes, Option.map_some]
      rfl
  | @pool _ index hvalue =>
      refine ⟨.ldcW, _, rfl, by rw [BigEndian.toBytes_length]; rfl, .inr ⟨index, ?_, ?_⟩⟩
      · simp only [Instruction.action?, Instruction.u16?_toBytes, Option.map_some]
      · simp only [Pool.loadable?, hvalue]

theorem ConstantCode.whole {pool : Pool} {value : Int32} {code : List UInt8}
    (h : ConstantCode pool value code) : Whole code := by
  obtain ⟨opcode, operands, rfl, hoperands, _⟩ := h.exists_action 0
  exact .single hoperands

namespace Translation

variable {pool : Pool} {e : Expression} {code : List UInt8}

theorem whole (h : Translation pool e code) : Whole code := by
  induction h with
  | constant hcode => exact hcode.whole
  | readLocal index => exact .single rfl
  | negate _ ih => exact ih.append (.single rfl)
  | @binary op _ _ _ _ _ _ ihleft ihright =>
      exact ihleft.append (ihright.append (.single op.operandCount_opcode.symm))
  | @conditional comparison _ _ _ _ _ _ _ _ _ _ _ _ ihleft ihright ihtrue ihfalse =>
      have hbranch := Opcode.whole_withWord comparison.operandCount_opcode
      have hgoto : ∀ n, Whole (Opcode.goto.withWord n) := Opcode.whole_withWord rfl
      exact ihleft.append (ihright.append ((hbranch _).append
        (ihfalse.append ((hgoto _).append ihtrue))))

end Translation

end ClassMachine
