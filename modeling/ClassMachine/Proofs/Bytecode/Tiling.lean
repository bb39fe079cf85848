import ClassMachine.Instruction.Decode
import Mathlib

/-!
# Instructions that tile a bytecode

Decoding succeeds exactly on the bytecodes that are tiled by instructions: each has the
operand bytes that its opcode asks for, and starts where the one before it ends.  Since
the first byte of an instruction tells its length, the bytes determine the tiling, and
a tiling that starts with given bytes starts with their instructions.
-/

namespace ClassMachine

namespace Bytecode

/-- The instructions stand one behind the other from an offset on, each with as many operand
bytes as its opcode asks for. -/
inductive Tiling : Nat → List Instruction → Prop where
  | nil {offset : Nat} : Tiling offset []
  | cons {i : Instruction} {rest : List Instruction} :
      i.operands.length = i.opcode.operandCount → Tiling i.nextOffset rest →
        Tiling i.offset (i :: rest)

/-- The bytes that instructions take in a bytecode. -/
def bytesOf (instructions : List Instruction) : List UInt8 :=
  instructions.flatMap Instruction.toBytes

@[simp]
theorem bytesOf_nil : bytesOf [] = [] := rfl

@[simp]
theorem bytesOf_cons (i : Instruction) (rest : List Instruction) :
    bytesOf (i :: rest) = i.opcode.byte :: (i.operands ++ bytesOf rest) := rfl

@[simp]
theorem bytesOf_append (before after : List Instruction) :
    bytesOf (before ++ after) = bytesOf before ++ bytesOf after :=
  List.flatMap_append

theorem nextOffset_add_length (i : Instruction) (rest : List Instruction) :
    i.nextOffset + (bytesOf rest).length = i.offset + (bytesOf (i :: rest)).length := by
  simp only [Instruction.nextOffset, bytesOf_cons, List.length_cons, List.length_append]
  omega

theorem opcode_of_bytesOf_cons {byte : UInt8} {rest : List UInt8} {i : Instruction}
    {tail : List Instruction} {opcode : Opcode} (hbytes : byte :: rest = bytesOf (i :: tail))
    (hopcode : Opcode.ofByte? byte = some opcode) :
    i.opcode = opcode ∧ rest = i.operands ++ bytesOf tail := by
  rw [bytesOf_cons, List.cons.injEq] at hbytes
  have hbyte := Opcode.byte_of_ofByte? hopcode
  exact ⟨Opcode.byte_injective (by rw [← hbytes.1, hbyte]), hbytes.2⟩

theorem decodeFrom_eq_ok_iff {offset : Nat} {bytes : List UInt8}
    {before instructions : Array Instruction} :
    decodeFrom offset bytes before = .ok instructions ↔
      ∃ tail, instructions.toList = before.toList ++ tail ∧ Tiling offset tail ∧
        bytes = bytesOf tail := by
  fun_induction decodeFrom offset bytes before with
  | case1 offset before =>
      constructor
      · intro h
        cases h
        exact ⟨[], by simp, .nil, rfl⟩
      · rintro ⟨tail, hinstructions, _, hbytes⟩
        cases tail with
        | nil =>
            rw [List.append_nil] at hinstructions
            rw [Array.toList_inj.mp hinstructions]
        | cons i tail => cases hbytes
  | case2 offset before byte rest hopcode =>
      constructor
      · intro h
        cases h
      · rintro ⟨tail, _, htiling, hbytes⟩
        cases htiling with
        | nil => cases hbytes
        | @cons i tail _ _ =>
            rw [bytesOf_cons, List.cons.injEq] at hbytes
            rw [hbytes.1, Opcode.ofByte?_byte] at hopcode
            cases hopcode
  | case3 offset before byte rest opcode hopcode henough instruction ih =>
      rw [hasAtLeast_iff] at henough
      rw [ih]
      have hbyte := Opcode.byte_of_ofByte? hopcode
      constructor
      · rintro ⟨tail, hinstructions, htiling, hbytes⟩
        refine ⟨instruction :: tail, ?_, .cons ?_ htiling, ?_⟩
        · rw [hinstructions, Array.toList_push, List.append_assoc, List.singleton_append]
        · exact List.length_take_of_le henough
        · rw [bytesOf_cons, ← hbytes, hbyte]
          exact congrArg (byte :: ·) (List.take_append_drop _ rest).symm
      · rintro ⟨tail, hinstructions, htiling, hbytes⟩
        cases htiling with
        | nil => cases hbytes
        | @cons i tail hoperands htail =>
            obtain ⟨hsame, hrest⟩ := opcode_of_bytesOf_cons hbytes hopcode
            rw [hsame] at hoperands
            have htake : rest.take opcode.operandCount = i.operands := by
              rw [hrest, ← hoperands, List.take_left]
            have hdrop : rest.drop opcode.operandCount = bytesOf tail := by
              rw [hrest, ← hoperands, List.drop_left]
            have hi : instruction = i := by
              cases i
              cases hsame
              exact congrArg (Instruction.mk _ _) htake
            refine ⟨tail, ?_, by rw [hi]; exact htail, hdrop⟩
            rw [hinstructions, Array.toList_push, hi, List.append_assoc, List.singleton_append]
  | case4 offset before byte rest opcode hopcode hshort =>
      rw [hasAtLeast_iff] at hshort
      constructor
      · intro h
        cases h
      · rintro ⟨tail, _, htiling, hbytes⟩
        cases htiling with
        | nil => cases hbytes
        | @cons i tail hoperands _ =>
            -- the bytes that are left would hold all operands
            obtain ⟨hsame, hrest⟩ := opcode_of_bytesOf_cons hbytes hopcode
            have hlength := congrArg List.length hrest
            rw [List.length_append, hoperands, hsame] at hlength
            omega

theorem decode_eq_ok_iff {bytes : List UInt8} {instructions : Array Instruction} :
    decode bytes = .ok instructions ↔
      Tiling 0 instructions.toList ∧ bytes = bytesOf instructions.toList := by
  unfold decode
  rw [decodeFrom_eq_ok_iff]
  constructor
  · rintro ⟨tail, rfl, htiling, hbytes⟩
    exact ⟨htiling, hbytes⟩
  · rintro ⟨htiling, hbytes⟩
    exact ⟨_, rfl, htiling, hbytes⟩

namespace Tiling

theorem cons_iff {offset : Nat} {i : Instruction} {rest : List Instruction} :
    Tiling offset (i :: rest) ↔
      i.offset = offset ∧ i.operands.length = i.opcode.operandCount ∧ Tiling i.nextOffset rest := by
  constructor
  · rintro (_ | ⟨hoperands, hrest⟩)
    exact ⟨rfl, hoperands, hrest⟩
  · rintro ⟨rfl, hoperands, hrest⟩
    exact .cons hoperands hrest

theorem operands_length {offset : Nat} {instructions : List Instruction}
    (h : Tiling offset instructions) {i : Instruction} (hi : i ∈ instructions) :
    i.operands.length = i.opcode.operandCount := by
  induction h with
  | nil => cases hi
  | cons hoperands _ ih =>
      cases hi with
      | head => exact hoperands
      | tail _ hi => exact ih hi

theorem append_iff {offset : Nat} {before after : List Instruction} :
    Tiling offset (before ++ after) ↔
      Tiling offset before ∧ Tiling (offset + (bytesOf before).length) after := by
  induction before generalizing offset with
  | nil =>
      constructor
      · intro h
        exact ⟨.nil, h⟩
      · rintro ⟨_, h⟩
        exact h
  | cons i before ih =>
      rw [List.cons_append, cons_iff, cons_iff, ih, nextOffset_add_length]
      constructor
      · rintro ⟨rfl, hoperands, hbefore, hafter⟩
        exact ⟨⟨rfl, hoperands, hbefore⟩, hafter⟩
      · rintro ⟨⟨rfl, hoperands, hbefore⟩, hafter⟩
        exact ⟨rfl, hoperands, hbefore, hafter⟩

theorem le_offset {offset : Nat} {instructions : List Instruction}
    (h : Tiling offset instructions) {i : Instruction} (hi : i ∈ instructions) :
    offset ≤ i.offset := by
  obtain ⟨before, after, rfl⟩ := List.append_of_mem hi
  obtain ⟨_, hafter⟩ := append_iff.mp h
  rw [(cons_iff.mp hafter).1]
  exact Nat.le_add_right offset _

theorem pairwise_offset {offset : Nat} {instructions : List Instruction}
    (h : Tiling offset instructions) : instructions.Pairwise (fun i j => i.offset < j.offset) := by
  induction h with
  | nil => exact .nil
  | @cons i rest _ htail ih =>
      refine .cons (fun j hj => ?_) ih
      have := htail.le_offset hj
      simp only [Instruction.nextOffset] at this
      omega

/-- Every place in the bytecode is taken by one of the instructions. -/
theorem exists_cover {start offset : Nat} {instructions : List Instruction}
    (h : Tiling start instructions) (hstart : start ≤ offset)
    (hend : offset < start + (bytesOf instructions).length) :
    ∃ i ∈ instructions, i.offset ≤ offset ∧ offset < i.nextOffset := by
  induction h with
  | nil =>
      rw [bytesOf_nil, List.length_nil] at hend
      omega
  | @cons i rest _ htail ih =>
      by_cases hinside : offset < i.nextOffset
      · exact ⟨i, List.mem_cons_self, hstart, hinside⟩
      · rw [← nextOffset_add_length] at hend
        obtain ⟨j, hj, hcover⟩ := ih (Nat.le_of_not_lt hinside) hend
        exact ⟨j, List.mem_cons_of_mem i hj, hcover⟩

end Tiling

end Bytecode

end ClassMachine
