import ClassMachine.Proofs.Program.Lookup

/-!
# Code that stands in a program

Bytes stand at an offset of a program when its bytecode continues with them there.
Where an instruction starts, the bytes that stand there decide which instruction it is,
and where it ends the next one starts.
-/

namespace ClassMachine

namespace Bytecode

/-- The bytes are those of whole instructions, one behind the other. -/
inductive Whole : List UInt8 → Prop where
  | nil : Whole []
  | cons {opcode : Opcode} {operands rest : List UInt8} :
      operands.length = opcode.operandCount → Whole rest → Whole (opcode.byte :: (operands ++ rest))

namespace Whole

theorem single {opcode : Opcode} {operands : List UInt8}
    (h : operands.length = opcode.operandCount) : Whole (opcode.byte :: operands) := by
  rw [← List.append_nil operands]
  exact .cons h .nil

theorem append {first second : List UInt8} (hfirst : Whole first) (hsecond : Whole second) :
    Whole (first ++ second) := by
  induction hfirst with
  | nil => exact hsecond
  | cons hoperands _ ih =>
      rw [List.cons_append, List.append_assoc]
      exact .cons hoperands ih

end Whole

end Bytecode

open Bytecode

namespace Program

variable {p : Program} {offset : Nat}

def Boundary (p : Program) (offset : Nat) : Prop := (p.instructionAt? offset).isSome

theorem boundary_iff : p.Boundary offset ↔ ∃ i ∈ p.instructions.toList, i.offset = offset := by
  simp only [Boundary, Option.isSome_iff_exists, instructionAt?_eq_some_iff]

/-- A place in the bytecode is the start of an instruction, or lies within one. -/
theorem boundary_or_within (h : offset < p.codeSize) :
    p.Boundary offset ∨
      ∃ i ∈ p.instructions.toList, i.offset < offset ∧ offset < i.nextOffset := by
  have hend : offset < 0 + (bytesOf p.instructions.toList).length := by
    rw [Nat.zero_add, ← codeSize_eq_length]
    exact h
  obtain ⟨i, hi, hle, hlt⟩ := p.tiling.exists_cover (Nat.zero_le offset) hend
  obtain heq | hbefore := Nat.eq_or_lt_of_le hle
  · exact .inl (boundary_iff.mpr ⟨i, hi, heq⟩)
  · exact .inr ⟨i, hi, hbefore, hlt⟩

theorem boundary_zero (h : 0 < p.codeSize) : p.Boundary 0 :=
  (boundary_or_within h).resolve_right fun ⟨_, _, hbefore, _⟩ => Nat.not_lt_zero _ hbefore

/-- The bytecode goes on with the given bytes from the offset on. -/
def Stands (p : Program) (offset : Nat) (bytes : List UInt8) : Prop :=
  bytes <+: p.code.bytecode.drop offset

theorem stands_of_eq {before bytes after : List UInt8}
    (h : p.code.bytecode = before ++ bytes ++ after) : p.Stands before.length bytes := by
  refine ⟨after, ?_⟩
  rw [h, List.append_assoc, List.drop_left]

namespace Stands

theorem append_iff {first second : List UInt8} :
    p.Stands offset (first ++ second) ↔
      p.Stands offset first ∧ p.Stands (offset + first.length) second := by
  unfold Stands
  constructor
  · rintro ⟨rest, hrest⟩
    rw [List.append_assoc] at hrest
    refine ⟨⟨second ++ rest, hrest⟩, ⟨rest, ?_⟩⟩
    rw [← List.drop_drop, ← hrest, List.drop_left]
  · rintro ⟨⟨rest, hrest⟩, hsecond⟩
    rw [← List.drop_drop, ← hrest, List.drop_left] at hsecond
    obtain ⟨tail, rfl⟩ := hsecond
    exact ⟨tail, by rw [← hrest, List.append_assoc]⟩

theorem instructionAt? {opcode : Opcode} {operands : List UInt8}
    (h : p.Stands offset (opcode.byte :: operands)) (hboundary : p.Boundary offset)
    (hoperands : operands.length = opcode.operandCount) :
    p.instructionAt? offset = some ⟨offset, opcode, operands⟩ := by
  obtain ⟨i, hi⟩ := Option.isSome_iff_exists.mp hboundary
  obtain ⟨rest, hrest⟩ := drop_bytecode hi
  obtain ⟨tail, htail⟩ := h
  rw [hrest, List.cons_append, List.cons.injEq] at htail
  obtain ⟨hbyte, hbytes⟩ := htail
  have hopcode : opcode = i.opcode := Opcode.byte_injective hbyte
  have hlength : operands.length = i.operands.length := by
    rw [hoperands, hopcode, operands_length hi]
  have hsame := (List.append_inj hbytes hlength).1
  rw [hi, ← offset_of_instructionAt? hi, hopcode, hsame]

end Stands

/-- Where an instruction ends before the end of the bytecode, another one starts. -/
theorem boundary_nextOffset {i : Instruction} (h : p.instructionAt? offset = some i)
    (hmore : i.nextOffset < p.codeSize) : p.Boundary i.nextOffset := by
  obtain hend | ⟨next, hnext⟩ := nextOffset_eq_codeSize_or h
  · omega
  · exact Option.isSome_iff_exists.mpr ⟨next, hnext⟩

theorem Stands.boundary_end {bytes : List UInt8} (h : p.Stands offset bytes) (hwhole : Whole bytes)
    (hboundary : p.Boundary offset) (hmore : offset + bytes.length < p.codeSize) :
    p.Boundary (offset + bytes.length) := by
  induction hwhole generalizing offset with
  | nil => exact hboundary
  | @cons opcode operands rest hoperands _ ih =>
      rw [← List.cons_append] at h hmore ⊢
      obtain ⟨hfirst, hrest⟩ := append_iff.mp h
      have hi := hfirst.instructionAt? hboundary hoperands
      rw [List.length_append, ← Nat.add_assoc] at hmore ⊢
      have hnext : offset + (opcode.byte :: operands).length =
          Instruction.nextOffset ⟨offset, opcode, operands⟩ := by
        simp only [Instruction.nextOffset, List.length_cons]
        omega
      have hbehind : p.Boundary (offset + (opcode.byte :: operands).length) := by
        rw [hnext]
        refine boundary_nextOffset hi ?_
        rw [← hnext]
        omega
      exact ih hrest hbehind hmore

structure Placed (p : Program) (offset : Nat) (bytes : List UInt8) : Prop where
  stands : p.Stands offset bytes
  boundary : p.Boundary offset

namespace Placed

theorem instructionAt? {opcode : Opcode} {operands : List UInt8}
    (h : p.Placed offset (opcode.byte :: operands))
    (hoperands : operands.length = opcode.operandCount) :
    p.instructionAt? offset = some ⟨offset, opcode, operands⟩ :=
  h.stands.instructionAt? h.boundary hoperands

theorem split {first second : List UInt8} (h : p.Placed offset (first ++ second))
    (hwhole : Whole first) (hmore : offset + first.length < p.codeSize) :
    p.Placed offset first ∧ p.Placed (offset + first.length) second := by
  obtain ⟨hfirst, hsecond⟩ := Stands.append_iff.mp h.stands
  exact ⟨⟨hfirst, h.boundary⟩, ⟨hsecond, hfirst.boundary_end hwhole h.boundary hmore⟩⟩

end Placed

end Program

end ClassMachine
