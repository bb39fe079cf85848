import ClassMachine.Proofs.Expression.Code
import ClassMachine.Proofs.Machine.Steps

/-!
# Rows of loads

Opcodes without operands stand one byte apart.  A row of those that push a small integer or do
nothing runs straight through, whatever the stack holds, and leaves its values on top.
-/

namespace ClassMachine

namespace Bytecode

/-- Instructions without operands, one behind the other from an offset on. -/
def row (offset : Nat) : List Opcode → List Instruction
  | [] => []
  | opcode :: opcodes => ⟨offset, opcode, []⟩ :: row (offset + 1) opcodes

theorem bytesOf_row (offset : Nat) (opcodes : List Opcode) :
    bytesOf (row offset opcodes) = opcodes.map Opcode.byte := by
  induction opcodes generalizing offset with
  | nil => rfl
  | cons opcode opcodes ih => rw [row, bytesOf_cons, ih, List.nil_append, List.map_cons]

theorem tiling_row {opcodes : List Opcode} (h : ∀ opcode ∈ opcodes, opcode.operandCount = 0)
    (offset : Nat) : Tiling offset (row offset opcodes) := by
  induction opcodes generalizing offset with
  | nil => exact .nil
  | cons opcode opcodes ih =>
      refine Tiling.cons_iff.mpr ⟨rfl, (h opcode List.mem_cons_self).symm, ?_⟩
      exact ih (fun other hother => h other (List.mem_cons_of_mem opcode hother)) (offset + 1)

theorem offset_lt_of_mem_row {offset : Nat} {opcodes : List Opcode} {i : Instruction}
    (h : i ∈ row offset opcodes) : i.offset < offset + opcodes.length := by
  induction opcodes generalizing offset with
  | nil => cases h
  | cons opcode opcodes ih =>
      rw [List.length_cons]
      cases h with
      | head => exact Nat.lt_add_of_pos_right (Nat.succ_pos _)
      | tail _ h =>
          have := ih h
          omega

/-- The opcodes do nothing but push the values, the last one on top. -/
inductive Loads : List Opcode → List Int32 → Prop where
  | nil : Loads [] []
  | nop {opcodes : List Opcode} {values : List Int32} :
      Loads opcodes values → Loads (.nop :: opcodes) values
  | constant {opcode : Opcode} {value : Int32} {opcodes : List Opcode} {values : List Int32} :
      opcode.constant? = some value → Loads opcodes values →
        Loads (opcode :: opcodes) (value :: values)

namespace Loads

theorem replicate_nop (count : Nat) : Loads (List.replicate count .nop) [] := by
  induction count with
  | zero => exact .nil
  | succ count ih => exact .nop ih

theorem operandCount {opcodes : List Opcode} {values : List Int32} (h : Loads opcodes values) :
    ∀ opcode ∈ opcodes, opcode.operandCount = 0 := by
  induction h with
  | nil =>
      intro opcode hopcode
      cases hopcode
  | nop _ ih =>
      intro opcode hopcode
      cases hopcode with
      | head => rfl
      | tail _ hopcode => exact ih opcode hopcode
  | constant hconstant _ ih =>
      intro opcode hopcode
      cases hopcode with
      | head => exact (Opcode.action?_of_constant? hconstant 0).1
      | tail _ hopcode => exact ih opcode hopcode

end Loads

end Bytecode

open Bytecode

namespace Machine

variable {p : Program} {config : Config}

theorem runFor_loads {opcodes : List Opcode} {values : List Int32} {m : Machine}
    (h : Loads opcodes values) (hrunning : m.status = .running)
    (hfree : config.maxInstructions = none)
    (hplaced : ∀ i ∈ row m.pc opcodes, p.instructionAt? i.offset = some i)
    (hroom : values ≠ [] → m.stack.size + values.length ≤ p.code.maxStack.toNat) :
    runFor p config opcodes.length m =
      .ok true (m.moved (m.pc + opcodes.length) (m.stack ++ (values.map Value.int).toArray)
        opcodes.length) := by
  have hlimit := Config.exhaustedLimit?_of_none hfree
  induction h generalizing m with
  | nil =>
      simp only [List.map_nil, Array.append_empty]
      rfl
  | @nop opcodes values _ ih =>
      have hstep : step p config m = .ok true (m.moved (m.pc + 1) m.stack 1) :=
        step_of_perform hrunning (hplaced _ List.mem_cons_self) rfl (hlimit _) rfl
      have hplaced' : ∀ i ∈ row (m.moved (m.pc + 1) m.stack 1).pc opcodes,
          p.instructionAt? i.offset = some i :=
        fun i hi => hplaced i (List.mem_cons_of_mem _ hi)
      have hrest := ih (m := m.moved (m.pc + 1) m.stack 1) hrunning hplaced' hroom
      rw [List.length_cons, runFor_succ, hstep, Nat.add_comm opcodes.length 1, ← Nat.add_assoc,
        ← moved_moved]
      exact hrest
  | @constant opcode value opcodes values hconstant _ ih =>
      obtain ⟨_, haction⟩ := Opcode.action?_of_constant? hconstant m.pc
      have hroom := hroom (List.cons_ne_nil value values)
      rw [List.length_cons] at hroom
      let stack := m.stack.push (.int value)
      have hstep : step p config m = .ok true (m.moved (m.pc + 1) stack 1) :=
        step_of_perform hrunning (hplaced _ List.mem_cons_self) haction (hlimit _)
          (Execution.perform_push (by simp only [moved_stack]; omega))
      have hplaced' : ∀ i ∈ row (m.moved (m.pc + 1) stack 1).pc opcodes,
          p.instructionAt? i.offset = some i :=
        fun i hi => hplaced i (List.mem_cons_of_mem _ hi)
      have hroom' : values ≠ [] →
          (m.moved (m.pc + 1) stack 1).stack.size + values.length ≤ p.code.maxStack.toNat := by
        intro _
        simp only [moved_stack, stack, Array.size_push]
        omega
      have hrest := ih (m := m.moved (m.pc + 1) stack 1) hrunning hplaced' hroom'
      have hstack : m.stack ++ ((value :: values).map Value.int).toArray =
          stack ++ (values.map Value.int).toArray := by
        simp [stack]
      rw [List.length_cons, runFor_succ, hstep, hstack, Nat.add_comm opcodes.length 1,
        ← Nat.add_assoc, ← moved_moved]
      exact hrest

end Machine

end ClassMachine
