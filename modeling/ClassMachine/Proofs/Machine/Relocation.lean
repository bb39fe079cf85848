import ClassMachine.Proofs.Machine.Loads
import ClassMachine.Proofs.Machine.ShiftedRuns
import ClassMachine.Proofs.Program.Entry

/-!
# Relocated bytecode

In front of a bytecode can stand instructions that only push integers.  Decoding finds the
instructions of the bytecode that much further back, and after the pushes the machine is the
initial one of the bytecode, shifted and on top of the integers.  From there on the run is the
mirrored one, unless it takes an integer for its own or branches into the pushes.
-/

namespace ClassMachine

open Bytecode Machine

namespace Bytecode

theorem bytesOf_map_instruction (s : Shift) (instructions : List Instruction) :
    bytesOf (instructions.map s.instruction) = bytesOf instructions := by
  unfold bytesOf
  rw [List.flatMap_map]
  rfl

theorem Tiling.map_instruction {offset : Nat} {instructions : List Instruction}
    (h : Tiling offset instructions) (s : Shift) :
    Tiling (offset + s.distance) (instructions.map s.instruction) := by
  induction h with
  | nil => exact .nil
  | @cons i rest hoperands _ ih =>
      refine Tiling.cons_iff.mpr ⟨rfl, hoperands, ?_⟩
      rw [s.nextOffset_instruction]
      exact ih

end Bytecode

namespace Code

/-- The code with the opcodes in front of its bytecode, and room for their values. -/
def relocated (code : Code) (opcodes : List Opcode) (values : List Int32) : Code :=
  { code with
    maxStack := code.maxStack + UInt16.ofNat values.length
    bytecode := opcodes.map Opcode.byte ++ code.bytecode }

theorem lineNumbers_of_lineTables {code : Code} {pool : Pool} (h : code.lineTables pool = []) :
    code.lineNumbers pool = .ok [] := by
  unfold lineNumbers lineNumbersWith
  rw [h]
  rfl

end Code

namespace Bytecode.Loads

/-- By how much the opcodes shift what stands behind them, and what they put below. -/
def shift (opcodes : List Opcode) (values : List Int32) : Shift :=
  ⟨opcodes.length, (values.map Value.int).toArray⟩

variable {opcodes : List Opcode} {values : List Int32}

theorem size_below : (shift opcodes values).below.size = values.length := by
  simp [shift]

theorem decode_append {bytes : List UInt8} {instructions : Array Instruction}
    (h : Loads opcodes values) (hdecode : decode bytes = .ok instructions) :
    decode (opcodes.map Opcode.byte ++ bytes) =
      .ok (row 0 opcodes ++ instructions.toList.map (shift opcodes values).instruction).toArray := by
  obtain ⟨htiling, hbytes⟩ := decode_eq_ok_iff.mp hdecode
  refine decode_eq_ok_iff.mpr ⟨Tiling.append_iff.mpr ⟨tiling_row h.operandCount 0, ?_⟩, ?_⟩
  · rw [bytesOf_row, List.length_map]
    exact htiling.map_instruction (shift opcodes values)
  · rw [bytesOf_append, bytesOf_row, bytesOf_map_instruction, hbytes]

end Bytecode.Loads

open Bytecode.Loads (shift)

/-- The fault shows that nothing lies below the operands, or that nothing stands in front of the
bytecode. -/
def FaultCause.IsMargin (cause : FaultCause) : Prop :=
  cause = .stackUnderflow ∨ ∃ target < 0, cause = .invalidBranch target

namespace Program

/-- The other program is the program with the opcodes in front of its bytecode, and room for
their values on its stack. -/
structure IsRelocated (p : Program) (opcodes : List Opcode) (values : List Int32) (p' : Program) :
    Prop where
  loads : Loads opcodes values
  instructions_eq : p'.instructions.toList =
    row 0 opcodes ++ p.instructions.toList.map (shift opcodes values).instruction
  pool_eq : p'.pool = p.pool
  methodType_eq : p'.methodType = p.methodType
  lines_eq : p.lines = []
  lines_eq' : p'.lines = []
  maxStack_eq : p'.code.maxStack = p.code.maxStack + UInt16.ofNat values.length
  maxStack_lt : p.code.maxStack.toNat + values.length < 2 ^ 16
  maxLocals_eq : p'.code.maxLocals = p.code.maxLocals

namespace IsRelocated

variable {opcodes : List Opcode} {values : List Int32} {p p' : Program} {offset : Nat}
  (h : p.IsRelocated opcodes values p')

include h

theorem codeSize_eq : p'.codeSize = p.codeSize + opcodes.length := by
  rw [codeSize_eq_length, codeSize_eq_length, h.instructions_eq, bytesOf_append, bytesOf_row,
    bytesOf_map_instruction, List.length_append, List.length_map, Nat.add_comm]

theorem instructionAt?_of_mem_row {i : Instruction} (hi : i ∈ row 0 opcodes) :
    p'.instructionAt? i.offset = some i := by
  refine instructionAt?_eq_some_iff.mpr ⟨?_, rfl⟩
  rw [h.instructions_eq]
  exact List.mem_append_left _ hi

/-- From the end of the opcodes on, the instructions are those of the bytecode. -/
theorem instructionAt?_add_iff {j : Instruction} :
    p'.instructionAt? (offset + opcodes.length) = some j ↔
      ∃ i, p.instructionAt? offset = some i ∧ (shift opcodes values).instruction i = j := by
  rw [instructionAt?_eq_some_iff, h.instructions_eq, List.mem_append, List.mem_map]
  constructor
  · rintro ⟨hrow | ⟨i, hi, rfl⟩, hoffset⟩
    · have := offset_lt_of_mem_row hrow
      omega
    · exact ⟨i, instructionAt?_eq_some_iff.mpr ⟨hi, Nat.add_right_cancel hoffset⟩, rfl⟩
  · rintro ⟨i, hi, rfl⟩
    obtain ⟨hmem, rfl⟩ := instructionAt?_eq_some_iff.mp hi
    exact ⟨.inr ⟨i, hmem, rfl⟩, rfl⟩

theorem relates : (shift opcodes values).Relates FaultCause.IsMargin p p' where
  pool_eq := h.pool_eq
  maxStack_eq := by rw [h.maxStack_eq, Loads.size_below]
  maxStack_lt := by
    rw [Loads.size_below]
    exact h.maxStack_lt
  codeSize_eq := h.codeSize_eq
  lineFor?_eq pc := by
    rw [lineFor?, lineFor?, h.lines_eq, h.lines_eq']
    rfl
  boundary offset hboundary := by
    obtain ⟨i, hi⟩ := Option.isSome_iff_exists.mp hboundary
    exact Option.isSome_of_eq_some (h.instructionAt?_add_iff.mpr ⟨i, hi, rfl⟩)
  boundary_conv offset hboundary := by
    obtain ⟨j, hj⟩ := Option.isSome_iff_exists.mp hboundary
    obtain ⟨i, hi, _⟩ := h.instructionAt?_add_iff.mp hj
    exact .inl (Option.isSome_of_eq_some hi)
  in_front target htarget := .inr ⟨target, htarget, rfl⟩
  underflow := .inr (.inl rfl)

/-- The opcodes lead to the shifted machine. -/
theorem runFor_initial (policy : UnhandledPolicy) :
    runFor p' ⟨policy, none⟩ opcodes.length (initial p').started =
      .ok true ((shift opcodes values).machine opcodes.length (initial p)).started := by
  have hlocals := initialLocals_congr h.maxLocals_eq h.methodType_eq
  have hroom : (initial p').started.stack.size + values.length ≤ p'.code.maxStack.toNat := by
    rw [h.relates.toNat_maxStack, Loads.size_below]
    exact Nat.add_le_add_right (Nat.zero_le _) _
  have hrow : runFor p' ⟨policy, none⟩ _ (initial p').started = .ok true _ :=
    runFor_loads h.loads rfl rfl (fun _ hi => h.instructionAt?_of_mem_row hi) fun _ => hroom
  rw [hrow]
  simp only [started, moved, initial, Shift.machine, shift, hlocals, Array.append_empty,
    Array.empty_append]

end IsRelocated

end Program

namespace ClassFile

/-- The class file with the relocated code of the program. -/
def relocated (c : ClassFile) (p : Program) (opcodes : List Opcode) (values : List Int32) :
    ClassFile :=
  c.withEntryCode (p.code.relocated opcodes values)

theorem exists_isRelocated {c : ClassFile} {p : Program} {opcodes : List Opcode}
    {values : List Int32} (hp : Program.ofClassFile c = .ok p)
    (hlines : p.code.lineTables p.pool = []) (hloads : Loads opcodes values)
    (hstack : p.code.maxStack.toNat + values.length < 2 ^ 16)
    (hlength : opcodes.length + p.code.bytecode.length < 2 ^ 32) :
    ∃ p', Program.ofClassFile (c.relocated p opcodes values) = .ok p' ∧
      p.IsRelocated opcodes values p' := by
  have hfits := Program.fits_of_ofClassFile hp
  have hrelocated : (p.code.relocated opcodes values).Fits := by
    refine ⟨?_, hfits.exceptionTable, hfits.attributes⟩
    rw [Code.relocated, List.length_append, List.length_map]
    exact hlength
  have hlines' : (p.code.relocated opcodes values).lineTables p.pool = [] := hlines
  refine ⟨_, Program.ofClassFile_withEntryCode hp hrelocated (hloads.decode_append p.decode_eq), ?_⟩
  exact {
    loads := hloads
    instructions_eq := rfl
    pool_eq := rfl
    methodType_eq := rfl
    lines_eq := by
      rw [Program.lines_of_ofClassFile hp, Code.lineNumbers_of_lineTables hlines]
      rfl
    lines_eq' := by
      simp only [Program.ofCode, Code.lineNumbers_of_lineTables hlines']
      rfl
    maxStack_eq := rfl
    maxStack_lt := hstack
    maxLocals_eq := rfl }

end ClassFile

/-- When a run halts, and not for want of operands or with a branch in front of its bytecode, the
run with integers pushed in front of it does the same on top of them. -/
theorem Machine.exists_outcome_relocated {c : ClassFile} {p : Program} {opcodes : List Opcode}
    {values : List Int32} (hp : Program.ofClassFile c = .ok p)
    (hlines : p.code.lineTables p.pool = []) (hloads : Loads opcodes values)
    (hstack : p.code.maxStack.toNat + values.length < 2 ^ 16)
    (hlength : opcodes.length + p.code.bytecode.length < 2 ^ 32) :
    ∃ p', Program.ofClassFile (c.relocated p opcodes values) = .ok p' ∧
      ∀ policy n outcome,
        (after (runFor p ⟨policy, none⟩ n) (initial p)).outcome? = some outcome →
        (∀ fault, outcome.halt = .faulted fault → ¬fault.cause.IsMargin) →
          ∃ n', (after (runFor p' ⟨policy, none⟩ n') (initial p')).outcome? =
            some { outcome with
              halt := (shift opcodes values).halt outcome.halt
              stack := (values.map Value.int).toArray ++ outcome.stack
              instructionsExecuted := outcome.instructionsExecuted + opcodes.length } := by
  obtain ⟨p', hp', h⟩ := ClassFile.exists_isRelocated hp hlines hloads hstack hlength
  refine ⟨p', hp', ?_⟩
  intro policy n outcome houtcome hmargin
  let s := shift opcodes values
  have hkept := not_excused_of_outcome? houtcome hmargin
  -- behind the opcodes each step is answered by one step
  have hstep : ∀ ahead m, m.Live →
      ¬(after (step p ⟨policy, none⟩) m).Excused FaultCause.IsMargin →
        let more := ((dispatched? p ⟨policy, none⟩ m).toList.map fun _ => 0).sum
        after (runFor p' ⟨policy, none⟩ (1 + more)) (s.machine ahead m) =
          s.machine (ahead + more) (after (step p ⟨policy, none⟩) m) := by
    intro ahead m hlive hkept
    simp only [List.map_const', List.sum_replicate_nat, Nat.mul_zero, Nat.add_zero, after_runFor_one]
    refine h.relates.after_step rfl rfl ahead hlive ?_ hkept
    exact fun i hi => ⟨h.instructionAt?_add_iff.mpr ⟨i, hi, rfl⟩, fun _ => rfl⟩
  obtain ⟨steps, hsteps⟩ := exists_after_runFor_machine hstep opcodes.length hkept
  refine ⟨opcodes.length + steps, ?_⟩
  have hinitial := h.runFor_initial policy
  rw [← outcome?_after_runFor_started (live_initial p'), after_runFor_add, after_of_ok hinitial,
    outcome?_after_runFor_started ((live_initial p).machine s opcodes.length), hsteps,
    Shift.outcome?_machine, houtcome]
  simp only [List.map_const', List.sum_replicate_nat, Nat.mul_zero, Nat.add_zero]
  rfl

/-- A loop fills its stack on top of two integers, and overflows it at the second place. -/
theorem Machine.exists_outcome_relocated_overflow :
    let code : Code := ⟨2, 0, [0x04, 0xa7, 0xff, 0xff], [], []⟩
    let m : Member := ⟨9, 2, 3, [code.toAttribute 4]⟩
    let c : ClassFile :=
      { magic := ClassFile.magicNumber
        minorVersion := 0
        majorVersion := 52
        pool := ⟨#[none, some (.classRef 2), some (.utf8 "main"), some (.utf8 "()I"),
          some (.utf8 "Code")]⟩
        accessFlags := 0x21
        thisClass := 1
        superClass := 0
        interfaces := []
        fields := []
        methods := [m]
        attributes := [] }
    let p : Program := Program.ofCode c.pool (some ⟨[], .int⟩) code
      #[⟨0, .iconst1, []⟩, ⟨1, .goto, [0xff, 0xff]⟩] (by decide +kernel)
    let outcome : Outcome :=
      { halt := .faulted ⟨.stackOverflow 2, 0, none⟩
        stack := #[.int 1, .int 1]
        locals := #[]
        objects := #[]
        returned := none
        instructionsExecuted := 5 }
    Program.ofClassFile c = .ok p ∧
      (after (runFor p ⟨.fail, none⟩ 5) (initial p)).outcome? = some outcome ∧
        ∃ p' n', Program.ofClassFile (c.relocated p [.nop, .iconst5, .iconstM1] [5, -1]) = .ok p' ∧
          (after (runFor p' ⟨.fail, none⟩ n') (initial p')).outcome? =
            some { outcome with
              halt := .faulted ⟨.stackOverflow 4, 3, none⟩
              stack := #[.int 5, .int (-1), .int 1, .int 1]
              instructionsExecuted := 8 } := by
  intro code m c p outcome
  have hcode : m.code c.pool = .ok code :=
    Member.code_eq_ok_iff.mpr ⟨code.toAttribute 4, by decide +kernel, by decide +kernel⟩
  have htype : m.methodType? c.pool = some ⟨[], .int⟩ := by decide +kernel
  have hp : Program.ofClassFile c = .ok p :=
    Program.ofClassFile_eq_ok_iff.mpr ⟨m, code, p.instructions, p.decode_eq, by decide +kernel,
      hcode, by rw [htype]; rfl⟩
  have hloads : Loads [.nop, .iconst5, .iconstM1] [5, -1] :=
    .nop (.constant rfl (.constant rfl .nil))
  have houtcome : (after (runFor p ⟨.fail, none⟩ 5) (initial p)).outcome? = some outcome := by
    decide +kernel
  have hmargin : ∀ fault, outcome.halt = .faulted fault → ¬fault.cause.IsMargin := by
    intro fault hfault
    cases hfault
    rintro (hunderflow | ⟨target, _, hbranch⟩)
    · cases hunderflow
    · cases hbranch
  obtain ⟨p', hp', hrelocated⟩ := exists_outcome_relocated hp rfl hloads (by decide) (by decide)
  obtain ⟨n', hn'⟩ := hrelocated .fail 5 outcome houtcome hmargin
  exact ⟨hp, houtcome, p', n', hp', hn'⟩

end ClassMachine
