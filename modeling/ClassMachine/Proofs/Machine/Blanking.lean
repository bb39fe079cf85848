import ClassMachine.Proofs.Machine.Loads
import ClassMachine.Proofs.Machine.ShiftedRuns
import ClassMachine.Proofs.Program.Entry

/-!
# Instructions without a meaning

An instruction whose opcode has no meaning is skipped, under the policy that allows it, with
nothing changed but the place of the machine.  So its bytes can be blanked, which makes them as
many nops: the blanked bytecode decodes, the instructions that had a meaning stand where they
stood, and the run comes out the same with some more instructions executed.  Only a branch into
the operands of a blanked instruction finds an instruction where there was none.
-/

namespace ClassMachine

open Bytecode

namespace Instruction

def isUnhandled (i : Instruction) : Bool :=
  i.action? == some .unhandled

/-- The bytes of the instruction, with zeros instead when its opcode has no meaning. -/
def blankedBytes (i : Instruction) : List UInt8 :=
  if i.isUnhandled then List.replicate (1 + i.operands.length) 0x00 else i.toBytes

/-- How many instructions the blanked bytes are more than one. -/
def blankedExtra (i : Instruction) : Nat :=
  if i.isUnhandled then i.operands.length else 0

theorem sum_blankedExtra (instructions : List Instruction) :
    (instructions.map blankedExtra).sum =
      ((instructions.filter (·.isUnhandled)).map fun i => i.operands.length).sum := by
  induction instructions with
  | nil => rfl
  | cons i rest ih =>
      rw [List.map_cons, List.sum_cons, ih, blankedExtra, List.filter_cons]
      split
      · rw [List.map_cons, List.sum_cons]
      · rw [Nat.zero_add]

/-- What the blanked bytes of an instruction decode to. -/
def blanked (i : Instruction) : List Instruction :=
  if i.isUnhandled then row i.offset (List.replicate (1 + i.operands.length) .nop) else [i]

theorem bytesOf_blanked (i : Instruction) : bytesOf i.blanked = i.blankedBytes := by
  unfold blanked blankedBytes
  split
  · rw [bytesOf_row, List.map_replicate]
    rfl
  · rw [bytesOf_cons, bytesOf_nil, List.append_nil]
    rfl

theorem length_blankedBytes (i : Instruction) :
    i.blankedBytes.length = 1 + i.operands.length := by
  unfold blankedBytes
  split
  · exact List.length_replicate
  · rw [toBytes, List.length_cons, Nat.add_comm]

end Instruction

namespace Bytecode

/-- The bytecode of some instructions, with zeros for those without a meaning. -/
def blank (instructions : List Instruction) : List UInt8 :=
  instructions.flatMap Instruction.blankedBytes

theorem length_blank (instructions : List Instruction) :
    (blank instructions).length = (bytesOf instructions).length := by
  induction instructions with
  | nil => rfl
  | cons i rest ih =>
      have hlength := i.length_blankedBytes
      unfold blank at ih ⊢
      rw [List.flatMap_cons, List.length_append, ih, bytesOf_cons, List.length_cons,
        List.length_append]
      omega

theorem bytesOf_flatMap_blanked (instructions : List Instruction) :
    bytesOf (instructions.flatMap Instruction.blanked) = blank instructions := by
  induction instructions with
  | nil => rfl
  | cons i rest ih =>
      rw [List.flatMap_cons, bytesOf_append, ih, i.bytesOf_blanked]
      rfl

theorem tiling_blanked {i : Instruction} (h : i.operands.length = i.opcode.operandCount) :
    Tiling i.offset i.blanked := by
  unfold Instruction.blanked
  split
  · exact tiling_row (Loads.replicate_nop _).operandCount i.offset
  · exact .cons h .nil

theorem Tiling.flatMap_blanked {offset : Nat} {instructions : List Instruction}
    (h : Tiling offset instructions) :
    Tiling offset (instructions.flatMap Instruction.blanked) := by
  induction h with
  | nil => exact .nil
  | @cons i rest hoperands _ ih =>
      have hnext : i.offset + (bytesOf i.blanked).length = i.nextOffset := by
        rw [i.bytesOf_blanked, i.length_blankedBytes, Instruction.nextOffset]
        omega
      rw [List.flatMap_cons, append_iff, hnext]
      exact ⟨tiling_blanked hoperands, ih⟩

theorem decode_blank {bytes : List UInt8} {instructions : Array Instruction}
    (h : decode bytes = .ok instructions) :
    decode (blank instructions.toList) =
      .ok (instructions.toList.flatMap Instruction.blanked).toArray := by
  rw [decode_eq_ok_iff] at h ⊢
  exact ⟨h.1.flatMap_blanked, (bytesOf_flatMap_blanked _).symm⟩

end Bytecode

namespace Program

/-- The other program is the program with its instructions blanked, and else the same. -/
structure IsBlanked (p p' : Program) : Prop where
  instructions_eq : p'.instructions.toList = p.instructions.toList.flatMap Instruction.blanked
  pool_eq : p'.pool = p.pool
  methodType_eq : p'.methodType = p.methodType
  lines_eq : p'.lines = p.lines
  maxStack_eq : p'.code.maxStack = p.code.maxStack
  maxLocals_eq : p'.code.maxLocals = p.code.maxLocals

namespace IsBlanked

variable {p p' : Program} {offset : Nat} {i : Instruction} (h : p.IsBlanked p')

include h

theorem codeSize_eq : p'.codeSize = p.codeSize := by
  rw [codeSize_eq_length, codeSize_eq_length, h.instructions_eq, bytesOf_flatMap_blanked,
    length_blank]

theorem instructionAt?_of_mem {j : Instruction} (hi : p.instructionAt? offset = some i)
    (hj : j ∈ i.blanked) : p'.instructionAt? j.offset = some j := by
  refine instructionAt?_eq_some_iff.mpr ⟨?_, rfl⟩
  rw [h.instructions_eq]
  exact List.mem_flatMap.mpr ⟨i, (instructionAt?_eq_some_iff.mp hi).1, hj⟩

theorem instructionAt?_of_handled (hi : p.instructionAt? offset = some i)
    (hhandled : i.isUnhandled = false) : p'.instructionAt? offset = some i := by
  rw [← offset_of_instructionAt? hi]
  refine h.instructionAt?_of_mem hi ?_
  rw [Instruction.blanked, hhandled]
  exact List.mem_singleton_self i

theorem instructionAt?_of_unhandled (hi : p.instructionAt? offset = some i)
    (hunhandled : i.isUnhandled = true) :
    ∀ j ∈ row offset (List.replicate (1 + i.operands.length) .nop),
      p'.instructionAt? j.offset = some j := by
  intro j hj
  refine h.instructionAt?_of_mem hi ?_
  rw [Instruction.blanked, if_pos hunhandled, offset_of_instructionAt? hi]
  exact hj

theorem boundary (hboundary : p.Boundary offset) : p'.Boundary offset := by
  obtain ⟨i, hi⟩ := Option.isSome_iff_exists.mp hboundary
  cases hhandled : i.isUnhandled with
  | false => exact Option.isSome_of_eq_some (h.instructionAt?_of_handled hi hhandled)
  | true =>
      have hfirst : ⟨offset, .nop, []⟩ ∈
          row offset (List.replicate (1 + i.operands.length) .nop) := by
        rw [Nat.add_comm, List.replicate_succ, row]
        exact List.mem_cons_self
      exact Option.isSome_of_eq_some (h.instructionAt?_of_unhandled hi hhandled _ hfirst)

end IsBlanked

end Program

open Machine

namespace Shift

/-- No distance, and nothing below. -/
def zero : Shift := ⟨0, #[]⟩

theorem cause_zero (cause : FaultCause) : zero.cause cause = cause := by
  cases cause with
  | stackOverflow maxStack => exact congrArg FaultCause.stackOverflow (UInt16.add_zero maxStack)
  | invalidBranch target => exact congrArg FaultCause.invalidBranch (Int.add_zero target)
  | _ => rfl

theorem outcome_zero (ahead : Nat) (outcome : Outcome) :
    zero.outcome ahead outcome =
      { outcome with instructionsExecuted := outcome.instructionsExecuted + ahead } := by
  have hhalt : zero.halt outcome.halt = outcome.halt := by
    cases outcome.halt with
    | normal => rfl
    | faulted fault =>
        simp only [halt, Shift.fault, cause_zero]
        rfl
  simp only [Shift.outcome, hhalt]
  simp only [zero, Array.empty_append]

end Shift

/-- The cause of a fault is a branch to a place where no instruction starts. -/
def FaultCause.IsBranch (cause : FaultCause) : Prop := ∃ target, cause = .invalidBranch target

namespace Program.IsBlanked

variable {p p' : Program} {m : Machine} {i : Instruction} (h : p.IsBlanked p')

include h

theorem relates : Shift.zero.Relates FaultCause.IsBranch p p' where
  pool_eq := h.pool_eq
  maxStack_eq := h.maxStack_eq.trans (UInt16.add_zero _).symm
  maxStack_lt := p.code.maxStack.toNat_lt
  codeSize_eq := h.codeSize_eq
  lineFor?_eq pc := congrArg (LineTable.lineFor? · pc) h.lines_eq
  boundary _ hboundary := h.boundary hboundary
  boundary_conv offset _ := .inr ⟨offset, rfl⟩
  in_front target _ := ⟨target, rfl⟩
  underflow := .inl rfl

theorem initial_eq : initial p' = Shift.zero.machine 0 (initial p) := by
  have hlocals := initialLocals_congr h.maxLocals_eq h.methodType_eq
  simp only [initial, hlocals]
  rfl

/-- A skipped instruction is answered by as many nops as it has bytes. -/
theorem after_runFor_unhandled (ahead : Nat)
    (hi : dispatched? p ⟨.skip, none⟩ m = some i) (hunhandled : i.isUnhandled = true) :
    after (runFor p' ⟨.fail, none⟩ (1 + i.operands.length)) (Shift.zero.machine ahead m) =
      Shift.zero.machine (ahead + i.operands.length) (after (step p ⟨.skip, none⟩) m) := by
  obtain ⟨hlive, _, hfound⟩ := dispatched?_eq_some_iff.mp hi
  have haction : i.action? = some .unhandled := by
    simpa [Instruction.isUnhandled] using hunhandled
  have hskipped : after (step p ⟨.skip, none⟩) m = m.started.moved i.nextOffset m.stack 1 := by
    rw [after, step_of_dispatched? hi haction]
    rfl
  let m' := (Shift.zero.machine ahead m).started
  have hnops : runFor p' ⟨.fail, none⟩ _ m' = .ok true _ :=
    runFor_loads (Loads.replicate_nop (1 + i.operands.length)) rfl rfl
      (h.instructionAt?_of_unhandled hfound hunhandled) (absurd rfl)
  rw [List.length_replicate, Nat.add_comm 1 i.operands.length] at hnops
  rw [Nat.add_comm 1 i.operands.length, ← after_runFor_succ_started (hlive.machine _ ahead),
    after_of_ok hnops, hskipped]
  have hplace : m.pc + (i.operands.length + 1) = i.nextOffset := by
    rw [Instruction.nextOffset, Program.offset_of_instructionAt? hfound]
    omega
  have hcount : m.executed + ahead + (i.operands.length + 1) =
      m.executed + 1 + (ahead + i.operands.length) := by omega
  simp only [m', started, moved, Shift.machine, Shift.zero, Shift.status, List.map_nil,
    Array.empty_append, Array.append_empty, Nat.add_zero, hplace, hcount]

theorem after_runFor_step (ahead : Nat) (m : Machine) (hlive : m.Live)
    (hkept : ¬(after (step p ⟨.skip, none⟩) m).Excused FaultCause.IsBranch) :
    let more := ((dispatched? p ⟨.skip, none⟩ m).toList.map Instruction.blankedExtra).sum
    after (runFor p' ⟨.fail, none⟩ (1 + more)) (Shift.zero.machine ahead m) =
      Shift.zero.machine (ahead + more) (after (step p ⟨.skip, none⟩) m) := by
  have hnext : dispatched? p ⟨.skip, none⟩ m = p.instructionAt? m.pc :=
    dispatched?_of_live hlive rfl
  have hsame : (∀ i, p.instructionAt? m.pc = some i → i.isUnhandled = false) →
      after (runFor p' ⟨.fail, none⟩ 1) (Shift.zero.machine ahead m) =
        Shift.zero.machine ahead (after (step p ⟨.skip, none⟩) m) := by
    intro hhandled
    rw [after_runFor_one]
    refine h.relates.after_step rfl rfl ahead hlive ?_ hkept
    intro i hi
    refine ⟨h.instructionAt?_of_handled hi (hhandled i hi), fun haction => ?_⟩
    have hmeaning := hhandled i hi
    rw [Instruction.isUnhandled, haction] at hmeaning
    cases hmeaning
  cases hi : p.instructionAt? m.pc with
  | none =>
      rw [hnext, hi]
      exact hsame fun i hfound => by rw [hi] at hfound; cases hfound
  | some i =>
      cases hunhandled : i.isUnhandled with
      | false =>
          have hextra : i.blankedExtra = 0 := by rw [Instruction.blankedExtra, hunhandled]; rfl
          rw [hnext, hi, Option.toList_some, List.map_singleton, List.sum_singleton, hextra]
          exact hsame fun found hfound => by rw [hi] at hfound; cases hfound; exact hunhandled
      | true =>
          have hextra : i.blankedExtra = i.operands.length := by
            rw [Instruction.blankedExtra, hunhandled]
            rfl
          rw [hnext, hi, Option.toList_some, List.map_singleton, List.sum_singleton, hextra]
          exact h.after_runFor_unhandled ahead (hnext.trans hi) hunhandled

end Program.IsBlanked

namespace ClassFile

/-- The class file with the bytes of the instructions without a meaning blanked. -/
def blanked (c : ClassFile) (p : Program) : ClassFile :=
  c.withEntryCode { p.code with bytecode := blank p.instructions.toList }

theorem exists_isBlanked {c : ClassFile} {p : Program} (hp : Program.ofClassFile c = .ok p) :
    ∃ p', Program.ofClassFile (c.blanked p) = .ok p' ∧ p.IsBlanked p' := by
  have hfits := Program.fits_of_ofClassFile hp
  have hblanked : ({ p.code with bytecode := blank p.instructions.toList } : Code).Fits := by
    refine ⟨?_, hfits.exceptionTable, hfits.attributes⟩
    rw [length_blank, ← p.bytecode_eq]
    exact hfits.bytecode
  refine ⟨_, Program.ofClassFile_withEntryCode hp hblanked (decode_blank p.decode_eq), ?_⟩
  exact ⟨rfl, rfl, rfl, (Program.lines_of_ofClassFile hp).symm, rfl, rfl⟩

end ClassFile

/-- When a run that skips instructions without a meaning halts with anything but a branch to a
place where no instruction starts, the run of the blanked bytecode halts in the same way without
skipping any. -/
theorem Machine.exists_outcome_blanked {c : ClassFile} {p : Program}
    (hp : Program.ofClassFile c = .ok p) :
    ∃ p', Program.ofClassFile (c.blanked p) = .ok p' ∧
      decode (blank p.instructions.toList) = .ok p'.instructions ∧ p'.codeSize = p.codeSize ∧
        ∀ n outcome,
          (after (runFor p ⟨.skip, none⟩ n) (initial p)).outcome? = some outcome →
          (∀ target pc line, outcome.halt ≠ .faulted ⟨.invalidBranch target, pc, line⟩) →
            let skipped := (dispatched p ⟨.skip, none⟩ n (initial p)).filter (·.isUnhandled)
            ∃ n', (after (runFor p' ⟨.fail, none⟩ n') (initial p')).outcome? =
              some { outcome with
                instructionsExecuted := outcome.instructionsExecuted +
                  (skipped.map fun i => i.operands.length).sum } := by
  obtain ⟨p', hp', h⟩ := c.exists_isBlanked hp
  refine ⟨p', hp', ?_, h.codeSize_eq, ?_⟩
  · rw [decode_blank p.decode_eq, ← h.instructions_eq]
  intro n outcome houtcome hbranch skipped
  have hnone : ∀ fault, outcome.halt = .faulted fault → ¬fault.cause.IsBranch := by
    rintro ⟨cause, pc, line⟩ hfault ⟨target, rfl⟩
    exact hbranch target pc line hfault
  have hkept := not_excused_of_outcome? houtcome hnone
  obtain ⟨n', hn'⟩ := exists_after_runFor_machine h.after_runFor_step 0 hkept
  refine ⟨n', ?_⟩
  rw [h.initial_eq, hn', Shift.outcome?_machine, houtcome, Option.map_some, Shift.outcome_zero,
    Nat.zero_add, Instruction.sum_blankedExtra]

/-- A loop that is run twice skips an instruction with two operand bytes and one with none. -/
theorem Machine.exists_outcome_blanked_loop :
    let code : Code :=
      ⟨1, 1, [0x05, 0x3b, 0x1a, 0x99, 0, 13, 0xb2, 0, 9, 0x58, 0x84, 0, 0xff, 0xa7, 0xff, 0xf5,
        0x08, 0xac], [], []⟩
    let m : Member := ⟨9, 2, 3, [code.toAttribute 4]⟩
    let c : ClassFile :=
      { magic := ClassFile.magicNumber
        minorVersion := 0
        majorVersion := 52
        pool := ⟨#[none, some (.classRef 2), some (.utf8 "main"), some (.utf8 "()I"),
          some (.utf8 "Code")]⟩
        accessFlags := 0x21
        thisClass := 1
        superClass := 0
        interfaces := []
        fields := []
        methods := [m]
        attributes := [] }
    let p : Program := Program.ofCode c.pool (some ⟨[], .int⟩) code
      #[⟨0, .iconst2, []⟩, ⟨1, .istore0, []⟩, ⟨2, .iload0, []⟩, ⟨3, .ifeq, [0, 13]⟩,
        ⟨6, .getstatic, [0, 9]⟩, ⟨9, .pop2, []⟩, ⟨10, .iinc, [0, 0xff]⟩, ⟨13, .goto, [0xff, 0xf5]⟩,
        ⟨16, .iconst5, []⟩, ⟨17, .ireturn, []⟩] (by decide +kernel)
    let outcome : Outcome :=
      { halt := .normal
        stack := #[]
        locals := #[some (.int 0)]
        objects := #[]
        returned := some (.int 5)
        instructionsExecuted := 18 }
    Program.ofClassFile c = .ok p ∧
      (after (runFor p ⟨.skip, none⟩ 18) (initial p)).outcome? = some outcome ∧
        ∃ p' n', Program.ofClassFile (c.blanked p) = .ok p' ∧
          (after (runFor p' ⟨.fail, none⟩ n') (initial p')).outcome? =
            some { outcome with instructionsExecuted := 22 } := by
  intro code m c p outcome
  have hcode : m.code c.pool = .ok code :=
    Member.code_eq_ok_iff.mpr ⟨code.toAttribute 4, by decide +kernel, by decide +kernel⟩
  have htype : m.methodType? c.pool = some ⟨[], .int⟩ := by decide +kernel
  have hp : Program.ofClassFile c = .ok p :=
    Program.ofClassFile_eq_ok_iff.mpr ⟨m, code, p.instructions, p.decode_eq, by decide +kernel,
      hcode, by rw [htype]; rfl⟩
  have houtcome : (after (runFor p ⟨.skip, none⟩ 18) (initial p)).outcome? = some outcome := by
    decide +kernel
  obtain ⟨p', hp', _, _, hblanked⟩ := exists_outcome_blanked hp
  obtain ⟨n', hn'⟩ := hblanked 18 outcome houtcome (by intro _ _ _ h; cases h)
  refine ⟨hp, houtcome, p', n', hp', ?_⟩
  rw [hn']
  decide +kernel

end ClassMachine
