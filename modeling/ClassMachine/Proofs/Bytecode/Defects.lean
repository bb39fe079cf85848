import ClassMachine.Proofs.Bytecode.Tiling

/-!
# What decoding finds

Instructions tile a bytecode when it is the row of their bytes and each has its operands and its
place.  Decoding gives the one tiling that a bytecode has.  A bytecode without a tiling has one up
to its first defect, which is a byte that is no opcode or an opcode with too few bytes behind it,
and decoding names that byte and its offset.
-/

namespace ClassMachine

namespace Bytecode

/-- The bytecode is the row of the instructions.  Each has the operand bytes that its opcode asks
for, and its offset is the length of the instructions before it. -/
structure Tiles (code : List UInt8) (instructions : List Instruction) : Prop where
  code_eq : code = instructions.flatMap fun i => i.opcode.byte :: i.operands
  operands_length : ∀ i ∈ instructions, i.operands.length = i.opcode.operandCount
  offset_eq : ∀ before i after, instructions = before ++ i :: after →
    i.offset = (bytesOf before).length

/-- What stands at the offset is no instruction. -/
inductive Defect (offset : Nat) : List UInt8 → FormatError → Prop where
  | unsupported {byte : UInt8} {rest : List UInt8} :
      Opcode.ofByte? byte = none → Defect offset (byte :: rest) (.unsupportedOpcode byte offset)
  | truncated {byte : UInt8} {rest : List UInt8} {opcode : Opcode} :
      Opcode.ofByte? byte = some opcode → rest.length < opcode.operandCount →
        Defect offset (byte :: rest) (.truncatedOperands byte offset)

variable {code bytes : List UInt8} {instructions front : List Instruction} {offset : Nat}
variable {before : Array Instruction} {i : Instruction} {error : FormatError}

theorem length_bytesOf_append_cons (before after : List Instruction) (i : Instruction) :
    (bytesOf (before ++ i :: after)).length =
      (bytesOf before).length + 1 + i.operands.length + (bytesOf after).length := by
  simp
  omega

/-- Instructions stand one behind the other when each stands behind those before it. -/
theorem tiling_iff_offset_eq :
    Tiling offset instructions ↔
      (∀ i ∈ instructions, i.operands.length = i.opcode.operandCount) ∧
        ∀ before i after, instructions = before ++ i :: after →
          i.offset = offset + (bytesOf before).length := by
  constructor
  · intro h
    refine ⟨fun i => h.operands_length, ?_⟩
    rintro before i after rfl
    rcases Tiling.append_iff.mp h with ⟨_, hbehind⟩
    exact (Tiling.cons_iff.mp hbehind).1
  · rintro ⟨hoperands, hoffset⟩
    induction instructions generalizing offset with
    | nil => exact .nil
    | cons first rest ih =>
        have hfirst : first.offset = offset := by
          simpa using hoffset [] first rest rfl
        apply Tiling.cons_iff.mpr
        refine ⟨hfirst, hoperands first (by simp), ih ?_ ?_⟩
        · intro i hi
          exact hoperands i (by simp [hi])
        · rintro before i after rfl
          have hplace := hoffset (first :: before) i after rfl
          simp [Instruction.nextOffset, hfirst] at hplace ⊢
          omega

theorem tiles_iff : Tiles code instructions ↔ Tiling 0 instructions ∧ code = bytesOf instructions := by
  rw [tiling_iff_offset_eq]
  constructor
  · intro h
    exact ⟨⟨h.operands_length, by simpa using h.offset_eq⟩, h.code_eq⟩
  · rintro ⟨⟨hoperands, hoffset⟩, hcode⟩
    exact ⟨hcode, hoperands, by simpa using hoffset⟩

theorem decode_eq_ok_iff_tiles {instructions : Array Instruction} :
    decode code = .ok instructions ↔ Tiles code instructions.toList := by
  rw [decode_eq_ok_iff, tiles_iff]

namespace Tiles

theorem offset_head? (h : Tiles code instructions) (hi : instructions.head? = some i) :
    i.offset = 0 := by
  rcases List.head?_eq_some_iff.mp hi with ⟨rest, hsplit⟩
  simpa using h.offset_eq [] i rest hsplit

theorem nextOffset_eq {i j : Instruction} {before after : List Instruction}
    (h : Tiles code instructions) (hsplit : instructions = before ++ i :: j :: after) :
    i.nextOffset = j.offset := by
  have hi := h.offset_eq before i (j :: after) hsplit
  have hj := h.offset_eq (before ++ [i]) j after (by simp [hsplit])
  rw [length_bytesOf_append_cons] at hj
  simp [Instruction.nextOffset, hi, hj]

theorem nextOffset_getLast? (h : Tiles code instructions)
    (hi : instructions.getLast? = some i) : i.nextOffset = code.length := by
  rcases List.getLast?_eq_some_iff.mp hi with ⟨before, hsplit⟩
  have hoffset := h.offset_eq before i [] hsplit
  have hcode : code = bytesOf instructions := h.code_eq
  rw [hcode, hsplit, length_bytesOf_append_cons]
  simp [Instruction.nextOffset, hoffset]

theorem unique {others : List Instruction} (h : Tiles code instructions)
    (hothers : Tiles code others) : instructions = others := by
  have hdecode : decode code = .ok instructions.toArray := decode_eq_ok_iff_tiles.mpr (by simpa)
  have hdecode' : decode code = .ok others.toArray := decode_eq_ok_iff_tiles.mpr (by simpa)
  simpa [hdecode] using hdecode'

end Tiles

/-- Decoding takes over the instructions at the front and goes on behind them. -/
theorem decodeFrom_bytesOf_append (h : Tiling offset front) (rest : List UInt8)
    (before : Array Instruction) :
    decodeFrom offset (bytesOf front ++ rest) before =
      decodeFrom (offset + (bytesOf front).length) rest (before ++ front.toArray) := by
  induction h generalizing before with
  | nil => simp
  | @cons i front hoperands _ ih =>
      rw [bytesOf_cons, List.cons_append, List.append_assoc, decodeFrom]
      simp only [Opcode.ofByte?_byte, ← hoperands, List.take_left, List.drop_left]
      rw [if_pos (by simp), ih, nextOffset_add_length]
      simp

theorem decodeFrom_of_defect {rest : List UInt8} (h : Defect offset rest error)
    (before : Array Instruction) : decodeFrom offset rest before = .error error := by
  cases h with
  | unsupported hopcode => simp [decodeFrom, hopcode]
  | truncated hopcode hshort => simp [decodeFrom, hopcode, Nat.not_le.mpr hshort]

/-- Decoding that fails has met a defect behind the instructions that it decoded. -/
theorem exists_defect_of_decodeFrom (h : decodeFrom offset bytes before = .error error) :
    ∃ front rest, Tiling offset front ∧ bytes = bytesOf front ++ rest ∧
      Defect (offset + (bytesOf front).length) rest error := by
  fun_induction decodeFrom offset bytes before with
  | case1 offset before => cases h
  | case2 offset before byte rest hopcode =>
      cases h
      exact ⟨[], byte :: rest, .nil, rfl, .unsupported hopcode⟩
  | case3 offset before byte rest opcode hopcode henough i ih =>
      rw [hasAtLeast_iff] at henough
      have hoperands : i.operands.length = i.opcode.operandCount := List.length_take_of_le henough
      rcases ih h with ⟨front, tail, htiling, htail, hdefect⟩
      refine ⟨i :: front, tail, .cons hoperands htiling, ?_, ?_⟩
      · have hbyte : i.opcode.byte = byte := Opcode.byte_of_ofByte? hopcode
        rw [bytesOf_cons, hbyte, List.cons_append, List.append_assoc, ← htail]
        exact congrArg (byte :: ·) (List.take_append_drop _ rest).symm
      · rw [nextOffset_add_length] at hdefect
        exact hdefect
  | case4 offset before byte rest opcode hopcode hshort =>
      cases h
      rw [hasAtLeast_iff, Nat.not_le] at hshort
      exact ⟨[], byte :: rest, .nil, rfl, .truncated hopcode hshort⟩

theorem decode_eq_error_iff :
    decode code = .error error ↔
      ∃ start front rest, Tiles start front ∧ code = start ++ rest ∧
        Defect start.length rest error := by
  constructor
  · intro h
    rcases exists_defect_of_decodeFrom h with ⟨front, rest, htiling, hcode, hdefect⟩
    exact ⟨bytesOf front, front, rest, tiles_iff.mpr ⟨htiling, rfl⟩, hcode, by simpa using hdefect⟩
  · rintro ⟨start, front, rest, hfront, rfl, hdefect⟩
    rcases tiles_iff.mp hfront with ⟨htiling, rfl⟩
    rw [decode, decodeFrom_bytesOf_append htiling, Nat.zero_add]
    exact decodeFrom_of_defect hdefect _

/-- Decoding gives the one tiling of a bytecode.  It fails for a byte that is no opcode, or for an
opcode whose operands are cut off, exactly when instructions tile the bytecode up to that byte, and
it fails for nothing else. -/
theorem decode_outcomes (code : List UInt8) :
    (∀ instructions, decode code = .ok instructions ↔ Tiles code instructions.toList) ∧
      (∀ instructions, Tiles code instructions →
        (∀ i, instructions.head? = some i → i.offset = 0) ∧
          (∀ before i j after, instructions = before ++ i :: j :: after → i.nextOffset = j.offset) ∧
          (∀ i, instructions.getLast? = some i → i.nextOffset = code.length) ∧
          ∀ others, Tiles code others → instructions = others) ∧
      (∀ byte offset, decode code = .error (.unsupportedOpcode byte offset) ↔
        ∃ start front rest, Tiles start front ∧ start.length = offset ∧
          code = start ++ byte :: rest ∧ Opcode.ofByte? byte = none) ∧
      (∀ byte offset, decode code = .error (.truncatedOperands byte offset) ↔
        ∃ start front opcode rest, Tiles start front ∧ start.length = offset ∧
          code = start ++ byte :: rest ∧ Opcode.ofByte? byte = some opcode ∧
            rest.length < opcode.operandCount) ∧
      ∀ error, decode code = .error error → ∃ byte offset,
        error = .unsupportedOpcode byte offset ∨ error = .truncatedOperands byte offset := by
  refine ⟨fun instructions => decode_eq_ok_iff_tiles, ?_, ?_, ?_, ?_⟩
  · intro instructions h
    exact ⟨fun i => h.offset_head?, fun before i j after => h.nextOffset_eq,
      fun i => h.nextOffset_getLast?, fun others => h.unique⟩
  · intro byte offset
    rw [decode_eq_error_iff]
    constructor
    · rintro ⟨start, front, _, hfront, hcode, hdefect⟩
      cases hdefect with
      | unsupported hopcode => exact ⟨start, front, _, hfront, rfl, hcode, hopcode⟩
    · rintro ⟨start, front, rest, hfront, rfl, hcode, hopcode⟩
      exact ⟨start, front, _, hfront, hcode, .unsupported hopcode⟩
  · intro byte offset
    rw [decode_eq_error_iff]
    constructor
    · rintro ⟨start, front, _, hfront, hcode, hdefect⟩
      cases hdefect with
      | truncated hopcode hshort => exact ⟨start, front, _, _, hfront, rfl, hcode, hopcode, hshort⟩
    · rintro ⟨start, front, opcode, rest, hfront, rfl, hcode, hopcode, hshort⟩
      exact ⟨start, front, _, hfront, hcode, .truncated hopcode hshort⟩
  · intro error h
    rcases decode_eq_error_iff.mp h with ⟨_, _, _, _, _, hdefect⟩
    cases hdefect with
    | unsupported _ => exact ⟨_, _, .inl rfl⟩
    | truncated _ _ => exact ⟨_, _, .inr rfl⟩

/-- The byte of a switch is no opcode, because a switch has no fixed width.  As an operand the same
byte is no defect. -/
example :
    decode [0x10, 0xab, 0xab, 0x10] = .error (.unsupportedOpcode 0xab 2) := by
  decide +kernel

end Bytecode

end ClassMachine
