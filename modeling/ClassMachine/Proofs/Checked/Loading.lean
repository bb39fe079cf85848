import ClassMachine.Machine.Basic
import ClassMachine.Program.Entry
import ClassMachine.Proofs.Checked.Basic
import ClassMachine.Proofs.Codec.Exact
import ClassMachine.Proofs.Descriptor.Grammar
import ClassMachine.Proofs.Program.Lookup

/-!
# Loading with checked operations

Loading a program looks up bytes, cuts slices out of byte strings and texts, and adds
offsets.  Here every such operation is checked: it has no result when its index is out of
range, when its slice does not lie between two characters, or when its sum does not fit
into its type.  A checked function that has a result has the result of the unchecked one.

The functions that are left out have no such operation.
-/

namespace ClassMachine

open Checked

namespace DescriptorType

theorem size_le (type : DescriptorType) : type.size ≤ 2 := by
  cases type <;> simp [size]

/-- The type at the front and what is left, with the name of a class cut out by byte
positions. -/
def parseChecked : List Char → Option (Option (DescriptorType × List Char))
  | 'L' :: text =>
      match position? ';' text with
      | none => some none
      | some stop =>
          if stop = 0 then some none
          else do
            let (name, _) ← splitText? text stop
            let (_, rest) ← splitText? text (stop + 1)
            return some (.object (String.ofList name), rest)
  | '[' :: text => do
      match ← parseChecked text with
      | none => return none
      | some (component, rest) =>
          if component = .void then return none else return some (.array component, rest)
  | text => some (parse? text)

theorem parseChecked_eq (text : List Char) : parseChecked text = some (parse? text) := by
  fun_induction parseChecked text with
  | case1 text hposition =>
      rw [parse?, position?_eq_none hposition]
  | case2 text hposition =>
      obtain ⟨rest, hrest, hname⟩ := position?_eq_some hposition
      have hempty := textSize_eq_zero_iff.mp hname.symm
      rw [parse?, hrest, hempty]
      rfl
  | case3 text stop hposition hstop =>
      obtain ⟨rest, hrest, hname⟩ := position?_eq_some hposition
      have hsplit := List.takeWhile_append_dropWhile (p := (· ≠ ';')) (l := text)
      rw [hrest] at hsplit
      rw [parse?, hrest]
      generalize text.takeWhile (· ≠ ';') = name at *
      have hnonempty : ¬name.isEmpty := by
        rw [List.isEmpty_iff, ← textSize_eq_zero_iff, ← hname]
        exact hstop
      have hbefore : splitText? text stop = some (name, ';' :: rest) := by
        rw [← hsplit, hname]
        exact splitText?_append name _
      have hbehind : splitText? text (stop + 1) = some (name ++ [';'], rest) := by
        have hsize : stop + 1 = textSize (name ++ [';']) := by
          simp only [hname, textSize, List.map_append, List.sum_append]
          rfl
        rw [← hsplit, hsize, List.append_cons]
        exact splitText?_append (name ++ [';']) rest
      rw [hbefore, hbehind]
      simp only [if_neg hnonempty]
      rfl
  | case4 text ih =>
      rw [ih, parse?]
      rcases parse? text with _ | ⟨component, rest⟩
      · rfl
      · by_cases hvoid : component = .void <;> simp [hvoid]
  | case5 => rfl

end DescriptorType

namespace MethodType

/-- The argument types, which take up all of the text. -/
def parseArgsChecked (text : List Char) : Option (Option (List DescriptorType)) :=
  if text.isEmpty then some (some [])
  else
    match h : DescriptorType.parseChecked text with
    | none => none
    | some none => some none
    | some (some (type, rest)) =>
        have : rest.length < text.length := by
          rw [DescriptorType.parseChecked_eq, Option.some.injEq] at h
          exact DescriptorType.parse?_length h
        if type = .void then some none
        else (parseArgsChecked rest).map fun types? => types?.map (type :: ·)
termination_by text.length

theorem parseArgsChecked_eq (text : List Char) :
    parseArgsChecked text = some (parseArgs? text) := by
  fun_induction parseArgsChecked text with
  | case1 text hempty => rw [parseArgs?, if_pos hempty]
  | case2 text hempty hparse =>
      rw [DescriptorType.parseChecked_eq] at hparse
      cases hparse
  | case3 text hempty hparse =>
      rw [DescriptorType.parseChecked_eq, Option.some.injEq] at hparse
      rw [parseArgs?_of_parse? hempty, hparse]
  | case4 text hempty rest hparse hlength =>
      rw [DescriptorType.parseChecked_eq, Option.some.injEq] at hparse
      rw [parseArgs?_of_parse? hempty, hparse]
      rfl
  | case5 text hempty type rest hparse hlength hvoid ih =>
      rw [DescriptorType.parseChecked_eq, Option.some.injEq] at hparse
      rw [parseArgs?_of_parse? hempty, hparse, ih]
      simp only [if_neg hvoid, Option.map_some]

def parseRetChecked (text : List Char) : Option (Option DescriptorType) :=
  if text.any (· == '\n') then some none
  else do
    match ← DescriptorType.parseChecked text with
    | some (type, []) => return some type
    | _ => return none

def parseChecked : List Char → Option (Option MethodType)
  | '(' :: inner =>
      match inner.dropWhile (· ≠ ')') with
      | [] => some none
      | _ :: outer => do
          let args? ← parseArgsChecked (inner.takeWhile (· ≠ ')'))
          let ret? ← parseRetChecked outer
          return do
            let args ← args?
            let ret ← ret?
            return { args, ret }
  | _ => some none

theorem parseRetChecked_eq (text : List Char) : parseRetChecked text = some (parseRet? text) := by
  unfold parseRetChecked parseRet?
  rw [DescriptorType.parseChecked_eq]
  split
  · rfl
  · rcases DescriptorType.parse? text with _ | ⟨type, _ | ⟨c, rest⟩⟩ <;> rfl

theorem parseChecked_eq (text : List Char) : parseChecked text = some (parse? text) := by
  unfold parseChecked
  split
  · rename_i inner
    rw [parse?]
    cases inner.dropWhile (· ≠ ')') with
    | nil => rfl
    | cons c outer =>
        simp only [parseArgsChecked_eq, parseRetChecked_eq]
        rfl
  · rename_i hparenthesis
    rw [parse?]
    exact hparenthesis

end MethodType

namespace Bytecode

/-- Decodes the bytes from an offset on, each looked up by its own offset. -/
def decodeChecked (bytes : List UInt8) (offset : Nat) (before : Array Instruction) :
    Option (Except FormatError (Array Instruction)) :=
  if offset < bytes.length then do
    let byte ← bytes[offset]?
    match Opcode.ofByte? byte with
    | none => return .error (.unsupportedOpcode byte offset)
    | some opcode =>
        let stop := offset + 1 + opcode.operandCount
        guard (stop < 2 ^ 64)
        if bytes.length < stop then
          return .error (.truncatedOperands byte offset)
        else
          let operands ← slice? bytes (offset + 1) stop
          decodeChecked bytes stop (before.push ⟨offset, opcode, operands⟩)
  else
    return .ok before
termination_by bytes.length - offset

theorem operandCount_le (opcode : Opcode) : opcode.operandCount ≤ 4 := by
  cases opcode <;> decide

theorem decodeChecked_eq {bytes : List UInt8} {offset : Nat} {before : Array Instruction}
    (hbytes : bytes.length < 2 ^ 32) (hoffset : offset ≤ bytes.length) :
    decodeChecked bytes offset before =
      some (decodeFrom offset (bytes.drop offset) before) := by
  fun_induction decodeChecked bytes offset before with
  | case1 offset before hmore ih =>
      rw [List.getElem?_eq_getElem hmore, List.drop_eq_getElem_cons hmore, decodeFrom,
        Option.bind_eq_bind, Option.bind_some]
      cases Opcode.ofByte? bytes[offset] with
      | none => rfl
      | some opcode =>
          have hcount := operandCount_le opcode
          have hfits : offset + 1 + opcode.operandCount < 2 ^ 64 := by omega
          have hrest : (bytes.drop (offset + 1)).length = bytes.length - (offset + 1) :=
            List.length_drop
          simp only [hfits, guard_true]
          by_cases hshort : bytes.length < offset + 1 + opcode.operandCount
          · have hnot : ¬hasAtLeast opcode.operandCount (bytes.drop (offset + 1)) := by
              rw [hasAtLeast_iff]
              omega
            rw [if_pos hshort, if_neg hnot]
            rfl
          · have henough : hasAtLeast opcode.operandCount (bytes.drop (offset + 1)) := by
              rw [hasAtLeast_iff]
              omega
            have hslice : slice? bytes (offset + 1) (offset + 1 + opcode.operandCount) =
                some ((bytes.drop (offset + 1)).take opcode.operandCount) := by
              rw [slice?, if_pos (by omega), Nat.add_sub_cancel_left]
            have hlength : ((bytes.drop (offset + 1)).take opcode.operandCount).length =
                opcode.operandCount := List.length_take_of_le (by omega)
            have hnext : Instruction.nextOffset ⟨offset, opcode,
                (bytes.drop (offset + 1)).take opcode.operandCount⟩ =
                  offset + 1 + opcode.operandCount := by
              simp only [Instruction.nextOffset, hlength]
            have htail := ih opcode hshort ((bytes.drop (offset + 1)).take opcode.operandCount)
              (by omega)
            rw [if_neg hshort, if_pos henough, hslice, hnext, List.drop_drop]
            exact htail
  | case2 offset before hend =>
      rw [List.drop_of_length_le (Nat.le_of_not_lt hend), decodeFrom]
      rfl

end Bytecode

namespace Program

/-- The index of the instruction at an offset, looked for among those from `low` to before
`high`. -/
def indexChecked (instructions : Array Instruction) (offset low high : Nat) :
    Option (Option Nat) :=
  if low < high then do
    let middle := low + (high - low) / 2
    let found ← instructions[middle]?
    if found.offset = offset then
      return some middle
    else if found.offset < offset then
      indexChecked instructions offset (middle + 1) high
    else
      indexChecked instructions offset low middle
  else
    return none
termination_by high - low

theorem indexChecked_of_lt {instructions : Array Instruction} {offset low high : Nat}
    {found : Instruction} (hlow : low < high)
    (hfound : instructions[low + (high - low) / 2]? = some found) :
    indexChecked instructions offset low high =
      if found.offset = offset then some (some (low + (high - low) / 2))
      else if found.offset < offset then
        indexChecked instructions offset (low + (high - low) / 2 + 1) high
      else indexChecked instructions offset low (low + (high - low) / 2) := by
  rw [indexChecked, if_pos hlow]
  simp only [hfound, Option.bind_eq_bind, Option.bind_some]
  rfl

theorem indexChecked_spec {instructions : Array Instruction} {offset low high : Nat}
    {hhigh : high ≤ instructions.size} :
    ∃ index, indexChecked instructions offset low high = some index ∧
      (∀ i, index = some i → i < instructions.size) ∧
      index.bind (instructions[·]?) = search instructions offset low high hhigh := by
  fun_induction search instructions offset low high hhigh with
  | case1 low high hhigh hlow middle hmiddle found hoffset =>
      have hfound : instructions[middle]? = some found := Array.getElem?_eq_getElem hmiddle
      refine ⟨some middle, ?_, fun i hi => Option.some.inj hi ▸ hmiddle, hfound⟩
      rw [indexChecked_of_lt hlow hfound, if_pos hoffset]
  | case2 low high hhigh hlow middle hmiddle found hne hless ih =>
      have hfound : instructions[middle]? = some found := Array.getElem?_eq_getElem hmiddle
      rw [indexChecked_of_lt hlow hfound, if_neg hne, if_pos hless]
      exact ih
  | case3 low high hhigh hlow middle hmiddle found hne hnotLess ih =>
      have hfound : instructions[middle]? = some found := Array.getElem?_eq_getElem hmiddle
      rw [indexChecked_of_lt hlow hfound, if_neg hne, if_neg hnotLess]
      exact ih
  | case4 low high hhigh hlow =>
      refine ⟨none, ?_, fun i hi => Option.some_ne_none i hi.symm |>.elim, rfl⟩
      rw [indexChecked, if_neg hlow]
      rfl

def instructionAtChecked (p : Program) (offset : Nat) : Option (Option Instruction) := do
  match ← indexChecked p.instructions offset 0 p.instructions.size with
  | none => return none
  | some index =>
      let found ← p.instructions[index]?
      return some found

theorem instructionAtChecked_eq (p : Program) (offset : Nat) :
    p.instructionAtChecked offset = some (p.instructionAt? offset) := by
  obtain ⟨index, hindex, hinside, hfound⟩ := @indexChecked_spec p.instructions offset 0
    p.instructions.size (Nat.le_refl _)
  change _ = some (search p.instructions offset 0 p.instructions.size _)
  rw [instructionAtChecked, hindex, ← hfound]
  cases index with
  | none => rfl
  | some i =>
      have hi := Array.getElem?_eq_getElem (hinside i rfl)
      simp only [Option.bind_eq_bind, Option.bind_some, hi]
      rfl

def seedLocalsChecked (slot : Nat) (locals : Array (Option Value)) :
    List DescriptorType → Option (Array (Option Value))
  | [] => some locals
  | type :: types =>
      if locals.size ≤ slot then some locals
      else do
        let locals ← set? locals slot type.zeroValue
        guard (slot + type.size < 2 ^ 64)
        seedLocalsChecked (slot + type.size) locals types

theorem seedLocalsChecked_eq {slot : Nat} {locals : Array (Option Value)}
    {types : List DescriptorType} (hlocals : locals.size < 2 ^ 16) :
    seedLocalsChecked slot locals types = some (seedLocals slot locals types) := by
  induction types generalizing slot locals with
  | nil => rfl
  | cons type types ih =>
      rw [seedLocalsChecked, seedLocals]
      by_cases hslot : slot < locals.size
      · have hsize := type.size_le
        have hfits : slot + type.size < 2 ^ 64 := by omega
        rw [if_neg (Nat.not_le_of_lt hslot), if_pos hslot, set?_of_lt hslot]
        simp only [hfits, guard_true]
        exact ih (by rwa [Array.size_setIfInBounds])
      · rw [if_pos (Nat.le_of_not_lt hslot), if_neg hslot]

def initialChecked (p : Program) : Option Machine := do
  let locals ← seedLocalsChecked 0 (Array.replicate p.code.maxLocals.toNat none) p.argTypes
  return { Machine.initial p with locals }

theorem initialChecked_eq (p : Program) : p.initialChecked = some (.initial p) := by
  have hlocals : (Array.replicate p.code.maxLocals.toNat (none : Option Value)).size < 2 ^ 16 := by
    rw [Array.size_replicate]
    exact p.code.maxLocals.toNat_lt
  rw [initialChecked, seedLocalsChecked_eq hlocals]
  rfl

end Program

namespace Code

/-- The length of a bytecode is read from four bytes. -/
theorem bytecode_length_lt {info : List UInt8} {code : Code} (h : decode info = .ok code) :
    code.bytecode.length < 2 ^ 32 := by
  unfold decode decodeWith at h
  cases hread : read.read .upFront info with
  | error error =>
      rw [hread] at h
      cases h
  | ok result =>
      obtain ⟨found, rest⟩ := result
      rw [hread] at h
      cases h
      simp only [read, Reader.read_bind_eq_ok_iff, Reader.read_pure_eq_ok_iff,
        Reader.exact_word 4 _ _ _ _ _, Reader.exact_bytes _ _ _ _ _ _] at hread
      obtain ⟨_, _, _, _, _, _, length, _, ⟨hlength, _⟩, bytecode, _, ⟨hbytecode, _⟩,
        _, _, _, _, _, _, rfl, _⟩ := hread
      change bytecode.length < 2 ^ 32
      omega

end Code

namespace Member

theorem bytecode_length_lt {m : Member} {pool : Pool} {code : Code} (h : m.code pool = .ok code) :
    code.bytecode.length < 2 ^ 32 := by
  unfold Member.code at h
  cases ha : m.codeAttribute? pool with
  | none =>
      rw [ha] at h
      cases h
  | some a =>
      cases hdecode : Code.decode a.info with
      | error error =>
          simp only [ha, hdecode] at h
          cases h
      | ok found =>
          simp only [ha, hdecode] at h
          cases h
          exact Code.bytecode_length_lt hdecode

def methodTypeChecked (m : Member) (pool : Pool) : Option (Option MethodType) :=
  match m.descriptor? pool with
  | none => some none
  | some descriptor => MethodType.parseChecked descriptor.toList

theorem methodTypeChecked_eq (m : Member) (pool : Pool) :
    m.methodTypeChecked pool = some (m.methodType? pool) := by
  unfold methodTypeChecked methodType?
  cases m.descriptor? pool with
  | none => rfl
  | some descriptor =>
      simp only [MethodType.parseChecked_eq, Option.bind_some, MethodType.ofDescriptor]
      cases MethodType.parse? descriptor.toList <;> rfl

end Member

namespace Program

def ofMethodChecked (pool : Pool) (m : Member) : Option (Except LoadError Program) :=
  match hcode : m.code pool with
  | .error error => some (.error error)
  | .ok code =>
      match h : Bytecode.decodeChecked code.bytecode 0 #[] with
      | none => none
      | some (.error error) => some (.error (.format error))
      | some (.ok instructions) => do
          let methodType ← m.methodTypeChecked pool
          return .ok (ofCode pool methodType code instructions (by
            rw [Bytecode.decodeChecked_eq (Member.bytecode_length_lt hcode) (Nat.zero_le _)] at h
            exact Option.some.inj h))

theorem ofMethodChecked_eq (pool : Pool) (m : Member) :
    ofMethodChecked pool m = some (ofMethod pool m) := by
  unfold ofMethodChecked ofMethod
  split
  · rename_i error hcode
    simp only [hcode]
  · rename_i code hcode
    have hdecode : Bytecode.decodeChecked code.bytecode 0 #[] =
        some (Bytecode.decode code.bytecode) :=
      Bytecode.decodeChecked_eq (Member.bytecode_length_lt hcode) (Nat.zero_le _)
    simp only [hcode, Member.methodTypeChecked_eq]
    split
    · rename_i h
      rw [hdecode] at h
      cases h
    · rename_i error h
      rw [hdecode, Option.some.injEq] at h
      split <;> rename_i h' <;> rw [h] at h' <;> cases h'
      rfl
    · rename_i instructions h
      rw [hdecode, Option.some.injEq] at h
      split <;> rename_i h' <;> rw [h] at h' <;> cases h'
      rfl

def ofClassFileChecked (c : ClassFile) : Option (Except LoadError Program) :=
  match c.findMethod? entryName with
  | none => some (.error (.notFound .main))
  | some m => ofMethodChecked c.pool m

theorem ofClassFileChecked_eq (c : ClassFile) :
    ofClassFileChecked c = some (ofClassFile c) := by
  unfold ofClassFileChecked ofClassFile
  cases c.findMethod? entryName with
  | none => rfl
  | some m => exact ofMethodChecked_eq c.pool m

theorem codeSize_lt {c : ClassFile} {p : Program} (h : ofClassFile c = .ok p) :
    p.codeSize < 2 ^ 32 := by
  unfold ofClassFile at h
  split at h
  · cases h
  · rename_i m hm
    unfold ofMethod at h
    split at h
    · cases h
    · rename_i code hcode
      split at h
      · cases h
      · cases h
        exact Member.bytecode_length_lt hcode

end Program

end ClassMachine
