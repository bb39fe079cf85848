import ClassMachine.Proofs.Bytecode.Tiling
import ClassMachine.Proofs.Program.Entry

/-!
# Looking up instructions

The decoded instructions of a program stand in the order of their offsets, so the
search that halves its range finds the instruction at an offset exactly when there is
one, which is when a scan from the left finds it.  An instruction that was found occurs
in the bytecode at its offset, and is followed by another one unless it is the last.
-/

namespace ClassMachine

open Bytecode

namespace Program

theorem tiling (p : Program) : Tiling 0 p.instructions.toList :=
  (decode_eq_ok_iff.mp p.decode_eq).1

theorem bytecode_eq (p : Program) : p.code.bytecode = bytesOf p.instructions.toList :=
  (decode_eq_ok_iff.mp p.decode_eq).2

theorem codeSize_eq_length (p : Program) :
    p.codeSize = (bytesOf p.instructions.toList).length := by
  rw [p.codeSize_eq, p.bytecode_eq]

theorem mem_of_search {instructions : Array Instruction} {offset low high : Nat}
    {hhigh : high ≤ instructions.size} {i : Instruction}
    (h : search instructions offset low high hhigh = some i) :
    i ∈ instructions.toList ∧ i.offset = offset := by
  fun_induction search instructions offset low high hhigh with
  | case1 low high hhigh hlow middle hmiddle found hoffset =>
      have hfound : found = i := Option.some.inj h
      subst hfound
      exact ⟨by simp [found], hoffset⟩
  | case2 low high hhigh hlow middle hmiddle found hne hless ih => exact ih h
  | case3 low high hhigh hlow middle hmiddle found hne hnotLess ih => exact ih h
  | case4 low high hhigh hlow => cases h

theorem search_of_getElem {instructions : Array Instruction} {low high : Nat}
    {hhigh : high ≤ instructions.size} {k : Nat} (hk : k < instructions.size)
    (hsorted : ∀ {a b : Nat} (ha : a < instructions.size) (hb : b < instructions.size), a < b →
      instructions[a].offset < instructions[b].offset)
    (hlower : low ≤ k) (hupper : k < high) :
    search instructions instructions[k].offset low high hhigh = some instructions[k] := by
  fun_induction search instructions instructions[k].offset low high hhigh with
  | case1 low high hhigh hlow middle hmiddle found hoffset =>
      obtain hbefore | rfl | hafter := Nat.lt_trichotomy k middle
      · exact absurd hoffset (hsorted hk hmiddle hbefore).ne'
      · rfl
      · exact absurd hoffset (hsorted hmiddle hk hafter).ne
  | case2 low high hhigh hlow middle hmiddle found hne hless ih =>
      -- up to the middle everything starts too early
      have hafter : middle < k := by
        by_contra hle
        obtain hbefore | rfl := Nat.lt_or_eq_of_le (Nat.le_of_not_lt hle)
        · exact absurd hless (hsorted hk hmiddle hbefore).asymm
        · exact hne rfl
      exact ih hafter hupper
  | case3 low high hhigh hlow middle hmiddle found hne hnotLess ih =>
      -- from the middle on everything starts too late
      have hbefore : k < middle := by
        by_contra hge
        obtain hafter | rfl := Nat.lt_or_eq_of_le (Nat.le_of_not_lt hge)
        · exact hnotLess (hsorted hmiddle hk hafter)
        · exact hne rfl
      exact ih hlower hbefore
  | case4 low high hhigh hlow => omega

theorem offset_lt_offset (p : Program) {j k : Nat} (hj : j < p.instructions.size)
    (hk : k < p.instructions.size) (hjk : j < k) :
    p.instructions[j].offset < p.instructions[k].offset := by
  have hsorted := List.pairwise_iff_getElem.mp p.tiling.pairwise_offset j k
    (by rwa [Array.length_toList]) (by rwa [Array.length_toList]) hjk
  simpa only [Array.getElem_toList] using hsorted

/-- No two instructions have one offset. -/
theorem index_eq_of_offset_eq {p : Program} {j k : Nat} {i other : Instruction}
    (hi : p.instructions[j]? = some i) (hother : p.instructions[k]? = some other)
    (hoffset : i.offset = other.offset) : j = k := by
  rcases Array.getElem?_eq_some_iff.mp hi with ⟨hj, rfl⟩
  rcases Array.getElem?_eq_some_iff.mp hother with ⟨hk, rfl⟩
  by_contra hne
  rcases Nat.lt_or_gt_of_ne hne with hbefore | hbehind
  · exact (p.offset_lt_offset hj hk hbefore).ne hoffset
  · exact (p.offset_lt_offset hk hj hbehind).ne hoffset.symm

theorem instructionAt?_eq_some_iff {p : Program} {offset : Nat} {i : Instruction} :
    p.instructionAt? offset = some i ↔ i ∈ p.instructions.toList ∧ i.offset = offset := by
  unfold instructionAt?
  constructor
  · exact mem_of_search
  · rintro ⟨hi, rfl⟩
    obtain ⟨k, hk, rfl⟩ := List.mem_iff_getElem.mp hi
    rw [Array.length_toList] at hk
    rw [Array.getElem_toList]
    exact search_of_getElem hk p.offset_lt_offset (Nat.zero_le k) hk

theorem instructionAt?_eq_find? (p : Program) (offset : Nat) :
    p.instructionAt? offset = p.instructions.find? (fun i => i.offset == offset) := by
  rw [← Array.find?_toList]
  cases hfound : p.instructions.toList.find? (fun i => i.offset == offset) with
  | none =>
      have hmissing := List.find?_eq_none.mp hfound
      rw [Option.eq_none_iff_forall_ne_some]
      intro i hi
      rcases instructionAt?_eq_some_iff.mp hi with ⟨hmem, hoffset⟩
      exact hmissing i hmem (beq_iff_eq.mpr hoffset)
  | some i =>
      have hoffset : i.offset = offset := by simpa using List.find?_some hfound
      exact instructionAt?_eq_some_iff.mpr ⟨List.mem_of_find?_eq_some hfound, hoffset⟩

theorem offset_of_instructionAt? {p : Program} {offset : Nat} {i : Instruction}
    (h : p.instructionAt? offset = some i) : i.offset = offset :=
  (instructionAt?_eq_some_iff.mp h).2

theorem operands_length {p : Program} {offset : Nat} {i : Instruction}
    (h : p.instructionAt? offset = some i) : i.operands.length = i.opcode.operandCount :=
  p.tiling.operands_length (instructionAt?_eq_some_iff.mp h).1

theorem exists_split {p : Program} {offset : Nat} {i : Instruction}
    (h : p.instructionAt? offset = some i) :
    ∃ before after, p.instructions.toList = before ++ i :: after ∧
      (bytesOf before).length = offset ∧ Tiling i.nextOffset after := by
  obtain ⟨hi, hoffset⟩ := instructionAt?_eq_some_iff.mp h
  obtain ⟨before, after, hsplit⟩ := List.append_of_mem hi
  have htiling := p.tiling
  rw [hsplit] at htiling
  obtain ⟨_, hafter⟩ := Tiling.append_iff.mp htiling
  obtain ⟨hstart, _, hrest⟩ := Tiling.cons_iff.mp hafter
  refine ⟨before, after, hsplit, ?_, hrest⟩
  rw [← hoffset, hstart, Nat.zero_add]

theorem drop_bytecode {p : Program} {offset : Nat} {i : Instruction}
    (h : p.instructionAt? offset = some i) :
    ∃ rest, p.code.bytecode.drop offset = i.opcode.byte :: (i.operands ++ rest) := by
  obtain ⟨before, after, hsplit, hlength, _⟩ := exists_split h
  refine ⟨bytesOf after, ?_⟩
  rw [p.bytecode_eq, hsplit, bytesOf_append, ← hlength, List.drop_left, bytesOf_cons]

theorem nextOffset_le_codeSize {p : Program} {offset : Nat} {i : Instruction}
    (h : p.instructionAt? offset = some i) : i.nextOffset ≤ p.codeSize := by
  obtain ⟨before, after, hsplit, hlength, _⟩ := exists_split h
  rw [codeSize_eq_length, hsplit, Instruction.nextOffset, offset_of_instructionAt? h]
  simp only [bytesOf_append, bytesOf_cons, List.length_append, List.length_cons, hlength]
  omega

theorem offset_lt_codeSize {p : Program} {offset : Nat} {i : Instruction}
    (h : p.instructionAt? offset = some i) : offset < p.codeSize := by
  have := nextOffset_le_codeSize h
  rw [Instruction.nextOffset, offset_of_instructionAt? h] at this
  omega

/-- Behind an instruction stands another one, or the end of the bytecode. -/
theorem nextOffset_eq_codeSize_or {p : Program} {offset : Nat} {i : Instruction}
    (h : p.instructionAt? offset = some i) :
    i.nextOffset = p.codeSize ∨ ∃ next, p.instructionAt? i.nextOffset = some next := by
  obtain ⟨before, after, hsplit, hlength, htiling⟩ := exists_split h
  cases after with
  | nil =>
      left
      rw [codeSize_eq_length, hsplit, Instruction.nextOffset, offset_of_instructionAt? h]
      simp only [bytesOf_append, bytesOf_cons, bytesOf_nil, List.append_nil, List.length_append,
        List.length_cons, hlength]
      omega
  | cons next after =>
      right
      obtain ⟨hnext, _, _⟩ := Tiling.cons_iff.mp htiling
      refine ⟨next, instructionAt?_eq_some_iff.mpr ⟨?_, hnext⟩⟩
      rw [hsplit]
      simp

/-- The instructions of a program are those that the bytecode of its entry method decodes to.  At any
offset, looking up and scanning them from the left find the same one, which is the only one that
starts there, and they find none when none does. -/
theorem instructionAt?_of_ofClassFile {c : ClassFile} {p : Program} (h : ofClassFile c = .ok p) :
    (∃ m code, c.findMethod? entryName = some m ∧ m.code c.pool = .ok code ∧
        decode code.bytecode = .ok p.instructions) ∧
      ∀ offset,
        p.instructionAt? offset = p.instructions.find? (fun i => i.offset == offset) ∧
        (∀ i, p.instructionAt? offset = some i ↔
          ∃ k : Nat, p.instructions[k]? = some i ∧ i.offset = offset ∧
            ∀ (j : Nat) (other : Instruction),
              p.instructions[j]? = some other → other.offset = offset → j = k) ∧
        (p.instructionAt? offset = none ↔ ∀ i ∈ p.instructions, i.offset ≠ offset) := by
  constructor
  · rcases ofClassFile_eq_ok_iff.mp h with ⟨m, code, instructions, hdecode, hfound, hcode, rfl⟩
    exact ⟨m, code, hfound, hcode, hdecode⟩
  · intro offset
    refine ⟨p.instructionAt?_eq_find? offset, ?_, ?_⟩
    · intro i
      rw [instructionAt?_eq_some_iff, Array.mem_toList_iff, Array.mem_iff_getElem?]
      constructor
      · rintro ⟨⟨k, hk⟩, rfl⟩
        exact ⟨k, hk, rfl, fun j other hother hoffset => index_eq_of_offset_eq hother hk hoffset⟩
      · rintro ⟨k, hk, hoffset, _⟩
        exact ⟨⟨k, hk⟩, hoffset⟩
    · simp [instructionAt?_eq_find?]

/-- The operand of the first instruction is the byte of a return, which is found at its own offset
only.  Nothing starts within the second instruction, nor at the end. -/
theorem instructionAt?_of_ofClassFile_within :
    let code : Code := ⟨2, 0, [0x10, 0xb1, 0x11, 0x01, 0x02, 0xb1], [], []⟩
    let m : Member := ⟨9, 1, 2, [code.toAttribute 3]⟩
    let c : ClassFile :=
      { magic := ClassFile.magicNumber
        minorVersion := 0
        majorVersion := 52
        pool := ⟨#[none, some (.utf8 "main"), some (.utf8 "()V"), some (.utf8 "Code")]⟩
        accessFlags := 0x21
        thisClass := 0
        superClass := 0
        interfaces := []
        fields := []
        methods := [m]
        attributes := [] }
    let p := ofCode c.pool (some ⟨[], .void⟩) code
      #[⟨0, .bipush, [0xb1]⟩, ⟨2, .sipush, [0x01, 0x02]⟩, ⟨5, .returnVoid, []⟩] (by decide +kernel)
    ofClassFile c = .ok p ∧ p.instructionAt? 2 = some ⟨2, .sipush, [0x01, 0x02]⟩ ∧
      p.instructionAt? 5 = some ⟨5, .returnVoid, []⟩ ∧ p.instructionAt? 1 = none ∧
        p.instructionAt? 4 = none ∧ p.instructionAt? 6 = none := by
  intro code m c p
  have hprogram : ofClassFile c = .ok p := by
    have htype : m.methodType? c.pool = some ⟨[], .void⟩ := by decide +kernel
    have hcode : m.code c.pool = .ok code :=
      Member.code_eq_ok_iff.mpr ⟨code.toAttribute 3, by decide +kernel, by decide +kernel⟩
    rw [ofClassFile_eq_ok_iff]
    exact ⟨m, code, _, p.decode_eq, by decide +kernel, hcode, by rw [htype]; rfl⟩
  rcases instructionAt?_of_ofClassFile hprogram with ⟨_, hlookup⟩
  have hstarts : ∀ i ∈ p.instructions, i.offset = 0 ∨ i.offset = 2 ∨ i.offset = 5 := by
    simp [p, ofCode]
  have hnone : ∀ offset, offset ≠ 0 → offset ≠ 2 → offset ≠ 5 → p.instructionAt? offset = none := by
    intro offset hzero htwo hfive
    apply (hlookup offset).2.2.mpr
    rintro i hi rfl
    rcases hstarts i hi with hoffset | hoffset | hoffset
    · exact hzero hoffset
    · exact htwo hoffset
    · exact hfive hoffset
  exact ⟨hprogram, (hlookup 2).1.trans rfl, (hlookup 5).1.trans rfl,
    hnone 1 (by decide) (by decide) (by decide), hnone 4 (by decide) (by decide) (by decide),
    hnone 6 (by decide) (by decide) (by decide)⟩

end Program

end ClassMachine
