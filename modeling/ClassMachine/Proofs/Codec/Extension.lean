import ClassMachine.Proofs.Codec.ClassFiles

/-!
# Extending class files

Pushing a constant onto a pool goes on behind its last slot.  So a pool that was read can be
extended when that slot is there and is no half of a wide constant without the other.  Reading
accepts two kinds of pools that are not complete in this sense, one without any slot and one with
a wide constant in the last slot.  What is pushed onto them comes to stand in the reserved slot,
or in the one behind the wide constant, and the result cannot be read back.
-/

namespace ClassMachine

namespace Pool

/-- Pushing the constant makes it the one at the next index, and keeps those at other indices. -/
structure Takes (pool : Pool) (constant : Constant) : Prop where
  get_nextIndex : (pool.push constant).get pool.nextIndex = .ok constant
  get_push : ∀ index found, pool.get index = .ok found → (pool.push constant).get index = .ok found

/-- No constant can be found behind a wide one. -/
def HidesHalves (pool : Pool) : Prop :=
  ∀ index wide, pool.get index = .ok wide → wide.isWide = true →
    ∀ found, pool.get (index + 1) ≠ .ok found

/-- The pool has a slot, and the last one does not hold a wide constant. -/
def IsComplete (pool : Pool) : Prop :=
  ∃ slot, pool.slots.back? = some slot ∧ ∀ constant, slot = some constant → constant.isWide = false

theorem get_eq_ok_iff {pool : Pool} {index : UInt16} {constant : Constant} :
    pool.get index = .ok constant ↔
      index ≠ 0 ∧ pool.slots.toList[index.toNat]? = some (some constant) := by
  unfold get
  rw [Array.getElem?_toList]
  split
  next hzero => simp [hzero]
  next hzero =>
    rcases pool.slots[index.toNat]? with _ | _ | found <;> simp [hzero]

theorem get_push {pool : Pool} {index : UInt16} {found : Constant} (constant : Constant)
    (h : pool.get index = .ok found) : (pool.push constant).get index = .ok found := by
  obtain ⟨hzero, hslot⟩ := get_eq_ok_iff.mp h
  refine get_eq_ok_iff.mpr ⟨hzero, ?_⟩
  obtain ⟨hindex, _⟩ := List.getElem?_eq_some_iff.mp hslot
  rw [slots_push, List.getElem?_append_left hindex, hslot]

theorem slots_push_size (pool : Pool) (constant : Constant) :
    (pool.push constant).slots.toList[pool.size]? = some (some constant) := by
  rw [slots_push, size, ← Array.length_toList, List.getElem?_append_right (Nat.le_refl _),
    Nat.sub_self, pushed]
  split <;> rfl

theorem get_push_nextIndex {pool : Pool} (constant : Constant) (hpositive : 0 < pool.size)
    (hsize : pool.size < 65536) : (pool.push constant).get pool.nextIndex = .ok constant := by
  have hindex : pool.nextIndex.toNat = pool.size := UInt16.toNat_ofNat_of_lt' hsize
  refine get_eq_ok_iff.mpr ⟨?_, ?_⟩
  · intro hzero
    rw [hzero] at hindex
    exact absurd hindex hpositive.ne
  · rw [hindex, slots_push_size]

namespace Row

/-- In a row, and behind a slot in front of it that is not wide, the empty slots are those behind
wide constants. -/
theorem getElem?_succ_eq_none_iff {slot : Option Constant} {row : List (Option Constant)}
    (h : Row row) {k : Nat}
    (hslot : ∀ constant, slot = some constant → constant.isWide = false) :
    (slot :: row)[k + 1]? = some none ↔
      k + 1 < (slot :: row).length ∧
        ∃ wide, (slot :: row)[k]? = some (some wide) ∧ wide.isWide = true := by
  induction h generalizing slot k with
  | nil => simp
  | @narrow constant row hnarrow hrow ih =>
      cases k with
      | zero => simpa using hslot
      | succ k =>
          have hbehind : ∀ found, some constant = some found → found.isWide = false := by
            simpa using hnarrow
          simpa using ih hbehind (k := k)
  | @wide constant row hwide hrow ih =>
      match k with
      | 0 => simpa using hslot
      | 1 => simpa using hwide
      | k + 2 =>
          have hbehind : ∀ found : Constant, none = some found → found.isWide = false := by simp
          simpa using ih hbehind (k := k)
  | @lastWide constant hwide =>
      cases k with
      | zero => simpa using hslot
      | succ k => simp

/-- Behind a wide constant of a row stands an empty slot, or nothing. -/
theorem getElem?_succ {row : List (Option Constant)} (h : Row row) {k : Nat} {wide : Constant}
    (hslot : row[k]? = some (some wide)) (hwide : wide.isWide = true) (found : Constant) :
    row[k + 1]? ≠ some (some found) := by
  intro hfound
  have hbehind : k + 1 < row.length := (List.getElem?_eq_some_iff.mp hfound).1
  have hempty : (none :: row)[k + 1 + 1]? = some none := by
    rw [h.getElem?_succ_eq_none_iff (by simp)]
    exact ⟨by simpa using hbehind, wide, hslot, hwide⟩
  rw [List.getElem?_cons_succ, hfound] at hempty
  cases hempty

theorem append {row other : List (Option Constant)} (h : Row row)
    (hlast : ∀ constant, row.getLast? = some (some constant) → constant.isWide = false)
    (hother : Row other) : Row (row ++ other) := by
  induction h with
  | nil => exact hother
  | @narrow constant row hnarrow hrow ih =>
      refine .narrow hnarrow (ih fun found hfound => hlast found ?_)
      rw [List.getLast?_cons, hfound, Option.getD_some]
  | @wide constant row hwide hrow ih =>
      refine .wide hwide (ih fun found hfound => hlast found ?_)
      rw [List.getLast?_cons, List.getLast?_cons, hfound, Option.getD_some, Option.getD_some]
  | @lastWide constant hwide =>
      have hnarrow := hlast constant rfl
      rw [hwide] at hnarrow
      cases hnarrow

end Row

theorem hidesHalves_of_row {pool : Pool} {row : List (Option Constant)}
    (hslots : pool.slots.toList = none :: row) (hrow : Row row) (hsize : pool.size ≤ 65535) :
    pool.HidesHalves := by
  intro index wide hget hwide found hfound
  obtain ⟨hzero, hslot⟩ := get_eq_ok_iff.mp hget
  obtain ⟨_, hnext⟩ := get_eq_ok_iff.mp hfound
  obtain ⟨k, hk⟩ : ∃ k, index.toNat = k + 1 :=
    Nat.exists_eq_succ_of_ne_zero fun htoNat => hzero (UInt16.toNat_inj.mp htoNat)
  have hindex : (index + 1).toNat = k + 2 := by
    obtain ⟨hlt, _⟩ := List.getElem?_eq_some_iff.mp hslot
    rw [Array.length_toList, ← size] at hlt
    rw [UInt16.toNat_add, UInt16.toNat_one]
    omega
  rw [hslots, hk, List.getElem?_cons_succ] at hslot
  rw [hslots, hindex, List.getElem?_cons_succ] at hnext
  exact hrow.getElem?_succ hslot hwide found hnext

theorem Fits.hidesHalves {pool : Pool} (h : pool.Fits) : pool.HidesHalves := by
  obtain hslots | ⟨row, hrow, hslots⟩ := h.slots_eq
  · intro index wide hget
    obtain ⟨_, hslot⟩ := get_eq_ok_iff.mp hget
    rw [hslots] at hslot
    cases hslot
  · exact hidesHalves_of_row hslots hrow (Nat.le_of_lt_succ h.size_lt)

theorem isComplete_iff_of_row {pool : Pool} {row : List (Option Constant)}
    (hslots : pool.slots.toList = none :: row) :
    pool.IsComplete ↔
      ∀ constant, row.getLast? = some (some constant) → constant.isWide = false := by
  have hback : pool.slots.back? = some (row.getLast?.getD none) := by
    rw [← Array.getLast?_toList, hslots, List.getLast?_cons]
  constructor
  · rintro ⟨slot, hslot, hnarrow⟩ constant hlast
    rw [hback, hlast, Option.getD_some, Option.some.injEq] at hslot
    exact hnarrow constant hslot.symm
  · intro hlast
    refine ⟨_, hback, fun constant hconstant => hlast constant ?_⟩
    cases hrow : row.getLast? with
    | none =>
        rw [hrow] at hconstant
        cases hconstant
    | some slot =>
        rw [hrow, Option.getD_some] at hconstant
        rw [hconstant]

/-- What is pushed onto a complete pool continues its row. -/
theorem exists_row_of_isComplete {pool : Pool} (hfits : pool.Fits) (hcomplete : pool.IsComplete)
    (constants : List Constant) :
    ∃ row, Row row ∧ (constants.foldl push pool).slots.toList = none :: row := by
  obtain hslots | ⟨row, hrow, hslots⟩ := hfits.slots_eq
  · obtain ⟨slot, hslot, _⟩ := hcomplete
    rw [← Array.getLast?_toList, hslots] at hslot
    cases hslot
  · have hlast := (isComplete_iff_of_row hslots).mp hcomplete
    refine ⟨row ++ constants.flatMap pushed, hrow.append hlast (row_flatMap_pushed constants), ?_⟩
    rw [slots_foldl_push, hslots, List.cons_append]

theorem fits_foldl_push {pool : Pool} {constants : List Constant} (hfits : pool.Fits)
    (hcomplete : pool.IsComplete) (hconstants : ∀ constant ∈ constants, constant.Fits)
    (hsize : (constants.foldl push pool).size < 65536) : (constants.foldl push pool).Fits := by
  obtain ⟨row, hrow, hslots⟩ := exists_row_of_isComplete hfits hcomplete constants
  refine ⟨.inr ⟨row, hrow, hslots⟩, hsize, ?_⟩
  intro constant hmem
  rw [slots_foldl_push, List.mem_append, some_mem_flatMap_pushed] at hmem
  obtain hmem | hmem := hmem
  · exact hfits.rowFits constant hmem
  · exact hconstants constant hmem

theorem size_foldl_push_le (pool : Pool) (before after : List Constant) :
    (before.foldl push pool).size ≤ ((before ++ after).foldl push pool).size := by
  have hlength : ∀ constants : List Constant, (constants.foldl push pool).size =
      pool.slots.toList.length + (constants.flatMap pushed).length := by
    intro constants
    rw [size, ← Array.length_toList, slots_foldl_push, List.length_append]
  rw [hlength, hlength, List.flatMap_append, List.length_append]
  omega

theorem takes_foldl_push {pool : Pool} {constants : List Constant} (hfits : pool.Fits)
    (hcomplete : pool.IsComplete) (hsize : (constants.foldl push pool).size < 65536)
    (constant : Constant) : (constants.foldl push pool).Takes constant := by
  obtain ⟨row, _, hslots⟩ := exists_row_of_isComplete hfits hcomplete constants
  have hpositive : 0 < (constants.foldl push pool).size := by
    rw [size, ← Array.length_toList, hslots]
    exact Nat.succ_pos _
  exact ⟨get_push_nextIndex constant hpositive hsize, fun _ _ => get_push constant⟩

/-- A pool on which a push does what it should is complete. -/
theorem isComplete_of_takes {pool : Pool} {constant : Constant} (hfits : pool.Fits)
    (htakes : pool.Takes constant) (hhides : (pool.push constant).HidesHalves) :
    pool.IsComplete := by
  obtain hslots | ⟨row, hrow, hslots⟩ := hfits.slots_eq
  · obtain ⟨hnonzero, _⟩ := get_eq_ok_iff.mp htakes.get_nextIndex
    have hnextIndex : pool.nextIndex = 0 := by
      rw [nextIndex, size, ← Array.length_toList, hslots]
      rfl
    exact absurd hnextIndex hnonzero
  · have hsize : pool.size = row.length + 1 := by
      rw [size, ← Array.length_toList, hslots, List.length_cons]
    have hlt := hfits.size_lt
    refine (isComplete_iff_of_row hslots).mpr fun wide hlast => ?_
    -- behind a wide constant in the last slot the next index is that of its second half
    by_contra hwide
    have hindex : pool.nextIndex = UInt16.ofNat row.length + 1 := by
      rw [nextIndex, hsize, UInt16.ofNat_add]
      rfl
    have hget : pool.get (UInt16.ofNat row.length) = .ok wide := by
      have hlength : (UInt16.ofNat row.length).toNat = row.length :=
        UInt16.toNat_ofNat_of_lt' (by omega : row.length < 65536)
      obtain ⟨k, hk⟩ : ∃ k, row.length = k + 1 :=
        Nat.exists_eq_succ_of_ne_zero fun hzero => by
          rw [List.length_eq_zero_iff.mp hzero] at hlast
          cases hlast
      refine get_eq_ok_iff.mpr ⟨fun hzero => ?_, ?_⟩
      · rw [hzero, hk] at hlength
        cases hlength
      · rw [hlength, hslots, hk, List.getElem?_cons_succ, ← hlast, List.getLast?_eq_getElem?, hk]
        rfl
    refine hhides _ wide (get_push constant hget) (Bool.eq_true_of_not_eq_false hwide) constant ?_
    rw [← hindex]
    exact htakes.get_nextIndex

end Pool

namespace ClassFile

/-- The class file with some constants pushed onto its pool, one after the other. -/
def extended (c : ClassFile) (constants : List Constant) : ClassFile :=
  { c with pool := constants.foldl Pool.push c.pool }

/-- The constants can be pushed onto the pool of the class file, and the result be read back. -/
structure IsExtensible (c : ClassFile) (constants : List Constant) : Prop where
  takes : ∀ before constant after, constants = before ++ constant :: after →
    (c.extended before).pool.Takes constant
  hidesHalves : ∀ before after, constants = before ++ after → (c.extended before).pool.HidesHalves
  parse_toBytes : parse (c.extended constants).toBytes = .ok (c.extended constants)

/-- A parsed class file can be extended exactly when its pool is complete. -/
theorem isExtensible_iff_of_parse {bytes : List UInt8} {c : ClassFile} {constants : List Constant}
    (hparse : parse bytes = .ok c)
    (htexts : ∀ text, Constant.utf8 text ∈ constants → text.utf8ByteSize ≤ 65535)
    (hsize : (c.extended constants).pool.size ≤ 65535) :
    c.IsExtensible constants ↔ constants = [] ∨ c.pool.IsComplete := by
  have hfits : c.Fits := (parseWith_eq_ok_iff.mp hparse).1
  have hconstants : ∀ constant ∈ constants, constant.Fits := Constant.fits_of_texts htexts
  constructor
  · intro h
    cases constants with
    | nil => exact .inl rfl
    | cons constant rest =>
        have htakes : c.pool.Takes constant := h.takes [] constant rest rfl
        have hhides : (c.pool.push constant).HidesHalves := h.hidesHalves [constant] rest rfl
        exact .inr (Pool.isComplete_of_takes hfits.pool htakes hhides)
  · intro h
    have hkeeps : ∀ before after, constants = before ++ after → (c.extended before).pool.Fits := by
      rintro before after rfl
      have hbefore : (c.extended before).pool.size < 65536 :=
        Nat.lt_succ_of_le ((Pool.size_foldl_push_le c.pool before after).trans hsize)
      obtain hnil | hcomplete := h
      · rw [List.append_eq_nil_iff] at hnil
        rw [hnil.1]
        exact hfits.pool
      · exact Pool.fits_foldl_push hfits.pool hcomplete
          (fun constant hmem => hconstants constant (List.mem_append_left after hmem)) hbefore
    have hextended : (c.extended constants).pool.Fits :=
      hkeeps constants [] (List.append_nil constants).symm
    refine ⟨?_, ?_, parseWith_eq_ok_iff.mpr ⟨{ hfits with pool := hextended }, rfl⟩⟩
    · rintro before constant after rfl
      have hcomplete : c.pool.IsComplete := h.resolve_left (by simp)
      exact Pool.takes_foldl_push hfits.pool hcomplete (hkeeps before _ rfl).size_lt constant
    · intro before after hsplit
      exact (hkeeps before after hsplit).hidesHalves

/-- Wide constants end up in the middle and at the end, and a text between them. -/
theorem isExtensible_of_parse_narrowEnd :
    let bytes : List UInt8 :=
      [0xca, 0xfe, 0xba, 0xbe, 0, 0, 0, 52, 0, 4, 0x05, 0, 0, 0, 0, 0, 0, 0, 5, 0x01, 0, 1, 0x41,
        0, 0x21, 0, 0, 0, 0, 0, 0, 0, 0, 0, 0, 0, 0]
    let c : ClassFile :=
      { magic := magicNumber
        minorVersion := 0
        majorVersion := 52
        pool := ⟨#[none, some (.long 5), none, some (.utf8 "A")]⟩
        accessFlags := 0x21
        thisClass := 0
        superClass := 0
        interfaces := []
        fields := []
        methods := []
        attributes := [] }
    let constants : List Constant := [.double ⟨0x7ff800000000002a⟩, .utf8 "é", .long (-1)]
    parse bytes = .ok c ∧ (c.extended constants).pool.size = 9 ∧ c.IsExtensible constants := by
  intro bytes c constants
  have hparse : parse bytes = .ok c := by decide +kernel
  have htexts : ∀ text, Constant.utf8 text ∈ constants → text.utf8ByteSize ≤ 65535 := by
    intro text hmem
    have htext : text = "é" := by simpa [constants] using hmem
    rw [htext]
    decide
  have hcomplete : c.pool.IsComplete := ⟨some (.utf8 "A"), rfl, by rintro _ ⟨⟩; rfl⟩
  exact ⟨hparse, rfl,
    (isExtensible_iff_of_parse hparse htexts (by decide)).mpr (.inr hcomplete)⟩

/-- An integer pushed behind a wide constant in the last slot is found in its second half, and
one that is pushed onto a pool without slots is not found at all. -/
theorem not_isExtensible_of_parse :
    let lastWide : List UInt8 :=
      [0xca, 0xfe, 0xba, 0xbe, 0, 0, 0, 52, 0, 2, 0x05, 0, 0, 0, 0, 0, 0, 0, 5,
        0, 0x21, 0, 0, 0, 0, 0, 0, 0, 0, 0, 0, 0, 0]
    let noSlots : List UInt8 :=
      [0xca, 0xfe, 0xba, 0xbe, 0, 0, 0, 52, 0, 0,
        0, 0x21, 0, 0, 0, 0, 0, 0, 0, 0, 0, 0, 0, 0]
    let c (pool : Pool) : ClassFile :=
      { magic := magicNumber
        minorVersion := 0
        majorVersion := 52
        pool
        accessFlags := 0x21
        thisClass := 0
        superClass := 0
        interfaces := []
        fields := []
        methods := []
        attributes := [] }
    (parse lastWide = .ok (c ⟨#[none, some (.long 5)]⟩) ∧
        ¬(c ⟨#[none, some (.long 5)]⟩).IsExtensible [.integer 7]) ∧
      parse noSlots = .ok (c ⟨#[]⟩) ∧ ¬(c ⟨#[]⟩).IsExtensible [.integer 7] := by
  intro lastWide noSlots c
  refine ⟨⟨by decide +kernel, fun h => ?_⟩, by decide +kernel, fun h => ?_⟩
  · exact h.hidesHalves [.integer 7] [] rfl 1 (.long 5) rfl rfl (.integer 7) rfl
  · have hget := (h.takes [] (.integer 7) [] rfl).get_nextIndex
    cases hget

end ClassFile

end ClassMachine
