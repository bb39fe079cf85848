import ClassMachine.Proofs.Codec.Extension

/-!
# Addresses in pools

A constant is found at the index of its slot, by iterating as well as by looking it up, and no two
slots have one index.  What is found at no index is the reserved slot, the second half of a wide
constant, or behind the last slot.

Pushing constants and reading their written forms number the slots in the same way.  Each constant
comes to stand behind the slots of those before it.
-/

namespace ClassMachine

open Reader

namespace Pool

/-- Iterating and looking up find the same constants, and a look-up that fails says what its index
is the index of. -/
structure Addressed (pool : Pool) : Prop where
  increasing : pool.entries.Pairwise fun first second => first.1 < second.1
  mem_entries : ∀ index constant,
    (index, constant) ∈ pool.entries ↔ pool.get index = .ok constant
  error_cases : ∀ index error, pool.get index = .error error →
    error = .reserved ∨ error = .outOfRange index ∨ error = .placeholder index
  reserved : ∀ index, pool.get index = .error .reserved ↔ index = 0
  outOfRange : ∀ index, pool.get index = .error (.outOfRange index) ↔
    index ≠ 0 ∧ pool.size ≤ index.toNat
  placeholder : ∀ index, pool.get index = .error (.placeholder index) ↔
    0 < index.toNat ∧ index.toNat < pool.size ∧
      ((∃ value, pool.get (index - 1) = .ok (.long value)) ∨
        ∃ value, pool.get (index - 1) = .ok (.double value))

/-- The pool has no slot, or the reserved one and a row. -/
def Arranged (pool : Pool) : Prop :=
  pool.slots.toList = [] ∨ ∃ row, Row row ∧ pool.slots.toList = none :: row

/-- The pool was built by pushing constants, or it was read. -/
inductive Made : Pool → Prop where
  | pushed (constants : List Constant) : Made (ofConstants constants)
  | read {bytes rest : List UInt8} {pool : Pool} :
      Pool.read.read .upFront bytes = .ok (pool, rest) → Made pool

/-- The number of slots that constants take. -/
def slotCount (constants : List Constant) : Nat :=
  (constants.map Constant.slots).sum

variable {pool : Pool} {index : UInt16} {slots row : List (Option Constant)}
variable {constant : Constant} {constants : List Constant} {start k : Nat}

/-! ## Iterating -/

theorem mem_entriesFrom :
    (index, constant) ∈ entriesFrom start slots ↔
      ∃ k, slots[k]? = some (some constant) ∧ index = UInt16.ofNat (start + k) := by
  induction slots generalizing start with
  | nil => simp [entriesFrom]
  | cons slot slots ih =>
      rw [← Nat.or_exists_add_one]
      cases slot with
      | none => simp [entriesFrom, ih, Nat.add_assoc, Nat.add_comm 1]
      | some found => simp [entriesFrom, ih, Nat.add_assoc, Nat.add_comm 1, and_comm, eq_comm]

/-- Indices increase along the slots as long as they do not wrap around. -/
theorem pairwise_entriesFrom (h : start + slots.length ≤ 65536) :
    (entriesFrom start slots).Pairwise fun first second => first.1 < second.1 := by
  induction slots generalizing start with
  | nil => simp [entriesFrom]
  | cons slot slots ih =>
      rw [List.length_cons] at h
      have hlater : (entriesFrom (start + 1) slots).Pairwise fun first second =>
          first.1 < second.1 := ih (by omega)
      cases slot with
      | none => exact hlater
      | some constant =>
          rw [entriesFrom, List.pairwise_cons]
          refine ⟨?_, hlater⟩
          rintro ⟨index, other⟩ hother
          rcases mem_entriesFrom.mp hother with ⟨k, hslot, rfl⟩
          rcases List.getElem?_eq_some_iff.mp hslot with ⟨hk, _⟩
          rw [UInt16.lt_iff_toNat_lt]
          simp only [UInt16.toNat_ofNat']
          omega

/-! ## Looking up -/

theorem get_eq_error_iff {error : IndexError} :
    pool.get index = .error error ↔
      (index = 0 ∧ error = .reserved) ∨
        (index ≠ 0 ∧ pool.size ≤ index.toNat ∧ error = .outOfRange index) ∨
        (index ≠ 0 ∧ pool.slots.toList[index.toNat]? = some none ∧ error = .placeholder index) := by
  have hnone : pool.size ≤ index.toNat ↔ pool.slots[index.toNat]? = none := by simp [size]
  rw [hnone, Array.getElem?_toList]
  unfold get
  by_cases hzero : index = 0
  · simp [hzero, eq_comm]
  · rcases pool.slots[index.toNat]? with _ | _ | constant <;> simp [hzero, eq_comm]

theorem exists_wide_iff {motive : Constant → Prop} :
    (∃ wide, motive wide ∧ wide.isWide = true) ↔
      (∃ value, motive (.long value)) ∨ ∃ value, motive (.double value) := by
  constructor
  · rintro ⟨wide, hwide, htag⟩
    cases wide with
    | long value => exact .inl ⟨value, hwide⟩
    | double value => exact .inr ⟨value, hwide⟩
    | _ => cases htag
  · rintro (⟨value, hvalue⟩ | ⟨value, hvalue⟩)
    · exact ⟨.long value, hvalue, rfl⟩
    · exact ⟨.double value, hvalue, rfl⟩

namespace Arranged

theorem getElem?_zero_ne (h : pool.Arranged) (constant : Constant) :
    pool.slots.toList[0]? ≠ some (some constant) := by
  rcases h with hslots | ⟨row, _, hslots⟩ <;> simp [hslots]

theorem get_eq_ok_iff (h : pool.Arranged) :
    pool.get index = .ok constant ↔ pool.slots.toList[index.toNat]? = some (some constant) := by
  rw [Pool.get_eq_ok_iff, and_iff_right_iff_imp]
  rintro hslot rfl
  exact h.getElem?_zero_ne constant hslot

theorem getElem?_succ_eq_none_iff (h : pool.Arranged) :
    pool.slots.toList[k + 1]? = some none ↔
      k + 1 < pool.size ∧
        ∃ wide, pool.slots.toList[k]? = some (some wide) ∧ wide.isWide = true := by
  rw [size, ← Array.length_toList]
  rcases h with hslots | ⟨row, hrow, hslots⟩
  · simp [hslots]
  · rw [hslots]
    exact hrow.getElem?_succ_eq_none_iff (by simp)

theorem mem_entries_iff (h : pool.Arranged) (hsize : pool.size ≤ 65535) :
    (index, constant) ∈ pool.entries ↔ pool.get index = .ok constant := by
  rw [h.get_eq_ok_iff, entries, mem_entriesFrom]
  constructor
  · rintro ⟨k, hslot, rfl⟩
    have hk : k < pool.size := by
      rcases List.getElem?_eq_some_iff.mp hslot with ⟨hk, _⟩
      simpa [size] using hk
    rwa [Nat.zero_add, UInt16.toNat_ofNat_of_lt' (by omega : k < 65536)]
  · intro hslot
    exact ⟨index.toNat, hslot, by simp⟩

theorem get_eq_placeholder_iff (h : pool.Arranged) :
    pool.get index = .error (.placeholder index) ↔
      0 < index.toNat ∧ index.toNat < pool.size ∧
        ((∃ value, pool.get (index - 1) = .ok (.long value)) ∨
          ∃ value, pool.get (index - 1) = .ok (.double value)) := by
  by_cases hzero : index = 0
  · simp [get_eq_error_iff, hzero]
  · rcases Nat.exists_eq_succ_of_ne_zero fun htoNat => hzero (UInt16.toNat_inj.mp htoNat) with
      ⟨k, hk⟩
    have hbefore : (index - 1).toNat = k := by
      rw [UInt16.toNat_sub_of_le] <;> simp [UInt16.le_iff_toNat_le, hk]
    have hempty : pool.get index = .error (.placeholder index) ↔
        pool.slots.toList[k + 1]? = some none := by
      simp [get_eq_error_iff, hzero, hk]
    rw [hempty, h.getElem?_succ_eq_none_iff, exists_wide_iff, hk]
    simp only [h.get_eq_ok_iff, hbefore, Nat.succ_pos, true_and]

theorem addressed (h : pool.Arranged) (hsize : pool.size ≤ 65535) : pool.Addressed where
  increasing := by
    apply pairwise_entriesFrom
    rw [Array.length_toList, ← size]
    omega
  mem_entries _ _ := h.mem_entries_iff hsize
  error_cases _ _ hget := by
    rcases get_eq_error_iff.mp hget with ⟨_, rfl⟩ | ⟨_, _, rfl⟩ | ⟨_, _, rfl⟩ <;> simp
  reserved _ := by simp [get_eq_error_iff]
  outOfRange _ := by simp [get_eq_error_iff]
  placeholder _ := h.get_eq_placeholder_iff

end Arranged

theorem Made.arranged (h : pool.Made) : pool.Arranged := by
  cases h with
  | pushed constants => exact .inr ⟨_, row_flatMap_pushed constants, slots_ofConstants constants⟩
  | read hread => exact ((exact_read _ _ _ _).mp hread).1.slots_eq

/-! ## Pushing and reading -/

theorem slotCount_cons (constant : Constant) (constants : List Constant) :
    slotCount (constant :: constants) = constant.slots + slotCount constants := by
  simp [slotCount]

theorem length_flatMap_pushed (constants : List Constant) :
    (constants.flatMap pushed).length = slotCount constants := by
  have hpushed : ∀ constant, (pushed constant).length = constant.slots := by
    intro constant
    unfold pushed Constant.slots
    split <;> rfl
  simp [slotCount, List.length_flatMap, hpushed]

theorem size_ofConstants (constants : List Constant) :
    (ofConstants constants).size = 1 + slotCount constants := by
  rw [size, ← Array.length_toList, slots_ofConstants, List.length_cons, length_flatMap_pushed,
    Nat.add_comm]

theorem rowBytes_flatMap_pushed (constants : List Constant) :
    rowBytes (constants.flatMap pushed) = constants.flatMap Constant.toBytes := by
  have hpushed : ∀ constant, (pushed constant).filterMap id = [constant] := by
    intro constant
    unfold pushed
    split <;> rfl
  rw [rowBytes, List.filterMap_flatMap, List.flatMap_congr fun constant _ => hpushed constant,
    List.flatMap_singleton']

theorem toBytes_ofConstants (constants : List Constant) :
    (ofConstants constants).toBytes =
      BigEndian.toBytes 2 (1 + slotCount constants) ++ constants.flatMap Constant.toBytes := by
  rw [toBytes_eq, size_ofConstants, slots_ofConstants, rowBytes_none_cons, rowBytes_flatMap_pushed]

/-- The constants of a pool are read back as they were pushed, and what follows them is left. -/
theorem read_ofConstants (hslots : slotCount constants ≤ 65534)
    (hfits : ∀ constant ∈ constants, constant.Fits) (check : CountCheck) (rest : List UInt8) :
    read.read check (BigEndian.toBytes 2 (1 + slotCount constants) ++
      constants.flatMap Constant.toBytes ++ rest) = .ok (ofConstants constants, rest) := by
  rw [exact_read, toBytes_ofConstants]
  refine ⟨fits_ofConstants ?_ hfits, rfl⟩
  rw [size_ofConstants]
  omega

theorem get_ofConstants {before after : List Constant}
    (hslots : slotCount (before ++ constant :: after) ≤ 65534) :
    (ofConstants before).nextIndex.toNat = 1 + slotCount before ∧
      (ofConstants (before ++ constant :: after)).get (ofConstants before).nextIndex =
        .ok constant := by
  have hindex : (ofConstants before).nextIndex.toNat = 1 + slotCount before := by
    have hbound : 1 + slotCount before < 65536 := by
      simp only [slotCount, List.map_append, List.sum_append] at hslots ⊢
      omega
    rw [nextIndex, size_ofConstants, UInt16.toNat_ofNat_of_lt' hbound]
  refine ⟨hindex, ?_⟩
  rw [(Made.pushed _).arranged.get_eq_ok_iff, hindex, slots_ofConstants, Nat.add_comm,
    List.getElem?_cons_succ, List.flatMap_append, ← length_flatMap_pushed,
    List.getElem?_append_right (Nat.le_refl _), Nat.sub_self, List.flatMap_cons]
  unfold pushed
  split <;> rfl

/-- A pool that was pushed or read shows the same constants by iterating and by looking up, and the
indices at which it shows none are those of the reserved slot, of the second halves of wide
constants, and those behind the last slot.  Reading the written forms of constants behind their
number of slots gives the pool of the constants pushed one after the other, and leaves what follows.
Each constant is then found behind the slots of those before it, at the index that it was pushed
to. -/
theorem addresses_agree :
    (∀ pool, Made pool → pool.size ≤ 65535 → pool.Addressed) ∧
      ∀ constants, (∀ text, .utf8 text ∈ constants → text.utf8ByteSize ≤ 65535) →
        slotCount constants ≤ 65534 →
          (∀ rest, read.read .upFront (BigEndian.toBytes 2 (1 + slotCount constants) ++
              constants.flatMap Constant.toBytes ++ rest) = .ok (ofConstants constants, rest)) ∧
            ∀ before constant after, constants = before ++ constant :: after →
              (ofConstants before).nextIndex.toNat = 1 + slotCount before ∧
                (ofConstants constants).get (ofConstants before).nextIndex = .ok constant := by
  constructor
  · intro pool hmade hsize
    exact hmade.arranged.addressed hsize
  · intro constants htexts hslots
    constructor
    · intro rest
      exact read_ofConstants hslots (Constant.fits_of_texts htexts) .upFront rest
    · rintro before constant after rfl
      exact get_ofConstants hslots

/-- A wide constant in the last slot of a pool that was read, and wide constants in front of a text
and at the end of the list. -/
theorem addresses_agree_wide :
    let pool : Pool := ⟨#[none, some (.long 42)]⟩
    let constants : List Constant := [.long 5, .utf8 "é", .double ⟨0x7ff800000000002a⟩]
    read.read .upFront [0, 2, 0x05, 0, 0, 0, 0, 0, 0, 0, 42, 0xff] = .ok (pool, [0xff]) ∧
      pool.Addressed ∧ slotCount constants = 5 ∧
      read.read .upFront [0, 6, 0x05, 0, 0, 0, 0, 0, 0, 0, 5, 0x01, 0, 2, 0xc3, 0xa9,
        0x06, 0x7f, 0xf8, 0, 0, 0, 0, 0, 0x2a, 0xee] = .ok (ofConstants constants, [0xee]) ∧
      (ofConstants constants).get 3 = .ok (.utf8 "é") := by
  intro pool constants
  have hread : read.read .upFront [0, 2, 0x05, 0, 0, 0, 0, 0, 0, 0, 42, 0xff] =
      .ok (pool, [0xff]) := by decide +kernel
  have htexts : ∀ text, Constant.utf8 text ∈ constants → text.utf8ByteSize ≤ 65535 := by
    intro text hmem
    have htext : text = "é" := by simpa [constants] using hmem
    rw [htext]
    decide
  have hbytes : BigEndian.toBytes 2 (1 + slotCount constants) ++
      constants.flatMap Constant.toBytes ++ [0xee] =
        [0, 6, 0x05, 0, 0, 0, 0, 0, 0, 0, 5, 0x01, 0, 2, 0xc3, 0xa9,
          0x06, 0x7f, 0xf8, 0, 0, 0, 0, 0, 0x2a, 0xee] := by decide +kernel
  rcases addresses_agree with ⟨hmade, hpushed⟩
  rcases hpushed constants htexts (by decide) with ⟨hback, hplaces⟩
  refine ⟨hread, hmade pool (.read hread) (by decide), by decide, hbytes ▸ hback [0xee], ?_⟩
  exact (hplaces [.long 5] (.utf8 "é") [.double ⟨0x7ff800000000002a⟩] rfl).2

end Pool

end ClassMachine
