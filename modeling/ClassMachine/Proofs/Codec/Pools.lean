import ClassMachine.Pool.Codec
import ClassMachine.Proofs.Codec.Constants

/-!
# Reading pools back

Empty slots are not written, so a pool can be read back only if its empty slots stand
where the reader puts them: one at the front, and one behind each wide constant that
is not in the last slot.  `Row` describes the slots after the first.  Both the reader
and `push` fill a row from left to right, and the reader is exact for the rows of
constants that fit.
-/

namespace ClassMachine

open Reader

namespace Pool

/-- Slots in which every empty slot stands behind a wide constant, and every wide
constant but one in the last slot stands before an empty slot. -/
inductive Row : List (Option Constant) → Prop where
  | nil : Row []
  | narrow {constant : Constant} {row : List (Option Constant)} :
      constant.isWide = false → Row row → Row (some constant :: row)
  | wide {constant : Constant} {row : List (Option Constant)} :
      constant.isWide = true → Row row → Row (some constant :: none :: row)
  | lastWide {constant : Constant} : constant.isWide = true → Row [some constant]

/-- The written form of the constants in some slots. -/
def rowBytes (row : List (Option Constant)) : List UInt8 :=
  (row.filterMap id).flatMap Constant.toBytes

@[simp]
theorem rowBytes_nil : rowBytes [] = [] := rfl

@[simp]
theorem rowBytes_none_cons (row : List (Option Constant)) :
    rowBytes (none :: row) = rowBytes row := rfl

@[simp]
theorem rowBytes_some_cons (constant : Constant) (row : List (Option Constant)) :
    rowBytes (some constant :: row) = constant.toBytes ++ rowBytes row := rfl

/-- Every constant in the slots fits. -/
def RowFits (row : List (Option Constant)) : Prop :=
  ∀ constant, some constant ∈ row → constant.Fits

theorem RowFits.tail {slot : Option Constant} {row : List (Option Constant)}
    (h : RowFits (slot :: row)) : RowFits row :=
  fun constant hconstant => h constant (List.mem_cons_of_mem slot hconstant)

theorem RowFits.none_cons {row : List (Option Constant)} (h : RowFits row) :
    RowFits (none :: row) := by
  rintro constant (_ | ⟨_, hconstant⟩)
  exact h constant hconstant

theorem RowFits.some_cons {constant : Constant} {row : List (Option Constant)}
    (hconstant : constant.Fits) (h : RowFits row) : RowFits (some constant :: row) := by
  rintro other (_ | ⟨_, hother⟩)
  · exact hconstant
  · exact h other hother

theorem Row.mul_three_le {row : List (Option Constant)} (hrow : Row row) :
    row.length * 3 ≤ (rowBytes row).length := by
  induction hrow with
  | nil => simp
  | @narrow constant row hwide hrow ih =>
      have hsize := constant.slots_mul_three_le_length_toBytes
      simp only [Constant.slots, hwide, Bool.false_eq_true, if_false] at hsize
      simp only [List.length_cons, rowBytes_some_cons, List.length_append]
      omega
  | @wide constant row hwide hrow ih =>
      have hsize := constant.slots_mul_three_le_length_toBytes
      simp only [Constant.slots, hwide, if_true] at hsize
      simp only [List.length_cons, rowBytes_some_cons, rowBytes_none_cons, List.length_append]
      omega
  | @lastWide constant hwide =>
      have hsize := constant.slots_mul_three_le_length_toBytes
      simp only [Constant.slots, hwide, if_true] at hsize
      simp only [List.length_cons, List.length_nil, rowBytes_some_cons, rowBytes_nil,
        List.append_nil]
      omega

/-! ## The reader fills a row -/

theorem readSlots_succ (remaining : Nat) (slots : Array (Option Constant)) :
    readSlots (remaining + 1) slots =
      Constant.read slots.size >>= fun constant =>
        if constant.isWide = true then
          match remaining with
          | 0 => pure (slots.push (some constant))
          | remaining + 1 => readSlots remaining ((slots.push (some constant)).push none)
        else
          readSlots remaining (slots.push (some constant)) := by
  cases remaining <;> rfl

theorem row_of_readSlots {remaining : Nat} {slots filled : Array (Option Constant)}
    {check : CountCheck} {input rest : List UInt8}
    (h : (readSlots remaining slots).read check input = .ok (filled, rest)) :
    ∃ row, Row row ∧ RowFits row ∧ row.length = remaining ∧
      filled.toList = slots.toList ++ row ∧ input = rowBytes row ++ rest := by
  -- a wide constant fills two slots at once, so the induction skips one
  induction remaining using Nat.strong_induction_on generalizing slots input with
  | _ remaining ih =>
      cases remaining with
      | zero =>
          obtain ⟨rfl, rfl⟩ := read_pure_eq_ok_iff.mp h
          exact ⟨[], .nil, by simp [RowFits], rfl, by simp, rfl⟩
      | succ remaining =>
          rw [readSlots_succ, read_bind_eq_ok_iff] at h
          obtain ⟨constant, middle, hconstant, h⟩ := h
          obtain ⟨hfits, rfl⟩ := (Constant.exact_read _ check _ _ _).mp hconstant
          cases hwide : constant.isWide with
          | false =>
              simp only [hwide, Bool.false_eq_true, if_false] at h
              obtain ⟨row, hrow, hrowFits, hlength, hfilled, rfl⟩ := ih remaining (by omega) h
              refine ⟨some constant :: row, .narrow hwide hrow, hrowFits.some_cons hfits,
                by rw [List.length_cons, hlength], ?_, by simp⟩
              rw [hfilled, Array.toList_push, List.append_assoc, List.singleton_append]
          | true =>
              simp only [hwide, if_true] at h
              cases remaining with
              | zero =>
                  obtain ⟨rfl, rfl⟩ := read_pure_eq_ok_iff.mp h
                  exact ⟨[some constant], .lastWide hwide,
                    RowFits.some_cons hfits (by simp [RowFits]), rfl,
                    Array.toList_push, by simp⟩
              | succ remaining =>
                  obtain ⟨row, hrow, hrowFits, hlength, hfilled, rfl⟩ := ih remaining (by omega) h
                  refine ⟨some constant :: none :: row, .wide hwide hrow,
                    hrowFits.none_cons.some_cons hfits,
                    by rw [List.length_cons, List.length_cons, hlength], ?_, by simp⟩
                  rw [hfilled, Array.toList_push, Array.toList_push, List.append_assoc,
                    List.append_assoc]
                  rfl

theorem readSlots_of_row {row : List (Option Constant)} (hrow : Row row) (hfits : RowFits row)
    (slots : Array (Option Constant)) (check : CountCheck) (rest : List UInt8) :
    (readSlots row.length slots).read check (rowBytes row ++ rest) =
      .ok (slots ++ row.toArray, rest) := by
  have hread : ∀ (constant : Constant) (row : List (Option Constant)) (index : Nat),
      constant.Fits → (Constant.read index).read check (rowBytes (some constant :: row) ++ rest) =
        .ok (constant, rowBytes row ++ rest) := fun constant row index hconstant =>
    (Constant.exact_read index check _ _ _).mpr ⟨hconstant, by simp⟩
  induction hrow generalizing slots with
  | nil => simp [readSlots, read_pure]
  | @narrow constant row hwide hrow ih =>
      rw [List.length_cons, readSlots_succ, read_bind_eq_ok_iff]
      refine ⟨constant, _, hread constant row _ (hfits constant List.mem_cons_self), ?_⟩
      rw [if_neg (by rw [hwide]; exact Bool.false_ne_true), ih hfits.tail]
      simp
  | @wide constant row hwide hrow ih =>
      rw [List.length_cons, readSlots_succ, read_bind_eq_ok_iff]
      refine ⟨constant, _, hread constant (none :: row) _ (hfits constant List.mem_cons_self), ?_⟩
      rw [if_pos hwide, rowBytes_none_cons, List.length_cons, ih hfits.tail.tail]
      simp
  | @lastWide constant hwide =>
      rw [List.length_singleton, readSlots_succ, read_bind_eq_ok_iff]
      refine ⟨constant, _, hread constant [] _ (hfits constant List.mem_cons_self), ?_⟩
      rw [if_pos hwide]
      simp [read_pure]

/-! ## Whole pools -/

/-- What a pool must be like to be read back: it has no slot at all, or the reserved slot
and a row, and neither its size nor one of its texts is too large to be written. -/
structure Fits (pool : Pool) : Prop where
  slots_eq : pool.slots.toList = [] ∨ ∃ row, Row row ∧ pool.slots.toList = none :: row
  size_lt : pool.size < 65536
  rowFits : RowFits pool.slots.toList

theorem toBytes_eq (pool : Pool) :
    pool.toBytes = BigEndian.toBytes 2 pool.size ++ rowBytes pool.slots.toList := rfl

theorem exact_read : Exact read toBytes Fits := by
  intro check input pool rest
  simp only [read, read_bind_eq_ok_iff, exact_word 2 _ check _ _ _, read_checkCount_eq_ok_iff]
  constructor
  · rintro ⟨count, _, ⟨hcount, rfl⟩, _, _, ⟨_, rfl⟩, hread⟩
    split at hread
    next hzero =>
      obtain ⟨rfl, rfl⟩ := read_pure_eq_ok_iff.mp hread
      subst hzero
      refine ⟨⟨.inl rfl, by decide, by simp [RowFits]⟩, ?_⟩
      simp [toBytes_eq, size]
    next hpositive =>
      obtain ⟨filled, _, hslots, hpool⟩ := read_bind_eq_ok_iff.mp hread
      obtain ⟨rfl, rfl⟩ := read_pure_eq_ok_iff.mp hpool
      obtain ⟨row, hrow, hfits, hlength, hfilled, rfl⟩ := row_of_readSlots hslots
      have hsize : filled.size = count := by
        rw [← Array.length_toList, hfilled, List.length_append, hlength]
        simp only [List.length_singleton]
        omega
      refine ⟨⟨.inr ⟨row, hrow, hfilled⟩, by rw [size, hsize]; exact hcount, ?_⟩, ?_⟩
      · rw [hfilled]
        exact hfits.none_cons
      · rw [toBytes_eq, size, hsize, hfilled]
        simp
  · rintro ⟨hfits, rfl⟩
    obtain hslots | ⟨row, hrow, hslots⟩ := hfits.slots_eq
    · have hpool : pool = ⟨#[]⟩ := by
        rw [Array.toList_eq_nil_iff] at hslots
        rw [← hslots]
      subst hpool
      exact ⟨0, rest, ⟨by decide, rfl⟩, (), rest, ⟨by simp, rfl⟩, rfl⟩
    · have hsize : pool.size = row.length + 1 := by
        rw [size, ← Array.length_toList, hslots, List.length_cons]
      have hbytes := hrow.mul_three_le
      refine ⟨pool.size, rowBytes row ++ rest, ⟨hfits.size_lt, ?_⟩, (), _, ⟨?_, rfl⟩, ?_⟩
      · rw [toBytes_eq, hslots, rowBytes_none_cons, List.append_assoc]
      · rintro ⟨_, hshort⟩
        rw [hsize, Nat.add_sub_cancel, minSlotSize, List.length_append] at hshort
        omega
      · rw [if_neg (by omega), hsize, Nat.add_sub_cancel, read_bind_eq_ok_iff]
        have hrowFits := hfits.rowFits
        rw [hslots] at hrowFits
        refine ⟨_, _, readSlots_of_row hrow hrowFits.tail #[none] check rest, ?_⟩
        refine read_pure_eq_ok_iff.mpr ⟨?_, rfl⟩
        cases pool
        simpa [← Array.toList_inj] using hslots

/-! ## Pools that were built -/

/-- The slots that a constant fills when it is pushed. -/
def pushed (constant : Constant) : List (Option Constant) :=
  if constant.isWide then [some constant, none] else [some constant]

/-- The pool of some constants, pushed one after the other. -/
def ofConstants (constants : List Constant) : Pool :=
  constants.foldl push empty

theorem slots_push (pool : Pool) (constant : Constant) :
    (pool.push constant).slots.toList = pool.slots.toList ++ pushed constant := by
  unfold push pushed
  split <;> simp

/-- Reading goes on behind the slots of the first constant, unless it is wide and fills the last. -/
theorem readSlots_succ_eq (remaining : Nat) (slots : Array (Option Constant)) :
    readSlots (remaining + 1) slots =
      Constant.read slots.size >>= fun constant =>
        if constant.slots ≤ remaining + 1 then
          readSlots (remaining + 1 - constant.slots) (slots ++ (pushed constant).toArray)
        else
          pure (slots.push (some constant)) := by
  rw [readSlots_succ]
  congr 1
  funext constant
  cases hwide : constant.isWide with
  | false => simp [Constant.slots, pushed, hwide]
  | true =>
      have hslots : slots ++ #[some constant, none] = (slots.push (some constant)).push none := by
        simp [← Array.toList_inj]
      cases remaining <;> simp [Constant.slots, pushed, hwide, hslots]

theorem size_append_pushed (slots : Array (Option Constant)) (constant : Constant) :
    (slots ++ (pushed constant).toArray).size = slots.size + constant.slots := by
  unfold pushed Constant.slots
  split <;> simp

theorem slots_foldl_push (constants : List Constant) (pool : Pool) :
    (constants.foldl push pool).slots.toList =
      pool.slots.toList ++ constants.flatMap pushed := by
  induction constants generalizing pool with
  | nil => simp
  | cons constant constants ih =>
      rw [List.foldl_cons, ih, slots_push, List.flatMap_cons, List.append_assoc]

theorem slots_ofConstants (constants : List Constant) :
    (ofConstants constants).slots.toList = none :: constants.flatMap pushed :=
  slots_foldl_push constants empty

theorem row_flatMap_pushed (constants : List Constant) : Row (constants.flatMap pushed) := by
  induction constants with
  | nil => exact .nil
  | cons constant constants ih =>
      rw [List.flatMap_cons]
      cases hwide : constant.isWide with
      | false =>
          simp only [pushed, hwide, Bool.false_eq_true, if_false]
          exact .narrow hwide ih
      | true =>
          simp only [pushed, hwide, if_true]
          exact .wide hwide ih

theorem some_mem_flatMap_pushed {constant : Constant} {constants : List Constant} :
    some constant ∈ constants.flatMap pushed ↔ constant ∈ constants := by
  simp only [List.mem_flatMap]
  constructor
  · rintro ⟨other, hother, hmem⟩
    unfold pushed at hmem
    split at hmem <;> simp at hmem <;> rwa [hmem]
  · intro hmem
    refine ⟨constant, hmem, ?_⟩
    unfold pushed
    split <;> simp

theorem fits_ofConstants {constants : List Constant}
    (hsize : (ofConstants constants).size < 65536)
    (hfits : ∀ constant ∈ constants, constant.Fits) : (ofConstants constants).Fits := by
  refine ⟨.inr ⟨_, row_flatMap_pushed constants, slots_ofConstants constants⟩, hsize, ?_⟩
  rw [slots_ofConstants]
  apply RowFits.none_cons
  intro constant hmem
  exact hfits constant (some_mem_flatMap_pushed.mp hmem)

end Pool

end ClassMachine
