import ClassMachine.Bytes.BigEndian.Lemmas
import ClassMachine.Bytes.Reader

/-!
# Readers and the writers they undo

A reader is exact for a writer when it accepts the written forms of the values that
fit, whatever follows them, and nothing else.  One direction says that writing back
what was read gives the same bytes; the other that what was written is read back.

Exactness does not depend on whether counts are checked.  A count is refused only
when the rest of the input is too short for the least written forms of its items,
and then reading the items themselves would run out of input as well.
-/

namespace ClassMachine

namespace Reader

/-- The reader accepts the written forms of the values that fit, and leaves what follows them. -/
def Exact (reader : Reader α) (write : α → List UInt8) (Fits : α → Prop) : Prop :=
  ∀ check input value rest,
    reader.read check input = .ok (value, rest) ↔ Fits value ∧ input = write value ++ rest

theorem read_bind_eq_ok_iff {reader : Reader α} {next : α → Reader β} {check : CountCheck}
    {input rest : List UInt8} {b : β} :
    (reader >>= next).read check input = .ok (b, rest) ↔
      ∃ a middle, reader.read check input = .ok (a, middle) ∧
        (next a).read check middle = .ok (b, rest) := by
  rw [read_bind]
  constructor
  · intro h
    cases hread : reader.read check input with
    | error error =>
        rw [hread] at h
        cases h
    | ok result =>
        rw [hread] at h
        exact ⟨result.1, result.2, rfl, h⟩
  · rintro ⟨a, middle, hread, hnext⟩
    rw [hread]
    exact hnext

theorem read_bind_eq_error_iff {reader : Reader α} {next : α → Reader β} {check : CountCheck}
    {input : List UInt8} {error : FormatError} :
    (reader >>= next).read check input = .error error ↔
      reader.read check input = .error error ∨
        ∃ a rest, reader.read check input = .ok (a, rest) ∧
          (next a).read check rest = .error error := by
  rw [read_bind]
  rcases reader.read check input with found | ⟨a, rest⟩ <;> simp [Except.bind]

theorem read_pure_eq_ok_iff {check : CountCheck} {input rest : List UInt8} {a b : α} :
    (pure a : Reader α).read check input = .ok (b, rest) ↔ b = a ∧ input = rest := by
  rw [read_pure]
  constructor
  · intro h
    cases h
    exact ⟨rfl, rfl⟩
  · rintro ⟨rfl, rfl⟩
    rfl

/-- What an exact reader reads from an input, when nobody asks for the rest. -/
theorem Exact.map_fst_eq_ok_iff {reader : Reader α} {write : α → List UInt8} {Fits : α → Prop}
    (h : Exact reader write Fits) {check : CountCheck} {input : List UInt8} {a : α} :
    (reader.read check input).map Prod.fst = .ok a ↔ Fits a ∧ ∃ rest, input = write a ++ rest := by
  have hread : (reader.read check input).map Prod.fst = .ok a ↔
      ∃ rest, reader.read check input = .ok (a, rest) := by
    rcases reader.read check input with error | ⟨found, rest⟩ <;> simp [Except.map]
  rw [hread]
  simp [h check input a]

theorem exact_bytes (count : Nat) (part : String) :
    Exact (bytes count part) id (fun raw => raw.length = count) := by
  intro check input raw rest
  rw [read_bytes]
  constructor
  · intro h
    split at h
    next hcount =>
      cases h
      exact ⟨List.length_take_of_le hcount, (List.take_append_drop count input).symm⟩
    next => cases h
  · rintro ⟨hlength, rfl⟩
    subst hlength
    rw [if_pos (by simp)]
    simp

theorem exact_word (width : Nat) (part : String) :
    Exact (word width part) (BigEndian.toBytes width) (fun n => n < 256 ^ width) := by
  intro check input n rest
  simp only [word, read_bind_eq_ok_iff, read_pure_eq_ok_iff, exact_bytes width part check input _ _]
  constructor
  · rintro ⟨raw, _, ⟨rfl, rfl⟩, rfl, rfl⟩
    exact ⟨BigEndian.ofBytes_lt raw, by rw [BigEndian.toBytes_ofBytes]; rfl⟩
  · rintro ⟨hn, rfl⟩
    exact ⟨BigEndian.toBytes width n, rest, ⟨BigEndian.toBytes_length width n, rfl⟩,
      (BigEndian.ofBytes_toBytes_of_lt hn).symm, rfl⟩

/-- A reader of values that stand for those of an exact reader. -/
theorem Exact.map {reader : Reader α} {write : α → List UInt8} {Fits : α → Prop}
    (hreader : Exact reader write Fits) {decode : α → β} {write' : β → List UInt8}
    {Fits' : β → Prop} (hwrite : ∀ a, Fits a → write' (decode a) = write a)
    (hfits : ∀ b, Fits' b ↔ ∃ a, Fits a ∧ decode a = b) :
    Exact (do return decode (← reader)) write' Fits' := by
  intro check input b rest
  simp only [read_bind_eq_ok_iff, read_pure_eq_ok_iff, hreader check input _ _]
  constructor
  · rintro ⟨a, _, ⟨ha, rfl⟩, rfl, rfl⟩
    exact ⟨(hfits _).mpr ⟨a, ha, rfl⟩, by rw [hwrite a ha]⟩
  · rintro ⟨hb, rfl⟩
    obtain ⟨a, ha, rfl⟩ := (hfits b).mp hb
    exact ⟨a, rest, ⟨ha, by rw [hwrite a ha]⟩, rfl, rfl⟩

/-- A reader of a machine word, which every number below `256 ^ width` is the value of. -/
theorem exact_machineWord {ofNat : Nat → β} {toNat : β → Nat} {width : Nat} (part : String)
    (hlt : ∀ b, toNat b < 256 ^ width) (hofNat : ∀ n, n < 256 ^ width → toNat (ofNat n) = n)
    (htoNat : ∀ b, ofNat (toNat b) = b) :
    Exact (do return ofNat (← word width part)) (fun b => BigEndian.toBytes width (toNat b))
      (fun _ => True) := by
  apply (exact_word width part).map
  · intro n hn
    rw [hofNat n hn]
  · exact fun b => ⟨fun _ => ⟨toNat b, hlt b, htoNat b⟩, fun _ => trivial⟩

theorem exact_u8 (part : String) :
    Exact (u8 part) (fun byte => BigEndian.toBytes 1 byte.toNat) (fun _ => True) :=
  exact_machineWord part UInt8.toNat_lt (fun _ hn => UInt8.toNat_ofNat_of_lt' hn)
    (fun _ => UInt8.ofNat_toNat)

theorem exact_u16 (part : String) :
    Exact (u16 part) (fun n => BigEndian.toBytes 2 n.toNat) (fun _ => True) :=
  exact_machineWord part UInt16.toNat_lt (fun _ hn => UInt16.toNat_ofNat_of_lt' hn)
    (fun _ => UInt16.ofNat_toNat)

theorem exact_u32 (part : String) :
    Exact (u32 part) (fun n => BigEndian.toBytes 4 n.toNat) (fun _ => True) :=
  exact_machineWord part UInt32.toNat_lt (fun _ hn => UInt32.toNat_ofNat_of_lt' hn)
    (fun _ => UInt32.ofNat_toNat)

theorem exact_u64 (part : String) :
    Exact (u64 part) (fun n => BigEndian.toBytes 8 n.toNat) (fun _ => True) :=
  exact_machineWord part UInt64.toNat_lt (fun _ hn => UInt64.toNat_ofNat_of_lt' hn)
    (fun _ => UInt64.ofNat_toNat)

/-! ## Rows of items -/

theorem replicate_succ (count : Nat) (item : Reader α) :
    replicate (count + 1) item =
      item >>= fun first => replicate count item >>= fun others => pure (first :: others) := by
  unfold replicate
  rw [List.replicate_succ, List.mapM_cons]

theorem exact_replicate {item : Reader α} {write : α → List UInt8} {Fits : α → Prop}
    (hitem : Exact item write Fits) (count : Nat) :
    Exact (replicate count item) (fun values => values.flatMap write)
      (fun values => values.length = count ∧ ∀ value ∈ values, Fits value) := by
  induction count with
  | zero =>
      intro check input values rest
      rw [read_replicate_zero]
      constructor
      · intro h
        cases h
        simp
      · rintro ⟨⟨hlength, _⟩, rfl⟩
        rw [List.eq_nil_of_length_eq_zero hlength]
        rfl
  | succ count ih =>
      intro check input values rest
      simp only [replicate_succ, read_bind_eq_ok_iff, read_pure_eq_ok_iff, hitem check input _ _,
        ih check _ _ _]
      constructor
      · rintro ⟨first, _, ⟨hfirst, rfl⟩, others, _, ⟨⟨hlength, hothers⟩, rfl⟩, rfl, rfl⟩
        refine ⟨⟨by rw [List.length_cons, hlength], ?_⟩, by simp⟩
        rintro value (_ | ⟨_, hvalue⟩)
        · exact hfirst
        · exact hothers value hvalue
      · rintro ⟨⟨hlength, hvalues⟩, rfl⟩
        cases values with
        | nil => cases hlength
        | cons first others =>
            have hothers : ∀ value ∈ others, Fits value :=
              fun value hvalue => hvalues value (List.mem_cons_of_mem first hvalue)
            refine ⟨first, others.flatMap write ++ rest,
              ⟨hvalues first List.mem_cons_self, by simp⟩, others, rest,
              ⟨⟨Nat.succ.inj hlength, hothers⟩, rfl⟩, rfl, rfl⟩

theorem read_checkCount_eq_ok_iff {part : String} {count minSize : Nat} {check : CountCheck}
    {input rest : List UInt8} {done : Unit} :
    (checkCount part count minSize).read check input = .ok (done, rest) ↔
      ¬ (check = .upFront ∧ input.length < count * minSize) ∧ input = rest := by
  rw [read_checkCount]
  split
  next hshort => simp [hshort]
  next hfits =>
    simp only [hfits, not_false_eq_true, true_and, Except.ok.injEq, Prod.mk.injEq]

theorem mul_length_le_length_flatMap {write : α → List UInt8} {minSize : Nat} {values : List α}
    (hmin : ∀ value ∈ values, minSize ≤ (write value).length) :
    values.length * minSize ≤ (values.flatMap write).length := by
  induction values with
  | nil => simp
  | cons first others ih =>
      have hfirst := hmin first List.mem_cons_self
      have hothers := ih fun value hvalue => hmin value (List.mem_cons_of_mem first hvalue)
      rw [List.length_cons, List.flatMap_cons, List.length_append, Nat.succ_mul]
      omega

theorem exact_counted {item : Reader α} {write : α → List UInt8} {Fits : α → Prop}
    (hitem : Exact item write Fits) (part : String) {minSize : Nat}
    (hmin : ∀ value, Fits value → minSize ≤ (write value).length) :
    Exact (counted part minSize item)
      (fun values => BigEndian.toBytes 2 values.length ++ values.flatMap write)
      (fun values => values.length < 65536 ∧ ∀ value ∈ values, Fits value) := by
  intro check input values rest
  simp only [counted, count, read_bind_eq_ok_iff, read_pure_eq_ok_iff, read_checkCount_eq_ok_iff,
    exact_word 2 part check input _ _, exact_replicate hitem _ check _ _ _]
  constructor
  · rintro ⟨n, _, ⟨n, _, ⟨hn, rfl⟩, _, _, ⟨_, rfl⟩, rfl, rfl⟩, ⟨rfl, hvalues⟩, rfl⟩
    exact ⟨⟨hn, hvalues⟩, by simp⟩
  · rintro ⟨⟨hlength, hvalues⟩, rfl⟩
    have hsize := mul_length_le_length_flatMap fun value hvalue => hmin value (hvalues value hvalue)
    refine ⟨values.length, values.flatMap write ++ rest,
      ⟨values.length, _, ⟨hlength, by simp⟩, (), _, ⟨?_, rfl⟩, rfl, rfl⟩,
      ⟨rfl, hvalues⟩, rfl⟩
    rintro ⟨_, hshort⟩
    rw [List.length_append] at hshort
    omega

end Reader

end ClassMachine
