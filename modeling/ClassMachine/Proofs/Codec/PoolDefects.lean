import ClassMachine.Proofs.Codec.Addresses

/-!
# Defects in pools

A pool is read constant by constant, and reading it stops at the first one that has a defect: its
tag is none of those known, its bytes are no text, or the input ends before it does.  The error
names the slot that the constant would have filled.  Each constant in front of it has taken a slot,
and each wide one two.
-/

namespace ClassMachine

open Reader

namespace Tag

theorem ofByte?_eq_none_iff {byte : UInt8} : ofByte? byte = none ↔ ∀ tag : Tag, tag.byte ≠ byte := by
  constructor
  · rintro h tag rfl
    simp at h
  · intro h
    cases hfound : ofByte? byte with
    | none => rfl
    | some tag => exact absurd (byte_of_ofByte? hfound) (h tag)

/-- The number of bytes behind the tag, which for a text depends on the length that stands there. -/
def payloadSize (payload : List UInt8) : Tag → Nat
  | .utf8 => 2 + BigEndian.ofBytes (payload.take 2)
  | .classRef | .string | .methodType | .moduleRef | .packageRef => 2
  | .methodHandle => 3
  | .integer | .float | .fieldRef | .methodRef | .interfaceMethodRef | .nameAndType | .dynamic
  | .invokeDynamic => 4
  | .long | .double => 8

end Tag

/-! ## Readers of a fixed width -/

namespace Reader

/-- The reader takes `size` bytes from the front of its input, and misses some when there are
fewer. -/
def Needs (reader : Reader α) (size : Nat) : Prop :=
  ∀ check input,
    (input.length < size → ∃ part, reader.read check input = .error (.unexpectedEnd part)) ∧
      (size ≤ input.length → ∃ a, reader.read check input = .ok (a, input.drop size))

theorem needs_pure (a : α) : Needs (pure a) 0 := by
  intro check input
  constructor
  · intro hshort
    exact absurd hshort (Nat.not_lt_zero _)
  · intro _
    exact ⟨a, rfl⟩

theorem Needs.bind {reader : Reader α} {next : α → Reader β} {first second : Nat}
    (hreader : Needs reader first) (hnext : ∀ a, Needs (next a) second) :
    Needs (reader >>= next) (first + second) := by
  intro check input
  rw [read_bind]
  by_cases hfirst : first ≤ input.length
  · rcases (hreader check input).2 hfirst with ⟨a, hread⟩
    have hbehind := hnext a check (input.drop first)
    rw [List.length_drop, List.drop_drop] at hbehind
    rw [hread]
    constructor
    · intro hshort
      exact hbehind.1 (by omega)
    · intro hlong
      exact hbehind.2 (by omega)
  · rcases (hreader check input).1 (Nat.lt_of_not_le hfirst) with ⟨part, hread⟩
    rw [hread]
    constructor
    · intro _
      exact ⟨part, rfl⟩
    · intro hlong
      omega

theorem needs_bytes (count : Nat) (part : String) : Needs (bytes count part) count := by
  intro check input
  rw [read_bytes]
  constructor
  · intro hshort
    rw [if_neg (Nat.not_le.mpr hshort)]
    exact ⟨part, rfl⟩
  · intro hlong
    rw [if_pos hlong]
    exact ⟨_, rfl⟩

theorem needs_word (width : Nat) (part : String) : Needs (word width part) width :=
  (needs_bytes width part).bind fun _ => needs_pure _

theorem needs_u8 (part : String) : Needs (u8 part) 1 :=
  (needs_word 1 part).bind fun _ => needs_pure _

theorem needs_u16 (part : String) : Needs (u16 part) 2 :=
  (needs_word 2 part).bind fun _ => needs_pure _

theorem needs_u32 (part : String) : Needs (u32 part) 4 :=
  (needs_word 4 part).bind fun _ => needs_pure _

theorem needs_u64 (part : String) : Needs (u64 part) 8 :=
  (needs_word 8 part).bind fun _ => needs_pure _

theorem read_u8_cons (part : String) (check : CountCheck) (byte : UInt8) (rest : List UInt8) :
    (u8 part).read check (byte :: rest) = .ok (byte, rest) :=
  (exact_u8 part check _ _ _).mpr ⟨trivial, by simp [BigEndian.toBytes]⟩

end Reader

/-! ## A constant and its slot -/

namespace Constant

/-- The written payload of a constant is as long as its front says. -/
theorem payloadSize_payload {constant : Constant} (h : constant.Fits) (rest : List UInt8) :
    constant.tag.payloadSize (constant.payload ++ rest) = constant.payload.length := by
  cases constant with
  | utf8 text =>
      have hlength : BigEndian.ofBytes (BigEndian.toBytes 2 text.utf8ByteSize) = text.utf8ByteSize :=
        BigEndian.ofBytes_toBytes_of_lt h
      simp [Constant.tag, Tag.payloadSize, payload, hlength]
  | _ => simp [Constant.tag, Tag.payloadSize, payload, length_indexBytes]

/-- The input ends before the constant at its front does. -/
inductive CutOff : List UInt8 → Prop where
  | tag : CutOff []
  | payload {tag : Tag} {payload : List UInt8} :
      payload.length < tag.payloadSize payload → CutOff (tag.byte :: payload)

/-- What stands in the place of a constant is none, and the error says why. -/
inductive Defect (index : Nat) : List UInt8 → FormatError → Prop where
  | cutOff {bytes : List UInt8} {part : String} :
      CutOff bytes → Defect index bytes (.unexpectedEnd part)
  | unknownTag {byte : UInt8} {rest : List UInt8} :
      (∀ tag : Tag, tag.byte ≠ byte) → Defect index (byte :: rest) (.unknownTag byte index)
  | invalidUtf8 {raw rest : List UInt8} :
      raw.length < 65536 → (∀ text : String, text.toUTF8.data.toList ≠ raw) →
        Defect index (Tag.utf8.byte :: (BigEndian.toBytes 2 raw.length ++ raw ++ rest))
          (.invalidUtf8 index)

variable {index : Nat} {tag : Tag} {byte : UInt8} {input payload raw rest : List UInt8}
variable {check : CountCheck} {error : FormatError}

theorem read_of_unknownTag (h : ∀ tag : Tag, tag.byte ≠ byte) :
    (read index).read check (byte :: rest) = .error (.unknownTag byte index) := by
  rw [read, read_bind, read_u8_cons]
  simp only [Except.bind, Tag.ofByte?_eq_none_iff.mpr h]
  rfl

theorem read_byte_cons (index : Nat) (tag : Tag) (check : CountCheck) (payload : List UInt8) :
    (read index).read check (tag.byte :: payload) =
      (readPayload index tag).read check payload := by
  rw [read, read_bind, read_u8_cons]
  simp only [Except.bind, Tag.ofByte?_byte]

theorem needs_readPayload (index : Nat) (payload : List UInt8) (htag : tag ≠ .utf8) :
    Needs (readPayload index tag) (tag.payloadSize payload) := by
  have hpair : ∀ make first second, Needs (readPair make first second) 4 := by
    intro make first second
    exact (needs_u16 first).bind fun _ => (needs_u16 second).bind fun _ => needs_pure _
  cases tag with
  | utf8 => exact absurd rfl htag
  | integer | float => exact (needs_u32 _).bind fun _ => needs_pure _
  | long | double => exact (needs_u64 _).bind fun _ => needs_pure _
  | methodHandle => exact (needs_u8 _).bind fun _ => (needs_u16 _).bind fun _ => needs_pure _
  | classRef | string | methodType | moduleRef | packageRef =>
      exact (needs_u16 _).bind fun _ => needs_pure _
  | fieldRef | methodRef | interfaceMethodRef | nameAndType | dynamic | invokeDynamic =>
      exact hpair _ _ _

theorem read_utf8 (hlength : raw.length < 65536) :
    (readPayload index .utf8).read check (BigEndian.toBytes 2 raw.length ++ raw ++ rest) =
      match String.fromUTF8? (ByteArray.mk raw.toArray) with
      | some text => .ok (.utf8 text, rest)
      | none => .error (.invalidUtf8 index) := by
  have hword : (Reader.word 2 "utf8 length").read check
      (BigEndian.toBytes 2 raw.length ++ raw ++ rest) = .ok (raw.length, raw ++ rest) :=
    (exact_word 2 _ check _ _ _).mpr ⟨hlength, List.append_assoc _ _ _⟩
  have hbytes : (Reader.bytes raw.length "utf8 bytes").read check (raw ++ rest) = .ok (raw, rest) :=
    (exact_bytes _ _ check _ _ _).mpr ⟨rfl, rfl⟩
  rw [readPayload, readUtf8, read_bind, hword]
  simp only [Except.bind]
  rw [read_bind, hbytes]
  simp only [Except.bind]
  cases String.fromUTF8? (ByteArray.mk raw.toArray) <;> rfl

theorem fromUTF8?_eq_none_iff :
    String.fromUTF8? (ByteArray.mk raw.toArray) = none ↔
      ∀ text : String, text.toUTF8.data.toList ≠ raw := by
  have htext : ∀ text : String, text.toUTF8 = ByteArray.mk raw.toArray ↔
      text.toUTF8.data.toList = raw := by
    intro text
    rw [ByteArray.ext_iff, ← Array.toList_inj]
  simp only [Option.eq_none_iff_forall_ne_some, ne_eq, fromUTF8?_eq_some_iff, htext]

theorem exists_raw_of_payloadSize_le (h : Tag.utf8.payloadSize payload ≤ payload.length) :
    ∃ raw rest, raw.length < 65536 ∧
      payload = BigEndian.toBytes 2 raw.length ++ raw ++ rest := by
  let length := BigEndian.ofBytes (payload.take 2)
  have hsize : 2 + length ≤ payload.length := h
  have hfront : (payload.take 2).length = 2 := List.length_take_of_le (by omega)
  have hraw : ((payload.drop 2).take length).length = length := by
    apply List.length_take_of_le
    rw [List.length_drop]
    omega
  have hlt : length < 256 ^ (payload.take 2).length := BigEndian.ofBytes_lt _
  have hbytes : BigEndian.toBytes (payload.take 2).length length = payload.take 2 :=
    BigEndian.toBytes_ofBytes _
  rw [hfront] at hlt hbytes
  refine ⟨(payload.drop 2).take length, (payload.drop 2).drop length, by rwa [hraw], ?_⟩
  rw [hraw, hbytes, List.append_assoc, List.take_append_drop, List.take_append_drop]

theorem exists_readUtf8_of_short (h : payload.length < Tag.utf8.payloadSize payload) :
    ∃ part, (readUtf8 index).read check payload = .error (.unexpectedEnd part) := by
  rw [readUtf8, read_bind]
  by_cases hlength : 2 ≤ payload.length
  · have hword : (Reader.word 2 "utf8 length").read check payload =
        .ok (BigEndian.ofBytes (payload.take 2), payload.drop 2) := by
      rw [word, read_bind, read_bytes, if_pos hlength]
      rfl
    have hshort : (payload.drop 2).length < BigEndian.ofBytes (payload.take 2) := by
      rw [Tag.payloadSize] at h
      rw [List.length_drop]
      omega
    rcases (needs_bytes _ "utf8 bytes" check _).1 hshort with ⟨part, hbytes⟩
    rw [hword]
    simp only [Except.bind]
    rw [read_bind, hbytes]
    exact ⟨part, rfl⟩
  · rcases (needs_word 2 "utf8 length" check payload).1 (Nat.lt_of_not_le hlength) with
      ⟨part, hword⟩
    rw [hword]
    exact ⟨part, rfl⟩

theorem exists_read_of_cutOff (index : Nat) (check : CountCheck) (h : CutOff input) :
    ∃ part, (read index).read check input = .error (.unexpectedEnd part) := by
  cases h with
  | tag => exact ⟨_, rfl⟩
  | @payload tag payload hshort =>
      rw [read_byte_cons]
      by_cases htag : tag = .utf8
      · subst htag
        exact exists_readUtf8_of_short hshort
      · exact (needs_readPayload index payload htag check payload).1 hshort

theorem read_of_not_text (hlength : raw.length < 65536)
    (h : ∀ text : String, text.toUTF8.data.toList ≠ raw) :
    (read index).read check (Tag.utf8.byte :: (BigEndian.toBytes 2 raw.length ++ raw ++ rest)) =
      .error (.invalidUtf8 index) := by
  rw [read_byte_cons, read_utf8 hlength, fromUTF8?_eq_none_iff.mpr h]

/-- A payload of which nothing is missing is that of a constant, or that of no text. -/
theorem defect_of_readPayload (hlong : tag.payloadSize payload ≤ payload.length)
    (h : (readPayload index tag).read check payload = .error error) :
    Defect index (tag.byte :: payload) error := by
  by_cases htag : tag = .utf8
  · subst htag
    rcases exists_raw_of_payloadSize_le hlong with ⟨raw, rest, hlength, rfl⟩
    rw [read_utf8 hlength] at h
    cases htext : String.fromUTF8? (ByteArray.mk raw.toArray) with
    | none =>
        rw [htext] at h
        cases h
        exact .invalidUtf8 hlength (fromUTF8?_eq_none_iff.mp htext)
    | some text =>
        rw [htext] at h
        cases h
  · rcases (needs_readPayload index payload htag check payload).2 hlong with ⟨constant, hread⟩
    rw [h] at hread
    cases hread

theorem defect_of_read (h : (read index).read check input = .error error) :
    Defect index input error := by
  by_cases hcut : CutOff input
  · rcases exists_read_of_cutOff index check hcut with ⟨part, hread⟩
    rw [h] at hread
    cases hread
    exact .cutOff hcut
  · cases input with
    | nil => exact absurd .tag hcut
    | cons byte payload =>
        cases hfound : Tag.ofByte? byte with
        | none =>
            have hunknown := Tag.ofByte?_eq_none_iff.mp hfound
            rw [read_of_unknownTag hunknown] at h
            cases h
            exact .unknownTag hunknown
        | some tag =>
            have hbyte : tag.byte = byte := Tag.byte_of_ofByte? hfound
            subst hbyte
            rw [read_byte_cons] at h
            apply defect_of_readPayload _ h
            exact Nat.le_of_not_lt fun hshort => hcut (.payload hshort)

end Constant

/-! ## Pools -/

namespace Pool

variable {remaining count index : Nat} {slots : Array (Option Constant)} {check : CountCheck}
variable {constants : List Constant} {input bytes rest : List UInt8} {error : FormatError}

/-- Constants that fit stand at the front of the bytes and fill the slots in front of the one at the
index, and that one is still among the `count` slots of the pool. -/
def Reaches (count : Nat) (bytes : List UInt8) (index : Nat) (rest : List UInt8) : Prop :=
  ∃ constants : List Constant, (∀ constant ∈ constants, constant.Fits) ∧
    bytes = constants.flatMap Constant.toBytes ++ rest ∧ index = 1 + slotCount constants ∧
      index < count

/-- Reading constants fills their slots and goes on behind them. -/
theorem readSlots_flatMap (hfits : ∀ constant ∈ constants, constant.Fits)
    (slots : Array (Option Constant)) :
    (readSlots (slotCount constants + remaining) slots).read check
        (constants.flatMap Constant.toBytes ++ rest) =
      (readSlots remaining (slots ++ (constants.flatMap pushed).toArray)).read check rest := by
  induction constants generalizing slots with
  | nil => simp [slotCount]
  | cons constant constants ih =>
      have hfirst : (Constant.read slots.size).read check
          ((constant :: constants).flatMap Constant.toBytes ++ rest) =
            .ok (constant, constants.flatMap Constant.toBytes ++ rest) := by
        rw [Constant.exact_read]
        exact ⟨hfits constant (by simp), by simp⟩
      have hpositive := constant.slots_pos
      have hslots : slotCount (constant :: constants) + remaining =
          (constant.slots - 1 + slotCount constants + remaining) + 1 := by
        rw [slotCount_cons]
        omega
      have hbehind : constant.slots - 1 + slotCount constants + remaining + 1 - constant.slots =
          slotCount constants + remaining := by omega
      rw [hslots, readSlots_succ_eq, read_bind, hfirst]
      simp only [Except.bind]
      rw [if_pos (by omega), hbehind, ih fun other hother => hfits other (by simp [hother])]
      simp

theorem readSlots_of_read_error (hfits : ∀ constant ∈ constants, constant.Fits)
    (hless : slotCount constants < remaining)
    (h : (Constant.read (slots.size + slotCount constants)).read check rest = .error error) :
    (readSlots remaining slots).read check (constants.flatMap Constant.toBytes ++ rest) =
      .error error := by
  have hsize : (slots ++ (constants.flatMap pushed).toArray).size =
      slots.size + slotCount constants := by
    rw [Array.size_append, ← length_flatMap_pushed]
    rfl
  rcases Nat.exists_eq_add_of_lt hless with ⟨k, rfl⟩
  rw [Nat.add_assoc, readSlots_flatMap hfits, readSlots_succ_eq, read_bind_eq_error_iff, hsize]
  exact .inl h

theorem exists_read_error_of_readSlots
    (h : (readSlots remaining slots).read check input = .error error) :
    ∃ constants rest, (∀ constant ∈ constants, constant.Fits) ∧
      input = constants.flatMap Constant.toBytes ++ rest ∧ slotCount constants < remaining ∧
        (Constant.read (slots.size + slotCount constants)).read check rest = .error error := by
  -- a wide constant fills two slots at once, so the induction skips one
  induction remaining using Nat.strong_induction_on generalizing slots input with
  | _ remaining ih =>
      cases remaining with
      | zero => cases h
      | succ remaining =>
          rw [readSlots_succ_eq] at h
          rcases read_bind_eq_error_iff.mp h with hfirst | ⟨constant, middle, hfirst, hbehind⟩
          · exact ⟨[], input, by simp, rfl, Nat.succ_pos _, hfirst⟩
          · rcases (Constant.exact_read _ check _ _ _).mp hfirst with ⟨hfits, rfl⟩
            by_cases hslots : constant.slots ≤ remaining + 1
            · have hpositive := constant.slots_pos
              rw [if_pos hslots] at hbehind
              rcases ih _ (by omega) hbehind with ⟨constants, rest, hothers, rfl, hless, herror⟩
              refine ⟨constant :: constants, rest, ?_, ?_, ?_, ?_⟩
              · simpa using ⟨hfits, hothers⟩
              · simp
              · rw [slotCount_cons]
                omega
              · rwa [slotCount_cons, ← Nat.add_assoc, ← size_append_pushed]
            · -- the wide constant in the last slot is the last one that is read
              rw [if_neg hslots] at hbehind
              cases hbehind

theorem read_eq_error_iff (hcount : count < 65536)
    (hcheck : (count - 1) * minSlotSize ≤ bytes.length) :
    read.read .upFront (BigEndian.toBytes 2 count ++ bytes) = .error error ↔
      ∃ index rest, Reaches count bytes index rest ∧
        (Constant.read index).read .upFront rest = .error error := by
  have hword : (Reader.word 2 "constant pool count").read .upFront
      (BigEndian.toBytes 2 count ++ bytes) = .ok (count, bytes) :=
    (exact_word 2 _ .upFront _ _ _).mpr ⟨hcount, rfl⟩
  have hchecked : (checkCount "constant pool" (count - 1) minSlotSize).read .upFront bytes =
      .ok ((), bytes) := by
    rw [read_checkCount, if_neg fun hshort => Nat.not_lt.mpr hcheck hshort.2]
  rw [read, read_bind, hword]
  simp only [Except.bind]
  rw [read_bind, hchecked]
  simp only [Except.bind]
  by_cases hzero : count = 0
  · rw [if_pos hzero]
    constructor
    · intro h
      cases h
    · rintro ⟨index, rest, ⟨_, _, _, _, hless⟩, _⟩
      omega
  · rw [if_neg hzero, read_bind_eq_error_iff]
    simp only [read_pure, reduceCtorEq, and_false, exists_false, or_false]
    constructor
    · intro h
      rcases exists_read_error_of_readSlots h with
        ⟨constants, rest, hfits, hbytes, hless, herror⟩
      exact ⟨1 + slotCount constants, rest, ⟨constants, hfits, hbytes, rfl, by omega⟩, herror⟩
    · rintro ⟨index, rest, ⟨constants, hfits, rfl, rfl, hless⟩, herror⟩
      exact readSlots_of_read_error hfits (by omega) herror

/-- A pool whose number of slots was not refused is read up to its first defect, and nothing else
makes reading fail.  When the constants in front of it fill the slots before an index, then a byte
there that is no tag is reported with that index, and so are the bytes of a text that are not UTF-8.
A constant there that is cut off is reported as the end of the input. -/
theorem read_defects (hcount : count < 65536)
    (hcheck : (count - 1) * minSlotSize ≤ bytes.length) :
    let result := read.read .upFront (BigEndian.toBytes 2 count ++ bytes)
    (∀ byte index, result = .error (.unknownTag byte index) ↔
      (∀ tag : Tag, tag.byte ≠ byte) ∧ ∃ rest, Reaches count bytes index (byte :: rest)) ∧
    (∀ index, result = .error (.invalidUtf8 index) ↔
      ∃ raw rest, raw.length < 65536 ∧ (∀ text : String, text.toUTF8.data.toList ≠ raw) ∧
        Reaches count bytes index
          (Tag.utf8.byte :: (BigEndian.toBytes 2 raw.length ++ raw ++ rest))) ∧
    ((∃ part, result = .error (.unexpectedEnd part)) ↔
      ∃ index rest, Reaches count bytes index rest ∧ Constant.CutOff rest) ∧
    ∀ error, result = .error error →
      (∃ byte index, error = .unknownTag byte index) ∨ (∃ index, error = .invalidUtf8 index) ∨
        ∃ part, error = .unexpectedEnd part := by
  intro result
  have hresult : ∀ error, result = .error error ↔ ∃ index rest, Reaches count bytes index rest ∧
      (Constant.read index).read .upFront rest = .error error :=
    fun error => read_eq_error_iff hcount hcheck
  refine ⟨?_, ?_, ?_, ?_⟩
  · intro byte index
    rw [hresult]
    constructor
    · rintro ⟨_, _, hreaches, herror⟩
      cases Constant.defect_of_read herror with
      | unknownTag htag => exact ⟨htag, _, hreaches⟩
    · rintro ⟨htag, rest, hreaches⟩
      exact ⟨index, _, hreaches, Constant.read_of_unknownTag htag⟩
  · intro index
    rw [hresult]
    constructor
    · rintro ⟨_, _, hreaches, herror⟩
      cases Constant.defect_of_read herror with
      | invalidUtf8 hlength htext => exact ⟨_, _, hlength, htext, hreaches⟩
    · rintro ⟨raw, rest, hlength, htext, hreaches⟩
      exact ⟨index, _, hreaches, Constant.read_of_not_text hlength htext⟩
  · simp only [hresult]
    constructor
    · rintro ⟨part, index, rest, hreaches, herror⟩
      cases Constant.defect_of_read herror with
      | cutOff hcut => exact ⟨index, rest, hreaches, hcut⟩
    · rintro ⟨index, rest, hreaches, hcut⟩
      rcases Constant.exists_read_of_cutOff index .upFront hcut with ⟨part, herror⟩
      exact ⟨part, index, rest, hreaches, herror⟩
  · intro error h
    rcases (hresult error).mp h with ⟨_, _, _, herror⟩
    cases Constant.defect_of_read herror with
    | cutOff _ => exact .inr (.inr ⟨_, rfl⟩)
    | unknownTag _ => exact .inl ⟨_, _, rfl⟩
    | invalidUtf8 _ _ => exact .inr (.inl ⟨_, rfl⟩)

/-- Behind two wide constants and a text the slot is the sixth, though the constant is the fourth. -/
theorem read_defects_behindWide :
    let front : List UInt8 :=
      [0, 7, 0x05, 0, 0, 0, 0, 0, 0, 0, 5, 0x01, 0, 2, 0xc3, 0xa9,
        0x06, 0x7f, 0xf8, 0, 0, 0, 0, 0, 0x2a]
    read.read .upFront (front ++ [0x02, 0, 0]) = .error (.unknownTag 2 6) ∧
      read.read .upFront (front ++ [0x01, 0, 2, 0xc3, 0x28, 0xff]) = .error (.invalidUtf8 6) ∧
      ∃ part, read.read .upFront (front ++ [0x01, 0, 3, 0xc3, 0x28]) =
        .error (.unexpectedEnd part) := by
  intro front
  let constants : List Constant := [.long 5, .utf8 "é", .double ⟨0x7ff800000000002a⟩]
  have htexts : ∀ text, Constant.utf8 text ∈ constants → text.utf8ByteSize ≤ 65535 := by
    intro text hmem
    have htext : text = "é" := by simpa [constants] using hmem
    rw [htext]
    decide
  have hfront : front = BigEndian.toBytes 2 7 ++ constants.flatMap Constant.toBytes := by
    decide +kernel
  have hlength : (constants.flatMap Constant.toBytes).length = 23 := by decide +kernel
  have hcheck : ∀ rest : List UInt8,
      (7 - 1) * minSlotSize ≤ (constants.flatMap Constant.toBytes ++ rest).length := by
    intro rest
    rw [List.length_append, hlength, minSlotSize]
    omega
  have hreaches : ∀ rest, Reaches 7 (constants.flatMap Constant.toBytes ++ rest) 6 rest :=
    fun rest => ⟨constants, Constant.fits_of_texts htexts, rfl, by decide, by decide⟩
  rw [hfront, List.append_assoc, List.append_assoc, List.append_assoc]
  refine ⟨?_, ?_, ?_⟩
  · apply ((read_defects (by decide) (hcheck _)).1 2 6).mpr
    refine ⟨?_, _, hreaches _⟩
    intro tag
    cases tag <;> decide
  · apply ((read_defects (by decide) (hcheck _)).2.1 6).mpr
    refine ⟨[0xc3, 0x28], [0xff], by decide, ?_, hreaches _⟩
    apply Constant.fromUTF8?_eq_none_iff.mp
    decide +kernel
  · apply (read_defects (by decide) (hcheck _)).2.2.1.mpr
    exact ⟨6, _, hreaches _, @Constant.CutOff.payload .utf8 _ (by decide)⟩

end Pool

end ClassMachine
