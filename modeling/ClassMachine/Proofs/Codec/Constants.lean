import ClassMachine.Constant.Codec
import ClassMachine.Proofs.Codec.Exact

/-!
# Reading constants back

The payload reader of a tag is exact for the constants of that tag, so reading a
constant is exact for all of them.  Only a text can be too long to fit: its length
has two bytes.
-/

namespace ClassMachine

open Reader

namespace Constant

/-- The length of a text can be written in two bytes. -/
def Fits : Constant → Prop
  | .utf8 text => text.utf8ByteSize < 65536
  | _ => True

theorem fits_of_texts {constants : List Constant}
    (htexts : ∀ text, .utf8 text ∈ constants → text.utf8ByteSize ≤ 65535) :
    ∀ constant ∈ constants, constant.Fits := by
  intro constant hconstant
  cases constant with
  | utf8 text => exact Nat.lt_succ_of_le (htexts text hconstant)
  | _ => trivial

theorem fromUTF8?_eq_some_iff {raw : ByteArray} {text : String} :
    String.fromUTF8? raw = some text ↔ text.toUTF8 = raw := by
  rw [String.toUTF8_eq_toByteArray]
  unfold String.fromUTF8?
  constructor
  · intro h
    split at h
    next hvalid =>
      cases h
      rfl
    next => cases h
  · rintro rfl
    rw [dif_pos text.isValidUTF8]
    rfl

theorem length_toUTF8 (text : String) : text.toUTF8.data.toList.length = text.utf8ByteSize := rfl

theorem exact_readUtf8 (index : Nat) :
    Exact (readUtf8 index) payload (fun constant => constant.tag = .utf8 ∧ constant.Fits) := by
  intro check input constant rest
  simp only [readUtf8, read_bind_eq_ok_iff, exact_word 2 _ check _ _ _,
    exact_bytes _ _ check _ _ _]
  constructor
  · rintro ⟨length, _, ⟨hlength, rfl⟩, raw, _, ⟨rfl, rfl⟩, hread⟩
    cases htext : String.fromUTF8? (ByteArray.mk raw.toArray) with
    | none =>
        rw [htext] at hread
        cases hread
    | some text =>
        rw [htext] at hread
        obtain ⟨rfl, rfl⟩ := read_pure_eq_ok_iff.mp hread
        have hbytes : text.toUTF8.data.toList = raw := by
          rw [fromUTF8?_eq_some_iff.mp htext]
        subst hbytes
        rw [length_toUTF8] at hlength
        exact ⟨⟨rfl, hlength⟩, (List.append_assoc _ _ _).symm⟩
  · rintro ⟨⟨htag, hfits⟩, rfl⟩
    cases constant with
    | utf8 text =>
        let raw := text.toUTF8.data.toList
        have hread : String.fromUTF8? (ByteArray.mk raw.toArray) = some text :=
          fromUTF8?_eq_some_iff.mpr (by rw [Array.toArray_toList])
        refine ⟨raw.length, raw ++ rest, ⟨hfits, List.append_assoc _ _ _⟩,
          raw, rest, ⟨rfl, rfl⟩, ?_⟩
        rw [hread]
        rfl
    | _ => cases htag

theorem exact_readPair {make : UInt16 → UInt16 → Constant} {Fits' : Constant → Prop}
    (first second : String)
    (hmake : ∀ a b, (make a b).payload = indexBytes a ++ indexBytes b)
    (hfits : ∀ constant, Fits' constant ↔ ∃ a b, make a b = constant) :
    Exact (readPair make first second) payload Fits' := by
  intro check input constant rest
  simp only [readPair, read_bind_eq_ok_iff, read_pure_eq_ok_iff, exact_u16 _ check _ _ _]
  constructor
  · rintro ⟨a, _, ⟨_, rfl⟩, b, _, ⟨_, rfl⟩, rfl, rfl⟩
    exact ⟨(hfits _).mpr ⟨a, b, rfl⟩, by rw [hmake, List.append_assoc]; rfl⟩
  · rintro ⟨hconstant, rfl⟩
    obtain ⟨a, b, rfl⟩ := (hfits constant).mp hconstant
    refine ⟨a, indexBytes b ++ rest, ⟨trivial, ?_⟩, b, rest, ⟨trivial, rfl⟩, rfl, rfl⟩
    rw [hmake, List.append_assoc]
    rfl

theorem exact_readMethodHandle (kindPart referencePart : String) :
    Exact
      (do
        let kind ← Reader.u8 kindPart
        let reference ← Reader.u16 referencePart
        return .methodHandle kind reference)
      payload (fun constant => constant.tag = .methodHandle ∧ constant.Fits) := by
  intro check input constant rest
  simp only [read_bind_eq_ok_iff, read_pure_eq_ok_iff, exact_u8 _ check _ _ _,
    exact_u16 _ check _ _ _]
  constructor
  · rintro ⟨kind, _, ⟨_, rfl⟩, reference, _, ⟨_, rfl⟩, rfl, rfl⟩
    exact ⟨⟨rfl, trivial⟩, by simp [payload, indexBytes, BigEndian.toBytes]⟩
  · rintro ⟨⟨htag, _⟩, rfl⟩
    cases constant with
    | methodHandle kind reference =>
        exact ⟨kind, indexBytes reference ++ rest,
          ⟨trivial, by simp [payload, BigEndian.toBytes]⟩,
          reference, rest, ⟨trivial, rfl⟩, rfl, rfl⟩
    | _ => cases htag

theorem exact_readPayload (index : Nat) (tag : Tag) :
    Exact (readPayload index tag) payload
      (fun constant => constant.tag = tag ∧ constant.Fits) := by
  cases tag with
  | utf8 => exact exact_readUtf8 index
  | integer =>
      apply (exact_u32 _).map
      · exact fun n _ => by rw [payload, UInt32.toUInt32_toInt32]
      · intro constant
        cases constant with
        | integer value => simpa [Constant.tag, Fits] using ⟨_, Int32.toInt32_toUInt32 value⟩
        | _ => simp [Constant.tag]
  | float =>
      apply (exact_u32 _).map
      · exact fun n _ => rfl
      · intro constant
        cases constant <;> simp [Constant.tag, Fits]
  | long =>
      apply (exact_u64 _).map
      · exact fun n _ => by rw [payload, UInt64.toUInt64_toInt64]
      · intro constant
        cases constant with
        | long value => simpa [Constant.tag, Fits] using ⟨_, Int64.toInt64_toUInt64 value⟩
        | _ => simp [Constant.tag]
  | double =>
      apply (exact_u64 _).map
      · exact fun n _ => rfl
      · intro constant
        cases constant <;> simp [Constant.tag, Fits]
  | methodHandle => exact exact_readMethodHandle _ _
  | classRef | string | methodType | moduleRef | packageRef =>
      apply (exact_u16 _).map
      · exact fun n _ => rfl
      · intro constant
        cases constant <;> simp [Constant.tag, Fits]
  | fieldRef | methodRef | interfaceMethodRef | nameAndType | dynamic | invokeDynamic =>
      apply exact_readPair
      · exact fun a b => rfl
      · intro constant
        cases constant <;> simp [Constant.tag, Fits]

theorem exact_read (index : Nat) : Exact (read index) toBytes Fits := by
  intro check input constant rest
  simp only [read, read_bind_eq_ok_iff, exact_u8 _ check _ _ _]
  constructor
  · rintro ⟨byte, _, ⟨_, rfl⟩, hread⟩
    cases htag : Tag.ofByte? byte with
    | none =>
        rw [htag] at hread
        cases hread
    | some tag =>
        rw [htag] at hread
        obtain ⟨⟨rfl, hfits⟩, rfl⟩ := (exact_readPayload index tag check _ _ _).mp hread
        have hbyte := Tag.byte_of_ofByte? htag
        refine ⟨hfits, ?_⟩
        simp [toBytes, BigEndian.toBytes, hbyte]
  · rintro ⟨hfits, rfl⟩
    refine ⟨constant.tag.byte, constant.payload ++ rest,
      ⟨trivial, by simp [toBytes, BigEndian.toBytes]⟩, ?_⟩
    rw [Tag.ofByte?_byte]
    exact (exact_readPayload index constant.tag check _ _ _).mpr ⟨⟨rfl, hfits⟩, rfl⟩

/-! ## Sizes -/

theorem length_indexBytes (index : UInt16) : (indexBytes index).length = 2 :=
  BigEndian.toBytes_length 2 index.toNat

theorem slots_pos (constant : Constant) : 0 < constant.slots := by
  unfold slots
  split <;> omega

/-- A slot takes up at least three bytes, and a wide constant fills two slots. -/
theorem slots_mul_three_le_length_toBytes (constant : Constant) :
    constant.slots * 3 ≤ constant.toBytes.length := by
  cases constant <;>
    simp [slots, isWide, Constant.tag, Tag.isWide, toBytes, payload, length_indexBytes]

end Constant

end ClassMachine
