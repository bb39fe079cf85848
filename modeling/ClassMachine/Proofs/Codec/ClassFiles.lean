import ClassMachine.ClassFile.Codec
import ClassMachine.Proofs.Codec.Pools

/-!
# Reading class files back

Attributes, members and class files are rows of exact readers, so their readers are
exact for the values whose counts and lengths fit in their fields.  Parsing adds that
nothing may follow, and so accepts exactly the written forms of the class files that
fit, whether counts are checked up front or not.

Two consequences are stated apart: a parsed class file is written back byte for byte,
and a class file that was put together from a built pool is parsed back.
-/

namespace ClassMachine

open Reader

namespace Attribute

/-- The length of the payload can be written in four bytes. -/
def Fits (a : Attribute) : Prop := a.info.length < 256 ^ 4

theorem minSize_le_length_toBytes (a : Attribute) : minSize ≤ a.toBytes.length := by
  simp only [minSize, toBytes, List.length_append, BigEndian.toBytes_length]
  omega

theorem exact_read : Exact read toBytes Fits := by
  intro check input a rest
  simp only [read, read_bind_eq_ok_iff, read_pure_eq_ok_iff, exact_u16 _ check _ _ _,
    exact_word 4 _ check _ _ _, exact_bytes _ _ check _ _ _]
  constructor
  · rintro ⟨nameIndex, _, ⟨_, rfl⟩, length, _, ⟨hlength, rfl⟩, info, _, ⟨rfl, rfl⟩, rfl, rfl⟩
    exact ⟨hlength, by simp [toBytes]⟩
  · rintro ⟨hfits, rfl⟩
    exact ⟨a.nameIndex, _, ⟨trivial, by simp [toBytes]⟩, a.info.length, _, ⟨hfits, rfl⟩,
      a.info, rest, ⟨rfl, rfl⟩, rfl, rfl⟩

/-- The attributes of a list can be counted in two bytes, and fit one by one. -/
def ListFits (attributes : List Attribute) : Prop :=
  attributes.length < 65536 ∧ ∀ a ∈ attributes, a.Fits

theorem exact_readList : Exact readList listToBytes ListFits :=
  exact_counted exact_read _ fun a _ => a.minSize_le_length_toBytes

end Attribute

namespace Member

def Fits (m : Member) : Prop := Attribute.ListFits m.attributes

theorem minSize_le_length_toBytes (m : Member) : minSize ≤ m.toBytes.length := by
  simp only [minSize, toBytes, Attribute.listToBytes, List.length_append,
    BigEndian.toBytes_length]
  omega

theorem exact_read : Exact read toBytes Fits := by
  intro check input m rest
  simp only [read, read_bind_eq_ok_iff, read_pure_eq_ok_iff, exact_u16 _ check _ _ _,
    Attribute.exact_readList check _ _ _]
  constructor
  · rintro ⟨accessFlags, _, ⟨_, rfl⟩, nameIndex, _, ⟨_, rfl⟩, descriptorIndex, _, ⟨_, rfl⟩,
      attributes, _, ⟨hattributes, rfl⟩, rfl, rfl⟩
    exact ⟨hattributes, by simp [toBytes]⟩
  · rintro ⟨hfits, rfl⟩
    exact ⟨m.accessFlags, _, ⟨trivial, by simp [toBytes]⟩, m.nameIndex, _, ⟨trivial, rfl⟩,
      m.descriptorIndex, _, ⟨trivial, rfl⟩, m.attributes, rest, ⟨hfits, rfl⟩, rfl, rfl⟩

def ListFits (members : List Member) : Prop :=
  members.length < 65536 ∧ ∀ m ∈ members, m.Fits

theorem exact_readList (part : String) : Exact (readList part) listToBytes ListFits :=
  exact_counted exact_read part fun m _ => m.minSize_le_length_toBytes

end Member

namespace ClassFile

/-- Every count and every length in a class file can be written, and the pool is one that
can be read back. -/
structure Fits (c : ClassFile) : Prop where
  magic_eq : c.magic = magicNumber
  pool : c.pool.Fits
  interfaces : c.interfaces.length < 65536
  fields : Member.ListFits c.fields
  methods : Member.ListFits c.methods
  attributes : Attribute.ListFits c.attributes

theorem exact_readMagic :
    Exact readMagic (fun magic => BigEndian.toBytes 4 magic.toNat) (· = magicNumber) := by
  intro check input magic rest
  simp only [readMagic, read_bind_eq_ok_iff, exact_u32 _ check _ _ _]
  constructor
  · rintro ⟨found, _, ⟨_, rfl⟩, hread⟩
    split at hread
    next hmagic =>
      obtain ⟨rfl, rfl⟩ := read_pure_eq_ok_iff.mp hread
      exact ⟨hmagic, rfl⟩
    next => cases hread
  · rintro ⟨rfl, rfl⟩
    exact ⟨magicNumber, rest, ⟨trivial, rfl⟩, rfl⟩

theorem exact_readInterfaces :
    Exact (Reader.counted "interfaces count" interfaceSize (Reader.u16 "interface index"))
      (fun interfaces => BigEndian.toBytes 2 interfaces.length ++
        interfaces.flatMap fun index => BigEndian.toBytes 2 index.toNat)
      (fun interfaces => interfaces.length < 65536) := by
  intro check input interfaces rest
  have hcounted : Exact (Reader.counted "interfaces count" interfaceSize
      (Reader.u16 "interface index")) _ _ :=
    exact_counted (exact_u16 _) _ fun index _ => (BigEndian.toBytes_length 2 index.toNat).ge
  simpa using hcounted check input interfaces rest

theorem exact_read : Exact read toBytes Fits := by
  intro check input c rest
  simp only [read, read_bind_eq_ok_iff, read_pure_eq_ok_iff, exact_u16 _ check _ _ _,
    exact_readMagic check _ _ _, Pool.exact_read check _ _ _, exact_readInterfaces check _ _ _,
    Member.exact_readList _ check _ _ _, Attribute.exact_readList check _ _ _]
  constructor
  · rintro ⟨magic, _, ⟨hmagic, rfl⟩, minorVersion, _, ⟨_, rfl⟩, majorVersion, _, ⟨_, rfl⟩,
      pool, _, ⟨hpool, rfl⟩, accessFlags, _, ⟨_, rfl⟩, thisClass, _, ⟨_, rfl⟩,
      superClass, _, ⟨_, rfl⟩, interfaces, _, ⟨hinterfaces, rfl⟩, fields, _, ⟨hfields, rfl⟩,
      methods, _, ⟨hmethods, rfl⟩, attributes, _, ⟨hattributes, rfl⟩, rfl, rfl⟩
    refine ⟨⟨hmagic, hpool, hinterfaces, hfields, hmethods, hattributes⟩, ?_⟩
    simp only [toBytes, List.append_assoc]
  · rintro ⟨hfits, rfl⟩
    refine ⟨c.magic, _, ⟨hfits.magic_eq, by simp only [toBytes, List.append_assoc]⟩,
      c.minorVersion, _, ⟨trivial, rfl⟩, c.majorVersion, _, ⟨trivial, rfl⟩,
      c.pool, _, ⟨hfits.pool, rfl⟩, c.accessFlags, _, ⟨trivial, rfl⟩,
      c.thisClass, _, ⟨trivial, rfl⟩, c.superClass, _, ⟨trivial, rfl⟩,
      c.interfaces, _, ⟨hfits.interfaces, rfl⟩,
      c.fields, _, ⟨hfits.fields, rfl⟩, c.methods, _, ⟨hfits.methods, rfl⟩,
      c.attributes, rest, ⟨hfits.attributes, rfl⟩, rfl, rfl⟩

/-- Parsing accepts the written forms of the class files that fit, and nothing else. -/
theorem parseWith_eq_ok_iff {check : CountCheck} {bytes : List UInt8} {c : ClassFile} :
    parseWith check bytes = .ok c ↔ c.Fits ∧ bytes = c.toBytes := by
  have hread := exact_read check bytes
  unfold parseWith
  constructor
  · intro h
    cases hresult : read.read check bytes with
    | error error =>
        rw [hresult] at h
        cases h
    | ok result =>
        obtain ⟨parsed, rest⟩ := result
        rw [hresult] at h
        obtain ⟨hfits, hbytes⟩ := (hread parsed rest).mp hresult
        cases rest with
        | nil =>
            cases h
            exact ⟨hfits, by rw [hbytes, List.append_nil]⟩
        | cons byte rest => cases h
  · rintro ⟨hfits, hbytes⟩
    have hresult := (hread c []).mpr ⟨hfits, by rw [hbytes, List.append_nil]⟩
    rw [hresult]
    rfl

end ClassFile

end ClassMachine
