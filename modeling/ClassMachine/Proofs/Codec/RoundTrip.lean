import ClassMachine.Proofs.Codec.ClassFiles

/-!
# Round trips of class files

Writing a parsed class file gives back its bytes.  Parsing a written class file gives
it back when its pool was built by pushing constants and its counts, texts and payloads
are within the limits of their fields.
-/

namespace ClassMachine

namespace ClassFile

theorem toBytes_of_parse {bytes : List UInt8} {c : ClassFile} (h : parse bytes = .ok c) :
    c.toBytes = bytes :=
  (parseWith_eq_ok_iff.mp h).2.symm

/-- The last declared slot holds a wide constant, here a pattern of bits that is not a number,
and no empty slot stands behind it. -/
theorem toBytes_of_parse_lastWide :
    let bytes : List UInt8 :=
      [0xca, 0xfe, 0xba, 0xbe, 0x00, 0x03, 0x00, 0x34, 0x00, 0x02, 0x06, 0x7f, 0xf8, 0x00, 0x00,
        0x00, 0x00, 0x00, 0x2a, 0x00, 0x21, 0x00, 0x00, 0x00, 0x07, 0x00, 0x01, 0x12, 0x34, 0x00,
        0x00, 0x00, 0x01, 0x00, 0x09, 0x00, 0x01, 0x00, 0x01, 0x00, 0x01, 0x00, 0x05, 0x00, 0x00,
        0x00, 0x02, 0xaa, 0xbb, 0x00, 0x00]
    let c : ClassFile :=
      { magic := magicNumber
        minorVersion := 3
        majorVersion := 52
        pool := ⟨#[none, some (.double ⟨0x7ff800000000002a⟩)]⟩
        accessFlags := 0x21
        thisClass := 0
        superClass := 7
        interfaces := [0x1234]
        fields := []
        methods := [⟨9, 1, 1, [⟨5, [0xaa, 0xbb]⟩]⟩]
        attributes := [] }
    parse bytes = .ok c ∧ c.toBytes = bytes := by
  intro bytes c
  have h : parse bytes = .ok c := by decide +kernel
  exact ⟨h, toBytes_of_parse h⟩

theorem parse_toBytes_of_pushed {c : ClassFile} {constants : List Constant}
    (hmagic : c.magic = magicNumber) (hpool : c.pool = Pool.ofConstants constants)
    (hslots : c.pool.size ≤ 65535)
    (htexts : ∀ text, Constant.utf8 text ∈ constants → text.utf8ByteSize ≤ 65535)
    (hinterfaces : c.interfaces.length ≤ 65535) (hfields : c.fields.length ≤ 65535)
    (hmethods : c.methods.length ≤ 65535) (hattributes : c.attributes.length ≤ 65535)
    (hmembers : ∀ m ∈ c.fields ++ c.methods, m.attributes.length ≤ 65535)
    (hpayloads : ∀ a ∈ c.attributes ++ (c.fields ++ c.methods).flatMap Member.attributes,
      a.info.length < 2 ^ 32) :
    parse c.toBytes = .ok c := by
  have hconstants : ∀ constant ∈ constants, constant.Fits := Constant.fits_of_texts htexts
  have hpoolFits : c.pool.Fits := by
    rw [hpool] at hslots ⊢
    exact Pool.fits_ofConstants (Nat.lt_succ_of_le hslots) hconstants
  have hmemberFits : ∀ m ∈ c.fields ++ c.methods, m.Fits := by
    intro m hm
    refine ⟨Nat.lt_succ_of_le (hmembers m hm), fun a ha => ?_⟩
    exact hpayloads a (List.mem_append_right _ (List.mem_flatMap.mpr ⟨m, hm, ha⟩))
  refine parseWith_eq_ok_iff.mpr ⟨?_, rfl⟩
  exact {
    magic_eq := hmagic
    pool := hpoolFits
    interfaces := Nat.lt_succ_of_le hinterfaces
    fields := ⟨Nat.lt_succ_of_le hfields, fun m hm => hmemberFits m (List.mem_append_left _ hm)⟩
    methods := ⟨Nat.lt_succ_of_le hmethods, fun m hm => hmemberFits m (List.mem_append_right _ hm)⟩
    attributes := ⟨Nat.lt_succ_of_le hattributes,
      fun a ha => hpayloads a (List.mem_append_left _ ha)⟩ }

/-- A text, wide constants in the middle and at the end, and attributes at every level. -/
theorem parse_toBytes_of_pushed_mixed :
    let constants : List Constant :=
      [.utf8 "é", .long (-1), .float ⟨0x7fc00001⟩, .methodHandle 6 1, .double ⟨0x8000000000000000⟩]
    let c : ClassFile :=
      { magic := magicNumber
        minorVersion := 0
        majorVersion := 52
        pool := Pool.ofConstants constants
        accessFlags := 0x21
        thisClass := 1
        superClass := 0
        interfaces := [1, 2]
        fields := [⟨2, 1, 1, []⟩]
        methods := [⟨9, 1, 1, [⟨1, [0xaa]⟩, ⟨1, []⟩]⟩]
        attributes := [⟨1, [1, 2, 3]⟩] }
    c.pool.slots.size = 8 ∧ parse c.toBytes = .ok c := by
  intro constants c
  have htexts : ∀ text, Constant.utf8 text ∈ constants → text.utf8ByteSize ≤ 65535 := by
    intro text hmem
    have htext : text = "é" := by simpa [constants] using hmem
    rw [htext]
    decide
  exact ⟨by decide, parse_toBytes_of_pushed rfl rfl (by decide) htexts (by decide) (by decide)
    (by decide) (by decide) (by decide) (by decide)⟩

end ClassFile

end ClassMachine
