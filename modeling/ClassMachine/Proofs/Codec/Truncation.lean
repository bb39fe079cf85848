import ClassMachine.Proofs.Codec.ClassFiles
import ClassMachine.Proofs.Codec.Composition

/-!
# Truncated and extended class files

On the front of an input a reader either finds it too short, or does with it what it does with all
of the input and leaves the rest behind.  So a reader that accepted all of an input finds every
front of it too short, and what is put behind an accepted input is left over.

Counts that are compared up front with the rest of the input are no exception: they are refused for
the shorter rest earlier than for the longer one, and nowhere else.
-/

namespace ClassMachine

namespace FormatError

/-- The input was too short. -/
inductive IsShort : FormatError → Prop where
  | unexpectedEnd {part : String} : IsShort (.unexpectedEnd part)
  | countExceedsInput {part : String} {count remaining : Nat} :
      IsShort (.countExceedsInput part count remaining)

end FormatError

namespace Reader

/-- Leaves some more bytes behind a value that was read. -/
def leaving (tail : List UInt8) (result : Except FormatError (α × List UInt8)) :
    Except FormatError (α × List UInt8) :=
  result.map fun (a, rest) => (a, rest ++ tail)

/-- The reader finds the front of an input too short, or reads it as it reads all of the input. -/
def Truncates (reader : Reader α) : Prop :=
  ∀ check front tail,
    (∃ error, reader.read check front = .error error ∧ error.IsShort) ∨
      reader.read check (front ++ tail) = leaving tail (reader.read check front)

theorem truncates_pure (a : α) : Truncates (pure a) := fun _ _ _ => .inr rfl

theorem truncates_throw (error : FormatError) : Truncates (throw error : Reader α) :=
  fun _ _ _ => .inr rfl

theorem Truncates.bind {reader : Reader α} {next : α → Reader β} (hreader : Truncates reader)
    (hnext : ∀ a, Truncates (next a)) : Truncates (reader >>= next) := by
  intro check front tail
  rw [read_bind, read_bind]
  obtain ⟨error, hread, hshort⟩ | hread := hreader check front tail
  · left
    rw [hread]
    exact ⟨error, rfl, hshort⟩
  · rw [hread]
    cases reader.read check front with
    | error error => exact .inr rfl
    | ok result => exact hnext result.1 check result.2 tail

theorem truncates_bytes (count : Nat) (part : String) : Truncates (bytes count part) := by
  intro check front tail
  rw [read_bytes, read_bytes]
  by_cases hcount : count ≤ front.length
  · have hlonger : count ≤ (front ++ tail).length :=
      hcount.trans (List.length_append ▸ Nat.le_add_right _ _)
    right
    rw [if_pos hcount, if_pos hlonger, List.take_append_of_le_length hcount,
      List.drop_append_of_le_length hcount]
    rfl
  · left
    rw [if_neg hcount]
    exact ⟨_, rfl, .unexpectedEnd⟩

theorem truncates_checkCount (part : String) (count minSize : Nat) :
    Truncates (checkCount part count minSize) := by
  intro check front tail
  rw [read_checkCount, read_checkCount]
  by_cases hshort : check = .upFront ∧ front.length < count * minSize
  · left
    rw [if_pos hshort]
    exact ⟨_, rfl, .countExceedsInput⟩
  · -- with more input behind it the count is refused even less
    have hlonger : ¬(check = .upFront ∧ (front ++ tail).length < count * minSize) := by
      rintro ⟨hcheck, hless⟩
      rw [List.length_append] at hless
      exact hshort ⟨hcheck, Nat.lt_of_le_of_lt (Nat.le_add_right _ _) hless⟩
    right
    rw [if_neg hshort, if_neg hlonger]
    rfl

theorem compositional_truncates : Compositional @Truncates where
  pure := truncates_pure
  bind := Truncates.bind
  throw error _ := truncates_throw error
  bytes := truncates_bytes
  checkCount := truncates_checkCount

end Reader

open Reader

namespace ClassFile

theorem truncates_read : Truncates read := compositional_truncates.classFile

variable {bytes front tail : List UInt8} {c : ClassFile}

theorem read_eq_of_parse (h : parse bytes = .ok c) (tail : List UInt8) :
    read.read .upFront (bytes ++ tail) = .ok (c, tail) := by
  obtain ⟨hfits, rfl⟩ := parseWith_eq_ok_iff.mp h
  exact (exact_read .upFront _ c tail).mpr ⟨hfits, rfl⟩

theorem parse_of_append (h : parse (front ++ tail) = .ok c) (htail : tail ≠ []) :
    ∃ error, parse front = .error error ∧ error.IsShort := by
  have hall := read_eq_of_parse h []
  rw [List.append_nil] at hall
  obtain ⟨error, hread, hshort⟩ | hread := truncates_read .upFront front tail
  · refine ⟨error, ?_, hshort⟩
    rw [parse, parseWith, hread]
    rfl
  · -- a front that is read would have left the tail behind
    exfalso
    rw [hall] at hread
    cases hfront : read.read .upFront front with
    | error error =>
        rw [hfront] at hread
        cases hread
    | ok result =>
        rw [hfront] at hread
        have hrest : [] = result.2 ++ tail := congrArg Prod.snd (Except.ok.inj hread)
        exact htail (List.append_eq_nil_iff.mp hrest.symm).2

theorem parse_append_of_parse (h : parse bytes = .ok c) (htail : tail ≠ []) :
    parse (bytes ++ tail) = .error (.trailingBytes tail.length) := by
  rw [parse, parseWith, read_eq_of_parse h tail]
  cases tail with
  | nil => exact absurd rfl htail
  | cons byte tail => rfl

/-- A class file that is cut off is too short, whatever it is cut off at, and one with something
behind it is refused for just that. -/
theorem parse_prefix_and_append (h : parse bytes = .ok c) :
    (∀ front, front <+: bytes → front ≠ bytes →
      (∃ part, parse front = .error (.unexpectedEnd part)) ∨
        ∃ part count remaining,
          parse front = .error (.countExceedsInput part count remaining)) ∧
      ∀ tail, tail ≠ [] → parse (bytes ++ tail) = .error (.trailingBytes tail.length) := by
  refine ⟨?_, fun tail htail => parse_append_of_parse h htail⟩
  rintro front ⟨tail, rfl⟩ hproper
  have htail : tail ≠ [] := by
    rintro rfl
    exact hproper (List.append_nil front).symm
  obtain ⟨error, hfront, hshort⟩ := parse_of_append h htail
  cases hshort with
  | unexpectedEnd => exact .inl ⟨_, hfront⟩
  | countExceedsInput => exact .inr ⟨_, _, _, hfront⟩

/-- A class with one text in its pool, cut off anywhere, and followed by two bytes. -/
theorem parse_prefix_and_append_minimal :
    let bytes : List UInt8 :=
      [0xca, 0xfe, 0xba, 0xbe, 0x00, 0x00, 0x00, 0x34, 0x00, 0x02, 0x01, 0x00, 0x02, 0xc3, 0xa9,
        0x00, 0x21, 0x00, 0x00, 0x00, 0x00, 0x00, 0x00, 0x00, 0x00, 0x00, 0x00, 0x00, 0x00]
    let c : ClassFile :=
      { magic := magicNumber
        minorVersion := 0
        majorVersion := 52
        pool := ⟨#[none, some (.utf8 "é")]⟩
        accessFlags := 0x21
        thisClass := 0
        superClass := 0
        interfaces := []
        fields := []
        methods := []
        attributes := [] }
    parse bytes = .ok c ∧
      (∀ n < bytes.length, (∃ part, parse (bytes.take n) = .error (.unexpectedEnd part)) ∨
        ∃ part count remaining,
          parse (bytes.take n) = .error (.countExceedsInput part count remaining)) ∧
        parse (bytes ++ [0, 0]) = .error (.trailingBytes 2) := by
  intro bytes c
  have h : parse bytes = .ok c := by decide +kernel
  obtain ⟨hfronts, htails⟩ := parse_prefix_and_append h
  refine ⟨h, fun n hn => hfronts _ (List.take_prefix n bytes) fun hwhole => ?_,
    htails [0, 0] (by decide)⟩
  have hlength := congrArg List.length hwhole
  rw [List.length_take] at hlength
  omega

end ClassFile

end ClassMachine
