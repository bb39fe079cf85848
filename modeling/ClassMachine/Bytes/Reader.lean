import ClassMachine.Bytes.BigEndian
import ClassMachine.Format.Error

/-!
# Reading bytes in order

A `Reader` consumes bytes from the front of its input and leaves the rest.  A
declared count of items is followed by the items themselves, and under
`CountCheck.upFront` a count that the rest of the input cannot hold is refused
before the first item is read; under `CountCheck.off` the items run out on their
own.

The lemmas say what each reader does to its input, so that proofs about formats
need not look into the reader itself.
-/

namespace ClassMachine

/-- When a declared count of items is compared with the bytes that are left. -/
inductive CountCheck where
  | upFront
  | off
  deriving DecidableEq, Repr

/-- Whether a byte string has at least `n` bytes; looks at no more than `n` of them. -/
def hasAtLeast : (n : Nat) → List UInt8 → Bool
  | 0, _ => true
  | _ + 1, [] => false
  | n + 1, _ :: rest => hasAtLeast n rest

@[simp]
theorem hasAtLeast_iff {n : Nat} {bytes : List UInt8} :
    hasAtLeast n bytes = true ↔ n ≤ bytes.length := by
  induction n generalizing bytes with
  | zero => simp [hasAtLeast]
  | succ n ih =>
      cases bytes with
      | nil => simp [hasAtLeast]
      | cons byte rest => simp [hasAtLeast, ih]

abbrev Reader := ReaderT CountCheck (StateT (List UInt8) (Except FormatError))

namespace Reader

/-- Reads from the front of `bytes` and gives what is left beside the value. -/
def read (reader : Reader α) (check : CountCheck) (bytes : List UInt8) :
    Except FormatError (α × List UInt8) :=
  (ReaderT.run reader check).run bytes

/-- Exactly `count` bytes. -/
def bytes (count : Nat) (part : String) : Reader (List UInt8) := do
  let input ← get
  if hasAtLeast count input then
    set (input.drop count)
    return input.take count
  else
    throw (.unexpectedEnd part)

/-- A big-endian number of `width` bytes. -/
def word (width : Nat) (part : String) : Reader Nat := do
  return BigEndian.ofBytes (← bytes width part)

def u8 (part : String) : Reader UInt8 := do
  return UInt8.ofNat (← word 1 part)

def u16 (part : String) : Reader UInt16 := do
  return UInt16.ofNat (← word 2 part)

def u32 (part : String) : Reader UInt32 := do
  return UInt32.ofNat (← word 4 part)

def u64 (part : String) : Reader UInt64 := do
  return UInt64.ofNat (← word 8 part)

/-- Refuses `count` items of at least `minSize` bytes each when the rest of the
input is too short for them, unless counts are not checked. -/
def checkCount (part : String) (count minSize : Nat) : Reader Unit := do
  match ← ReaderT.read with
  | .off => return
  | .upFront =>
      let input ← get
      if !hasAtLeast (count * minSize) input then
        throw (.countExceedsInput part count input.length)

/-- A two-byte count of items of at least `minSize` bytes each. -/
def count (part : String) (minSize : Nat) : Reader Nat := do
  let count ← word 2 part
  checkCount part count minSize
  return count

def replicate (count : Nat) (item : Reader α) : Reader (List α) :=
  (List.replicate count ()).mapM fun _ => item

/-- A two-byte count, then that many items. -/
def counted (part : String) (minSize : Nat) (item : Reader α) : Reader (List α) := do
  replicate (← count part minSize) item

theorem read_pure (a : α) (check : CountCheck) (input : List UInt8) :
    (pure a : Reader α).read check input = .ok (a, input) := rfl

theorem read_bind (reader : Reader α) (next : α → Reader β) (check : CountCheck)
    (input : List UInt8) :
    (reader >>= next).read check input =
      (reader.read check input).bind fun result => (next result.1).read check result.2 := rfl

theorem read_bytes (count : Nat) (part : String) (check : CountCheck) (input : List UInt8) :
    (bytes count part).read check input =
      if count ≤ input.length then .ok (input.take count, input.drop count)
      else .error (.unexpectedEnd part) := by
  have hread : (bytes count part).read check input =
      (if hasAtLeast count input = true then
        (do set (input.drop count); return input.take count)
      else throw (.unexpectedEnd part) : Reader (List UInt8)).read check input := rfl
  rw [hread]
  by_cases hcount : count ≤ input.length
  · rw [if_pos (hasAtLeast_iff.mpr hcount), if_pos hcount]
    rfl
  · rw [if_neg (fun h => hcount (hasAtLeast_iff.mp h)), if_neg hcount]
    rfl

theorem read_checkCount (part : String) (count minSize : Nat) (check : CountCheck)
    (input : List UInt8) :
    (checkCount part count minSize).read check input =
      if check = .upFront ∧ input.length < count * minSize then
        .error (.countExceedsInput part count input.length)
      else
        .ok ((), input) := by
  cases check with
  | off => rfl
  | upFront =>
      have hread : (checkCount part count minSize).read .upFront input =
          (if (!hasAtLeast (count * minSize) input) = true then
            throw (.countExceedsInput part count input.length)
          else pure () : Reader Unit).read .upFront input := rfl
      rw [hread]
      by_cases hshort : input.length < count * minSize
      · have hless : (!hasAtLeast (count * minSize) input) = true := by
          rw [Bool.not_eq_true', ← Bool.not_eq_true, hasAtLeast_iff]
          omega
        rw [if_pos hless, if_pos ⟨rfl, hshort⟩]
        rfl
      · have hfits : ¬ (!hasAtLeast (count * minSize) input) = true := by
          rw [Bool.not_eq_true', ← Bool.not_eq_true, hasAtLeast_iff]
          omega
        rw [if_neg hfits, if_neg (fun h => hshort h.2)]
        rfl

theorem read_replicate_zero (item : Reader α) (check : CountCheck) (input : List UInt8) :
    (replicate 0 item).read check input = .ok ([], input) := rfl

end Reader

end ClassMachine
