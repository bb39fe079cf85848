import ClassMachine.Proofs.Codec.Codes
import ClassMachine.Proofs.Codec.Composition

/-!
# Checking counts up front

A count is refused when the rest of the input cannot hold its items, and those items would have run
out of input anyway.  So checking the counts up front rejects no input that is read without the
check.  It only makes another error of some failures: that of a refused count in place of the one
that reading on would have met.
-/

namespace ClassMachine

/-- How a reading that checks its counts compares with one that does not.  Where the one refuses a
count, nothing is said yet of the other but that it refuses none. -/
inductive Compares : Except FormatError α → Except FormatError α → Prop where
  | ok {a : α} : Compares (.ok a) (.ok a)
  | error {error : FormatError} : ¬error.IsRefusal → Compares (.error error) (.error error)
  | refused {error : FormatError} {unchecked : Except FormatError α} :
      error.IsRefusal → (∀ other, unchecked = .error other → ¬other.IsRefusal) →
        Compares (.error error) unchecked

/-- The check on counts rejects nothing: both readings succeed alike, they fail alike unless a count
is refused, and without the check none is. -/
def RejectsNothing (checked unchecked : Except FormatError α) : Prop :=
  (∀ a, checked = .ok a ↔ unchecked = .ok a) ∧
    (∀ error, checked = .error error →
      (∀ part count remaining, error ≠ .countExceedsInput part count remaining) →
        unchecked = .error error) ∧
    ∀ part count remaining, unchecked ≠ .error (.countExceedsInput part count remaining)

namespace Compares

variable {x y : Except FormatError α} {f g : α → Except FormatError β}

theorem not_isRefusal {error : FormatError} (h : Compares x y) (hy : y = .error error) :
    ¬error.IsRefusal := by
  cases h with
  | ok => cases hy
  | error hother =>
      cases hy
      exact hother
  | refused _ hother => exact hother error hy

theorem bind (h : Compares x y) (hnext : ∀ a, Compares (f a) (g a)) :
    Compares (x.bind f) (y.bind g) := by
  cases h with
  | ok => exact hnext _
  | error hother => exact .error hother
  | refused hrefusal hother =>
      apply refused hrefusal
      intro error herror
      cases y with
      | ok a => exact (hnext a).not_isRefusal herror
      | error _ =>
          cases herror
          exact hother error rfl

theorem map (h : Compares x y) (f : α → β) : Compares (x.map f) (y.map f) := by
  have hbind : ∀ z : Except FormatError α, z.map f = z.bind fun a => .ok (f a) := by
    intro z
    cases z <;> rfl
  rw [hbind, hbind]
  exact h.bind fun a => .ok

theorem mapM {f g : α → Except FormatError β} (h : ∀ a, Compares (f a) (g a)) (items : List α) :
    Compares (items.mapM f) (items.mapM g) := by
  induction items with
  | nil => exact .ok
  | cons item items ih =>
      rw [List.mapM_cons, List.mapM_cons]
      apply (h item).bind
      intro first
      exact ih.bind fun others => .ok

theorem rejectsNothing (h : Compares x y) (hok : ∀ a, x = .ok a ↔ y = .ok a) :
    RejectsNothing x y := by
  refine ⟨hok, ?_, ?_⟩
  · intro error herror hother
    cases h with
    | ok => cases herror
    | error _ => exact herror
    | refused hrefusal _ =>
        cases herror
        cases error <;> simp_all [FormatError.IsRefusal]
  · intro part count remaining herror
    exact h.not_isRefusal herror trivial

end Compares

namespace Reader

/-- Checking counts makes a difference to the reader only where one is refused. -/
def Comparable (reader : Reader α) : Prop :=
  ∀ input, Compares (reader.read .upFront input) (reader.read .off input)

theorem comparable_bytes (count : Nat) (part : String) : Comparable (bytes count part) := by
  intro input
  rw [read_bytes, read_bytes]
  split
  · exact .ok
  · exact .error (by simp [FormatError.IsRefusal])

theorem comparable_checkCount (part : String) (count minSize : Nat) :
    Comparable (checkCount part count minSize) := by
  intro input
  have hoff : (checkCount part count minSize).read .off input = .ok ((), input) := by
    simp [read_checkCount]
  rw [hoff, read_checkCount]
  split
  · exact .refused (by simp [FormatError.IsRefusal]) (by simp)
  · exact .ok

theorem compositional_comparable : Compositional @Comparable where
  pure _ _ := .ok
  bind hreader hnext input := (hreader input).bind fun result => hnext result.1 result.2
  throw _ hother _ := .error hother
  bytes := comparable_bytes
  checkCount := comparable_checkCount

end Reader

open Reader

namespace ClassFile

theorem compares_parseWith (bytes : List UInt8) :
    Compares (parseWith .upFront bytes) (parseWith .off bytes) := by
  apply (compositional_comparable.classFile bytes).bind
  intro result
  change Compares (if result.2.isEmpty then _ else _) (if result.2.isEmpty then _ else _)
  split
  · exact .ok
  · exact .error (by simp [FormatError.IsRefusal])

end ClassFile

namespace Code

theorem compares_decodeWith (info : List UInt8) :
    Compares (decodeWith .upFront info) (decodeWith .off info) :=
  (compositional_comparable.code info).map Prod.fst

theorem compares_lineNumbersWith (code : Code) (pool : Pool) :
    Compares (code.lineNumbersWith .upFront pool) (code.lineNumbersWith .off pool) := by
  have htable : ∀ a : Attribute,
      Compares ((LineTable.read.read .upFront a.info).map Prod.fst)
        ((LineTable.read.read .off a.info).map Prod.fst) := by
    intro a
    exact (compositional_comparable.lineTable a.info).map Prod.fst
  exact (Compares.mapM htable _).bind fun tables => .ok

end Code

/-- Class files, codes and line numbers are read with their counts checked up front exactly as they
are read without the check, except that a refused count is reported in place of another error. -/
theorem rejectsNothing_counts (bytes info : List UInt8) (code : Code) (pool : Pool) :
    RejectsNothing (ClassFile.parse bytes) (ClassFile.parseWith .off bytes) ∧
      RejectsNothing (Code.decode info) (Code.decodeWith .off info) ∧
        RejectsNothing (code.lineNumbers pool) (code.lineNumbersWith .off pool) := by
  refine ⟨?_, ?_, ?_⟩
  · apply (ClassFile.compares_parseWith bytes).rejectsNothing
    intro c
    rw [ClassFile.parseWith_eq_ok_iff, ClassFile.parseWith_eq_ok_iff]
  · apply (Code.compares_decodeWith info).rejectsNothing
    intro code
    rw [Code.decodeWith_eq_ok_iff, Code.decodeWith_eq_ok_iff]
  · apply (code.compares_lineNumbersWith pool).rejectsNothing
    intro lines
    rw [Code.lineNumbersWith_eq_ok_iff, Code.lineNumbersWith_eq_ok_iff]

/-- Without the check a row that is announced and missing is only missed when it is read. -/
example :
    let info : List UInt8 := [0, 1, 0, 1, 0, 0, 0, 0, 0, 1]
    Code.decode info = .error (.countExceedsInput "exception table length" 1 0) ∧
      Code.decodeWith .off info = .error (.unexpectedEnd "exception start pc") := by
  decide +kernel

end ClassMachine
