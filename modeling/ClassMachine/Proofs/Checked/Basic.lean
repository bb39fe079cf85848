import Mathlib

/-!
# Checked operations

An operation that can go out of range is checked when it has no result there: a look-up by
an index, a slice of a byte string or of a text, a replacement in an array.  A position in
a text counts the bytes of its characters, and a text can only be cut between two
characters.
-/

namespace ClassMachine

namespace Checked

/-- The elements from `start` to before `stop`. -/
def slice? {α : Type} (elements : List α) (start stop : Nat) : Option (List α) :=
  if start ≤ stop ∧ stop ≤ elements.length then some ((elements.drop start).take (stop - start))
  else none

def set? {α : Type} (elements : Array α) (index : Nat) (a : α) : Option (Array α) :=
  if h : index < elements.size then some (elements.set index a h) else none

theorem set?_of_lt {α : Type} {elements : Array α} {index : Nat} {a : α}
    (h : index < elements.size) :
    set? elements index a = some (elements.setIfInBounds index a) := by
  rw [set?, dif_pos h, Array.setIfInBounds, dif_pos h]

def textSize (text : List Char) : Nat := (text.map Char.utf8Size).sum

/-- The parts of a text before and behind a byte position, which has to lie between two
characters. -/
def splitText? : List Char → Nat → Option (List Char × List Char)
  | text, 0 => some ([], text)
  | [], _ + 1 => none
  | c :: text, position + 1 =>
      if c.utf8Size ≤ position + 1 then do
        let (before, behind) ← splitText? text (position + 1 - c.utf8Size)
        return (c :: before, behind)
      else
        none

theorem splitText?_append (before behind : List Char) :
    splitText? (before ++ behind) (textSize before) = some (before, behind) := by
  induction before with
  | nil => cases behind <;> rfl
  | cons c before ih =>
      have hsize := c.utf8Size_pos
      have hsum : textSize (c :: before) = c.utf8Size + textSize before := rfl
      obtain ⟨position, hposition⟩ : ∃ position, c.utf8Size + textSize before = position + 1 :=
        ⟨c.utf8Size + textSize before - 1, by omega⟩
      have hrest : position + 1 - c.utf8Size = textSize before := by omega
      rw [hsum, hposition, List.cons_append, splitText?, if_pos (by omega), hrest, ih]
      rfl

@[simp]
theorem textSize_eq_zero_iff {text : List Char} : textSize text = 0 ↔ text = [] := by
  cases text with
  | nil => exact ⟨fun _ => rfl, fun _ => rfl⟩
  | cons c text =>
      have hsize := c.utf8Size_pos
      have hsum : textSize (c :: text) = c.utf8Size + textSize text := rfl
      constructor
      · intro h
        omega
      · intro h
        cases h

/-- The byte position of the first occurrence of a character. -/
def position? (target : Char) : List Char → Option Nat
  | [] => none
  | c :: text => if c = target then some 0 else (position? target text).map (c.utf8Size + ·)

theorem position?_eq_none {target : Char} {text : List Char}
    (h : position? target text = none) : text.dropWhile (· ≠ target) = [] := by
  induction text with
  | nil => rfl
  | cons c text ih =>
      by_cases hc : c = target
      · rw [position?, if_pos hc] at h
        cases h
      · rw [position?, if_neg hc, Option.map_eq_none_iff] at h
        rw [List.dropWhile_cons_of_pos (by simpa using hc), ih h]

theorem position?_eq_some {target : Char} {text : List Char} {position : Nat}
    (h : position? target text = some position) :
    ∃ rest, text.dropWhile (· ≠ target) = target :: rest ∧
      position = textSize (text.takeWhile (· ≠ target)) := by
  induction text generalizing position with
  | nil => cases h
  | cons c text ih =>
      by_cases hc : c = target
      · rw [position?, if_pos hc] at h
        cases h
        refine ⟨text, ?_, ?_⟩ <;> simp [hc, textSize]
      · rw [position?, if_neg hc, Option.map_eq_some_iff] at h
        obtain ⟨inner, hinner, rfl⟩ := h
        obtain ⟨rest, hrest, rfl⟩ := ih hinner
        refine ⟨rest, ?_, ?_⟩
        · rw [List.dropWhile_cons_of_pos (by simpa using hc), hrest]
        · rw [List.takeWhile_cons_of_pos (by simpa using hc)]
          rfl

end Checked

end ClassMachine
