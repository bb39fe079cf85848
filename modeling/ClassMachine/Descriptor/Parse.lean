import ClassMachine.Descriptor.Basic
import ClassMachine.Format.Error

/-!
# Reading descriptors

A method descriptor has its arguments in parentheses and its result behind them.
The arguments end at the first closing parenthesis, and the result is one type, on
one line, with nothing after it.  A class name is not empty and ends at the first
semicolon; neither an argument nor the component of an array is void.
-/

namespace ClassMachine

namespace DescriptorType

/-- The type at the front and what is left. -/
def parse? : List Char → Option (DescriptorType × List Char)
  | 'B' :: rest => some (.byte, rest)
  | 'C' :: rest => some (.char, rest)
  | 'D' :: rest => some (.double, rest)
  | 'F' :: rest => some (.float, rest)
  | 'I' :: rest => some (.int, rest)
  | 'J' :: rest => some (.long, rest)
  | 'S' :: rest => some (.short, rest)
  | 'Z' :: rest => some (.boolean, rest)
  | 'V' :: rest => some (.void, rest)
  | 'L' :: rest =>
      let name := rest.takeWhile (· ≠ ';')
      match rest.dropWhile (· ≠ ';') with
      | [] => none
      | _ :: rest => if name.isEmpty then none else some (.object (String.ofList name), rest)
  | '[' :: rest =>
      match parse? rest with
      | some (component, rest) =>
          if component = .void then none else some (.array component, rest)
      | none => none
  | _ => none

theorem parse?_length {cs rest : List Char} {type : DescriptorType}
    (h : parse? cs = some (type, rest)) : rest.length < cs.length := by
  fun_induction parse? cs generalizing type rest with
  | case10 tail hdrop => simp at h
  | case11 tail name semicolon after hdrop => simp at h
  | case12 tail name semicolon after hdrop =>
      have hsuffix := (List.dropWhile_suffix (l := tail) (· ≠ ';')).length_le
      rw [hdrop] at hsuffix
      simp only [Option.some.injEq, Prod.mk.injEq] at h
      rw [← h.2]
      simp only [List.length_cons] at hsuffix ⊢
      omega
  | case13 tail after hparse ih => simp at h
  | case14 tail component after hparse hvoid ih =>
      simp only [Option.some.injEq, Prod.mk.injEq] at h
      have := ih hparse
      rw [← h.2]
      simp only [List.length_cons]
      omega
  | case15 => simp at h
  | case16 => simp at h
  | _ =>
      simp only [Option.some.injEq, Prod.mk.injEq] at h
      rw [← h.2]
      simp

end DescriptorType

namespace MethodType

/-- The argument types, which take up all of the text. -/
def parseArgs? (cs : List Char) : Option (List DescriptorType) :=
  if cs.isEmpty then some []
  else
    match h : DescriptorType.parse? cs with
    | none => none
    | some (type, rest) =>
        have := DescriptorType.parse?_length h
        if type = .void then none else (parseArgs? rest).map (type :: ·)
termination_by cs.length

/-- The result type, which takes up all of the text. -/
def parseRet? (cs : List Char) : Option DescriptorType :=
  if cs.any (· == '\n') then none
  else
    match DescriptorType.parse? cs with
    | some (type, []) => some type
    | _ => none

def parse? : List Char → Option MethodType
  | '(' :: inner =>
      match inner.dropWhile (· ≠ ')') with
      | [] => none
      | _ :: outer => do
          let args ← parseArgs? (inner.takeWhile (· ≠ ')'))
          let ret ← parseRet? outer
          return { args, ret }
  | _ => none

def ofDescriptor (descriptor : String) : Except FormatError MethodType :=
  match parse? descriptor.toList with
  | some type => .ok type
  | none => .error (.invalidDescriptor descriptor)

end MethodType

end ClassMachine
