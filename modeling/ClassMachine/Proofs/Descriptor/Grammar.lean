import ClassMachine.Descriptor.Parse
import Mathlib

/-!
# The grammar of descriptors

Types that are well formed are read back from their text, whatever follows it, and nothing else is
read.  In a method descriptor the text of the arguments moreover ends where the first closing
parenthesis stands, and that of the result is one line, so class names avoid these characters.  No
other condition is needed: the letters of the types themselves are neither of them.
-/

namespace ClassMachine

/-- A text has a character at the end of its longest front without it exactly when that front is
followed by the character. -/
theorem takeWhile_dropWhile_ne_iff {c d : Char} {text before behind : List Char} :
    text.takeWhile (· ≠ c) = before ∧ text.dropWhile (· ≠ c) = d :: behind ↔
      d = c ∧ c ∉ before ∧ text = before ++ c :: behind := by
  constructor
  · rintro ⟨rfl, hbehind⟩
    have hsplit := List.takeWhile_append_dropWhile (p := (· ≠ c)) (l := text)
    obtain rfl : d = c := by
      have hhead := List.head?_dropWhile_not (· ≠ c) text
      rw [hbehind] at hhead
      simpa using hhead
    refine ⟨rfl, fun hmem => ?_, ?_⟩
    · simpa using List.mem_takeWhile_imp hmem
    · rw [← hbehind, hsplit]
  · rintro ⟨rfl, hbefore, rfl⟩
    have hpos : ∀ a ∈ before, decide (a ≠ d) = true := by
      intro a ha
      rw [decide_eq_true_iff]
      rintro rfl
      exact hbefore ha
    rw [List.takeWhile_append_of_pos hpos, List.dropWhile_append_of_pos hpos]
    simp

namespace DescriptorType

/-- Class names end at the first semicolon and are not empty, and no array has void components. -/
def WellFormed : DescriptorType → Prop
  | .object name => name ≠ "" ∧ ';' ∉ name.toList
  | .array component => component ≠ .void ∧ component.WellFormed
  | _ => True

/-- The class name, if there is one, does not contain the character. -/
def Avoids (c : Char) : DescriptorType → Prop
  | .object name => c ∉ name.toList
  | .array component => component.Avoids c
  | _ => True

theorem parse?_eq_some_iff {cs rest : List Char} {type : DescriptorType} :
    parse? cs = some (type, rest) ↔ type.WellFormed ∧ cs = type.chars ++ rest := by
  constructor
  · intro h
    fun_induction parse? cs generalizing type rest with
    | case10 tail hdrop => cases h
    | case11 tail name semicolon after hdrop => cases h
    | case12 tail name semicolon after hdrop =>
      cases h
      obtain ⟨rfl, hname, htail⟩ := takeWhile_dropWhile_ne_iff.mp ⟨rfl, hdrop⟩
      refine ⟨⟨?_, ?_⟩, ?_⟩
      · simpa using ‹¬name.isEmpty = true›
      · rwa [String.toList_ofList]
      · rw [chars, String.toList_ofList, List.cons_append, List.append_assoc, List.singleton_append,
          ← htail]
    | case13 tail after hparse ih => cases h
    | case14 tail component after hparse hvoid ih =>
      cases h
      obtain ⟨hwell, rfl⟩ := ih hparse
      exact ⟨⟨hvoid, hwell⟩, rfl⟩
    | case15 => cases h
    | case16 => cases h
    | _ =>
      cases h
      exact ⟨trivial, rfl⟩
  · rintro ⟨hwell, rfl⟩
    induction type with
    | object name =>
        obtain ⟨hnonempty, hname⟩ := hwell
        obtain ⟨hbefore, hbehind⟩ := takeWhile_dropWhile_ne_iff.mpr
          ⟨rfl, hname, rfl (a := name.toList ++ ';' :: rest)⟩
        rw [chars, List.cons_append, List.append_assoc, List.singleton_append, parse?, hbehind,
          hbefore]
        simpa using hnonempty
    | array component ih =>
        obtain ⟨hvoid, hcomponent⟩ := hwell
        have hparse := ih hcomponent
        rw [chars, List.cons_append, parse?, hparse]
        exact if_neg hvoid
    | _ => rfl

theorem chars_ne_nil (type : DescriptorType) : type.chars ≠ [] := by
  cases type <;> nofun

/-- The characters of descriptors outside class names. -/
def letters : List Char := ['B', 'C', 'D', 'F', 'I', 'J', 'S', 'Z', 'V', 'L', ';', '[']

theorem not_mem_chars_iff {c : Char} (hc : c ∉ letters) {type : DescriptorType} :
    c ∉ type.chars ↔ type.Avoids c := by
  simp only [letters, List.mem_cons, List.not_mem_nil, or_false, not_or] at hc
  induction type with
  | object name => simp [chars, Avoids, hc]
  | array component ih => simp [chars, Avoids, hc, ih]
  | _ => simp [chars, Avoids, hc]

end DescriptorType

namespace MethodType

theorem parseArgs?_of_parse? {text : List Char} (hempty : ¬text.isEmpty) :
    parseArgs? text =
      match DescriptorType.parse? text with
      | none => none
      | some (type, rest) =>
          if type = .void then none else (parseArgs? rest).map (type :: ·) := by
  rw [parseArgs?, if_neg hempty]
  split <;> rename_i h <;> simp only [h]

theorem parseArgs?_eq_some_iff {cs : List Char} {args : List DescriptorType} :
    parseArgs? cs = some args ↔
      (∀ arg ∈ args, arg ≠ .void ∧ arg.WellFormed) ∧ cs = args.flatMap DescriptorType.chars := by
  constructor
  · intro h
    fun_induction parseArgs? cs generalizing args with
    | case1 cs hempty =>
        cases h
        exact ⟨nofun, List.isEmpty_iff.mp hempty⟩
    | case2 cs hempty hparse => cases h
    | case3 cs hempty rest hparse hlength => cases h
    | case4 cs hempty type rest hparse hlength hvoid ih =>
        obtain ⟨others, hothers, rfl⟩ := Option.map_eq_some_iff.mp h
        obtain ⟨hargs, rfl⟩ := ih hothers
        obtain ⟨hwell, rfl⟩ := DescriptorType.parse?_eq_some_iff.mp hparse
        exact ⟨List.forall_mem_cons.mpr ⟨⟨hvoid, hwell⟩, hargs⟩, rfl⟩
  · rintro ⟨hargs, rfl⟩
    induction args with
    | nil =>
        rw [List.flatMap_nil, parseArgs?]
        rfl
    | cons arg args ih =>
        obtain ⟨⟨hvoid, hwell⟩, hothers⟩ := List.forall_mem_cons.mp hargs
        have hparse := DescriptorType.parse?_eq_some_iff.mpr
          ⟨hwell, rfl (a := arg.chars ++ args.flatMap DescriptorType.chars)⟩
        have hnonempty : ¬(arg.chars ++ args.flatMap DescriptorType.chars).isEmpty := by
          rw [List.isEmpty_iff, List.append_eq_nil_iff]
          exact fun h => arg.chars_ne_nil h.1
        rw [List.flatMap_cons, parseArgs?_of_parse? hnonempty, hparse]
        simp only [if_neg hvoid, ih hothers, Option.map_some]

theorem parseRet?_eq_some_iff {cs : List Char} {ret : DescriptorType} :
    parseRet? cs = some ret ↔ '\n' ∉ cs ∧ DescriptorType.parse? cs = some (ret, []) := by
  have hline : (cs.any (· == '\n') = true) ↔ '\n' ∈ cs := by simp
  unfold parseRet?
  constructor
  · intro h
    split at h
    next => cases h
    next honeLine =>
      split at h
      next type hparse =>
        cases h
        exact ⟨fun hmem => honeLine (hline.mpr hmem), hparse⟩
      next => cases h
  · rintro ⟨honeLine, hparse⟩
    rw [if_neg fun h => honeLine (hline.mp h), hparse]

/-- The pattern `^\(([^)]*)\)(.+)$`, whose dot matches all characters but the newline, captures the
texts of the arguments and of the result. -/
structure Captures (descriptor args ret : List Char) : Prop where
  descriptor_eq : descriptor = '(' :: (args ++ ')' :: ret)
  args_closed : ')' ∉ args
  ret_ne_nil : ret ≠ []
  ret_line : '\n' ∉ ret

/-- A descriptor is read in two layers: the pattern splits it, and each part consists of types. -/
theorem parse?_eq_some_iff_captures {cs : List Char} {type : MethodType} :
    parse? cs = some type ↔
      ∃ args ret, Captures cs args ret ∧ parseArgs? args = some type.args ∧
        DescriptorType.parse? ret = some (type.ret, []) := by
  constructor
  · intro h
    unfold parse? at h
    split at h
    next inner =>
      split at h
      next => cases h
      next parenthesis outer hbehind =>
        obtain ⟨rfl, hclosed, hinner⟩ := takeWhile_dropWhile_ne_iff.mp ⟨rfl, hbehind⟩
        obtain ⟨args, hargs, h⟩ := Option.bind_eq_some_iff.mp h
        obtain ⟨ret, hret, h⟩ := Option.bind_eq_some_iff.mp h
        cases h
        obtain ⟨hline, hparse⟩ := parseRet?_eq_some_iff.mp hret
        have hnonempty : outer ≠ [] := by
          rintro rfl
          cases hparse
        exact ⟨_, outer, ⟨congrArg ('(' :: ·) hinner, hclosed, hnonempty, hline⟩, hargs, hparse⟩
    next => cases h
  · rintro ⟨args, ret, ⟨rfl, hclosed, _, hline⟩, hargs, hparse⟩
    obtain ⟨hbefore, hbehind⟩ := takeWhile_dropWhile_ne_iff.mpr
      ⟨rfl, hclosed, rfl (a := args ++ ')' :: ret)⟩
    have hret := parseRet?_eq_some_iff.mpr ⟨hline, hparse⟩
    rw [parse?, hbehind, hbefore, hargs]
    simp only [hret]
    rfl

/-- The types have the form that a method descriptor asks of them.  Its arguments end at the first
closing parenthesis, and its result stands on one line. -/
structure WellFormed (type : MethodType) : Prop where
  args : ∀ arg ∈ type.args, arg ≠ .void ∧ arg.WellFormed ∧ arg.Avoids ')'
  ret : type.ret.WellFormed ∧ type.ret.Avoids '\n'

theorem parse?_eq_some_iff {cs : List Char} {type : MethodType} :
    parse? cs = some type ↔ type.WellFormed ∧ cs = type.chars := by
  have hclosed : ')' ∉ type.args.flatMap DescriptorType.chars ↔
      ∀ arg ∈ type.args, arg.Avoids ')' := by
    simp only [List.mem_flatMap, not_exists, not_and,
      DescriptorType.not_mem_chars_iff (c := ')') (by decide)]
  have hline : '\n' ∉ type.ret.chars ↔ type.ret.Avoids '\n' :=
    DescriptorType.not_mem_chars_iff (by decide)
  simp only [parse?_eq_some_iff_captures, parseArgs?_eq_some_iff,
    DescriptorType.parse?_eq_some_iff, List.append_nil]
  constructor
  · rintro ⟨_, _, ⟨rfl, hargsClosed, _, hretLine⟩, ⟨hargs, rfl⟩, hret, rfl⟩
    refine ⟨⟨fun arg harg => ?_, hret, hline.mp hretLine⟩, rfl⟩
    exact ⟨(hargs arg harg).1, (hargs arg harg).2, hclosed.mp hargsClosed arg harg⟩
  · rintro ⟨⟨hargs, hret, hretAvoids⟩, rfl⟩
    have hargsClosed := hclosed.mpr fun arg harg => (hargs arg harg).2.2
    refine ⟨_, _, ⟨rfl, hargsClosed, type.ret.chars_ne_nil, hline.mpr hretAvoids⟩, ⟨?_, rfl⟩,
      hret, rfl⟩
    exact fun arg harg => ⟨(hargs arg harg).1, (hargs arg harg).2.1⟩

/-- The descriptors that are accepted are the texts of the well-formed method types, each of which
is read back; every other text is refused as a whole. -/
theorem ofDescriptor_grammar (descriptor : String) :
    (∀ type, ofDescriptor descriptor = .ok type ↔
      type.WellFormed ∧ descriptor = String.ofList type.chars) ∧
      ((∀ type : MethodType, type.WellFormed → descriptor ≠ String.ofList type.chars) →
        ofDescriptor descriptor = .error (.invalidDescriptor descriptor)) := by
  have htext : ∀ type : MethodType,
      descriptor.toList = type.chars ↔ descriptor = String.ofList type.chars := by
    intro type
    rw [← String.toList_inj, String.toList_ofList]
  unfold ofDescriptor
  cases hparse : parse? descriptor.toList with
  | some found =>
      obtain ⟨hwell, hfound⟩ := parse?_eq_some_iff.mp hparse
      refine ⟨fun type => ?_, fun hnone => absurd ((htext found).mp hfound) (hnone found hwell)⟩
      rw [← htext, ← parse?_eq_some_iff, hparse, Except.ok.injEq, Option.some.injEq]
  | none =>
      refine ⟨fun type => ?_, fun _ => rfl⟩
      rw [← htext, ← parse?_eq_some_iff, hparse]
      exact ⟨nofun, nofun⟩

/-- A closing parenthesis may stand in the class name of the result, but not in one of the
arguments. -/
example :
    ofDescriptor "([I)La)b;" = .ok ⟨[.array .int], .object "a)b"⟩ ∧
      ofDescriptor "(La)b;)V" = .error (.invalidDescriptor "(La)b;)V") := by
  decide +kernel

end MethodType

end ClassMachine
