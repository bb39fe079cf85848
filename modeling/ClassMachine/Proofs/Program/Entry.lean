import ClassMachine.Program.Entry
import ClassMachine.Proofs.Codec.Codes

/-!
# Another code for the entry method

A run reads of its class file the constant pool, and of the entry method the descriptor and the
code.  Exchanging the code attribute of that method leaves all else as it is, so the program of
the edited class file differs in its code alone.
-/

namespace ClassMachine

theorem find?_replaceF {α : Type} {items : List α} {test : α → Bool} {f : α → α} {a : α}
    (h : items.find? test = some a) (hf : test (f a) = true) :
    (items.replaceF fun x => if test x then some (f x) else none).find? test = some (f a) := by
  induction items with
  | nil => cases h
  | cons x items ih =>
      rw [List.replaceF_cons]
      by_cases hx : test x = true
      · rw [List.find?_cons_of_pos hx] at h
        cases h
        simp only [if_pos hx, List.find?_cons_of_pos hf]
      · rw [List.find?_cons_of_neg hx] at h
        simp only [if_neg hx, List.find?_cons_of_neg hx, ih h]

namespace Member

/-- The method with another payload in its first attribute that is named as code. -/
def withCode (m : Member) (pool : Pool) (code : Code) : Member :=
  { m with
    attributes := m.attributes.replaceF fun a =>
      if pool.text? a.nameIndex == some Code.attributeName then
        some (code.toAttribute a.nameIndex)
      else
        none }

theorem code_eq_ok_iff {m : Member} {pool : Pool} {code : Code} :
    m.code pool = .ok code ↔
      ∃ a, m.codeAttribute? pool = some a ∧ Code.decode a.info = .ok code := by
  unfold Member.code
  cases ha : m.codeAttribute? pool with
  | none => simp
  | some a => cases hdecode : Code.decode a.info <;> simp [Except.mapError, hdecode]

theorem fits_of_code {m : Member} {pool : Pool} {code : Code} (h : m.code pool = .ok code) :
    code.Fits := by
  obtain ⟨a, _, hdecode⟩ := code_eq_ok_iff.mp h
  exact (Code.decodeWith_eq_ok_iff.mp hdecode).1

theorem code_withCode {m : Member} {pool : Pool} {code code' : Code} (h : m.code pool = .ok code)
    (hfits : code'.Fits) : (m.withCode pool code').code pool = .ok code' := by
  obtain ⟨a, ha, _⟩ := code_eq_ok_iff.mp h
  refine code_eq_ok_iff.mpr ⟨code'.toAttribute a.nameIndex, ?_, Code.decode_toAttribute hfits _⟩
  have hfound : m.attributes.find?
      (fun a => pool.text? a.nameIndex == some Code.attributeName) = some a := ha
  have hnamed := List.find?_some hfound
  exact find?_replaceF hfound hnamed

end Member

namespace ClassFile

/-- The class file with another code in its entry method. -/
def withEntryCode (c : ClassFile) (code : Code) : ClassFile :=
  { c with
    methods := c.methods.replaceF fun m =>
      if m.name? c.pool == some Program.entryName then some (m.withCode c.pool code) else none }

theorem findMethod?_withEntryCode {c : ClassFile} {m : Member}
    (h : c.findMethod? Program.entryName = some m) (code : Code) :
    (c.withEntryCode code).findMethod? Program.entryName = some (m.withCode c.pool code) := by
  have hfound : c.methods.find?
      (fun m => m.name? c.pool == some Program.entryName) = some m := h
  have hnamed := List.find?_some hfound
  exact find?_replaceF hfound hnamed

end ClassFile

namespace Program

open Bytecode

theorem initialLocals_congr {p p' : Program} (hlocals : p'.code.maxLocals = p.code.maxLocals)
    (htype : p'.methodType = p.methodType) : p'.initialLocals = p.initialLocals := by
  simp only [initialLocals, argTypes, hlocals, htype]

theorem ofMethod_eq_ok_iff {pool : Pool} {m : Member} {p : Program} :
    ofMethod pool m = .ok p ↔
      ∃ code instructions, ∃ hdecode : decode code.bytecode = .ok instructions,
        m.code pool = .ok code ∧ p = ofCode pool (m.methodType? pool) code instructions hdecode := by
  constructor
  · intro h
    unfold ofMethod at h
    split at h
    · cases h
    · rename_i code hcode
      split at h
      · cases h
      · rename_i instructions hdecode
        cases h
        exact ⟨code, instructions, hdecode, hcode, rfl⟩
  · rintro ⟨code, instructions, hdecode, hcode, rfl⟩
    unfold ofMethod
    simp only [hcode]
    split
    · rename_i error herror
      rw [hdecode] at herror
      cases herror
    · rename_i found hfound
      rw [hdecode] at hfound
      cases hfound
      rfl

theorem ofClassFile_eq_ok_iff {c : ClassFile} {p : Program} :
    ofClassFile c = .ok p ↔
      ∃ m code instructions, ∃ hdecode : decode code.bytecode = .ok instructions,
        c.findMethod? entryName = some m ∧ m.code c.pool = .ok code ∧
          p = ofCode c.pool (m.methodType? c.pool) code instructions hdecode := by
  unfold ofClassFile
  cases c.findMethod? entryName with
  | none => simp
  | some m => simp [ofMethod_eq_ok_iff]

theorem fits_of_ofClassFile {c : ClassFile} {p : Program} (h : ofClassFile c = .ok p) :
    p.code.Fits := by
  obtain ⟨m, code, _, _, _, hcode, rfl⟩ := ofClassFile_eq_ok_iff.mp h
  exact Member.fits_of_code hcode

theorem lines_of_ofClassFile {c : ClassFile} {p : Program} (h : ofClassFile c = .ok p) :
    p.lines = (p.code.lineNumbers p.pool).toOption.getD [] := by
  obtain ⟨m, code, _, _, _, _, rfl⟩ := ofClassFile_eq_ok_iff.mp h
  rfl

/-- The program of a class file whose entry method was given another code. -/
theorem ofClassFile_withEntryCode {c : ClassFile} {p : Program} {code : Code}
    {instructions : Array Instruction} (h : ofClassFile c = .ok p) (hfits : code.Fits)
    (hdecode : decode code.bytecode = .ok instructions) :
    ofClassFile (c.withEntryCode code) =
      .ok (ofCode p.pool p.methodType code instructions hdecode) := by
  obtain ⟨m, old, _, _, hfound, hcode, rfl⟩ := ofClassFile_eq_ok_iff.mp h
  exact ofClassFile_eq_ok_iff.mpr ⟨m.withCode c.pool code, code, instructions, hdecode,
    ClassFile.findMethod?_withEntryCode hfound code, Member.code_withCode hcode hfits, rfl⟩

end Program

end ClassMachine
