import ClassMachine.ClassFile.Codec
import ClassMachine.Code.LineTable
import ClassMachine.Proofs.Codec.Pools

/-!
# Readers and their parts

The readers of all formats are put together from a few primitive ones: they take bytes, check a
count, give a value or refuse, one after the other.  So a property of readers that the primitive
ones have, and that two readers hand on to their sequence, is one of every format.
-/

namespace ClassMachine

/-- The error refuses a declared count in front of its items. -/
def FormatError.IsRefusal : FormatError → Prop
  | .countExceedsInput _ _ _ => True
  | _ => False

namespace Reader

/-- A property that the primitive readers have, and that a sequence has when its parts do. -/
structure Compositional (P : ∀ α : Type, Reader α → Prop) : Prop where
  pure : ∀ {α : Type} (a : α), P α (pure a)
  bind : ∀ {α β : Type} {reader : Reader α} {next : α → Reader β},
    P α reader → (∀ a, P β (next a)) → P β (reader >>= next)
  throw : ∀ {α : Type} (error : FormatError), ¬error.IsRefusal → P α (throw error)
  bytes : ∀ count part, P (List UInt8) (bytes count part)
  checkCount : ∀ part count minSize, P Unit (checkCount part count minSize)

namespace Compositional

variable {P : ∀ α : Type, Reader α → Prop} (h : Compositional P)

include h

theorem word (width : Nat) (part : String) : P Nat (word width part) := by
  apply h.bind (h.bytes width part)
  intro raw
  exact h.pure _

theorem u8 (part : String) : P UInt8 (u8 part) := h.bind (h.word 1 part) fun _ => h.pure _

theorem u16 (part : String) : P UInt16 (u16 part) := h.bind (h.word 2 part) fun _ => h.pure _

theorem u32 (part : String) : P UInt32 (u32 part) := h.bind (h.word 4 part) fun _ => h.pure _

theorem u64 (part : String) : P UInt64 (u64 part) := h.bind (h.word 8 part) fun _ => h.pure _

theorem replicate {α : Type} {item : Reader α} (hitem : P α item) (count : Nat) :
    P (List α) (replicate count item) := by
  induction count with
  | zero => exact h.pure []
  | succ count ih =>
      rw [replicate_succ]
      apply h.bind hitem
      intro first
      apply h.bind ih
      intro others
      exact h.pure _

theorem counted {α : Type} {item : Reader α} (hitem : P α item) (part : String) (minSize : Nat) :
    P (List α) (counted part minSize item) := by
  have hcount : P Nat (count part minSize) := by
    apply h.bind (h.word 2 part)
    intro n
    exact h.bind (h.checkCount part n minSize) fun _ => h.pure n
  apply h.bind hcount
  intro n
  exact h.replicate hitem n

/-! ## Constants and pools -/

theorem utf8 (index : Nat) : P Constant (Constant.readUtf8 index) := by
  apply h.bind (h.word 2 _)
  intro length
  apply h.bind (h.bytes length _)
  intro raw
  split
  · exact h.pure _
  · exact h.throw _ (by simp [FormatError.IsRefusal])

theorem pair (make : UInt16 → UInt16 → Constant) (first second : String) :
    P Constant (Constant.readPair make first second) := by
  apply h.bind (h.u16 first)
  intro a
  exact h.bind (h.u16 second) fun b => h.pure _

theorem payload (index : Nat) (tag : Tag) : P Constant (Constant.readPayload index tag) := by
  cases tag with
  | utf8 => exact h.utf8 index
  | integer | float => exact h.bind (h.u32 _) fun _ => h.pure _
  | long | double => exact h.bind (h.u64 _) fun _ => h.pure _
  | methodHandle => exact h.bind (h.u8 _) fun _ => h.bind (h.u16 _) fun _ => h.pure _
  | classRef | string | methodType | moduleRef | packageRef =>
      exact h.bind (h.u16 _) fun _ => h.pure _
  | fieldRef | methodRef | interfaceMethodRef | nameAndType | dynamic | invokeDynamic =>
      exact h.pair _ _ _

theorem constant (index : Nat) : P Constant (Constant.read index) := by
  apply h.bind (h.u8 _)
  intro byte
  split
  · exact h.payload index _
  · exact h.throw _ (by simp [FormatError.IsRefusal])

theorem slots (remaining : Nat) (slots : Array (Option Constant)) :
    P (Array (Option Constant)) (Pool.readSlots remaining slots) := by
  -- a wide constant fills two slots at once, so the induction skips one
  induction remaining using Nat.strong_induction_on generalizing slots with
  | _ remaining ih =>
      cases remaining with
      | zero => exact h.pure slots
      | succ remaining =>
          rw [Pool.readSlots_succ_eq]
          apply h.bind (h.constant _)
          intro constant
          split
          · have hpositive := constant.slots_pos
            exact ih _ (by omega) _
          · exact h.pure _

theorem pool : P Pool Pool.read := by
  apply h.bind (h.word 2 _)
  intro count
  apply h.bind (h.checkCount _ _ _)
  intro checked
  split
  · exact h.pure _
  · exact h.bind (h.slots _ _) fun _ => h.pure _

/-! ## Class files and codes -/

theorem attributes : P (List Attribute) Attribute.readList := by
  have hitem : P Attribute Attribute.read := by
    apply h.bind (h.u16 _)
    intro nameIndex
    apply h.bind (h.word 4 _)
    intro length
    exact h.bind (h.bytes length _) fun info => h.pure _
  exact h.counted hitem _ _

theorem member : P Member Member.read := by
  apply h.bind (h.u16 _)
  intro accessFlags
  apply h.bind (h.u16 _)
  intro nameIndex
  apply h.bind (h.u16 _)
  intro descriptorIndex
  exact h.bind h.attributes fun attributes => h.pure _

theorem members (part : String) : P (List Member) (Member.readList part) :=
  h.counted h.member part _

theorem magic : P UInt32 ClassFile.readMagic := by
  apply h.bind (h.u32 _)
  intro magic
  split
  · exact h.pure _
  · exact h.throw _ (by simp [FormatError.IsRefusal])

theorem classFile : P ClassFile ClassFile.read := by
  refine h.bind h.magic fun magic => h.bind (h.u16 _) fun minorVersion => ?_
  refine h.bind (h.u16 _) fun majorVersion => h.bind h.pool fun pool => ?_
  refine h.bind (h.u16 _) fun accessFlags => h.bind (h.u16 _) fun thisClass => ?_
  refine h.bind (h.u16 _) fun superClass => h.bind (h.counted (h.u16 _) _ _) fun interfaces => ?_
  refine h.bind (h.members _) fun fields => h.bind (h.members _) fun methods => ?_
  exact h.bind h.attributes fun attributes => h.pure _

theorem exceptionRow : P ExceptionRow ExceptionRow.read := by
  refine h.bind (h.u16 _) fun startPc => h.bind (h.u16 _) fun endPc => ?_
  exact h.bind (h.u16 _) fun handlerPc => h.bind (h.u16 _) fun catchType => h.pure _

theorem code : P Code Code.read := by
  refine h.bind (h.u16 _) fun maxStack => h.bind (h.u16 _) fun maxLocals => ?_
  refine h.bind (h.word 4 _) fun length => h.bind (h.bytes length _) fun bytecode => ?_
  refine h.bind (h.counted h.exceptionRow _ _) fun exceptionTable => ?_
  exact h.bind h.attributes fun attributes => h.pure _

theorem lineNumber : P LineNumber LineNumber.read :=
  h.bind (h.u16 _) fun _ => h.bind (h.u16 _) fun _ => h.pure _

theorem lineTable : P (List LineNumber) LineTable.read := h.counted h.lineNumber _ _

end Compositional

end Reader

end ClassMachine
