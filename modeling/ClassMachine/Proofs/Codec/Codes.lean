import ClassMachine.Code.LineTable
import ClassMachine.Proofs.Codec.ClassFiles

/-!
# Reading codes back

The code of a method is a row of exact readers like a class file, but decoding the payload of
its attribute does not mind what follows.  So a payload decodes to a code that fits exactly when
it starts with the written form of that code, and no written form starts with that of another
code.  The line tables among its attributes are read back in the same way.
-/

namespace ClassMachine

open Reader

namespace ExceptionRow

theorem exact_read : Exact read toBytes (fun _ => True) := by
  intro check input row rest
  simp only [read, read_bind_eq_ok_iff, read_pure_eq_ok_iff, exact_u16 _ check _ _ _]
  constructor
  · rintro ⟨startPc, _, ⟨_, rfl⟩, endPc, _, ⟨_, rfl⟩, handlerPc, _, ⟨_, rfl⟩,
      catchType, _, ⟨_, rfl⟩, rfl, rfl⟩
    exact ⟨trivial, by simp [toBytes]⟩
  · rintro ⟨_, rfl⟩
    exact ⟨row.startPc, _, ⟨trivial, by simp only [toBytes, List.append_assoc]⟩,
      row.endPc, _, ⟨trivial, rfl⟩, row.handlerPc, _, ⟨trivial, rfl⟩,
      row.catchType, rest, ⟨trivial, rfl⟩, rfl, rfl⟩

theorem size_le_length_toBytes (row : ExceptionRow) : size ≤ row.toBytes.length := by
  simp only [size, toBytes, List.length_append, BigEndian.toBytes_length]
  omega

end ExceptionRow

namespace LineNumber

def toBytes (entry : LineNumber) : List UInt8 :=
  BigEndian.toBytes 2 entry.startPc.toNat ++ BigEndian.toBytes 2 entry.line.toNat

theorem exact_read : Exact read toBytes (fun _ => True) := by
  intro check input entry rest
  simp only [read, read_bind_eq_ok_iff, read_pure_eq_ok_iff, exact_u16 _ check _ _ _]
  constructor
  · rintro ⟨startPc, _, ⟨_, rfl⟩, line, _, ⟨_, rfl⟩, rfl, rfl⟩
    exact ⟨trivial, by simp [toBytes]⟩
  · rintro ⟨_, rfl⟩
    exact ⟨entry.startPc, _, ⟨trivial, by simp only [toBytes, List.append_assoc]⟩,
      entry.line, rest, ⟨trivial, rfl⟩, rfl, rfl⟩

theorem length_toBytes (entry : LineNumber) : entry.toBytes.length = size := by
  simp [size, toBytes]

end LineNumber

namespace LineTable

/-- The written form of a line table. -/
def toBytes (lines : List LineNumber) : List UInt8 :=
  BigEndian.toBytes 2 lines.length ++ lines.flatMap LineNumber.toBytes

theorem exact_read : Exact read toBytes (fun lines => lines.length < 65536) := by
  intro check input lines rest
  have hcounted : Exact read toBytes _ :=
    exact_counted LineNumber.exact_read _ fun entry _ => entry.length_toBytes.ge
  simpa using hcounted check input lines rest

/-- The payload starts with the written form of the lines. -/
def Holds (info : List UInt8) (lines : List LineNumber) : Prop :=
  lines.length < 65536 ∧ ∃ rest, info = toBytes lines ++ rest

end LineTable

namespace Code

/-- Every count and every length in a code can be written. -/
structure Fits (code : Code) : Prop where
  bytecode : code.bytecode.length < 256 ^ 4
  exceptionTable : code.exceptionTable.length < 65536
  attributes : Attribute.ListFits code.attributes

theorem exact_readExceptionTable (part : String) :
    Exact (Reader.counted part ExceptionRow.size ExceptionRow.read)
      (fun rows => BigEndian.toBytes 2 rows.length ++ rows.flatMap ExceptionRow.toBytes)
      (fun rows => rows.length < 65536) := by
  intro check input rows rest
  have hcounted : Exact (Reader.counted part ExceptionRow.size ExceptionRow.read) _ _ :=
    exact_counted ExceptionRow.exact_read part fun row _ => row.size_le_length_toBytes
  simpa using hcounted check input rows rest

theorem exact_read : Exact read encode Fits := by
  intro check input code rest
  simp only [read, read_bind_eq_ok_iff, read_pure_eq_ok_iff, exact_u16 _ check _ _ _,
    exact_word 4 _ check _ _ _, exact_bytes _ _ check _ _ _,
    exact_readExceptionTable _ check _ _ _, Attribute.exact_readList check _ _ _]
  constructor
  · rintro ⟨maxStack, _, ⟨_, rfl⟩, maxLocals, _, ⟨_, rfl⟩, length, _, ⟨hlength, rfl⟩,
      bytecode, _, ⟨rfl, rfl⟩, exceptionTable, _, ⟨hrows, rfl⟩, attributes, _,
      ⟨hattributes, rfl⟩, rfl, rfl⟩
    exact ⟨⟨hlength, hrows, hattributes⟩, by simp [encode]⟩
  · rintro ⟨hfits, rfl⟩
    exact ⟨code.maxStack, _, ⟨trivial, by simp only [encode, id_eq, List.append_assoc]⟩,
      code.maxLocals, _, ⟨trivial, rfl⟩, code.bytecode.length, _, ⟨hfits.bytecode, rfl⟩,
      code.bytecode, _, ⟨rfl, rfl⟩, code.exceptionTable, _,
      ⟨hfits.exceptionTable, (List.append_assoc _ _ _).symm⟩,
      code.attributes, rest, ⟨hfits.attributes, rfl⟩, rfl, rfl⟩

theorem decodeWith_eq_ok_iff {check : CountCheck} {info : List UInt8} {code : Code} :
    decodeWith check info = .ok code ↔ code.Fits ∧ ∃ rest, info = code.encode ++ rest :=
  exact_read.map_fst_eq_ok_iff

theorem mapM_eq_ok_iff {f : α → Except ε β} {items : List α} {values : List β} :
    items.mapM f = .ok values ↔ List.Forall₂ (fun a b => f a = .ok b) items values := by
  induction items generalizing values with
  | nil => cases values <;> simp [pure, Except.pure]
  | cons item items ih =>
      rw [List.mapM_cons]
      cases values with
      | nil => cases f item <;> cases items.mapM f <;> simp [bind, Except.bind, pure, Except.pure]
      | cons value values =>
          rw [List.forall₂_cons, ← ih]
          cases f item <;> cases items.mapM f <;> simp [bind, Except.bind, pure, Except.pure]

/-- The lines of a code are those that the payloads of its line tables hold, in order. -/
theorem lineNumbersWith_eq_ok_iff {check : CountCheck} {code : Code} {pool : Pool}
    {lines : List LineNumber} :
    code.lineNumbersWith check pool = .ok lines ↔
      ∃ tables, List.Forall₂ (fun a table => LineTable.Holds a.info table) (code.lineTables pool)
        tables ∧ lines = tables.flatten := by
  have htables : ∀ tables,
      ((code.lineTables pool).mapM fun a => (LineTable.read.read check a.info).map Prod.fst) =
          .ok tables ↔
        List.Forall₂ (fun a table => LineTable.Holds a.info table) (code.lineTables pool) tables := by
    intro tables
    rw [mapM_eq_ok_iff]
    simp only [LineTable.exact_read.map_fst_eq_ok_iff, LineTable.Holds]
  unfold lineNumbersWith
  simp only [← htables]
  cases (code.lineTables pool).mapM fun a => (LineTable.read.read check a.info).map Prod.fst with
  | error error => simp [bind, Except.bind]
  | ok tables => simp [bind, Except.bind, pure, Except.pure, eq_comm]

/-- A code that fits is decoded from the payload of its own attribute. -/
theorem decode_toAttribute {code : Code} (h : code.Fits) (nameIndex : UInt16) :
    decode (code.toAttribute nameIndex).info = .ok code :=
  decodeWith_eq_ok_iff.mpr ⟨h, [], (List.append_nil _).symm⟩

/-- The bytes behind a written form do not make another one of it. -/
theorem eq_of_encode_prefix {code code' : Code} (h : code.Fits) (h' : code'.Fits)
    (hstarts : code.encode <+: code'.encode) : code = code' := by
  rcases hstarts with ⟨rest, hrest⟩
  have hdecode : decode code'.encode = .ok code := by
    apply decodeWith_eq_ok_iff.mpr
    exact ⟨h, rest, hrest.symm⟩
  have hdecode' : decode code'.encode = .ok code' := by
    apply decodeWith_eq_ok_iff.mpr
    exact ⟨h', [], by simp⟩
  simpa [hdecode] using hdecode'

/-- A payload decodes to a code exactly when the code fits and the payload starts with its written
form.  So a code that fits comes back from its own attribute, and is the only one that fits with
its written form. -/
theorem decode_eq_ok_iff_encode (info : List UInt8) (code : Code) :
    (decode info = .ok code ↔ code.Fits ∧ ∃ rest, info = code.encode ++ rest) ∧
      (code.Fits → (∀ nameIndex, decode (code.toAttribute nameIndex).info = .ok code) ∧
        ∀ code', code'.Fits → code.encode = code'.encode → code = code') := by
  refine ⟨decodeWith_eq_ok_iff, fun hfits => ⟨decode_toAttribute hfits, ?_⟩⟩
  intro code' hfits' hsame
  apply eq_of_encode_prefix hfits hfits'
  simp [hsame]

/-- One row and one nested attribute, with two bytes behind them. -/
theorem decode_eq_ok_iff_encode_nested :
    let code : Code := ⟨1, 2, [0x04, 0xac], [⟨0, 1, 1, 0⟩], [⟨9, [0, 0]⟩]⟩
    let same : Code := ⟨1, 2, [0x04] ++ [0xac], [⟨0, 1, 1, 0⟩], List.replicate 1 ⟨9, [0, 0]⟩⟩
    let info : List UInt8 :=
      [0, 1, 0, 2, 0, 0, 0, 2, 0x04, 0xac, 0, 1, 0, 0, 0, 1, 0, 1, 0, 0, 0, 1, 0, 9, 0, 0, 0, 2, 0, 0,
        0xaa, 0xbb]
    code.Fits ∧ info = code.encode ++ [0xaa, 0xbb] ∧ decode info = .ok code ∧
      decode (code.toAttribute 1).info = .ok code ∧
        same.Fits ∧ code.encode = same.encode ∧ code = same := by
  intro code same info
  have hinfo : info = code.encode ++ [0xaa, 0xbb] := by decide
  have hsame : code.encode = same.encode := by decide
  have hfits : code.Fits := by
    constructor <;> simp [code, Attribute.ListFits, Attribute.Fits]
  have hfits' : same.Fits := by
    constructor <;> simp [same, Attribute.ListFits, Attribute.Fits]
  rcases decode_eq_ok_iff_encode info code with ⟨hdecode, hback⟩
  rcases hback hfits with ⟨hattribute, hunique⟩
  exact ⟨hfits, hinfo, hdecode.mpr ⟨hfits, _, hinfo⟩, hattribute 1, hfits', hsame,
    hunique same hfits' hsame⟩

end Code

end ClassMachine
