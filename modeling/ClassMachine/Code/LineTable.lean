import ClassMachine.Code.Basic
import ClassMachine.Pool.Basic

/-!
# Source lines

The line tables among the attributes of a code say which source line the
instructions from an offset on come from.  The tables of one code are read in
order and joined; one table that ends too early spoils them all.

The line of an offset is that of the entry with the greatest start not past the
offset, and of several such entries that of the last.
-/

namespace ClassMachine

structure LineNumber where
  startPc : UInt16
  line : UInt16
  deriving DecidableEq, Repr

namespace LineNumber

def size : Nat := 4

def read : Reader LineNumber := do
  let startPc ← Reader.u16 "line number start pc"
  let line ← Reader.u16 "line number"
  return { startPc, line }

end LineNumber

namespace LineTable

def attributeName : String := "LineNumberTable"

def read : Reader (List LineNumber) :=
  Reader.counted "line number table length" LineNumber.size LineNumber.read

/-- Of two entries, the one with the greater start, and the second of equals. -/
def later (best : Option LineNumber) (entry : LineNumber) : LineNumber :=
  match best with
  | none => entry
  | some best => if best.startPc ≤ entry.startPc then entry else best

def entryFor? (lines : List LineNumber) (offset : Nat) : Option LineNumber :=
  (lines.filter (·.startPc.toNat ≤ offset)).foldl (fun best entry => some (later best entry)) none

def lineFor? (lines : List LineNumber) (offset : Nat) : Option UInt16 :=
  (entryFor? lines offset).map (·.line)

end LineTable

namespace Code

def lineTables (code : Code) (pool : Pool) : List Attribute :=
  code.attributes.filter fun a => pool.text? a.nameIndex == some LineTable.attributeName

/-- The joined line tables, with the given treatment of counts. -/
def lineNumbersWith (check : CountCheck) (code : Code) (pool : Pool) :
    Except FormatError (List LineNumber) := do
  let tables ← (code.lineTables pool).mapM fun table =>
    (LineTable.read.read check table.info).map Prod.fst
  return tables.flatten

def lineNumbers (code : Code) (pool : Pool) : Except FormatError (List LineNumber) :=
  code.lineNumbersWith .upFront pool

end Code

end ClassMachine
