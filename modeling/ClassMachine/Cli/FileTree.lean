import ClassMachine.Program.LoadError

/-!
# Files as paths reach them

A tree of directories and files, and the place in it from which paths are
followed.  A path is followed name by name, from the root if it starts with a slash
and from the place otherwise, so the first name that cannot be followed gives the
error.  A command line can be answered over such a place alone, without a disk.
-/

namespace ClassMachine

inductive FileTree where
  | file (content : List UInt8)
  | directory (entries : List (String × FileTree))

namespace FileTree

/-- A node of a tree with the directories above it, the nearest first. -/
structure Place where
  node : FileTree
  above : List FileTree

namespace Place

def root (place : Place) : Place :=
  ⟨place.above.getLastD place.node, []⟩

/-- The directory above a place.  There is none above the root, which stands for it. -/
def parent (place : Place) : Place :=
  match place.above with
  | [] => place
  | node :: above => ⟨node, above⟩

def nameLimit : Nat := 255

def pathLimit : Nat := 4095

/-- Follows one name.  An empty name, as between two slashes or after the last, stays
where it is, and like every name asks for a directory to be followed in. -/
def follow (place : Place) (name : String) : Except FileError Place :=
  match place.node with
  | .file _ => .error .notDirectory
  | .directory entries =>
      if name.isEmpty || name == "." then .ok place
      else if name == ".." then .ok place.parent
      else if nameLimit < name.utf8ByteSize then .error .nameTooLong
      else
        match entries.lookup name with
        | some node => .ok ⟨node, place.node :: place.above⟩
        | none => .error .missing

def locate (place : Place) (path : String) : Except FileError Place :=
  if pathLimit < path.utf8ByteSize then .error .nameTooLong
  else (path.splitOn "/").foldlM follow (if path.startsWith "/" then place.root else place)

def read (place : Place) (path : String) : Except FileError (List UInt8) := do
  match (← place.locate path).node with
  | .file content => return content
  | .directory _ => throw .directory

end Place

end FileTree

end ClassMachine
