/-!
# The heap

A table of objects that only grows.  An object has no fields: it is its id and the
pool index of the class that it was made from.  Ids count from 1 in the order of
allocation, so no id is used twice.
-/

namespace ClassMachine

structure Object where
  id : UInt32
  classIndex : UInt16
  deriving DecidableEq, Repr

structure Heap where
  objects : Array Object
  deriving DecidableEq, Repr

namespace Heap

def empty : Heap := ⟨#[]⟩

def size (heap : Heap) : Nat := heap.objects.size

def isEmpty (heap : Heap) : Bool := heap.objects.isEmpty

def nextId (heap : Heap) : UInt32 := UInt32.ofNat (heap.size + 1)

def allocate (heap : Heap) (classIndex : UInt16) : Heap :=
  ⟨heap.objects.push ⟨heap.nextId, classIndex⟩⟩

def get? (heap : Heap) (id : UInt32) : Option Object :=
  if id = 0 then none else heap.objects[id.toNat - 1]?

end Heap

end ClassMachine
