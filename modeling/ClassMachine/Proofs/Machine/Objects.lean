import ClassMachine.Proofs.Bytecode.Meaning
import ClassMachine.Proofs.Machine.Reached
import ClassMachine.Proofs.Machine.Values

/-!
# Objects of a run

The heap of a run is the row of the objects that its dispatched instructions made, also of the one
whose reference did not fit on the stack.  As long as the ids do not run out, an object stands where
its id says, and the machine holds no references but those that were handed out.
-/

namespace ClassMachine

namespace Heap

variable {heap : Heap} {classes classes' : List UInt16} {id : UInt32}

/-- The heap behind allocations for all the classes, in order. -/
def allocateAll (heap : Heap) (classes : List UInt16) : Heap := classes.foldl allocate heap

theorem allocateAll_append (heap : Heap) (classes classes' : List UInt16) :
    heap.allocateAll (classes ++ classes') = (heap.allocateAll classes).allocateAll classes' :=
  List.foldl_append

theorem size_allocate (heap : Heap) (classIndex : UInt16) :
    (heap.allocate classIndex).size = heap.size + 1 :=
  Array.size_push _

theorem size_allocateAll (heap : Heap) (classes : List UInt16) :
    (heap.allocateAll classes).size = heap.size + classes.length := by
  induction classes generalizing heap with
  | nil => rfl
  | cons classIndex classes ih =>
      change ((heap.allocate classIndex).allocateAll classes).size = _
      rw [ih, size_allocate, List.length_cons]
      omega

theorem size_allocateAll_empty (classes : List UInt16) :
    (empty.allocateAll classes).size = classes.length := by
  rw [size_allocateAll]
  exact Nat.zero_add _

theorem prefix_allocateAll (heap : Heap) (classes : List UInt16) :
    heap.objects.toList <+: (heap.allocateAll classes).objects.toList := by
  induction classes generalizing heap with
  | nil => exact List.prefix_rfl
  | cons classIndex classes ih =>
      refine List.IsPrefix.trans ?_ (ih (heap.allocate classIndex))
      rw [allocate, Array.toList_push]
      exact List.prefix_append _ _

theorem toNat_nextId (h : heap.size + 1 < 2 ^ 32) : heap.nextId.toNat = heap.size + 1 :=
  UInt32.toNat_ofNat_of_lt' h

/-- The first allocations make objects with consecutive ids from 1 on. -/
theorem objects_allocateAll_empty (h : classes.length < 2 ^ 32) :
    (empty.allocateAll classes).objects.toList.map (fun o => (o.id.toNat, o.classIndex)) =
      (List.range' 1 classes.length).zip classes := by
  induction classes using List.reverseRecOn with
  | nil => rfl
  | append_singleton classes classIndex ih =>
      rw [List.length_append, List.length_singleton] at h ⊢
      have hsize := size_allocateAll_empty classes
      have hid : (empty.allocateAll classes).nextId.toNat = 1 + classes.length := by
        rw [toNat_nextId (by omega), hsize, Nat.add_comm]
      rw [allocateAll_append, List.range'_concat, List.zip_append List.length_range']
      change List.map _ ((empty.allocateAll classes).allocate classIndex).objects.toList = _
      rw [allocate, Array.toList_push, List.map_append, ih (by omega)]
      simp only [List.map_singleton, hid, Nat.one_mul, List.zip_cons_cons, List.zip_nil_right]

theorem get?_of_pos (h : 1 ≤ id.toNat) : heap.get? id = heap.objects[id.toNat - 1]? := by
  rw [get?, if_neg]
  rintro rfl
  exact absurd h (by decide)

theorem get?_eq_none (h : id = 0 ∨ heap.size < id.toNat) : heap.get? id = none := by
  by_cases hzero : id = 0
  · rw [get?, if_pos hzero]
  · have hbeyond : heap.size < id.toNat := h.resolve_left hzero
    rw [get?, if_neg hzero, Array.getElem?_eq_none_iff]
    change heap.size ≤ _
    omega

theorem get?_allocateAll_empty (h : classes.length < 2 ^ 32) (hpos : 1 ≤ id.toNat)
    (hle : id.toNat ≤ classes.length) :
    ∃ object, (empty.allocateAll classes).get? id = some object ∧ object.id = id := by
  have hindex : id.toNat - 1 < (empty.allocateAll classes).objects.toList.length := by
    change _ < (empty.allocateAll classes).size
    rw [size_allocateAll_empty]
    omega
  -- the object at that place, as the row of all objects tells it
  have hentry := congrArg (·[id.toNat - 1]?) (objects_allocateAll_empty h)
  simp only [List.getElem?_map, List.getElem?_eq_getElem hindex, Option.map_some] at hentry
  obtain ⟨hid, _⟩ := List.getElem?_zip_eq_some.mp hentry.symm
  rw [List.getElem?_range' (by omega), Option.some.injEq] at hid
  refine ⟨(empty.allocateAll classes).objects.toList[id.toNat - 1], ?_, ?_⟩
  · rw [get?_of_pos hpos, ← Array.getElem?_toList, List.getElem?_eq_getElem hindex]
  · refine UInt32.toNat_inj.mp (hid.symm.trans ?_)
    omega

end Heap

theorem DescriptorType.type_ne_reference_of_zeroValue {type : DescriptorType} {value : Value}
    (h : type.zeroValue = some value) : value.type ≠ .reference := by
  cases type <;> cases h <;> nofun

namespace Program

theorem type_ne_reference_of_mem_initialLocals {p : Program} {value : Value}
    (h : some value ∈ p.initialLocals) : value.type ≠ .reference := by
  rcases exists_zeroValue_of_mem_initialLocals h with ⟨type, hvalue⟩
  exact type.type_ne_reference_of_zeroValue hvalue

end Program

namespace Machine

variable {p : Program} {config : Config} {m m' : Machine} {i : Instruction} {action : Action}
variable {n k : Nat}

theorem Completes.heap {flow : Flow} (h : Completes p i m action flow m') :
    m'.heap = m.heap.allocateAll action.class?.toList := by
  cases h with
  | jump hdecides _ _ =>
      rw [hdecides.class?_eq_none]
      rfl
  | fallThrough hdecides =>
      rw [hdecides.class?_eq_none]
      rfl
  | _ => rfl

theorem Fails.heap {cause : FaultCause} (h : Fails p i m action cause m') :
    m'.heap = m.heap.allocateAll action.class?.toList := by
  cases h with
  | drops hother _ _ =>
      rw [hother]
      rfl
  | branch hdecides _ =>
      rw [hdecides.class?_eq_none]
      rfl
  | allocate _ => rfl

/-- A step makes the object of the instruction that it dispatches, also when it faults. -/
theorem heap_after_step (p : Program) (config : Config) (m : Machine) :
    (after (step p config) m).heap =
      m.heap.allocateAll ((dispatched? p config m).toList.filterMap Instruction.newClass?) := by
  have hclasses : ∀ i action, i.action? = some action →
      [i].filterMap Instruction.newClass? = action.class?.toList := by
    intro i action haction
    rw [← Instruction.newClass?_eq_of_action? haction, List.filterMap_cons]
    cases i.newClass? <;> rfl
  apply after_step_induction
    (motive := fun m' => m'.heap =
      m.heap.allocateAll ((dispatched? p config m).toList.filterMap Instruction.newClass?))
  · intro status hnext
    rw [hnext]
    rfl
  · intro i action flow m' status hnext haction hcompletes
    rw [hnext, Option.toList_some, hclasses i action haction]
    exact hcompletes.heap
  · intro i action cause m' status hnext haction hfails
    rw [hnext, Option.toList_some, hclasses i action haction]
    exact hfails.heap

/-- The classes of the objects that so many steps of a run make, in order. -/
def madeClasses (p : Program) (config : Config) (steps : Nat) : List UInt16 :=
  (dispatched p config steps (initial p)).filterMap Instruction.newClass?

theorem heap_reached (p : Program) (config : Config) (n : Nat) :
    (reached p config n).heap = Heap.empty.allocateAll (madeClasses p config n) := by
  induction n with
  | zero => rfl
  | succ n ih =>
      rw [reached_succ, heap_after_step, ih, ← Heap.allocateAll_append, madeClasses, madeClasses,
        dispatched_initial_succ, List.filterMap_append]

theorem heap_size_reached (p : Program) (config : Config) (n : Nat) :
    (reached p config n).heap.size = (madeClasses p config n).length := by
  rw [heap_reached, Heap.size_allocateAll_empty]

theorem prefix_heap_reached (p : Program) (config : Config) (h : k ≤ n) :
    (reached p config k).heap.objects.toList <+: (reached p config n).heap.objects.toList := by
  induction h with
  | refl => exact List.prefix_rfl
  | step _ ih =>
      refine ih.trans ?_
      rw [reached_succ, heap_after_step]
      exact Heap.prefix_allocateAll _ _

theorem not_holds_reference_initial (p : Program) (id : UInt32) :
    ¬(initial p).Holds (.reference id) := by
  rintro (hstack | hlocals | hreturned)
  · cases Array.not_mem_empty _ hstack
  · exact Program.type_ne_reference_of_mem_initialLocals hlocals rfl
  · cases hreturned

theorem reference_of_introduces {id : UInt32} {heap : Heap}
    (h : action.Introduces p heap (.reference id)) (haction : i.action? = some action) :
    id = heap.nextId ∧ ∃ classIndex, i.newClass? = some classIndex := by
  rw [Instruction.newClass?_eq_of_action? haction]
  cases h with
  | operand => exact absurd rfl (Instruction.type_ne_reference_of_action? haction)
  | constant hconstant => exact absurd rfl (Pool.type_ne_reference_of_loadable? hconstant)
  | allocated => exact ⟨rfl, _, rfl⟩

theorem reference_bounds_reached (hsmall : (reached p config n).heap.size < 2 ^ 32) {id : UInt32}
    (h : (reached p config n).Holds (.reference id)) :
    1 ≤ id.toNat ∧ id.toNat ≤ (reached p config n).heap.size := by
  induction n with
  | zero => exact absurd h (not_holds_reference_initial p id)
  | succ n ih =>
      have hgrows : (reached p config n).heap.size ≤ (reached p config (n + 1)).heap.size :=
        (prefix_heap_reached p config n.le_succ).length_le
      obtain hheld | ⟨i, action, hnext, haction, hintroduces⟩ := holds_of_holds_after_step h
      · obtain ⟨hpos, hle⟩ := ih (hgrows.trans_lt hsmall) hheld
        exact ⟨hpos, hle.trans hgrows⟩
      · -- the reference is that of the object that the step makes
        obtain ⟨rfl, classIndex, hclass⟩ := reference_of_introduces hintroduces haction
        have hsize : (reached p config (n + 1)).heap.size = (reached p config n).heap.size + 1 := by
          rw [reached_succ, heap_after_step, hnext, Heap.size_allocateAll]
          simp only [Option.toList_some, List.filterMap_cons, hclass, List.filterMap_nil,
            List.length_singleton]
        rw [Heap.toNat_nextId (hsize ▸ hsmall), hsize]
        exact ⟨Nat.le_add_left 1 _, Nat.le_refl _⟩

/-- As long as ids do not run out, the heap of a run is the row of the objects that it made,
numbered from 1 on, and has only grown at its end.  Every reference that the machine holds is the id
of one of them, and no other id gives an object. -/
theorem objects_reached (p : Program) (config : Config) (n : Nat)
    (hsmall : (reached p config n).heap.size < 2 ^ 32) :
    let m := reached p config n
    let classes := madeClasses p config n
    m.heap.objects.toList.map (fun o => (o.id.toNat, o.classIndex)) =
        (List.range' 1 classes.length).zip classes ∧
      (∀ id, m.Holds (.reference id) → 1 ≤ id.toNat ∧ id.toNat ≤ m.heap.size ∧
        ∃ object, m.heap.get? id = some object ∧ object.id = id) ∧
      (∀ id, id = 0 ∨ m.heap.size < id.toNat → m.heap.get? id = none) ∧
      ∀ k ≤ n, (reached p config k).heap.objects.toList <+: m.heap.objects.toList := by
  intro m classes
  have hheap : m.heap = Heap.empty.allocateAll classes := heap_reached p config n
  have hsize : m.heap.size = classes.length := heap_size_reached p config n
  refine ⟨?_, ?_, fun id => Heap.get?_eq_none, fun k hk => prefix_heap_reached p config hk⟩
  · rw [hheap]
    exact Heap.objects_allocateAll_empty (hsize ▸ hsmall)
  · intro id hholds
    obtain ⟨hpos, hle⟩ := reference_bounds_reached hsmall hholds
    refine ⟨hpos, hle, ?_⟩
    rw [hheap]
    exact Heap.get?_allocateAll_empty (hsize ▸ hsmall) hpos (hsize ▸ hle)

/-- An object whose reference does not fit on the stack is in the heap all the same. -/
theorem objects_reached_overflow :
    let p := Program.ofCode .empty none ⟨1, 0, [0xbb, 0, 3, 0xbb, 0, 5], [], []⟩
      #[⟨0, .new, [0, 3]⟩, ⟨3, .new, [0, 5]⟩] (by decide +kernel)
    let m := reached p ⟨.fail, none⟩ 2
    m.status = .halted (.faulted ⟨.stackOverflow 1, 3, none⟩) ∧ m.heap.size < 2 ^ 32 ∧
      m.heap.objects.toList.map (fun o => (o.id.toNat, o.classIndex)) = [(1, 3), (2, 5)] ∧
        m.Holds (.reference 1) ∧ (∃ object, m.heap.get? 1 = some object ∧ object.id = 1) ∧
          m.heap.get? 3 = none ∧
            (reached p ⟨.fail, none⟩ 1).heap.objects.toList <+: m.heap.objects.toList := by
  intro p m
  have hsmall : m.heap.size < 2 ^ 32 := by decide +kernel
  have hholds : m.Holds (.reference 1) := .inl (by decide +kernel)
  obtain ⟨hobjects, hreferences, hnone, hprefix⟩ := objects_reached p ⟨.fail, none⟩ 2 hsmall
  exact ⟨by decide +kernel, hsmall, hobjects.trans (by decide +kernel), hholds,
    (hreferences 1 hholds).2.2, hnone 3 (.inr (by decide +kernel)), hprefix 1 (by decide)⟩

end Machine

end ClassMachine
