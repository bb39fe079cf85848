import ClassMachine.ClassFile.Codec
import ClassMachine.Proofs.Bytecode.Meaning
import ClassMachine.Proofs.Checked.Loading
import ClassMachine.Proofs.Machine.Arithmetic
import ClassMachine.Proofs.Machine.Steps

/-!
# Running with checked operations

A step reads operand bytes, looks up instructions, adds offsets, divides, counts objects
and counts instructions.  Here each of these operations is checked, and a run stops
without a result at the first one that goes out of range.

Under a limit on the instructions that fits in 32 bits no run does: instructions have the
operand bytes of their opcodes, offsets and distances are small, division is asked for
only with a divisor, and there are never more objects or counted instructions than the
limit allows.  So checked runs are runs.
-/

namespace ClassMachine

open Checked

namespace IntOp

/-- Division is not asked for with a divisor of zero; elsewhere a result has to exist. -/
def applyChecked (op : IntOp) (a b : Int32) : Option (Except FaultCause Int32) :=
  if (op = .div ∨ op = .rem) ∧ b = 0 then some (.error .divisionByZero)
  else (op.result? a.toInt b.toInt).map .ok

theorem applyChecked_eq (op : IntOp) (a b : Int32) :
    op.applyChecked a b = some (op.apply a b) := by
  rw [op.apply_eq, applyChecked]
  by_cases hb : b = 0
  · cases op <;> simp [result?, hb]
  · have hzero : b.toInt ≠ 0 := fun h => hb (Int32.toInt_inj.mp h)
    cases op <;> simp [result?, hb, hzero]

end IntOp

namespace Instruction

theorem distance?_bounds {i : Instruction} {distance : Int} (h : i.distance? = some distance) :
    -2 ^ 31 ≤ distance ∧ distance < 2 ^ 31 := by
  obtain ⟨word, _, rfl⟩ := Option.map_eq_some_iff.mp h
  have hlower := word.le_toInt
  have hupper := word.toInt_lt
  omega

theorem action?_distance_bounds {i : Instruction} {action : Action} {distance : Int}
    (haction : i.action? = some action) (h : action.distance? = some distance) :
    -2 ^ 31 ≤ distance ∧ distance < 2 ^ 31 := by
  unfold action? at haction
  split at haction
  -- what is left are the branches, whose distances are their operands
  all_goals first
    | cases haction; cases h
    | split at haction <;> cases haction; cases h
    | obtain ⟨operand, hoperand, rfl⟩ := Option.map_eq_some_iff.mp haction
      cases h
  all_goals first
    | exact distance?_bounds hoperand
    | exact ⟨operand.le_toInt, operand.toInt_lt⟩

end Instruction

namespace Execution

/-- Executions that also stop, without a result, at an operation that goes out of range. -/
abbrev Checked := OptionT Execution

def completed {α : Type} :
    EStateM.Result FaultCause Machine α → EStateM.Result FaultCause Machine (Option α)
  | .ok a m => .ok (some a) m
  | .error cause m => .error cause m

/-- From a machine on, the checked execution completes and is the unchecked one. -/
def Agrees {α : Type} (x : Checked α) (y : Execution α) (m : Machine) : Prop :=
  x.run m = completed (y m)

namespace Agrees

variable {α β : Type} {m : Machine}

theorem pure (a : α) : Agrees (pure a : Checked α) (pure a) m := rfl

theorem lift (y : Execution α) : Agrees (liftM y : Checked α) y m := by
  change EStateM.bind y _ m = _
  unfold EStateM.bind
  cases y m <;> rfl

theorem bind {x : Checked α} {y : Execution α} {f : α → Checked β} {g : α → Execution β}
    (hx : Agrees x y m) (hf : ∀ a m', Agrees (f a) (g a) m') :
    Agrees (x >>= f) (y >>= g) m := by
  unfold Agrees at hx
  change EStateM.bind x.run _ m = completed (EStateM.bind y g m)
  unfold EStateM.bind
  rw [hx]
  cases y m with
  | ok a m' => exact hf a m'
  | error cause m' => rfl

end Agrees

def require {α : Type} (result : Option α) : Checked α := OptionT.mk (Pure.pure result)

/-- Where the required result exists, the execution goes on with it. -/
theorem Agrees.require_bind {α β : Type} {result : Option α} {a : α} {f : α → Checked β}
    {y : Execution β} {m : Machine} (hresult : result = some a) (hf : Agrees (f a) y m) :
    Agrees (require result >>= f) y m := by
  rw [hresult]
  exact hf

/-- The target of a branch is added up in 64 bits. -/
def branchChecked (p : Program) (i : Instruction) (distance : Int) : Checked Unit := do
  let target := (i.offset : Int) + distance
  guard (-2 ^ 63 ≤ target ∧ target < 2 ^ 63)
  if target < 0 then
    liftM (throw (.invalidBranch target) : Execution Unit)
  else
    match ← require (p.instructionAtChecked target.toNat) with
    | none => liftM (throw (.invalidBranch target) : Execution Unit)
    | some _ => liftM (modify fun m => { m with pc := target.toNat } : Execution Unit)

def branchWhenChecked (p : Program) (i : Instruction) (condition : Bool) (distance : Int) :
    Checked Unit :=
  if condition then branchChecked p i distance else return

/-- The id of a new object is counted up in 32 bits. -/
def allocateChecked (classIndex : UInt16) : Checked Value := do
  let m ← liftM (get : Execution Machine)
  guard ((UInt32.ofNat m.heap.size).toNat + 1 < 2 ^ 32)
  liftM (allocate classIndex)

theorem branchChecked_agrees {p : Program} {i : Instruction} {distance : Int} {m : Machine}
    (hoffset : i.offset < 2 ^ 32) (hdistance : -2 ^ 31 ≤ distance ∧ distance < 2 ^ 31) :
    Agrees (branchChecked p i distance) (branch p i distance) m := by
  have hfits : -2 ^ 63 ≤ (i.offset : Int) + distance ∧ (i.offset : Int) + distance < 2 ^ 63 := by
    omega
  unfold branchChecked branch
  simp only [hfits, and_self, guard_true, pure_bind]
  split
  · rfl
  · refine Agrees.require_bind (p.instructionAtChecked_eq _) ?_
    cases p.instructionAt? ((i.offset : Int) + distance).toNat <;> rfl

theorem branchWhenChecked_agrees {p : Program} {i : Instruction} {condition : Bool}
    {distance : Int} {m : Machine} (hoffset : i.offset < 2 ^ 32)
    (hdistance : -2 ^ 31 ≤ distance ∧ distance < 2 ^ 31) :
    Agrees (branchWhenChecked p i condition distance) (branchWhen p i condition distance) m := by
  cases condition with
  | true => exact branchChecked_agrees hoffset hdistance
  | false => rfl

theorem allocateChecked_agrees {classIndex : UInt16} {m : Machine}
    (hheap : m.heap.size + 1 < 2 ^ 32) :
    Agrees (allocateChecked classIndex) (allocate classIndex) m := by
  have hsize : (UInt32.ofNat m.heap.size).toNat = m.heap.size :=
    UInt32.toNat_ofNat_of_lt (Nat.lt_of_succ_lt hheap)
  have hguard : (guard ((UInt32.ofNat m.heap.size).toNat + 1 < 2 ^ 32) : Checked Unit) =
      Pure.pure () := by
    rw [hsize]
    simp only [hheap, guard_true]
  change ((guard _ : Checked Unit) >>= fun _ => liftM (allocate classIndex)).run m = _
  rw [hguard, pure_bind]
  exact Agrees.lift (allocate classIndex)

/-- Executes one action.  The actions that are left out have no operation that can go out of
range. -/
def performChecked (p : Program) (policy : UnhandledPolicy) (i : Instruction) :
    Action → Checked Flow
  | .compute op => do
      let b ← liftM popInt
      let a ← liftM popInt
      let result ← require (op.applyChecked a b)
      let result ← liftM (ofExcept result : Execution Int32)
      liftM (push p (.int result))
      return .next
  | .branch distance => do
      branchChecked p i distance
      return .next
  | .branchZero comparison distance => do
      let a ← liftM popInt
      branchWhenChecked p i (comparison.holds a 0) distance
      return .next
  | .branchInts comparison distance => do
      let b ← liftM popInt
      let a ← liftM popInt
      branchWhenChecked p i (comparison.holds a b) distance
      return .next
  | .branchSame same distance => do
      let b ← liftM popReference
      let a ← liftM popReference
      branchWhenChecked p i ((a == b) == same) distance
      return .next
  | .branchNull null distance => do
      let a ← liftM popReference
      branchWhenChecked p i ((a == .null) == null) distance
      return .next
  | .allocate classIndex => do
      let value ← allocateChecked classIndex
      liftM (push p value)
      return .next
  | action => liftM (perform p policy i action)

theorem Agrees.next {α : Type} {x : Checked α} {y : Execution α} {m : Machine}
    (h : Agrees x y m) :
    Agrees (x >>= fun _ => return Flow.next) (y >>= fun _ => return Flow.next) m :=
  h.bind fun _ _ => Agrees.pure Flow.next

theorem performChecked_agrees {p : Program} {policy : UnhandledPolicy} {i : Instruction}
    {action : Action} {m : Machine} (haction : i.action? = some action)
    (hoffset : i.offset < 2 ^ 32) (hheap : m.heap.size + 1 < 2 ^ 32) :
    Agrees (performChecked p policy i action) (perform p policy i action) m := by
  have hdistance : ∀ {distance : Int}, action.distance? = some distance →
      -2 ^ 31 ≤ distance ∧ distance < 2 ^ 31 := Instruction.action?_distance_bounds haction
  unfold performChecked
  -- the actions with an operation to check, and at the end all others
  split
  · rename_i op
    refine (Agrees.lift popInt).bind fun b _ => (Agrees.lift popInt).bind fun a _ => ?_
    exact Agrees.require_bind (op.applyChecked_eq a b)
      ((Agrees.lift _).bind fun result _ => (Agrees.lift (push p _)).next)
  · exact (branchChecked_agrees hoffset (hdistance rfl)).next
  · exact (Agrees.lift popInt).bind fun a _ =>
      (branchWhenChecked_agrees hoffset (hdistance rfl)).next
  · exact (Agrees.lift popInt).bind fun b _ => (Agrees.lift popInt).bind fun a _ =>
      (branchWhenChecked_agrees hoffset (hdistance rfl)).next
  · exact (Agrees.lift popReference).bind fun b _ => (Agrees.lift popReference).bind fun a _ =>
      (branchWhenChecked_agrees hoffset (hdistance rfl)).next
  · exact (Agrees.lift popReference).bind fun a _ =>
      (branchWhenChecked_agrees hoffset (hdistance rfl)).next
  · exact (allocateChecked_agrees hheap).bind fun value _ => (Agrees.lift (push p value)).next
  · exact Agrees.lift _

def evaluateChecked (p : Program) (policy : UnhandledPolicy) (i : Instruction) : Checked Flow := do
  let action ← require i.action?
  performChecked p policy i action

/-- Instructions and offsets are counted up in 64 bits. -/
def fetchChecked (p : Program) (config : Config) : Checked Flow := OptionT.mk fun m =>
  if p.codeSize ≤ m.pc then
    .ok (some .halt) m
  else
    match p.instructionAtChecked m.pc with
    | none => .ok none m
    | some none => .error (.invalidBranch m.pc) m
    | some (some i) =>
        match config.exhaustedLimit? m.executed with
        | some limit => .error (.budgetExhausted limit) m
        | none =>
            if m.executed + 1 < 2 ^ 64 ∧ i.nextOffset < 2 ^ 64 then
              (evaluateChecked p config.unhandled i).run
                { m with executed := m.executed + 1, pc := i.nextOffset }
            else
              .ok none m

theorem evaluateChecked_agrees {p : Program} {policy : UnhandledPolicy} {i : Instruction}
    {m : Machine} {pc : Nat} (hi : p.instructionAt? pc = some i) (hcode : p.codeSize < 2 ^ 32)
    (hheap : m.heap.size + 1 < 2 ^ 32) :
    Agrees (evaluateChecked p policy i) (evaluate p policy i) m := by
  have hoperands := Program.operands_length hi
  obtain ⟨action, haction⟩ := Option.isSome_iff_exists.mp (Instruction.action?_isSome hoperands)
  have hoffset : i.offset < 2 ^ 32 := by
    rw [Program.offset_of_instructionAt? hi]
    exact (Program.offset_lt_codeSize hi).trans hcode
  unfold evaluateChecked evaluate
  rw [haction]
  exact Agrees.require_bind rfl (performChecked_agrees haction hoffset hheap)

theorem fetchChecked_agrees {p : Program} {config : Config} {m : Machine} {limit : Nat}
    (hcode : p.codeSize < 2 ^ 32) (hlimit : config.maxInstructions = some limit)
    (hsmall : limit < 2 ^ 32) (hheap : m.heap.size ≤ m.executed) :
    Agrees (fetchChecked p config) (fetch p config) m := by
  change (if p.codeSize ≤ m.pc then _ else _) = completed (if p.codeSize ≤ m.pc then _ else _)
  rw [p.instructionAtChecked_eq]
  split
  · rfl
  · cases hi : p.instructionAt? m.pc with
    | none => rfl
    | some i =>
        simp only [Config.exhaustedLimit?, hlimit]
        by_cases hexhausted : limit ≤ m.executed
        · simp only [Option.filter_some, decide_eq_true hexhausted]
          rfl
        · have hnext := Program.nextOffset_le_codeSize hi
          have hcounters : m.executed + 1 < 2 ^ 64 ∧ i.nextOffset < 2 ^ 64 := by omega
          simp only [Option.filter_some, decide_eq_false hexhausted, if_pos hcounters]
          have hroom : m.heap.size + 1 < 2 ^ 32 := by omega
          exact evaluateChecked_agrees hi hcode hroom

end Execution

namespace Machine

def stepChecked (p : Program) (config : Config) (m : Machine) :
    Option (EStateM.Result Fault Machine Bool) :=
  match m.status with
  | .halted .normal => some (.ok false m)
  | .halted (.faulted fault) => some (.error fault m)
  | .ready | .running =>
      match (Execution.fetchChecked p config).run { m with status := .running } with
      | .ok none _ => none
      | .ok (some flow) m' => some (settle p m.pc (.ok flow m'))
      | .error cause m' => some (settle p m.pc (.error cause m'))

def runForChecked (p : Program) (config : Config) :
    (bound : Nat) → Machine → Option (EStateM.Result Fault Machine Bool)
  | 0, m => some (.ok true m)
  | bound + 1, m =>
      match stepChecked p config m with
      | none => none
      | some (.ok true m') => runForChecked p config bound m'
      | some (.ok false m') => some (.ok false m')
      | some (.error fault m') => some (.error fault m')

section Run

variable {p : Program} {config : Config} {m : Machine} {limit : Nat}
  (hcode : p.codeSize < 2 ^ 32) (hlimit : config.maxInstructions = some limit)
  (hsmall : limit < 2 ^ 32)

include hcode hlimit hsmall

theorem stepChecked_eq (hheap : m.heap.size ≤ m.executed) :
    stepChecked p config m = some (step p config m) := by
  have hfetch : (Execution.fetchChecked p config).run { m with status := .running } =
      Execution.completed (Execution.fetch p config { m with status := .running }) :=
    Execution.fetchChecked_agrees hcode hlimit hsmall hheap
  unfold stepChecked step
  cases m.status with
  | halted halt => cases halt <;> rfl
  | ready | running =>
      simp only [hfetch]
      cases Execution.fetch p config { m with status := .running } <;> rfl

theorem runForChecked_eq (n : Nat) (hheap : m.heap.size ≤ m.executed) :
    runForChecked p config n m = some (runFor p config n m) := by
  induction n generalizing m with
  | zero => rfl
  | succ n ih =>
      have hafter := heap_size_le_executed_after_step p config hheap
      rw [runForChecked, stepChecked_eq hcode hlimit hsmall hheap, runFor_succ]
      unfold after at hafter
      cases hstep : step p config m with
      | error fault m' => rfl
      | ok running m' =>
          rw [hstep] at hafter
          cases running with
          | true => exact ih hafter
          | false => rfl

end Run

end Machine

end ClassMachine
