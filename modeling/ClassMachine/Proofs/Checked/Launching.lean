import ClassMachine.Proofs.Checked.Running
import ClassMachine.Proofs.Machine.Runs

/-!
# Launching with checked operations

From the bytes of a class file to the outcome of its run no checked operation goes out of
range, under a limit on the instructions that fits in 32 bits.  Parsing has no operation
to check: it asks for the length of its input before it reads.
-/

namespace ClassMachine

section Launch

variable {α : Type}

/-- Loads a class file from its bytes and has its program run from the first step. -/
def launchWith (run : Program → Machine → α) (bytes : List UInt8) :
    Except LoadError (ClassFile × α) := do
  let c ← (ClassFile.parse bytes).mapError LoadError.format
  let p ← Program.ofClassFile c
  return (c, run p (.initial p))

def launchWithChecked (run : Program → Machine → Option α) (bytes : List UInt8) :
    Option (Except LoadError (ClassFile × α)) :=
  match ClassFile.parse bytes with
  | .error error => some (.error (.format error))
  | .ok c => do
      match ← Program.ofClassFileChecked c with
      | .error error => return .error error
      | .ok p =>
          let m ← p.initialChecked
          let result ← run p m
          return .ok (c, result)

theorem launchWithChecked_eq {run : Program → Machine → α}
    {runChecked : Program → Machine → Option α}
    (h : ∀ p, p.codeSize < 2 ^ 32 → runChecked p (.initial p) = some (run p (.initial p)))
    (bytes : List UInt8) : launchWithChecked runChecked bytes = some (launchWith run bytes) := by
  unfold launchWithChecked launchWith
  cases ClassFile.parse bytes with
  | error error => rfl
  | ok c =>
      change _ = some ((Program.ofClassFile c).bind fun p => .ok (c, run p (.initial p)))
      simp only [Program.ofClassFileChecked_eq]
      cases hp : Program.ofClassFile c with
      | error error => rfl
      | ok p =>
          have hrun := h p (Program.codeSize_lt hp)
          simp only [Option.bind_eq_bind, Option.bind_some, p.initialChecked_eq, hrun]
          rfl

end Launch

def advanceChecked (p : Program) (config : Config) (m : Machine) : Option (Machine ⊕ Outcome) := do
  let result ← Machine.stepChecked p config m
  let m := Machine.after (fun _ => result) m
  match m.outcome? with
  | some outcome => return .inr outcome
  | none => return .inl m

/-- Steps a machine until it halts, unless an operation goes out of range before that. -/
def runToHaltChecked (p : Program) (config : Config) (m : Machine) : Option Outcome :=
  repeatM (advanceChecked p config) m

def launchChecked (bytes : List UInt8) (config : Config) :
    Option (Except LoadError (ClassFile × Outcome)) :=
  launchWithChecked (fun p m => runToHaltChecked p config m) bytes

section Run

variable {p : Program} {config : Config} {limit : Nat} (hcode : p.codeSize < 2 ^ 32)
  (hlimit : config.maxInstructions = some limit) (hsmall : limit < 2 ^ 32)

include hcode hlimit hsmall

theorem advanceChecked_eq {m : Machine} (hheap : m.heap.size ≤ m.executed) :
    advanceChecked p config m = some (advance p config m) := by
  have hafter : Machine.after (fun _ => Machine.step p config m) m =
      Machine.after (Machine.step p config) m := rfl
  unfold advanceChecked advance
  rw [Machine.stepChecked_eq hcode hlimit hsmall hheap, Option.bind_eq_bind, Option.bind_some,
    hafter]
  cases houtcome : (Machine.after (Machine.step p config) m).outcome? <;>
    simp only [houtcome] <;> rfl

theorem runToHaltChecked_eq {m : Machine} {n : Nat} (hheap : m.heap.size ≤ m.executed)
    (h : (Machine.after (Machine.runFor p config n) m).outcome?.isSome) :
    runToHaltChecked p config m = some (runToHalt p config m) := by
  have hunfold : ∀ m : Machine, m.heap.size ≤ m.executed →
      runToHaltChecked p config m =
        (advance p config m).elim (runToHaltChecked p config) some := by
    intro m hheap
    conv_lhs => rw [runToHaltChecked, repeatM_eq_of_monadTail, repeatM.body,
      advanceChecked_eq hcode hlimit hsmall hheap, Option.bind_eq_bind, Option.bind_some]
    cases advance p config m <;> rfl
  -- the bound on the objects goes along from step to step
  refine halting_induction
    (motive := fun m => m.heap.size ≤ m.executed →
      runToHaltChecked p config m = some (runToHalt p config m)) ?_ ?_ h hheap
  · intro m outcome hadvance hheap
    rw [hunfold m hheap, runToHalt_eq, hadvance]
    rfl
  · intro m m' hadvance ih hheap
    rw [hunfold m hheap, runToHalt_eq, hadvance, Sum.elim_inl, Sum.elim_inl]
    obtain ⟨_, hnext⟩ := advance_eq_inl_iff.mp hadvance
    have hheap' := Machine.heap_size_le_executed_after_step p config hheap
    rw [hnext] at hheap'
    exact ih hheap'

theorem runToHaltChecked_initial :
    runToHaltChecked p config (.initial p) = some (runToHalt p config (.initial p)) :=
  runToHaltChecked_eq hcode hlimit hsmall (Nat.zero_le 0)
    (Machine.outcome?_isSome_of_limit hlimit rfl)

end Run

/-- Under a limit that fits in 32 bits, launching any bytes completes without an operation
that goes out of range, and so does every number of steps of the run. -/
theorem launchChecked_eq {config : Config} {limit : Nat}
    (hlimit : config.maxInstructions = some limit) (hsmall : limit < 2 ^ 32)
    (bytes : List UInt8) :
    launchChecked bytes config = some (launch bytes config) ∧
      ∀ steps, launchWithChecked (fun p => Machine.runForChecked p config steps) bytes =
        some (launchWith (fun p => Machine.runFor p config steps) bytes) := by
  constructor
  · have hrun : ∀ p : Program, p.codeSize < 2 ^ 32 →
        runToHaltChecked p config (.initial p) = some (runToHalt p config (.initial p)) :=
      fun p hcode => runToHaltChecked_initial hcode hlimit hsmall
    exact launchWithChecked_eq hrun bytes
  · intro steps
    exact launchWithChecked_eq
      (fun p hcode => Machine.runForChecked_eq hcode hlimit hsmall steps (Nat.zero_le 0)) bytes

/-- A loop without an end makes an object in every round until the limit halts it. -/
theorem launchChecked_eq_loop :
    let code : List UInt8 := [0xbb, 0x00, 0x01, 0x57, 0xa7, 0xff, 0xfc]
    let payload : List UInt8 := [0, 1, 0, 0, 0, 0, 0, 7] ++ code ++ [0, 0, 0, 0]
    let c : ClassFile :=
      { magic := ClassFile.magicNumber
        minorVersion := 0
        majorVersion := 52
        pool := ⟨#[none, some (.classRef 2), some (.utf8 "main"), some (.utf8 "()V"),
          some (.utf8 "Code")]⟩
        accessFlags := 0x21
        thisClass := 1
        superClass := 0
        interfaces := []
        fields := []
        methods := [⟨9, 2, 3, [⟨4, payload⟩]⟩]
        attributes := [] }
    let config : Config := ⟨.fail, some 10⟩
    let ending := fun p m => (Machine.after (Machine.runFor p config 11) m).outcome?
    (launchWith ending c.toBytes).toOption.bind (fun launched => launched.2) =
        some
          { halt := .faulted ⟨.budgetExhausted 10, 3, none⟩
            stack := #[.reference 4]
            locals := #[]
            objects := #[⟨1, 1⟩, ⟨2, 1⟩, ⟨3, 1⟩, ⟨4, 1⟩]
            returned := none
            instructionsExecuted := 10 } ∧
      launchChecked c.toBytes config = some (launch c.toBytes config) ∧
        ∀ steps, launchWithChecked (fun p => Machine.runForChecked p config steps) c.toBytes =
          some (launchWith (fun p => Machine.runFor p config steps) c.toBytes) := by
  intro code payload c config ending
  exact ⟨by decide +kernel, launchChecked_eq rfl (by decide) c.toBytes⟩

end ClassMachine
