import ClassMachine.Proofs.Machine.Reached
import ClassMachine.Proofs.Program.Entry

/-!
# What a run depends on

A run reads of its program the constant pool, the bounds of the frame, the argument types and the
instructions.  The source lines only name the line of a fault.  So class files with one pool whose
entry methods agree in these parts are executed alike, whatever else they hold and whatever their
line tables say: both are refused for the same reason, or their runs halt after as many steps with
outcomes that differ at most in the line of a fault.
-/

namespace ClassMachine

namespace Fault

def withoutLine (fault : Fault) : Fault := { fault with line := none }

end Fault

namespace Halt

def withoutLine : Halt → Halt
  | .normal => .normal
  | .faulted fault => .faulted fault.withoutLine

end Halt

namespace Status

def withoutLine : Status → Status
  | .halted halt => .halted halt.withoutLine
  | .ready => .ready
  | .running => .running

end Status

namespace Outcome

def withoutLine (outcome : Outcome) : Outcome :=
  { outcome with halt := outcome.halt.withoutLine }

end Outcome

namespace Machine

variable {m m' : Machine}

def withoutLine (m : Machine) : Machine := { m with status := m.status.withoutLine }

theorem outcome?_withoutLine (m : Machine) :
    m.withoutLine.outcome? = m.outcome?.map Outcome.withoutLine := by
  cases hstatus : m.status <;>
    simp [outcome?, withoutLine, Status.withoutLine, Outcome.withoutLine, hstatus]

/-- Only machines that have halted can differ in the line of a fault. -/
theorem eq_of_withoutLine_eq (h : m'.withoutLine = m.withoutLine) (hlive : m.Live) : m' = m := by
  have hstatus : m'.status = m.status := by
    have hsame : m'.status.withoutLine = m.status.withoutLine := congrArg status h
    cases hm : m.status with
    | halted halt => exact absurd hm (hlive halt)
    | ready | running =>
        cases hm' : m'.status <;> simp [Status.withoutLine, hm, hm'] at hsame ⊢
  simp only [withoutLine, Machine.mk.injEq] at h
  cases m
  cases m'
  simp_all

theorem halted_of_withoutLine_eq {halt : Halt} (h : m'.withoutLine = m.withoutLine)
    (hhalted : m.status = .halted halt) : ∃ halt', m'.status = .halted halt' := by
  have hsame : m'.status.withoutLine = m.status.withoutLine := congrArg status h
  cases hm' : m'.status with
  | halted halt' => exact ⟨halt', rfl⟩
  | ready | running => simp [Status.withoutLine, hhalted, hm'] at hsame

end Machine

namespace Program

/-- The two programs agree in all that a run reads of them, the source lines apart. -/
structure RunsAs (p p' : Program) : Prop where
  pool_eq : p'.pool = p.pool
  maxStack_eq : p'.code.maxStack = p.code.maxStack
  maxLocals_eq : p'.code.maxLocals = p.code.maxLocals
  argTypes_eq : p'.argTypes = p.argTypes
  instructions_eq : p'.instructions = p.instructions

namespace RunsAs

open Execution Machine

variable {p p' : Program} {config : Config} {policy : UnhandledPolicy} {i : Instruction}
variable {m m' : Machine} (h : p.RunsAs p')

include h

theorem codeSize_eq : p'.codeSize = p.codeSize := by
  rw [codeSize_eq_length, codeSize_eq_length, h.instructions_eq]

theorem instructionAt?_eq (offset : Nat) : p'.instructionAt? offset = p.instructionAt? offset := by
  apply Option.ext
  intro i
  rw [instructionAt?_eq_some_iff, instructionAt?_eq_some_iff, h.instructions_eq]

theorem push_eq (value : Value) : push p' value = push p value := by
  funext m
  simp [push, h.maxStack_eq]

theorem branch_eq (distance : Int) : branch p' i distance = branch p i distance := by
  funext m
  simp [branch, h.instructionAt?_eq]

theorem branchWhen_eq (condition : Bool) (distance : Int) :
    branchWhen p' i condition distance = branchWhen p i condition distance := by
  simp [branchWhen, h.branch_eq]

theorem perform_eq (action : Action) : perform p' policy i action = perform p policy i action := by
  cases action <;> simp [perform, h.push_eq, h.branch_eq, h.branchWhen_eq, h.pool_eq]

theorem fetch_eq : fetch p' config m = fetch p config m := by
  simp only [fetch, evaluate, h.codeSize_eq, h.instructionAt?_eq, h.perform_eq]

theorem initial_eq : initial p' = initial p := by
  simp only [initial, initialLocals, h.maxLocals_eq, h.argTypes_eq]

theorem withoutLine_after_step (hm : m'.withoutLine = m.withoutLine) :
    (after (step p' config) m').withoutLine = (after (step p config) m).withoutLine := by
  rcases m.live_or_halted with hlive | ⟨halt, hhalted⟩
  · have hsame := eq_of_withoutLine_eq hm hlive
    subst hsame
    rw [after, after, step_of_live hlive, step_of_live hlive, h.fetch_eq]
    rcases fetch p config m'.started with ⟨flow, last⟩ | ⟨cause, last⟩
    · cases flow <;> rfl
    · -- the fault is recorded with the lines of one or the other program
      rfl
  · rcases halted_of_withoutLine_eq hm hhalted with ⟨halt', hhalted'⟩
    rw [after_step_of_halted hhalted', after_step_of_halted hhalted]
    exact hm

theorem withoutLine_reached (n : Nat) :
    (reached p' config n).withoutLine = (reached p config n).withoutLine := by
  induction n with
  | zero => simp only [reached, h.initial_eq]
  | succ n ih => exact h.withoutLine_after_step ih

theorem outcome?_reached (n : Nat) :
    (reached p' config n).outcome?.map Outcome.withoutLine =
      (reached p config n).outcome?.map Outcome.withoutLine := by
  rw [← outcome?_withoutLine, h.withoutLine_reached, outcome?_withoutLine]

theorem runToHalt_withoutLine {n : Nat} (hhalts : (reached p config n).outcome?.isSome) :
    (runToHalt p' config (initial p')).withoutLine =
      (runToHalt p config (initial p)).withoutLine := by
  have hsame : (reached p' config n).outcome?.map Outcome.withoutLine =
      (reached p config n).outcome?.map Outcome.withoutLine := h.outcome?_reached n
  have hhalts' : (reached p' config n).outcome?.isSome := by
    simpa using (congrArg Option.isSome hsame).trans (by simpa using hhalts)
  rw [outcome?_of_reached hhalts, outcome?_of_reached hhalts'] at hsame
  simpa using hsame

end RunsAs

end Program

namespace Member

/-- The argument types of a method; none when its descriptor is missing or does not parse. -/
def argTypes (m : Member) (pool : Pool) : List DescriptorType :=
  ((m.methodType? pool).map (·.args)).getD []

end Member

namespace ClassFile

open Machine

variable {c c' : ClassFile} {m m' : Member} {code code' : Code}

/-- Runs the entry method of a class file. -/
def execute (c : ClassFile) (config : Config) : Except LoadError Outcome :=
  (Program.ofClassFile c).map fun p => runToHalt p config (.initial p)

theorem launch_eq_execute (bytes : List UInt8) (config : Config) :
    launch bytes config =
      ((parse bytes).mapError LoadError.format).bind fun c => (c.execute config).map (c, ·) := by
  unfold launch execute
  cases parse bytes with
  | error error => rfl
  | ok c =>
      change (Program.ofClassFile c).bind _ = Except.map _ ((Program.ofClassFile c).map _)
      cases Program.ofClassFile c <;> rfl

/-- A class file with a code in its entry method is refused only when the bytecode does not
decode. -/
theorem execute_eq_error_iff {config : Config} {error : LoadError}
    (hm : c.findMethod? Program.entryName = some m) (hcode : m.code c.pool = .ok code) :
    c.execute config = .error error ↔
      ∃ reason, Bytecode.decode code.bytecode = .error reason ∧ error = .format reason := by
  unfold execute Program.ofClassFile Program.ofMethod
  simp only [hm, hcode]
  split
  · rename_i reason hdecode
    simp [hdecode, Except.map, eq_comm]
  · rename_i instructions hdecode
    simp [hdecode, Except.map]

theorem exists_runsAs (hpool : c'.pool = c.pool)
    (hm : c.findMethod? Program.entryName = some m)
    (hm' : c'.findMethod? Program.entryName = some m')
    (hcode : m.code c.pool = .ok code) (hcode' : m'.code c'.pool = .ok code')
    (hstack : code'.maxStack = code.maxStack) (hlocals : code'.maxLocals = code.maxLocals)
    (hbytecode : code'.bytecode = code.bytecode)
    (hargs : m'.argTypes c'.pool = m.argTypes c.pool) {p : Program}
    (hp : Program.ofClassFile c = .ok p) :
    ∃ p', Program.ofClassFile c' = .ok p' ∧ p.RunsAs p' := by
  rcases Program.ofClassFile_eq_ok_iff.mp hp with ⟨_, _, instructions, hdecode, hfound, hread, rfl⟩
  rw [hm] at hfound
  cases hfound
  rw [hcode] at hread
  cases hread
  have hdecode' : Bytecode.decode code'.bytecode = .ok instructions := by rw [hbytecode, hdecode]
  refine ⟨_, Program.ofClassFile_eq_ok_iff.mpr
    ⟨m', code', instructions, hdecode', hm', hcode', rfl⟩, ?_⟩
  constructor
  · exact hpool
  · exact hstack
  · exact hlocals
  · exact hargs
  · rfl

/-- Class files with one pool, and with entry methods that agree in the bounds of their frames, in
their bytecode and in their argument types, are executed alike: both are refused with the same
error, or their runs halt after as many steps with the same outcome up to the line of a fault. -/
theorem execute_of_same_entry (hpool : c'.pool = c.pool)
    (hm : c.findMethod? Program.entryName = some m)
    (hm' : c'.findMethod? Program.entryName = some m')
    (hcode : m.code c.pool = .ok code) (hcode' : m'.code c'.pool = .ok code')
    (hstack : code'.maxStack = code.maxStack) (hlocals : code'.maxLocals = code.maxLocals)
    (hbytecode : code'.bytecode = code.bytecode)
    (hargs : m'.argTypes c'.pool = m.argTypes c.pool) (config : Config) :
    (∀ error, c'.execute config = .error error ↔ c.execute config = .error error) ∧
      ∀ p, Program.ofClassFile c = .ok p → ∃ p', Program.ofClassFile c' = .ok p' ∧
        ∀ n, (reached p' config n).outcome?.map Outcome.withoutLine =
            (reached p config n).outcome?.map Outcome.withoutLine ∧
          ((reached p config n).outcome?.isSome →
            (c'.execute config).map Outcome.withoutLine =
              (c.execute config).map Outcome.withoutLine) := by
  constructor
  · intro error
    rw [execute_eq_error_iff hm hcode, execute_eq_error_iff hm' hcode', hbytecode]
  · intro p hp
    rcases exists_runsAs hpool hm hm' hcode hcode' hstack hlocals hbytecode hargs hp with
      ⟨p', hp', hruns⟩
    refine ⟨p', hp', fun n => ⟨hruns.outcome?_reached n, ?_⟩⟩
    intro hhalts
    simp [execute, hp, hp', Except.map, hruns.runToHalt_withoutLine hhalts]

/-- One class file knows the line of the fault.  The other has a line table that is cut off, a
descriptor that does not parse, and more of everything else. -/
theorem execute_of_same_entry_truncated :
    let pool : Pool := ⟨#[none, some (.classRef 2), some (.utf8 "main"), some (.utf8 "()I"),
      some (.utf8 "Code"), some (.utf8 "LineNumberTable"), some (.utf8 "nonsense")]⟩
    let code : Code := ⟨1, 1, [0x57], [], [⟨5, [0, 1, 0, 0, 0, 7]⟩]⟩
    let code' : Code := ⟨1, 1, [0x57], [⟨0, 1, 0, 0⟩], [⟨5, [0, 9]⟩]⟩
    let m : Member := ⟨9, 2, 3, [code.toAttribute 4]⟩
    let m' : Member := ⟨1, 2, 6, [⟨5, []⟩, code'.toAttribute 4, ⟨4, [1, 2, 3]⟩]⟩
    let c : ClassFile :=
      { magic := magicNumber
        minorVersion := 0
        majorVersion := 52
        pool
        accessFlags := 0x21
        thisClass := 1
        superClass := 0
        interfaces := []
        fields := []
        methods := [m]
        attributes := [] }
    let c' : ClassFile :=
      { c with
        accessFlags := 0
        thisClass := 6
        superClass := 9
        interfaces := [1, 2]
        fields := [⟨0, 0, 0, []⟩]
        methods := [⟨0, 6, 3, []⟩, m', m]
        attributes := [⟨5, [1]⟩] }
    let p : Program := Program.ofCode pool (some ⟨[], .int⟩) code #[⟨0, .pop, []⟩]
      (by decide +kernel)
    let config : Config := ⟨.fail, none⟩
    c'.findMethod? Program.entryName = some m' ∧ m'.code c'.pool = .ok code' ∧
      m'.argTypes c'.pool = m.argTypes c.pool ∧ Program.ofClassFile c = .ok p ∧
        (reached p config 1).outcome?.map (·.halt) =
          some (.faulted ⟨.stackUnderflow, 0, some 7⟩) ∧
          (c'.execute config).map Outcome.withoutLine =
            (c.execute config).map Outcome.withoutLine := by
  intro pool code code' m m' c c' p config
  have hm : c.findMethod? Program.entryName = some m := by decide +kernel
  have hm' : c'.findMethod? Program.entryName = some m' := by decide +kernel
  have hcode : m.code c.pool = .ok code :=
    Member.code_eq_ok_iff.mpr ⟨code.toAttribute 4, by decide +kernel, by decide +kernel⟩
  have hcode' : m'.code c'.pool = .ok code' :=
    Member.code_eq_ok_iff.mpr ⟨code'.toAttribute 4, by decide +kernel, by decide +kernel⟩
  have hargs : m'.argTypes c'.pool = m.argTypes c.pool := by decide +kernel
  have htype : m.methodType? c.pool = some ⟨[], .int⟩ := by decide +kernel
  have hp : Program.ofClassFile c = .ok p :=
    Program.ofClassFile_eq_ok_iff.mpr ⟨m, code, p.instructions, p.decode_eq, hm, hcode,
      by rw [htype]; rfl⟩
  have hpool : c'.pool = c.pool := rfl
  have hstack : code'.maxStack = code.maxStack := rfl
  have hlocals : code'.maxLocals = code.maxLocals := rfl
  have hbytecode : code'.bytecode = code.bytecode := rfl
  have hhalt : (reached p config 1).outcome?.map (·.halt) =
      some (.faulted ⟨.stackUnderflow, 0, some 7⟩) := by
    decide +kernel
  have hhalts : (reached p config 1).outcome?.isSome := by decide +kernel
  have hsame := execute_of_same_entry hpool hm hm' hcode hcode' hstack hlocals hbytecode hargs config
  rcases hsame.2 p hp with ⟨p', _, hruns⟩
  exact ⟨hm', hcode', hargs, hp, hhalt, (hruns 1).2 hhalts⟩

end ClassFile

end ClassMachine
