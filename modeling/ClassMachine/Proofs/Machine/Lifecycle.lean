import ClassMachine.Proofs.Machine.Failures

/-!
# The life of a machine

A machine is stepped, or run up to its halt, as often as one likes.  What a call answers, the status
that it leaves behind and the value that the machine returned are three records of one outcome, and
they agree: a machine holds a returned value exactly when the last instruction that it dispatched was
a return of such a value, which then lay on top of its stack.  A halted machine answers every further
call as it did when it halted, and stays as it is.
-/

namespace ClassMachine

/-- What one can ask a machine for. -/
inductive Call where
  | step
  /-- Steps up to the halt. -/
  | run
  deriving DecidableEq, Repr

namespace Machine

/-- The call comes out so.  A run that never halts does not come out at all. -/
def Answers (p : Program) (config : Config) (m : Machine) :
    Call → EStateM.Result Fault Machine Bool → Prop
  | .step, result => step p config m = result
  | .run, result => ∃ bound, runFor p config bound m = result ∧ ∀ m', result ≠ .ok true m'

/-- The machine that an answer leaves behind. -/
def behind : EStateM.Result Fault Machine Bool → Machine
  | .ok _ m => m
  | .error _ m => m

/-- The calls, one after the other, lead from one machine to another. -/
inductive Called (p : Program) (config : Config) : Machine → List Call → Machine → Prop where
  | none {m : Machine} : Called p config m [] m
  | answered {m last : Machine} {call : Call} {calls : List Call}
      {result : EStateM.Result Fault Machine Bool} :
      Answers p config m call result → Called p config (behind result) calls last →
        Called p config m (call :: calls) last

/-- The answer of a machine that has halted so. -/
def haltedAnswer (m : Machine) : Halt → EStateM.Result Fault Machine Bool
  | .normal => .ok false m
  | .faulted fault => .error fault m

variable {p : Program} {config : Config} {m m' : Machine} {i : Instruction} {action : Action}
variable {n k : Nat} {call : Call} {calls : List Call} {halt : Halt} {fault : Fault}
variable {result : EStateM.Result Fault Machine Bool}

/-! ## Answers and statuses -/

/-- The answer of a step is the status behind it. -/
theorem step_eq_iff_status (p : Program) (config : Config) (m : Machine) :
    let m' := after (step p config) m
    (step p config m = .ok true m' ↔ m'.status = .running) ∧
      (step p config m = .ok false m' ↔ m'.status = .halted .normal) ∧
        ∀ fault, step p config m = .error fault m' ↔ m'.status = .halted (.faulted fault) := by
  rcases step_cases p config m with ⟨m', hstep, hstatus⟩ | ⟨m', hstep, hstatus⟩ |
    ⟨fault, m', hstep, hstatus⟩ <;> simp [after, hstep, hstatus]

/-- A run that comes out has halted the machine, and answers how. -/
theorem exists_halt_of_runFor (n : Nat) (h : runFor p config n m = result)
    (hends : ∀ m', result ≠ .ok true m') :
    ∃ m' halt, result = haltedAnswer m' halt ∧ m'.status = .halted halt ∧
      after (runFor p config n) m = m' := by
  induction n generalizing m with
  | zero =>
      subst h
      exact absurd rfl (hends m)
  | succ n ih =>
      rw [runFor_succ] at h
      rw [after_runFor_succ]
      rcases step_cases p config m with ⟨m', hstep, _⟩ | ⟨m', hstep, hstatus⟩ |
        ⟨fault, m', hstep, hstatus⟩
      · rw [hstep] at h
        rw [after_of_ok hstep]
        exact ih h
      · rw [hstep] at h
        rw [after_of_ok hstep, after_runFor_of_halted hstatus]
        exact ⟨m', .normal, h.symm, hstatus, rfl⟩
      · rw [hstep] at h
        rw [after_of_error hstep, after_runFor_of_halted hstatus]
        exact ⟨m', .faulted fault, h.symm, hstatus, rfl⟩

theorem step_eq_haltedAnswer (h : m.status = .halted halt) :
    step p config m = haltedAnswer m halt := by
  cases halt <;> simp [step, h, haltedAnswer]

/-- A halted machine has one answer to every call. -/
theorem answers_iff_of_halted (h : m.status = .halted halt) :
    Answers p config m call result ↔ result = haltedAnswer m halt := by
  have hstep : step p config m = haltedAnswer m halt := step_eq_haltedAnswer h
  cases call with
  | step => simp [Answers, hstep, eq_comm]
  | run =>
      constructor
      · rintro ⟨bound, hrun, hends⟩
        rcases exists_halt_of_runFor bound hrun hends with ⟨m', halt', rfl, hstatus, hafter⟩
        rw [after_runFor_of_halted h] at hafter
        subst hafter
        rw [h] at hstatus
        cases hstatus
        rfl
      · rintro rfl
        refine ⟨1, ?_, ?_⟩
        · rw [runFor_succ, hstep]
          cases halt <;> rfl
        · cases halt <;> simp [haltedAnswer]

/-- The machine behind an answer is the one that some steps lead to. -/
theorem exists_after_runFor_of_answers (h : Answers p config m call result) :
    ∃ n, after (runFor p config n) m = behind result := by
  have hrun : ∃ n, runFor p config n m = result := by
    cases call with
    | step => exact ⟨1, runFor_one.trans h⟩
    | run =>
        rcases h with ⟨bound, hrun, _⟩
        exact ⟨bound, hrun⟩
  rcases hrun with ⟨n, rfl⟩
  refine ⟨n, ?_⟩
  cases h' : runFor p config n m <;> simp [after, behind, h']

theorem exists_reached_of_called (h : Called p config (reached p config k) calls m) :
    ∃ n, reached p config n = m := by
  generalize hstart : reached p config k = start at h
  induction h generalizing k with
  | none => exact ⟨k, hstart⟩
  | answered hanswer _ ih =>
      rcases exists_after_runFor_of_answers hanswer with ⟨n, hnext⟩
      rw [← hstart, reached_eq_after_runFor, ← after_runFor_add, ← reached_eq_after_runFor] at hnext
      exact ih hnext

theorem behind_haltedAnswer (m : Machine) (halt : Halt) : behind (haltedAnswer m halt) = m := by
  cases halt <;> rfl

/-- Calls of a halted machine leave it as it is. -/
theorem eq_of_called_of_halted (h : Called p config m calls m') (hhalted : m.status = .halted halt) :
    m' = m := by
  induction h with
  | none => rfl
  | answered hanswer _ ih =>
      rw [(answers_iff_of_halted hhalted).mp hanswer, behind_haltedAnswer] at ih
      exact ih hhalted

/-! ## Returned values -/

theorem returned_of_step_running (h : step p config m = .ok true m') :
    m'.returned = m.returned ∧ ∀ i, dispatched? p config m = some i → i.opcode.returns? = none := by
  cases hnext : dispatched? p config m with
  | none =>
      rcases after_step_of_dispatched?_eq_none hnext with ⟨halt, hafter⟩
      rw [after_of_ok h] at hafter
      simp [hafter]
  | some i =>
      rcases explains_step hnext with ⟨action, result, haction, hstep, hexplains⟩
      rw [hstep] at h
      rcases result with ⟨flow, last⟩ | ⟨cause, last⟩
      · cases flow with
        | next =>
            cases h
            rcases Completes.returned_of_next hexplains with ⟨hreturned, hnone⟩
            refine ⟨hreturned, ?_⟩
            rintro _ ⟨⟩
            rw [Instruction.returns?_eq_of_action? haction, hnone]
        | halt => cases h
      · cases h

theorem returned_of_step_error (h : step p config m = .error fault m') :
    m'.returned = m.returned := by
  cases hnext : dispatched? p config m with
  | none => rw [eq_of_step_error h hnext]
  | some i => exact (kept_of_step_error h hnext).2.1

/-- A step that ends the run normally is at the end of the bytecode, or dispatches a return. -/
theorem ends_of_step (hlive : m.Live) (h : step p config m = .ok false m') :
    (dispatched? p config m = none ∧ p.codeSize ≤ m.pc ∧ m'.pc = m.pc ∧
        m'.returned = m.returned) ∨
      ∃ i, dispatched? p config m = some i ∧
        ((i.opcode.returns? = some none ∧ m'.returned = m.returned) ∨
          ∃ type value, i.opcode.returns? = some (some type) ∧ type.accepts value.type ∧
            m.stack.back? = some value ∧ m'.returned = some value) := by
  cases hnext : dispatched? p config m with
  | none =>
      left
      rw [step_of_live hlive] at h
      rcases fetch_cases p config m.started with
        ⟨hend, hfetch⟩ | ⟨_, hfetch⟩ | ⟨_, _, hfetch⟩ | ⟨i, _, hi, _, hlimit, _⟩
      · rw [hfetch] at h
        cases h
        exact ⟨rfl, hend, rfl, rfl⟩
      · rw [hfetch] at h
        cases h
      · rw [hfetch] at h
        cases h
      · rw [dispatched?_eq_some_iff.mpr ⟨hlive, hlimit, hi⟩] at hnext
        cases hnext
  | some i =>
      right
      refine ⟨i, rfl, ?_⟩
      rcases explains_step hnext with ⟨action, result, haction, hstep, hexplains⟩
      rw [Instruction.returns?_eq_of_action? haction]
      rw [hstep] at h
      rcases result with ⟨flow, last⟩ | ⟨cause, last⟩
      · cases flow with
        | next => cases h
        | halt =>
            have hcompletes : Completes p i (m.started.moved i.nextOffset m.stack 1) action .halt
              last := hexplains
            cases h
            exact hcompletes.returned_of_halt
      · cases h

/-! ## Along a run -/

theorem returned_reached (h : (reached p config n).status ≠ .halted .normal) :
    (reached p config n).returned = none := by
  induction n with
  | zero => rfl
  | succ n ih =>
      rw [reached_succ] at h ⊢
      rcases (reached p config n).live_or_halted with hlive | ⟨halt, hhalted⟩
      · have hnone := ih (hlive .normal)
        rcases step_cases p config (reached p config n) with ⟨m', hstep, _⟩ |
          ⟨m', hstep, hstatus⟩ | ⟨fault, m', hstep, _⟩
        · rw [after_of_ok hstep, (returned_of_step_running hstep).1, hnone]
        · rw [after_of_ok hstep] at h
          exact absurd hstatus h
        · rw [after_of_error hstep, returned_of_step_error hstep, hnone]
      · rw [after_step_of_halted hhalted] at h ⊢
        exact ih h

/-- What a machine that still runs has dispatched is no return. -/
theorem returns?_of_mem_dispatched (hlive : (reached p config n).Live)
    (hi : i ∈ dispatched p config n (initial p)) : i.opcode.returns? = none := by
  induction n with
  | zero => cases hi
  | succ n ih =>
      have hbefore : (reached p config n).Live := by
        intro halt hhalted
        apply hlive halt
        rw [reached_succ, after_step_of_halted hhalted]
        exact hhalted
      rw [dispatched_initial_succ, List.mem_append, Option.mem_toList] at hi
      rcases hi with hearlier | hlast
      · exact ih hbefore hearlier
      · rcases step_cases p config (reached p config n) with ⟨m', hstep, _⟩ |
          ⟨m', hstep, hstatus⟩ | ⟨fault, m', hstep, hstatus⟩
        · exact (returned_of_step_running hstep).2 i hlast
        · rw [reached_succ, after_of_ok hstep] at hlive
          exact absurd hstatus (hlive _)
        · rw [reached_succ, after_of_error hstep] at hlive
          exact absurd hstatus (hlive _)

theorem dispatched_of_reached_halted (hle : k ≤ n)
    (h : (reached p config k).status = .halted halt) :
    dispatched p config n (initial p) = dispatched p config k (initial p) := by
  rcases Nat.exists_eq_add_of_le hle with ⟨more, rfl⟩
  rw [dispatched_add, ← reached_eq_after_runFor, dispatched_of_halted h, List.append_nil]

/-- A run that ended normally came to the end of the bytecode, or its last instruction was a return:
of no value, or of the value that was on top of the stack. -/
theorem ending_cases (h : (reached p config n).status = .halted .normal) :
    ∃ k < n, (reached p config k).Live ∧ reached p config (k + 1) = reached p config n ∧
      ((dispatched p config n (initial p) = dispatched p config k (initial p) ∧
          (reached p config n).pc = p.codeSize ∧ (reached p config n).returned = none) ∨
        ∃ i, dispatched? p config (reached p config k) = some i ∧
          (dispatched p config n (initial p)).getLast? = some i ∧
          ((i.opcode.returns? = some none ∧ (reached p config n).returned = none) ∨
            ∃ type value, i.opcode.returns? = some (some type) ∧ type.accepts value.type ∧
              (reached p config k).stack.back? = some value ∧
              (reached p config n).returned = some value)) := by
  rcases exists_live_of_reached_halted h with ⟨k, hk, hlive, hlast⟩
  have hnone : (reached p config k).returned = none := returned_reached (hlive .normal)
  have hdispatched : dispatched p config n (initial p) =
      dispatched p config k (initial p) ++
        (dispatched? p config (reached p config k)).toList := by
    rw [dispatched_of_reached_halted hk (hlast ▸ h), dispatched_initial_succ]
  have hstep : step p config (reached p config k) = .ok false (reached p config n) := by
    rw [← hlast, reached_succ, (step_eq_iff_status p config _).2.1, ← reached_succ, hlast]
    exact h
  refine ⟨k, hk, hlive, hlast, ?_⟩
  rcases ends_of_step hlive hstep with ⟨hnext, hend, hplace, hkept⟩ | ⟨i, hnext, hreturn⟩
  · left
    rw [hnone] at hkept
    refine ⟨by simp [hdispatched, hnext], ?_, hkept⟩
    -- the place is no instruction, so it is the end of the bytecode
    rcases atBoundary_reached p config n with hcodeSize | hboundary
    · exact hcodeSize
    · rcases Option.isSome_iff_exists.mp hboundary with ⟨j, hj⟩
      have hinside := Program.offset_lt_codeSize hj
      omega
  · right
    rw [hnone] at hreturn
    exact ⟨i, hnext, by simp [hdispatched, hnext], hreturn⟩

theorem returned_isSome_iff :
    (reached p config n).returned.isSome ↔
      (reached p config n).status = .halted .normal ∧
        ∃ i type, (dispatched p config n (initial p)).getLast? = some i ∧
          i.opcode.returns? = some (some type) := by
  constructor
  · intro h
    have hnormal : (reached p config n).status = .halted .normal := by
      by_contra hother
      simp [returned_reached hother] at h
    refine ⟨hnormal, ?_⟩
    rcases ending_cases hnormal with ⟨k, _, _, _, ⟨_, _, hnone⟩ |
      ⟨i, _, hi, ⟨_, hnone⟩ | ⟨type, _, hreturns, _⟩⟩⟩
    · simp [hnone] at h
    · simp [hnone] at h
    · exact ⟨i, type, hi, hreturns⟩
  · rintro ⟨hnormal, i, type, hi, hreturns⟩
    rcases ending_cases hnormal with ⟨k, _, hlive, _, ⟨hsame, _⟩ |
      ⟨last, _, hlast, ⟨hvoid, _⟩ | ⟨_, value, _, _, _, hreturned⟩⟩⟩
    · -- the machine went on after the instruction, so it was no return
      rw [hsame] at hi
      rw [returns?_of_mem_dispatched hlive (List.mem_of_getLast? hi)] at hreturns
      cases hreturns
    · rw [hi] at hlast
      cases hlast
      rw [hreturns] at hvoid
      cases hvoid
    · simp [hreturned]

theorem answers_run (h : Answers p config m .run result) :
    ∃ m' halt, result = haltedAnswer m' halt ∧ m'.status = .halted halt ∧
      m'.outcome? = some (runToHalt p config m) := by
  rcases h with ⟨bound, hrun, hends⟩
  rcases exists_halt_of_runFor bound hrun hends with ⟨m', halt, hresult, hstatus, hafter⟩
  refine ⟨m', halt, hresult, hstatus, ?_⟩
  rw [← hafter]
  apply outcome?_after_runFor
  rw [hafter, outcome?_isSome_iff]
  exact ⟨halt, hstatus⟩

/-- Whatever calls a machine has answered, the answer of the next step is the status behind it, and
a step after which the machine runs on counts one instruction.  A run that comes out has halted the
machine and answers how.  A halted machine answers every later call with its halt, and keeps all that
it holds.  The machine holds a returned value exactly when it halted normally and the last
instruction that it dispatched was a return of a value; that value was on top of the stack and is of
the type that the return asks for.  Halted normally without a value, it came from a return without
one or to the end of the bytecode. -/
theorem called_consistent (h : Called p config (initial p) calls m) :
    let next := after (step p config) m
    ((step p config m = .ok true next ↔ next.status = .running) ∧
        (step p config m = .ok false next ↔ next.status = .halted .normal) ∧
        (∀ fault, step p config m = .error fault next ↔ next.status = .halted (.faulted fault)) ∧
        (step p config m = .ok true next → next.executed = m.executed + 1)) ∧
      (∀ result, Answers p config m .run result → ∃ m' halt, result = haltedAnswer m' halt ∧
        m'.status = .halted halt ∧ m'.outcome? = some (runToHalt p config m)) ∧
      (∀ halt, m.status = .halted halt → ∀ later m', Called p config m later m' →
        m' = m ∧ ∀ call result, Answers p config m' call result ↔ result = haltedAnswer m halt) ∧
      ∃ n, reached p config n = m ∧
        (m.returned.isSome ↔ m.status = .halted .normal ∧
          ∃ i type, (dispatched p config n (initial p)).getLast? = some i ∧
            i.opcode.returns? = some (some type)) ∧
        (∀ value, m.returned = some value → ∃ k < n, ∃ i type, reached p config (k + 1) = m ∧
          dispatched? p config (reached p config k) = some i ∧
          (dispatched p config n (initial p)).getLast? = some i ∧
          i.opcode.returns? = some (some type) ∧ type.accepts value.type ∧
          (reached p config k).stack.back? = some value) ∧
        (m.status = .halted .normal → m.returned = none →
          (∃ k < n, ∃ i, reached p config (k + 1) = m ∧
            dispatched? p config (reached p config k) = some i ∧
            (dispatched p config n (initial p)).getLast? = some i ∧ i.opcode = .returnVoid) ∨
          m.pc = p.codeSize) := by
  rcases step_eq_iff_status p config m with ⟨hrunning, hnormal, hfaulted⟩
  refine ⟨⟨hrunning, hnormal, hfaulted, fun h => (executed_of_step_running h).1⟩,
    fun result => answers_run, ?_, ?_⟩
  · intro halt hhalted later m' hlater
    have hsame := eq_of_called_of_halted hlater hhalted
    subst hsame
    exact ⟨rfl, fun call result => answers_iff_of_halted hhalted⟩
  · rcases exists_reached_of_called (k := 0) h with ⟨n, rfl⟩
    refine ⟨n, rfl, returned_isSome_iff, ?_, ?_⟩
    · intro value hvalue
      rcases returned_isSome_iff.mp (Option.isSome_of_eq_some hvalue) with ⟨hnormal, _⟩
      rcases ending_cases hnormal with ⟨k, hk, _, hlast, ⟨_, _, hnone⟩ |
        ⟨i, hnext, hi, ⟨_, hnone⟩ | ⟨type, other, hreturns, haccepts, htop, hreturned⟩⟩⟩
      · simp [hnone] at hvalue
      · simp [hnone] at hvalue
      · rw [hreturned, Option.some.injEq] at hvalue
        subst hvalue
        exact ⟨k, hk, i, type, hlast, hnext, hi, hreturns, haccepts, htop⟩
    · intro hnormal hnone
      rcases ending_cases hnormal with ⟨k, hk, _, hlast, ⟨_, hend, _⟩ |
        ⟨i, hnext, hi, ⟨hvoid, _⟩ | ⟨_, _, _, _, _, hreturned⟩⟩⟩
      · exact .inr hend
      · exact .inl ⟨k, hk, i, hlast, hnext, hi, Opcode.eq_returnVoid_of_returns? hvoid⟩
      · simp [hreturned] at hnone

/-- A step, the run behind it and one more step of a method that returns 1. -/
theorem called_consistent_ireturn :
    let p := Program.ofCode .empty none ⟨1, 0, [0x04, 0xac], [], []⟩
      #[⟨0, .iconst1, []⟩, ⟨1, .ireturn, []⟩] (by decide +kernel)
    let m := reached p ⟨.fail, none⟩ 2
    Called p ⟨.fail, none⟩ (initial p) [.step, .run, .step] m ∧ m.returned = some (.int 1) ∧
      step p ⟨.fail, none⟩ m = .ok false m ∧
      (∀ call result, Answers p ⟨.fail, none⟩ m call result ↔ result = .ok false m) ∧
      ∃ n, reached p ⟨.fail, none⟩ n = m ∧ ∃ k < n, ∃ i type,
        (dispatched p ⟨.fail, none⟩ n (initial p)).getLast? = some i ∧
          i.opcode.returns? = some (some type) ∧
          (reached p ⟨.fail, none⟩ k).stack.back? = some (.int 1) := by
  intro p m
  have hhalted : m.status = .halted .normal := by decide +kernel
  have hreturned : m.returned = some (.int 1) := by decide +kernel
  have hfirst : Answers p ⟨.fail, none⟩ (initial p) .step (.ok true (reached p ⟨.fail, none⟩ 1)) :=
    (step_eq_iff_status p _ _).1.mpr (by decide +kernel)
  have hrun : Answers p ⟨.fail, none⟩ (reached p ⟨.fail, none⟩ 1) .run (.ok false m) := by
    refine ⟨1, ?_, by simp⟩
    rw [runFor_one]
    exact (step_eq_iff_status p _ _).2.1.mpr hhalted
  have hlast : Answers p ⟨.fail, none⟩ m .step (.ok false m) :=
    (answers_iff_of_halted hhalted).mpr rfl
  have hcalled : Called p ⟨.fail, none⟩ (initial p) [.step, .run, .step] m :=
    .answered hfirst (.answered hrun (.answered hlast .none))
  rcases called_consistent hcalled with ⟨_, _, hstays, n, hn, _, hvalue, _⟩
  rcases hvalue _ hreturned with ⟨k, hk, i, type, _, _, hi, hreturns, _, htop⟩
  exact ⟨hcalled, hreturned, hlast, (hstays _ hhalted [] m .none).2, n, hn, k, hk, i, type, hi,
    hreturns, htop⟩

end Machine

end ClassMachine
