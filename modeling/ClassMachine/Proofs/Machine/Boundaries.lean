import ClassMachine.Proofs.Machine.Effects
import ClassMachine.Proofs.Machine.Reached

/-!
# Machines at the start of instructions

A run is always at an instruction or at the end of the bytecode: what follows an instruction is
another one or the end, and a branch goes to an instruction or fails.  So whatever faults is an
instruction, and a place that is no instruction is only ever named by the branch that would have
gone there.
-/

namespace ClassMachine

namespace Machine

variable {p : Program} {config : Config} {m m' : Machine} {i : Instruction} {action : Action}
variable {n : Nat}

theorem Completes.pc {flow : Flow} (h : Completes p i m action flow m') :
    m'.pc = m.pc ∨ p.Boundary m'.pc := by
  cases h with
  | jump _ _ hboundary => exact .inr hboundary
  | _ => exact .inl rfl

theorem Fails.pc {cause : FaultCause} (h : Fails p i m action cause m') : m'.pc = m.pc := by
  cases h <;> rfl

/-- The machine is at an instruction or at the end of the bytecode. -/
def AtBoundary (p : Program) (m : Machine) : Prop := m.pc = p.codeSize ∨ p.Boundary m.pc

theorem atBoundary_initial (p : Program) : (initial p).AtBoundary p := by
  obtain hempty | hpos := Nat.eq_zero_or_pos p.codeSize
  · exact .inl hempty.symm
  · exact .inr (Program.boundary_zero hpos)

theorem atBoundary_after_step (h : m.AtBoundary p) : (after (step p config) m).AtBoundary p := by
  have hbehind : ∀ i, dispatched? p config m = some i →
      i.nextOffset = p.codeSize ∨ p.Boundary i.nextOffset := by
    intro i hnext
    rcases dispatched?_eq_some_iff.mp hnext with ⟨_, _, hi⟩
    exact (Program.nextOffset_eq_codeSize_or hi).imp_right Option.isSome_iff_exists.mpr
  apply after_step_induction (motive := AtBoundary p)
  · intro status _
    exact h
  · intro i action flow m' status hnext _ hcompletes
    rcases hcompletes.pc with hsequel | hboundary
    · change m'.pc = p.codeSize ∨ p.Boundary m'.pc
      rw [hsequel]
      exact hbehind i hnext
    · exact .inr hboundary
  · intro i action cause m' status hnext _ hfails
    change m'.pc = p.codeSize ∨ p.Boundary m'.pc
    rw [hfails.pc]
    exact hbehind i hnext

theorem atBoundary_reached (p : Program) (config : Config) (n : Nat) :
    (reached p config n).AtBoundary p :=
  reached_induction (atBoundary_initial p) (fun _ => atBoundary_after_step) n

theorem step_error_of_status {fault : Fault}
    (h : (after (step p config) m).status = .halted (.faulted fault)) :
    ∃ m', step p config m = .error fault m' := by
  rcases step_cases p config m with ⟨m', hstep, hstatus⟩ | ⟨m', hstep, hstatus⟩ |
    ⟨fault', m', hstep, hstatus⟩
  · rw [after_of_ok hstep, hstatus] at h
    cases h
  · rw [after_of_ok hstep, hstatus] at h
    cases h
  · rw [after_of_error hstep, hstatus] at h
    cases h
    exact ⟨m', hstep⟩

theorem exists_step_of_reached_faulted {fault : Fault}
    (h : (reached p config n).status = .halted (.faulted fault)) :
    ∃ k < n, (reached p config k).Live ∧ reached p config (k + 1) = reached p config n ∧
      ∃ m', step p config (reached p config k) = .error fault m' := by
  obtain ⟨k, hk, hlive, hlast⟩ := exists_live_of_reached_halted h
  refine ⟨k, hk, hlive, hlast, step_error_of_status ?_⟩
  rw [← reached_succ, hlast]
  exact h

/-- What a step of a machine that has not halted can fault for: the instruction at its place, or
the budget in front of that instruction. -/
theorem step_error_cases {fault : Fault} (hlive : m.Live) (h : m.AtBoundary p)
    (hstep : step p config m = .error fault m') :
    p.Boundary m.pc ∧ fault = ⟨fault.cause, m.pc, p.lineFor? m.pc⟩ ∧
      ((∃ limit, fault.cause = .budgetExhausted limit) ∨
        ∃ i action m'', dispatched? p config m = some i ∧ i.action? = some action ∧
          Fails p i (m.started.moved i.nextOffset m.stack 1) action fault.cause m'') := by
  rw [step_of_live hlive] at hstep
  -- at the end of the bytecode a step halts without a fault
  have hboundary : p.Boundary m.pc := by
    refine h.resolve_left fun hend => ?_
    have hfetch : Execution.fetch p config m.started = .ok .halt m.started := if_pos hend.ge
    rw [hfetch] at hstep
    cases hstep
  rcases fetch_cases p config m.started with
    ⟨_, hfetch⟩ | ⟨hnone, _⟩ | ⟨limit, _, hfetch⟩ | ⟨i, _, hi, _, hlimit, _⟩
  · rw [hfetch] at hstep
    cases hstep
  · exact absurd hnone (Option.ne_none_iff_isSome.mpr hboundary)
  · rw [hfetch] at hstep
    cases hstep
    exact ⟨hboundary, rfl, .inl ⟨limit, rfl⟩⟩
  · have hnext : dispatched? p config m = some i :=
      dispatched?_eq_some_iff.mpr ⟨hlive, hlimit, hi⟩
    rw [← step_of_live hlive] at hstep
    obtain ⟨action, m'', haction, hfault, _, hfails⟩ := fails_of_step_error hnext hstep
    exact ⟨hboundary, hfault, .inr ⟨i, action, m'', hnext, haction, hfails⟩⟩

theorem Fails.branch_of_invalidBranch {target : Int}
    (h : Fails p i m action (.invalidBranch target) m') :
    ∃ rest distance, action.Decides m.stack rest true distance ∧ target = i.offset + distance ∧
      ∀ offset : Nat, target = offset → ¬p.Boundary offset := by
  cases h with
  | drops _ _ hcause => cases hcause
  | branch hdecides hnowhere => exact ⟨_, _, hdecides, rfl, hnowhere⟩

/-- A number that is not the offset of an instruction lies in front of the bytecode, within an
instruction, or behind the last one. -/
theorem nowhere_cases {target : Int} (h : ∀ offset : Nat, target = offset → ¬p.Boundary offset) :
    (∀ j ∈ p.instructions.toList, (j.offset : Int) ≠ target) ∧
      (target < 0 ∨ (∃ j ∈ p.instructions.toList, j.offset < target ∧ target < j.nextOffset) ∨
        p.codeSize ≤ target) := by
  refine ⟨fun j hj hoffset => h j.offset hoffset.symm (Program.boundary_iff.mpr ⟨j, hj, rfl⟩), ?_⟩
  obtain hnegative | hnonneg := lt_or_ge target 0
  · exact .inl hnegative
  · obtain ⟨offset, rfl⟩ := Int.eq_ofNat_of_zero_le hnonneg
    right
    obtain hbefore | hbehind := Nat.lt_or_ge offset p.codeSize
    · obtain ⟨j, hj, hlower, hupper⟩ :=
        (Program.boundary_or_within hbefore).resolve_left (h offset rfl)
      exact .inl ⟨j, hj, Int.ofNat_lt.mpr hlower, Int.ofNat_lt.mpr hupper⟩
    · exact .inr (Int.ofNat_le.mpr hbehind)

/-- A run is always at an instruction or at the end of the bytecode, so fetching never fails.  Every
fault is at an instruction and names its line, and a fault for a target is that of the branch there,
which was taken and would have gone to a place where no instruction starts. -/
theorem boundaries_reached (p : Program) (config : Config) (n : Nat) :
    let m := reached p config n
    (m.pc = p.codeSize ∨ ∃ i ∈ p.instructions.toList, i.offset = m.pc) ∧
      (m.pc < p.codeSize → (p.instructionAt? m.pc).isSome) ∧
      ∀ fault, m.status = .halted (.faulted fault) →
        (∃ i ∈ p.instructions.toList, i.offset = fault.pc) ∧ fault.line = p.lineFor? fault.pc ∧
          ∀ target, fault.cause = .invalidBranch target →
            ∃ k < n, reached p config (k + 1) = m ∧
              ∃ i action rest distance, dispatched? p config (reached p config k) = some i ∧
                i.offset = fault.pc ∧ i.branch? = some distance ∧ i.action? = some action ∧
                action.Decides (reached p config k).stack rest true distance ∧
                target = i.offset + distance ∧
                (∀ j ∈ p.instructions.toList, (j.offset : Int) ≠ target) ∧
                (target < 0 ∨
                  (∃ j ∈ p.instructions.toList, j.offset < target ∧ target < j.nextOffset) ∨
                  p.codeSize ≤ target) := by
  intro m
  have hat : m.AtBoundary p := atBoundary_reached p config n
  refine ⟨hat.imp_right Program.boundary_iff.mp, fun hinside => hat.resolve_left hinside.ne, ?_⟩
  intro fault hfault
  obtain ⟨k, hk, hlive, hlast, m', hstep⟩ := exists_step_of_reached_faulted hfault
  obtain ⟨hboundary, hplace, hcause⟩ :=
    step_error_cases hlive (atBoundary_reached p config k) hstep
  have hpc : fault.pc = (reached p config k).pc := by rw [hplace]
  have hline : fault.line = p.lineFor? fault.pc := by rw [hplace]
  refine ⟨Program.boundary_iff.mp (hpc ▸ hboundary), hline, fun target htarget => ?_⟩
  obtain ⟨limit, hlimit⟩ | ⟨i, action, m'', hnext, haction, hfails⟩ := hcause
  · rw [htarget] at hlimit
    cases hlimit
  · rw [htarget] at hfails
    obtain ⟨rest, distance, hdecides, hdistance, hnowhere⟩ := hfails.branch_of_invalidBranch
    obtain ⟨_, _, hi⟩ := dispatched?_eq_some_iff.mp hnext
    obtain ⟨hother, hwhere⟩ := nowhere_cases hnowhere
    exact ⟨k, hk, hlast, i, action, rest, distance, hnext,
      (Program.offset_of_instructionAt? hi).trans hpc.symm,
      Instruction.branch?_eq_of_action? haction hdecides.distance?_eq_some, haction, hdecides,
      hdistance, hother, hwhere⟩

/-- A branch into its own operands faults where it stands. -/
example :
    let p := Program.ofCode .empty none ⟨0, 0, [0xa7, 0, 2], [], []⟩ #[⟨0, .goto, [0, 2]⟩]
      (by decide +kernel)
    (reached p ⟨.skip, none⟩ 1).status = .halted (.faulted ⟨.invalidBranch 2, 0, none⟩) := by
  decide +kernel

end Machine

end ClassMachine
