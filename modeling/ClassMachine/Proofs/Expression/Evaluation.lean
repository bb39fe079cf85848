import ClassMachine.Proofs.Expression.Code
import ClassMachine.Proofs.Machine.Steps

/-!
# Running translated expressions

Wherever the translation of an expression stands in a program, a machine with an
unlimited budget that arrives at its start runs to its end and has the value of the
expression on top of its stack, or faults at the division by zero that keeps the
expression from having a value.  Nothing else of the machine changes.

The proof follows the translation.  Each part of it is run where it stands, from the
machine that the parts before it have left.
-/

namespace ClassMachine

open Bytecode

namespace Machine

variable {p : Program} {config : Config} {m : Machine}

/-- Within the given range a division by zero halts the machine after some steps.  What was on
the stack before is still there, below what the interrupted operations had pushed. -/
def DividesByZero (p : Program) (config : Config) (m : Machine) (start stop steps : Nat) : Prop :=
  ∃ (i : Instruction) (pending : Array Value),
    p.instructionAt? i.offset = some i ∧ (i.opcode = .idiv ∨ i.opcode = .irem) ∧
      start ≤ i.offset ∧ i.offset < stop ∧
        let fault := Fault.mk .divisionByZero i.offset (p.lineFor? i.offset)
        runFor p config steps m =
          .error fault
            { m.moved i.nextOffset (m.stack ++ pending) steps with
              status := .halted (.faulted fault) }

theorem DividesByZero.after {pc start stop n k : Nat} {pushed : Array Value}
    (hrun : runFor p config n m = .ok true (m.moved pc (m.stack ++ pushed) n))
    (h : DividesByZero p config (m.moved pc (m.stack ++ pushed) n) start stop k) :
    DividesByZero p config m start stop (n + k) := by
  obtain ⟨i, pending, hi, hopcode, hfrom, hto, hfault⟩ := h
  refine ⟨i, pushed ++ pending, hi, hopcode, hfrom, hto, ?_⟩
  rw [moved_moved, moved_stack, Array.append_assoc] at hfault
  exact (runFor_add_of_running hrun).trans hfault

theorem DividesByZero.widen {start start' stop stop' n : Nat}
    (h : DividesByZero p config m start stop n) (hstart : start' ≤ start) (hstop : stop ≤ stop') :
    DividesByZero p config m start' stop' n := by
  obtain ⟨i, pending, hi, hopcode, hfrom, hto, hfault⟩ := h
  exact ⟨i, pending, hi, hopcode, hstart.trans hfrom, Nat.lt_of_lt_of_le hto hstop, hfault⟩

/-- What running the code of an expression comes to, given its value. -/
def Computes (p : Program) (config : Config) (m : Machine) (stop : Nat) : Option Int32 → Prop
  | some value => ∃ n, runFor p config n m = .ok true (m.moved stop (m.stack.push (.int value)) n)
  | none => ∃ n, DividesByZero p config m m.pc stop n

namespace Computes

variable {value? left? right? : Option Int32} {middle stop : Nat}

theorem of_step {value : Int32}
    (h : step p config m = .ok true (m.moved stop (m.stack.push (.int value)) 1)) :
    Computes p config m stop (some value) :=
  ⟨1, runFor_one.trans h⟩

theorem map {f : Int32 → Int32} (h : Computes p config m middle value?) (hle : middle ≤ stop)
    (hstep : ∀ a n, step p config (m.moved middle (m.stack.push (.int a)) n) =
      .ok true (m.moved stop (m.stack.push (.int (f a))) (n + 1))) :
    Computes p config m stop (value?.map f) := by
  cases value? with
  | some a =>
      obtain ⟨n, hn⟩ := h
      exact ⟨n + 1, (runFor_add_one_of_running hn).trans (hstep a n)⟩
  | none =>
      obtain ⟨n, hn⟩ := h
      exact ⟨n, hn.widen le_rfl hle⟩

theorem after {pc n : Nat} (hrun : runFor p config n m = .ok true (m.moved pc m.stack n))
    (h : Computes p config (m.moved pc m.stack n) stop value?) (hle : m.pc ≤ pc) :
    Computes p config m stop value? := by
  cases value? with
  | some a =>
      obtain ⟨k, hk⟩ := h
      rw [moved_moved] at hk
      exact ⟨n + k, (runFor_add_of_running hrun).trans hk⟩
  | none =>
      obtain ⟨k, hk⟩ := h
      have hempty : m.stack = m.stack ++ #[] := Array.append_empty.symm
      rw [hempty] at hrun hk
      exact ⟨n + k, (DividesByZero.after hrun hk).widen hle le_rfl⟩

theorem both (hleft : Computes p config m middle left?)
    (hright : ∀ a n, Computes p config (m.moved middle (m.stack.push (.int a)) n) stop right?)
    (hstart : m.pc ≤ middle) (hle : middle ≤ stop) :
    (∃ a b n, left? = some a ∧ right? = some b ∧ runFor p config n m =
      .ok true (m.moved stop ((m.stack.push (.int a)).push (.int b)) n)) ∨
    ((left? = none ∨ right? = none) ∧ ∃ n, DividesByZero p config m m.pc stop n) := by
  cases left? with
  | none =>
      obtain ⟨n, hn⟩ := hleft
      exact .inr ⟨.inl rfl, n, hn.widen le_rfl hle⟩
  | some a =>
      obtain ⟨n, hn⟩ := hleft
      cases right? with
      | none =>
          obtain ⟨k, hk⟩ := hright a n
          rw [Array.push_eq_append] at hn hk
          exact .inr ⟨.inr rfl, n + k, (DividesByZero.after hn hk).widen hstart le_rfl⟩
      | some b =>
          obtain ⟨k, hk⟩ := hright a n
          rw [moved_moved, moved_stack] at hk
          exact .inl ⟨a, b, n + k, rfl, rfl, (runFor_add_of_running hn).trans hk⟩

end Computes

end Machine

open Machine

namespace Expression

theorem bind_bind_eq_none {left? right? : Option Int32} {f : Int32 → Int32 → Option Int32}
    (h : left? = none ∨ right? = none) :
    (left?.bind fun a => right?.bind fun b => f a b) = none := by
  cases h with
  | inl h => rw [h, Option.bind_none]
  | inr h => simp only [h, Option.bind_none, Option.bind_fun_none]

section Parts

variable {p : Program} {config : Config} {m : Machine} (hrunning : m.status = .running)
  (hunlimited : config.maxInstructions = none)

include hrunning hunlimited

theorem computes_constant {value : Int32} {code : List UInt8}
    (h : ConstantCode p.pool value code) (hroom : m.stack.size < p.code.maxStack.toNat)
    (hplaced : p.Placed m.pc code) : Computes p config m (m.pc + code.length) (some value) := by
  obtain ⟨opcode, operands, rfl, hoperands, haction⟩ := h.exists_action m.pc
  have hi := hplaced.instructionAt? hoperands
  have hnext : m.pc + (opcode.byte :: operands).length =
      Instruction.nextOffset ⟨m.pc, opcode, operands⟩ := by
    simp only [Instruction.nextOffset, List.length_cons]
    omega
  have hlimit := Config.exhaustedLimit?_of_none hunlimited m.executed
  rw [hnext]
  apply Computes.of_step
  cases haction with
  | inl hpush =>
      exact step_of_perform hrunning hi hpush hlimit (Execution.perform_push hroom)
  | inr hload =>
      obtain ⟨index, hload, hvalue⟩ := hload
      exact step_of_perform hrunning hi hload hlimit
        (Execution.perform_loadConstant hvalue hroom)

theorem computes_readLocal {index : UInt8} {value : Int32}
    (hset : m.locals[index.toNat]? = some (some (.int value)))
    (hroom : m.stack.size < p.code.maxStack.toNat)
    (hplaced : p.Placed m.pc [Opcode.iload.byte, index]) :
    Computes p config m (m.pc + 2) (some value) := by
  have hi := hplaced.instructionAt? rfl
  have haction : Instruction.action? ⟨m.pc, .iload, [index]⟩ = some (.load .int index.toNat) := by
    simp only [Instruction.action?, Instruction.local?, Instruction.u8?_singleton, Option.map_some]
  have hlimit := Config.exhaustedLimit?_of_none hunlimited m.executed
  exact Computes.of_step (step_of_perform hrunning hi haction hlimit
    (Execution.perform_load hset rfl hroom))

theorem computes_negate {value? : Option Int32} {middle : Nat}
    (h : Computes p config m middle value?) (hroom : m.stack.size < p.code.maxStack.toNat)
    (hplaced : p.Placed middle [Opcode.ineg.byte]) :
    Computes p config m (middle + 1) (value?.map fun a => Int32.ofInt (-a.toInt)) := by
  have hi := hplaced.instructionAt? rfl
  refine h.map (Nat.le_succ middle) fun a n => ?_
  have hlimit := Config.exhaustedLimit?_of_none hunlimited (m.executed + n)
  rw [Int32.ofInt_neg, Int32.ofInt_toInt, ← moved_moved middle _ (m.stack.push (.int a))]
  exact step_of_perform hrunning hi rfl hlimit (Execution.perform_negate rfl hroom)

theorem computes_binary {op : IntOp} {left? right? : Option Int32} {middle stop : Nat}
    (hleft : Computes p config m middle left?)
    (hright : ∀ a n, Computes p config (m.moved middle (m.stack.push (.int a)) n) stop right?)
    (hstart : m.pc ≤ middle) (hle : middle ≤ stop) (hroom : m.stack.size < p.code.maxStack.toNat)
    (hplaced : p.Placed stop [op.opcode.byte]) :
    Computes p config m (stop + 1)
      (left?.bind fun a => right?.bind fun b => op.result? a.toInt b.toInt) := by
  have hi := hplaced.instructionAt? op.operandCount_opcode.symm
  obtain ⟨a, b, n, rfl, rfl, hn⟩ | ⟨hnone, hfault⟩ := Computes.both hleft hright hstart hle
  · have haction := op.action?_opcode stop
    have hlimit := Config.exhaustedLimit?_of_none hunlimited (m.executed + n)
    have hlast := runFor_add_one_of_running hn
    cases hresult : op.result? a.toInt b.toInt with
    | some result =>
        have happly : op.apply a b = .ok result := by rw [op.apply_eq, hresult]
        rw [Option.bind_some, Option.bind_some, hresult]
        refine ⟨n + 1, hlast.trans ?_⟩
        rw [← moved_moved stop _ ((m.stack.push (.int a)).push (.int b))]
        exact step_of_perform hrunning hi haction hlimit
          (Execution.perform_compute rfl happly hroom)
    | none =>
        have happly : op.apply a b = .error .divisionByZero := by rw [op.apply_eq, hresult]
        rw [Option.bind_some, Option.bind_some, hresult]
        refine ⟨n + 1, ⟨stop, op.opcode, []⟩, #[], hi, op.opcode_of_result?_eq_none hresult,
          hstart.trans hle, Nat.lt_succ_self stop, hlast.trans ?_⟩
        rw [← moved_moved stop _ ((m.stack.push (.int a)).push (.int b)), Array.append_empty]
        exact step_of_perform_error hrunning hi haction hlimit
          (Execution.perform_compute_of_error rfl happly)
  · rw [bind_bind_eq_none hnone]
    obtain ⟨n, hn⟩ := hfault
    exact ⟨n, hn.widen le_rfl (Nat.le_succ stop)⟩

theorem computes_goto {value? : Option Int32} {middle n : Nat}
    (h : Computes p config m middle value?) (hshort : n < 2 ^ 15)
    (hplaced : p.Placed middle (Opcode.goto.withWord n)) (htarget : p.Boundary (middle + n)) :
    Computes p config m (middle + n) value? := by
  have hi := hplaced.instructionAt? (BigEndian.toBytes_length 2 n)
  have hmap := h.map (f := id) (Nat.le_add_right middle n) fun a k => by
    have hlimit := Config.exhaustedLimit?_of_none hunlimited (m.executed + k)
    rw [← moved_moved middle _ (m.stack.push (.int a))]
    exact step_of_perform hrunning hi (action?_goto middle hshort) hlimit
      (Execution.perform_branch (Int.natCast_add middle n).symm htarget)
  rwa [Option.map_id] at hmap

theorem computes_conditional {comparison : Comparison} {left? right? true? false? : Option Int32}
    {middle branchAt trueLength falseLength : Nat}
    (hleft : Computes p config m middle left?)
    (hright : ∀ a n, Computes p config (m.moved middle (m.stack.push (.int a)) n) branchAt right?)
    (hfalse : ∀ n, Computes p config (m.moved (branchAt + 3) m.stack n)
      (branchAt + (falseLength + 6) + trueLength) false?)
    (htrue : ∀ n, Computes p config (m.moved (branchAt + (falseLength + 6)) m.stack n)
      (branchAt + (falseLength + 6) + trueLength) true?)
    (hstart : m.pc ≤ middle) (hle : middle ≤ branchAt) (hshort : falseLength + 6 < 2 ^ 15)
    (hplaced : p.Placed branchAt (comparison.opcode.withWord (falseLength + 6)))
    (htarget : p.Boundary (branchAt + (falseLength + 6))) :
    Computes p config m (branchAt + (falseLength + 6) + trueLength)
      (left?.bind fun a => right?.bind fun b =>
        if comparison.Rel a.toInt b.toInt then true? else false?) := by
  have hi := hplaced.instructionAt?
    (by rw [BigEndian.toBytes_length, comparison.operandCount_opcode])
  obtain ⟨a, b, n, rfl, rfl, hn⟩ | ⟨hnone, hfault⟩ := Computes.both hleft hright hstart hle
  · have hbranch : step p config (m.moved branchAt ((m.stack.push (.int a)).push (.int b)) n) =
        .ok true (m.moved (if comparison.holds a b then branchAt + (falseLength + 6)
          else branchAt + 3) m.stack (n + 1)) := by
      have hlimit := Config.exhaustedLimit?_of_none hunlimited (m.executed + n)
      rw [← moved_moved branchAt _ ((m.stack.push (.int a)).push (.int b))]
      exact step_of_perform hrunning hi (comparison.action?_opcode branchAt hshort) hlimit
        (Execution.perform_branchInts rfl (Int.natCast_add branchAt _).symm htarget)
    have hrun := (runFor_add_one_of_running hn).trans hbranch
    rw [Option.bind_some, Option.bind_some]
    by_cases hrel : comparison.Rel a.toInt b.toInt
    · rw [if_pos ((comparison.holds_iff a b).mpr hrel)] at hrun
      rw [if_pos hrel]
      exact Computes.after hrun (htrue (n + 1)) (by omega)
    · have hnot : ¬comparison.holds a b = true := fun h => hrel ((comparison.holds_iff a b).mp h)
      rw [if_neg hnot] at hrun
      rw [if_neg hrel]
      exact Computes.after hrun (hfalse (n + 1)) (by omega)
  · rw [bind_bind_eq_none hnone]
    obtain ⟨n, hn⟩ := hfault
    exact ⟨n, hn.widen le_rfl (by omega)⟩

end Parts

/-- The machine is about to run the code of an expression, and has what that needs. -/
structure Ready (p : Program) (config : Config) (locals : UInt8 → Int32) (m : Machine)
    (e : Expression) (code : List UInt8) : Prop where
  running : m.status = .running
  unlimited : config.maxInstructions = none
  holds : ∀ index, e.Reads index → m.locals[index.toNat]? = some (some (.int (locals index)))
  room : m.stack.size + e.need ≤ p.code.maxStack.toNat
  short : code.length < 2 ^ 15
  placed : p.Placed m.pc code
  more : m.pc + code.length < p.codeSize

variable {p : Program} {config : Config} {locals : UInt8 → Int32}

theorem Ready.operands {m : Machine} {left right : Expression}
    {leftCode rightCode rest : List UInt8}
    (hrunning : m.status = .running) (hunlimited : config.maxInstructions = none)
    (hholds : ∀ index, left.Reads index ∨ right.Reads index →
      m.locals[index.toNat]? = some (some (.int (locals index))))
    (hroom : m.stack.size + max left.need (1 + right.need) ≤ p.code.maxStack.toNat)
    (hshort : leftCode.length + rightCode.length < 2 ^ 15)
    (hplaced : p.Placed m.pc (leftCode ++ (rightCode ++ rest)))
    (hleft : Whole leftCode) (hright : Whole rightCode)
    (hmore : m.pc + leftCode.length + rightCode.length < p.codeSize) :
    Ready p config locals m left leftCode ∧
      (∀ a n, Ready p config locals (m.moved (m.pc + leftCode.length) (m.stack.push (.int a)) n)
        right rightCode) ∧
      p.Placed (m.pc + leftCode.length + rightCode.length) rest := by
  obtain ⟨hleftPlaced, hbehind⟩ := hplaced.split hleft (by omega)
  obtain ⟨hrightPlaced, hrest⟩ := hbehind.split hright hmore
  refine ⟨?_, fun a n => ?_, hrest⟩
  · exact {
      running := hrunning
      unlimited := hunlimited
      holds := fun index h => hholds index (.inl h)
      room := by omega
      short := by omega
      placed := hleftPlaced
      more := by omega }
  · exact {
      running := hrunning
      unlimited := hunlimited
      holds := fun index h => hholds index (.inr h)
      room := by
        rw [moved_stack, Array.size_push]
        omega
      short := by omega
      placed := hrightPlaced
      more := hmore }

theorem placed_arms {comparison : Comparison} {trueCode falseCode : List UInt8} {branchAt : Nat}
    (htrue : Whole trueCode) (hfalse : Whole falseCode)
    (hplaced : p.Placed branchAt (comparison.opcode.withWord (falseCode.length + 6) ++
      (falseCode ++ (Opcode.goto.withWord (trueCode.length + 3) ++ trueCode))))
    (hmore : branchAt + (falseCode.length + 6) + trueCode.length < p.codeSize) :
    p.Placed branchAt (comparison.opcode.withWord (falseCode.length + 6)) ∧
      p.Placed (branchAt + 3) falseCode ∧
      p.Placed (branchAt + 3 + falseCode.length) (Opcode.goto.withWord (trueCode.length + 3)) ∧
      p.Placed (branchAt + (falseCode.length + 6)) trueCode ∧
      p.Boundary (branchAt + (falseCode.length + 6) + trueCode.length) := by
  have hbranchWhole : Whole (comparison.opcode.withWord (falseCode.length + 6)) :=
    Opcode.whole_withWord comparison.operandCount_opcode _
  have hgotoWhole : Whole (Opcode.goto.withWord (trueCode.length + 3)) :=
    Opcode.whole_withWord rfl _
  obtain ⟨hbranchPlaced, hrest⟩ := hplaced.split hbranchWhole
    (by rw [Opcode.withWord_length]; omega)
  rw [Opcode.withWord_length] at hrest
  obtain ⟨hfalsePlaced, hrest⟩ := hrest.split hfalse (by omega)
  obtain ⟨hgotoPlaced, htruePlaced⟩ := hrest.split hgotoWhole
    (by rw [Opcode.withWord_length]; omega)
  have htrueAt : branchAt + 3 + falseCode.length + 3 = branchAt + (falseCode.length + 6) := by
    omega
  rw [Opcode.withWord_length, htrueAt] at htruePlaced
  have hend := htruePlaced.stands.boundary_end htrue htruePlaced.boundary (by omega)
  exact ⟨hbranchPlaced, hfalsePlaced, hgotoPlaced, htruePlaced, hend⟩

/-- The code of an expression computes its value wherever it stands. -/
theorem computes {e : Expression} {code : List UInt8} (h : Translation p.pool e code)
    (m : Machine) (hready : Ready p config locals m e code) :
    Computes p config m (m.pc + code.length) (e.value? locals) := by
  induction h generalizing m with
  | constant hcode =>
      exact computes_constant hready.running hready.unlimited hcode
        (lt_of_add_need_le hready.room) hready.placed
  | readLocal index =>
      exact computes_readLocal hready.running hready.unlimited (hready.holds index rfl)
        (lt_of_add_need_le hready.room) hready.placed
  | @negate operand code hcode ih =>
      obtain ⟨hrunning, hunlimited, hholds, hroom, hshort, hplaced, hmore⟩ := hready
      rw [List.length_append, List.length_singleton] at hshort hmore ⊢
      obtain ⟨hoperand, hlast⟩ := hplaced.split hcode.whole (by omega)
      have hcomputes := ih m ⟨hrunning, hunlimited, hholds, hroom, by omega, hoperand, by omega⟩
      exact computes_negate hrunning hunlimited hcomputes (lt_of_add_need_le hroom) hlast
  | @binary op left right leftCode rightCode hleft hright ihleft ihright =>
      obtain ⟨hrunning, hunlimited, hholds, hroom, hshort, hplaced, hmore⟩ := hready
      simp only [List.length_append, List.length_singleton] at hshort hmore ⊢
      obtain ⟨hreadyLeft, hreadyRight, hlast⟩ := Ready.operands hrunning hunlimited hholds hroom
        (by omega) hplaced hleft.whole hright.whole (by omega)
      have hbinary := computes_binary hrunning hunlimited (ihleft m hreadyLeft)
        (fun a n => ihright _ (hreadyRight a n)) (Nat.le_add_right _ _) (Nat.le_add_right _ _)
        (lt_of_add_need_le hreadyLeft.room) hlast
      rwa [Nat.add_assoc, Nat.add_assoc] at hbinary
  | @conditional comparison left right whenTrue whenFalse leftCode rightCode trueCode falseCode
      hleft hright htrue hfalse ihleft ihright ihtrue ihfalse =>
      obtain ⟨hrunning, hunlimited, hholds, hroom, hshort, hplaced, hmore⟩ := hready
      simp only [List.length_append, Opcode.withWord_length] at hshort hmore ⊢
      simp only [need] at hroom
      obtain ⟨hreadyLeft, hreadyRight, hrest⟩ := Ready.operands hrunning hunlimited
        (fun index h => hholds index (h.elim .inl fun h => .inr (.inl h))) (by omega) (by omega)
        hplaced hleft.whole hright.whole (by omega)
      have hcomputesLeft := ihleft m hreadyLeft
      have hcomputesRight := fun a n => ihright _ (hreadyRight a n)
      simp only [moved_pc] at hcomputesRight
      -- from here on places are counted from the branch
      generalize hbranchAt : m.pc + leftCode.length + rightCode.length = branchAt at *
      obtain ⟨hbranchPlaced, hfalsePlaced, hgotoPlaced, htruePlaced, hend⟩ :=
        placed_arms htrue.whole hfalse.whole hrest (by omega)
      have hcomputesTrue : ∀ n, Computes p config
          (m.moved (branchAt + (falseCode.length + 6)) m.stack n)
          (branchAt + (falseCode.length + 6) + trueCode.length) (whenTrue.value? locals) := by
        intro n
        exact ihtrue (m.moved _ _ n) {
          running := hrunning
          unlimited := hunlimited
          holds := fun index h => hholds index (.inr (.inr (.inl h)))
          room := by
            rw [moved_stack]
            omega
          short := by omega
          placed := htruePlaced
          more := by
            rw [moved_pc]
            omega }
      have hcomputesFalse : ∀ n, Computes p config (m.moved (branchAt + 3) m.stack n)
          (branchAt + (falseCode.length + 6) + trueCode.length) (whenFalse.value? locals) := by
        intro n
        have harm := ihfalse (m.moved (branchAt + 3) m.stack n) {
          running := hrunning
          unlimited := hunlimited
          holds := fun index h => hholds index (.inr (.inr (.inr h)))
          room := by
            rw [moved_stack]
            omega
          short := by omega
          placed := hfalsePlaced
          more := by
            rw [moved_pc]
            omega }
        -- behind the arm for false the other one is jumped over
        have hover : branchAt + 3 + falseCode.length + (trueCode.length + 3) =
            branchAt + (falseCode.length + 6) + trueCode.length := by omega
        rw [← hover] at hend ⊢
        exact computes_goto (m := m.moved (branchAt + 3) m.stack n) hrunning hunlimited harm
          (by omega) hgotoPlaced hend
      have hconditional := computes_conditional hrunning hunlimited hcomputesLeft hcomputesRight
        hcomputesFalse hcomputesTrue (Nat.le_add_right _ _) (by omega) (by omega) hbranchPlaced
        htruePlaced.boundary
      rwa [show branchAt + (falseCode.length + 6) + trueCode.length =
        m.pc + (leftCode.length + (rightCode.length +
          (3 + (falseCode.length + (3 + trueCode.length))))) by omega] at hconditional

theorem runFor_translation {m : Machine} {e : Expression} {before code after : List UInt8}
    (h : Translation p.pool e code)
    (hbytecode : p.code.bytecode = before ++ code ++ after) (hafter : after ≠ [])
    (hboundary : (p.instructionAt? before.length).isSome) (hshort : code.length ≤ 32767)
    (hunlimited : config.maxInstructions = none) (hrunning : m.status = .running)
    (hpc : m.pc = before.length)
    (hlocals : ∀ index, e.Reads index → m.locals[index.toNat]? = some (some (.int (locals index))))
    (hroom : m.stack.size + e.need ≤ p.code.maxStack.toNat) :
    match e.value? locals with
    | some value =>
        ∃ n, runFor p config n m = .ok true
          { m with
            pc := before.length + code.length
            stack := m.stack.push (.int value)
            executed := m.executed + n }
    | none =>
        ∃ n i pending,
          p.instructionAt? i.offset = some i ∧ (i.opcode = .idiv ∨ i.opcode = .irem) ∧
            before.length ≤ i.offset ∧ i.offset < before.length + code.length ∧
              let fault := Fault.mk .divisionByZero i.offset (p.lineFor? i.offset)
              runFor p config n m = .error fault
                { m with
                  pc := i.nextOffset
                  stack := m.stack ++ pending
                  status := .halted (.faulted fault)
                  executed := m.executed + n } := by
  have hplaced : p.Placed m.pc code := by
    rw [hpc]
    exact ⟨Program.stands_of_eq hbytecode, hboundary⟩
  have hmore : m.pc + code.length < p.codeSize := by
    have hpos := List.length_pos_iff.mpr hafter
    rw [p.codeSize_eq, hbytecode, List.length_append, List.length_append, hpc]
    omega
  have hcomputes := computes h m
    ⟨hrunning, hunlimited, hlocals, hroom, by omega, hplaced, hmore⟩
  rw [hpc] at hcomputes
  cases hvalue : e.value? locals with
  | some value =>
      rw [hvalue] at hcomputes
      exact hcomputes
  | none =>
      rw [hvalue] at hcomputes
      obtain ⟨n, i, pending, hi, hopcode, hfrom, hto, hfault⟩ := hcomputes
      exact ⟨n, i, pending, hi, hopcode, hpc ▸ hfrom, hto, hfault⟩

/-- A quotient in the arm for false, with the value of a negative and of a zero variable. -/
theorem runFor_translation_conditional :
    let e : Expression :=
      .conditional .lt (.readLocal 0) (.constant 0) (.negate (.readLocal 0))
        (.binary .div (.constant 1000) (.readLocal 0))
    let code : List UInt8 :=
      [0x15, 0, 0x03, 0xa1, 0, 12, 0x11, 0x03, 0xe8, 0x15, 0, 0x6c, 0xa7, 0, 6, 0x15, 0, 0x74]
    let p : Program :=
      { pool := ⟨#[none]⟩
        methodType := none
        code := ⟨3, 1, 0x00 :: (code ++ [0xb1]), [], []⟩
        lines := []
        instructions :=
          #[⟨0, .nop, []⟩, ⟨1, .iload, [0]⟩, ⟨3, .iconst0, []⟩, ⟨4, .ifIcmplt, [0, 12]⟩,
            ⟨7, .sipush, [0x03, 0xe8]⟩, ⟨10, .iload, [0]⟩, ⟨12, .idiv, []⟩, ⟨13, .goto, [0, 6]⟩,
            ⟨16, .iload, [0]⟩, ⟨18, .ineg, []⟩, ⟨19, .returnVoid, []⟩]
        decode_eq := by decide +kernel }
    let m : Int32 → Machine := fun a =>
      ⟨1, #[.null], #[some (.int a)], .empty, .running, 1, none⟩
    (e.value? (fun _ => -7) = some 7 ∧
      ∃ n, runFor p ⟨.fail, none⟩ n (m (-7)) = .ok true
        { m (-7) with pc := 19, stack := #[.null, .int 7], executed := 1 + n }) ∧
    (e.value? (fun _ => 0) = none ∧
      ∃ n fault m', runFor p ⟨.fail, none⟩ n (m 0) = .error fault m' ∧
        fault.cause = .divisionByZero) := by
  intro e code p m
  have hzero : Translation p.pool (.constant 0) [Opcode.iconst0.byte] := .constant (.short rfl)
  have hthousand : Translation p.pool (.constant 1000) [0x11, 0x03, 0xe8] :=
    .constant (.word 1000)
  have htranslation : Translation p.pool e code :=
    .conditional (.readLocal 0) hzero (.negate (.readLocal 0)) (.binary hthousand (.readLocal 0))
  have hlocals : ∀ a index, e.Reads index →
      (m a).locals[index.toNat]? = some (some (.int a)) := by
    intro a index h
    have hindex : index = 0 := by
      simp only [e, Reads] at h
      tauto
    rw [hindex]
    rfl
  have hrun : ∀ a, _ := fun a =>
    @runFor_translation p ⟨.fail, none⟩ (fun _ => a) (m a) e [0x00] code [0xb1] htranslation
      rfl (by decide) (by decide +kernel) (by decide) rfl rfl rfl (hlocals a) (Nat.le_refl 3)
  have hnegative : e.value? (fun _ => -7) = some 7 := by decide +kernel
  have hnone : e.value? (fun _ => 0) = none := by decide +kernel
  constructor
  · have h := hrun (-7)
    rw [hnegative] at h
    exact ⟨hnegative, h⟩
  · have h := hrun 0
    rw [hnone] at h
    obtain ⟨n, i, pending, _, _, _, _, hfault⟩ := h
    exact ⟨hnone, n, _, _, hfault, rfl⟩

end Expression

end ClassMachine
