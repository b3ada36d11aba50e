import Covm.Bytecode.Compiler
import Covm.Partial.Machine
import Covm.Vm.Interp

/-!
# The bytecode interpreter (`bytecode.rs`, `BytecodeInterpreter`)

The interpreter is a machine: it executes the instruction at `pc` while `pc` is inside the program.
Most instructions act on the VM and go to the next address (`executeOnVm`); the jumps set `pc`, and
`IncrementReputation` appends to the program that is being run.
-/

namespace Covm

open Partial

structure BytecodeInterpreter (F S : Type) where
  pc : Nat
  program : BytecodeProgram F
  vm : VM F S

namespace BytecodeInterpreter

variable {F S α : Type}

def new (vm : VM F S) (program : BytecodeProgram F) : BytecodeInterpreter F S := ⟨0, program, vm⟩

def onVm (x : Exec F S α) : Comp (Fault F) (BytecodeInterpreter F S) α :=
  Comp.zoom BytecodeInterpreter.vm (fun vm s => { s with vm := vm }) x

/-- `self.pc += 1`. -/
def nextPc : Comp (Fault F) (BytecodeInterpreter F S) Unit := fun s =>
  .ok () { s with pc := s.pc + 1 }

def setPc (addr : Nat) : Comp (Fault F) (BytecodeInterpreter F S) Unit := fun s =>
  .ok () { s with pc := addr }

variable [Number F]

/-- The caller has the role, in general or in the current namespace. -/
def requireRole (role : String) : Exec F S Unit := do
  let vm ← get
  match vm.executor.authContext with
  | some auth =>
    if !auth.hasRole "global" role && !auth.hasRole vm.executor.ns role then
      VM.raise (.permissionDenied auth.currentIdentityDid "require_role" role)
  | none => VM.raise .identityContextUnavailable

variable [StorageBackend S]

open VM in
/-- The instructions that act on the VM only. -/
def executeOnVm : BytecodeOp F → Option (Exec F S Unit)
  | .push value => some (push value)
  | .store name => some do
    let value ← pop
    store name value
  | .load name => some do
    let value ← load name
    push value
  | .add => some (binary (executeArithmetic .add))
  | .sub => some (binary (executeArithmetic .sub))
  | .mul => some (binary (executeArithmetic .mul))
  | .div => some (binary (executeArithmetic .div))
  | .emit message => some (emit message)
  | .emitEvent category message => some (emitEvent category message)
  | .call funcName => some (raise (.notImplemented
      (.message s!"Function call '{funcName}' not implemented yet")))
  | .returnOp => some (raise (.notImplemented (.message "Return not implemented yet")))
  | .functionEntry name _ => some (raise (.notImplemented
      (.message s!"Function entry '{name}' not implemented yet")))
  | .dup => some (onStack VMStack.dup)
  | .pop => some do
    let _ ← pop
  | .swap => some (onStack VMStack.swap)
  | .eq => some (binary (executeComparison .eq))
  | .gt => some (binary (executeComparison .gt))
  | .lt => some (binary (executeComparison .lt))
  | .negate => some (unary executeLogical)
  | .and => some (binary (executeBinaryLogical .and))
  | .or => some (binary (executeBinaryLogical .or))
  | .not => some (unary executeLogical)
  | .mod => some (binary (executeArithmetic .mod))
  | .createResource resource => some (onExecutor (VMExecution.executeCreateResource resource))
  | .mint resource account amount reason =>
    some (onExecutor (VMExecution.executeMint resource account amount reason))
  | .transfer resource source target amount reason =>
    some (onExecutor (VMExecution.executeTransfer resource source target amount reason))
  | .burn resource account amount reason =>
    some (onExecutor (VMExecution.executeBurn resource account amount reason))
  | .balance resource account => some do
    let balance ← onExecutor (VMExecution.executeBalance resource account)
    push balance
  | .verifySignature =>
    some (raise (.notImplemented (.message "VerifySignature not implemented")))
  | .storeStorage key => some do
    let value ← pop
    onExecutor (VMExecution.executeStoreP key value)
  | .loadStorage key => some do
    let value ← onExecutor (VMExecution.executeLoadP key (← get).missingKeyBehavior)
    push value
  | .nop => some (pure ())
  | .requireRole role => some (requireRole role)
  | .minDeliberation duration => some (emitEvent "governance"
      s!"Minimum deliberation period: {duration}s")
  | .expiresIn duration => some (emitEvent "governance" s!"Expires in: {duration}s")
  | _ => none

def executeInstruction (op : BytecodeOp F) : Comp (Fault F) (BytecodeInterpreter F S) Unit :=
  match op with
  | .jumpIfZero addr => do
    let value ← onVm VM.pop
    if value.isFalsey then setPc addr else nextPc
  | .jump addr => setPc addr
  | .incrementReputation .. => do
    modify fun s => { s with
      program := { s.program with instructions := s.program.instructions ++ [op] } }
    nextPc
  | op =>
    match executeOnVm op with
    | some x => do
      onVm x
      nextPc
    | none => onVm (VM.raise (.notImplemented (.instruction op)))

/-- The loop of `execute`: an instruction is fetched and executed while `pc` is in the program. -/
def machine : Machine (Fault F) (BytecodeInterpreter F S) where
  running s := decide (s.pc < s.program.instructions.length)
  step s :=
    match s.program.instructions[s.pc]? with
    | some op => executeInstruction op s
    | none => .error (.fault .panic) s

/-- At most `fuel` instructions. -/
def execute (fuel : Nat) : Comp (Fault F) (BytecodeInterpreter F S) Unit := do
  setPc 0
  machine.exec fuel

/-- The VM an outcome leaves behind. -/
def view : Outcome (Fault F) (BytecodeInterpreter F S) Unit → Outcome (Fault F) (VM F S) Unit
  | .ok () s => .ok () s.vm
  | .error e s => .error e s.vm

/-- What `execute` computes with enough fuel, as seen in the VM. -/
def run (program : BytecodeProgram F) : Sem (Fault F) (VM F S) Unit := fun vm r =>
  ∃ r', lim execute (new vm program) r' ∧ view r' = r

/-- A result found by evaluation. -/
theorem run_of_endsIn {P : BytecodeProgram F} {vm : VM F S} {p : VM F S → Prop} [DecidablePred p]
    (n : Nat) (h : endsIn (fun s => p s.vm) (execute n (new vm P)) = true) :
    ∃ vm', run P vm (.ok () vm') ∧ p vm' := by
  obtain ⟨s, hs, hp⟩ := lim_of_endsIn n h
  exact ⟨s.vm, ⟨.ok () s, hs, rfl⟩, hp⟩

/-! ### The instructions as segments -/

/-- The positions in a program that does not change. -/
def positions (P : BytecodeProgram F) :
    (machine : Machine _ (BytecodeInterpreter F S)).Located Nat (VM F S) where
  loc p vm := ⟨p, P, vm⟩
  data s := s.vm
  data_loc _ _ := rfl

/-- `execute` starts the machine at the first instruction. -/
theorem run_iff {P : BytecodeProgram F} {vm : VM F S} {r : Outcome (Fault F) (VM F S) Unit} :
    run P vm r ↔ ∃ r', machine.outcome ((positions P).loc 0 vm) r' ∧ (positions P).view r' = r := by
  have h (r' : Outcome (Fault F) (BytecodeInterpreter F S) Unit) :
      lim execute (new vm P) r' ↔ machine.outcome ((positions P).loc 0 vm) r' := by
    rw [← Machine.lim_exec]
    exact Iff.rfl
  have hview (r' : Outcome (Fault F) (BytecodeInterpreter F S) Unit) :
      view r' = (positions P).view r' := by cases r' <;> rfl
  simp only [run, h, hview]

section segments
variable {P : BytecodeProgram F} {pos : Nat}

theorem running_of_fetch {i : BytecodeOp F} (h : P.instructions[pos]? = some i) (vm : VM F S) :
    machine.running ((positions P).loc pos vm) = true := by
  simpa [machine, positions] using (List.getElem?_eq_some_iff.mp h).1

theorem step_of_fetch {i : BytecodeOp F} (h : P.instructions[pos]? = some i) (vm : VM F S) :
    machine.step ((positions P).loc pos vm) = executeInstruction i ⟨pos, P, vm⟩ := by
  simp [machine, positions, h]

theorem executeInstruction_of_onVm {i : BytecodeOp F} {x : Exec F S Unit}
    (h : executeOnVm i = some x) : executeInstruction i = onVm x >>= fun _ => nextPc := by
  cases i <;> cases h <;> rfl

/-- An instruction that acts on the VM. -/
theorem segment_onVm {i : BytecodeOp F} {x : Exec F S Unit} (hi : P.instructions[pos]? = some i)
    (hx : executeOnVm i = some x) (hdef : x.Definite) :
    Machine.Segment (positions P) 1 pos (ends x) fun _ => pos + 1 := by
  refine .step (running_of_fetch hi) hdef (fun vm a vm' h => ?_) fun vm e vm' h =>
    ⟨⟨pos, P, vm'⟩, ?_, rfl⟩
  · rw [step_of_fetch hi, executeInstruction_of_onVm hx]
    simp [Comp.bind_apply, onVm, Comp.zoom, h, nextPc, positions]
  · rw [step_of_fetch hi, executeInstruction_of_onVm hx]
    simp [Comp.bind_apply, onVm, Comp.zoom, h]

theorem segment_jump {addr : Nat} (hi : P.instructions[pos]? = some (.jump addr)) :
    Machine.Segment (positions P : Machine.Located _ Nat (VM F S)) 1 pos (pure ())
      fun _ => addr := by
  rw [← ends_pure]
  refine .step (running_of_fetch hi) (.pure ()) (fun vm a vm' h => ?_) fun vm e vm' h => by cases h
  cases h
  exact step_of_fetch hi vm

/-- A conditional jump pops its condition. -/
def popTest : Exec F S Bool := do
  let value ← VM.pop
  return !value.isFalsey

theorem segment_jumpIfZero {addr : Nat} (hi : P.instructions[pos]? = some (.jumpIfZero addr)) :
    Machine.Segment (positions P : Machine.Located _ Nat (VM F S)) 1 pos (ends popTest)
      fun b => bif b then pos + 1 else addr := by
  have hpop : (VM.pop : Exec F S _).Definite := .zoom fun s s' h => by cases s <;> cases h
  have hstep : Machine.Segment (positions P : Machine.Located _ Nat (VM F S)) 1 pos (ends VM.pop)
      fun value => bif !value.isFalsey then pos + 1 else addr := by
    refine .step (running_of_fetch hi) hpop (fun vm a vm' h => ?_) fun vm e vm' h =>
      ⟨⟨pos, P, vm'⟩, ?_, rfl⟩
    · rw [step_of_fetch hi, executeInstruction]
      cases hf : a.isFalsey <;>
        simp [Comp.bind_apply, onVm, Comp.zoom, h, hf, nextPc, setPc, positions]
    · rw [step_of_fetch hi, executeInstruction]
      simp [Comp.bind_apply, onVm, Comp.zoom, h]
  have hreturn (value : TypedValue F) :
      Machine.Segment (positions P : Machine.Located _ Nat (VM F S)) 0
        (bif !value.isFalsey then pos + 1 else addr) (ends (pure !value.isFalsey))
        fun b => bif b then pos + 1 else addr := by
    rw [ends_pure]
    exact .pure (!value.isFalsey) fun b => bif b then pos + 1 else addr
  exact hstep.endsBind hreturn

/-- A program that starts with an instruction that is not implemented fails. -/
theorem run_of_raises {i : BytecodeOp F} {e : VMError F} (hi : P.instructions[0]? = some i)
    (he : ∀ s : BytecodeInterpreter F S, executeInstruction i s = .error (.fault (.error e)) s)
    {vm : VM F S} {r : Outcome (Fault F) (VM F S) Unit} (hr : run P vm r) :
    r = .error (.error e) vm := by
  obtain ⟨r', ⟨n, h⟩, rfl⟩ := run_iff.mp hr
  obtain rfl := h.inv_fault ⟨running_of_fetch hi vm, (step_of_fetch hi vm).trans (he _)⟩
  rfl

end segments

end BytecodeInterpreter

end Covm
