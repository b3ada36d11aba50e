import Covm.Bytecode.Correctness

/-!
# Straight-line programs

Of the operations without blocks that the compiler turns into instructions, some keep their meaning
and some do not: `Over` and the dumps become `Return`, the assertions become instructions that the
interpreter does not know, and `Negate` is executed as a logical `Not`. The bytecode interpreter also
explains nothing. Programs over a set of these operations keep their meaning exactly if none of the
operations is one of those, and nothing is explained (`keepsMeaning_iff`).
-/

namespace Covm

open Partial BytecodeInterpreter

/-- The operations straight-line programs are made of. -/
def Op.isStraight {F : Type} : Op F → Bool
  | .push _ | .pop | .dup | .swap | .overOp | .negate | .not | .and | .or | .add | .sub | .mul | .div
  | .mod | .eq | .gt | .lt | .store _ | .load _ | .emit _ | .dumpStack | .dumpMemory | .dumpState
  | .assertTop _ | .assertMemory _ _ | .assertEqualStack _ => true
  | _ => false

/-- The operations that are not compiled to what they do. -/
def Op.isMislowered {F : Type} : Op F → Bool
  | .overOp | .negate | .dumpStack | .dumpMemory | .dumpState | .assertTop _ | .assertMemory _ _
  | .assertEqualStack _ => true
  | _ => false

theorem Op.simple_of_straight {F : Type} {op : Op F} (h : op.isStraight = true)
    (h' : op.isMislowered = false) : op.Simple ∅ := by
  cases op <;> first | trivial | exact Set.notMem_empty _

section straight
variable {F S : Type} [Number F] [StorageBackend S] [SerdeJson]

/-- The same stack, memory and output. -/
structure SameState (vm vm' : VM F S) : Prop where
  stack : vm'.stack = vm.stack
  memory : vm'.memory = vm.memory
  output : vm'.executor.output = vm.executor.output

/-- From `vm`, the compiled program succeeds exactly if the program does, and ends in the same
state. -/
structure KeepsMeaning (ops : List (Op F)) (vm : VM F S) : Prop where
  forth : ∀ vm₁, VM.run ops vm (.ok () vm₁) →
    ∃ vm₂, BytecodeInterpreter.run (BytecodeCompiler.compile ops) vm (.ok () vm₂) ∧ SameState vm₁ vm₂
  back : ∀ vm₂, BytecodeInterpreter.run (BytecodeCompiler.compile ops) vm (.ok () vm₂) →
    ∃ vm₁, VM.run ops vm (.ok () vm₁) ∧ SameState vm₁ vm₂

omit [Number F] [StorageBackend S] [SerdeJson] in
/-- If no variable is hidden, the memory is the same. -/
theorem SameResult.sameState {vm vm' : VM F S} (h : SameResult ∅ vm vm') : SameState vm vm' where
  stack := h.stack
  memory := by
    have hscope : vm'.memory.1.scope = vm.memory.1.scope :=
      Finmap.ext_lookup fun name => h.vars name (Set.notMem_empty name)
    refine Subtype.ext ?_
    rw [h.memory, hscope, VMMemory.setScope_scope]
  output := by rw [h.executor]

theorem keepsMeaning_of_simple {ops : List (Op F)} (hops : ∀ op ∈ ops, op.Simple ∅) {vm : VM F S}
    (hvm : vm.explainEnabled = false) : KeepsMeaning ops vm := by
  have hsame := sameOutcomes_of_implements (fun op hop => simple_implements (hops op hop)) hvm
  constructor
  · intro vm₁ h₁
    obtain ⟨vm₂, h₂, h⟩ := hsame.forth vm₁ h₁
    exact ⟨vm₂, h₂, h.sameState⟩
  · intro vm₂ h₂
    obtain ⟨vm₁, h₁, h⟩ := hsame.back vm₂ h₂
    exact ⟨vm₁, h₁, h.sameState⟩

/-! ### Programs of one operation -/

theorem run_single {op : Op F} {x : Exec F S Unit} (hx : VM.executeBasic op = some x)
    {vm vm' vm₁ : VM F S} (ha : VM.announce op vm = .ok false vm') (h : x vm' = .ok () vm₁) :
    ∃ vm₂, VM.run [op] vm (.ok () vm₂) ∧ vm₂.untraced = vm₁.untraced := by
  obtain ⟨vm₂, h₂⟩ := VM.recordStackAfter_ok vm₁
  refine ⟨vm₂, ?_, VM.recordStackAfter_untraced.ok h₂⟩
  rw [VM.run_cons, VM.next_of_basic hx]
  refine Sem.bind_ok (Sem.bind_ok ha (Sem.bind_ok h (Sem.bind_ok h₂ rfl))) ?_
  rw [Flow.andThen, VM.run_nil]
  rfl

theorem run_single_error {op : Op F} {x : Exec F S Unit} (hx : VM.executeBasic op = some x)
    {vm vm' vm₁ : VM F S} {e : Fault F} (ha : VM.announce op vm = .ok false vm')
    (h : x vm' = .error (.fault e) vm₁) : VM.run [op] vm (.error e vm₁) := by
  rw [VM.run_cons, VM.next_of_basic hx]
  exact Sem.bind_error (Sem.bind_ok ha (Sem.bind_error h))

omit [SerdeJson] in
theorem run_compile_single {op : Op F} {i : BytecodeOp F} {x : Exec F S Unit}
    (hi : BytecodeCompiler.instruction op = some i) (hx : executeOnVm i = some x)
    (hdef : x.Definite) :
    BytecodeInterpreter.run (BytecodeCompiler.compile [op]) = ends x := by
  have hcode := BytecodeCompiler.compile_single hi
  refine run_of_segment ?_
  rw [hcode]
  exact (segment_onVm (by rw [hcode]; rfl) hx hdef).weaken (Nat.zero_le _)

end straight

/-! ### Operations that lose their meaning -/

section mislowered
variable {F S : Type} [Number F]

/-- A value that is equal to the given one. A number need not be equal to itself, but it is equal to
its text. -/
def passing : TypedValue F → TypedValue F
  | .number n => .string (Number.toStr n)
  | v => v

theorem holdsEqual_passing (v : TypedValue F) : VM.holdsEqual (passing v) v = true := by
  cases v with
  | number n => exact beq_self_eq_true (Number.toStr n)
  | boolean b => exact beq_self_eq_true b
  | string s => exact beq_self_eq_true s
  | null => rfl

/-- A stack and a memory the operation succeeds with. -/
def succeeding : Op F → VM F S → VM F S
  | .assertTop expected, vm => { vm with stack := [passing expected] }
  | .assertMemory key expected, vm => vm.stored key (passing expected)
  | .assertEqualStack depth, vm => { vm with stack := List.replicate (depth + 1) .null }
  | _, vm => { vm with stack := [.null, .null] }

theorem assertTop_ok {vm : VM F S} {v : TypedValue F} (h : vm.stack = [passing v]) :
    ∃ vm₁, VM.assertTop v vm = .ok () vm₁ := by
  rw [VM.assertTop, Comp.bind_of_ok (VM.pop_of_cons h), holdsEqual_passing]
  exact ⟨_, rfl⟩

theorem assertMemory_ok {vm : VM F S} {key : String} {v : TypedValue F}
    (h : vm.memory.1.scope.lookup key = some (passing v)) :
    ∃ vm₁, VM.assertMemory key v vm = .ok () vm₁ := by
  have hload : VM.load key vm = .ok (passing v) vm := by
    simp [VM.load, VMMemory.load_eq_scope vm.memory.2, h, VM.ofExcept]
  rw [VM.assertMemory, Comp.bind_of_ok hload, holdsEqual_passing]
  exact ⟨_, rfl⟩

theorem assertEqualStack_ok {vm : VM F S} {depth : Nat}
    (h : vm.stack = List.replicate (depth + 1) .null) :
    ∃ vm₁, VM.assertEqualStack depth vm = .ok () vm₁ := by
  have hcheck : VM.onStack (VMStack.assertEqualStack depth) vm = .ok true vm := by
    cases vm
    subst h
    simp [VM.onStack, Comp.zoom, VMStack.assertEqualStack, TypedValue.peq, List.replicate_succ]
  rw [VM.assertEqualStack, Comp.bind_of_ok hcheck]
  exact ⟨_, rfl⟩

variable [StorageBackend S]

/-- Except for `Negate`, a wrongly compiled operation always fails. -/
theorem raises_of_mislowered {op : Op F} (h : op.isMislowered = true) (hneg : op ≠ .negate) :
    ∃ i e, BytecodeCompiler.instruction op = some i ∧
      ∀ s : BytecodeInterpreter F S, executeInstruction i s = .error (.fault (.error e)) s := by
  cases op <;> first
    | exact ⟨_, _, rfl, fun _ => rfl⟩
    | exact absurd rfl hneg
    | cases h

/-- Except for `Negate`, a wrongly compiled operation can succeed. -/
theorem succeeds_of_mislowered {op : Op F} (h : op.isMislowered = true) (hneg : op ≠ .negate)
    {vm vm' : VM F S} (hcore : vm'.core = (succeeding op vm).core) :
    ∃ x vm₁, VM.executeBasic op = some x ∧ x vm' = .ok () vm₁ := by
  obtain ⟨hstack, hmemory⟩ := Prod.mk.inj hcore
  cases op with
  | negate => exact absurd rfl hneg
  | assertTop expected =>
    obtain ⟨vm₁, h₁⟩ := assertTop_ok hstack
    exact ⟨_, vm₁, rfl, h₁⟩
  | assertMemory key expected =>
    have hkey : vm'.memory.1.scope.lookup key = some (passing expected) := by
      rw [hmemory, succeeding, VM.scope_stored, Finmap.lookup_insert]
    obtain ⟨vm₁, h₁⟩ := assertMemory_ok hkey
    exact ⟨_, vm₁, rfl, h₁⟩
  | assertEqualStack depth =>
    obtain ⟨vm₁, h₁⟩ := assertEqualStack_ok hstack
    exact ⟨_, vm₁, rfl, h₁⟩
  | overOp =>
    refine ⟨_, { vm' with stack := [.null, .null, .null] }, rfl, ?_⟩
    have hstack' : vm'.stack = [.null, .null] := hstack
    simp [VM.onStack, Comp.zoom, hstack', VMStack.overOp]
  | dumpStack | dumpMemory | dumpState => exact ⟨_, _, rfl, rfl⟩
  | _ => cases h

omit [Number F] [StorageBackend S] in
theorem isSimulated_of_mislowered {op : Op F} (h : op.isMislowered = true) :
    VM.isSimulated op = false := by
  cases op <;> first | rfl | cases h

variable [SerdeJson]

/-- A VM in which a wrongly compiled operation does not keep its meaning. -/
theorem differs_of_mislowered {op : Op F} (h : op.isMislowered = true) (vm : VM F S) :
    ∃ vm' : VM F S, vm'.explainEnabled = vm.explainEnabled ∧ ¬ KeepsMeaning [op] vm' := by
  have hsim := isSimulated_of_mislowered h
  by_cases hneg : op = .negate
  · subst hneg
    -- `null` has no negative, but a negation
    have hnot : VM.unary executeLogical { vm with stack := [.null] } =
        .ok () { vm with stack := [.boolean true] } := rfl
    refine ⟨{ vm with stack := [.null] }, rfl, fun hkeeps => ?_⟩
    obtain ⟨vmA, hA, hcore⟩ := VM.announce_ok hsim { vm with stack := [.null] }
    have hnegate : VM.unary VM.negate vmA = .error (.fault (.error
        (.typeMismatch "number" "Null" "negate"))) { vmA with stack := [] } := by
      have hstack : vmA.stack = [.null] := congrArg Prod.fst hcore
      rw [VM.unary, Comp.bind_of_ok (VM.pop_of_cons hstack)]
      rfl
    have herror := run_single_error (rfl : VM.executeBasic .negate = _) hA hnegate
    obtain ⟨vm₁, h₁, -⟩ := hkeeps.back _ (by
      rw [run_compile_single rfl rfl (unary_definite _)]
      exact hnot)
    cases VM.run_functional _ _ _ _ herror h₁
  · refine ⟨succeeding op vm, by cases op <;> rfl, fun hkeeps => ?_⟩
    obtain ⟨vmA, hA, hcore⟩ := VM.announce_ok hsim (succeeding op vm)
    obtain ⟨x, vm₁, hx, h₁⟩ := succeeds_of_mislowered h hneg hcore
    obtain ⟨vm₂, h₂, -⟩ := run_single hx hA h₁
    obtain ⟨vm₃, h₃, -⟩ := hkeeps.forth vm₂ h₂
    obtain ⟨i, e, hi, hraise⟩ := raises_of_mislowered (S := S) h hneg
    cases run_of_raises (by rw [BytecodeCompiler.compile_single hi]; rfl) hraise h₃

end mislowered

/-! ### Operations that are explained -/

section explained
variable {S : Type}

/-- What an operation appends to the output. -/
def Op.printed {F : Type} : Op F → String
  | .emit message => message ++ "\n"
  | _ => ""

/-- The variable an operation reads. -/
def Op.loaded {F : Type} : Op F → String
  | .load name => name
  | _ => ""

def one : TypedValue Binary64 := .number (Number.ofNat 1)

theorem executeArithmetic_one (op : ArithmeticOp) : ∃ u, executeArithmetic op one one = .ok u := by
  have hne : Number.eq (Number.ofNat 1 : Binary64) (Number.ofNat 0) = false :=
    Ieee.eq_ofNat (by decide) (by decide)
  cases op with
  | add | sub | mul => exact ⟨_, rfl⟩
  | div =>
    refine ⟨.number (Number.div (Number.ofNat 1) (Number.ofNat 1)), ?_⟩
    simp [executeArithmetic, one, TypedValue.div, TypedValue.asNumber, hne, Except.mapError, bind,
      Except.bind, pure, Except.pure]
  | mod =>
    refine ⟨.number (Number.rem (Number.ofNat 1) (Number.ofNat 1)), ?_⟩
    simp [executeArithmetic, one, TypedValue.modulo, TypedValue.asNumber, hne, Except.mapError, bind,
      Except.bind, pure, Except.pure]

theorem binary_ok {f : TypedValue Binary64 → TypedValue Binary64 → Except _ (TypedValue Binary64)}
    (hf : ∃ u, f one one = .ok u) {vm : VM Binary64 S} (hstack : vm.stack = [one, one]) :
    ∃ vm₁, VM.binary f vm = .ok () vm₁ ∧ vm₁.executor = vm.executor := by
  obtain ⟨u, hu⟩ := hf
  have happly := binary_apply hu vm []
  rw [← hstack] at happly
  exact ⟨_, happly, rfl⟩

variable [StorageBackend S]

/-- With two ones on the stack and its variable in memory, every operation that is compiled to what
it does succeeds. -/
theorem succeeds_of_straight {op : Op Binary64} (h : op.isStraight = true)
    (h' : op.isMislowered = false) {x : Exec Binary64 S Unit} (hx : VM.executeBasic op = some x)
    {vm : VM Binary64 S} (hstack : vm.stack = [one, one])
    (hloaded : vm.memory.1.scope.lookup op.loaded = some .null) :
    ∃ vm₁, x vm = .ok () vm₁ ∧
      vm₁.executor.output = vm.executor.output ++ op.printed := by
  have hsilent (hprinted : op.printed = "") (hok : ∃ vm₁, x vm = .ok () vm₁ ∧
      vm₁.executor = vm.executor) :
      ∃ vm₁, x vm = .ok () vm₁ ∧ vm₁.executor.output = vm.executor.output ++ op.printed := by
    obtain ⟨vm₁, h₁, hexecutor⟩ := hok
    exact ⟨vm₁, h₁, by rw [hexecutor, hprinted, String.append_empty]⟩
  have hpop := VM.pop_of_cons hstack
  cases op with
  | push v =>
    cases hx
    exact hsilent rfl ⟨_, rfl, rfl⟩
  | emit message =>
    cases hx
    exact ⟨_, rfl, String.append_assoc⟩
  | pop =>
    cases hx
    exact hsilent rfl ⟨_, Comp.bind_of_ok hpop, rfl⟩
  | store name =>
    cases hx
    exact hsilent rfl ⟨_, Comp.bind_of_ok hpop, rfl⟩
  | load name =>
    cases hx
    exact hsilent rfl ⟨_, loadVar_apply hloaded, rfl⟩
  | not =>
    cases hx
    exact hsilent rfl ⟨_, Comp.bind_of_ok hpop, rfl⟩
  | dup =>
    cases hx
    refine hsilent rfl ⟨{ vm with stack := [one, one, one] }, ?_, rfl⟩
    simp [VM.onStack, Comp.zoom, hstack, VMStack.dup]
  | swap =>
    cases hx
    refine hsilent rfl ⟨{ vm with stack := [one, one] }, ?_, rfl⟩
    simp [VM.onStack, Comp.zoom, hstack, VMStack.swap]
  | add | sub | mul | div | mod =>
    cases hx
    exact hsilent rfl (binary_ok (executeArithmetic_one _) hstack)
  | eq | gt | lt | and | or =>
    cases hx
    exact hsilent rfl (binary_ok ⟨_, rfl⟩ hstack)
  | overOp | negate | dumpStack | dumpMemory | dumpState | assertTop | assertMemory
  | assertEqualStack => cases h'
  | _ => cases h

variable [SerdeJson]

/-- A VM in which the output of an operation depends on whether it is compiled. -/
theorem differs_of_explained {op : Op Binary64} (h : op.isStraight = true)
    (h' : op.isMislowered = false) :
    ∃ vm : VM Binary64 S, vm.explainEnabled = true ∧ ¬ KeepsMeaning [op] vm := by
  obtain ⟨x, i, hx, hi, honVm, hdef, -⟩ := simple_lowered (S := S) (Op.simple_of_straight h h')
  let vm : VM Binary64 S :=
    { VM.new (fun _ => 0) with stack := [one, one], explainEnabled := true }.stored op.loaded .null
  have hloaded : vm.memory.1.scope.lookup op.loaded = some .null := by
    rw [VM.scope_stored, Finmap.lookup_insert]
  -- the explanation is in the output before the operation is executed
  let text : String := s!"[EXPLAIN] {VM.explainOp op}" ++ "\n"
  let vm' : VM Binary64 S :=
    { vm with executor := { vm.executor with output := vm.executor.output ++ text } }
  have ha : VM.announce op vm = .ok false vm' := by
    rw [VM.announce_of_not_simulated (isSimulated_of_simple (Op.simple_of_straight h h'))]
    show EStateM.Result.ok false _ = _
    simp only [vm', text, String.append_assoc]
  refine ⟨vm, rfl, fun hkeeps => ?_⟩
  have hstack : vm.stack = [one, one] := rfl
  have hstack' : vm'.stack = [one, one] := rfl
  obtain ⟨vm₁, h₁, hprinted₁⟩ := succeeds_of_straight h h' hx hstack' hloaded
  obtain ⟨vm₂, h₂, htrace⟩ := run_single hx ha h₁
  obtain ⟨vm₃, h₃, hprinted₃⟩ := succeeds_of_straight h h' hx hstack hloaded
  obtain ⟨vm₄, h₄, hsame⟩ := hkeeps.forth vm₂ h₂
  rw [run_compile_single hi honVm hdef] at h₄
  obtain rfl : vm₄ = vm₃ := by cases h₄.symm.trans h₃; rfl
  have houtput : vm₂.executor.output = vm₁.executor.output :=
    congrArg (fun vm => vm.executor.output) htrace
  have hlength := congrArg String.length (hsame.output.trans houtput)
  rw [hprinted₁, hprinted₃] at hlength
  simp only [vm', text, String.length_append] at hlength
  have hnewline : "\n".length = 1 := rfl
  omega

end explained

/-! ### Which programs keep their meaning -/

section programs
variable {S : Type} [StorageBackend S] [SerdeJson]

theorem keepsMeaning_nil {F : Type} [Number F] (vm : VM F S) : KeepsMeaning [] vm := by
  have hrun : BytecodeInterpreter.run (BytecodeCompiler.compile ([] : List (Op F))) =
      (pure () : Sem (Fault F) (VM F S) Unit) := run_of_segment (.pure () fun _ => 0)
  have hsame : SameState vm vm := ⟨rfl, rfl, rfl⟩
  constructor
  · intro vm₁ h₁
    rw [VM.run_nil] at h₁
    cases h₁
    exact ⟨vm, by rw [hrun]; rfl, hsame⟩
  · intro vm₂ h₂
    rw [hrun] at h₂
    cases h₂
    exact ⟨vm, by rw [VM.run_nil]; rfl, hsame⟩

/-- Programs over the operations in `K` keep their meaning exactly if `K` has none of the operations
that are compiled wrongly, and nothing is explained. -/
theorem keepsMeaning_iff (K : Set (Op Binary64)) (hK : ∀ op ∈ K, op.isStraight = true)
    (explain : Bool) :
    (∀ ops : List (Op Binary64), (∀ op ∈ ops, op ∈ K) → ∀ vm : VM Binary64 S,
      vm.explainEnabled = explain → KeepsMeaning ops vm) ↔
    (∀ op ∈ K, op.isMislowered = false) ∧ (explain = false ∨ K = ∅) := by
  constructor
  · intro hkeeps
    have hsingle {op : Op Binary64} (hop : op ∈ K) (vm : VM Binary64 S)
        (hvm : vm.explainEnabled = explain) : KeepsMeaning [op] vm :=
      hkeeps [op] (by simpa using hop) vm hvm
    have hlowered : ∀ op ∈ K, op.isMislowered = false := by
      intro op hop
      by_contra hmis
      obtain ⟨vm, hvm, hnot⟩ := differs_of_mislowered (S := S) (by simpa using hmis)
        { VM.new (fun _ => 0) with explainEnabled := explain }
      exact hnot (hsingle hop vm hvm)
    refine ⟨hlowered, ?_⟩
    cases explain with
    | false => exact .inl rfl
    | true =>
      refine .inr (Set.eq_empty_of_forall_notMem fun op hop => ?_)
      obtain ⟨vm, hvm, hnot⟩ := differs_of_explained (S := S) (hK op hop) (hlowered op hop)
      exact hnot (hsingle hop vm hvm)
  · rintro ⟨hlowered, rfl | rfl⟩ ops hops vm hvm
    · exact keepsMeaning_of_simple (fun op hop =>
        Op.simple_of_straight (hK op (hops op hop)) (hlowered op (hops op hop))) hvm
    · obtain rfl : ops = [] := List.eq_nil_iff_forall_not_mem.mpr hops
      exact keepsMeaning_nil vm

end programs

theorem keepsMeaning_dup_add : KeepsMeaning [.dup, .add] (VM.stackVm [one]) := by
  have hkeeps := (keepsMeaning_iff (S := NoStorage) {.dup, .add} (by
    rintro op (rfl | rfl) <;> rfl) false).mpr ⟨by rintro op (rfl | rfl) <;> rfl, .inl rfl⟩
  exact hkeeps [.dup, .add] (by simp) (VM.stackVm [one]) rfl

/-- `Over` copies a value, but the compiled program fails. -/
theorem over_loses_meaning :
    (∃ vm₁, VM.run [.overOp] (VM.stackVm [.boolean true, .boolean false]) (.ok () vm₁) ∧
      vm₁.stack = [.boolean false, .boolean true, .boolean false]) ∧
    (∀ vm₂, ¬ BytecodeInterpreter.run (BytecodeCompiler.compile [.overOp])
      (VM.stackVm [.boolean true, .boolean false]) (.ok () vm₂)) ∧
    ¬ KeepsMeaning [.overOp] (VM.stackVm [.boolean true, .boolean false]) := by
  have hrun : ∃ vm₁, VM.run [.overOp] (VM.stackVm [.boolean true, .boolean false]) (.ok () vm₁) ∧
      vm₁.stack = [.boolean false, .boolean true, .boolean false] :=
    lim_of_endsIn 2 (by decide)
  have hcompiled (vm₂ : VM Binary64 NoStorage) : ¬ BytecodeInterpreter.run
      (BytecodeCompiler.compile [.overOp]) (VM.stackVm [.boolean true, .boolean false])
      (.ok () vm₂) := fun h => by cases run_of_raises rfl (fun _ => rfl) h
  refine ⟨hrun, hcompiled, fun hkeeps => ?_⟩
  obtain ⟨vm₁, h₁, -⟩ := hrun
  obtain ⟨vm₂, h₂, -⟩ := hkeeps.forth vm₁ h₁
  exact hcompiled vm₂ h₂

end Covm
