import Covm.Bytecode.Code
import Covm.Bytecode.Interpreter
import Covm.Partial.Simulation
import Covm.Vm.Effects

/-!
# VMs that run the syntax and VMs that run the code

Compiled code runs on a VM that differs from the one of the interpreter in two ways: the current
scope also holds the temporaries of loops and matches, and there may be further values `base` below
those of the program on the stack. `Matches base` is this relation. The operations a program is
built from keep it (`basic_simulates`), as long as the program does not use the names of the
temporaries.

`Simulates base B N` says that a computation is simulated by another that writes no temporaries but
those in `N`.
-/

namespace Covm

open Partial

/-! ### Temporaries -/

/-- The names `__loop_counter_N` and `__match_value_N`. -/
def allTemporaries : Set String :=
  { name | ∃ n, name = BytecodeCompiler.loopCounter n ∨ name = BytecodeCompiler.matchValue n }

/-- The temporaries named after the positions from `lo` up to `hi`. -/
def temporaries (lo hi : Nat) : Set String :=
  { name | ∃ n, lo ≤ n ∧ n < hi ∧
    (name = BytecodeCompiler.loopCounter n ∨ name = BytecodeCompiler.matchValue n) }

namespace BytecodeCompiler

theorem toString_injective {n k : Nat} (h : toString n = toString k) : n = k := by
  have hdigits : Nat.toDigits 10 n = Nat.toDigits 10 k := by
    rw [← Nat.toList_repr, ← Nat.toList_repr]
    exact congrArg String.toList h
  rw [← Nat.ofDigitChars_ten_toDigits (n := n), hdigits, Nat.ofDigitChars_ten_toDigits]

theorem loopCounter_injective {n k : Nat} (h : loopCounter n = loopCounter k) : n = k :=
  toString_injective ((String.append_right_inj _).mp h)

theorem matchValue_injective {n k : Nat} (h : matchValue n = matchValue k) : n = k :=
  toString_injective ((String.append_right_inj _).mp h)

theorem loopCounter_ne_matchValue (n k : Nat) : loopCounter n ≠ matchValue k := by
  intro h
  have hloop : (loopCounter n).toList.take 3 = ['_', '_', 'l'] := by
    rw [loopCounter, String.toList_append]
    rfl
  have hmatch : (matchValue k).toList.take 3 = ['_', '_', 'm'] := by
    rw [matchValue, String.toList_append]
    rfl
  rw [h, hmatch] at hloop
  exact absurd hloop (by decide)

end BytecodeCompiler

theorem temporaries_mono {lo lo' hi hi' : Nat} (hlo : lo' ≤ lo) (hhi : hi ≤ hi') :
    temporaries lo hi ⊆ temporaries lo' hi' := by
  rintro name ⟨n, h₁, h₂, h⟩
  exact ⟨n, by omega, by omega, h⟩

open BytecodeCompiler in
theorem loopCounter_mem_temporaries {n lo hi : Nat} :
    loopCounter n ∈ temporaries lo hi ↔ lo ≤ n ∧ n < hi := by
  constructor
  · rintro ⟨k, h₁, h₂, h | h⟩
    · obtain rfl := loopCounter_injective h
      exact ⟨h₁, h₂⟩
    · exact absurd h (loopCounter_ne_matchValue n k)
  · exact fun ⟨h₁, h₂⟩ => ⟨n, h₁, h₂, .inl rfl⟩

open BytecodeCompiler in
theorem matchValue_mem_temporaries {n lo hi : Nat} :
    matchValue n ∈ temporaries lo hi ↔ lo ≤ n ∧ n < hi := by
  constructor
  · rintro ⟨k, h₁, h₂, h | h⟩
    · exact absurd h.symm (loopCounter_ne_matchValue k n)
    · obtain rfl := matchValue_injective h
      exact ⟨h₁, h₂⟩
  · exact fun ⟨h₁, h₂⟩ => ⟨n, h₁, h₂, .inr rfl⟩

/-! ### Matching VMs -/

/-- How two VMs may differ: the second may have further variables in its scope and further values
below those of the first on its stack. If it has such values, it does not fail where the first one
finds its stack empty, so a stack underflow of the first must count as an escape. -/
structure Difference (F : Type) where
  hidden : Set String
  base : VMStack F
  escape : Fault F → Prop
  guarded : base = [] ∨ escape (.error .stackUnderflow)

section matching
variable {F S α β : Type} (d : Difference F)

structure Matches (vm vm' : VM F S) : Prop where
  silent : vm.explainEnabled = false
  stack : vm'.stack = vm.stack ++ d.base
  executor : vm'.executor = vm.executor
  memory : vm'.memory.1 = vm.memory.1.setScope vm'.memory.1.scope
  vars : ∀ name ∉ d.hidden, vm'.memory.1.scope.lookup name = vm.memory.1.scope.lookup name

/-- The hidden variables outside `N` have the values `held`. -/
def Holds (N : Set String) (held : String → Option (TypedValue F)) (vm : VM F S) : Prop :=
  ∀ name ∈ d.hidden, name ∉ N → vm.memory.1.scope.lookup name = held name

/-- `m'` simulates `m` and writes no hidden variables but those in `N`. -/
def Simulates (N : Set String) (m m' : Sem (Fault F) (VM F S) α) : Prop :=
  ∀ held, Sim d.escape (Matches d) (fun vm vm' => Matches d vm vm' ∧ Holds d N held vm')
    (fun _ vm vm' => Matches d vm vm' ∧ Holds d N held vm') m m'

variable {d} {N N' : Set String} {m m' : Sem (Fault F) (VM F S) α}

theorem Simulates.pure (a : α) : Simulates d N (Pure.pure a) (Pure.pure a : Sem _ (VM F S) α) :=
  fun _ => .pure fun _ _ h => h

theorem Simulates.bind {f f' : α → Sem (Fault F) (VM F S) β} (h : Simulates d N m m')
    (hf : ∀ a, Simulates d N (f a) (f' a)) : Simulates d N (m >>= f) (m' >>= f') :=
  fun held => (h held).bind fun a => hf a held

/-- What is held may be fixed once the VMs are known. -/
theorem Simulates.conseq {P : VM F S → VM F S → Prop} {Q : α → VM F S → VM F S → Prop}
    (h : Simulates d N m m') (hP : ∀ vm vm', P vm vm' → Matches d vm vm' ∧
      ∀ a v v', Matches d v v' → Holds d N (vm'.memory.1.scope.lookup ·) v' → Q a v v') :
    Sim d.escape (Matches d) P Q m m' :=
  .conseq fun vm vm' hp => ⟨_, _, h (vm'.memory.1.scope.lookup ·),
    ⟨(hP vm vm' hp).1, fun _ _ _ => rfl⟩, fun a v v' hq => (hP vm vm' hp).2 a v v' hq.1 hq.2⟩

theorem Simulates.mono (h : Simulates d N m m') (hN : N ⊆ N') : Simulates d N' m m' := by
  refine fun held => h.conseq fun vm vm' ⟨hm, hh⟩ => ⟨hm, fun _ v v' hm' hh' => ⟨hm', ?_⟩⟩
  intro name hname hn
  exact (hh' name hname fun hmem => hn (hN hmem)).trans (hh name hname hn)

theorem Simulates.repeatM {body body' : Sem (Fault F) (VM F S) Unit} (h : Simulates d N body body')
    (n : Nat) : Simulates d N (Partial.repeatM body n) (Partial.repeatM body' n) :=
  fun held => (h held).repeatM n

theorem Simulates.whileDo {test test' : Sem (Fault F) (VM F S) Bool}
    {body body' : Sem (Fault F) (VM F S) Unit} (ht : Simulates d N test test')
    (hb : Simulates d N body body') :
    Simulates d N (Sem.whileDo test body) (Sem.whileDo test' body') :=
  fun held => Sim.whileDo ((ht held).mono (fun _ _ h => h) fun b _ _ h => by cases b <;> exact h)
    (hb held)

/-- A single computation that leaves the hidden variables alone. -/
theorem Simulates.ends {x x' : Exec F S α}
    (h : ∀ vm vm', Matches d vm vm' → Sim.Results d.escape (Matches d) (fun _ v v' =>
      Matches d v v' ∧ ∀ name ∈ d.hidden,
        v'.memory.1.scope.lookup name = vm'.memory.1.scope.lookup name) (x vm) (x' vm')) :
    Simulates d N (ends x) (ends x') :=
  fun _ => Sim.ends fun vm vm' ⟨hm, hh⟩ => (h vm vm' hm).mono fun _ _ _ ⟨hm', hk⟩ =>
    ⟨hm', fun name hname hn => (hk name hname).trans (hh name hname hn)⟩

/-- A computation of the first side that the second need not notice. -/
theorem Simulates.left {x : Exec F S β} {f : β → Sem (Fault F) (VM F S) α} {b : β}
    (hx : ∀ vm vm', Matches d vm vm' → ∃ vm₁, x vm = .ok b vm₁ ∧ Matches d vm₁ vm')
    (h : Simulates d N (f b) m') : Simulates d N (Partial.ends x >>= f) m' := by
  refine fun held => Sim.left (fun vm vm' ⟨hm, hh⟩ => ?_) (h held)
  obtain ⟨vm₁, h₁, hm₁⟩ := hx vm vm' hm
  exact ⟨vm₁, ends_iff_of_ok h₁, hm₁, hh⟩

/-! ### The parts of operations -/

/-- Values below those the operation works on do not matter to it, unless it underflows. -/
def Framing (x : StackOp F α) : Prop :=
  ∀ s base, (∃ a s', x s = .ok a s' ∧ x (s ++ base) = .ok a (s' ++ base)) ∨
    ∃ s', x s = .error (.fault (.error .stackUnderflow)) s'

theorem framing_push (v : TypedValue F) : Framing (VMStack.push v) :=
  fun s _ => .inl ⟨(), v :: s, rfl, rfl⟩

theorem framing_pop : Framing (VMStack.pop : StackOp F _)
  | [], _ => .inr ⟨[], rfl⟩
  | v :: s, _ => .inl ⟨v, s, rfl, rfl⟩

theorem framing_popTwo : Framing (VMStack.popTwo : StackOp F _)
  | [], _ => .inr ⟨[], rfl⟩
  | [_], _ => .inr ⟨[], rfl⟩
  | b :: a :: s, _ => .inl ⟨(a, b), s, rfl, rfl⟩

theorem framing_dup : Framing (VMStack.dup : StackOp F _)
  | [], _ => .inr ⟨[], rfl⟩
  | v :: s, _ => .inl ⟨(), v :: v :: s, rfl, rfl⟩

theorem framing_swap : Framing (VMStack.swap : StackOp F _)
  | [], _ => .inr ⟨[], rfl⟩
  | [v], _ => .inr ⟨[v], rfl⟩
  | b :: a :: s, _ => .inl ⟨(), a :: b :: s, rfl, rfl⟩

theorem onStack_simulates {x : StackOp F α} (hx : Framing x) :
    Simulates d N (ends (VM.onStack x : Exec F S α)) (ends (VM.onStack x)) := by
  refine .ends fun vm vm' hm => ?_
  rcases hx vm.stack d.base with ⟨a, s', h, h'⟩ | ⟨s', h⟩
  · rw [← hm.stack] at h'
    simp only [VM.onStack, Comp.zoom, h, h']
    exact .ok ⟨⟨hm.silent, rfl, hm.executor, hm.memory, hm.vars⟩, fun _ _ => rfl⟩
  · rcases d.guarded with hbase | hescape
    · have hstack : vm'.stack = vm.stack := by rw [hm.stack, hbase, List.append_nil]
      simp only [VM.onStack, Comp.zoom, hstack, h]
      exact .error ⟨hm.silent, by rw [hbase, List.append_nil], hm.executor, hm.memory, hm.vars⟩
    · simp only [VM.onStack, Comp.zoom, h]
      exact .escape hescape

theorem onExecutor_simulates (x : ExecutorOp F S α) :
    Simulates d N (ends (VM.onExecutor x)) (ends (VM.onExecutor x)) := by
  refine .ends fun vm vm' hm => ?_
  simp only [VM.onExecutor, Comp.zoom, hm.executor]
  cases x vm.executor with
  | ok a e => exact .ok ⟨⟨hm.silent, hm.stack, rfl, hm.memory, hm.vars⟩, fun _ _ => rfl⟩
  | error e t =>
    cases e with
    | fuel => exact .fuel
    | fault e => exact .error ⟨hm.silent, hm.stack, rfl, hm.memory, hm.vars⟩

theorem ofExcept_simulates (r : Except (VMError F) α) :
    Simulates d N (ends (VM.ofExcept r : Exec F S α)) (ends (VM.ofExcept r)) := by
  refine .ends fun vm vm' hm => ?_
  cases r with
  | ok a => exact .ok ⟨hm, fun _ _ => rfl⟩
  | error e => exact .error hm

theorem Matches.load {vm vm' : VM F S} (hm : Matches d vm vm') {name : String}
    (hname : name ∉ d.hidden) : vm'.memory.1.load name = vm.memory.1.load name := by
  rw [VMMemory.load_eq_scope vm'.memory.2, VMMemory.load_eq_scope vm.memory.2, hm.vars name hname,
    hm.memory, VMMemory.outside_setScope]

theorem load_simulates {name : String} (hname : name ∉ d.hidden) :
    Simulates d N (ends (VM.load name : Exec F S _)) (ends (VM.load name)) := by
  refine .ends fun vm vm' hm => ?_
  simp only [VM.load, hm.load hname]
  cases vm.memory.1.load name with
  | ok a => exact .ok ⟨hm, fun _ _ => rfl⟩
  | error e => exact .error hm

/-- `Store`, as it changes the VM. -/
def VM.stored (vm : VM F S) (name : String) (v : TypedValue F) : VM F S :=
  { vm with memory := ⟨vm.memory.1.store name v, vm.memory.2.store name v⟩ }

theorem VM.scope_stored (vm : VM F S) (name : String) (v : TypedValue F) :
    (vm.stored name v).memory.1.scope = vm.memory.1.scope.insert name v :=
  VMMemory.scope_store vm.memory.2 name v

theorem Matches.stored {vm vm' : VM F S} (hm : Matches d vm vm') (name : String)
    (v : TypedValue F) : Matches d (vm.stored name v) (vm'.stored name v) where
  silent := hm.silent
  stack := hm.stack
  executor := hm.executor
  memory := by
    rw [VM.scope_stored]
    show vm'.memory.1.store name v = (vm.memory.1.store name v).setScope _
    rw [VMMemory.store_eq_setScope vm'.memory.2, VMMemory.store_eq_setScope vm.memory.2, hm.memory,
      VMMemory.setScope_setScope, VMMemory.setScope_setScope, VMMemory.scope_setScope]
  vars other hother := by
    rw [VM.scope_stored, VM.scope_stored]
    by_cases h : other = name
    · rw [h, Finmap.lookup_insert, Finmap.lookup_insert]
    · rw [Finmap.lookup_insert_of_ne _ h, Finmap.lookup_insert_of_ne _ h]
      exact hm.vars other hother

/-- A hidden variable may be stored to without notice. -/
theorem Matches.storedRight {vm vm' : VM F S} (hm : Matches d vm vm') {name : String}
    (hname : name ∈ d.hidden) (v : TypedValue F) : Matches d vm (vm'.stored name v) where
  silent := hm.silent
  stack := hm.stack
  executor := hm.executor
  memory := by
    rw [VM.scope_stored]
    show vm'.memory.1.store name v = _
    rw [VMMemory.store_eq_setScope vm'.memory.2, hm.memory, VMMemory.setScope_setScope,
      VMMemory.scope_setScope]
  vars other hother := by
    have hne : other ≠ name := fun h => hother (h ▸ hname)
    rw [VM.scope_stored, Finmap.lookup_insert_of_ne _ hne]
    exact hm.vars other hother

theorem store_simulates {name : String} (hname : name ∉ d.hidden) (v : TypedValue F) :
    Simulates d N (ends (VM.store name v : Exec F S _)) (ends (VM.store name v)) := by
  refine .ends fun vm vm' hm => .ok ⟨hm.stored name v, fun other hother => ?_⟩
  have hne : other ≠ name := fun h => hname (h ▸ hother)
  exact (congrArg _ (vm'.scope_stored name v)).trans (Finmap.lookup_insert_of_ne _ hne)

theorem binary_simulates (f : TypedValue F → TypedValue F → Except (VMError F) (TypedValue F)) :
    Simulates d N (ends (VM.binary f : Exec F S Unit)) (ends (VM.binary f)) := by
  simp only [VM.binary, ends_bind]
  exact (onStack_simulates framing_popTwo).bind fun _ => (ofExcept_simulates _).bind fun _ =>
    onStack_simulates (framing_push _)

theorem unary_simulates (f : TypedValue F → Except (VMError F) (TypedValue F)) :
    Simulates d N (ends (VM.unary f : Exec F S Unit)) (ends (VM.unary f)) := by
  simp only [VM.unary, ends_bind]
  exact (onStack_simulates framing_pop).bind fun _ => (ofExcept_simulates _).bind fun _ =>
    onStack_simulates (framing_push _)

/-! ### What the compiled VM does not do -/

theorem Matches.of_untraced {vm vm₁ vm' : VM F S} (hm : Matches d vm vm')
    (h : vm₁.untraced = vm.untraced) : Matches d vm₁ vm' := by
  have hfields := congrArg (fun v => (v.stack, v.memory, v.executor, v.explainEnabled)) h
  simp only [VM.untraced, Prod.mk.injEq] at hfields
  obtain ⟨hstack, hmemory, hexecutor, hexplain⟩ := hfields
  obtain ⟨hm₁, hm₂, hm₃, hm₄, hm₅⟩ := hm
  constructor
  · rw [hexplain, hm₁]
  · rw [hstack, hm₂]
  · rw [hexecutor, hm₃]
  · rw [hmemory]
    exact hm₄
  · rw [hmemory]
    exact hm₅

section announced
variable [Number F] [StorageBackend S] [SerdeJson]

/-- An operation is simulated by what its arm is simulated by: announcing it and recording the
stack only touch the trace. -/
theorem next_simulates {op : Op F} {m m' n n' : Sem (Fault F) (VM F S) Unit}
    (hflow : VM.limit.flow op = m >>= fun _ => Pure.pure .next)
    (hsimulated : VM.isSimulated op = false) (hm : Simulates d N m m') (hn : Simulates d N n n') :
    Simulates d N (VM.limit.next op >>= Flow.andThen n) (m' >>= fun _ => n') := by
  simp only [VM.Runner.next, VM.limit_lift, hflow, bind_assoc]
  refine .left (b := false) (fun vm vm' hmatch => ?_) ?_
  · obtain ⟨vm₁, h₁, htrace⟩ := VM.announce_silent hsimulated hmatch.silent
    exact ⟨vm₁, h₁, hmatch.of_untraced htrace⟩
  · simp only [Bool.false_eq_true, if_false, bind_assoc, pure_bind, if_true]
    refine hm.bind fun _ => .left (b := ()) (fun vm vm' hmatch => ?_) hn
    obtain ⟨vm₁, h₁⟩ := VM.recordStackAfter_ok vm
    have htrace : vm₁.untraced = vm.untraced := VM.recordStackAfter_untraced.ok h₁
    exact ⟨vm₁, h₁, hmatch.of_untraced htrace⟩

end announced

end matching

/-! ### Simple operations -/

/-- The operations of the structured fragment without blocks; variables may not be hidden. -/
def Op.Simple {F : Type} (hidden : Set String) : Op F → Prop
  | .push _ | .add | .sub | .mul | .div | .mod | .eq | .gt | .lt | .not | .and | .or | .pop | .dup
  | .swap | .emit _ | .emitEvent _ _ | .nop => True
  | .store name => name ∉ hidden
  | .load name => name ∉ hidden
  | _ => False

section simple
variable {F S α : Type} [Number F] [StorageBackend S]

omit [Number F] [StorageBackend S] in
theorem onStack_definite {x : StackOp F α} (hx : Framing x) :
    (VM.onStack x : Exec F S α).Definite := by
  refine .zoom fun s s' h => ?_
  rcases hx s [] with ⟨_, _, hok, -⟩ | ⟨_, herr⟩
  · cases hok.symm.trans h
  · cases herr.symm.trans h

omit [Number F] [StorageBackend S] in
theorem ofExcept_definite (r : Except (VMError F) α) : (VM.ofExcept r : Exec F S α).Definite := by
  cases r with
  | ok a => exact .pure a
  | error e => exact .fail _

omit [Number F] [StorageBackend S] in
theorem binary_definite
    (f : TypedValue F → TypedValue F → Except (VMError F) (TypedValue F)) :
    (VM.binary f : Exec F S Unit).Definite :=
  (onStack_definite framing_popTwo).bind fun _ => (ofExcept_definite _).bind fun _ =>
    onStack_definite (framing_push _)

omit [Number F] [StorageBackend S] in
theorem unary_definite (f : TypedValue F → Except (VMError F) (TypedValue F)) :
    (VM.unary f : Exec F S Unit).Definite :=
  (onStack_definite framing_pop).bind fun _ => (ofExcept_definite _).bind fun _ =>
    onStack_definite (framing_push _)

/-- The interpreter and the compiled code execute `op` in the same way. -/
def Lowered (S : Type) [StorageBackend S] (hidden : Set String) (op : Op F) : Prop :=
  ∃ (x : Exec F S Unit) (i : BytecodeOp F), VM.executeBasic op = some x ∧
    BytecodeCompiler.instruction op = some i ∧ BytecodeInterpreter.executeOnVm i = some x ∧
    x.Definite ∧ ∀ d : Difference F, d.hidden = hidden → ∀ N, Simulates d N (ends x) (ends x)

theorem simple_lowered {hidden : Set String} {op : Op F} (h : op.Simple hidden) :
    Lowered S hidden op := by
  have hbinary (f : TypedValue F → TypedValue F → Except (VMError F) (TypedValue F)) :
      (VM.binary f : Exec F S Unit).Definite ∧ ∀ d : Difference F, d.hidden = hidden → ∀ N,
        Simulates d N (ends (VM.binary f : Exec F S Unit)) (ends (VM.binary f)) :=
    ⟨binary_definite f, fun _ _ _ => binary_simulates f⟩
  cases op with
  | push v =>
    exact ⟨_, _, rfl, rfl, rfl, onStack_definite (framing_push v),
      fun _ _ _ => onStack_simulates (framing_push v)⟩
  | dup =>
    exact ⟨_, _, rfl, rfl, rfl, onStack_definite framing_dup,
      fun _ _ _ => onStack_simulates framing_dup⟩
  | swap =>
    exact ⟨_, _, rfl, rfl, rfl, onStack_definite framing_swap,
      fun _ _ _ => onStack_simulates framing_swap⟩
  | not => exact ⟨_, _, rfl, rfl, rfl, unary_definite _, fun _ _ _ => unary_simulates _⟩
  | pop =>
    refine ⟨_, _, rfl, rfl, rfl, (onStack_definite framing_pop).bind fun _ => .pure _, ?_⟩
    intro d _ N
    simp only [ends_bind, ends_pure]
    exact (onStack_simulates framing_pop).bind fun _ => .pure _
  | store name =>
    refine ⟨_, _, rfl, rfl, rfl,
      (onStack_definite framing_pop).bind fun _ _ _ hfuel => (by cases hfuel), ?_⟩
    intro d hd N
    rw [ends_bind]
    exact (onStack_simulates framing_pop).bind fun v => store_simulates (hd ▸ h) v
  | load name =>
    refine ⟨_, _, rfl, rfl, rfl,
      Comp.Definite.bind (fun vm => ofExcept_definite _ vm) fun v =>
        onStack_definite (framing_push v), ?_⟩
    intro d hd N
    rw [ends_bind]
    exact (load_simulates (hd ▸ h)).bind fun v => onStack_simulates (framing_push v)
  | emit message =>
    exact ⟨_, _, rfl, rfl, rfl, fun _ _ hfuel => (by cases hfuel),
      fun _ _ _ => onExecutor_simulates _⟩
  | emitEvent category message =>
    exact ⟨_, _, rfl, rfl, rfl, fun _ _ hfuel => (by cases hfuel),
      fun _ _ _ => onExecutor_simulates _⟩
  | nop =>
    refine ⟨_, _, rfl, rfl, rfl, .pure _, fun _ _ _ => ?_⟩
    rw [ends_pure]
    exact .pure _
  | add | sub | mul | div | mod | eq | gt | lt | and | or =>
    exact ⟨_, _, rfl, rfl, rfl, hbinary _⟩
  | _ => cases h

omit [Number F] in
theorem isSimulated_of_simple {op : Op F} {hidden : Set String} (h : op.Simple hidden) :
    VM.isSimulated op = false := by
  cases op <;> first | rfl | cases h

end simple

end Covm
