import Covm.Partial.Views
import Covm.Vm.Calls
import Covm.Vm.Compose

/-!
# Code that computes on the stack

What a piece of code does can be read off the stack and the memory alone, whatever is traced or
explained meanwhile. `effect m op s` is the stack that an operation makes of `s` in the memory `m`,
and `Sends core` connects it to the runs of the VM. A function whose body computes `r` and then
returns leaves `r` twice (`callFunction_of_effects`).
-/

namespace Covm.VM

open Partial

section effects
variable {F S : Type}

def unaryEffect (f : TypedValue F → Except (VMError F) (TypedValue F)) :
    VMStack F → Option (VMStack F)
  | v :: s => (f v).toOption.map (· :: s)
  | [] => none

def binaryEffect (f : TypedValue F → TypedValue F → Except (VMError F) (TypedValue F)) :
    VMStack F → Option (VMStack F)
  | b :: a :: s => (f a b).toOption.map (· :: s)
  | _ => none

theorem unary_of_effect {f : TypedValue F → Except (VMError F) (TypedValue F)} {vm : VM F S}
    {s : VMStack F} (h : unaryEffect f vm.stack = some s) :
    unary f vm = .ok () { vm with stack := s } := by
  obtain ⟨stack, memory, executor, missing, dag, trace, explain, simulation, verbose, tracer⟩ := vm
  rcases stack with _ | ⟨v, stack⟩
  · cases h
  · cases hf : f v with
    | error e =>
      rw [unaryEffect, hf] at h
      cases h
    | ok w =>
      rw [unaryEffect, hf] at h
      cases h
      rw [unary, Comp.bind_of_ok (pop_of_cons rfl), hf]
      rfl

theorem binary_of_effect {f : TypedValue F → TypedValue F → Except (VMError F) (TypedValue F)}
    {vm : VM F S} {s : VMStack F} (h : binaryEffect f vm.stack = some s) :
    binary f vm = .ok () { vm with stack := s } := by
  obtain ⟨stack, memory, executor, missing, dag, trace, explain, simulation, verbose, tracer⟩ := vm
  rcases stack with _ | ⟨b, _ | ⟨a, stack⟩⟩
  · cases h
  · cases h
  · have hpop : (popTwo : Exec F S _) ⟨b :: a :: stack, memory, executor, missing, dag, trace,
        explain, simulation, verbose, tracer⟩ = .ok (a, b) ⟨stack, memory, executor, missing, dag,
        trace, explain, simulation, verbose, tracer⟩ := rfl
    cases hf : f a b with
    | error e =>
      rw [binaryEffect, hf] at h
      cases h
    | ok w =>
      rw [binaryEffect, hf] at h
      cases h
      rw [binary, Comp.bind_of_ok hpop]
      dsimp only
      rw [hf]
      rfl

variable [Number F]

/-- What an operation that only computes on the stack makes of it, if it is one and succeeds. -/
def effect (m : VMMemory F) : Op F → VMStack F → Option (VMStack F)
  | .push v, s => some (v :: s)
  | .load name, s => (m.load name).toOption.map (· :: s)
  | .pop, _ :: s => some s
  | .dup, v :: s => some (v :: v :: s)
  | .swap, b :: a :: s => some (a :: b :: s)
  | .overOp, b :: a :: s => some (a :: b :: a :: s)
  | .negate, s => unaryEffect negate s
  | .not, s => unaryEffect executeLogical s
  | .add, s => binaryEffect (executeArithmetic .add) s
  | .eq, s => binaryEffect (executeComparison .eq) s
  | .gt, s => binaryEffect (executeComparison .gt) s
  | .lt, s => binaryEffect (executeComparison .lt) s
  | .and, s => binaryEffect (executeBinaryLogical .and) s
  | .or, s => binaryEffect (executeBinaryLogical .or) s
  | _, _ => none

def effects (m : VMMemory F) (ops : List (Op F)) (s : VMStack F) : Option (VMStack F) :=
  ops.foldlM (fun s op => effect m op s) s

theorem effect_load {m : VMMemory F} {name : String} {v : TypedValue F} (h : m.load name = .ok v)
    (s : VMStack F) : effect m (.load name) s = some (v :: s) := by
  rw [effect, h]
  rfl

theorem effects_cons (m : VMMemory F) (op : Op F) (ops : List (Op F)) (s : VMStack F) :
    effects m (op :: ops) s = (effect m op s).bind (effects m ops) := rfl

variable [StorageBackend S]

/-- The operations of `effect` run no block, and a simulation does not skip them. -/
theorem exists_of_effect {op : Op F} {vm : VM F S} {s : VMStack F}
    (h : effect vm.memory.1 op vm.stack = some s) :
    ∃ x : Exec F S Unit, executeBasic op = some x ∧ x vm = .ok () { vm with stack := s } := by
  cases op with
  | negate => exact ⟨_, rfl, unary_of_effect h⟩
  | not => exact ⟨_, rfl, unary_of_effect h⟩
  | add => exact ⟨_, rfl, binary_of_effect h⟩
  | eq => exact ⟨_, rfl, binary_of_effect h⟩
  | gt => exact ⟨_, rfl, binary_of_effect h⟩
  | lt => exact ⟨_, rfl, binary_of_effect h⟩
  | and => exact ⟨_, rfl, binary_of_effect h⟩
  | or => exact ⟨_, rfl, binary_of_effect h⟩
  | push v =>
    cases h
    exact ⟨_, rfl, rfl⟩
  | load name =>
    obtain ⟨v, hv, rfl⟩ := Option.map_eq_some_iff.mp h
    have hload : vm.memory.1.load name = .ok v := by
      cases hl : vm.memory.1.load name with
      | error e => rw [hl] at hv; cases hv
      | ok w => rw [hl] at hv; cases hv; rfl
    refine ⟨_, rfl, ?_⟩
    show (ofExcept (vm.memory.1.load name) >>= push) vm = _
    rw [hload]
    rfl
  | pop | dup =>
    obtain ⟨stack, memory, executor, missing, dag, trace, explain, simulation, verbose, tracer⟩ :=
      vm
    rcases stack with _ | ⟨v, stack⟩
    · cases h
    · cases h
      exact ⟨_, rfl, rfl⟩
  | swap | overOp =>
    obtain ⟨stack, memory, executor, missing, dag, trace, explain, simulation, verbose, tracer⟩ :=
      vm
    rcases stack with _ | ⟨b, _ | ⟨a, stack⟩⟩
    · cases h
    · cases h
    · cases h
      exact ⟨_, rfl, rfl⟩
  | _ => cases h

omit [StorageBackend S] in
theorem isSimulated_of_effect {op : Op F} {m : VMMemory F} {s s' : VMStack F}
    (h : effect m op s = some s') : isSimulated op = false := by
  cases op <;> first | rfl | cases h

variable [SerdeJson] {m : Memory F} {s s' : VMStack F} {op : Op F} {ops : List (Op F)}
  {c c' c'' : VMStack F × Memory F}

/-- What stands around an operation does not matter. -/
theorem sends_next {flow : Flow} (hop : isSimulated op = false)
    (h : Sem.Sends core (limit.flow op : Sem _ (VM F S) _) c flow c') :
    Sem.Sends core (limit.next op : Sem _ (VM F S) _) c flow c' := by
  have hannounce : Sem.Sends core (ends (announce op) : Sem _ (VM F S) _) c false c :=
    Sem.sends_ends fun vm hvm => by
      obtain ⟨vm', hannounce, hcore⟩ := announce_ok hop vm
      exact ⟨vm', hannounce, hcore.trans hvm⟩
  have hrecord : Sem.Sends core (ends recordStackAfter : Sem _ (VM F S) _) c' () c' :=
    Sem.sends_ends fun vm hvm => by
      obtain ⟨vm', hrecord⟩ := recordStackAfter_ok vm
      exact ⟨vm', hrecord, (recordStackAfter_core.ok hrecord).trans hvm⟩
  refine hannounce.bind ?_
  rw [if_neg Bool.false_ne_true]
  refine h.bind ?_
  cases flow with
  | next => exact hrecord.bind Sem.sends_pure
  | leave => exact Sem.sends_pure

theorem sends_of_effect (h : effect m.1 op s = some s') :
    Sem.Sends core (limit.next op : Sem _ (VM F S) _) (s, m) .next (s', m) := by
  refine sends_next (isSimulated_of_effect h) fun vm hvm => ?_
  obtain ⟨rfl, rfl⟩ := Prod.mk.inj hvm
  obtain ⟨x, hx, hok⟩ := exists_of_effect h
  refine ⟨{ vm with stack := s' }, ?_, rfl⟩
  rw [flow_of_basic hx]
  exact Sem.bind_ok hok rfl

/-! ### Lists -/

theorem sends_runFlow_cons {flow : Flow}
    (hop : Sem.Sends core (limit.next op : Sem _ (VM F S) _) c .next c')
    (hops : Sem.Sends core (runFlow ops : Sem _ (VM F S) _) c' flow c'') :
    Sem.Sends core (runFlow (op :: ops) : Sem _ (VM F S) _) c flow c'' := hop.bind hops

theorem sends_runFlow_append {ops' : List (Op F)} {flow : Flow}
    (hops : Sem.Sends core (runFlow ops : Sem _ (VM F S) _) c .next c')
    (hops' : Sem.Sends core (runFlow ops' : Sem _ (VM F S) _) c' flow c'') :
    Sem.Sends core (runFlow (ops ++ ops') : Sem _ (VM F S) _) c flow c'' := by
  rw [runFlow_append]
  exact hops.bind hops'

theorem sends_of_effects (h : effects m.1 ops s = some s') :
    Sem.Sends core (runFlow ops : Sem _ (VM F S) _) (s, m) .next (s', m) := by
  induction ops generalizing s with
  | nil =>
    cases h
    exact Sem.sends_pure
  | cons op ops ih =>
    obtain ⟨s₁, hop, hops⟩ := Option.bind_eq_some_iff.mp h
    exact sends_runFlow_cons (sends_of_effect hop) (ih hops)

theorem sends_run (h : Sem.Sends core (runFlow ops : Sem _ (VM F S) _) c .next c') :
    Sem.Sends core (run ops : Sem _ (VM F S) _) c () c' := by
  rw [run_eq_runFlow]
  exact h.bind Sem.sends_pure

theorem sends_test {v : TypedValue F}
    (h : Sem.Sends core (run ops : Sem _ (VM F S) _) c () (v :: s, m)) :
    Sem.Sends core (limit.test ops : Sem _ (VM F S) _) c (!v.isFalsey) (s, m) := by
  have hpop : Sem.Sends core (ends pop : Sem _ (VM F S) _) (v :: s, m) v (s, m) :=
    Sem.sends_ends fun vm hvm => by
      obtain ⟨hs, rfl⟩ := Prod.mk.inj hvm
      exact ⟨_, pop_of_cons hs, rfl⟩
  exact h.bind (hpop.bind Sem.sends_pure)

/-- An `if` without a condition takes the value on top of the stack. -/
theorem sends_ifOp {v : TypedValue F} {thenOps : List (Op F)} {elseOps : Option (List (Op F))}
    (h : Sem.Sends core (limit.optional (if v.isFalsey then elseOps else some thenOps) :
      Sem _ (VM F S) _) (s, m) () c) :
    Sem.Sends core (limit.next (.ifOp [] thenOps elseOps) : Sem _ (VM F S) _) (v :: s, m) .next
      c := by
  have hblock : Sem.Sends core (run [] : Sem _ (VM F S) _) (v :: s, m) () (v :: s, m) := by
    rw [run_nil]
    exact Sem.sends_pure
  have hchosen : Sem.Sends core
      (limit.optional (if (!v.isFalsey) = true then some thenOps else elseOps) : Sem _ (VM F S) _)
      (s, m) () c := by
    cases hv : v.isFalsey with
    | true => simpa [hv] using h
    | false => simpa [hv] using h
  exact sends_next rfl ((sends_test hblock).bind (hchosen.bind Sem.sends_pure))

end effects

/-! ### Calls -/

section calls
variable {F S : Type} {m : Memory F} {base : VMStack F} {name : String}

/-- Names and the values they are bound to, both last to first. -/
def bindArguments : List String → VMStack F → HashMap (TypedValue F) → HashMap (TypedValue F)
  | name :: names, v :: args, values => bindArguments names args (values.insert name v)
  | _, _, values => values

theorem popArguments_eq {names : List String} {args : VMStack F} (hn : args.length = names.length)
    (values : HashMap (TypedValue F)) {vm : VM F S} (hs : vm.stack = args ++ base) :
    popArguments names values vm =
      .ok (bindArguments names args values) { vm with stack := base } := by
  induction names generalizing args values vm with
  | nil =>
    obtain rfl : args = [] := List.length_eq_zero_iff.mp hn
    rw [List.nil_append] at hs
    rw [← hs]
    rfl
  | cons name names ih =>
    obtain ⟨v, args, rfl⟩ := List.exists_cons_of_length_eq_add_one hn
    rw [popArguments, Comp.bind_of_ok (pop_of_cons hs)]
    exact ih (Nat.succ.inj hn) _ rfl

/-- The memory inside of a call. -/
def enter (m : Memory F) (name : String) (values : HashMap (TypedValue F)) : Memory F :=
  ⟨m.1.pushCallFrame name values, m.2.pushCallFrame name values⟩

theorem load_enter {values : HashMap (TypedValue F)} {x : String} {v : TypedValue F}
    (h : values.lookup x = some v) : (enter m name values).1.load x = .ok v := by
  have hf : (enter m name values).1.callFrames = m.1.callFrames ++ [⟨∅, values, none, name⟩] := rfl
  rw [VMMemory.load_of_frame (enter m name values).2 hf]
  simp [h]

variable {params : List String} {body : List (Op F)} {args : VMStack F}
  (hf : m.1.functions.lookup name = some (params, body)) (hn : args.length = params.length)
include hf hn

theorem sends_enterCall : Sem.Sends core (ends (enterCall name) : Sem _ (VM F S) _)
    (args ++ base, m) body (base, enter m name (bindArguments params.reverse args ∅)) := by
  refine Sem.sends_ends fun vm hvm => ?_
  obtain ⟨hs, rfl⟩ := Prod.mk.inj hvm
  have hget : getFunction name vm = .ok (params, body) vm := by
    simp only [getFunction, VMMemory.getFunction, hf]
    rfl
  refine ⟨{ vm with
    stack := base
    memory := enter vm.memory name (bindArguments params.reverse args ∅) }, ?_, rfl⟩
  rw [enterCall, Comp.bind_of_ok hget]
  show (popArguments params.reverse ∅ >>= fun _ => _ : Exec F S _) vm = _
  rw [Comp.bind_of_ok (popArguments_eq (by simpa using hn) ∅ hs)]
  rfl

omit hf hn

/-- The memory of a call that has come to its `Return`. -/
def returning (m : Memory F) (name : String) (values : HashMap (TypedValue F)) (r : TypedValue F) :
    Memory F where
  val := { m.1.pushCallFrame name values with
    callFrames := m.1.callFrames ++ [⟨∅, values, some r, name⟩] }
  property := by
    have hframed := m.2.pushCallFrame name values
    simpa [VMMemory.Framed, VMMemory.pushCallFrame] using hframed

variable {values : HashMap (TypedValue F)} {r : TypedValue F} {s : VMStack F}

theorem sends_executeReturn : Sem.Sends core (ends executeReturn : Sem _ (VM F S) _)
    (r :: s, enter m name values) () (r :: s, returning m name values r) := by
  refine Sem.sends_ends fun vm hvm => ?_
  obtain ⟨hs, hmemory⟩ := Prod.mk.inj hvm
  have hframes : vm.memory.1.callFrames = m.1.callFrames ++ [⟨∅, values, none, name⟩] := by
    rw [hmemory]
    rfl
  have hin : vm.memory.1.inFunctionCall = true := vm.memory.2.inFunctionCall_iff.mpr ⟨_, _, hframes⟩
  obtain ⟨hm, hset⟩ := setReturnValue_of_frame hframes r
  have hreturn : executeReturn vm = setReturnValue r vm := by
    rw [executeReturn, Comp.bind_of_ok (show (get : Exec F S _) vm = .ok vm vm from rfl)]
    simp [hin, hs, VMStack.top]
  have hreturning : (⟨_, hm⟩ : Memory F) = returning m name values r :=
    Subtype.ext (by simp only [hmemory]; rfl)
  refine ⟨{ vm with memory := returning m name values r }, ?_, by rw [core, hs]⟩
  rw [hreturn, hset, hreturning]

/-- What is left of a call is its return value. -/
theorem sends_exitCall : Sem.Sends core (ends (exitCall name) : Sem _ (VM F S) _)
    (s, returning m name values r) () (r :: s, m) := by
  refine Sem.sends_ends fun vm hvm => ?_
  obtain ⟨hs, hmemory⟩ := Prod.mk.inj hvm
  have hpop : popCallFrame vm = .ok (some ⟨∅, values, some r, name⟩) { vm with memory := m } := by
    have hleave : (returning m name values r).1.popCallFrame =
        (some ⟨∅, values, some r, name⟩, m.1) := by
      simp [returning, VMMemory.popCallFrame, VMMemory.pushCallFrame]
    simp only [popCallFrame, hmemory, hleave]
  refine ⟨{ vm with stack := r :: s, memory := m }, ?_, rfl⟩
  rw [exitCall, Comp.bind_of_ok hpop, ← hs]
  rfl

variable [Number F] [StorageBackend S] [SerdeJson]

/-- A function whose code computes `r` and then returns leaves `r` twice. -/
theorem sends_call {code : List (Op F)}
    (hf : m.1.functions.lookup name = some (params, code ++ [.returnOp]))
    (hn : args.length = params.length)
    (hcode : Sem.Sends core (runFlow code : Sem _ (VM F S) _)
      (base, enter m name (bindArguments params.reverse args ∅)) .next
      (r :: s, enter m name (bindArguments params.reverse args ∅))) :
    Sem.Sends core (limit.next (.call name) : Sem _ (VM F S) _) (args ++ base, m) .next
      (r :: r :: s, m) := by
  have hreturn : Sem.Sends core (run [.returnOp] : Sem _ (VM F S) _)
      (r :: s, enter m name (bindArguments params.reverse args ∅)) ()
      (r :: s, returning m name (bindArguments params.reverse args ∅) r) := by
    rw [run_cons]
    have hflow : Sem.Sends core (limit.flow .returnOp : Sem _ (VM F S) _) (r :: s, enter m name _)
        .leave (r :: s, returning m name (bindArguments params.reverse args ∅) r) :=
      sends_executeReturn.bind Sem.sends_pure
    exact (sends_next rfl hflow).bind Sem.sends_pure
  have hbody : Sem.Sends core (run (code ++ [Op.returnOp]) : Sem _ (VM F S) _)
      (base, enter m name (bindArguments params.reverse args ∅)) ()
      (r :: s, returning m name (bindArguments params.reverse args ∅) r) := by
    rw [run_append]
    exact hcode.bind hreturn
  exact sends_next rfl ((sends_enterCall hf hn).bind
    (hbody.bind (sends_exitCall.bind Sem.sends_pure)))

end calls

end Covm.VM
