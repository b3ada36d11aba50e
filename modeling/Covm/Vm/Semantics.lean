import Covm.Vm.Interp

/-!
# The meaning of a program

`VM.run ops` is what `execute` computes with enough fuel. It satisfies the equations one reads off
the source: a list runs its operations in order until one leaves it (`run_cons`), and each
operation is `flow limit op`, where a `Loop` is a repetition and a `While` the loop of
`Sem.whileDo`. The loop control signal drops out (`executeOps_cons`): whenever a loop reads it, it
is still `None`.

The operations are written once over a `Runner`, which says how blocks and `While` loops are run:
with fuel (`fuelled n`) or to the end (`limit`).
-/

namespace Covm

open Partial

/-- Goes on with `k` unless the list was left. -/
def Flow.andThen {M : Type → Type} [Monad M] (k : M Unit) : Flow → M Unit
  | .next => k
  | .leave => pure ()

namespace VM

variable {F S : Type}

/-- How an interpreter runs a block, an unbounded loop, and the operations without blocks. -/
structure Runner (F S : Type) (M : Type → Type) where
  block : List (Op F) → M Unit
  loopWhile : M Bool → M Unit → M Unit
  lift : {α : Type} → Exec F S α → M α

section runner
variable [Number F]

/-- What precedes the `match op`; `true` if the operation is only simulated. -/
def announce (op : Op F) : Exec F S Bool := do
  logTrace op
  logExplanation op
  if (← get).simulationMode && isSimulated op then
    simulate op
    return true
  else return false

variable {M : Type → Type} [Monad M] (R : Runner F S M)

namespace Runner

def test (condition : List (Op F)) : M Bool := do
  R.block condition
  let value ← R.lift pop
  return !value.isFalsey

def optional : Option (List (Op F)) → M Unit
  | some ops => R.block ops
  | none => pure ()

variable [StorageBackend S] [SerdeJson]

def flow : Op F → M Flow
  | .ifOp condition thenOps elseOps => do
    let holds ← R.test condition
    R.optional (if holds then some thenOps else elseOps)
    return .next
  | .loop count body => do
    repeatM (R.block body) count
    return .next
  | .whileOp condition body => do
    R.loopWhile (R.test condition) (R.block body)
    return .next
  | .matchOp value cases default => do
    R.block value
    let matchValue ← R.lift pop
    R.optional (selectCase matchValue cases default)
    return .next
  | .call name => do
    let body ← R.lift (enterCall name)
    R.block body
    R.lift (exitCall name)
    return .next
  | .returnOp => do
    R.lift executeReturn
    return .leave
  | .breakOp => return .leave
  | .continueOp => return .leave
  | op => R.lift (executePlain op)

/-- One operation with what stands around it. -/
def next (op : Op F) : M Flow := do
  if ← R.lift (announce op) then return .next
  else
    let flow ← R.flow op
    if flow = .next then R.lift recordStackAfter
    return flow

/-- Two runners whose parts are related do related things. -/
structure Related {M' : Type → Type} [Monad M'] (rel : ∀ α : Type, M α → M' α → Prop)
    (R : Runner F S M) (R' : Runner F S M') : Prop where
  pure {α : Type} (a : α) : rel α (pure a) (pure a)
  bind {α β : Type} {x : M α} {y : M' α} {f : α → M β} {g : α → M' β} :
    rel α x y → (∀ a, rel β (f a) (g a)) → rel β (x >>= f) (y >>= g)
  block (ops : List (Op F)) : rel Unit (R.block ops) (R'.block ops)
  loopWhile {test : M Bool} {test' : M' Bool} {body : M Unit} {body' : M' Unit} :
    rel Bool test test' → rel Unit body body' →
      rel Unit (R.loopWhile test body) (R'.loopWhile test' body')
  pop : rel _ (R.lift pop) (R'.lift pop)
  enterCall (name : String) : rel _ (R.lift (enterCall name)) (R'.lift (enterCall name))
  exitCall (name : String) : rel _ (R.lift (exitCall name)) (R'.lift (exitCall name))
  executeReturn : rel _ (R.lift executeReturn) (R'.lift executeReturn)
  executePlain (op : Op F) : rel _ (R.lift (executePlain op)) (R'.lift (executePlain op))

namespace Related
variable {M' : Type → Type} [Monad M'] {rel : ∀ α : Type, M α → M' α → Prop}
  {R : Runner F S M} {R' : Runner F S M'} (h : Related rel R R')
include h

theorem repeatM {x : M Unit} {y : M' Unit} (hxy : rel Unit x y) (n : Nat) :
    rel Unit (Partial.repeatM x n) (Partial.repeatM y n) := by
  induction n with
  | zero => exact h.pure ()
  | succ n ih => exact h.bind hxy fun _ => ih

theorem test (condition : List (Op F)) : rel Bool (R.test condition) (R'.test condition) :=
  h.bind (h.block condition) fun _ => h.bind h.pop fun _ => h.pure _

theorem optional (ops : Option (List (Op F))) : rel Unit (R.optional ops) (R'.optional ops) := by
  cases ops with
  | none => exact h.pure ()
  | some ops => exact h.block ops

theorem flow (op : Op F) : rel Flow (R.flow op) (R'.flow op) := by
  have hplain := h.executePlain op
  cases op with
  | ifOp condition thenOps elseOps =>
    exact h.bind (h.test condition) fun _ => h.bind (h.optional _) fun _ => h.pure _
  | loop count body => exact h.bind (h.repeatM (h.block body) count) fun _ => h.pure _
  | whileOp condition body =>
    exact h.bind (h.loopWhile (h.test condition) (h.block body)) fun _ => h.pure _
  | matchOp value cases default =>
    exact h.bind (h.block value) fun _ => h.bind h.pop fun _ =>
      h.bind (h.optional _) fun _ => h.pure _
  | call name =>
    exact h.bind (h.enterCall name) fun body => h.bind (h.block body) fun _ =>
      h.bind (h.exitCall name) fun _ => h.pure _
  | returnOp => exact h.bind h.executeReturn fun _ => h.pure _
  | breakOp => exact h.pure _
  | continueOp => exact h.pure _
  | _ => exact hplain

/-- With what stands around an operation, if that is related too. -/
theorem next (hannounce : ∀ op, rel Bool (R.lift (announce op)) (R'.lift (announce op)))
    (hrecord : rel Unit (R.lift recordStackAfter) (R'.lift recordStackAfter)) (op : Op F) :
    rel Flow (R.next op) (R'.next op) := by
  refine h.bind (hannounce op) fun simulated => ?_
  cases simulated with
  | true => exact h.pure _
  | false =>
    refine h.bind (h.flow op) fun flow => ?_
    cases flow with
    | next => exact h.bind hrecord fun _ => h.pure _
    | leave => exact h.pure _

end Related

end Runner

end runner

/-! ### The loop control signal -/

theorem executeLoop_none (body : Exec F S Unit) (count : Nat) :
    executeLoop body count .none = repeatM body count >>= fun _ => pure .none := by
  induction count with
  | zero => simp [executeLoop]
  | succ count ih => simp [executeLoop, repeatM_succ, ih]

theorem executeWhile_none [Number F] (condition body : Exec F S Unit) (fuel : Nat) :
    executeWhile condition body fuel .none =
      whileFuel (executeCondition condition) body fuel >>= fun _ => pure .none := by
  induction fuel with
  | zero => rfl
  | succ fuel ih =>
    simp only [executeWhile, whileFuel, ih, bind_assoc]
    refine congrArg _ (funext fun b => ?_)
    cases b <;> simp

section fuel
variable [Number F] [StorageBackend S] [SerdeJson]

/-- Runs everything with the given amount of fuel. -/
def fuelled (fuel : Nat) : Runner F S (Comp (Fault F) (VM F S)) where
  block := executeInner fuel
  loopWhile test body := whileFuel test body fuel
  lift x := x

@[simp] theorem fuelled_block (fuel : Nat) (ops : List (Op F)) :
    (fuelled fuel : Runner F S _).block ops = executeInner fuel ops := rfl

@[simp] theorem fuelled_lift {α : Type} (fuel : Nat) (x : Exec F S α) :
    (fuelled fuel).lift x = x := rfl

@[simp] theorem fuelled_loopWhile (fuel : Nat) (test : Exec F S Bool) (body : Exec F S Unit) :
    (fuelled fuel).loopWhile test body = whileFuel test body fuel := rfl

@[simp] theorem fuelled_optional (fuel : Nat) (ops : Option (List (Op F))) :
    (fuelled fuel : Runner F S _).optional ops = executeOptional (executeInner fuel) ops := by
  cases ops <;> rfl

theorem fuelled_test (fuel : Nat) (condition : List (Op F)) :
    (fuelled fuel : Runner F S _).test condition =
      executeCondition (executeInner fuel condition) := rfl

/-- The loop control after an operation that started with none. -/
def signal : Op F → LoopControl
  | .breakOp => .brk
  | .continueOp => .cont
  | _ => .none

theorem executeOp_none (fuel : Nat) (op : Op F) :
    executeOp (executeInner fuel) fuel .none op =
      (fuelled fuel : Runner F S _).flow op >>= fun flow => pure (flow, signal op) := by
  cases op with
  | ifOp condition thenOps elseOps => simp [executeOp, Runner.flow, signal, fuelled_test]
  | loop count body => simp [executeOp, Runner.flow, signal, executeLoop_none]
  | whileOp condition body =>
    simp [executeOp, Runner.flow, signal, executeWhile_none, fuelled_test]
  | matchOp value cases default => simp [executeOp, Runner.flow, signal]
  | call name => simp [executeOp, Runner.flow, signal, executeCall]
  | returnOp => simp [executeOp, Runner.flow, signal]
  | breakOp => rfl
  | continueOp => rfl
  | _ => rfl

theorem executeNext_none (fuel : Nat) (op : Op F) :
    executeNext (executeInner fuel) fuel .none op =
      (fuelled fuel : Runner F S _).next op >>= fun flow => pure (flow, signal op) := by
  have hs : isSimulated op = true → signal op = .none := by
    cases op <;> simp [isSimulated, signal]
  simp only [executeNext, Runner.next, announce, executeOp_none, fuelled_lift, bind_assoc]
  refine congrArg _ (funext fun _ => congrArg _ (funext fun _ => congrArg _ (funext fun vm => ?_)))
  by_cases h : (vm.simulationMode && isSimulated op) = true
  · simp [h, hs (Bool.and_eq_true_iff.mp h).2]
  · simp only [h, Bool.false_eq_true, if_false, pure_bind, bind_assoc]
    refine congrArg _ (funext fun flow => ?_)
    cases flow <;> simp

/-- An operation that sets the signal leaves its list. -/
theorem next_of_signal (fuel : Nat) {op : Op F} (h : signal op ≠ .none) :
    (fuelled fuel : Runner F S _).next op = do
      logTrace op
      logExplanation op
      return .leave := by
  cases op with
  | breakOp => simp [Runner.next, announce, isSimulated, Runner.flow]
  | continueOp => simp [Runner.next, announce, isSimulated, Runner.flow]
  | _ => exact absurd rfl h

theorem executeOps_cons (fuel : Nat) (op : Op F) (ops : List (Op F)) :
    executeOps (executeInner fuel) fuel .none (op :: ops) =
      (fuelled fuel : Runner F S _).next op >>= fun flow =>
        flow.andThen (executeOps (executeInner fuel) fuel .none ops) := by
  simp only [executeOps, executeNext_none, bind_assoc, pure_bind]
  by_cases h : signal op = .none
  · rw [h]
    rfl
  · simp [next_of_signal fuel h, Flow.andThen]

/-! ### More fuel -/

theorem fuelled_related {n : Nat} (h : ∀ ops, Comp.Le (executeInner n ops : Exec F S Unit)
    (executeInner (n + 1) ops)) :
    Runner.Related (fun _ => Comp.Le) (fuelled n : Runner F S _) (fuelled (n + 1)) where
  pure _ := .refl _
  bind hx hf := hx.bind hf
  block := h
  loopWhile ht hb := ht.whileFuel hb (Nat.le_succ n)
  pop := .refl _
  enterCall _ := .refl _
  exitCall _ := .refl _
  executeReturn := .refl _
  executePlain _ := .refl _

theorem next_le {n : Nat} (h : ∀ ops, Comp.Le (executeInner n ops : Exec F S Unit)
    (executeInner (n + 1) ops)) (op : Op F) :
    Comp.Le ((fuelled n : Runner F S _).next op) ((fuelled (n + 1)).next op) :=
  (fuelled_related h).next (fun _ => .refl _) (.refl _) op

theorem executeInner_le (n : Nat) (ops : List (Op F)) :
    Comp.Le (executeInner n ops : Exec F S Unit) (executeInner (n + 1) ops) := by
  induction n generalizing ops with
  | zero => exact .outOfFuel _
  | succ n ih =>
    show Comp.Le (executeOps (executeInner n) n .none ops)
      (executeOps (executeInner (n + 1)) (n + 1) .none ops)
    induction ops with
    | nil => exact .refl _
    | cons op ops ihops =>
      rw [executeOps_cons, executeOps_cons]
      refine (next_le ih op).bind fun flow => ?_
      cases flow with
      | next => exact ihops
      | leave => exact .refl _

theorem executeInner_chain (ops : List (Op F)) :
    Chain fun n => (executeInner n ops : Exec F S Unit) :=
  .of_succ fun n => executeInner_le n ops

/-! ### The limit -/

/-- What `execute` computes with enough fuel. -/
def run (ops : List (Op F)) : Sem (Fault F) (VM F S) Unit := lim fun n => execute n ops

/-- Runs everything to its end. -/
def limit : Runner F S (Sem (Fault F) (VM F S)) where
  block := run
  loopWhile := Sem.whileDo
  lift := ends

@[simp] theorem limit_block (ops : List (Op F)) :
    (limit : Runner F S _).block ops = run ops := rfl

@[simp] theorem limit_lift {α : Type} (x : Exec F S α) : limit.lift x = ends x := rfl

@[simp] theorem limit_loopWhile (test : Sem (Fault F) (VM F S) Bool)
    (body : Sem (Fault F) (VM F S) Unit) : limit.loopWhile test body = Sem.whileDo test body := rfl

theorem run_tends (ops : List (Op F)) :
    Tends (fun n => (executeInner n ops : Exec F S Unit)) (run ops) :=
  ⟨executeInner_chain ops, rfl⟩

theorem run_functional (ops : List (Op F)) : (run ops : Sem _ (VM F S) _).Functional :=
  (run_tends ops).functional

theorem test_tends (condition : List (Op F)) :
    Tends (fun n => (fuelled n : Runner F S _).test condition) (limit.test condition) :=
  (run_tends condition).bind fun _ => (Tends.const _).bind fun _ => Tends.pure _

theorem optional_tends (ops : Option (List (Op F))) :
    Tends (fun n => (fuelled n : Runner F S _).optional ops) (limit.optional ops) := by
  cases ops with
  | none => exact Tends.pure _
  | some ops => exact run_tends ops

theorem flow_tends (op : Op F) :
    Tends (fun n => (fuelled n : Runner F S _).flow op) (limit.flow op) := by
  cases op with
  | ifOp condition thenOps elseOps =>
    exact (test_tends condition).bind fun _ => (optional_tends _).bind fun _ => .pure _
  | loop count body => exact ((run_tends body).repeatM count).bind fun _ => .pure _
  | whileOp condition body =>
    exact ((test_tends condition).whileFuel (run_tends body)).bind fun _ => .pure _
  | matchOp value cases default =>
    exact (run_tends value).bind fun _ => (Tends.const _).bind fun _ =>
      (optional_tends _).bind fun _ => .pure _
  | call name =>
    exact (Tends.const _).bind fun body => (run_tends body).bind fun _ =>
      (Tends.const _).bind fun _ => .pure _
  | returnOp => exact (Tends.const _).bind fun _ => .pure _
  | breakOp => exact .pure _
  | continueOp => exact .pure _
  | _ => exact .const _

theorem next_tends (op : Op F) :
    Tends (fun n => (fuelled n : Runner F S _).next op) (limit.next op) := by
  refine (Tends.const _).bind fun simulated => ?_
  cases simulated with
  | true => exact .pure _
  | false =>
    refine (flow_tends op).bind fun flow => ?_
    cases flow with
    | next => exact (Tends.const _).bind fun _ => .pure _
    | leave => exact .pure _

theorem executeOps_tends (ops : List (Op F)) :
    Tends (fun n => (executeOps (executeInner n) n .none ops : Exec F S Unit)) (run ops) where
  chain _ _ hnm := executeInner_chain ops (Nat.succ_le_succ hnm)
  lim_eq := lim_succ (executeInner_chain ops)

theorem run_nil : (run [] : Sem (Fault F) (VM F S) Unit) = pure () :=
  (executeOps_tends []).lim_eq.symm.trans (Tends.pure ()).lim_eq

theorem run_cons (op : Op F) (ops : List (Op F)) :
    (run (op :: ops) : Sem (Fault F) (VM F S) Unit) =
      limit.next op >>= fun flow => flow.andThen (run ops) := by
  have h : Tends (fun n => (fuelled n : Runner F S _).next op >>= fun flow =>
      flow.andThen (executeOps (executeInner n) n .none ops))
      (limit.next op >>= fun flow => flow.andThen (run ops)) := by
    refine (next_tends op).bind fun flow => ?_
    cases flow with
    | next => exact executeOps_tends ops
    | leave => exact .pure _
  rw [← h.lim_eq, ← (executeOps_tends (op :: ops)).lim_eq]
  simp only [executeOps_cons]

/-! ### Calls -/

/-- What `execute_call` computes with enough fuel. -/
def callFunction (name : String) : Sem (Fault F) (VM F S) Unit :=
  lim fun n => executeCall (executeInner n) name

theorem callFunction_eq (name : String) : (callFunction name : Sem (Fault F) (VM F S) Unit) =
    ends (enterCall name) >>= fun body => run body >>= fun _ => ends (exitCall name) :=
  ((Tends.const _).bind fun body => (run_tends body).bind fun _ => .const _).lim_eq

theorem callFunction_functional (name : String) :
    (callFunction name : Sem (Fault F) (VM F S) Unit).Functional :=
  ((Tends.const (enterCall name)).bind fun body => (run_tends body).bind fun _ =>
    .const (exitCall name)).chain.functional

/-! ### Operations without blocks -/

theorem flow_of_basic {op : Op F} {x : Exec F S Unit} (h : executeBasic op = some x) :
    limit.flow op = ends x >>= fun _ => pure .next := by
  have hplain : limit.flow op = ends (executePlain op : Exec F S Flow) := by
    cases op <;> first | rfl | cases h
  rw [hplain, executePlain_of_basic h, ends_bind]
  simp only [ends_pure]

theorem next_of_basic {op : Op F} {x : Exec F S Unit} (h : executeBasic op = some x) :
    limit.next op = ends (announce op) >>= fun simulated =>
      if simulated then pure .next
      else ends x >>= fun _ => ends recordStackAfter >>= fun _ => pure .next := by
  simp [Runner.next, flow_of_basic h]

end fuel

end VM

end Covm
