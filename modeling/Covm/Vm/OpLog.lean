import Covm.Partial.Ghost
import Covm.Vm.Effects

/-!
# What a run executes

An interpreter that keeps a log beside the VM: each operation it executes, in the order in which
they begin, with the stack right before and right after it. The operations that a block executes
stand below the block's own entry. Without the log it is the interpreter (`run_iff_executed`).
-/

namespace Covm

open Partial Comp

/-- The operations executed in a row; `inner` are those that an operation executed itself.
`completed` tells whether the interpreter goes on with the list behind the operation. -/
inductive OpLog (F : Type) where
  | nil
  | entry (op : Op F) (before after : VMStack F) (completed : Bool) (inner rest : OpLog F)

namespace OpLog

variable {F : Type}

def append : OpLog F → OpLog F → OpLog F
  | nil, log => log
  | entry op before after completed inner rest, log =>
    entry op before after completed inner (rest.append log)

instance : Append (OpLog F) := ⟨append⟩

@[simp] theorem nil_append (log : OpLog F) : nil ++ log = log := rfl

@[simp] theorem entry_append (op : Op F) (before after : VMStack F) (completed : Bool)
    (inner rest log : OpLog F) :
    entry op before after completed inner rest ++ log =
      entry op before after completed inner (rest ++ log) := rfl

@[simp] theorem append_nil (log : OpLog F) : log ++ nil = log := by
  induction log with
  | nil => rfl
  | entry op before after completed inner rest _ ih => rw [entry_append, ih]

theorem append_assoc (log log' log'' : OpLog F) : log ++ log' ++ log'' = log ++ (log' ++ log'') := by
  induction log with
  | nil => rfl
  | entry op before after completed inner rest _ ih =>
    rw [entry_append, entry_append, entry_append, ih]

/-- The faithful trace: one frame for each operation. -/
def frames : OpLog F → List (TypedTraceFrame F)
  | nil => []
  | entry op before after _ inner rest => ⟨op, before, after⟩ :: inner.frames ++ rest.frames

end OpLog

namespace VM

variable {F S : Type}

/-- Computations of the VM that log what they execute. -/
abbrev Logged (F S α : Type) := Comp (Fault F) (VM F S × OpLog F) α

section logged
variable [Number F]

/-- Runs blocks as `block` does, and everything else without a log. -/
def loggedRunner (fuel : Nat) (block : List (Op F) → Logged F S Unit) :
    Runner F S (Comp (Fault F) (VM F S × OpLog F)) where
  block := block
  loopWhile test body := whileFuel test body fuel
  lift := beside

variable [StorageBackend S] [SerdeJson]

/-- One operation, and its entry in the log. -/
def nextLogged (R : Runner F S (Comp (Fault F) (VM F S × OpLog F))) (op : Op F) :
    Logged F S Flow := fun (vm, log) =>
  match R.next op (vm, .nil) with
  | .ok flow (vm', inner) =>
    .ok flow (vm', log ++ .entry op vm.stack vm'.stack
      (decide (flow = .next) && !(vm.simulationMode && isSimulated op)) inner .nil)
  | .error e (vm', inner) => .error e (vm', log ++ .entry op vm.stack vm'.stack false inner .nil)

def opsLogged (R : Runner F S (Comp (Fault F) (VM F S × OpLog F))) :
    List (Op F) → Logged F S Unit
  | [] => pure ()
  | op :: ops => nextLogged R op >>= fun flow => flow.andThen (opsLogged R ops)

def executeLogged : Nat → List (Op F) → Logged F S Unit
  | 0, _ => Comp.outOfFuel
  | fuel + 1, ops => opsLogged (loggedRunner fuel (executeLogged fuel)) ops

/-- The run of `ops` from `vm` to `vm'` executes what `log` says. -/
def Executed (ops : List (Op F)) (vm vm' : VM F S) (log : OpLog F) : Prop :=
  ∃ fuel, executeLogged fuel ops (vm, .nil) = .ok () (vm', log)

/-! ## Without the log -/

section erases
variable {n : Nat} {block : List (Op F) → Logged F S Unit}
  (h : ∀ ops, Erases (block ops) (executeInner n ops))
include h

theorem logged_erases :
    Runner.Related (fun _ => Erases) (loggedRunner n block : Runner F S _) (fuelled n) where
  pure := .pure
  bind hx hf := hx.bind hf
  block := h
  loopWhile ht hb := ht.whileFuel hb n
  pop := .beside _
  enterCall _ := .beside _
  exitCall _ := .beside _
  executeReturn := .beside _
  executePlain _ := .beside _

theorem nextLogged_erases (op : Op F) :
    Erases (nextLogged (loggedRunner n block) op) ((fuelled n : Runner F S _).next op) := by
  intro vm log
  have hnext := (logged_erases h).next (fun _ => .beside _) (.beside _) op vm .nil
  rw [← hnext]
  unfold nextLogged
  dsimp only
  cases (loggedRunner n block).next op (vm, .nil) with
  | ok flow p => rfl
  | error e p => rfl

theorem opsLogged_erases (ops : List (Op F)) :
    Erases (opsLogged (loggedRunner n block) ops)
      (executeOps (executeInner n) n .none ops : Exec F S Unit) := by
  induction ops with
  | nil => exact .pure ()
  | cons op ops ih =>
    rw [executeOps_cons]
    refine (nextLogged_erases h op).bind fun flow => ?_
    cases flow with
    | next => exact ih
    | leave => exact .pure ()

end erases

theorem executeLogged_erases (n : Nat) (ops : List (Op F)) :
    Erases (executeLogged n ops) (executeInner n ops : Exec F S Unit) := by
  induction n generalizing ops with
  | zero => exact .outOfFuel
  | succ n ih => exact opsLogged_erases ih ops

/-- Every run that ends with `Ok` has a log. -/
theorem run_iff_executed {ops : List (Op F)} {vm vm' : VM F S} :
    run ops vm (.ok () vm') ↔ ∃ log, Executed ops vm vm' log := by
  constructor
  · rintro ⟨n, h⟩
    obtain ⟨log, hlog⟩ := (executeLogged_erases n ops).ok_iff.mp h
    exact ⟨log, n, hlog⟩
  · rintro ⟨log, n, h⟩
    exact ⟨n, (executeLogged_erases n ops).ok_iff.mpr ⟨log, h⟩⟩

/-! ## One log -/

section more
variable {n : Nat} {block block' : List (Op F) → Logged F S Unit}
  (h : ∀ ops, Comp.Le (block ops) (block' ops))
include h

theorem logged_related : Runner.Related (fun _ => Comp.Le) (loggedRunner n block : Runner F S _)
    (loggedRunner (n + 1) block') where
  pure _ := .refl _
  bind hx hf := hx.bind hf
  block := h
  loopWhile ht hb := ht.whileFuel hb (Nat.le_succ n)
  pop := .refl _
  enterCall _ := .refl _
  exitCall _ := .refl _
  executeReturn := .refl _
  executePlain _ := .refl _

theorem nextLogged_le (op : Op F) :
    Comp.Le (nextLogged (loggedRunner n block) op) (nextLogged (loggedRunner (n + 1) block') op) := by
  rintro ⟨vm, log⟩ r hr
  have hnext := (logged_related (n := n) h).next (fun _ => .refl _) (.refl _) op (vm, .nil)
  unfold nextLogged at hr ⊢
  dsimp only at hr ⊢
  cases hop : (loggedRunner n block).next op (vm, .nil) with
  | ok flow p =>
    rw [hop] at hr
    rw [hnext (.ok flow p) hop]
    exact hr
  | error e p =>
    rw [hop] at hr
    cases e with
    | fuel => exact absurd hr fuel_ne_embed
    | fault e =>
      rw [hnext (.error e p) hop]
      exact hr

theorem opsLogged_le (ops : List (Op F)) :
    Comp.Le (opsLogged (loggedRunner n block) ops) (opsLogged (loggedRunner (n + 1) block') ops) := by
  induction ops with
  | nil => exact .refl _
  | cons op ops ih =>
    refine (nextLogged_le h op).bind fun flow => ?_
    cases flow with
    | next => exact ih
    | leave => exact .refl _

end more

theorem executeLogged_chain (ops : List (Op F)) :
    Chain fun n => (executeLogged n ops : Logged F S Unit) := by
  refine .of_succ fun n => ?_
  induction n generalizing ops with
  | zero => exact .outOfFuel _
  | succ n ih => exact opsLogged_le ih ops

/-- A run has only one log. -/
theorem Executed.eq {ops : List (Op F)} {vm vm' vm'' : VM F S} {log log' : OpLog F}
    (h : Executed ops vm vm' log) (h' : Executed ops vm vm'' log') : log = log' := by
  obtain ⟨n, hn⟩ := h
  obtain ⟨m, hm⟩ := h'
  have hrun : lim (fun n => executeLogged n ops) (vm, .nil) (.ok () (vm', log)) := ⟨n, hn⟩
  have hrun' : lim (fun n => executeLogged n ops) (vm, .nil) (.ok () (vm'', log')) := ⟨m, hm⟩
  cases (executeLogged_chain ops).functional _ _ _ hrun hrun'
  rfl

end logged

end VM

end Covm
