import Covm.Partial.Within
import Covm.Storage.Extensions
import Covm.Vm.Vm

/-!
# Forks of a VM (`VM::fork`)

A fork works on a clone of the VM's storage, in which it has begun a transaction. What writes to
the clone do to the original is up to the backend (`rejoin`): a clone may be a copy, or another
handle on the same store. The two calls that are to end a fork's transaction are made on the
original VM and act on its own storage.
-/

namespace Covm

open Partial

/-- A backend with transactions that can be cloned. -/
class ForkableBackend (S : Type) extends VersionedBackend S where
  /-- The first backend, of which the second was a clone when it began to change: its own tables
  stay as they are, or both are handles on the same store. -/
  rejoin : S → S → S
  beginTransaction : StorageM S Unit
  commitTransaction : StorageM S Unit
  rollbackTransaction : StorageM S Unit

export ForkableBackend (rejoin)

/-- Its tables are copied. -/
instance : ForkableBackend InMemoryStorage where
  rejoin own _ := own
  beginTransaction := InMemoryStorage.beginTransaction
  commitTransaction := InMemoryStorage.commitTransaction
  rollbackTransaction := InMemoryStorage.rollbackTransaction

namespace VMExecution

variable {F S : Type} [ForkableBackend S]

/-- A clone of the backend has become `clone`. -/
def rejoined (x : VMExecution S) (clone : S) : VMExecution S :=
  { x with storageBackend := x.storageBackend.map (rejoin · clone) }

/-- The fork that works on a clone of the backend; it starts without events. -/
def forkedTo (x : VMExecution S) (storage : S) : VMExecution S :=
  { x with storageBackend := some storage, events := [], transactionActive := true }

/-- The failure of a transaction operation on the backend. -/
def transactionFault (operation : String) : StorageFault → Stop (Fault F)
  | .error e => .fault (.error (.storageError s!"Failed to {operation} transaction: {e.debug}"))
  | .panic => .fault .panic

def fork : ExecutorOp F S (VMExecution S) := fun x =>
  match x.storageBackend with
  | none => .error (.fault (.error .storageUnavailable)) x
  | some backend =>
    match ForkableBackend.beginTransaction backend with
    | .ok () forked => .ok (x.forkedTo forked) (x.rejoined forked)
    | .error e forked => .error (transactionFault "begin" e) (x.rejoined forked)

/-- Ends the VM's own transaction; `operation` names what is done to it. -/
def endTransaction (operation : String) (finish : StorageM S Unit) : ExecutorOp F S Unit := fun x =>
  if x.transactionActive then
    match x.storageBackend with
    | none => .ok () { x with transactionActive := false }
    | some backend =>
      match finish backend with
      | .ok () backend =>
        .ok () { x with storageBackend := some backend, transactionActive := false }
      | .error e backend =>
        .error (transactionFault operation e) { x with storageBackend := some backend }
  else .error (.fault (.error (.storageError s!"No active transaction to {operation}"))) x

def commitForkTransaction : ExecutorOp F S Unit :=
  endTransaction "commit" ForkableBackend.commitTransaction

def rollbackForkTransaction : ExecutorOp F S Unit :=
  endTransaction "rollback" ForkableBackend.rollbackTransaction

omit [ForkableBackend S] in
theorem endTransaction_inactive {x : VMExecution S} (h : x.transactionActive = false)
    (operation : String) (finish : StorageM S Unit) :
    (endTransaction operation finish x : EStateM.Result (Stop (Fault F)) _ _) =
      .error (.fault (.error (.storageError s!"No active transaction to {operation}"))) x := by
  unfold endTransaction
  rw [h, if_neg Bool.false_ne_true]

end VMExecution

namespace VM

variable {F S : Type} [ForkableBackend S]

def fork : Exec F S (VM F S) := fun vm =>
  match VMExecution.fork vm.executor with
  | .ok forked own => .ok { vm with executor := forked } { vm with executor := own }
  | .error e own => .error e { vm with executor := own }

def rejoined (vm : VM F S) (clone : S) : VM F S :=
  { vm with executor := vm.executor.rejoined clone }

def forkedTo (vm : VM F S) (storage : S) : VM F S :=
  { vm with executor := vm.executor.forkedTo storage }

omit [ForkableBackend S] in
theorem rejoined_inMemory (vm : VM F InMemoryStorage) (clone : InMemoryStorage) :
    vm.rejoined clone = vm := by
  obtain ⟨stack, memory, ⟨backend, auth, ns, output, events, clock, reads, active⟩, missing, dag,
    trace, explain, simulation, verbose, tracer⟩ := vm
  cases backend <;> rfl

theorem fork_eq_ok_iff {vm forked vm' : VM F S} :
    fork vm = .ok forked vm' ↔ ∃ backend storage, vm.executor.storageBackend = some backend ∧
      ForkableBackend.beginTransaction backend = .ok () storage ∧
      forked = vm.forkedTo storage ∧ vm' = vm.rejoined storage := by
  unfold fork VMExecution.fork
  cases hbackend : vm.executor.storageBackend with
  | none => simp
  | some backend =>
    cases hbegin : ForkableBackend.beginTransaction backend with
    | error e storage => simp [hbegin]
    | ok u storage =>
      simp only [hbegin, EStateM.Result.ok.injEq, Option.some.injEq]
      constructor
      · rintro ⟨rfl, rfl⟩
        exact ⟨backend, storage, rfl, hbegin, rfl, rfl⟩
      · rintro ⟨_, storage', rfl, hbegin', rfl, rfl⟩
        obtain ⟨-, rfl⟩ := EStateM.Result.ok.inj (hbegin.symm.trans hbegin')
        exact ⟨rfl, rfl⟩

/-- A fork changes nothing but what becomes of the clone. -/
theorem final_fork (vm : VM F S) :
    final (fork vm) = vm ∨ ∃ clone, final (fork vm) = vm.rejoined clone := by
  unfold fork VMExecution.fork
  cases vm.executor.storageBackend with
  | none => simp
  | some backend =>
    cases hbegin : ForkableBackend.beginTransaction backend with
    | error e storage =>
      simp only [hbegin]
      exact .inr ⟨storage, rfl⟩
    | ok u storage =>
      simp only [hbegin]
      exact .inr ⟨storage, rfl⟩

def commitForkTransaction : Exec F S Unit := onExecutor VMExecution.commitForkTransaction

def rollbackForkTransaction : Exec F S Unit := onExecutor VMExecution.rollbackForkTransaction

/-- The VM whose own transaction has left its storage as `own`. -/
def ended (vm : VM F S) (own : S) : VM F S :=
  { vm with executor :=
    { vm.executor with storageBackend := some own, transactionActive := false } }

omit [ForkableBackend S] in
theorem endTransaction_eq_ok_iff {vm vm' : VM F S} {backend : S} {u : Unit}
    (h : vm.executor.storageBackend = some backend) (operation : String)
    (finish : StorageM S Unit) :
    (onExecutor (VMExecution.endTransaction operation finish) : Exec F S Unit) vm = .ok u vm' ↔
      vm.executor.transactionActive = true ∧
        ∃ own, finish backend = .ok () own ∧ vm' = vm.ended own := by
  unfold onExecutor Comp.zoom VMExecution.endTransaction
  by_cases hactive : vm.executor.transactionActive
  · rw [if_pos hactive, h]
    cases hfinish : finish backend with
    | ok u own => simp [hfinish, hactive, ended, eq_comm]
    | error e own => simp [hfinish]
  · simp [hactive]

end VM

end Covm
