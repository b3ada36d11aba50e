import Covm.Governance.Json
import Covm.Governance.Proposals
import Covm.Storage.Tokens

/-!
# The logic of a proposal (`ProposalLifecycle::execute_proposal_logic`)

The logic is loaded and run on a fork of the VM, and then the transaction of the VM itself is
committed or rolled back. A VM that is not a fork has none: the execution ends in an error whatever
the logic did. On a fork of the in-memory backend the writes of the logic stay in the copy, and what
a failure undoes is what the fork itself had written.
-/

namespace Covm

open Maps Partial Comp

/-- The status given for a run that ended; `failure` stands for the text
`Runtime error during fork execution: {e}`. -/
inductive LogicStatus (F : Type) where
  | success
  | failure (e : VMError F)

namespace Governance

/-- The property `White_Space` of a character. -/
def isWhiteSpace (c : Char) : Bool :=
  let n := c.toNat
  decide (9 ≤ n ∧ n ≤ 13 ∨ 0x2000 ≤ n ∧ n ≤ 0x200A ∨
    n ∈ [0x20, 0x85, 0xA0, 0x1680, 0x2028, 0x2029, 0x202F, 0x205F, 0x3000])

/-- `s.trim().is_empty()` -/
def isBlank (s : String) : Bool := s.toList.all isWhiteSpace

def logicKey (id : String) : String := s!"proposals/{id}/attachments/logic"

section
variable {F S : Type} [Number F] [SerdeJson] [Dsl F] [ForkableBackend S]

/-- The text of the logic; logic that is missing or blank is skipped. -/
def loadLogic (forked : VM F S) (id : String) : Except (GovernanceError F) (Option String) := do
  let storage ← backendOf "Storage backend not available" forked
  match StorageBackend.get storage forked.executor.authContext "governance" (logicKey id) with
  | .ok bytes =>
    match String.fromUTF8? bytes with
    | none => .error (.notUtf8 "Logic attachment is not valid UTF-8" bytes)
    | some dsl => return if isBlank dsl then none else some dsl
  | .error (.notFound _) => return none
  | .error e => .error (.failed "Failed to load logic attachment" e)

def parseLogic (dsl : String) : Except (GovernanceError F) (List (Op F)) :=
  (Dsl.parseDsl dsl).mapError fun e => .message s!"Failed to parse logic DSL: {e}"

/-- Ends the transaction of the VM as the run on the fork ended. -/
def settle : Except (VMError F) Unit → Gov F S (LogicStatus F)
  | .ok () => do
    ofVm VM.commitForkTransaction
    return .success
  | .error e => do
    ofVm VM.rollbackForkTransaction
    return .failure e

def executeProposalLogic (fuel : Nat) (id : String) : Gov F S (LogicStatus F) := do
  let forked ← ofVm VM.fork
  match ← ofResult (loadLogic forked id) with
  | some dsl =>
    let ops ← ofResult (parseLogic dsl)
    let (result, _) ← executeOnFork fuel forked ops
    settle result
  | none => settle (.ok ())

end

/-! ## How a run on a fork ends -/

section outcome
variable {F S : Type}

/-- How the operations end, and what has become of the fork; nothing if they do not end with a
result. -/
def endOf : EStateM.Result (Stop (Fault F)) (VM F S) Unit →
    Option (Except (VMError F) Unit × VM F S)
  | .ok () forked => some (.ok (), forked)
  | .error (.fault (.error e)) forked => some (.error e, forked)
  | .error _ _ => none

variable [Number F] [SerdeJson]

/-- How the logic ends on a fork: blank logic does nothing. -/
def logicEnd [StorageBackend S] (fuel : Nat) (text : String) (ops : List (Op F))
    (forked : VM F S) : Option (Except (VMError F) Unit × VM F S) :=
  if isBlank text then some (.ok (), forked) else endOf (VM.execute fuel ops forked)

variable [ForkableBackend S]

theorem executeOnFork_eq_ok_iff {fuel : Nat} {forked forked' vm vm' : VM F S} {ops : List (Op F)}
    {result : Except (VMError F) Unit} :
    executeOnFork fuel forked ops vm = .ok (result, forked') vm' ↔
      endOf (VM.execute fuel ops forked) = some (result, forked') ∧
        vm' = rejoinedFork forked' vm := by
  unfold executeOnFork endOf
  rcases VM.execute fuel ops forked with ⟨⟨⟩, f⟩ | ⟨_ | _ | _, f⟩
  · simp only [EStateM.Result.ok.injEq, Prod.mk.injEq, Option.some.injEq]
    constructor
    · rintro ⟨⟨rfl, rfl⟩, rfl⟩
      exact ⟨⟨rfl, rfl⟩, rfl⟩
    · rintro ⟨⟨rfl, rfl⟩, rfl⟩
      exact ⟨⟨rfl, rfl⟩, rfl⟩
  · simp
  · simp only [EStateM.Result.ok.injEq, Prod.mk.injEq, Option.some.injEq]
    constructor
    · rintro ⟨⟨rfl, rfl⟩, rfl⟩
      exact ⟨⟨rfl, rfl⟩, rfl⟩
    · rintro ⟨⟨rfl, rfl⟩, rfl⟩
      exact ⟨⟨rfl, rfl⟩, rfl⟩
  · simp

/-- An execution that returns has run the logic on a fork and ended the VM's transaction. -/
theorem executeProposalLogic_ok {fuel : Nat} {id : String} {vm vm' : VM F S}
    {status : LogicStatus F} [Dsl F] (h : executeProposalLogic fuel id vm = .ok status vm') :
    ∃ result own, settle result own = .ok status vm' ∧
      own.executor.transactionActive = vm.executor.transactionActive := by
  unfold executeProposalLogic at h
  obtain ⟨forked, vm₁, hfork, hrest⟩ := bind_eq_ok_iff.mp h
  obtain ⟨backend, storage, -, -, -, rfl⟩ := VM.fork_eq_ok_iff.mp (ofVm_eq_ok_iff.mp hfork)
  obtain ⟨dsl, vm₂, hload, hrest⟩ := bind_eq_ok_iff.mp hrest
  obtain ⟨-, rfl⟩ := ofResult_eq_ok_iff.mp hload
  cases dsl with
  | none => exact ⟨.ok (), _, hrest, rfl⟩
  | some text =>
    obtain ⟨ops, vm₃, hparse, hrest⟩ := bind_eq_ok_iff.mp hrest
    obtain ⟨-, rfl⟩ := ofResult_eq_ok_iff.mp hparse
    obtain ⟨⟨result, forked'⟩, vm₄, hrun, hsettle⟩ := bind_eq_ok_iff.mp hrest
    obtain ⟨-, rfl⟩ := executeOnFork_eq_ok_iff.mp hrun
    refine ⟨result, _, hsettle, ?_⟩
    unfold rejoinedFork
    cases forked'.executor.storageBackend <;> rfl

def statusOf : Except (VMError F) Unit → LogicStatus F
  | .ok () => .success
  | .error e => .failure e

/-- What is done to the storage in the end. -/
def finishing : Except (VMError F) Unit → StorageM S Unit
  | .ok () => ForkableBackend.commitTransaction
  | .error _ => ForkableBackend.rollbackTransaction

omit [Number F] [SerdeJson] in
theorem settle_eq_ok_iff {vm vm' : VM F S} {backend : S} {result : Except (VMError F) Unit}
    {status : LogicStatus F} (h : vm.executor.storageBackend = some backend) :
    settle result vm = .ok status vm' ↔ vm.executor.transactionActive = true ∧
      status = statusOf result ∧ ∃ own, finishing result backend = .ok () own ∧
        vm' = vm.ended own := by
  cases result with
  | ok u =>
    simp only [settle, bind_eq_ok_iff, ofVm_eq_ok_iff, VM.commitForkTransaction,
      VMExecution.commitForkTransaction, VM.endTransaction_eq_ok_iff h, pure_apply, finishing]
    grind [statusOf]
  | error e =>
    simp only [settle, bind_eq_ok_iff, ofVm_eq_ok_iff, VM.rollbackForkTransaction,
      VMExecution.rollbackForkTransaction, VM.endTransaction_eq_ok_iff h, pure_apply, finishing]
    grind [statusOf]

omit [Number F] [SerdeJson] in
theorem settle_inactive {vm vm' : VM F S} (h : vm.executor.transactionActive = false)
    (result : Except (VMError F) Unit) (status : LogicStatus F) :
    settle result vm ≠ .ok status vm' := by
  intro hsettle
  cases result with
  | ok u =>
    obtain ⟨u, vm₁, hcommit, -⟩ := bind_eq_ok_iff.mp hsettle
    rw [ofVm_eq_ok_iff] at hcommit
    simp [VM.commitForkTransaction, VM.onExecutor, Comp.zoom, VMExecution.commitForkTransaction,
      VMExecution.endTransaction_inactive h] at hcommit
  | error e =>
    obtain ⟨u, vm₁, hrollback, -⟩ := bind_eq_ok_iff.mp hsettle
    rw [ofVm_eq_ok_iff] at hrollback
    simp [VM.rollbackForkTransaction, VM.onExecutor, Comp.zoom,
      VMExecution.rollbackForkTransaction, VMExecution.endTransaction_inactive h] at hrollback

/-- On a VM that is not a fork the execution never returns. -/
theorem executeProposalLogic_inactive [Dsl F] {vm vm' : VM F S}
    (h : vm.executor.transactionActive = false) (fuel : Nat) (id : String)
    (status : LogicStatus F) : executeProposalLogic fuel id vm ≠ .ok status vm' := by
  intro hok
  obtain ⟨result, own, hsettle, hactive⟩ := executeProposalLogic_ok hok
  exact settle_inactive (hactive.trans h) result status hsettle

end outcome

/-! ## On the in-memory backend -/

section inMemory
variable {F : Type} [Number F] [SerdeJson] [Dsl F]

/-- The storage of a fork. -/
def begun (backend : InMemoryStorage) : InMemoryStorage :=
  { backend with transactionStack := [] :: backend.transactionStack }

/-- The logic is stored, and parses. -/
structure Attached (id text : String) (ops : List (Op F)) (backend : InMemoryStorage)
    (vm : VM F InMemoryStorage) : Prop where
  own : vm.executor.storageBackend = some backend
  stored : backend.data.get ("governance", logicKey id) = some text.toUTF8
  parses : Dsl.parseDsl text = .ok ops

def MayRead (vm : VM F InMemoryStorage) : Prop :=
  InMemoryStorage.checkPermission vm.executor.authContext "read" "governance" = .ok ()

/-- The storage after its innermost transaction was ended. -/
def settledStorage (backend : InMemoryStorage) (log : UndoLog (String × String) ByteArray)
    (rest : List (UndoLog (String × String) ByteArray)) :
    Except (VMError F) Unit → InMemoryStorage
  | .ok () => { backend with transactionStack := rest }
  | .error _ => { backend with data := backend.data.replay log, transactionStack := rest }

/-- After success the storage shows what the fork holds, and after a failure what it held before. -/
def Shows (backend own : InMemoryStorage) (forked : VM F InMemoryStorage) :
    Except (VMError F) Unit → Prop
  | .ok () => forked.executor.storageBackend.map (·.data.get) = some own.data.get
  | .error _ => own.data.get = backend.data.get ∧ own.versions = backend.versions ∧
      own.accounts = backend.accounts

/-- The run that ends like this would not show. -/
def Unnoticed (backend : InMemoryStorage) (log : UndoLog (String × String) ByteArray)
    (forked : VM F InMemoryStorage) : Except (VMError F) Unit → Prop
  | .ok () => forked.executor.storageBackend.map (·.data.get) = some backend.data.get
  | .error _ => (backend.data.replay log).get = backend.data.get

/-- The execution returns; its status tells how the logic ended, and the storage shows it. -/
def AllOrNothing (id text : String) (ops : List (Op F)) (backend : InMemoryStorage)
    (vm : VM F InMemoryStorage) : Prop :=
  ∃ fuel result forked own vm',
    logicEnd fuel text ops (vm.forkedTo (begun backend)) = some (result, forked) ∧
    executeProposalLogic fuel id vm = .ok (statusOf result) vm' ∧
    vm'.executor.storageBackend = some own ∧ Shows backend own forked result

/-- The VM has a transaction to end, and the logic ends: it succeeds without changing a value, or
fails when the transaction has no value to restore. -/
def Undisturbed (text : String) (ops : List (Op F)) (backend : InMemoryStorage)
    (vm : VM F InMemoryStorage) : Prop :=
  MayRead vm ∧ vm.executor.transactionActive = true ∧
    ∃ fuel result forked log rest, backend.transactionStack = log :: rest ∧
      logicEnd fuel text ops (vm.forkedTo (begun backend)) = some (result, forked) ∧
      Unnoticed backend log forked result

omit [Number F] [SerdeJson] [Dsl F] in
theorem shows_settledStorage {backend : InMemoryStorage}
    {log : UndoLog (String × String) ByteArray}
    {rest : List (UndoLog (String × String) ByteArray)} {forked : VM F InMemoryStorage}
    {result : Except (VMError F) Unit} :
    Shows backend (settledStorage backend log rest result) forked result ↔
      Unnoticed backend log forked result := by
  cases result with
  | ok u => rfl
  | error e => simp [Shows, Unnoticed, settledStorage]

omit [Number F] [SerdeJson] [Dsl F] in
theorem settle_inMemory {vm vm' : VM F InMemoryStorage} {backend : InMemoryStorage}
    {result : Except (VMError F) Unit} {status : LogicStatus F}
    (h : vm.executor.storageBackend = some backend) :
    settle result vm = .ok status vm' ↔ vm.executor.transactionActive = true ∧
      ∃ log rest, backend.transactionStack = log :: rest ∧ status = statusOf result ∧
        vm' = vm.ended (settledStorage backend log rest result) := by
  rw [settle_eq_ok_iff h]
  cases result with
  | ok u =>
    show _ ∧ _ ∧ (∃ own, InMemoryStorage.commitTransaction backend = _ ∧ _) ↔ _
    unfold InMemoryStorage.commitTransaction
    cases hstack : backend.transactionStack with
    | nil => simp
    | cons log rest => simp [settledStorage, and_comm]
  | error e =>
    show _ ∧ _ ∧ (∃ own, InMemoryStorage.rollbackTransaction backend = _ ∧ _) ↔ _
    unfold InMemoryStorage.rollbackTransaction
    cases hstack : backend.transactionStack with
    | nil => simp
    | cons log rest => simp [settledStorage, and_comm]

omit [Number F] [SerdeJson] in
theorem checkPermission_error {auth : Option AuthContext} {action ns : String} {e : StorageError}
    (h : InMemoryStorage.checkPermission auth action ns = .error e) :
    ∃ user what place, e = .permissionDenied user what place := by
  unfold InMemoryStorage.checkPermission at h
  grind

omit [Number F] [SerdeJson] in
theorem loadLogic_eq_ok_iff {id text : String} {ops : List (Op F)} {backend : InMemoryStorage}
    {vm : VM F InMemoryStorage} (h : Attached id text ops backend vm) {found : Option String} :
    loadLogic (vm.forkedTo (begun backend)) id = .ok found ↔
      MayRead vm ∧ found = if isBlank text then none else some text := by
  have hget : StorageBackend.get (begun backend) vm.executor.authContext "governance"
      (logicKey id) = (InMemoryStorage.checkPermission vm.executor.authContext "read"
        "governance").map fun _ => text.toUTF8 := by
    show (begun backend).get _ _ _ = _
    have hstored : (begun backend).data.get ("governance", logicKey id) = some text.toUTF8 :=
      h.stored
    unfold InMemoryStorage.get
    cases InMemoryStorage.checkPermission vm.executor.authContext "read" "governance" with
    | error e => rfl
    | ok u => simp only [bind, Except.bind, hstored, Except.map]
  unfold loadLogic MayRead
  have hbackend : (vm.forkedTo (begun backend)).executor.storageBackend = some (begun backend) := rfl
  have hauth : (vm.forkedTo (begun backend)).executor.authContext = vm.executor.authContext := rfl
  rw [backendOf_eq_ok_iff.mpr hbackend, hauth]
  simp only [bind, Except.bind]
  rw [hget]
  cases hread : InMemoryStorage.checkPermission vm.executor.authContext "read" "governance" with
  | error e =>
    obtain ⟨user, what, place, rfl⟩ := checkPermission_error hread
    simp [Except.map]
  | ok u =>
    simp only [Except.map, fromUTF8_toUTF8, pure, Except.pure, Except.ok.injEq, true_and]
    exact eq_comm

theorem executeProposalLogic_attached {fuel : Nat} {id text : String} {ops : List (Op F)}
    {backend : InMemoryStorage} {vm vm' : VM F InMemoryStorage} {status : LogicStatus F}
    (h : Attached id text ops backend vm) :
    executeProposalLogic fuel id vm = .ok status vm' ↔ MayRead vm ∧ ∃ result forked,
      logicEnd fuel text ops (vm.forkedTo (begun backend)) = some (result, forked) ∧
        settle result vm = .ok status vm' := by
  have hfork : VM.fork vm = .ok (vm.forkedTo (begun backend)) vm :=
    VM.fork_eq_ok_iff.mpr ⟨backend, _, h.own, rfl, rfl, (vm.rejoined_inMemory _).symm⟩
  unfold executeProposalLogic logicEnd
  rw [bind_of_ok (ofVm_eq_ok_iff.mpr hfork)]
  simp only [bind_eq_ok_iff, ofResult_eq_ok_iff, loadLogic_eq_ok_iff h]
  by_cases hblank : isBlank text
  · simp only [hblank, if_true]
    constructor
    · rintro ⟨found, _, ⟨⟨hread, rfl⟩, rfl⟩, hsettle⟩
      exact ⟨hread, _, _, rfl, hsettle⟩
    · rintro ⟨hread, result, forked, hend, hsettle⟩
      cases hend
      exact ⟨_, _, ⟨⟨hread, rfl⟩, rfl⟩, hsettle⟩
  · have hparse : (parseLogic text : Except (GovernanceError F) _) = .ok ops := by
      rw [parseLogic, h.parses]
      rfl
    have hown (forked : VM F InMemoryStorage) : rejoinedFork forked vm = vm := by
      unfold rejoinedFork
      cases forked.executor.storageBackend with
      | none => rfl
      | some clone => exact vm.rejoined_inMemory clone
    simp only [if_neg hblank]
    constructor
    · rintro ⟨_, own, ⟨⟨hread, rfl⟩, rfl⟩, hrest⟩
      change (ofResult (parseLogic text) >>= _) own = _ at hrest
      rw [bind_of_ok (ofResult_eq_ok_iff.mpr ⟨hparse, rfl⟩)] at hrest
      obtain ⟨⟨result, forked⟩, _, hrun, hsettle⟩ := bind_eq_ok_iff.mp hrest
      obtain ⟨hend, rfl⟩ := executeOnFork_eq_ok_iff.mp hrun
      rw [hown] at hsettle
      exact ⟨hread, result, forked, hend, hsettle⟩
    · rintro ⟨hread, result, forked, hend, hsettle⟩
      refine ⟨some text, vm, ⟨⟨hread, rfl⟩, rfl⟩, ?_⟩
      show (ofResult (parseLogic text) >>= _) vm = _
      rw [bind_of_ok (ofResult_eq_ok_iff.mpr ⟨hparse, rfl⟩),
        bind_of_ok (executeOnFork_eq_ok_iff.mpr ⟨hend, (hown forked).symm⟩)]
      exact hsettle

theorem allOrNothing_of_attached {id text : String} {ops : List (Op F)}
    {backend : InMemoryStorage} {vm : VM F InMemoryStorage}
    (h : Attached id text ops backend vm) :
    AllOrNothing id text ops backend vm ↔ Undisturbed text ops backend vm := by
  constructor
  · rintro ⟨fuel, result, forked, own, vm', hend, hok, hown, hshows⟩
    obtain ⟨hread, result', forked', hend', hsettle⟩ := (executeProposalLogic_attached h).mp hok
    obtain ⟨rfl, rfl⟩ := Prod.mk.inj (Option.some.inj (hend'.symm.trans hend))
    obtain ⟨hactive, log, rest, hstack, -, rfl⟩ := (settle_inMemory h.own).mp hsettle
    obtain rfl := Option.some.inj hown
    exact ⟨hread, hactive, fuel, _, _, log, rest, hstack, hend, shows_settledStorage.mp hshows⟩
  · rintro ⟨hread, hactive, fuel, result, forked, log, rest, hstack, hend, hunnoticed⟩
    have hsettle : settle result vm = _ :=
      (settle_inMemory h.own).mpr ⟨hactive, log, rest, hstack, rfl, rfl⟩
    exact ⟨fuel, result, forked, _, _, hend,
      (executeProposalLogic_attached h).mpr ⟨hread, result, forked, hend, hsettle⟩, rfl,
      shows_settledStorage.mpr hunnoticed⟩

end inMemory

/-- On a VM that is not a fork, whatever its backend, the execution never returns. On the in-memory
backend it is all or nothing iff the VM has a transaction to end and is undisturbed: the logic
succeeds without changing a value, or fails when the transaction has no value to restore. -/
theorem allOrNothing_iff (F : Type) [Number F] [SerdeJson] [Dsl F] :
    (∀ (S : Type) [ForkableBackend S] (fuel : Nat) (id : String) (vm vm' : VM F S)
      (status : LogicStatus F), vm.executor.transactionActive = false →
        executeProposalLogic fuel id vm ≠ .ok status vm') ∧
    ∀ (id text : String) (ops : List (Op F)) (backend : InMemoryStorage)
      (vm : VM F InMemoryStorage), Attached id text ops backend vm →
        (AllOrNothing id text ops backend vm ↔ Undisturbed text ops backend vm) :=
  ⟨fun _ _ fuel id _ _ status h => executeProposalLogic_inactive h fuel id status,
    fun _ _ _ _ _ h => allOrNothing_of_attached h⟩

/-! ## Logic that fails -/

section pop

instance : Dsl Binary64 where
  parseDsl text := if text = "pop" then .ok [.pop] else .error s!"Unknown command: {text}"

def popStorage : InMemoryStorage :=
  { InMemoryStorage.adminStorage with
    data := Table.put ∅ ("governance", logicKey "p1") "pop".toUTF8 }

def popVm : VM Binary64 InMemoryStorage :=
  .setAuthContext InMemoryStorage.admin (.withStorageBackend (fun _ => 0) popStorage)

theorem popStorage_logic :
    popStorage.data.get ("governance", logicKey "p1") = some "pop".toUTF8 := by
  unfold popStorage
  rw [Table.get_put, Function.update_self]

theorem attached_popVm : Attached "p1" "pop" [.pop] popStorage popVm :=
  ⟨rfl, popStorage_logic, rfl⟩

theorem attached_popFork :
    Attached "p1" "pop" [.pop] (begun popStorage) (popVm.forkedTo (begun popStorage)) :=
  ⟨rfl, popStorage_logic, rfl⟩

theorem mayRead_popVm : MayRead popVm := by
  unfold MayRead
  decide

theorem undisturbed_popFork :
    Undisturbed "pop" [.pop] (begun popStorage) (popVm.forkedTo (begun popStorage)) := by
  have hblank : ¬ isBlank "pop" := by decide
  obtain ⟨forked, hend⟩ : ∃ forked, logicEnd 2 "pop" [.pop]
      ((popVm.forkedTo (begun popStorage)).forkedTo (begun (begun popStorage))) =
        some (.error .stackUnderflow, forked) := by
    simp only [logicEnd, if_neg hblank]
    exact ⟨_, rfl⟩
  exact ⟨mayRead_popVm, rfl, 2, _, forked, [], [], rfl, hend, rfl⟩

/-- The execution returns on a fork, and not on the VM itself. -/
theorem allOrNothing_iff_pop :
    AllOrNothing "p1" "pop" [.pop] (begun popStorage) (popVm.forkedTo (begun popStorage)) ∧
      ∀ fuel status vm', executeProposalLogic fuel "p1" popVm ≠ .ok status vm' :=
  ⟨((allOrNothing_iff Binary64).2 _ _ _ _ _ attached_popFork).mpr undisturbed_popFork,
    fun fuel status vm' =>
      (allOrNothing_iff Binary64).1 InMemoryStorage fuel "p1" popVm vm' status rfl⟩

/-- The failure of the logic is not reported. -/
theorem failure_unreported : ¬ ∀ (F : Type) [Number F] [SerdeJson] [Dsl F] (id text : String)
    (ops : List (Op F)) (backend : InMemoryStorage) (vm : VM F InMemoryStorage),
    Attached id text ops backend vm → MayRead vm → AllOrNothing id text ops backend vm := by
  intro h
  obtain ⟨fuel, result, forked, own, vm', -, hok, -⟩ :=
    h _ _ _ _ _ _ attached_popVm mayRead_popVm
  exact executeProposalLogic_inactive rfl fuel "p1" _ hok

end pop

end Governance

end Covm
