import Covm.Governance.Json
import Covm.Governance.VoteAdmission

/-!
# What the commands write over a lifecycle

Three commands write the state of a stored lifecycle: `transition`, `execute`, and `execute_proposal`
itself. `transition` writes whatever state it is asked for. An execution only asks whether the
proposal is executed already, and writes `Executed` also when the logic has failed.
-/

namespace Covm

open Partial

namespace Governance

/-- The states a proposal does not leave. -/
def Terminal (state : ProposalState) : Prop :=
  state = .executed ∨ state = .rejected ∨ state = .expired

/-- A proposal is executed from `Voting` only, and a final state stays. -/
def Permitted (before after : ProposalState) : Prop :=
  (after = .executed → before = .voting) ∧ (Terminal before → after = before)

theorem permitted_executed_iff {before : ProposalState} :
    Permitted before .executed ↔ before = .voting := by
  constructor
  · exact fun h => h.1 rfl
  · rintro rfl
    exact ⟨fun _ => rfl, by simp [Terminal]⟩

inductive Command where
  | transition (now : DateTime) (id word : String)
  | execute (fuel : Nat) (now ledgerNow : DateTime) (auth : AuthContext) (id : String)
  | executeProposal (fuel : Nat) (now ledgerNow : DateTime) (id : String)

section runs
variable {F S I : Type} [Number F] [ListingBackend S] [NodeHash F] [SerdeJson] [Dsl F]
  [VoteRequirements I F] [Serde (ProposalLifecycle I)] [Serde JsonValue]

def Command.perform (I : Type) [VoteRequirements I F] [Serde (ProposalLifecycle I)] :
    Command → Gov F S Unit
  | .transition now id word => handleTransition I now id word
  | .execute fuel now ledgerNow auth id => handleExecuteCommand I fuel now ledgerNow auth id
  | .executeProposal fuel now ledgerNow id => Governance.executeProposal I fuel now ledgerNow id

/-- The VM after a command, whether it succeeded or not. -/
def Command.after (I : Type) [VoteRequirements I F] [Serde (ProposalLifecycle I)] (c : Command)
    (vm : VM F S) : VM F S :=
  final (c.perform I vm)

/-- What a command is about to write; `ran` is whether the logic has succeeded, if it is run. -/
def Command.Writes (c : Command) (vm : VM F S) (ran : Bool) (rewrite : Rewrite S I) : Prop :=
  match c with
  | .transition now id word => ∃ newState vm', parseState word = some newState ∧
      prepareUpdate now id newState vm = .ok rewrite vm' ∧ ran = true
  | .execute fuel now _ auth id => ∃ vm₁ vm', admitExecution I auth id vm = .ok true vm₁ ∧
      prepareExecution fuel now id vm₁ = .ok (ran, rewrite) vm'
  | .executeProposal fuel now _ id => ∃ vm', prepareExecution fuel now id vm = .ok (ran, rewrite) vm'

/-- What a command writes is permitted, and no logic has failed before. -/
def Command.Lawful (I : Type) [VoteRequirements I F] [Serde (ProposalLifecycle I)] (c : Command)
    (vm : VM F S) : Prop :=
  ∀ ran, ∀ rewrite : Rewrite S I, c.Writes vm ran rewrite →
    Permitted rewrite.loaded.state rewrite.value.state ∧ ran = true

/-! ## When they are lawful -/

/-- A fork of the VM works on `storage`, where it finds the lifecycle. -/
def Loads (vm : VM F S) (id : String) (storage : S) (lifecycle : ProposalLifecycle I) : Prop :=
  ∃ backend, vm.executor.storageBackend = some backend ∧
    ForkableBackend.beginTransaction backend = .ok () storage ∧
    StorageExtensions.getJson (ProposalLifecycle I) storage vm.executor.authContext vm.executor.ns
      (proposalLifecycleKey id) = .ok lifecycle

/-- Whether running the operations succeeds; nothing if it does not end with a result. -/
def executionOutcome (fuel : Nat) (forked : VM F S) (ops : List (Op F)) : Option Bool :=
  match VM.execute fuel ops forked with
  | .ok () _ => some true
  | .error (.fault (.error _)) _ => some false
  | .error _ _ => none

/-- Whether the stored logic runs without error; nothing if it does not parse or does not end with a
result. -/
def logicOutcome (fuel : Nat) (forked : VM F S) (logic : Except StorageError ByteArray) :
    Option Bool :=
  match logic with
  | .error _ => some false
  | .ok bytes =>
    match String.fromUTF8? bytes with
    | none => some false
    | some text =>
      match Dsl.parseDsl text with
      | .error _ => none
      | .ok ops => executionOutcome fuel forked ops

/-- The logic of a proposal, on the fork of the VM that works on `storage`. -/
def outcomeOn (fuel : Nat) (vm : VM F S) (id : String) (storage : S) : Option Bool :=
  logicOutcome fuel (vm.forkedTo storage)
    (StorageBackend.get storage vm.executor.authContext vm.executor.ns (proposalLogicKey id))

/-- An execution meets a vote that is on, and logic that succeeds. -/
def ExecutionLawful (I : Type) [Serde (ProposalLifecycle I)] (fuel : Nat) (id : String)
    (vm : VM F S) : Prop :=
  ∀ storage, ∀ lifecycle : ProposalLifecycle I, Loads vm id storage lifecycle →
    lifecycle.state ≠ .executed → outcomeOn fuel vm id storage ≠ none →
      lifecycle.state = .voting ∧ outcomeOn fuel vm id storage = some true

/-- The condition on a command and the VM it is given to. -/
def Command.Asked (I : Type) [VoteRequirements I F] [Serde (ProposalLifecycle I)] (c : Command)
    (vm : VM F S) : Prop :=
  match c with
  | .transition _ id word => ∀ newState storage, ∀ lifecycle : ProposalLifecycle I,
      parseState word = some newState → Loads vm id storage lifecycle →
        Permitted lifecycle.state newState
  | .execute fuel _ _ auth id => ∀ vm₁, admitExecution I auth id vm = .ok true vm₁ →
      ExecutionLawful I fuel id vm₁
  | .executeProposal fuel _ _ id => ExecutionLawful I fuel id vm

section update
omit [Number F] [NodeHash F] [SerdeJson] [Dsl F] [VoteRequirements I F] [Serde JsonValue]

theorem loadLifecycle_eq_ok_iff {storage : S} {auth : Option AuthContext} {ns id : String}
    {lifecycle : ProposalLifecycle I} :
    (loadLifecycle storage auth ns id : Except (GovernanceError F) _) = .ok lifecycle ↔
      StorageExtensions.getJson (ProposalLifecycle I) storage auth ns (proposalLifecycleKey id) =
        .ok lifecycle :=
  mapError_eq_ok_iff

theorem prepareUpdate_eq_ok_iff {now : DateTime} {id : String} {newState : ProposalState}
    {vm vm' : VM F S} {rewrite : Rewrite S I} :
    prepareUpdate now id newState vm = .ok rewrite vm' ↔ ∃ storage lifecycle,
      Loads vm id storage lifecycle ∧ vm' = vm.rejoined storage ∧
      rewrite = { storage := storage, auth := vm.executor.authContext, ns := vm.executor.ns
                  key := proposalLifecycleKey id
                  value := (lifecycle.inState newState).recorded now, loaded := lifecycle } := by
  unfold prepareUpdate
  simp only [Comp.bind_eq_ok_iff, ofResult_eq_ok_iff, loadLifecycle_eq_ok_iff]
  constructor
  · rintro ⟨⟨forked, storage⟩, _, hfork, lifecycle, _, ⟨hload, rfl⟩, hpure⟩
    obtain ⟨backend, hbackend, hbegin, rfl, rfl⟩ := forkStorage_eq_ok_iff.mp hfork
    obtain ⟨rfl, rfl⟩ := EStateM.Result.ok.inj hpure
    exact ⟨storage, lifecycle, ⟨backend, hbackend, hbegin, hload⟩, rfl, rfl⟩
  · rintro ⟨storage, lifecycle, ⟨backend, hbackend, hbegin, hload⟩, rfl, rfl⟩
    exact ⟨(vm.forkedTo storage, storage), _,
      forkStorage_eq_ok_iff.mpr ⟨backend, hbackend, hbegin, rfl, rfl⟩, lifecycle, _,
      ⟨hload, rfl⟩, rfl⟩

end update

section execution
omit [NodeHash F] [VoteRequirements I F] [Serde JsonValue]

omit [Dsl F] in
theorem executeOnFork_ok_iff {fuel : Nat} {forked : VM F S} (vm : VM F S) {ops : List (Op F)}
    {ran : Bool} :
    (∃ result forked' vm', executeOnFork fuel forked ops vm = .ok (result, forked') vm' ∧
      succeededOf result = ran) ↔ executionOutcome fuel forked ops = some ran := by
  unfold executeOnFork executionOutcome
  cases VM.execute fuel ops forked with
  | ok u forked' => simp [succeededOf]
  | error e forked' =>
    rcases e with _ | _ | _
    · simp
    · simp [succeededOf]
    · simp

theorem runLogic_ok_iff {fuel : Nat} {forked : VM F S} (vm : VM F S)
    {logic : Except StorageError ByteArray} {ran : Bool} :
    (∃ forked' vm', runLogic fuel forked logic vm = .ok (ran, forked') vm') ↔
      logicOutcome fuel forked logic = some ran := by
  cases logic with
  | error e => simp [runLogic, logicOutcome]
  | ok bytes =>
    unfold runLogic logicOutcome
    dsimp only
    cases String.fromUTF8? bytes with
    | none => simp
    | some text =>
      dsimp only
      cases (Dsl.parseDsl text : Except String (List (Op F))) with
      | error e => simp [raiseText, raiseError]
      | ok ops =>
        rw [← executeOnFork_ok_iff vm]
        simp only [Comp.bind_eq_ok_iff, Comp.pure_apply, EStateM.Result.ok.injEq, Prod.mk.injEq]
        constructor
        · rintro ⟨_, _, ⟨result, forked'⟩, vm', hrun, ⟨rfl, rfl⟩, rfl⟩
          exact ⟨result, forked', vm', hrun, rfl⟩
        · rintro ⟨result, forked', vm', hrun, rfl⟩
          exact ⟨forked', vm', (result, forked'), vm', hrun, ⟨rfl, rfl⟩, rfl⟩

/-- What an execution that gets as far as writing has found. -/
theorem prepareExecution_ok {fuel : Nat} {now : DateTime} {id : String} {vm vm' : VM F S}
    {ran : Bool} {rewrite : Rewrite S I}
    (h : prepareExecution fuel now id vm = .ok (ran, rewrite) vm') :
    ∃ storage, Loads vm id storage rewrite.loaded ∧ rewrite.loaded.state ≠ .executed ∧
      outcomeOn fuel vm id storage = some ran ∧ rewrite.value.state = .executed := by
  unfold prepareExecution at h
  obtain ⟨⟨forked, storage⟩, vm₁, hfork, hrest⟩ := Comp.bind_eq_ok_iff.mp h
  obtain ⟨backend, hbackend, hbegin, rfl, rfl⟩ := forkStorage_eq_ok_iff.mp hfork
  obtain ⟨lifecycle, vm₂, hresult, hrest₂⟩ := Comp.bind_eq_ok_iff.mp hrest
  obtain ⟨hload, rfl⟩ := ofResult_eq_ok_iff.mp hresult
  by_cases hexecuted : lifecycle.state = .executed
  · simp [hexecuted, raiseText, raiseError, Comp.bind_apply] at hrest₂
  · rw [if_neg hexecuted] at hrest₂
    obtain ⟨⟨success, forked'⟩, vm₃, hlogic, hpure⟩ := Comp.bind_eq_ok_iff.mp hrest₂
    obtain ⟨hpair, rfl⟩ := EStateM.Result.ok.inj hpure
    obtain ⟨rfl, rfl⟩ := Prod.mk.inj hpair
    exact ⟨storage, ⟨backend, hbackend, hbegin, loadLifecycle_eq_ok_iff.mp hload⟩, hexecuted,
      (runLogic_ok_iff _).mp ⟨forked', vm₃, hlogic⟩, rfl⟩

theorem prepareExecution_of_loads {fuel : Nat} (now : DateTime) {id : String} {vm : VM F S}
    {storage : S} {lifecycle : ProposalLifecycle I} (h : Loads vm id storage lifecycle)
    (hstate : lifecycle.state ≠ .executed) {ran : Bool}
    (hlogic : outcomeOn fuel vm id storage = some ran) :
    ∃ rewrite : Rewrite S I, ∃ vm', prepareExecution fuel now id vm = .ok (ran, rewrite) vm' ∧
      rewrite.loaded = lifecycle ∧ rewrite.value.state = .executed := by
  obtain ⟨backend, hbackend, hbegin, hload⟩ := h
  obtain ⟨forked', vm', hrun⟩ := (runLogic_ok_iff (vm.rejoined storage)).mpr hlogic
  unfold prepareExecution
  have hfork : forkStorage vm = .ok (vm.forkedTo storage, storage) (vm.rejoined storage) :=
    forkStorage_eq_ok_iff.mpr ⟨backend, hbackend, hbegin, rfl, rfl⟩
  have hloaded : ofResult (loadLifecycle storage vm.executor.authContext vm.executor.ns id)
      (vm.rejoined storage) = .ok lifecycle (vm.rejoined storage) :=
    ofResult_eq_ok_iff.mpr ⟨loadLifecycle_eq_ok_iff.mpr hload, rfl⟩
  let rewrite : Rewrite S I := {
    storage := (forked'.executor.storageBackend.map (rejoin storage)).getD storage
    auth := vm.executor.authContext
    ns := vm.executor.ns
    key := proposalLifecycleKey id
    value := (lifecycle.inState .executed).recorded now
    loaded := lifecycle }
  refine ⟨rewrite, vm', ?_, rfl, rfl⟩
  rw [Comp.bind_of_ok hfork]
  refine (Comp.bind_of_ok hloaded).trans ?_
  rw [if_neg hstate]
  exact Comp.bind_of_ok hrun

/-- An execution is lawful iff it meets an open vote and its logic succeeds. -/
theorem executionLawful_iff {fuel : Nat} (now : DateTime) {id : String} {vm : VM F S} :
    (∀ ran, ∀ rewrite : Rewrite S I, ∀ vm', prepareExecution fuel now id vm =
        .ok (ran, rewrite) vm' →
      Permitted rewrite.loaded.state rewrite.value.state ∧ ran = true) ↔
    ExecutionLawful I fuel id vm := by
  constructor
  · intro h storage lifecycle hloads hstate houtcome
    obtain ⟨ran, hran⟩ := Option.ne_none_iff_exists'.mp houtcome
    obtain ⟨rewrite, vm', hprepare, rfl, hvalue⟩ :=
      prepareExecution_of_loads now hloads hstate hran
    obtain ⟨hpermitted, rfl⟩ := h ran rewrite vm' hprepare
    rw [hvalue, permitted_executed_iff] at hpermitted
    exact ⟨hpermitted, hran⟩
  · intro h ran rewrite vm' hprepare
    obtain ⟨storage, hloads, hstate, hran, hvalue⟩ := prepareExecution_ok hprepare
    obtain ⟨hvoting, hran'⟩ := h storage rewrite.loaded hloads hstate (by simp [hran])
    rw [hvalue, permitted_executed_iff]
    exact ⟨hvoting, Option.some.inj (hran.symm.trans hran')⟩

end execution

omit [NodeHash F] in
theorem Command.lawful_iff (c : Command) (vm : VM F S) : c.Lawful I vm ↔ c.Asked I vm := by
  cases c with
  | transition now id word =>
    constructor
    · intro h newState storage lifecycle hword hloads
      exact (h true _ ⟨newState, _, hword,
        prepareUpdate_eq_ok_iff.mpr ⟨storage, lifecycle, hloads, rfl, rfl⟩, rfl⟩).1
    · rintro h ran rewrite ⟨newState, vm', hword, hprepare, rfl⟩
      obtain ⟨storage, lifecycle, hloads, -, rfl⟩ := prepareUpdate_eq_ok_iff.mp hprepare
      exact ⟨h newState storage lifecycle hword hloads, rfl⟩
  | execute fuel now ledgerNow auth id =>
    constructor
    · intro h vm₁ hadmit
      exact (executionLawful_iff now).mp fun ran rewrite vm' hprepare =>
        h ran rewrite ⟨vm₁, vm', hadmit, hprepare⟩
    · rintro h ran rewrite ⟨vm₁, vm', hadmit, hprepare⟩
      exact (executionLawful_iff now).mpr (h vm₁ hadmit) ran rewrite vm' hprepare
  | executeProposal fuel now ledgerNow id =>
    constructor
    · intro h
      exact (executionLawful_iff now).mp fun ran rewrite vm' hprepare =>
        h ran rewrite ⟨vm', hprepare⟩
    · rintro h ran rewrite ⟨vm', hprepare⟩
      exact (executionLawful_iff now).mpr h ran rewrite vm' hprepare

/-- In a run of commands every write is permitted, and none is made after failed logic, iff every
transition that is asked for is permitted from the stored state, and every execution that is
admitted finds its proposal in `Voting` and logic that succeeds (unless the proposal is executed
already, or the logic does not parse or never returns). -/
theorem lawful_iff_asked (I : Type) [VoteRequirements I F] [Serde (ProposalLifecycle I)]
    (commands : List Command) (vm : VM F S) :
    Meets (Command.after I) (Command.Lawful I) commands vm ↔
      Meets (Command.after I) (Command.Asked I) commands vm :=
  meets_iff_meets (Q := fun _ _ => True) (J := fun _ => True) (fun c vm _ _ => c.lawful_iff vm)
    (fun _ _ _ _ _ => trivial) (meets_of_forall (fun _ _ _ => trivial) vm) trivial

end runs

/-- The proposal that has been executed is made a draft. -/
theorem executed_redrafted : ¬ ∀ (F S I : Type) [Number F] [ListingBackend S] [NodeHash F]
    [SerdeJson] [Dsl F] [VoteRequirements I F] [Serde (ProposalLifecycle I)] [Serde JsonValue]
    (commands : List Command) (vm : VM F S),
    Meets (Command.after I) (Command.Lawful I) commands vm := by
  intro h
  let order : HashOrder := ⟨fun keys => keys.sort (· ≤ ·), fun keys => keys.sort_nodup _,
    Finset.mem_sort _⟩
  let hash : NodeHash Binary64 := {
    toString := fun _ => "null"
    fromStr := fun _ => .error "invalid type: null, expected struct DagNode"
    sha256 := fun _ => "" }
  let dsl : Dsl Binary64 := ⟨fun _ => .ok []⟩
  let requirements : VoteRequirements String Binary64 :=
    ⟨fun _ => Number.ofNat 50, fun _ => Number.ofNat 50⟩
  let json : Serde JsonValue := ⟨"serde_json::Value", fun _ => .ok "null".toUTF8, fun _ => .ok .null⟩
  have hlawful := (h Binary64 InMemoryStorage String [.transition 0 "p1" "draft"]
    (roofVm .executed)).1
  have hloads : Loads (roofVm .executed) "p1" _ (roofRepair .executed) :=
    ⟨roofStorage .executed, rfl, rfl, getJson_roofRepair rfl⟩
  have hpermitted := (hlawful true _ ⟨.draft, _, by decide +kernel,
    prepareUpdate_eq_ok_iff.mpr ⟨_, _, hloads, rfl, rfl⟩, rfl⟩).1
  exact absurd (hpermitted.2 (.inl rfl)) (by decide)

end Governance

end Covm
