import Covm.Governance.Proposals
import Covm.Number.Text
import Covm.Storage.Tokens
import Covm.Vm.Simulation

/-!
# The weight of a vote (`calculate_vote_weight` in `governance/proposal_lifecycle.rs`)

The weight is the value of the choice times a factor, which most strategies read from the storage.
The VM's `get_f64` and `get_string` are not among the sources and are parameters; of `get_f64` only
what a missing key gives is assumed. Under `Reputation` the factor is read under a key of its own,
which `IncrementReputation` does not write.
-/

namespace Covm

open Partial

inductive VoteChoice where
  | yes
  | no
  | abstain
  deriving DecidableEq

class SquareRoot (F : Type) where
  sqrt : F → F

/-- The methods of the VM that read a value from its storage. -/
class StoredValues (F S : Type) where
  getF64 : VM F S → String → Option AuthContext → Except String (Option F)
  getString : VM F S → String → Option AuthContext → Except String (Option String)

/-- `f64::min`: a NaN is ignored. -/
def Number.min {F : Type} [Number F] (a b : F) : F :=
  if Number.ne a a then b else if Number.ne b b then a else if Number.lt b a then b else a

/-- `n as f64` for a signed integer. -/
def Number.ofInt {F : Type} [Number F] (n : Int) : F :=
  if n < 0 then Number.neg (Number.ofNat n.natAbs) else Number.ofNat n.natAbs

/-- `chrono`'s `timestamp`, in seconds. -/
def DateTime.timestamp (t : DateTime) : Int := t / 1000000000

namespace Governance

variable {F S I : Type} [Number F]

def VoteChoice.baseValue : VoteChoice → F
  | .yes => Number.ofNat 1
  | .no => Number.ofNat 1
  | .abstain => Number.ofNat 0

def weightKey (voter field : String) : String := s!"identity:{voter}/{field}"

variable [SquareRoot F] [StoredValues F S]

/-- The number under a key, or the default. -/
def storedFactor (vm : VM F S) (auth : Option AuthContext) (key : String) (default : F) :
    Except String F := do
  return (← StoredValues.getF64 vm key auth).getD default

def calculateVoteWeight (now : DateTime) (p : ProposalLifecycle I) (vm : VM F S) (voter : String)
    (choice : VoteChoice) (auth : Option AuthContext) : Except String F := do
  let baseValue : F := VoteChoice.baseValue choice
  match p.voteWeighting with
  | .equal => return baseValue
  | .reputation =>
    let reputation ← storedFactor vm auth (weightKey voter "reputation") (Number.ofNat 1)
    return Number.mul baseValue reputation
  | .stake =>
    let stake ← storedFactor vm auth (weightKey voter "stake") (Number.ofNat 1)
    return Number.mul baseValue stake
  | .tenure =>
    match ← StoredValues.getF64 vm (weightKey voter "join_date") auth with
    | some joined =>
      let years := Number.div (Number.sub (Number.ofInt now.timestamp) joined)
        (Number.ofNat 31536000)
      let tenth : F := Number.div (Number.ofNat 1) (Number.ofNat 10)
      let weight := Number.add (Number.ofNat 1)
        (Number.mul (Number.min years (Number.ofNat 10)) tenth)
      return Number.mul baseValue weight
    | none => return baseValue
  | .quadratic =>
    let credits ← storedFactor vm auth s!"proposal:{p.id}/vote_credits/{voter}" (Number.ofNat 1)
    return Number.mul baseValue (SquareRoot.sqrt credits)
  | .delegated =>
    let count ← storedFactor vm auth (weightKey voter "delegated_votes") (Number.ofNat 0)
    return Number.mul baseValue (Number.add (Number.ofNat 1) count)
  | .custom algorithm =>
    -- the code of the algorithm is looked up and not run
    let _ ← StoredValues.getString vm s!"weight_algo:{algorithm}" auth
    return baseValue

end Governance

/-! ### What reputation increments leave alone -/

/-- A write under a key does not make another key appear or disappear. -/
class StorageBackend.KeepsOthers (S : Type) [StorageBackend S] : Prop where
  contains_set : ∀ (auth auth' : Option AuthContext) (ns key key' : String) (bytes : ByteArray)
    (b : S), key' ≠ key →
    StorageBackend.contains (final (StorageBackend.set auth ns key bytes b)) auth' ns key' =
      StorageBackend.contains b auth' ns key'

instance InMemoryStorage.keepsOthers : StorageBackend.KeepsOthers InMemoryStorage where
  contains_set := by
    intro auth auth' ns key key' bytes s hne
    show InMemoryStorage.contains (final (InMemoryStorage.set auth ns key bytes s)) auth' ns key' =
      InMemoryStorage.contains s auth' ns key'
    have hpair : (ns, key') ≠ (ns, key) := fun h => hne (Prod.ext_iff.mp h).2
    obtain ⟨e, -, herr⟩ | ⟨e, -, herr⟩ | ⟨a, s', rfl, hok, hstored⟩ :=
      InMemoryStorage.set_cases auth ns key bytes s
    · rw [herr, final_error]
    · rw [herr, final_error, InMemoryStorage.contains, InMemoryStorage.contains,
        InMemoryStorage.recordForRollback_data]
    · rw [hok, final_ok, InMemoryStorage.contains, InMemoryStorage.contains, hstored.data,
        Function.update_of_ne hpair]

namespace EconomicOperations

variable {S : Type} [StorageBackend S] {P : S → Prop}

theorem storedU64_keeps (auth : Option AuthContext) (ns key : String) :
    Keeps P (storedU64 auth ns key) := by
  refine (StorageM.query_keeps _).bind fun found => .ite ?_ (.pure _)
  refine (StorageM.query_keeps _).bind fun bytes => ?_
  cases String.fromUTF8? bytes with
  | none => exact .pure _
  | some s => exact .pure _

end EconomicOperations

namespace VMExecution

variable {F S : Type} [StorageBackend S]

/-- There is a backend, and it has no such key in the namespace. -/
def Lacks (auth : Option AuthContext) (key : String) (x : VMExecution S) : Prop :=
  ∃ backend, x.storageBackend = some backend ∧
    StorageBackend.contains backend auth x.ns key = .ok false

theorem storageOperation_lacks {α : Type} (operationName : String)
    {f : Option AuthContext → String → StorageM S α} {auth : Option AuthContext} {key : String}
    (h : ∀ writer ns, Keeps (fun b => StorageBackend.contains b auth ns key = .ok false)
      (f writer ns)) :
    Keeps (Lacks auth key) (storageOperation operationName f : ExecutorOp F S α) := by
  rintro x ⟨backend, hbackend, habsent⟩
  have hkept := h x.authContext x.ns backend habsent
  unfold storageOperation
  rw [hbackend]
  dsimp only
  cases hf : f x.authContext x.ns backend with
  | ok a b =>
    rw [hf] at hkept
    exact ⟨b, rfl, hkept⟩
  | error e b =>
    rw [hf] at hkept
    cases e with
    | error e => exact ⟨b, rfl, hkept⟩
    | panic => exact ⟨b, rfl, hkept⟩

theorem logStorageEvent_lacks (category label : String) (event : Option StorageEvent)
    {auth : Option AuthContext} {key : String} :
    Keeps (Lacks auth key) (logStorageEvent category label event : ExecutorOp F S Unit) := by
  cases event with
  | none => exact .pure _
  | some e => exact fun _ h => h

variable [Number F]

omit [StorageBackend S] in
theorem reputationAmount_final (amount : Option (TypedValue F)) (x : VMExecution S) :
    final ((reputationAmount amount : ExecutorOp F S Nat) x) = x := by
  cases amount with
  | none => rfl
  | some value =>
    rw [reputationAmount]
    cases value.asNumber with
    | error e => cases e <;> rfl
    | ok num =>
      dsimp only
      split_ifs <;> rfl

/-- An increment keeps every absent key but its own absent. -/
theorem executeIncrementReputation_lacks [StorageBackend.KeepsOthers S] (identityId : String)
    (amount : Option (TypedValue F)) {auth : Option AuthContext} {key : String}
    (hkey : key ≠ EconomicOperations.reputationKey identityId) :
    Keeps (Lacks auth key)
      (executeIncrementReputation identityId amount : ExecutorOp F S Unit) := by
  refine (Keeps.of_final_eq (reputationAmount_final amount)).bind fun n => ?_
  refine Keeps.bind (fun _ h => h) fun _ => ?_
  rintro ⟨_, writer, ns, output, events, clock, reads, active⟩ ⟨backend, rfl, habsent⟩
  refine Keeps.bind ?_ (fun read => ?_) _ ⟨backend, rfl, habsent⟩
  · refine storageOperation_lacks _ fun writer ns => ?_
    exact (EconomicOperations.storedU64_keeps writer ns _).bind fun _ => .pure _
  · refine (logStorageEvent_lacks _ _ _).bind fun _ => ?_
    refine Keeps.bind (fun _ h => h) fun t => ?_
    refine (storageOperation_lacks _ fun writer ns => ?_).bind fun event =>
      logStorageEvent_lacks _ _ _
    refine (StorageM.addU64_keeps _ _).bind fun value => ?_
    refine Keeps.bind (fun b hb => ?_) fun _ => .pure _
    exact (StorageBackend.KeepsOthers.contains_set writer auth ns _ key _ b hkey).trans hb

end VMExecution

/-! ### The weight and the reputation -/

namespace Governance

/-- The arguments of an `IncrementReputation`. -/
structure Increment (F : Type) where
  amount : Option F
  reason : Option String

/-- What a successful increment adds. -/
def Increment.points {F : Type} [Number F] (i : Increment F) : Nat :=
  match i.amount with
  | none => 1
  | some x => Number.toU64 (Number.round x)

theorem weightKey_ne_reputationKey (voter field identityId : String) :
    weightKey voter field ≠ EconomicOperations.reputationKey identityId := by
  intro h
  change "identity:" ++ voter ++ "/" ++ field = "identities/" ++ identityId ++ "/reputation" at h
  have hchar := congrArg (fun s => s.toList[7]?) h
  simp at hchar

section
variable {F S I : Type} [Number F] [StorageBackend S] [SerdeJson]

def incrementReputation (voter : String) (i : Increment F) : Exec F S Flow :=
  VM.executePlain (.incrementReputation voter i.amount i.reason)

/-- The VM after an increment, whether it succeeds or not. -/
def incremented (voter : String) (i : Increment F) (vm : VM F S) : VM F S :=
  final (incrementReputation voter i vm)

/-- The points of the increments that succeed. -/
def earned (voter : String) : List (Increment F) → VM F S → List Nat
  | [], _ => []
  | i :: is, vm =>
    (if succeeded (incrementReputation voter i vm) then [i.points] else []) ++
      earned voter is (incremented voter i vm)

/-- The total, and `1` if there is none. -/
def reputationWeight (points : List Nat) : F :=
  if points = [] then Number.ofNat 1 else Number.ofNat points.sum

theorem incremented_executor (voter : String) (i : Increment F) (vm : VM F S) :
    (incremented voter i vm).executor = final (VMExecution.executeIncrementReputation voter
      (i.amount.map TypedValue.number) vm.executor : EStateM.Result (Stop (Fault F)) _ Unit) := by
  have hbasic : VM.executeBasic (.incrementReputation voter i.amount i.reason : Op F) =
      some (VM.onExecutor (VMExecution.executeIncrementReputation voter
        (i.amount.map TypedValue.number)) : Exec F S Unit) := rfl
  rw [incremented, incrementReputation, VM.executePlain_of_basic hbasic, Comp.final_bind_pure,
    VM.final_onExecutor]

variable [StorageBackend.KeepsOthers S]

theorem lacks_incremented (voter : String) {auth : Option AuthContext} {key : String}
    (hkey : key ≠ EconomicOperations.reputationKey voter) (increments : List (Increment F))
    {vm : VM F S} (h : vm.executor.Lacks auth key) :
    (runAll (incremented voter) increments vm).executor.Lacks auth key := by
  refine (meets_of_forall (P := fun _ _ => True) (fun _ _ _ => trivial) vm).invariant
    (I := fun vm : VM F S => vm.executor.Lacks auth key) (fun i vm _ hvm => ?_) h
  rw [incremented_executor]
  exact VMExecution.executeIncrementReputation_lacks voter _ hkey vm.executor hvm

variable [SquareRoot F] [StoredValues F S]

/-- The weight does not depend on the reputation. -/
theorem calculateVoteWeight_incremented
    (hget : ∀ (vm : VM F S) key auth, vm.executor.Lacks auth key →
      StoredValues.getF64 vm key auth = .ok none)
    (now : DateTime) {p : ProposalLifecycle I} (hp : p.voteWeighting = .reputation) {voter : String}
    {choice : VoteChoice} {auth : Option AuthContext} (increments : List (Increment F))
    {vm : VM F S} (h : vm.executor.Lacks auth (weightKey voter "reputation")) :
    calculateVoteWeight now p (runAll (incremented voter) increments vm) voter choice auth =
      .ok (Number.mul (VoteChoice.baseValue choice) (Number.ofNat 1) : F) := by
  have hlacks := lacks_incremented voter (weightKey_ne_reputationKey voter _ voter) increments h
  unfold calculateVoteWeight storedFactor
  rw [hp, hget _ _ _ hlacks]
  rfl

end

end Governance

/-! ### IEEE numbers -/

namespace Governance

section
variable {fmt : Format} {S I : Type} [StorageBackend S] [SerdeJson] [StorageBackend.KeepsOthers S]
  [SquareRoot (Ieee fmt)] [StoredValues (Ieee fmt) S]

omit [StorageBackend S] [SerdeJson] [StorageBackend.KeepsOthers S] [SquareRoot (Ieee fmt)]
  [StoredValues (Ieee fmt) S] in
theorem reputationWeight_eq_one_iff {points : List Nat} :
    (.ok (Number.ofNat 1) : Except String (Ieee fmt)) = .ok (reputationWeight points) ↔
      points = [] ∨ points.sum = 1 := by
  rw [Except.ok.injEq, reputationWeight]
  split_ifs with hnone
  · exact iff_of_true rfl (.inl hnone)
  · rw [or_iff_right hnone, eq_comm]
    exact Ieee.ofNat_eq_one_iff

/-- A decided vote has the weight `1`. -/
theorem weight_eq_one (hget : ∀ (vm : VM (Ieee fmt) S) key auth, vm.executor.Lacks auth key →
      StoredValues.getF64 vm key auth = .ok none)
    (now : DateTime) {p : ProposalLifecycle I} (hp : p.voteWeighting = .reputation) {voter : String}
    {choice : VoteChoice} (hchoice : choice = .yes ∨ choice = .no) {auth : Option AuthContext}
    (increments : List (Increment (Ieee fmt))) {vm : VM (Ieee fmt) S}
    (hstart : vm.executor.Lacks auth (weightKey voter "reputation")) :
    calculateVoteWeight now p (runAll (incremented voter) increments vm) voter choice auth =
      .ok (Number.ofNat 1 : Ieee fmt) := by
  have hbase : (VoteChoice.baseValue choice : Ieee fmt) = Number.ofNat 1 := by
    rcases hchoice with rfl | rfl <;> rfl
  rw [calculateVoteWeight_incremented hget now hp increments hstart, hbase]
  exact congrArg Except.ok Ieee.one_mul_one

/-- The weight of a decided vote is the reputation iff that is `1` or there is none. -/
theorem weight_eq_reputation_iff
    (hget : ∀ (vm : VM (Ieee fmt) S) key auth, vm.executor.Lacks auth key →
      StoredValues.getF64 vm key auth = .ok none)
    (now : DateTime) {p : ProposalLifecycle I} (hp : p.voteWeighting = .reputation) {voter : String}
    {choice : VoteChoice} (hchoice : choice = .yes ∨ choice = .no) {auth : Option AuthContext}
    (increments : List (Increment (Ieee fmt))) {vm : VM (Ieee fmt) S}
    (hstart : vm.executor.Lacks auth (weightKey voter "reputation")) :
    calculateVoteWeight now p (runAll (incremented voter) increments vm) voter choice auth =
        .ok (reputationWeight (earned voter increments vm)) ↔
      earned voter increments vm = [] ∨ (earned voter increments vm).sum = 1 := by
  rw [weight_eq_one hget now hp hchoice increments hstart]
  exact reputationWeight_eq_one_iff

end

/-- What is stored under a key, as text; nothing if there is no such key. -/
def storedText {F S : Type} [StorageBackend S] (vm : VM F S) (key : String)
    (auth : Option AuthContext) : Except String (Option String) :=
  match vm.executor.storageBackend with
  | none => .error "Storage backend not available"
  | some backend => do
    let ns := vm.executor.ns
    let found ← (StorageBackend.contains backend auth ns key).mapError StorageError.debug
    if found then
      let bytes ← (StorageBackend.get backend auth ns key).mapError StorageError.debug
      return String.fromUTF8? bytes
    else return none

@[reducible] def readStored (F S : Type) [Number F] [StorageBackend S] : StoredValues F S where
  getF64 vm key auth := do return (← storedText vm key auth) >>= Number.parse
  getString := storedText

theorem getF64_readStored {F S : Type} [Number F] [StorageBackend S] (vm : VM F S) (key : String)
    (auth : Option AuthContext) (h : vm.executor.Lacks auth key) :
    (readStored F S).getF64 vm key auth = .ok none := by
  obtain ⟨backend, hbackend, habsent⟩ := h
  have htext : storedText vm key auth = .ok none := by
    rw [storedText, hbackend]
    dsimp only
    rw [habsent]
    rfl
  show (do return (← storedText vm key auth) >>= Number.parse : Except String _) = _
  rw [htext]
  rfl

/-- An administrator's VM. -/
def awarding : VM Binary64 InMemoryStorage := { simulating with simulationMode := false }

theorem awarding_lacks (voter : String) :
    awarding.executor.Lacks (some InMemoryStorage.admin) (weightKey voter "reputation") :=
  ⟨InMemoryStorage.adminStorage, rfl, rfl⟩

def weightedProposal : ProposalLifecycle String :=
  .new 0 "roof" "alice" "Fix the roof" .none 50 .reputation none none

/-- After one increment the weight is the reputation, after two it is not. -/
theorem weight_eq_reputation_iff_roof :
    @calculateVoteWeight Binary64 InMemoryStorage String _ ⟨id⟩ (readStored _ _) 0
        weightedProposal (runAll (incremented "alice") [⟨none, none⟩] awarding) "alice" .yes
        (some InMemoryStorage.admin) =
      .ok (reputationWeight (earned "alice" [⟨none, none⟩] awarding)) ∧
    @calculateVoteWeight Binary64 InMemoryStorage String _ ⟨id⟩ (readStored _ _) 0
        weightedProposal (runAll (incremented "alice") [⟨none, none⟩, ⟨none, none⟩] awarding)
        "alice" .yes (some InMemoryStorage.admin) ≠
      .ok (reputationWeight (earned "alice" [⟨none, none⟩, ⟨none, none⟩] awarding)) := by
  have hiff (increments : List (Increment Binary64)) :=
    @weight_eq_reputation_iff _ _ _ _ _ _ ⟨id⟩ (readStored _ _) getF64_readStored 0
      weightedProposal rfl "alice" .yes (.inl rfl) (some InMemoryStorage.admin) increments awarding
      (awarding_lacks "alice")
  have hone : earned "alice" [⟨none, none⟩] awarding = [1] := by decide
  have htwo : earned "alice" [⟨none, none⟩, ⟨none, none⟩] awarding = [1, 1] := by decide
  rw [hiff, ne_eq, hiff, hone, htwo]
  decide

/-- After two increments the vote still has the weight `1`. -/
theorem not_weight_eq_reputation :
    ¬ ∀ increments : List (Increment Binary64),
      @calculateVoteWeight Binary64 InMemoryStorage String _ ⟨id⟩ (readStored _ _) 0
          weightedProposal (runAll (incremented "alice") increments awarding) "alice" .yes
          (some InMemoryStorage.admin) =
        .ok (reputationWeight (earned "alice" increments awarding)) := by
  intro h
  have hearned : earned "alice" [⟨none, none⟩, ⟨none, none⟩] awarding = [1, 1] := by
    decide
  have hone := @weight_eq_one _ _ _ _ _ _ ⟨id⟩ (readStored _ _) getF64_readStored 0
    weightedProposal rfl "alice" .yes (.inl rfl) (some InMemoryStorage.admin)
    [⟨none, none⟩, ⟨none, none⟩] awarding (awarding_lacks "alice")
  have htwo := hone.symm.trans (h [⟨none, none⟩, ⟨none, none⟩])
  rw [hearned] at htwo
  exact absurd (reputationWeight_eq_one_iff.mp htwo) (by decide)

end Governance

end Covm
