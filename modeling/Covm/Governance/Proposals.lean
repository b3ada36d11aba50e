import Covm.Governance.Lifecycle
import Covm.Number.Binary64
import Covm.Storage.Calls
import Covm.Vm.Fork
import Covm.Vm.Interp

/-!
# Proposals in the storage (`cli/proposal.rs`)

The operations of `VMProposalExtensions` and the commands that use them. Each operation that changes
a proposal forks the VM, writes to a further clone of the fork's storage and then ends the
transaction on the original VM. An operation is split where it starts to write, so that what it is
about to write can be spoken of: `prepareVote` and `castVote`, `prepareUpdate` and
`updateProposalState`, `prepareExecution` and `executeProposal`.

The compiler of the DSL, the text of a date and `serde_json` are parameters. The source reads two
fields of a lifecycle that it does not have, a quorum and a threshold in percent: they are
parameters as well. An operation is given the readings of the clock it takes.
-/

namespace Covm

open Partial

inductive ProposalStatus where
  | draft
  | deliberation
  | active
  | voting
  | approved
  | executed
  | rejected
  | expired
  deriving DecidableEq

structure Proposal where
  id : String
  creator : String
  status : ProposalStatus
  createdAt : DateTime
  expiresAt : Option DateTime
  logicPath : Option String
  discussionPath : Option String
  votesPath : Option String
  attachments : List String
  executionResult : Option String
  deliberationStartedAt : Option DateTime
  minDeliberationHours : Option Int
  deriving DecidableEq

/-- `serde_json::Value`, as far as it is used: texts, `null` and objects. -/
inductive JsonValue where
  | null
  | string (text : String)
  | object (fields : List (String × JsonValue))

def JsonValue.get (name : String) : JsonValue → Option JsonValue
  | .object fields => fields.lookup name
  | _ => none

def JsonValue.asStr : JsonValue → Option String
  | .string text => some text
  | _ => none

/-- `parse_dsl`; the error is shown as a text. -/
class Dsl (F : Type) where
  parseDsl : String → Except String (List (Op F))

/-- `to_rfc3339` -/
class DateText where
  toRfc3339 : DateTime → String

/-- The two percentages, as numbers. -/
class VoteRequirements (I F : Type) where
  quorum : ProposalLifecycle I → F
  threshold : ProposalLifecycle I → F

/-- A backend whose keys can be listed, in some order. -/
class ListingBackend (S : Type) extends ForkableBackend S where
  listKeys : S → Option AuthContext → String → Option String → Except StorageError (List String)

/-- The order in which a hash map gives its keys. -/
class HashOrder where
  order : Finset String → List String
  nodup_order (keys : Finset String) : (order keys).Nodup
  mem_order {keys : Finset String} {key : String} : key ∈ order keys ↔ key ∈ keys

instance [HashOrder] : ListingBackend InMemoryStorage where
  listKeys s auth ns start := do return HashOrder.order (← s.listKeys auth ns start)

inductive GovernanceError (F : Type) where
  | message (text : String)
  | vm (e : VMError F)
  | storage (e : StorageError)
  /-- `{context}: {e}` -/
  | failed (context : String) (e : StorageError)
  /-- `{context}: {e}`, where `e` is what is wrong with the bytes as UTF-8. -/
  | notUtf8 (context : String) (bytes : ByteArray)

inductive GovernanceFault (F : Type) where
  | error (e : GovernanceError F)
  | panic

/-- What is done with a VM. -/
abbrev Gov (F S α : Type) := Comp (GovernanceFault F) (VM F S) α

/-- What is done with a clone of its storage. -/
abbrev OnClone (F S α : Type) := EStateM (GovernanceFault F) S α

namespace Governance

section
variable {F S α : Type}

def vmStop : Stop (Fault F) → Stop (GovernanceFault F)
  | .fuel => .fuel
  | .fault (.error e) => .fault (.error (.vm e))
  | .fault .panic => .fault .panic

/-- A `VMError` with `?`. -/
def ofVm (x : Exec F S α) : Gov F S α := fun vm =>
  match x vm with
  | .ok a vm => .ok a vm
  | .error e vm => .error (vmStop e) vm

def raiseError (e : GovernanceError F) : Gov F S α := Comp.fail (.error e)

def raiseText (text : String) : Gov F S α := raiseError (.message text)

def ofResult : Except (GovernanceError F) α → Gov F S α
  | .ok a => pure a
  | .error e => raiseError e

theorem ofVm_eq_ok_iff {x : Exec F S α} {vm vm' : VM F S} {a : α} :
    ofVm x vm = .ok a vm' ↔ x vm = .ok a vm' := by
  unfold ofVm
  cases x vm <;> simp

theorem ofResult_eq_ok_iff {r : Except (GovernanceError F) α} {vm vm' : VM F S} {a : α} :
    ofResult r vm = .ok a vm' ↔ r = .ok a ∧ vm' = vm := by
  cases r with
  | ok b => simp [ofResult, eq_comm]
  | error e => simp [ofResult, raiseError]

theorem mapError_eq_ok_iff {ε ε' : Type} {r : Except ε α} {f : ε → ε'} {a : α} :
    r.mapError f = .ok a ↔ r = .ok a := by
  cases r <;> simp [Except.mapError]

theorem get_eq_ok_iff {vm vm' vm₁ : VM F S} :
    (EStateM.get : Gov F S (VM F S)) vm = .ok vm₁ vm' ↔ vm₁ = vm ∧ vm' = vm := by
  constructor
  · intro h
    cases h
    exact ⟨rfl, rfl⟩
  · rintro ⟨rfl, rfl⟩
    rfl

def backendOf (unavailable : String) (vm : VM F S) : Except (GovernanceError F) S :=
  match vm.executor.storageBackend with
  | some backend => .ok backend
  | none => .error (.message unavailable)

theorem backendOf_eq_ok_iff {unavailable : String} {vm : VM F S} {backend : S} :
    backendOf unavailable vm = .ok backend ↔ vm.executor.storageBackend = some backend := by
  unfold backendOf
  cases vm.executor.storageBackend <;> simp

def proposalKeyPrefix (id : String) : String := s!"governance_proposals/{id}"

def proposalLifecycleKey (id : String) : String := s!"{proposalKeyPrefix id}/lifecycle"

def proposalDescriptionKey (id : String) : String := s!"{proposalKeyPrefix id}/description"

def proposalLogicKey (id : String) : String := s!"{proposalKeyPrefix id}/logic"

def proposalVotesPrefix (id : String) : String := s!"{proposalKeyPrefix id}/votes"

def voteKey (id voter : String) : String := s!"{proposalVotesPrefix id}/{voter}"

/-- A storage call on a clone, with what is said of its error. -/
def storing (context : String) (x : StorageM S α) : OnClone F S α := fun s =>
  match x s with
  | .ok a s => .ok a s
  | .error (.error e) s => .error (.error (.failed context e)) s
  | .error .panic s => .error .panic s

/-! ### The ledger -/

/-- `TypedValue::Number(timestamp as f64).as_u64_safe(..)` of the seconds since 1970. -/
def ledgerTime [Number F] (t : DateTime) : Except (GovernanceError F) Nat :=
  let seconds := t / 1000000000
  if seconds < 0 then
    .error (.message "Failed to convert timestamp: Value out of bounds")
  else .ok (Number.toU64 (Number.round (Number.ofNat (F := F) seconds.toNat)))

/-- Appends a node, if there is a ledger. -/
def logNode [Number F] [NodeHash F] (now : DateTime)
    (node : DagLedger F → List String × NodeData F) : Gov F S Unit := fun vm =>
  match vm.dag with
  | none => .ok () vm
  | some ledger =>
    match ledgerTime now with
    | .error e => raiseError e vm
    | .ok timestamp =>
      let (parentIds, data) := node ledger
      .ok () { vm with
        dag := some (ledger.append ⟨"", parentIds, timestamp, vm.executor.ns, data⟩) }

def voteNumeric [Number F] (vote : String) : F :=
  if vote = "yes" then Number.ofNat 1
  else if vote = "no" then Number.ofNat 0
  else if vote = "abstain" then Number.div (Number.ofNat 1) (Number.ofNat 2)
  else Number.neg (Number.ofNat 1)

/-- `str::to_lowercase`, as far as texts of ASCII letters can tell: the Kelvin sign becomes `k`. -/
def toLowercase (s : String) : String :=
  s.map fun c => if c = '\u212A' then 'k' else c.toLower

end

/-! ## Reading -/

section reading
variable {F S I : Type}

def getProposalLifecycle [StorageBackend S] [Serde (ProposalLifecycle I)] (vm : VM F S)
    (id : String) : Except (GovernanceError F) (ProposalLifecycle I) := do
  let storage ← backendOf "Storage not available" vm
  (StorageExtensions.getJson (ProposalLifecycle I) storage vm.executor.authContext vm.executor.ns
    (proposalLifecycleKey id)).mapError (.failed "Failed to get proposal lifecycle")

theorem getProposalLifecycle_of_getJson [StorageBackend S] [Serde (ProposalLifecycle I)]
    {vm : VM F S} {backend : S} {id : String} {lifecycle : ProposalLifecycle I}
    (hbackend : vm.executor.storageBackend = some backend)
    (h : StorageExtensions.getJson (ProposalLifecycle I) backend vm.executor.authContext
      vm.executor.ns (proposalLifecycleKey id) = .ok lifecycle) :
    getProposalLifecycle vm id = .ok lifecycle := by
  unfold getProposalLifecycle
  rw [backendOf_eq_ok_iff.mpr hbackend]
  show (StorageExtensions.getJson (ProposalLifecycle I) backend vm.executor.authContext
    vm.executor.ns (proposalLifecycleKey id)).mapError _ = _
  rw [h]
  rfl

def getProposal [StorageBackend S] [Serde Proposal] (vm : VM F S) (id : String) :
    Except (GovernanceError F) Proposal := do
  let storage ← backendOf "Storage not available" vm
  (StorageExtensions.getJson Proposal storage vm.executor.authContext vm.executor.ns
    (proposalKeyPrefix id)).mapError (.failed "Failed to get proposal")

/-- The voter of a key and the vote kept under it. -/
def readVote [StorageBackend S] [Serde JsonValue] (vm : VM F S) (storage : S) (key : String) :
    Except (GovernanceError F) (String × String) := do
  let data ← (StorageExtensions.getJson JsonValue storage vm.executor.authContext vm.executor.ns
    key).mapError .storage
  let vote := ((data.get "vote").bind (·.asStr)).getD "abstain"
  return (((key.splitOn "/").getLast?).getD "unknown", vote)

def getProposalVotes [ListingBackend S] [Serde JsonValue] (vm : VM F S) (id : String) :
    Except (GovernanceError F) (List (String × String)) := do
  let storage ← backendOf "Storage not available" vm
  let keys ← (ListingBackend.listKeys storage vm.executor.authContext vm.executor.ns
    (some (proposalVotesPrefix id))).mapError .storage
  keys.mapM (readVote vm storage)

end reading

/-! ## Writing -/

section writing
variable {F S I : Type} [ForkableBackend S]

/-- Runs on a clone of the fork's storage; what becomes of the clone may reach the VM. -/
def onClone {α : Type} (clone : S) (x : OnClone F S α) : Gov F S α := fun vm =>
  match x clone with
  | .ok a clone => .ok a (vm.rejoined clone)
  | .error e clone => .error (.fault e) (vm.rejoined clone)

theorem onClone_eq_ok_iff {α : Type} {clone : S} {x : OnClone F S α} {vm vm' : VM F S} {a : α} :
    onClone clone x vm = .ok a vm' ↔
      ∃ clone', x clone = .ok a clone' ∧ vm' = vm.rejoined clone' := by
  unfold onClone
  cases x clone with
  | ok b clone' => simp [eq_comm]
  | error e clone' => simp

/-- A value that is about to be written to a clone of a fork's storage. -/
structure PendingWrite (S T : Type) where
  storage : S
  auth : Option AuthContext
  ns : String
  key : String
  value : T

def PendingWrite.save {T : Type} [Serde T] (context : String) (w : PendingWrite S T) :
    Gov F S Unit :=
  onClone w.storage (storing context (StorageExtensions.setJson w.auth w.ns w.key w.value))

/-- The fork of a VM and the clone of its storage that is written to. -/
def forkStorage : Gov F S (VM F S × S) := do
  let forked ← ofVm VM.fork
  let storage ← ofResult (backendOf "Storage not available" forked)
  return (forked, storage)

theorem forkStorage_eq_ok_iff {vm vm' forked : VM F S} {storage : S} :
    forkStorage vm = .ok (forked, storage) vm' ↔
      ∃ backend, vm.executor.storageBackend = some backend ∧
        ForkableBackend.beginTransaction backend = .ok () storage ∧
        forked = vm.forkedTo storage ∧ vm' = vm.rejoined storage := by
  unfold forkStorage
  simp only [Comp.bind_eq_ok_iff, ofVm_eq_ok_iff, ofResult_eq_ok_iff, backendOf_eq_ok_iff,
    VM.fork_eq_ok_iff, Comp.pure_apply]
  constructor
  · rintro ⟨f, vm₁, ⟨backend, s, hbackend, hbegin, rfl, rfl⟩, _, _, ⟨hs, rfl⟩, hpair⟩
    cases hs
    obtain ⟨⟨rfl, rfl⟩, rfl⟩ := EStateM.Result.ok.inj hpair
    exact ⟨backend, hbackend, hbegin, rfl, rfl⟩
  · rintro ⟨backend, hbackend, hbegin, rfl, rfl⟩
    exact ⟨_, _, ⟨backend, storage, hbackend, hbegin, rfl, rfl⟩, storage, _, ⟨rfl, rfl⟩, rfl⟩

def storeProposal [Serde Proposal] [Serde (ProposalLifecycle I)] (auth : Option AuthContext)
    (ns : String) (proposal : Proposal) (lifecycle : ProposalLifecycle I)
    (description logic : String) : OnClone F S Unit := do
  storing "Failed to store proposal"
    (StorageExtensions.setJson auth ns (proposalKeyPrefix proposal.id) proposal)
  storing "Failed to store proposal lifecycle"
    (StorageExtensions.setJson auth ns (proposalLifecycleKey proposal.id) lifecycle)
  storing "Failed to store proposal description"
    (StorageBackend.set auth ns (proposalDescriptionKey proposal.id) description.toUTF8)
  storing "Failed to store proposal logic"
    (StorageBackend.set auth ns (proposalLogicKey proposal.id) logic.toUTF8)

def createProposal [Number F] [NodeHash F] [Serde Proposal] [Serde (ProposalLifecycle I)]
    (now : DateTime) (proposal : Proposal) (lifecycle : ProposalLifecycle I)
    (description logic : String) : Gov F S Unit := do
  let (forked, storage) ← forkStorage
  onClone storage (storeProposal forked.executor.authContext forked.executor.ns proposal lifecycle
    description logic)
  ofVm VM.commitForkTransaction
  logNode now fun _ => ([], .proposalCreated proposal.id lifecycle.title)

/-- A lifecycle that was loaded, with what is to be written in its place. -/
structure Rewrite (S I : Type) extends PendingWrite S (ProposalLifecycle I) where
  loaded : ProposalLifecycle I

def loadLifecycle [Serde (ProposalLifecycle I)] (storage : S) (auth : Option AuthContext)
    (ns id : String) : Except (GovernanceError F) (ProposalLifecycle I) :=
  (StorageExtensions.getJson (ProposalLifecycle I) storage auth ns
    (proposalLifecycleKey id)).mapError (.failed "Failed to load proposal lifecycle")

def prepareUpdate [Serde (ProposalLifecycle I)] (now : DateTime) (id : String)
    (newState : ProposalState) : Gov F S (Rewrite S I) := do
  let (forked, storage) ← forkStorage
  let auth := forked.executor.authContext
  let ns := forked.executor.ns
  let lifecycle ← ofResult (loadLifecycle storage auth ns id)
  return {
    storage := storage
    auth := auth
    ns := ns
    key := proposalLifecycleKey id
    value := (lifecycle.inState newState).recorded now
    loaded := lifecycle }

def updateProposalState (I : Type) [Serde (ProposalLifecycle I)] (now : DateTime) (id : String)
    (newState : ProposalState) : Gov F S Unit := do
  let rewrite : Rewrite S I ← prepareUpdate now id newState
  rewrite.save "Failed to update proposal state"
  ofVm VM.commitForkTransaction

def voteData [DateText] (now : DateTime) (voter vote : String) (delegatedBy : Option String) :
    JsonValue :=
  .object [("voter", .string voter), ("vote", .string vote),
    ("timestamp", .string (DateText.toRfc3339 now)),
    ("delegated_by", (delegatedBy.map JsonValue.string).getD .null)]

def prepareVote [DateText] (now : DateTime) (id voter vote : String)
    (delegatedBy : Option String) : Gov F S (PendingWrite S JsonValue) := do
  let (forked, storage) ← forkStorage
  let auth := forked.executor.authContext
  let ns := forked.executor.ns
  if !(← ofResult ((StorageBackend.contains storage auth ns (proposalKeyPrefix id)).mapError
      .storage)) then
    raiseText s!"Proposal with ID '{id}' not found"
  return ⟨storage, auth, ns, voteKey id voter, voteData now voter vote delegatedBy⟩

def castVote [Number F] [NodeHash F] [DateText] [Serde JsonValue] (now ledgerNow : DateTime)
    (id voter vote : String) (delegatedBy : Option String) : Gov F S Unit := do
  let write ← prepareVote now id voter vote delegatedBy
  write.save "Failed to store vote"
  ofVm VM.commitForkTransaction
  logNode ledgerNow fun ledger =>
    ((ledger.findProposalNodeId id).toList,
      .voteCast id voter (voteNumeric (toLowercase vote)))

end writing

/-! ## Execution -/

section execution
variable {F S I : Type} [Number F] [ForkableBackend S] [SerdeJson] [Dsl F]

/-- The storage of a fork has become another. -/
def rejoinedFork (forked vm : VM F S) : VM F S :=
  forked.executor.storageBackend.elim vm vm.rejoined

/-- Runs the operations on the fork: whether they succeeded, and what has become of it. -/
def executeOnFork (fuel : Nat) (forked : VM F S) (ops : List (Op F)) :
    Gov F S (Except (VMError F) Unit × VM F S) := fun vm =>
  match VM.execute fuel ops forked with
  | .ok () forked => .ok (.ok (), forked) (rejoinedFork forked vm)
  | .error (.fault (.error e)) forked => .ok (.error e, forked) (rejoinedFork forked vm)
  | .error (.fault .panic) forked => .error (.fault .panic) (rejoinedFork forked vm)
  | .error .fuel forked => .error .fuel (rejoinedFork forked vm)

def succeededOf : Except (VMError F) Unit → Bool
  | .ok () => true
  | .error _ => false

/-- Whether the stored logic ran without error, and the fork it ran on. Logic that is not there or
is no text did not run; logic that does not parse is an error. -/
def runLogic (fuel : Nat) (forked : VM F S) (logic : Except StorageError ByteArray) :
    Gov F S (Bool × VM F S) :=
  match logic with
  | .error _ => pure (false, forked)
  | .ok bytes =>
    match String.fromUTF8? bytes with
    | none => pure (false, forked)
    | some text =>
      match Dsl.parseDsl text with
      | .error e => raiseText e
      | .ok ops => do
        let (result, forked) ← executeOnFork fuel forked ops
        return (succeededOf result, forked)

/-- Whether the logic succeeded, and what is written in any case. -/
def prepareExecution [Serde (ProposalLifecycle I)] (fuel : Nat) (now : DateTime) (id : String) :
    Gov F S (Bool × Rewrite S I) := do
  let (forked, storage) ← forkStorage
  let auth := forked.executor.authContext
  let ns := forked.executor.ns
  let lifecycle ← ofResult (loadLifecycle storage auth ns id)
  if lifecycle.state = .executed then
    raiseText s!"Proposal '{id}' has already been executed"
  let logic := StorageBackend.get storage auth ns (proposalLogicKey id)
  let (success, forked) ← runLogic fuel forked logic
  return (success, {
    storage := (forked.executor.storageBackend.map (rejoin storage)).getD storage
    auth := auth
    ns := ns
    key := proposalLifecycleKey id
    value := (lifecycle.inState .executed).recorded now
    loaded := lifecycle })

def executeProposal (I : Type) [NodeHash F] [Serde (ProposalLifecycle I)] (fuel : Nat)
    (now ledgerNow : DateTime) (id : String) : Gov F S Unit := do
  let (success, rewrite) ← (prepareExecution fuel now id : Gov F S (Bool × Rewrite S I))
  rewrite.save "Failed to update proposal lifecycle"
  ofVm VM.commitForkTransaction
  logNode ledgerNow fun ledger =>
    ((ledger.findVoteNodesFor id).map (·.id), .proposalExecuted id success)

end execution

/-! ## Commands -/

section commands
variable {F S I : Type} [ForkableBackend S]

/-- The check both commands start with; it is made for the caller of the command. -/
def requireProposal (unavailable : String) (auth : AuthContext) (id : String) : Gov F S Unit := do
  let vm ← get
  let storage ← ofResult (backendOf unavailable vm)
  if !(← ofResult ((StorageBackend.contains storage (some auth) vm.executor.ns
      (proposalKeyPrefix id)).mapError .storage)) then
    raiseText s!"Proposal with ID '{id}' not found"

/-- The words of the `transition` command. -/
def parseState (word : String) : Option ProposalState :=
  let word := toLowercase word
  if word = "draft" then some .draft
  else if word = "feedback" ∨ word = "open_for_feedback" ∨ word = "deliberation" then
    some .openForFeedback
  else if word = "voting" then some .voting
  else if word = "executed" then some .executed
  else if word = "rejected" then some .rejected
  else if word = "expired" then some .expired
  else none

def handleTransition (I : Type) [Serde (ProposalLifecycle I)] (now : DateTime) (id word : String) :
    Gov F S Unit :=
  match parseState word with
  | some newState => updateProposalState I now id newState
  | none => raiseText s!"Invalid state: {word}"

/-- `Duration::num_hours` -/
def numHours (d : Duration) : Int := d.tdiv 3600000000000

/-- The choice in small letters, if it is one. -/
def parseChoice (choice : String) : Option String :=
  let choice := toLowercase choice
  if choice = "yes" ∨ choice = "no" ∨ choice = "abstain" then some choice else none

def requireDeliberated (now : DateTime) (id : String) (lifecycle : ProposalLifecycle I) :
    Gov F S Unit :=
  match lifecycle.discussionDuration with
  | none => pure ()
  | some minDeliberation => do
    let elapsed := now - lifecycle.createdAt
    if elapsed < minDeliberation then
      raiseText (s!"⏳ Proposal '{id}' is still in deliberation.\n   " ++
        s!"Required: {numHours minDeliberation} hours\n   Elapsed: {numHours elapsed} hours")

/-- The checks of the vote command; the result is the vote that is cast. -/
def admitVote (I : Type) [Serde (ProposalLifecycle I)] (now : DateTime) (auth : AuthContext)
    (id choice : String) : Gov F S String := do
  requireProposal "Storage backend not configured for proposal vote" auth id
  let lifecycle : ProposalLifecycle I ← ofResult (getProposalLifecycle (← get) id)
  requireDeliberated now id lifecycle
  match parseChoice choice with
  | some vote => return vote
  | none => raiseText s!"Invalid vote choice: '{choice}'. Must be yes, no, or abstain"

/-- The clock is read before the vote is admitted, for the vote and for the ledger. -/
def handleVoteCommand (I : Type) [Number F] [NodeHash F] [SerdeJson] [Dsl F] [DateText]
    [Serde (ProposalLifecycle I)] [Serde JsonValue] (fuel : Nat) (now votedAt ledgerNow : DateTime)
    (auth : AuthContext) (id choice : String) (delegate : Option String) : Gov F S Unit := do
  let vote ← admitVote I now auth id choice
  let voter := auth.currentIdentityDid
  castVote votedAt ledgerNow id voter vote delegate
  match Dsl.parseDsl
      s!"increment_reputation \"{voter}\" reason=\"Voted on proposal {id}\"" with
  | .error e => raiseText e
  | .ok ops => ofVm (VM.execute fuel ops)

end commands

section execute
variable {F S I : Type} [Number F] [ListingBackend S]

/-- The numbers of yes votes, no votes and abstentions. -/
def tally (votes : List (String × String)) : Nat × Nat × Nat :=
  let words := votes.map fun vote => toLowercase vote.2
  (words.count "yes", words.count "no", words.count "abstain")

/-- The quorum and the threshold are met. -/
def passes [VoteRequirements I F] (lifecycle : ProposalLifecycle I)
    (votes : List (String × String)) : Bool :=
  let (yes, no, abstain) := tally votes
  let total := yes + no + abstain
  let hundred : F := Number.ofNat 100
  let yesRatio : F :=
    if 0 < total then Number.div (Number.ofNat yes) (Number.ofNat total) else Number.ofNat 0
  let required := lifecycle.requiredParticipants.getD 1
  let participation : F :=
    if 0 < required then Number.div (Number.ofNat total) (Number.ofNat required)
    else Number.ofNat 1
  Number.ge participation (Number.div (VoteRequirements.quorum lifecycle) hundred) &&
    Number.ge yesRatio (Number.div (VoteRequirements.threshold lifecycle) hundred)

/-- The checks of the execute command: whether the proposal has passed. -/
def admitExecution (I : Type) [VoteRequirements I F] [Serde (ProposalLifecycle I)]
    [Serde JsonValue] (auth : AuthContext) (id : String) : Gov F S Bool := do
  requireProposal "Storage backend not configured for proposal execution" auth id
  let vm ← get
  let votes ← ofResult (getProposalVotes vm id)
  let lifecycle : ProposalLifecycle I ← ofResult (getProposalLifecycle vm id)
  if lifecycle.state = .executed then
    raiseText s!"Proposal '{id}' has already been executed"
  return passes (F := F) lifecycle votes

/-- The failure of an execution is only announced. -/
def announced (x : Gov F S Unit) : Gov F S Unit := fun vm =>
  match x vm with
  | .error (.fault (.error _)) vm => .ok () vm
  | r => r

def handleExecuteCommand (I : Type) [NodeHash F] [SerdeJson] [Dsl F] [VoteRequirements I F]
    [Serde (ProposalLifecycle I)] [Serde JsonValue] (fuel : Nat) (now ledgerNow : DateTime)
    (auth : AuthContext) (id : String) : Gov F S Unit := do
  if ← admitExecution I auth id then
    announced (executeProposal I fuel now ledgerNow id)

end execute

/-! ### A proposal in a storage -/

/-- A proposal of alice, in a given state. -/
def roofRepair (state : ProposalState) : ProposalLifecycle String :=
  (ProposalLifecycle.new 0 "p1" "alice" "Roof repair" (.percentage 50) 50 .equal none
    none).inState state

def stateName : ProposalState → String
  | .draft => "Draft"
  | .openForFeedback => "OpenForFeedback"
  | .voting => "Voting"
  | .executed => "Executed"
  | .rejected => "Rejected"
  | .expired => "Expired"

def roofRepairHead : String :=
  "\x7b\"id\":\"p1\",\"creator\":\"alice\",\"created_at\":\"1970-01-01T00:00:00Z\",\"state\":\""

def roofRepairTail : String :=
  "\",\"title\":\"Roof repair\",\"quorum_method\":\x7b\"Percentage\":50\x7d," ++
    "\"approval_threshold\":50,\"expires_at\":null,\"discussion_duration\":null," ++
    "\"vote_weighting\":\"Equal\",\"required_participants\":null,\"current_version\":1," ++
    "\"auto_execute\":false,\"allow_early_execution\":false,\"min_voting_period\":null," ++
    "\"history\":[[\"1970-01-01T00:00:00Z\",\"Draft\"]],\"execution_status\":null\x7d"

def roofRepairText (state : ProposalState) : String :=
  roofRepairHead ++ stateName state ++ roofRepairTail

theorem roofRepairText_inj {state other : ProposalState} :
    (roofRepairText state).toUTF8 = (roofRepairText other).toUTF8 ↔ state = other := by
  refine ⟨fun h => ?_, fun h => by rw [h]⟩
  have htext : roofRepairText state = roofRepairText other := String.toByteArray_inj.mp h
  have hname : stateName state = stateName other :=
    (String.append_right_inj _).mp ((String.append_left_inj _).mp htext)
  cases state <;> cases other <;> first | rfl | exact absurd hname (by decide)

def allStates : List ProposalState :=
  [.draft, .openForFeedback, .voting, .executed, .rejected, .expired]

def readRoofRepair (bytes : ByteArray) : Except String (ProposalLifecycle String) :=
  (allStates.find? fun state => bytes = (roofRepairText state).toUTF8).elim
    (.error "invalid type") fun state => .ok (roofRepair state)

/-- `serde_json` on the texts of this one proposal. -/
instance : Serde (ProposalLifecycle String) where
  typeName := "icn_covm::governance::proposal_lifecycle::ProposalLifecycle"
  toVec lifecycle := .ok (roofRepairText lifecycle.state).toUTF8
  fromSlice := readRoofRepair

theorem fromSlice_lifecycle (bytes : ByteArray) :
    Serde.fromSlice (T := ProposalLifecycle String) bytes = readRoofRepair bytes := rfl

/-- A storage that holds the proposal. -/
def roofStorage (state : ProposalState) : InMemoryStorage :=
  let proposal := ("default", proposalKeyPrefix "p1")
  let lifecycle := ("default", proposalLifecycleKey "p1")
  let version := VersionInfo.new 0 "admin"
  { InMemoryStorage.adminStorage with
    data := (Maps.Table.put ∅ proposal "\x7b\x7d".toUTF8).put lifecycle
      (roofRepairText state).toUTF8
    versions := (Maps.Table.put ∅ proposal version).put lifecycle version }

theorem roofStorage_lifecycle (state : ProposalState) :
    (roofStorage state).data.get ("default", proposalLifecycleKey "p1") =
      some (roofRepairText state).toUTF8 := by
  unfold roofStorage
  rw [Maps.Table.get_put, Function.update_self]

theorem roofStorage_proposal (state : ProposalState) :
    (roofStorage state).data.get ("default", proposalKeyPrefix "p1") =
      some "\x7b\x7d".toUTF8 := by
  unfold roofStorage
  rw [Maps.Table.get_put, Function.update_of_ne (by decide), Maps.Table.get_put,
    Function.update_self]

theorem readRoofRepair_text (state : ProposalState) :
    readRoofRepair (roofRepairText state).toUTF8 = .ok (roofRepair state) := by
  have hfind : (allStates.find? fun other =>
      (roofRepairText state).toUTF8 = (roofRepairText other).toUTF8) = some state := by
    simp only [roofRepairText_inj]
    cases state <;> decide
  unfold readRoofRepair
  rw [hfind, Option.elim_some]

theorem getJson_of_data {T : Type} [Serde T] {s : InMemoryStorage} {auth : Option AuthContext}
    {ns key : String} {bytes : ByteArray}
    (hauth : InMemoryStorage.checkPermission auth "read" ns = .ok ())
    (hdata : s.data.get (ns, key) = some bytes) :
    StorageExtensions.getJson T s auth ns key = StorageExtensions.decode T bytes := by
  have hget : StorageBackend.get s auth ns key = .ok bytes := by
    show s.get auth ns key = _
    simp only [InMemoryStorage.get, hauth, bind, Except.bind, hdata]
  unfold StorageExtensions.getJson
  rw [hget]
  rfl

def roofVm (state : ProposalState) : VM Binary64 InMemoryStorage :=
  .setAuthContext InMemoryStorage.admin (.withStorageBackend (fun _ => 0) (roofStorage state))

theorem getJson_roofRepair {s : InMemoryStorage} {state : ProposalState}
    (h : s.data = (roofStorage state).data) :
    StorageExtensions.getJson (ProposalLifecycle String) s (some InMemoryStorage.admin) "default"
      (proposalLifecycleKey "p1") = .ok (roofRepair state) := by
  have hdata : s.data.get ("default", proposalLifecycleKey "p1") =
      some (roofRepairText state).toUTF8 := by rw [h, roofStorage_lifecycle]
  rw [getJson_of_data (InMemoryStorage.admin_permitted _ _) hdata]
  apply StorageExtensions.decode_of_ok
  rw [fromSlice_lifecycle, readRoofRepair_text]

theorem getProposalLifecycle_roofVm (state : ProposalState) :
    getProposalLifecycle (roofVm state) "p1" = .ok (roofRepair state) :=
  getProposalLifecycle_of_getJson rfl (getJson_roofRepair rfl)

theorem contains_roofStorage (state : ProposalState) (auth : Option AuthContext) :
    StorageBackend.contains (roofStorage state) auth "default" (proposalKeyPrefix "p1") =
      .ok true := by
  show Except.ok ((roofStorage state).data.get ("default", proposalKeyPrefix "p1")).isSome = _
  rw [roofStorage_proposal, Option.isSome_some]

end Governance

end Covm
