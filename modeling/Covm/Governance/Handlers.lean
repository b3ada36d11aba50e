import Covm.Vm.Vm

/-!
# Governance operations (`governance/*.rs`)

The four operations `execute_inner` hands to the governance module. The handlers compute with the
numbers on the stack; they read them with `pop_number`.

The delegation map is kept as JSON text in the memory's metadata; `SerdeJson` stands for the two
`serde_json` functions the handler calls.
-/

namespace Covm

open Partial VM

/-- `serde_json` on maps from strings to strings. -/
class SerdeJson where
  toText : HashMap String → String
  fromStr : String → Option (HashMap String)

namespace Governance

section handlers
variable {F S : Type} [Number F]

def popNumber (opName : String) : Exec F S F := onStack (VMStack.popNumber opName)

def governanceEvent (message : String) : Exec F S Unit := emitEvent "governance" message

/-- `if failed { return Err(GovernanceError(text)) }`. -/
def refuse (failed : Bool) (text : String) : Exec F S Unit :=
  if failed then raise (.governanceError text) else pure ()

/-- Pushes `0.0` if the threshold is met and `1.0` if not. -/
def pushVerdict (met : Bool) (subject : String) : Exec F S Unit :=
  if met then do
    push (.number (Number.ofNat 0))
    governanceEvent s!"{subject} threshold met"
  else do
    push (.number (Number.ofNat 1))
    governanceEvent s!"{subject} threshold not met"

def percent (x : F) : String := Number.fixed2 (Number.mul x (Number.ofNat 100)) ++ "%"

def handleQuorumThreshold (threshold : F) : Exec F S Unit := do
  refuse (Number.lt threshold (Number.ofNat 0) || Number.gt threshold (Number.ofNat 1))
    "QuorumThreshold must be between 0.0 and 1.0"
  let totalPossible ← popNumber "QuorumThreshold:total_possible"
  let votesCast ← popNumber "QuorumThreshold:votes_cast"
  refuse (Number.le totalPossible (Number.ofNat 0))
    "Total possible votes must be greater than zero"
  let ratio := Number.div votesCast totalPossible
  governanceEvent (s!"Quorum check: {Number.toStr votesCast}/{Number.toStr totalPossible} = " ++
    s!"{percent ratio}, threshold: {percent threshold}")
  pushVerdict (Number.ge ratio threshold) "Quorum"

def handleVoteThreshold (threshold : F) : Exec F S Unit := do
  refuse (Number.lt threshold (Number.ofNat 0)) "VoteThreshold must be non-negative"
  let totalVotes ← popNumber "VoteThreshold"
  governanceEvent (s!"Vote threshold check: {Number.fixed2 totalVotes} votes, " ++
    s!"threshold: {Number.fixed2 threshold}")
  pushVerdict (Number.ge totalVotes threshold) "Vote"

/-! ### Ranked-choice voting -/

/-- `n` pops in a row, the first one first. -/
def popMany (opName : String) : Nat → Exec F S (List F)
  | 0 => pure []
  | n + 1 => do
    let choice ← popNumber opName
    let rest ← popMany opName n
    return choice :: rest

def popBallots (candidates : Nat) : Nat → Exec F S (List (List F))
  | 0 => pure []
  | n + 1 => do
    let ballot ← popMany "RankedVote" candidates
    let rest ← popBallots candidates n
    return ballot :: rest

/-- The candidate a ballot counts for: its first choice that is still in the race. -/
def firstChoice (candidates : Nat) (eliminated : List Bool) (ballot : List F) : Option Nat :=
  (ballot.map Number.toU64).find? fun c => decide (c < candidates) && !(eliminated.getD c true)

def countVotes (candidates : Nat) (eliminated : List Bool) (ballots : List (List F)) : List Nat :=
  let choices := ballots.filterMap (firstChoice candidates eliminated)
  (List.range candidates).map fun c => choices.count c

/-- The first remaining candidate with the fewest votes, among those with a vote and fewer than
`limit`, and its votes; candidate `0` with `limit` votes if there is none. -/
def fewestVotes (limit : Nat) (eliminated : List Bool) (votes : List Nat) : Nat × Nat :=
  votes.zipIdx.foldl
    (fun (acc : Nat × Nat) (v : Nat × Nat) =>
      if !(eliminated.getD v.2 true) && decide (v.1 < acc.2) && decide (0 < v.1) then (v.2, v.1)
      else acc)
    (0, limit)

/-- One elimination in each round, for the given number of rounds. -/
def eliminationRounds (candidates ballots : Nat) (allBallots : List (List F)) :
    Nat → List Bool → Exec F S (List Bool)
  | 0, eliminated => pure eliminated
  | rounds + 1, eliminated => do
    let votes := countVotes candidates eliminated allBallots
    let limit ← addUsize ballots 1
    let (minCandidate, minVotes) := fewestVotes limit eliminated votes
    governanceEvent s!"Eliminated candidate {minCandidate} with {minVotes} votes"
    eliminationRounds candidates ballots allBallots rounds (eliminated.set minCandidate true)

def handleRankedVote (candidates ballots : Nat) : Exec F S Unit := do
  refuse (candidates < 2) "RankedVote requires at least 2 candidates"
  refuse (ballots < 1) "RankedVote requires at least 1 ballot"
  let allBallots ← popBallots candidates ballots
  governanceEvent
    s!"Running ranked-choice vote with {candidates} candidates and {ballots} ballots"
  let eliminated ← eliminationRounds candidates ballots allBallots (candidates - 1)
    (List.replicate candidates false)
  let winner := if eliminated.contains false then eliminated.idxOf false else 0
  governanceEvent s!"Winner of ranked-choice vote: candidate {winner}"
  push (.number (Number.ofNat winner))

/-! ### Liquid delegation -/

/-- Whether following the delegations from `current` meets a visited member. Each round visits
another member that delegates, so one round more than there are delegations is enough. -/
def reachesVisited (delegations : HashMap String) : Nat → Finset String → String → Bool
  | 0, _, _ => false
  | rounds + 1, visited, current =>
    if current.isEmpty then false
    else if current ∈ visited then true
    else reachesVisited delegations rounds (insert current visited)
      ((delegations.lookup current).getD "")

def delegationsKey : String := "governance_delegations"

/-- The delegation map the handler works on. -/
def loadDelegations [SerdeJson] (m : VMMemory F) : HashMap String :=
  match m.load delegationsKey with
  | .ok _ =>
    match m.getStringMetadata delegationsKey with
    | some metadata => (SerdeJson.fromStr metadata).getD ∅
    | none => ∅
  | .error _ => ∅

/-- Revokes the delegation of `source`, or makes one to `target`. -/
def updateDelegations (delegations : HashMap String) (source target : String) :
    Exec F S (HashMap String) :=
  if target.isEmpty then
    if (delegations.lookup source).isSome then do
      governanceEvent s!"Delegation revoked for {source}"
      return delegations.erase source
    else do
      governanceEvent s!"No delegation found to revoke for {source}"
      return delegations
  else do
    refuse (reachesVisited delegations (delegations.keys.card + 2) {source} target)
      s!"Delegation from {source} to {target} would create a cycle"
    governanceEvent s!"Delegation created from {source} to {target}"
    return delegations.insert source target

def handleLiquidDelegate [SerdeJson] (source target : String) : Exec F S Unit := do
  refuse source.isEmpty "LiquidDelegate requires a non-empty 'from' parameter"
  let delegations ← updateDelegations (loadDelegations (← get).memory.1) source target
  setStringMetadata delegationsKey (SerdeJson.toText delegations)
  store delegationsKey (.number (Number.ofNat delegations.keys.card))

/-- `Some(())` if the operation was handled. -/
def tryHandleGovernanceOp [SerdeJson] : Op F → Exec F S (Option Unit)
  | .rankedVote candidates ballots => some <$> handleRankedVote candidates ballots
  | .liquidDelegate source target => some <$> handleLiquidDelegate source target
  | .quorumThreshold threshold => some <$> handleQuorumThreshold threshold
  | .voteThreshold threshold => some <$> handleVoteThreshold threshold
  | _ => pure none

end handlers

end Governance

end Covm
