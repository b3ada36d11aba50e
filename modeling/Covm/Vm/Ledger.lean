import Covm.Files.Path

/-!
# The ledger of a VM (`icn-ledger`)

The VM records what happens to proposals as nodes of a ledger. A node is identified by a hash of its
serialized form. JSON and SHA-256 are parameters. A ledger may know the file it is kept in.
-/

namespace Covm

inductive NodeData (F : Type) where
  | proposalCreated (proposalId title : String)
  | voteCast (proposalId voter : String) (vote : F)
  | proposalExecuted (proposalId : String) (success : Bool)
  | tokenMinted (resource recipient : String) (amount : F)

structure DagNode (F : Type) where
  id : String
  parentIds : List String
  timestamp : Nat
  ns : String
  data : NodeData F

/-- `serde_json` on nodes. -/
class NodeJson (F : Type) where
  toString : DagNode F → String
  fromStr : String → Except String (DagNode F)

/-- The SHA-256 of a text, in hexadecimal digits. -/
class NodeHash (F : Type) extends NodeJson F where
  sha256 : String → String

/-- The hash of the serialized node. -/
def NodeHash.computeId {F : Type} [NodeHash F] (node : DagNode F) : String :=
  NodeHash.sha256 F (NodeJson.toString node)

structure DagLedger (F : Type) where
  nodes : List (DagNode F)
  filePath : Option Files.Path

namespace DagLedger

variable {F : Type}

def new : DagLedger F := ⟨[], none⟩

/-- Whatever identifier the node has is replaced. -/
def append [NodeHash F] (ledger : DagLedger F) (node : DagNode F) : DagLedger F :=
  { ledger with nodes := ledger.nodes ++ [{ node with id := NodeHash.computeId node }] }

def isProposal (proposalId : String) : NodeData F → Bool
  | .proposalCreated id _ => id == proposalId
  | _ => false

def isVoteFor (proposalId : String) : NodeData F → Bool
  | .voteCast id _ _ => id == proposalId
  | _ => false

def findProposalNodeId (ledger : DagLedger F) (proposalId : String) : Option String :=
  (ledger.nodes.find? fun node => isProposal proposalId node.data).map (·.id)

def findVoteNodesFor (ledger : DagLedger F) (proposalId : String) : List (DagNode F) :=
  ledger.nodes.filter fun node => isVoteFor proposalId node.data

end DagLedger

end Covm
