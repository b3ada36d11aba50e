import Covm.Ledger.UniqueIds
import Mathlib.Logic.Equiv.Basic

/-!
# Content addresses

A node should be stored under the hash of what it says, without its identifier. The hash is taken
before the identifier is emptied, and imports take the identifiers of a file as they are, so nodes
are addressed by their content exactly as long as the nodes that are appended have no identifier and
the nodes that are imported have the right one. What is hashed is JSON, in which amounts that are
not finite are the same.
-/

namespace Covm

open Files Maps Partial

namespace DagNode

variable {F : Type}

/-- What a node says, without its identifier. -/
def unnamed (node : DagNode F) : DagNode F := { node with id := "" }

def Addressed [NodeHash F] (node : DagNode F) : Prop := node.id = NodeHash.computeId node.unnamed

@[simp] theorem unnamed_unnamed (node : DagNode F) : node.unnamed.unnamed = node.unnamed := rfl

theorem eq_unnamed_iff {node : DagNode F} : node = node.unnamed ↔ node.id = "" := by
  obtain ⟨id, parentIds, timestamp, ns, data⟩ := node
  simp [unnamed]

theorem ext_unnamed {node node' : DagNode F} (hid : node.id = node'.id)
    (h : node.unnamed = node'.unnamed) : node = node' := by
  obtain ⟨id, parentIds, timestamp, ns, data⟩ := node
  obtain ⟨id', parentIds', timestamp', ns', data'⟩ := node'
  simp only [unnamed, mk.injEq, true_and] at h
  simp only at hid
  simp [hid, h]

end DagNode

/-- The identifier can be read off the JSON of a node. -/
def NodeJson.ShowsId (F : Type) [NodeJson F] : Prop :=
  ∀ node node' : DagNode F, NodeJson.toString node = NodeJson.toString node' → node.id = node'.id

namespace DagLedger

variable {F : Type} [NodeHash F]

/-- Nodes that say the same have one identifier, and a node that says something else does not
have it. -/
structure ContentAddressed (ledger : DagLedger F) : Prop where
  addressed : ∀ node ∈ ledger.nodes, node.Addressed
  same : ∀ node ∈ ledger.nodes, ∀ node' ∈ ledger.nodes, node.unnamed = node'.unnamed →
    node.id = node'.id
  unaltered : ∀ node ∈ ledger.nodes, ∀ node' ∈ ledger.nodes, node.id = node'.id → node = node'

theorem contentAddressed_iff {ledger : DagLedger F} :
    ledger.ContentAddressed ↔ (∀ node ∈ ledger.nodes, node.Addressed) ∧
      ∀ node ∈ ledger.nodes, ∀ node' ∈ ledger.nodes, node.id = node'.id → node = node' := by
  refine ⟨fun h => ⟨h.addressed, h.unaltered⟩, fun ⟨h, hunaltered⟩ => ⟨h, ?_, hunaltered⟩⟩
  intro node hnode node' hnode' hsame
  rw [h node hnode, h node' hnode', hsame]

/-- No node there says something else in the same JSON: two amounts that are not finite are both
written `null`. -/
def Distinguishes (ledger : DagLedger F) (node : DagNode F) : Prop :=
  ∀ other ∈ ledger.nodes, NodeJson.toString other.unnamed = NodeJson.toString node.unnamed →
    other.unnamed = node.unnamed

/-- A ledger and a list of new nodes. -/
theorem contentAddressed_append_iff {ledger : DagLedger F} (h : ledger.ContentAddressed)
    (nodes : List (DagNode F)) (path : Option Path) :
    (⟨ledger.nodes ++ nodes, path⟩ : DagLedger F).ContentAddressed ↔
      (∀ node ∈ nodes, node.Addressed) ∧
        (∀ node ∈ nodes, ∀ other ∈ ledger.nodes, other.id = node.id → other = node) ∧
        ∀ node ∈ nodes, ∀ node' ∈ nodes, node.id = node'.id → node = node' := by
  rw [contentAddressed_iff]
  simp only [List.forall_mem_append]
  constructor
  · rintro ⟨⟨-, haddressed⟩, hold, hnew⟩
    exact ⟨haddressed, fun node hnode other hother => (hold other hother).2 node hnode,
      fun node hnode => (hnew node hnode).2⟩
  · rintro ⟨haddressed, hold, hnew⟩
    refine ⟨⟨h.addressed, haddressed⟩, fun node hnode => ⟨h.unaltered node hnode, ?_⟩,
      fun node hnode => ⟨fun other hother hid => ?_, hnew node hnode⟩⟩
    · exact fun node' hnode' hid => hold node' hnode' node hnode hid
    · exact (hold node hnode other hother hid.symm).symm

end DagLedger

namespace LedgerCall

variable {F : Type} [NodeHash F]

/-- A node that is appended has no identifier, and no node there has the JSON of what it says
unless it says the same; one that is imported has the right identifier. -/
def Addresses : LedgerCall F → DagLedger F → Prop
  | append node, ledger => node.id = "" ∧ ledger.Distinguishes node
  | setPath _, _ => True
  | appendAndPersist node _, ledger =>
    ledger.filePath ≠ none → node.id = "" ∧ ledger.Distinguishes node
  | importFromFile path disk, ledger =>
    ∀ node : DagNode F, node ∈ missing DagNode.id (ledger.nodes.map (·.id))
      (DagLedger.fileNodes disk path) → node.Addressed

end LedgerCall

namespace DagLedger

variable {F : Type} [NodeHash F]

theorem contentAddressed_after_append_iff (hsha : Function.Injective (NodeHash.sha256 F))
    (hshows : NodeJson.ShowsId F) {ledger : DagLedger F} (h : ledger.ContentAddressed)
    (node : DagNode F) :
    (ledger.append node).ContentAddressed ↔ node.id = "" ∧ ledger.Distinguishes node := by
  -- what is compared are the texts that are hashed
  have haddressed : ({ node with id := NodeHash.computeId node } : DagNode F).Addressed ↔
      node.id = "" := by
    constructor
    · exact fun hid => hshows node node.unnamed (hsha hid)
    · exact fun hid => congrArg NodeHash.computeId (DagNode.eq_unnamed_iff.mpr hid)
  have hother (hid : node.id = "") (other : DagNode F) (hmem : other ∈ ledger.nodes) :
      (other.id = NodeHash.computeId node →
        other = { node with id := NodeHash.computeId node }) ↔
      (NodeJson.toString other.unnamed = NodeJson.toString node.unnamed →
        other.unnamed = node.unnamed) := by
    have hsame : other.id = NodeHash.computeId node ↔
        NodeJson.toString other.unnamed = NodeJson.toString node.unnamed := by
      rw [h.addressed other hmem, DagNode.eq_unnamed_iff.mpr hid]
      exact hsha.eq_iff
    rw [hsame]
    refine forall_congr' fun htext => ⟨fun heq => heq ▸ rfl, fun heq => ?_⟩
    exact DagNode.ext_unnamed (hsame.mpr htext) heq
  rw [append, contentAddressed_append_iff h]
  simp only [List.forall_mem_singleton, haddressed]
  constructor
  · rintro ⟨hid, hold, -⟩
    exact ⟨hid, fun other hmem => (hother hid other hmem).mp (hold other hmem)⟩
  · rintro ⟨hid, hdistinct⟩
    refine ⟨hid, fun other hmem => ?_, fun _ => trivial⟩
    exact (hother hid other hmem).mpr (hdistinct other hmem)

theorem contentAddressed_after_iff (hsha : Function.Injective (NodeHash.sha256 F))
    (hshows : NodeJson.ShowsId F) {ledger : DagLedger F} (h : ledger.ContentAddressed)
    (call : LedgerCall F) : (call.after ledger).ContentAddressed ↔ call.Addresses ledger := by
  cases call with
  | append node => exact contentAddressed_after_append_iff hsha hshows h node
  | setPath path => exact iff_of_true ⟨h.addressed, h.same, h.unaltered⟩ trivial
  | appendAndPersist node disk =>
    rw [LedgerCall.after, appendAndPersist_ledger, LedgerCall.Addresses]
    split_ifs with hpath
    · exact iff_of_true h (absurd hpath)
    · rw [contentAddressed_after_append_iff hsha hshows h]
      exact ⟨fun hnew _ => hnew, fun hnew => hnew hpath⟩
  | importFromFile path disk =>
    rw [LedgerCall.after, importFromFile_absorb, LedgerCall.Addresses, absorb_eq,
      contentAddressed_append_iff h]
    refine and_iff_left ⟨fun node hnode other hother hid => ?_, fun node hnode node' hnode' => ?_⟩
    · -- a node is imported under an identifier that is not there
      have hnew := (mem_missing.mp hnode).1
      exact absurd (hid ▸ List.mem_map_of_mem hother) hnew
    · exact List.inj_on_of_nodup_map (nodup_missing _ _) hnode hnode'

/-- Along a run the nodes are addressed by their content iff every call brings such nodes. -/
theorem contentAddressed_iff_addresses (hsha : Function.Injective (NodeHash.sha256 F))
    (hshows : NodeJson.ShowsId F) (calls : List (LedgerCall F)) :
    (∀ calls', calls' <+: calls → (runAll LedgerCall.after calls' new).ContentAddressed) ↔
      Meets LedgerCall.after LedgerCall.Addresses calls (new : DagLedger F) :=
  forall_prefix_iff_meets (I := ContentAddressed) (Q := fun _ => True) (J := fun _ => True)
    (fun _ _ _ _ => trivial) (fun call _ _ _ h => contentAddressed_after_iff hsha hshows h call)
    (fun _ _ => trivial) trivial
    ⟨List.forall_mem_nil _, List.forall_mem_nil _, List.forall_mem_nil _⟩

/-! ### With and without an identifier -/

def roofDoneText : String :=
  "\x7b\"id\":\"\",\"parent_ids\":[],\"timestamp\":1,\"namespace\":\"default\",\"data\":" ++
    "\x7b\"type\":\"ProposalExecuted\",\"proposal_id\":\"roof\",\"success\":true\x7d\x7d"

/-- The SHA-256 of the text. -/
def roofDoneHash : String := "1a7029219a680ec18a56d6828dc0836d9d8a93e0dc7525ba1a4f4253a56db1e7"

/-- `serde_json` and SHA-256 on the node of the text. -/
@[reducible] def doneSha256 : NodeHash Binary64 where
  toString node := if node.id = "" then roofDoneText else "[" ++ node.id
  fromStr text := if text = roofDoneText then .ok roofDone else .error "expected value"
  sha256 := Equiv.swap roofDoneText roofDoneHash

theorem showsId_doneSha256 : @NodeJson.ShowsId Binary64 doneSha256.toNodeJson := by
  have hother (id : String) : roofDoneText ≠ "[" ++ id := by
    intro h
    have hbrace : roofDoneText.toList.head? = some '\x7b' :=
      congrArg List.head? (Text.toList_append_of String.toList_ofList String.toList_ofList)
    rw [h, String.toList_append] at hbrace
    exact absurd (Option.some.inj hbrace) (by decide)
  intro node node' h
  change (if node.id = "" then roofDoneText else "[" ++ node.id) =
    if node'.id = "" then roofDoneText else "[" ++ node'.id at h
  split_ifs at h with hnode hnode' hnode'
  · rw [hnode, hnode']
  · exact absurd h (hother _)
  · exact absurd h.symm (hother _)
  · exact (String.append_right_inj _).mp h

/-- A node without an identifier is stored under the hash of what it says, and nodes like it too. -/
theorem contentAddressed_iff_addresses_roof :
    ∃ _ : NodeHash Binary64,
      NodeHash.computeId roofDone = roofDoneHash ∧
        (runAll LedgerCall.after [.append roofDone, .append roofDone] new).ContentAddressed := by
  let := doneSha256
  have htext : NodeJson.toString roofDone = roofDoneText := if_pos rfl
  have hmeets : Meets LedgerCall.after LedgerCall.Addresses [.append roofDone, .append roofDone]
      (new : DagLedger Binary64) := by
    refine ⟨⟨rfl, fun _ h => absurd h List.not_mem_nil⟩, ⟨rfl, ?_⟩, trivial⟩
    intro other hother _
    have hfirst : other = { roofDone with id := NodeHash.computeId roofDone } :=
      List.mem_singleton.mp hother
    rw [hfirst]
    rfl
  refine ⟨doneSha256, ?_, (contentAddressed_iff_addresses (Equiv.injective _) showsId_doneSha256
    _).mpr hmeets _ (List.prefix_refl _)⟩
  rw [NodeHash.computeId, htext]
  exact Equiv.swap_apply_left _ _

/-- The node with an identifier, whatever it is. -/
def roofNamed : DagNode Binary64 := { roofDone with id := "roof" }

/-- Under any hash without collisions, a node that has an identifier gets another one. -/
theorem not_contentAddressed_named :
    ¬ ∃ _ : NodeHash Binary64, Function.Injective (NodeHash.sha256 Binary64) ∧
      NodeJson.ShowsId Binary64 ∧
        (runAll LedgerCall.after [.append roofNamed] new).ContentAddressed := by
  rintro ⟨_, hsha, hshows, h⟩
  have hnew := h.addressed { roofNamed with id := NodeHash.computeId roofNamed }
    (List.mem_singleton_self _)
  have hid : "roof" = "" := hshows roofNamed roofNamed.unnamed (hsha hnew)
  exact absurd hid (by decide)

end DagLedger

end Covm
