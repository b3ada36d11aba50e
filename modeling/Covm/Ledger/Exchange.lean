import Covm.Ledger.Persistence
import Covm.Number.Binary64

/-!
# Exchanging what the other ledger misses

A ledger that imports the diff another one exported absorbs the other one: what it had stays in
place, and each identifier it missed comes in once, with the first node the other ledger has for it.
Neither ledger need have unique identifiers. What is exported is read as long as the file holds what
was written to it.
-/

namespace Covm

open Files Maps Text

namespace DagDiff

variable {F : Type}

def addedIds (diff : DagDiff F) : Finset String := (diff.added.map (·.id)).toFinset

def removedIds (diff : DagDiff F) : Finset String := (diff.removed.map (·.id)).toFinset

end DagDiff

namespace DagLedger

variable {F : Type}

/-- Every identifier of the two ledgers is in exactly one part of a diff. -/
structure Splits (A B : DagLedger F) (diff : DagDiff F) : Prop where
  added_removed : Disjoint diff.addedIds diff.removedIds
  added_common : Disjoint diff.addedIds diff.common
  removed_common : Disjoint diff.removedIds diff.common
  all : diff.addedIds ∪ diff.removedIds ∪ diff.common = A.ids ∪ B.ids

theorem mem_ids {ledger : DagLedger F} {id : String} :
    id ∈ ledger.ids ↔ id ∈ ledger.nodes.map (·.id) := List.mem_toFinset

theorem mem_ids_filter {ledger : DagLedger F} {p : String → Prop} [DecidablePred p] {id : String} :
    id ∈ ((ledger.nodes.filter fun node => p node.id).map (·.id)).toFinset ↔
      id ∈ ledger.ids ∧ p id := by
  simp only [mem_ids, List.mem_toFinset, List.mem_map, List.mem_filter, decide_eq_true_eq]
  constructor
  · rintro ⟨node, ⟨hnode, hp⟩, rfl⟩
    exact ⟨⟨node, hnode, rfl⟩, hp⟩
  · rintro ⟨⟨node, hnode, rfl⟩, hp⟩
    exact ⟨node, ⟨hnode, hp⟩, rfl⟩

theorem mem_addedIds {A B : DagLedger F} {id : String} :
    id ∈ (A.diffWith B).addedIds ↔ id ∈ A.ids ∧ id ∉ B.ids := by
  rw [DagDiff.addedIds, diffWith]
  exact mem_ids_filter (p := fun id => id ∉ B.ids)

theorem mem_removedIds {A B : DagLedger F} {id : String} :
    id ∈ (A.diffWith B).removedIds ↔ id ∈ B.ids ∧ id ∉ A.ids := by
  rw [DagDiff.removedIds, diffWith]
  exact mem_ids_filter (p := fun id => id ∉ A.ids)

theorem mem_common {A B : DagLedger F} {id : String} :
    id ∈ (A.diffWith B).common ↔ id ∈ A.ids ∧ id ∈ B.ids := Finset.mem_inter

theorem splits_diffWith (A B : DagLedger F) : Splits A B (A.diffWith B) where
  added_removed := by
    rw [Finset.disjoint_left]
    simp only [mem_addedIds, mem_removedIds]
    tauto
  added_common := by
    rw [Finset.disjoint_left]
    simp only [mem_addedIds, mem_common]
    tauto
  removed_common := by
    rw [Finset.disjoint_left]
    simp only [mem_removedIds, mem_common]
    tauto
  all := by
    ext id
    simp only [Finset.mem_union, mem_addedIds, mem_removedIds, mem_common]
    tauto

/-- The ledger with what another one has beyond it. -/
def merged (ledger other : DagLedger F) : DagLedger F :=
  { ledger with nodes := absorb DagNode.id ledger.nodes other.nodes }

/-- `B'` is `B` with `n` nodes of `A`, one for each identifier `B` misses. -/
structure Received (A B : DagLedger F) (n : Nat) (B' : DagLedger F) : Prop where
  nodes : ∃ added, B'.nodes = B.nodes ++ added ∧ added.length = n ∧
    (added.map (·.id)).Nodup ∧
    ∀ node, node ∈ added ↔ node.id ∉ B.ids ∧ A.findById node.id = some node
  filePath : B'.filePath = B.filePath
  ids : B'.ids = A.ids ∪ B.ids

theorem ids_merged (ledger other : DagLedger F) :
    (ledger.merged other).ids = other.ids ∪ ledger.ids := by
  ext id
  rw [Finset.mem_union, mem_ids, mem_ids, mem_ids, merged, mem_map_absorb, or_comm]

theorem received_merged (A B : DagLedger F) :
    Received A B (missing DagNode.id (B.nodes.map (·.id)) A.nodes).length (B.merged A) where
  nodes := by
    refine ⟨missing DagNode.id (B.nodes.map DagNode.id) A.nodes, absorb_eq B.nodes A.nodes, rfl,
      nodup_missing _ _, fun node => ?_⟩
    rw [mem_missing, mem_ids, findById]
  filePath := rfl
  ids := ids_merged B A

variable [NodeJson F]

theorem read_of_export {diff : DagDiff F} {path : Path} {disk disk' : Disk}
    (h : exportDiffToFile diff path disk = .ok () disk') :
    disk'.read path = .ok (jsonLines diff.added) := by
  simp only [exportDiffToFile, bind, EStateM.bind] at h
  cases hdirs : FileSystem.createDirAll path.parent disk with
  | error e disk₁ => simp [hdirs] at h
  | ok _ disk₁ =>
    rw [hdirs] at h
    exact FileSystem.read_of_write h

/-- Importing a diff is absorbing the whole ledger it comes from. -/
theorem import_diff {A B : DagLedger F} (hA : ∀ node ∈ A.nodes, NodeJson.Faithful node) {path : Path}
    {disk : Disk} (hread : disk.read path = .ok (jsonLines (A.diffWith B).added)) :
    importFromFile path (B, disk) =
      .ok (missing DagNode.id (B.nodes.map (·.id)) A.nodes).length (B.merged A, disk) := by
  have hadded : (A.diffWith B).added =
      A.nodes.filter fun node => node.id ∉ B.nodes.map (·.id) := by
    simp only [diffWith, mem_ids]
  rw [hadded] at hread
  rw [importFromFile_json hread fun node hnode => hA node (List.mem_of_mem_filter hnode),
    missing_filter, merged, absorb_eq, absorb_eq, missing_filter]

/-- The ledger has nothing to import from a diff whose nodes it has. -/
theorem import_known {diff : DagDiff F} {ledger : DagLedger F}
    (hfaithful : ∀ node ∈ diff.added, NodeJson.Faithful node) (hknown : diff.addedIds ⊆ ledger.ids)
    {path : Path} {disk : Disk} (hread : disk.read path = .ok (jsonLines diff.added)) :
    importFromFile path (ledger, disk) = .ok 0 (ledger, disk) := by
  have habsorb : absorb DagNode.id ledger.nodes diff.added = ledger.nodes := by
    apply absorb_of_subset
    intro id hid
    exact mem_ids.mp (hknown (List.mem_toFinset.mpr hid))
  have hmissing : absorb DagNode.id ledger.nodes diff.added =
      ledger.nodes ++ missing DagNode.id (ledger.nodes.map DagNode.id) diff.added :=
    absorb_eq ledger.nodes diff.added
  rw [habsorb, List.self_eq_append_right] at hmissing
  rw [importFromFile_json hread hfaithful, habsorb, hmissing]
  rfl

theorem faithful_merged {A B : DagLedger F} (hA : ∀ node ∈ A.nodes, NodeJson.Faithful node)
    (hB : ∀ node ∈ B.nodes, NodeJson.Faithful node) :
    ∀ node ∈ (B.merged A).nodes, NodeJson.Faithful node := by
  intro node hnode
  rw [merged, absorb_eq, List.mem_append] at hnode
  rcases hnode with hnode | hnode
  · exact hB node hnode
  · exact hA node (List.mem_of_find?_eq_some (mem_missing.mp hnode).2)

/-- The diff is imported once, whatever else happens to the disk, and the ledgers have the same
identifiers once one of them was sent back what it misses, before or after the import. -/
theorem exchange_converges {A B : DagLedger F} (hA : ∀ node ∈ A.nodes, NodeJson.Faithful node)
    (hB : ∀ node ∈ B.nodes, NodeJson.Faithful node) {path : Path} {before sent : Disk}
    (hsent : exportDiffToFile (A.diffWith B) path before = .ok () sent) :
    Splits A B (A.diffWith B) ∧
    ∃ n B', Received A B n B' ∧
      (∀ disk, disk.read path = sent.read path →
        importFromFile path (B, disk) = .ok n (B', disk) ∧
        importFromFile path (B', disk) = .ok 0 (B', disk)) ∧
      ∀ sender, sender = B ∨ sender = B' → ∀ back before' sent',
        exportDiffToFile (sender.diffWith A) back before' = .ok () sent' →
        ∃ m A', Received sender A m A' ∧
          (∀ disk, disk.read back = sent'.read back →
            importFromFile back (A, disk) = .ok m (A', disk)) ∧
          A'.ids = B'.ids := by
  refine ⟨splits_diffWith A B, _, B.merged A, received_merged A B, fun disk hdisk => ?_, ?_⟩
  · rw [read_of_export hsent] at hdisk
    refine ⟨import_diff hA hdisk, import_known ?_ ?_ hdisk⟩
    · exact fun node hnode => hA node (List.mem_of_mem_filter hnode)
    · intro id hid
      rw [ids_merged]
      exact Finset.mem_union_left _ (mem_addedIds.mp hid).1
  · intro sender hsender back before' sent' hback
    have hfaithful : ∀ node ∈ sender.nodes, NodeJson.Faithful node := by
      rcases hsender with rfl | rfl
      · exact hB
      · exact faithful_merged hA hB
    refine ⟨_, A.merged sender, received_merged sender A, fun disk hdisk => ?_, ?_⟩
    · rw [read_of_export hback] at hdisk
      exact import_diff hfaithful hdisk
    · rw [ids_merged, ids_merged]
      rcases hsender with rfl | rfl
      · exact Finset.union_comm _ _
      · rw [ids_merged, Finset.union_right_comm, Finset.union_self]

/-! ### Two ledgers with one node each -/

def roofCreated : DagNode Binary64 :=
  ⟨"0aa1", [], 1, "default", .proposalCreated "roof" "Roof repair"⟩

def roofExecuted : DagNode Binary64 := ⟨"0bb2", ["0aa1"], 2, "default", .proposalExecuted "roof" true⟩

def roofCreatedText : String :=
  "\x7b\"id\":\"0aa1\",\"parent_ids\":[],\"timestamp\":1,\"namespace\":\"default\",\"data\":" ++
    "\x7b\"type\":\"ProposalCreated\",\"proposal_id\":\"roof\",\"title\":\"Roof repair\"\x7d\x7d"

def roofExecutedText : String :=
  "\x7b\"id\":\"0bb2\",\"parent_ids\":[\"0aa1\"],\"timestamp\":2,\"namespace\":\"default\",\"data\":" ++
    "\x7b\"type\":\"ProposalExecuted\",\"proposal_id\":\"roof\",\"success\":true\x7d\x7d"

/-- `serde_json` on the two nodes. -/
instance (priority := low) : NodeJson Binary64 where
  toString node := if node.timestamp = 1 then roofCreatedText else roofExecutedText
  fromStr text :=
    if text = roofCreatedText then .ok roofCreated
    else if text = roofExecutedText then .ok roofExecuted
    else .error "expected value at line 1 column 1"

theorem toString_roofCreated : NodeJson.toString roofCreated = roofCreatedText := if_pos rfl

theorem toString_roofExecuted : NodeJson.toString roofExecuted = roofExecutedText :=
  if_neg (by decide)

/-- The text of an object with something inside, on one line. -/
structure IsObject (text : String) : Prop where
  braces : ∃ inside, text.toList = '\x7b' :: inside ++ ['\x7d'] ∧ inside ≠ []
  escaped : ∀ c ∈ text.toList, 0x20 ≤ c.toNat

theorem isObject_of_chars {text : String} {chars : List Char} (hchars : text.toList = chars)
    (h : (decide (chars = '\x7b' :: chars.tail.dropLast ++ ['\x7d']) &&
      decide (chars.tail.dropLast ≠ []) && chars.all fun c => decide (0x20 ≤ c.toNat)) = true) :
    IsObject text := by
  rw [Bool.and_eq_true, Bool.and_eq_true, decide_eq_true_eq, decide_eq_true_eq] at h
  obtain ⟨⟨hbraces, hinside⟩, hall⟩ := h
  refine ⟨⟨_, hchars.trans hbraces, hinside⟩, fun c hc => ?_⟩
  rw [hchars] at hc
  exact of_decide_eq_true (List.all_eq_true.mp hall c hc)

theorem IsObject.mem_brace {text : String} (h : IsObject text) : '\x7b' ∈ text.toList := by
  obtain ⟨inside, htext, -⟩ := h.braces
  rw [htext]
  exact List.mem_cons_self

theorem isObject_roofCreatedText : IsObject roofCreatedText := by
  apply isObject_of_chars
  · exact toList_append_of String.toList_ofList String.toList_ofList
  · decide

theorem isObject_roofExecutedText : IsObject roofExecutedText := by
  apply isObject_of_chars
  · exact toList_append_of String.toList_ofList String.toList_ofList
  · decide

theorem roofExecutedText_ne : roofExecutedText ≠ roofCreatedText := by
  apply ne_of_toList
  · exact toList_append_of String.toList_ofList String.toList_ofList
  · exact toList_append_of String.toList_ofList String.toList_ofList
  · decide

theorem faithful_roofCreated : NodeJson.Faithful roofCreated := by
  constructor
  · rw [toString_roofCreated]
    exact if_pos rfl
  · rw [NodeJson.Escaped, toString_roofCreated]
    exact isObject_roofCreatedText.escaped
  · rw [toString_roofCreated]
    exact isObject_roofCreatedText.mem_brace

theorem faithful_roofExecuted : NodeJson.Faithful roofExecuted := by
  constructor
  · rw [toString_roofExecuted]
    exact (if_neg roofExecutedText_ne).trans (if_pos rfl)
  · rw [NodeJson.Escaped, toString_roofExecuted]
    exact isObject_roofExecutedText.escaped
  · rw [toString_roofExecuted]
    exact isObject_roofExecutedText.mem_brace

/-- Any diff can be exported to a new file in the current directory. -/
theorem export_empty (diff : DagDiff Binary64) :
    ∃ sent, exportDiffToFile diff [.name "diff.jsonl"] FileSystem.empty = .ok () sent := by
  have hname : '\x00' ∉ "diff.jsonl".toList := by decide
  obtain ⟨sent, hsent⟩ := FileSystem.write_empty hname (jsonLines diff.added)
  exact ⟨sent, hsent⟩

theorem exchange_converges_roof :
    ∃ sent n B', exportDiffToFile (diffWith ⟨[roofCreated], none⟩ ⟨[roofExecuted], none⟩)
        [.name "diff.jsonl"] FileSystem.empty = .ok () sent ∧
      importFromFile [.name "diff.jsonl"] (⟨[roofExecuted], none⟩, sent) = .ok n (B', sent) ∧
      B'.ids = {"0aa1", "0bb2"} := by
  obtain ⟨sent, hsent⟩ := export_empty (diffWith ⟨[roofCreated], none⟩ ⟨[roofExecuted], none⟩)
  obtain ⟨-, n, B', hreceived, himport, -⟩ := exchange_converges
    (by simpa using faithful_roofCreated) (by simpa using faithful_roofExecuted) hsent
  refine ⟨sent, n, B', hsent, (himport sent rfl).1, ?_⟩
  rw [hreceived.ids]
  decide

end DagLedger

end Covm
