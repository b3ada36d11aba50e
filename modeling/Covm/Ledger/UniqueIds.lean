import Covm.Ledger.Persistence
import Covm.Number.Binary64
import Covm.Partial.Runs

/-!
# Identifiers in a ledger

A node is appended under the hash of what it says, whether or not the ledger has a node with this
hash; only the import looks first. The identifiers stay unique exactly as long as no node is
appended whose hash is there.
-/

namespace Covm

open Files Maps Partial

/-- A call on a ledger, with the disk it finds. -/
inductive LedgerCall (F : Type) where
  | append (node : DagNode F)
  | setPath (path : Path)
  | appendAndPersist (node : DagNode F) (disk : Disk)
  | importFromFile (path : Path) (disk : Disk)

namespace LedgerCall

variable {F : Type} [NodeHash F]

def after : LedgerCall F → DagLedger F → DagLedger F
  | append node, ledger => ledger.append node
  | setPath path, ledger => ledger.setPath path
  | appendAndPersist node disk, ledger => (final (DagLedger.appendAndPersist node (ledger, disk))).1
  | importFromFile path disk, ledger => (final (DagLedger.importFromFile path (ledger, disk))).1

/-- A node that will be appended has a new hash. -/
def Fresh : LedgerCall F → DagLedger F → Prop
  | append node, ledger => NodeHash.computeId node ∉ ledger.nodes.map (·.id)
  | setPath _, _ => True
  | appendAndPersist node _, ledger =>
    ledger.filePath ≠ none → NodeHash.computeId node ∉ ledger.nodes.map (·.id)
  | importFromFile _ _, _ => True

end LedgerCall

namespace DagLedger

variable {F : Type}

/-- No two nodes have the same identifier, and each one is found by its own. -/
structure Identifies (ledger : DagLedger F) : Prop where
  nodup : (ledger.nodes.map (·.id)).Nodup
  finds : ∀ node ∈ ledger.nodes, ledger.findById node.id = some node

theorem identifies_iff {ledger : DagLedger F} :
    ledger.Identifies ↔ (ledger.nodes.map (·.id)).Nodup :=
  ⟨Identifies.nodup, fun h => ⟨h, fun _ hnode => find_of_nodup h hnode⟩⟩

theorem exportToFile_ledger [NodeJson F] (ledger : DagLedger F) (disk : Disk) :
    (final (exportToFile (ledger, disk))).1 = ledger := by
  obtain ⟨nodes, path⟩ := ledger
  cases path with
  | none => rfl
  | some path =>
    change (final (onDisk (FileSystem.write path (jsonLines nodes)) (_, disk))).1 = _
    unfold onDisk
    dsimp only
    cases FileSystem.write path (jsonLines nodes) disk <;> rfl

variable [NodeHash F]

theorem nodup_append_iff {ledger : DagLedger F} (h : (ledger.nodes.map (·.id)).Nodup)
    (node : DagNode F) :
    ((ledger.append node).nodes.map (·.id)).Nodup ↔
      NodeHash.computeId node ∉ ledger.nodes.map (·.id) := by
  rw [append, List.map_append, List.map_singleton, ← List.concat_eq_append, List.nodup_concat]
  exact and_iff_left h

/-- The node stays in the ledger even if the ledger cannot be written. -/
theorem appendAndPersist_ledger (node : DagNode F) (ledger : DagLedger F) (disk : Disk) :
    (final (appendAndPersist node (ledger, disk))).1 =
      if ledger.filePath = none then ledger else ledger.append node := by
  have hkept := exportToFile_ledger (ledger.append node) disk
  have hpersist : appendAndPersist node (ledger, disk) =
      if ledger.filePath.isNone then .error .noPath (ledger, disk)
      else EStateM.bind exportToFile (fun _ => pure (NodeHash.computeId node))
        (ledger.append node, disk) := by
    obtain ⟨nodes, path⟩ := ledger
    cases path <;> rfl
  rw [hpersist]
  cases ledger.filePath with
  | none => rfl
  | some path =>
    simp only [EStateM.bind]
    cases hexport : exportToFile (ledger.append node, disk) with
    | ok _ t =>
      rw [hexport] at hkept
      exact hkept
    | error e t =>
      rw [hexport] at hkept
      exact hkept

theorem nodup_after_iff {ledger : DagLedger F} (h : (ledger.nodes.map (·.id)).Nodup)
    (call : LedgerCall F) :
    ((call.after ledger).nodes.map (·.id)).Nodup ↔ call.Fresh ledger := by
  cases call with
  | append node => exact nodup_append_iff h node
  | setPath path => exact iff_of_true h trivial
  | appendAndPersist node disk =>
    rw [LedgerCall.after, appendAndPersist_ledger, LedgerCall.Fresh]
    split_ifs with hpath
    · exact iff_of_true h (absurd hpath)
    · rw [nodup_append_iff h]
      exact ⟨fun hnew _ => hnew, fun hnew => hnew hpath⟩
  | importFromFile path disk =>
    rw [LedgerCall.after, importFromFile_absorb]
    exact iff_of_true (nodup_absorb h) trivial

/-- Along a run the identifiers are unique iff every node came under a new hash. -/
theorem identifies_iff_fresh (calls : List (LedgerCall F)) :
    (∀ calls', calls' <+: calls → (runAll LedgerCall.after calls' new).Identifies) ↔
      Meets LedgerCall.after LedgerCall.Fresh calls (new : DagLedger F) := by
  have hstep : ∀ (call : LedgerCall F) (ledger : DagLedger F), ledger.Identifies →
      ((call.after ledger).Identifies ↔ call.Fresh ledger) := fun call _ h =>
    identifies_iff.trans (nodup_after_iff h.nodup call)
  exact forall_prefix_iff_meets (Q := fun _ => True) (J := fun _ => True) (fun _ _ _ _ => trivial)
    (fun call ledger _ _ h => hstep call ledger h) (fun _ _ => trivial) trivial
    (identifies_iff.mpr List.nodup_nil)

def roofDone : DagNode Binary64 := ⟨"", [], 1, "default", .proposalExecuted "roof" true⟩

/-- A node appended twice is there twice, under any hash. -/
theorem not_identifies_twice :
    ¬ ∃ _ : NodeHash Binary64,
      (runAll LedgerCall.after [.append roofDone, .append roofDone] new).Identifies := by
  rintro ⟨_, h⟩
  have hnodup := h.nodup
  simp [LedgerCall.after, append, new] at hnodup

end DagLedger

end Covm
