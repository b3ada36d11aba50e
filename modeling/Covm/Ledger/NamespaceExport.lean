import Covm.Ledger.Reload
import Covm.Text.Pretty

/-!
# The nodes of one namespace in a file

The nodes of a namespace are written to a file of their own, named after the file of the ledger, as
one indented array. Ledgers are read line by line, and no line of such an array is a node: nothing
is read back, which is what was written only if the namespace has no nodes.
-/

namespace Files.Path

/-- The last component, if it is a name. -/
def fileName (p : Path) : Option String :=
  match (trim p).getLast? with
  | some (.name name) => some name
  | _ => none

/-- What is before and after the last dot; a dot at the beginning separates nothing. -/
def rsplitFileAtDot (file : String) : Option String × Option String :=
  if file = ".." then (some file, none)
  else
    match file.toList.reverse.span (· ≠ '.') with
    | (_, []) => (none, some file)
    | (_, [_]) => (some file, none)
    | (after, _ :: before) => (some (String.ofList before.reverse), some (String.ofList after.reverse))

def fileStem (p : Path) : Option String :=
  p.fileName.bind fun file => (rsplitFileAtDot file).1.or (rsplitFileAtDot file).2

def extension (p : Path) : Option String :=
  p.fileName.bind fun file => (rsplitFileAtDot file).1.bind fun _ => (rsplitFileAtDot file).2

end Files.Path

namespace Covm

open Files Maps Text

/-- A number in the JSON that `serde_json` writes. -/
class NumberJson (F : Type) where
  scalar : F → Scalar

section
variable {F : Type} [NumberJson F]

def NodeData.toJson : NodeData F → Json
  | .proposalCreated proposalId title =>
    .object [("type", .string "ProposalCreated"), ("proposal_id", .string proposalId),
      ("title", .string title)]
  | .voteCast proposalId voter vote =>
    .object [("type", .string "VoteCast"), ("proposal_id", .string proposalId),
      ("voter", .string voter), ("vote", .scalar (NumberJson.scalar vote))]
  | .proposalExecuted proposalId success =>
    .object [("type", .string "ProposalExecuted"), ("proposal_id", .string proposalId),
      ("success", .scalar (.ofBool success))]
  | .tokenMinted resource recipient amount =>
    .object [("type", .string "TokenMinted"), ("resource", .string resource),
      ("recipient", .string recipient), ("amount", .scalar (NumberJson.scalar amount))]

def DagNode.toJson (node : DagNode F) : Json :=
  .object [("id", .string node.id), ("parent_ids", .array (node.parentIds.map .string)),
    ("timestamp", .scalar (.ofNat node.timestamp)), ("namespace", .string node.ns),
    ("data", node.data.toJson)]

end

/-- Why the nodes of a namespace were not exported. -/
inductive NamespaceError where
  | noPath
  | invalidPath
  | write (path : Path) (e : IoError)
  deriving DecidableEq

/-- Only an object or an array with something inside is read as a node. -/
def NodeJson.Strict (F : Type) [NodeJson F] : Prop :=
  ∀ text (node : DagNode F), NodeJson.fromStr text = .ok node → Json.Enclosed text.toList

namespace DagLedger

variable {F : Type}

def nodesByNamespace (ledger : DagLedger F) (ns : String) : List (DagNode F) :=
  ledger.nodes.filter fun node => node.ns == ns

def getNamespacedFilePath (ledger : DagLedger F) (ns : String) : Except NamespaceError Path :=
  match ledger.filePath with
  | none => .error .noPath
  | some path =>
    match path.fileStem with
    | none => .error .invalidPath
    | some stem =>
      let suffix := (path.extension.filter (· ≠ "")).elim "" ("." ++ ·)
      .ok (path.parent.join (stem ++ "_" ++ ns ++ suffix))

def exportNamespaceToFile [NumberJson F] (ns : String) :
    EStateM NamespaceError (DagLedger F × Disk) Unit := fun (ledger, disk) =>
  match ledger.getNamespacedFilePath ns with
  | .error e => .error e (ledger, disk)
  | .ok path =>
    let json := Json.toStringPretty (.array ((ledger.nodesByNamespace ns).map DagNode.toJson))
    match FileSystem.write path (bytes json) disk with
    | .ok _ disk' => .ok () (ledger, disk')
    | .error e disk' => .error (.write path e) (ledger, disk')

variable [NodeJson F]

/-- The file is read as these nodes, by itself and into an empty ledger. -/
structure ReadsBack (path : Path) (disk : Disk) (nodes : List (DagNode F)) : Prop where
  loads : LoadsAs path disk nodes
  imports : ∃ added, importFromFile path (new, disk) = .ok added (⟨nodes, none⟩, disk)

theorem nodesOf_tame (hstrict : NodeJson.Strict F) {ls : List (List Char)}
    (h : ∀ line ∈ ls, Json.Tame line) :
    nodesOf (F := F) (ls.map fun line => bytes (String.ofList line)) = [] := by
  induction ls with
  | nil => rfl
  | cons line ls ih =>
    obtain ⟨hline, hrest⟩ := List.forall_mem_cons.mp h
    simp only [List.map_cons, nodesOf, decode_bytes, nodeOf, ih hrest, List.append_nil]
    split
    · rfl
    · cases hnode : NodeJson.fromStr (F := F) (String.ofList line) with
      | error e => rfl
      | ok node =>
        have henclosed := hstrict _ node hnode
        rw [String.toList_ofList] at henclosed
        exact absurd henclosed hline.notEnclosed

variable [NumberJson F]

omit [NodeJson F] in
theorem read_of_exportNamespace {ledger : DagLedger F} {ns : String} {path : Path} {disk : Disk}
    {after : DagLedger F × Disk} (hpath : ledger.getNamespacedFilePath ns = .ok path)
    (h : exportNamespaceToFile ns (ledger, disk) = .ok () after) :
    after.2.read path = .ok (bytes (Json.toStringPretty
      (.array ((ledger.nodesByNamespace ns).map DagNode.toJson)))) := by
  simp only [exportNamespaceToFile, hpath] at h
  split at h
  · next disk' hwrite =>
    cases h
    exact FileSystem.read_of_write hwrite
  · cases h

/-- Nothing is read from an exported namespace. -/
theorem readsBack_exported (hstrict : NodeJson.Strict F) {ledger : DagLedger F} {ns : String}
    {path : Path} {disk : Disk} {after : DagLedger F × Disk}
    (hpath : ledger.getNamespacedFilePath ns = .ok path)
    (hexport : exportNamespaceToFile ns (ledger, disk) = .ok () after) {nodes : List (DagNode F)} :
    ReadsBack path after.2 nodes ↔ nodes = [] := by
  have hread := read_of_exportNamespace hpath hexport
  have hlines := Json.lines_toStringPretty ((ledger.nodesByNamespace ns).map DagNode.toJson)
  have hnone := nodesOf_tame hstrict
    (Json.tame_pretty (.array ((ledger.nodesByNamespace ns).map DagNode.toJson)))
  rw [← hlines] at hnone
  have hutf8 : ∀ line ∈ lines lineFeed carriageReturn (bytes (Json.toStringPretty
      (.array ((ledger.nodesByNamespace ns).map DagNode.toJson)))), IsUtf8 line := by
    rw [hlines]
    intro line hline
    obtain ⟨text, -, rfl⟩ := List.mem_map.mp hline
    exact isUtf8_bytes _
  have hloads : LoadsAs path after.2 nodes ↔ _ := loadsAs_iff hread hutf8
  rw [hnone] at hloads
  obtain ⟨n, himport⟩ := @importFromFile_of_isUtf8 F _ path new after.2 _ hread hutf8
  rw [hnone] at himport
  constructor
  · intro h
    exact (hloads.mp h.loads).symm
  · rintro rfl
    exact ⟨hloads.mpr rfl, n, himport⟩

/-- What was exported of a namespace is read back iff there was nothing to export. -/
theorem namespaceReadsBack_iff (hstrict : NodeJson.Strict F) {ledger : DagLedger F} {ns : String}
    {path : Path} {disk : Disk} {after : DagLedger F × Disk}
    (hpath : ledger.getNamespacedFilePath ns = .ok path)
    (hexport : exportNamespaceToFile ns (ledger, disk) = .ok () after) :
    ReadsBack path after.2 (ledger.nodesByNamespace ns) ↔ ∀ node ∈ ledger.nodes, node.ns ≠ ns := by
  rw [readsBack_exported hstrict hpath hexport, nodesByNamespace, List.filter_eq_nil_iff]
  simp only [beq_iff_eq]

/-! ### The nodes of a cooperative -/

theorem IsObject.enclosed {text : String} (h : IsObject text) : Json.Enclosed text.toList := by
  obtain ⟨inside, htext, hinside⟩ := h.braces
  exact ⟨[], '\x7b', inside, '\x7d', [], htext, hinside, rfl, rfl, .inr ⟨rfl, rfl⟩⟩

theorem strict_roof : NodeJson.Strict Binary64 := by
  intro text node h
  change (if text = roofCreatedText then Except.ok roofCreated
    else if text = roofExecutedText then .ok roofExecuted else .error _) = .ok node at h
  split_ifs at h with hcreated hexecuted
  · rw [hcreated]
    exact isObject_roofCreatedText.enclosed
  · rw [hexecuted]
    exact isObject_roofExecutedText.enclosed

/-- There are no numbers in the nodes of the roof. -/
@[reducible] def roofNumbers : NumberJson Binary64 :=
  ⟨fun _ => ⟨"null".toList, List.all_iff_forall_prop.mp (by decide)⟩⟩

def roofLedger : DagLedger Binary64 := ⟨[roofCreated], some [.name "ledger.jsonl"]⟩

theorem export_roof [NumberJson Binary64] {ns name : String} (hname : '\x00' ∉ name.toList)
    (hpath : roofLedger.getNamespacedFilePath ns = .ok [.name name]) :
    ∃ after, exportNamespaceToFile ns (roofLedger, FileSystem.empty) = .ok () after := by
  obtain ⟨disk, hdisk⟩ := FileSystem.write_empty hname (bytes (Json.toStringPretty
    (.array ((roofLedger.nodesByNamespace ns).map DagNode.toJson))))
  refine ⟨(roofLedger, disk), ?_⟩
  simp only [exportNamespaceToFile, hpath, hdisk]

theorem namespacedFilePath_coop :
    roofLedger.getNamespacedFilePath "coop" = .ok [.name "ledger_coop.jsonl"] := by decide

/-- The cooperative has no nodes. -/
theorem namespaceReadsBack_iff_coop :
    ∃ (_ : NumberJson Binary64) (after : DagLedger Binary64 × Disk),
      exportNamespaceToFile "coop" (roofLedger, FileSystem.empty) = .ok () after ∧
        ReadsBack [.name "ledger_coop.jsonl"] after.2 (roofLedger.nodesByNamespace "coop") := by
  let := roofNumbers
  obtain ⟨after, hexport⟩ := export_roof (by decide) namespacedFilePath_coop
  refine ⟨roofNumbers, after, hexport,
    (namespaceReadsBack_iff strict_roof namespacedFilePath_coop hexport).mpr ?_⟩
  exact List.forall_mem_singleton.mpr (by decide)

theorem namespacedFilePath_default :
    roofLedger.getNamespacedFilePath "default" = .ok [.name "ledger_default.jsonl"] := by
  decide

/-- The node of the default namespace is not read back. -/
theorem not_readsBack_default :
    ∃ (_ : NumberJson Binary64) (after : DagLedger Binary64 × Disk),
      exportNamespaceToFile "default" (roofLedger, FileSystem.empty) = .ok () after ∧
        ¬ ReadsBack [.name "ledger_default.jsonl"] after.2
          (roofLedger.nodesByNamespace "default") := by
  let := roofNumbers
  obtain ⟨after, hexport⟩ := export_roof (by decide) namespacedFilePath_default
  refine ⟨roofNumbers, after, hexport, fun h => ?_⟩
  have hnone := (readsBack_exported strict_roof namespacedFilePath_default hexport).mp h
  exact List.cons_ne_nil _ _ hnone

end DagLedger

end Covm
