import Covm.Ledger.Exchange
import Covm.Ledger.Loading

/-!
# Numbers that are lost

A number that is not finite is written as `null`, which is not read as a number: the line of such a
node is skipped when the file is loaded. A ledger is what its file is loaded as exactly if all its
numbers are finite.
-/

namespace Covm

open Files Text

section
variable {F : Type} [Number F]

/-- The number in a node is finite, if there is one. -/
def NodeData.IsFinite : NodeData F → Prop
  | .voteCast _ _ vote => Number.isFinite vote = true
  | .tokenMinted _ _ amount => Number.isFinite amount = true
  | _ => True

instance : DecidablePred (NodeData.IsFinite (F := F))
  | .proposalCreated _ _ => inferInstanceAs (Decidable True)
  | .voteCast _ _ _ => inferInstanceAs (Decidable (_ = true))
  | .proposalExecuted _ _ => inferInstanceAs (Decidable True)
  | .tokenMinted _ _ _ => inferInstanceAs (Decidable (_ = true))

/-- How `serde_json` writes a node, as an object on one line, and what it reads there. -/
structure NodeJson.Lawful [NodeJson F] (node : DagNode F) : Prop where
  reads : node.data.IsFinite → NodeJson.fromStr (NodeJson.toString node) = .ok node
  refuses : ¬ node.data.IsFinite →
    ∃ e, NodeJson.fromStr (F := F) (NodeJson.toString node) = .error e
  escaped : NodeJson.Escaped node
  object : '\x7b' ∈ (NodeJson.toString node).toList

theorem NodeJson.Faithful.lawful [NodeJson F] {node : DagNode F} (h : NodeJson.Faithful node)
    (hfinite : node.data.IsFinite) : NodeJson.Lawful node :=
  ⟨fun _ => h.reads, fun hnot => absurd hfinite hnot, h.escaped, h.object⟩

end

namespace DagLedger

variable {F : Type} [NodeJson F]

/-- The file is loaded as these nodes. -/
def LoadsAs (path : Path) (disk : Disk) (nodes : List (DagNode F)) : Prop :=
  ∃ ledger disk', loadFromFile Faults.none path disk = .ok ledger disk' ∧ ledger.nodes = nodes

theorem loadsAs_iff {path : Path} {disk : Disk} {text : List UInt8} {nodes : List (DagNode F)}
    (hread : disk.read path = .ok text)
    (hutf8 : ∀ line ∈ lines lineFeed carriageReturn text, IsUtf8 line) :
    LoadsAs path disk nodes ↔ nodesOf (lines lineFeed carriageReturn text) = nodes := by
  simp [LoadsAs, loadFromFile_of_isUtf8 hread Faults.none_loads hutf8]

theorem read_of_exportToFile {ledger ledger' : DagLedger F} {path : Path} {disk disk' : Disk}
    (hpath : ledger.filePath = some path)
    (h : exportToFile (ledger, disk) = .ok () (ledger', disk')) :
    disk'.read path = .ok (jsonLines ledger.nodes) := by
  rw [exportToFile_some hpath, onDisk] at h
  cases hwrite : FileSystem.write path (jsonLines ledger.nodes) disk with
  | error e d => simp [hwrite] at h
  | ok _ d =>
    simp only [hwrite, EStateM.Result.ok.injEq, Prod.mk.injEq, true_and] at h
    rw [← h.2]
    exact FileSystem.read_of_write hwrite

variable [Number F]

theorem nodesOf_json_cons {node : DagNode F} (h : NodeJson.Lawful node) (rest : List (List UInt8)) :
    nodesOf (bytes (NodeJson.toString node) :: rest) =
      if node.data.IsFinite then node :: nodesOf rest else nodesOf rest := by
  simp only [nodesOf, decode_bytes, nodeOf, if_neg (not_isBlank h.object)]
  by_cases hfinite : node.data.IsFinite
  · rw [h.reads hfinite, if_pos hfinite]
    rfl
  · obtain ⟨e, herror⟩ := h.refuses hfinite
    rw [herror, if_neg hfinite]
    rfl

/-- Exactly the nodes with finite numbers are read back. -/
theorem nodesOf_map_json {nodes : List (DagNode F)} (h : ∀ node ∈ nodes, NodeJson.Lawful node) :
    nodesOf (nodes.map fun node => bytes (NodeJson.toString node)) =
      nodes.filter fun node => node.data.IsFinite := by
  induction nodes with
  | nil => rfl
  | cons node nodes ih =>
    obtain ⟨hnode, hrest⟩ := List.forall_mem_cons.mp h
    rw [List.map_cons, nodesOf_json_cons hnode, ih hrest, List.filter_cons]
    simp only [decide_eq_true_eq]

/-- What is loaded after an export. -/
theorem loadsAs_exported {ledger ledger' : DagLedger F} {path : Path} {disk disk' : Disk}
    (hjson : ∀ node ∈ ledger.nodes, NodeJson.Lawful node) (hpath : ledger.filePath = some path)
    (hexport : exportToFile (ledger, disk) = .ok () (ledger', disk')) {nodes : List (DagNode F)} :
    LoadsAs path disk' nodes ↔ (ledger.nodes.filter fun node => node.data.IsFinite) = nodes := by
  have hlines := jsonLines_lines fun node hnode => (hjson node hnode).escaped
  have hutf8 : ∀ line ∈ lines lineFeed carriageReturn (jsonLines ledger.nodes), IsUtf8 line := by
    rw [hlines]
    intro line hline
    obtain ⟨node, -, rfl⟩ := List.mem_map.mp hline
    exact isUtf8_bytes _
  rw [loadsAs_iff (read_of_exportToFile hpath hexport) hutf8, hlines, nodesOf_map_json hjson]

/-- A ledger that was exported is loaded as it was iff all its numbers are finite. -/
theorem loadsAs_iff_isFinite {ledger ledger' : DagLedger F} {path : Path} {disk disk' : Disk}
    (hjson : ∀ node ∈ ledger.nodes, NodeJson.Lawful node) (hpath : ledger.filePath = some path)
    (hexport : exportToFile (ledger, disk) = .ok () (ledger', disk')) :
    LoadsAs path disk' ledger.nodes ↔ ∀ node ∈ ledger.nodes, node.data.IsFinite := by
  rw [loadsAs_exported hjson hpath hexport, List.filter_eq_self]
  simp only [decide_eq_true_eq]

/-! ### A finite amount, and an infinite one -/

omit [Number F] in
theorem export_new (nodes : List (DagNode F)) :
    ∃ st, exportToFile (⟨nodes, some [.name "ledger.jsonl"]⟩, FileSystem.empty) = .ok () st := by
  have hname : '\x00' ∉ "ledger.jsonl".toList := by decide
  obtain ⟨disk, hdisk⟩ := FileSystem.write_empty hname (jsonLines nodes)
  refine ⟨(⟨nodes, some [.name "ledger.jsonl"]⟩, disk), ?_⟩
  rw [exportToFile_some rfl, onDisk]
  simp only [hdisk]

def breadMinted (amount : Binary64) : DagNode Binary64 :=
  ⟨"0cc3", [], 3, "default", .tokenMinted "bread" "ada" amount⟩

def breadMintedText (amount : String) : String :=
  "\x7b\"id\":\"0cc3\",\"parent_ids\":[],\"timestamp\":3,\"namespace\":\"default\",\"data\":" ++
    "\x7b\"type\":\"TokenMinted\",\"resource\":\"bread\",\"recipient\":\"ada\"," ++
    "\"amount\":" ++ amount ++ "\x7d\x7d"

def twoLoaves : DagNode Binary64 := breadMinted (Number.ofNat 2)

def endlessBread : DagNode Binary64 := breadMinted (.inf false)

/-- How the number in a node is written. -/
def amountText (node : DagNode Binary64) : String :=
  if node.data.IsFinite then "2.0" else "null"

/-- `serde_json` on these nodes. -/
@[reducible] def breadJson : NodeJson Binary64 where
  toString node := breadMintedText (amountText node)
  fromStr text :=
    if text = breadMintedText "2.0" then .ok twoLoaves
    else .error "invalid type: null, expected f64"

theorem isFinite_twoLoaves : twoLoaves.data.IsFinite := by decide +kernel

theorem not_isFinite_endlessBread : ¬ endlessBread.data.IsFinite := by decide

theorem isObject_breadMintedText {amount : String} (h : amount = "2.0" ∨ amount = "null") :
    IsObject (breadMintedText amount) := by
  rcases h with rfl | rfl
  all_goals
    apply isObject_of_chars
    · exact toList_append_of (toList_append_of (toList_append_of (toList_append_of
        String.toList_ofList String.toList_ofList) String.toList_ofList) String.toList_ofList)
        String.toList_ofList
    · decide

theorem lawful_of_text {node : DagNode Binary64} {amount : String} (h : amountText node = amount)
    (hamount : amount = "2.0" ∨ amount = "null")
    (hreads : node.data.IsFinite → breadJson.fromStr (breadMintedText amount) = .ok node)
    (hrefuses : ¬ node.data.IsFinite →
      ∃ e, breadJson.fromStr (breadMintedText amount) = .error e) :
    @NodeJson.Lawful _ _ breadJson node := by
  subst h
  have hobject := isObject_breadMintedText hamount
  exact @NodeJson.Lawful.mk _ _ breadJson _ hreads hrefuses hobject.escaped hobject.mem_brace

theorem lawful_twoLoaves : @NodeJson.Lawful _ _ breadJson twoLoaves :=
  lawful_of_text (if_pos isFinite_twoLoaves) (.inl rfl) (fun _ => if_pos rfl)
    fun hnot => absurd isFinite_twoLoaves hnot

theorem lawful_endlessBread : @NodeJson.Lawful _ _ breadJson endlessBread :=
  lawful_of_text (if_neg not_isFinite_endlessBread) (.inr rfl)
    (fun h => absurd h not_isFinite_endlessBread) fun _ => ⟨_, if_neg (by decide)⟩

/-- Two loaves are loaded. -/
theorem loadsAs_iff_isFinite_bread :
    ∃ (_ : NodeJson Binary64) (st : DagLedger Binary64 × Disk),
      exportToFile (⟨[twoLoaves], some [.name "ledger.jsonl"]⟩, FileSystem.empty) = .ok () st ∧
        LoadsAs [.name "ledger.jsonl"] st.2 [twoLoaves] := by
  let := breadJson
  obtain ⟨st, hexport⟩ := export_new [twoLoaves]
  have hjson : ∀ node ∈ [twoLoaves], NodeJson.Lawful node :=
    List.forall_mem_singleton.mpr lawful_twoLoaves
  exact ⟨breadJson, st, hexport, (loadsAs_iff_isFinite hjson rfl hexport).mpr
    (List.forall_mem_singleton.mpr isFinite_twoLoaves)⟩

/-- Endless bread is not. -/
theorem not_loadsAs_bread :
    ∃ (_ : NodeJson Binary64) (st : DagLedger Binary64 × Disk),
      exportToFile (⟨[endlessBread], some [.name "ledger.jsonl"]⟩, FileSystem.empty) = .ok () st ∧
        ¬ LoadsAs [.name "ledger.jsonl"] st.2 [endlessBread] := by
  let := breadJson
  obtain ⟨st, hexport⟩ := export_new [endlessBread]
  refine ⟨breadJson, st, hexport, ?_⟩
  have hjson : ∀ node ∈ [endlessBread], NodeJson.Lawful node :=
    List.forall_mem_singleton.mpr lawful_endlessBread
  rw [loadsAs_exported hjson rfl hexport, List.filter_cons_of_neg (by
    rw [decide_eq_true_eq]
    exact not_isFinite_endlessBread)]
  exact (List.cons_ne_nil _ _).symm

end DagLedger

end Covm
