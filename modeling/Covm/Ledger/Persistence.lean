import Covm.Files.Frames
import Covm.Maps.Absorb
import Covm.Text.Lines
import Covm.Vm.Ledger

/-!
# Ledgers and files (`icn-ledger`)

A ledger is written to a file with one node on each line, in JSON. The nodes of a file are imported
line by line: blank lines and lines that are no node are skipped, and a node is added unless its
identifier is there. JSON is a parameter. The contents of files are bytes, so that a file need not
be UTF-8; what was imported before the first line that is not stays imported.
-/

namespace Covm

open Files Maps Text

/-- The JSON of a node is one line. -/
def NodeJson.Escaped {F : Type} [NodeJson F] (node : DagNode F) : Prop :=
  ∀ c ∈ (NodeJson.toString node).toList, 0x20 ≤ c.toNat

/-- A node is read back from its JSON, an object in which control characters are escaped. -/
structure NodeJson.Faithful {F : Type} [NodeJson F] (node : DagNode F) : Prop where
  reads : NodeJson.fromStr (NodeJson.toString node) = .ok node
  escaped : NodeJson.Escaped node
  object : '\x7b' ∈ (NodeJson.toString node).toList

abbrev Disk := FileSystem (List UInt8)

inductive LedgerError where
  | io (e : IoError)
  | invalidUtf8
  | noPath

def LedgerError.display : LedgerError → String
  | io e => e.display
  | invalidUtf8 => "stream did not contain valid UTF-8"
  | noPath => "File path is not set"

/-- Calls on a ledger. What was done before a failure stays done. -/
abbrev LedgerM (F α : Type) := EStateM LedgerError (DagLedger F × Disk) α

theorem LedgerM.get_bind {α : Type} (f : DagLedger F × Disk → LedgerM F α)
    (st : DagLedger F × Disk) : ((get : LedgerM F _) >>= f) st = f st st := rfl

/-- What two ledgers have apart and in common. -/
structure DagDiff (F : Type) where
  added : List (DagNode F)
  removed : List (DagNode F)
  common : Finset String

namespace DagLedger

variable {F : Type}

def findById (ledger : DagLedger F) (id : String) : Option (DagNode F) :=
  ledger.nodes.find? fun node => node.id = id

def setPath (ledger : DagLedger F) (path : Path) : DagLedger F :=
  { ledger with filePath := some path }

def ids (ledger : DagLedger F) : Finset String := (ledger.nodes.map (·.id)).toFinset

def diffWith (this other : DagLedger F) : DagDiff F where
  added := this.nodes.filter fun node => node.id ∉ other.ids
  removed := other.nodes.filter fun node => node.id ∉ this.ids
  common := this.ids ∩ other.ids

section
variable [NodeJson F]

/-- One node on each line. -/
def jsonLines (nodes : List (DagNode F)) : List UInt8 :=
  unlines lineFeed (nodes.map fun node => bytes (NodeJson.toString node))

def onDisk {α : Type} (change : FileSystem.Change (List UInt8) α) : LedgerM F α :=
  fun (ledger, disk) =>
    match change disk with
    | .ok a disk' => .ok a (ledger, disk')
    | .error e disk' => .error (.io e) (ledger, disk')

def exportToFile : LedgerM F Unit := do
  let (ledger, _) ← get
  match ledger.filePath with
  | some path => onDisk (FileSystem.write path (jsonLines ledger.nodes))
  | none => throw .noPath

end

def appendAndPersist [NodeHash F] (node : DagNode F) : LedgerM F String := do
  let (ledger, disk) ← get
  if ledger.filePath.isNone then throw .noPath
  set (ledger.append node, disk)
  exportToFile
  return NodeHash.computeId node

section
variable [NodeJson F]

/-- Only the nodes the other ledger does not have. -/
def exportDiffToFile (diff : DagDiff F) (path : Path) : FileSystem.Change (List UInt8) Unit := do
  FileSystem.createDirAll path.parent
  FileSystem.write path (jsonLines diff.added)

/-- The loop over the lines of a file: how many nodes were added, and the nodes. -/
def importLines (nodes : List (DagNode F)) (added : Nat) :
    List (List UInt8) → Except LedgerError Nat × List (DagNode F)
  | [] => (.ok added, nodes)
  | bytes :: rest =>
    match decode bytes with
    | none => (.error .invalidUtf8, nodes)
    | some line =>
      if isBlank line.toList then importLines nodes added rest
      else
        match NodeJson.fromStr line with
        | .error _ => importLines nodes added rest
        | .ok node =>
          if nodes.any fun existing => existing.id == node.id then importLines nodes added rest
          else importLines (nodes ++ [node]) (added + 1) rest

def importFromFile (path : Path) : LedgerM F Nat := fun (ledger, disk) =>
  if disk.exists_ path then
    match disk.read path with
    | .error e => .error (.io e) (ledger, disk)
    | .ok text =>
      match importLines ledger.nodes 0 (lines lineFeed carriageReturn text) with
      | (.ok added, nodes) => .ok added ({ ledger with nodes }, disk)
      | (.error e, nodes) => .error e ({ ledger with nodes }, disk)
  else .ok 0 (ledger, disk)

end

/-! ### What is imported -/

section
variable [NodeJson F]

/-- The node that a line is, if it is one. -/
def nodeOf (line : String) : Option (DagNode F) :=
  if isBlank line.toList then none else (NodeJson.fromStr line).toOption

/-- The nodes among some lines, up to the first line that is not UTF-8. -/
def nodesOf : List (List UInt8) → List (DagNode F)
  | [] => []
  | bytes :: rest =>
    match decode bytes with
    | none => []
    | some line => (nodeOf line).toList ++ nodesOf rest

/-- The nodes of a file; if there is none, no nodes. -/
def fileNodes (disk : Disk) (path : Path) : List (DagNode F) :=
  match disk.read path with
  | .ok text => nodesOf (lines lineFeed carriageReturn text)
  | .error _ => []

/-- A ledger absorbs the nodes of the lines. -/
theorem importLines_absorb (nodes : List (DagNode F)) (added : Nat) (ls : List (List UInt8)) :
    (importLines nodes added ls).2 = absorb DagNode.id nodes (nodesOf ls) := by
  induction ls generalizing nodes added with
  | nil => rfl
  | cons bytes rest ih =>
    rw [importLines, nodesOf]
    cases decode bytes with
    | none => rfl
    | some line =>
      dsimp only [nodeOf]
      by_cases hblank : isBlank line.toList
      · rw [if_pos hblank, if_pos hblank]
        exact ih nodes added
      · rw [if_neg hblank, if_neg hblank]
        cases NodeJson.fromStr (F := F) line with
        | error _ => exact ih nodes added
        | ok node =>
          simp only [Except.toOption, Option.toList_some, List.singleton_append, absorb_cons]
          rw [absorbOne]
          split <;> exact ih _ _

theorem jsonLines_lines {nodes : List (DagNode F)} (h : ∀ node ∈ nodes, NodeJson.Escaped node) :
    lines lineFeed carriageReturn (jsonLines nodes) =
      nodes.map fun node => bytes (NodeJson.toString node) := by
  apply lines_unlines
  intro line hline
  obtain ⟨node, hnode, rfl⟩ := List.mem_map.mp hline
  apply isLine_bytes
  · intro hmem
    exact absurd (h node hnode _ hmem) (by decide)
  · intro hmem
    exact absurd (h node hnode _ hmem) (by decide)

theorem not_isBlank {node : DagNode F} (h : '\x7b' ∈ (NodeJson.toString node).toList) :
    ¬ isBlank (NodeJson.toString node).toList := by
  intro hblank
  have hspace := List.all_eq_true.mp hblank _ h
  simp [isWhitespace] at hspace

/-- The nodes of an exported file. -/
theorem importLines_json (nodes : List (DagNode F)) (added : Nat) {others : List (DagNode F)}
    (h : ∀ node ∈ others, NodeJson.Faithful node) :
    importLines nodes added (others.map fun node => bytes (NodeJson.toString node)) =
      (.ok (added + (missing DagNode.id (nodes.map (·.id)) others).length),
        absorb DagNode.id nodes others) := by
  induction others generalizing nodes added with
  | nil => simp [importLines, missing]
  | cons node others ih =>
    have hnode := h node List.mem_cons_self
    have hrest := fun other hother => h other (List.mem_cons_of_mem node hother)
    rw [List.map_cons, importLines]
    simp only [decode_bytes, if_neg (not_isBlank hnode.object), hnode.reads, ih _ _ hrest]
    rw [absorb_cons, absorbOne_eq, missing]
    by_cases hid : node.id ∈ nodes.map (·.id)
    · have hany : (nodes.any fun existing => existing.id == node.id) = true := by
        simpa using hid
      rw [if_pos hany, if_pos hid, if_pos hid]
    · have hany : ¬ (nodes.any fun existing => existing.id == node.id) = true := by
        simpa using hid
      rw [if_neg hany, if_neg hid, if_neg hid]
      simp
      omega

theorem importFromFile_absorb (path : Path) (ledger : DagLedger F) (disk : Disk) :
    Partial.final (importFromFile path (ledger, disk)) =
      ({ ledger with nodes := absorb DagNode.id ledger.nodes (fileNodes disk path) }, disk) := by
  unfold importFromFile fileNodes
  dsimp only
  cases hread : disk.read path with
  | error e => split <;> rfl
  | ok text =>
    rw [if_pos (FileSystem.exists_of_read hread)]
    dsimp only
    rw [← importLines_absorb ledger.nodes 0]
    cases importLines ledger.nodes 0 (lines lineFeed carriageReturn text) with
    | mk result nodes => cases result <;> rfl

theorem importFromFile_json {path : Path} {ledger : DagLedger F} {disk : Disk}
    {others : List (DagNode F)} (hread : disk.read path = .ok (jsonLines others))
    (h : ∀ node ∈ others, NodeJson.Faithful node) :
    importFromFile path (ledger, disk) =
      .ok (missing DagNode.id (ledger.nodes.map (·.id)) others).length
        ({ ledger with nodes := absorb DagNode.id ledger.nodes others }, disk) := by
  unfold importFromFile
  simp only [if_pos (FileSystem.exists_of_read hread), hread,
    jsonLines_lines fun node hnode => (h node hnode).escaped, importLines_json ledger.nodes 0 h,
    Nat.zero_add]

end

end DagLedger

end Covm
