import Covm.Ledger.Persistence

/-!
# Opening and writing ledgers, where it may fail

A ledger is loaded from its file line by line, like an import, but with every node there is; one
line that is not UTF-8 fails the whole. A ledger that cannot be loaded is opened as an empty one. A
file is emptied before it is written again, and what was written before an error is what it holds.
-/

namespace Covm

open Files Text

/-- What fails, with an error, while a ledger is opened and written. -/
structure Faults where
  createDirs : Option IoError
  /-- Opening the file, or reading on at any point. -/
  read : Option IoError
  create : Option IoError
  /-- After how many bytes a write fails. -/
  write : Option (Nat × IoError)

namespace Faults

def none : Faults := ⟨.none, .none, .none, .none⟩

/-- A change that may fail before it does anything. -/
def orElse {C α : Type} (fault : Option IoError) (change : FileSystem.Change C α) :
    FileSystem.Change C α :=
  match fault with
  | some e => throw e
  | .none => change

/-- Nothing fails before the file is written. -/
def Loads (faults : Faults) : Prop := faults.createDirs = .none ∧ faults.read = .none

instance (faults : Faults) : Decidable faults.Loads := inferInstanceAs (Decidable (_ ∧ _))

theorem none_loads : none.Loads := ⟨rfl, rfl⟩

/-- So many bytes can be written. -/
def Fits (faults : Faults) (length : Nat) : Prop :=
  ∀ room e, faults.write = some (room, e) → length ≤ room

theorem Fits.mono {faults : Faults} {n m : Nat} (h : faults.Fits n) (hm : m ≤ n) : faults.Fits m :=
  fun room e hfault => hm.trans (h room e hfault)

theorem none_fits (n : Nat) : none.Fits n := fun _ _ h => nomatch h

/-- `write_all`, where the state is what the file holds. -/
def writeAll (faults : Faults) (bytes : List UInt8) : EStateM IoError (List UInt8) Unit :=
  fun written =>
    match faults.write with
    | some (room, e) =>
      if (written ++ bytes).length ≤ room then .ok () (written ++ bytes)
      else .error e ((written ++ bytes).take room)
    | .none => .ok () (written ++ bytes)

end Faults

namespace DagLedger

variable {F : Type}

section
variable [NodeJson F] (faults : Faults)

/-- The loop over the lines of a file. -/
def loadLines (nodes : List (DagNode F)) : List (List UInt8) → Except LedgerError (List (DagNode F))
  | [] => .ok nodes
  | bytes :: rest =>
    match decode bytes with
    | none => .error .invalidUtf8
    | some line =>
      if isBlank line.toList then loadLines nodes rest
      else
        match NodeJson.fromStr line with
        | .error _ => loadLines nodes rest
        | .ok node => loadLines (nodes ++ [node]) rest

def loadFromFile (path : Path) : EStateM LedgerError Disk (DagLedger F) := fun disk =>
  match Faults.orElse faults.createDirs (FileSystem.createDirAll path.parent) disk with
  | .error e disk' => .error (.io e) disk'
  | .ok _ disk' =>
    if disk'.exists_ path then
      match faults.read.elim (disk'.read path) Except.error with
      | .error e => .error (.io e) disk'
      | .ok text =>
        match loadLines [] (lines lineFeed carriageReturn text) with
        | .ok nodes => .ok ⟨nodes, none⟩ disk'
        | .error e => .error e disk'
    else .ok new disk'

def writeNodes : List (DagNode F) → EStateM IoError (List UInt8) Unit
  | [] => pure ()
  | node :: nodes => do
    faults.writeAll (bytes (NodeJson.toString node))
    faults.writeAll [lineFeed]
    writeNodes nodes

/-- `exportToFile`, where it may fail. -/
def exportFailing : LedgerM F Unit := do
  let (ledger, _) ← get
  match ledger.filePath with
  | some path =>
    onDisk (Faults.orElse faults.create (FileSystem.write path []))
    match writeNodes faults ledger.nodes [] with
    | .ok _ written => onDisk (FileSystem.write path written)
    | .error e written =>
      onDisk (FileSystem.write path written)
      throw (.io e)
  | none => throw .noPath

end

/-- `appendAndPersist`, where it may fail. -/
def appendAndPersistFailing [NodeHash F] (faults : Faults) (node : DagNode F) : LedgerM F String := do
  let (ledger, disk) ← get
  if ledger.filePath.isNone then throw .noPath
  set (ledger.append node, disk)
  exportFailing faults
  return NodeHash.computeId node

/-! ### What is loaded -/

section
variable [NodeJson F]

def IsUtf8 (line : List UInt8) : Prop := (decode line).isSome

instance (line : List UInt8) : Decidable (IsUtf8 line) := inferInstanceAs (Decidable (_ = true))

theorem isUtf8_bytes (s : String) : IsUtf8 (bytes s) := by simp [IsUtf8]

theorem loadLines_of_isUtf8 (nodes : List (DagNode F)) {ls : List (List UInt8)}
    (h : ∀ line ∈ ls, IsUtf8 line) : loadLines nodes ls = .ok (nodes ++ nodesOf ls) := by
  induction ls generalizing nodes with
  | nil => simp [loadLines, nodesOf]
  | cons bytes rest ih =>
    obtain ⟨hline, hrest⟩ := List.forall_mem_cons.mp h
    obtain ⟨line, hdecode⟩ := Option.isSome_iff_exists.mp hline
    simp only [loadLines, nodesOf, hdecode, nodeOf]
    by_cases hblank : isBlank line.toList
    · simp [hblank, ih nodes hrest]
    · cases NodeJson.fromStr (F := F) line with
      | error e => simp [hblank, ih nodes hrest, Except.toOption]
      | ok node => simp [hblank, ih (nodes ++ [node]) hrest, Except.toOption]

/-- An import fails at a line that is not UTF-8 only. -/
theorem importLines_of_isUtf8 (nodes : List (DagNode F)) (added : Nat) {ls : List (List UInt8)}
    (h : ∀ line ∈ ls, IsUtf8 line) : ∃ n, (importLines nodes added ls).1 = .ok n := by
  induction ls generalizing nodes added with
  | nil => exact ⟨added, rfl⟩
  | cons bytes rest ih =>
    obtain ⟨hline, hrest⟩ := List.forall_mem_cons.mp h
    obtain ⟨line, hdecode⟩ := Option.isSome_iff_exists.mp hline
    simp only [importLines, hdecode]
    split
    · exact ih nodes added hrest
    · split
      · exact ih nodes added hrest
      · split
        · exact ih nodes added hrest
        · exact ih _ _ hrest

theorem importFromFile_of_isUtf8 {path : Path} {ledger : DagLedger F} {disk : Disk}
    {text : List UInt8} (hread : disk.read path = .ok text)
    (hutf8 : ∀ line ∈ lines lineFeed carriageReturn text, IsUtf8 line) :
    ∃ n, importFromFile path (ledger, disk) =
      .ok n (⟨Maps.absorb DagNode.id ledger.nodes
        (nodesOf (lines lineFeed carriageReturn text)), ledger.filePath⟩, disk) := by
  obtain ⟨n, hn⟩ := importLines_of_isUtf8 ledger.nodes 0 hutf8
  refine ⟨n, ?_⟩
  have habsorb := importLines_absorb ledger.nodes 0 (lines lineFeed carriageReturn text)
  simp only [importFromFile, if_pos (FileSystem.exists_of_read hread), hread]
  cases himport : importLines ledger.nodes 0 (lines lineFeed carriageReturn text) with
  | mk result nodes =>
    rw [himport] at hn habsorb
    dsimp only at hn habsorb
    rw [hn, habsorb]

theorem loadFromFile_of_isUtf8 {faults : Faults} {path : Path} {disk : Disk} {text : List UInt8}
    (hread : disk.read path = .ok text) (hloads : faults.Loads)
    (hutf8 : ∀ line ∈ lines lineFeed carriageReturn text, IsUtf8 line) :
    loadFromFile faults path disk =
      .ok (⟨nodesOf (lines lineFeed carriageReturn text), none⟩ : DagLedger F) disk := by
  unfold loadFromFile
  rw [hloads.1, hloads.2]
  simp only [Faults.orElse, FileSystem.createDirAll_of_read hread,
    if_pos (FileSystem.exists_of_read hread), Option.elim, hread, loadLines_of_isUtf8 [] hutf8,
    List.nil_append]

end

/-! ### What is written -/

section
variable [NodeJson F]

theorem jsonLines_cons (node : DagNode F) (nodes : List (DagNode F)) :
    jsonLines (node :: nodes) = bytes (NodeJson.toString node) ++ [lineFeed] ++ jsonLines nodes := by
  simp [jsonLines, unlines]

theorem writeAll_of_fits {faults : Faults} {bytes written : List UInt8}
    (h : faults.Fits (written ++ bytes).length) :
    faults.writeAll bytes written = .ok () (written ++ bytes) := by
  unfold Faults.writeAll
  split
  · next room e hfault => exact if_pos (h room e hfault)
  · rfl

theorem writeAll_of_not_fits {faults : Faults} {bytes written : List UInt8}
    (h : ¬ faults.Fits (written ++ bytes).length) :
    ∃ e left, faults.writeAll bytes written = .error e left := by
  unfold Faults.writeAll
  split
  · next room e hfault =>
    have hfull : ¬ (written ++ bytes).length ≤ room := fun hroom =>
      h fun room' e' h' => by
        cases hfault.symm.trans h'
        exact hroom
    exact ⟨e, _, if_neg hfull⟩
  · next hfault => exact absurd (fun _ _ h' => by simp [hfault] at h') h

theorem writeNodes_of_fits {faults : Faults} {nodes : List (DagNode F)} {written : List UInt8}
    (h : faults.Fits (written ++ jsonLines nodes).length) :
    writeNodes faults nodes written = .ok () (written ++ jsonLines nodes) := by
  induction nodes generalizing written with
  | nil => simp [writeNodes, jsonLines, unlines, pure, EStateM.pure]
  | cons node nodes ih =>
    rw [jsonLines_cons, ← List.append_assoc, ← List.append_assoc] at h ⊢
    have hline := h.mono (List.prefix_append _ (jsonLines nodes)).length_le
    have htext := hline.mono (List.prefix_append _ [lineFeed]).length_le
    simp only [writeNodes, bind, EStateM.bind, writeAll_of_fits htext, writeAll_of_fits hline, ih h]

/-- One of the writes fails. -/
theorem writeNodes_of_not_fits {faults : Faults} {nodes : List (DagNode F)} {written : List UInt8}
    (hwritten : faults.Fits written.length)
    (h : ¬ faults.Fits (written ++ jsonLines nodes).length) :
    ∃ e left, writeNodes faults nodes written = .error e left := by
  induction nodes generalizing written with
  | nil => exact absurd (by simpa [jsonLines, unlines] using hwritten) h
  | cons node nodes ih =>
    rw [jsonLines_cons, ← List.append_assoc, ← List.append_assoc] at h
    simp only [writeNodes, bind, EStateM.bind]
    by_cases htext : faults.Fits (written ++ bytes (NodeJson.toString node)).length
    · rw [writeAll_of_fits htext]
      by_cases hline : faults.Fits (written ++ bytes (NodeJson.toString node) ++ [lineFeed]).length
      · simp only [writeAll_of_fits hline]
        exact ih hline h
      · obtain ⟨e, left, herror⟩ := writeAll_of_not_fits hline
        exact ⟨e, left, by simp only [herror]⟩
    · obtain ⟨e, left, herror⟩ := writeAll_of_not_fits htext
      exact ⟨e, left, by simp only [herror]⟩

variable {faults : Faults} {ledger : DagLedger F} {path : Path} {disk : Disk}

theorem exportFailing_some (hpath : ledger.filePath = some path) :
    exportFailing faults (ledger, disk) =
      match Faults.orElse faults.create (FileSystem.write path []) disk with
      | .error e disk' => .error (.io e) (ledger, disk')
      | .ok _ disk' =>
        match writeNodes faults ledger.nodes [] with
        | .ok _ written => onDisk (FileSystem.write path written) (ledger, disk')
        | .error e written =>
          match onDisk (FileSystem.write path written) (ledger, disk') with
          | .ok _ st => .error (.io e) st
          | .error e' st => .error e' st := by
  obtain ⟨nodes, filePath⟩ := ledger
  subst hpath
  rw [exportFailing, LedgerM.get_bind]
  simp only [onDisk, bind, EStateM.bind]
  cases Faults.orElse faults.create (FileSystem.write path []) disk with
  | error e disk' => rfl
  | ok _ disk' =>
    dsimp only
    cases writeNodes faults nodes [] with
    | ok _ written => rfl
    | error e written =>
      dsimp only
      simp only [onDisk, EStateM.bind]
      cases FileSystem.write path written disk' <;> rfl

theorem exportToFile_some (hpath : ledger.filePath = some path) :
    exportToFile (ledger, disk) =
      onDisk (FileSystem.write path (jsonLines ledger.nodes)) (ledger, disk) := by
  obtain ⟨nodes, filePath⟩ := ledger
  subst hpath
  rfl

/-- Where nothing fails, all is written at once. -/
theorem exportFailing_of_fits (hpath : ledger.filePath = some path) (hcreate : faults.create = none)
    (hfits : faults.Fits (jsonLines ledger.nodes).length) :
    exportFailing faults (ledger, disk) = exportToFile (ledger, disk) := by
  have hnodes := @writeNodes_of_fits _ _ faults ledger.nodes [] hfits
  rw [List.nil_append] at hnodes
  rw [exportFailing_some hpath, exportToFile_some hpath, hcreate, hnodes, Faults.orElse]
  cases hempty : FileSystem.write path ([] : List UInt8) disk with
  | error e disk' => simp only [onDisk, FileSystem.write_error hempty]
  | ok _ disk' => simp only [onDisk, FileSystem.write_write hempty]

theorem exportFailing_none (st : DagLedger F × Disk) :
    exportFailing Faults.none st = exportToFile st := by
  obtain ⟨⟨nodes, filePath⟩, disk⟩ := st
  cases filePath with
  | none => rfl
  | some path => exact exportFailing_of_fits rfl rfl (Faults.none_fits _)

end

end DagLedger

end Covm
