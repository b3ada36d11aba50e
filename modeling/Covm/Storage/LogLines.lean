import Covm.Storage.FileReads
import Covm.Storage.FileKeeps

/-!
# Reads and the logs they write

A read ends in its audit log, and its answer depends on whether that can be written. The log of the
day is a file beside the namespaces, but every path can be called a namespace, so that a log that
is new can be seen (`LogWritten`). One more line in a log that is there cannot
(`Relogged.sameAnswers`).
-/

namespace Covm

open Files Partial

namespace FileStorage

/-! ## Answers at a time -/

/-- The storage at a time of day. -/
def atTime (s : FileStorage) (t : Timestamp) : FileStorage :=
  { s with clock := fun _ => t, reads := 0 }

/-- Everyone reads the same, whenever they read. -/
structure SameAnswers [SerdeMetadata] (s s' : FileStorage) : Prop where
  get : ∀ t auth ns key,
    answer (get auth ns key (s'.atTime t)) = answer (get auth ns key (s.atTime t))
  getVersioned : ∀ t auth ns key,
    answer (getVersioned auth ns key (s'.atTime t)) =
      answer (getVersioned auth ns key (s.atTime t))
  contains : ∀ auth ns key, contains s' auth ns key = contains s auth ns key
  listKeys : ∀ t auth ns start,
    answer (listKeys auth ns start (s'.atTime t)) = answer (listKeys auth ns start (s.atTime t))
  usage : ∀ user, (s'.accountCache.lookup user).map (·.usedBytes) =
    (s.accountCache.lookup user).map (·.usedBytes)

/-- The number of times the clock was read cannot be seen. -/
theorem SameAnswers.of_reads [SerdeMetadata] (s : FileStorage) (r : Nat) :
    SameAnswers s { s with reads := r } :=
  ⟨fun _ _ _ _ => rfl, fun _ _ _ _ => rfl, fun _ _ _ => rfl, fun _ _ _ _ => rfl, fun _ => rfl⟩

/-! ## The audit log -/

def auditDir (s : FileStorage) : Location := s.rootPath ++ ["audit_logs"]

/-- The log that is written next. -/
def nextLog (s : FileStorage) : Location := s.auditDir ++ [logName (s.clock s.reads).val]

def nextLogPath (s : FileStorage) : Path :=
  Path.names s.auditDir ++ [.name (logName (s.clock s.reads).val)]

/-- A line in the next log; its directory is made if it is missing. -/
structure LogWritten (s : FileStorage) (files : FileSystem FileContent) : Prop where
  file : ∃ content, files.node s.nextLog = some (.file content)
  before : s.files.node s.nextLog ≠ some .directory
  other : ∀ l, l ≠ s.nextLog →
    files.node l = if l <+: s.auditDir then some .directory else s.files.node l

section
variable {s : FileStorage}

theorem nulFree_auditDir (hroot : NulFree s.rootPath) : NulFree s.auditDir :=
  nulFree_append.mpr ⟨hroot, nulFree_singleton.mpr (by decide)⟩

/-- A log is written where its directory is. -/
theorem writeLog_cases (hroot : NulFree s.rootPath) {fs : FileSystem FileContent}
    (hdir : fs.node s.auditDir = some .directory) (f : Option FileContent → FileContent) :
    (∃ files, FileSystem.writeWith s.nextLogPath f fs = .ok () files ∧
        fs.node s.nextLog ≠ some .directory ∧
        ∃ content, files.node = Function.update fs.node s.nextLog (some (.file content))) ∨
      FileSystem.writeWith s.nextLogPath f fs = .error .isADirectory fs ∧
        fs.node s.nextLog = some .directory := by
  have henter : fs.enter (Path.names s.auditDir) = some s.auditDir := by
    rw [FileSystem.enter_names (nulFree_auditDir hroot), if_pos hdir]
  have hnul := (isName_logName (s.clock s.reads).val).nul
  by_cases hlog : fs.node s.nextLog = some .directory
  · refine .inr ⟨?_, hlog⟩
    have hresolve : fs.resolve s.nextLogPath = .ok s.nextLog :=
      (FileSystem.resolve_concat_name hnul).mpr ⟨_, henter, rfl⟩
    unfold FileSystem.writeWith
    rw [hresolve]
    dsimp only
    rw [hlog]
  · obtain ⟨files, hwrite, hnode⟩ := FileSystem.writeWith_of_enter hnul f henter hlog
    exact .inl ⟨files, hwrite, hlog, _, hnode⟩

theorem recordAuditLog_eq (auth : AuthContext) (action ns : String) (key : Option String)
    (message : String) : recordAuditLog auth action ns key message s = (do
      if !s.files.exists_ (Path.names s.auditDir) then
        io (mapIoError ns key "creating audit log directory")
          (FileSystem.createDirAll (Path.names s.auditDir))
      io (mapIoError ns key "opening audit log file") (FileSystem.writeWith s.nextLogPath
        (FileContent.append
          ⟨(s.clock s.reads).val, auth.currentIdentityDid, action, ns, key, message⟩)) :
        StorageM FileStorage Unit) { s with reads := s.reads + 1 } := by
  have hname : Path.IsName "audit_logs" := by decide
  have hdir : s.root.join "audit_logs" = Path.names s.auditDir := by
    rw [root, hname.join, auditDir, Path.names_append, Path.names_singleton]
  have hlog : (Path.names s.auditDir).join (logName (s.clock s.reads).val) = s.nextLogPath :=
    (isName_logName _).join _
  rw [← hlog, ← hdir]
  rfl

section
variable (hroot : NulFree s.rootPath)
include hroot

theorem exists_auditDir :
    s.files.exists_ (Path.names s.auditDir) = (s.files.node s.auditDir).isSome := by
  rw [FileSystem.exists_, FileSystem.find_names _ (nulFree_auditDir hroot)]

/-- A line is written to the log, or the files stay as they are. -/
theorem recordAuditLog_cases (auth : AuthContext) (action ns : String) (key : Option String)
    (message : String) :
    (∃ files, recordAuditLog auth action ns key message s =
        .ok () { s with files := files, reads := s.reads + 1 } ∧ LogWritten s files) ∨
      ∃ e, recordAuditLog auth action ns key message s =
        .error (.error e) { s with reads := s.reads + 1 } := by
  rw [recordAuditLog_eq, exists_auditDir hroot]
  cases hdir : s.files.node s.auditDir with
  | none =>
    rw [Option.isSome_none, Bool.not_false, if_pos rfl]
    obtain ⟨files, hmade, hfree, hnode⟩ | ⟨e, herror, -⟩ :=
      FileSystem.createDirAll_names (nulFree_auditDir hroot) s.files
    · rw [StorageM.bind_of_ok (io_of_ok (s := { s with reads := s.reads + 1 }) _ hmade)]
      have hnone : s.files.node s.nextLog = none :=
        s.files.node_eq_none_of_isPrefix hdir (List.prefix_append _ _)
      have hlog : ¬ s.nextLog <+: s.auditDir := by
        intro h
        have hlength := h.length_le
        rw [nextLog, List.length_append, List.length_singleton] at hlength
        omega
      have hmadeDir : files.node s.auditDir = some .directory := by
        rw [hnode]
        exact if_pos (List.prefix_refl _)
      obtain ⟨files', hwrite, -, content, hnode'⟩ | ⟨-, hlogDir⟩ :=
        writeLog_cases hroot hmadeDir (FileContent.append
          ⟨(s.clock s.reads).val, auth.currentIdentityDid, action, ns, key, message⟩)
      · refine .inl ⟨files', io_of_ok _ hwrite, ⟨content, ?_⟩, ?_, ?_⟩
        · rw [hnode']
          exact Function.update_self ..
        · rw [hnone]
          exact nofun
        · intro l hl
          rw [hnode', Function.update_of_ne hl, hnode]
      · rw [hnode] at hlogDir
        have hnone' := (if_neg hlog).symm.trans hlogDir
        rw [hnone] at hnone'
        exact nomatch hnone'
    · rw [StorageM.bind_of_error (io_of_error (s := { s with reads := s.reads + 1 }) _ herror)]
      exact .inr ⟨_, rfl⟩
  | some n =>
    rw [Option.isSome_some, Bool.not_true, if_neg Bool.false_ne_true]
    cases n with
    | directory =>
      obtain ⟨files, hwrite, hbefore, content, hnode⟩ | ⟨hwrite, -⟩ := writeLog_cases hroot hdir
        (FileContent.append
          ⟨(s.clock s.reads).val, auth.currentIdentityDid, action, ns, key, message⟩)
      · refine .inl ⟨files, io_of_ok _ hwrite, ⟨content, ?_⟩, hbefore, ?_⟩
        · rw [hnode]
          exact Function.update_self ..
        · intro l hl
          rw [hnode, Function.update_of_ne hl]
          split
          · next hm' =>
            by_cases heq : l = s.auditDir
            · rw [heq, hdir]
            · exact s.files.node_of_isPrefix (by rw [hdir]; exact Option.some_ne_none _) hm' heq
          · rfl
      · exact .inr ⟨_, io_of_error _ hwrite⟩
    | file content =>
      obtain ⟨e, hwrite⟩ := FileSystem.writeWith_error s.files (isName_logName _).nul
        (p := Path.names s.auditDir) (FileContent.append
          ⟨(s.clock s.reads).val, auth.currentIdentityDid, action, ns, key, message⟩) (by
          intro l henter
          rw [FileSystem.enter_names (nulFree_auditDir hroot), hdir] at henter
          simp at henter)
      exact .inr ⟨_, io_of_error _ hwrite⟩

/-- Where the directory of the logs is, only a directory can be in the way. -/
theorem answer_recordAuditLog (hdir : s.files.node s.auditDir = some .directory)
    (auth : AuthContext) (action ns : String) (key : Option String) (message : String) :
    answer (recordAuditLog auth action ns key message s) =
      if s.files.node s.nextLog = some .directory then
        .error (.error (mapIoError ns key "opening audit log file" .isADirectory))
      else .ok () := by
  rw [recordAuditLog_eq, exists_auditDir hroot, hdir, Option.isSome_some, Bool.not_true,
    if_neg Bool.false_ne_true]
  obtain ⟨files, hwrite, hbefore, -⟩ | ⟨hwrite, hlog⟩ := writeLog_cases hroot hdir
    (FileContent.append
      ⟨(s.clock s.reads).val, auth.currentIdentityDid, action, ns, key, message⟩)
  · rw [if_neg hbefore]
    exact congrArg answer (io_of_ok (s := { s with reads := s.reads + 1 }) _ hwrite)
  · rw [if_pos hlog]
    exact congrArg answer (io_of_error (s := { s with reads := s.reads + 1 }) _ hwrite)

end

end

/-! ## After one more line in a log -/

theorem versionName_ne_log (n : Nat) (date : String) : versionName n ≠ s!"log_{date}.jsonl" := by
  intro h
  have hlists := congrArg String.toList h
  rw [toList_versionName, toList_log] at hlists
  simp at hlists

/-- A file in the directory of the logs has changed. -/
structure Relogged (s : FileStorage) (l : Location) (s' : FileStorage) : Prop where
  place : ∃ timestamp, l = s.auditDir ++ [logName timestamp]
  rest : s' = { s with files := s'.files, reads := s'.reads }
  before : ∃ content, s.files.node l = some (.file content)
  after : ∃ content, s'.files.node l = some (.file content)
  other : ∀ m, m ≠ l → s'.files.node m = s.files.node m

section
variable {s s' : FileStorage} {l : Location}

theorem LogWritten.relogged {files : FileSystem FileContent} (h : LogWritten s files) (r : Nat)
    (hlog : s.files.node s.nextLog ≠ none) :
    Relogged s s.nextLog { s with files := files, reads := r } where
  place := ⟨_, rfl⟩
  rest := rfl
  before := by
    cases hnode : s.files.node s.nextLog with
    | none => exact absurd hnode hlog
    | some n =>
      cases n with
      | directory => exact absurd hnode h.before
      | file content => exact ⟨content, rfl⟩
  after := h.file
  other m hm := by
    show files.node m = s.files.node m
    rw [h.other m hm]
    split
    · next hm' =>
      have hbelow : m <+: s.nextLog := hm'.trans (List.prefix_append _ _)
      exact (s.files.node_of_isPrefix hlog hbelow hm).symm
    · rfl

namespace Relogged
variable (h : Relogged s l s')
include h

theorem directory_iff (m : Location) :
    s'.files.node m = some .directory ↔ s.files.node m = some .directory := by
  by_cases hm : m = l
  · obtain ⟨content, hbefore⟩ := h.before
    obtain ⟨content', hafter⟩ := h.after
    rw [hm, hbefore, hafter]
    simp
  · rw [h.other m hm]

theorem isSome_node (m : Location) : (s'.files.node m).isSome = (s.files.node m).isSome := by
  by_cases hm : m = l
  · obtain ⟨content, hbefore⟩ := h.before
    obtain ⟨content', hafter⟩ := h.after
    rw [hm, hbefore, hafter]
    rfl
  · rw [h.other m hm]

theorem rootPath : s'.rootPath = s.rootPath := by rw [h.rest]

theorem namespaceCache : s'.namespaceCache = s.namespaceCache := by rw [h.rest]

theorem exists_eq (p : Path) : s'.files.exists_ p = s.files.exists_ p := by
  rw [Bool.eq_iff_iff, FileSystem.exists_, FileSystem.exists_, Option.isSome_iff_exists,
    Option.isSome_iff_exists]
  simp only [FileSystem.find_eq_some, FileSystem.resolve_ok_congr h.directory_iff]
  have hnode : ∀ m, (∃ n, s'.files.node m = some n) ↔ ∃ n, s.files.node m = some n := by
    intro m
    rw [← Option.isSome_iff_exists, ← Option.isSome_iff_exists, h.isSome_node]
  constructor
  · rintro ⟨n, m, hm, hn⟩
    obtain ⟨n', hn'⟩ := (hnode m).mp ⟨n, hn⟩
    exact ⟨n', m, hm, hn'⟩
  · rintro ⟨n, m, hm, hn⟩
    obtain ⟨n', hn'⟩ := (hnode m).mpr ⟨n, hn⟩
    exact ⟨n', m, hm, hn'⟩

theorem namespacePath (ns : String) : s'.namespacePath ns = s.namespacePath ns := by
  rw [FileStorage.namespacePath, FileStorage.namespacePath, root, root, h.rootPath]

theorem keyDirPath (ns key : String) : s'.keyDirPath ns key = s.keyDirPath ns key := by
  rw [FileStorage.keyDirPath, FileStorage.keyDirPath, h.namespacePath]

theorem namespaceExists (ns : String) : s'.namespaceExists ns = s.namespaceExists ns := by
  rw [FileStorage.namespaceExists, FileStorage.namespaceExists, h.namespaceCache, h.namespacePath,
    h.exists_eq]

theorem checked_eq (auth : Option AuthContext) (action ns missing : String) :
    checked s' auth action ns missing = checked s auth action ns missing := by
  rw [checked, checked, h.namespaceExists]

theorem contains_eq (auth : Option AuthContext) (ns key : String) :
    contains s' auth ns key = contains s auth ns key := by
  rw [contains, contains, h.namespaceExists, metadataPath_eq, metadataPath_eq, h.keyDirPath,
    h.exists_eq]

/-- No log has the name of a file of a key. -/
theorem entry_eq {name : String} (hname : IsKeyFile name) (ns key : String) :
    s'.entry ns key name = s.entry ns key name := by
  rw [entry, entry, h.keyDirPath, FileSystem.enter_congr h.directory_iff]
  cases s.files.enter (s.keyDirPath ns key) with
  | none => rfl
  | some m =>
    apply h.other
    obtain ⟨timestamp, rfl⟩ := h.place
    intro heq
    have hlog : name = logName timestamp :=
      List.singleton_injective (List.append_inj_right' heq rfl)
    obtain rfl | ⟨n, rfl⟩ := hname
    · exact logName_ne_metadata timestamp hlog.symm
    · exact versionName_ne_log n (dateText timestamp) hlog

theorem readLatest_eq [SerdeMetadata] (ns key noVersions : String) :
    readLatest s' ns key noVersions = readLatest s ns key noVersions :=
  readLatest_congr (h.entry_eq (.inl rfl) ns key) fun _ _ _ _ => h.entry_eq (.inr ⟨_, rfl⟩) ns key

end Relogged

end

/-! ## Reads as their checks, their result and their audit log -/

/-- What is said of a read that has ended in its audit log. -/
def said {α : Type} (logged : Except StorageFault Unit) (a : α) : Except StorageFault α :=
  logged.map fun _ => a

/-- A read: its checks, its result and its audit log, whatever comes of that one. -/
theorem answer_read {α β : Type} (auth : Option AuthContext) (action ns missing logAction : String)
    (key : Option String) (f : FileStorage → Except StorageError α) (message : α → String)
    (g : α → β) (s : FileStorage) :
    answer ((do
      requireNamespace auth action ns missing
      let a ← StorageM.query f
      audit auth logAction ns key (message a)
      return g a : StorageM FileStorage β) s) =
      match checked s auth action ns missing with
      | .error e => .error (.error e)
      | .ok _ =>
        match f s with
        | .error e => .error (.error e)
        | .ok a => said (answer (audit auth logAction ns key (message a) s)) (g a) := by
  rw [requireNamespace_eq]
  simp only [bind, EStateM.bind, query_apply]
  cases checked s auth action ns missing with
  | error e => rfl
  | ok u =>
    dsimp only
    cases f s with
    | error e => rfl
    | ok a =>
      dsimp only
      cases audit auth logAction ns key (message a) s <;> rfl

/-- The names of the directories among the entries that start with a text. -/
def listed (start : Option String) (entries : Multiset (String × Node FileContent)) :
    Multiset String :=
  ((entries.filter fun entry => some entry.2 = some .directory).map Prod.fst).filter fun name =>
    start.all fun text => text.toList <+: name.toList

/-- What the audit log says of a list. -/
def listMessage (start : Option String) : String :=
  let shown := (start.map fun text => s!"Some({debugString text})").getD "None"
  s!"Listed keys with prefix {shown}"

theorem answer_listKeys (auth : Option AuthContext) (ns : String) (start : Option String)
    (s : FileStorage) : answer (listKeys auth ns start s) =
      match checked s auth "read" ns s!"Namespace not found: {ns}" with
      | .error e => .error (.error e)
      | .ok _ =>
        if !s.files.exists_ ((s.namespacePath ns).join "keys") then .ok 0
        else
          match (s.files.readDir ((s.namespacePath ns).join "keys")).mapError unknownError with
          | .error e => .error (.error e)
          | .ok entries =>
            said (answer (audit auth "list_keys" ns none (listMessage start) s))
              (listed start entries) := by
  unfold listKeys
  rw [requireNamespace_eq]
  simp only [bind, EStateM.bind, query_apply, StorageM.get_apply]
  cases checked s auth "read" ns s!"Namespace not found: {ns}" with
  | error e => rfl
  | ok u =>
    dsimp only
    cases s.files.exists_ ((s.namespacePath ns).join "keys") with
    | false => rfl
    | true =>
      rw [Bool.not_true, if_neg Bool.false_ne_true, if_neg Bool.false_ne_true]
      simp only [EStateM.bind, query_apply]
      cases (s.files.readDir ((s.namespacePath ns).join "keys")).mapError unknownError with
      | error e => rfl
      | ok entries =>
        dsimp only
        unfold listMessage
        cases audit auth "list_keys" ns none _ s <;> rfl

namespace Relogged
variable {s s' : FileStorage} {l : Location}

theorem atTime (h : Relogged s l s') (t : Timestamp) : Relogged (s.atTime t) l (s'.atTime t) where
  place := h.place
  rest := by
    rw [h.rest]
    rfl
  before := h.before
  after := h.after
  other := h.other

variable (h : Relogged s l s')
include h

theorem auditDir_directory : s.files.node s.auditDir = some .directory := by
  obtain ⟨timestamp, rfl⟩ := h.place
  obtain ⟨content, hbefore⟩ := h.before
  refine s.files.node_of_isPrefix (by rw [hbefore]; exact Option.some_ne_none _)
    (List.prefix_append _ _) ?_
  intro heq
  simpa using congrArg List.length heq

theorem answer_audit (hroot : NulFree s.rootPath) (hclock : s'.clock = s.clock)
    (hreads : s'.reads = s.reads) (auth : Option AuthContext) (action ns : String)
    (key : Option String) (message : String) :
    answer (audit auth action ns key message s') = answer (audit auth action ns key message s) := by
  cases auth with
  | none => rfl
  | some a =>
    have hdir : s'.auditDir = s.auditDir := by rw [auditDir, auditDir, h.rootPath]
    have hlog : s'.nextLog = s.nextLog := by rw [nextLog, nextLog, hdir, hclock, hreads]
    have hdir' : s'.files.node s'.auditDir = some .directory := by
      rw [hdir, h.directory_iff]
      exact h.auditDir_directory
    dsimp only [audit]
    rw [answer_recordAuditLog hroot h.auditDir_directory,
      answer_recordAuditLog (h.rootPath ▸ hroot) hdir', hlog]
    simp only [h.directory_iff]

theorem listed_children (m : Location) (start : Option String) :
    listed start (s'.files.children m) = listed start (s.files.children m) := by
  have hnodup : ∀ fs : FileSystem FileContent, (listed start (fs.children m)).Nodup := by
    intro fs
    apply Multiset.Nodup.filter
    exact Multiset.nodup_of_le (Multiset.map_le_map (Multiset.filter_le _ _))
      (FileSystem.nodup_children fs m)
  rw [Multiset.Nodup.ext (hnodup _) (hnodup _)]
  intro name
  simp only [listed, Multiset.mem_filter, Multiset.mem_map, Prod.exists, exists_and_right,
    exists_eq_right, FileSystem.mem_children, Option.some.injEq]
  have hnode := h.directory_iff (m ++ [name])
  simp only [hnode]

/-- The same names are in a directory. -/
theorem map_readDir {p : Path} (hexists : s.files.exists_ p = true) (start : Option String) :
    (s'.files.readDir p).map (listed start) = (s.files.readDir p).map (listed start) := by
  obtain ⟨n, hfind⟩ := Option.isSome_iff_exists.mp hexists
  obtain ⟨m, hresolve, hnode⟩ := FileSystem.find_eq_some.mp hfind
  have hresolve' : s'.files.resolve p = .ok m :=
    (FileSystem.resolve_ok_congr h.directory_iff).mpr hresolve
  rw [FileSystem.readDir, FileSystem.readDir, hresolve, hresolve']
  simp only [bind, Except.bind]
  have hdir := h.directory_iff m
  have hsome := h.isSome_node m
  rw [hnode] at hdir hsome
  cases n with
  | directory =>
    rw [hnode, hdir.mpr rfl]
    simp only [Except.map, h.listed_children]
  | file content =>
    rw [hnode]
    cases hnode' : s'.files.node m with
    | none => simp [hnode'] at hsome
    | some n' =>
      cases n' with
      | directory => simp [hnode'] at hdir
      | file content' => rfl

theorem answer_listKeys_eq (hroot : NulFree s.rootPath) (hclock : s'.clock = s.clock)
    (hreads : s'.reads = s.reads) (auth : Option AuthContext) (ns : String)
    (start : Option String) :
    answer (listKeys auth ns start s') = answer (listKeys auth ns start s) := by
  rw [answer_listKeys, answer_listKeys, h.checked_eq, h.namespacePath, h.exists_eq]
  cases checked s auth "read" ns s!"Namespace not found: {ns}" with
  | error e => rfl
  | ok u =>
    dsimp only
    cases hexists : s.files.exists_ ((s.namespacePath ns).join "keys") with
    | false => rfl
    | true =>
      rw [Bool.not_true, if_neg Bool.false_ne_true, if_neg Bool.false_ne_true]
      have hentries := h.map_readDir hexists start
      cases hread : s.files.readDir ((s.namespacePath ns).join "keys") with
      | error e =>
        cases hread' : s'.files.readDir ((s.namespacePath ns).join "keys") with
        | error e' =>
          rw [hread, hread'] at hentries
          rw [Except.error.inj hentries]
          rfl
        | ok entries' =>
          rw [hread, hread'] at hentries
          exact nomatch hentries
      | ok entries =>
        cases hread' : s'.files.readDir ((s.namespacePath ns).join "keys") with
        | error e' =>
          rw [hread, hread'] at hentries
          exact nomatch hentries
        | ok entries' =>
          rw [hread, hread'] at hentries
          simp only [Except.mapError, h.answer_audit hroot hclock hreads]
          rw [Except.ok.inj hentries]

theorem answer_read_eq {α β : Type} (hroot : NulFree s.rootPath) (hclock : s'.clock = s.clock)
    (hreads : s'.reads = s.reads) (auth : Option AuthContext) (action ns missing logAction : String)
    (key : Option String) {f : FileStorage → Except StorageError α} (hf : f s' = f s)
    (message : α → String) (g : α → β) {x : StorageM FileStorage β} (hx : x = (do
      requireNamespace auth action ns missing
      let a ← StorageM.query f
      audit auth logAction ns key (message a)
      return g a)) :
    answer (x s') = answer (x s) := by
  rw [hx, answer_read, answer_read, h.checked_eq, hf]
  simp only [h.answer_audit hroot hclock hreads]

theorem answer_get_eq [SerdeMetadata] (hroot : NulFree s.rootPath) (hclock : s'.clock = s.clock)
    (hreads : s'.reads = s.reads) (auth : Option AuthContext) (ns key : String) :
    answer (get auth ns key s') = answer (get auth ns key s) :=
  h.answer_read_eq hroot hclock hreads auth "read" ns s!"Namespace not found: {ns}" "read"
    (some key) (f := (readLatest · ns key s!"{ns}:{key} (no versions)")) (h.readLatest_eq ns key _)
    (fun found => s!"Read version {found.2.version}") Prod.fst (x := get auth ns key) rfl

theorem answer_getVersioned_eq [SerdeMetadata] (hroot : NulFree s.rootPath)
    (hclock : s'.clock = s.clock) (hreads : s'.reads = s.reads) (auth : Option AuthContext)
    (ns key : String) :
    answer (getVersioned auth ns key s') = answer (getVersioned auth ns key s) :=
  h.answer_read_eq hroot hclock hreads auth "read" ns s!"{ns}:{key}" "read" (some key)
    (f := (readLatest · ns key s!"{ns}:{key}")) (h.readLatest_eq ns key _)
    (fun found => s!"Read versioned data (v{found.2.version})") id
    (x := getVersioned auth ns key) rfl

theorem sameAnswers [SerdeMetadata] (hroot : NulFree s.rootPath) : SameAnswers s s' where
  get t := (h.atTime t).answer_get_eq hroot rfl rfl
  getVersioned t := (h.atTime t).answer_getVersioned_eq hroot rfl rfl
  contains := h.contains_eq
  listKeys t := (h.atTime t).answer_listKeys_eq hroot rfl rfl
  usage user := by rw [h.rest]

end Relogged

end FileStorage

end Covm
