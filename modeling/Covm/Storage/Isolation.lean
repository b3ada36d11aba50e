import Covm.Storage.FileHistory
import Covm.Storage.FileKeeps
import Covm.Storage.Secrecy

/-!
# Whether namespaces are apart

Who may write in a namespace is decided by its name, where a key is by following a path: a key of
one namespace may lead into the files of another one. `Unreached` says that it does not. Then no
writing of the one key is seen by a read of the other one.
-/

namespace Covm

open Files Partial

namespace FileStorage

/-! ## What is changed and what is looked at -/

def IsLog (root m : Location) : Prop :=
  ∃ timestamp, m = root ++ ["audit_logs", logName timestamp]

/-- Where the directory of a key is, if there is one. -/
def dirOf (s : FileStorage) (ns key : String) : Location := Files.Path.target [] (s.keyDirPath ns key)

/-- What `set` may change: directories that are missing on its way, the files of the key and the
account of the writer. -/
inductive SetChanges (s : FileStorage) (user ns key : String) : Location → Prop
  | directory {m : Location} (visited : m ∈ Path.visited [] (s.keyDirPath ns key))
      (missing : s.files.node m = none) : SetChanges s user ns key m
  | file {name : String} (isFile : IsKeyFile name) :
    SetChanges s user ns key (s.dirOf ns key ++ [name])
  | account (known : user ∈ s.accountCache) :
    SetChanges s user ns key (Files.Path.target [] (s.accountPath user))

/-- What `get` looks at: the directories that its way goes through and leaves again, the files of
the key, and the way to the namespace if that is not known. -/
inductive LooksAt (s : FileStorage) (ns key : String) : Location → Prop
  | detour {m : Location} (visited : m ∈ Path.visited [] (s.keyDirPath ns key))
      (left : ¬ m <+: s.dirOf ns key) : LooksAt s ns key m
  | file {name : String} (isFile : IsKeyFile name) : LooksAt s ns key (s.dirOf ns key ++ [name])
  | space {m : Location} (unknown : ns ∉ s.namespaceCache)
      (visited : m ∈ Path.visited [] (s.namespacePath ns)) : LooksAt s ns key m

/-- Only the nodes in `changed` are changed, and logs. -/
structure Confined (changed : Location → Prop) (s t : FileStorage) : Prop where
  rootPath : t.rootPath = s.rootPath
  namespaceCache : t.namespaceCache = s.namespaceCache
  users : ∀ user ∈ t.accountCache, user ∈ s.accountCache
  loggable : Loggable t
  node : ∀ m, ¬ changed m → ¬ IsLog s.rootPath m → t.files.node m = s.files.node m

theorem Confined.refl {s : FileStorage} (h : Loggable s) (changed : Location → Prop) :
    Confined changed s s := ⟨rfl, rfl, fun _ huser => huser, h, fun _ _ _ => rfl⟩

section
variable {s t : FileStorage} {changed : Location → Prop}

theorem Confined.keyDirPath (h : Confined changed s t) (ns key : String) :
    t.keyDirPath ns key = s.keyDirPath ns key := by
  simp only [FileStorage.keyDirPath, namespacePath, root, h.rootPath]

theorem Confined.namespacePath (h : Confined changed s t) (ns : String) :
    t.namespacePath ns = s.namespacePath ns := by
  simp only [FileStorage.namespacePath, root, h.rootPath]

theorem Confined.accountPath (h : Confined changed s t) (user : String) :
    t.accountPath user = s.accountPath user := by
  simp only [FileStorage.accountPath, root, h.rootPath]

/-- The files change once more. -/
theorem Confined.files (h : Confined changed s t) {files : FileSystem FileContent}
    (hdir : files.node (s.rootPath ++ ["audit_logs"]) = some .directory)
    (hlogs : ∀ timestamp,
      files.node (s.rootPath ++ ["audit_logs", logName timestamp]) ≠ some .directory)
    (hnode : ∀ m, ¬ changed m → ¬ IsLog s.rootPath m → files.node m = t.files.node m) :
    Confined changed s { t with files := files } where
  rootPath := h.rootPath
  namespaceCache := h.namespaceCache
  users := h.users
  loggable := by
    refine ⟨h.loggable.nulFree, ?_, fun timestamp => ?_⟩
    · rw [← h.rootPath] at hdir
      exact hdir
    · have hlog := hlogs timestamp
      rw [← h.rootPath] at hlog
      exact hlog
  node m hm hlog := (hnode m hm hlog).trans (h.node m hm hlog)

theorem Confined.auditLogs (h : Confined changed s t) :
    t.files.node (s.rootPath ++ ["audit_logs"]) = some .directory := by
  rw [← h.rootPath]
  exact h.loggable.auditLogs

theorem Confined.logFiles (h : Confined changed s t) (timestamp : Nat) :
    t.files.node (s.rootPath ++ ["audit_logs", logName timestamp]) ≠ some .directory := by
  rw [← h.rootPath]
  exact h.loggable.logFiles timestamp

theorem confined_ofFiles : OfFiles (Confined changed s) where
  congr := by
    intro t t' hfiles hroot hcache haccounts h
    refine ⟨hroot.trans h.rootPath, hcache.trans h.namespaceCache, ?_, ?_, ?_⟩
    · rw [haccounts]
      exact h.users
    · obtain ⟨hnul, hdir, hlogs⟩ := h.loggable
      rw [← hroot] at hnul hdir hlogs
      rw [← hfiles] at hdir hlogs
      exact ⟨hnul, hdir, hlogs⟩
    · intro m hm hlog
      rw [hfiles]
      exact h.node m hm hlog
  logs := by
    intro auth action ns key message t h
    obtain ⟨files, timestamp, content, hok, hnode⟩ :=
      recordAuditLog_writes h.loggable auth action ns key message
    rw [h.rootPath] at hnode
    rw [hok, final_ok]
    apply Confined.files (t := { t with reads := t.reads + 1 }) ⟨h.rootPath, h.namespaceCache,
      h.users, ⟨h.loggable.nulFree, h.loggable.auditLogs, h.loggable.logFiles⟩, h.node⟩
    · rw [hnode, Function.update_of_ne (by simp)]
      exact h.auditLogs
    · intro timestamp'
      rw [hnode]
      by_cases heq : s.rootPath ++ ["audit_logs", logName timestamp'] =
          s.rootPath ++ ["audit_logs", logName timestamp]
      · rw [heq, Function.update_self]
        exact fun hdir => nomatch hdir
      · rw [Function.update_of_ne heq]
        exact h.logFiles timestamp'
    · intro m _ hm
      rw [hnode, Function.update_of_ne]
      rintro rfl
      exact hm ⟨timestamp, rfl⟩

/-- A file is written where something may be changed. -/
theorem write_confined {p : Path} (hp : changed (Files.Path.target [] p))
    (toError : IoError → StorageError) (content : FileContent) :
    Keeps (Confined changed s) (io toError (FileSystem.write p content)) := by
  apply io_keeps
  intro t h
  have hdirectory := FileSystem.writeWith_directory p (fun _ => content) t.files
  apply h.files
  · exact (hdirectory _).mpr h.auditLogs
  · exact fun timestamp hdir => h.logFiles timestamp ((hdirectory _).mp hdir)
  · intro m hm _
    apply FileSystem.writeWith_node
    rintro rfl
    exact hm hp

/-- Directories are made on a way that does not lead through a log. -/
theorem createDirAll_confined {p : Path}
    (hp : ∀ m ∈ Path.visited [] p, s.files.node m = none → changed m)
    (hlogs : ∀ m ∈ Path.visited [] p, ¬ IsLog s.rootPath m) (toError : IoError → StorageError) :
    Keeps (Confined changed s) (io toError (FileSystem.createDirAll p)) := by
  apply io_keeps
  intro t h
  have hadded := FileSystem.createDirAll_added p t.files
  apply h.files
  · obtain hsame | ⟨-, -, hdir⟩ := hadded (s.rootPath ++ ["audit_logs"])
    · exact hsame.trans h.auditLogs
    · exact hdir
  · intro timestamp
    obtain hsame | ⟨hvisited, -, -⟩ := hadded (s.rootPath ++ ["audit_logs", logName timestamp])
    · rw [hsame]
      exact h.logFiles timestamp
    · exact absurd ⟨timestamp, rfl⟩ (hlogs _ hvisited)
  · intro m hm hlog
    obtain hsame | ⟨hvisited, hmissing, -⟩ := hadded m
    · exact hsame
    · rw [h.node m hm hlog] at hmissing
      exact absurd (hp m hvisited hmissing) hm

/-- What is removed is not above the logs. -/
theorem removeDirAll_confined {p : Path} (hp : ∀ m, Files.Path.target [] p <+: m → changed m)
    (habove : ¬ Files.Path.target [] p <+: s.rootPath ++ ["audit_logs"])
    (toError : IoError → StorageError) :
    Keeps (Confined changed s) (io toError (FileSystem.removeDirAll p)) := by
  apply io_keeps
  intro t h
  have hleft := FileSystem.removeDirAll_left p t.files
  apply h.files
  · obtain hsame | ⟨hstarts, -⟩ := hleft (s.rootPath ++ ["audit_logs"])
    · exact hsame.trans h.auditLogs
    · exact absurd hstarts habove
  · intro timestamp
    obtain hsame | ⟨-, hnone⟩ := hleft (s.rootPath ++ ["audit_logs", logName timestamp])
    · rw [hsame]
      exact h.logFiles timestamp
    · rw [hnone]
      exact fun hdir => nomatch hdir
  · intro m hm _
    obtain hsame | ⟨hstarts, -⟩ := hleft m
    · exact hsame
    · exact absurd (hp m hstarts) hm

end

/-! ## What the calls change -/

theorem target_keyFile (s : FileStorage) (ns key name : String) :
    Files.Path.target [] (s.keyDirPath ns key ++ [Component.name name]) = s.dirOf ns key ++ [name] := by
  simp [dirOf, Path.step]

section
variable [SerdeMetadata] {s : FileStorage} {ns key : String}

theorem set_confined (h : Loggable s)
    (hlogs : ∀ m ∈ Path.visited [] (s.keyDirPath ns key), ¬ IsLog s.rootPath m)
    (auth : Option AuthContext) (value : ByteArray) :
    Confined (SetChanges s (EconomicOperations.userOf auth) ns key) s
      (final (set auth ns key value s)) := by
  refine set_keeps ⟨confined_ofFiles, ?_, ?_, ?_, ?_⟩ value s (.refl h _)
  · intro t ht p hp toError
    rw [ht.keyDirPath] at hp
    have hvisited : ∀ m ∈ Path.visited [] p, m ∈ Path.visited [] (s.keyDirPath ns key) := by
      intro m hm
      rw [← Path.mem_visited_trim, ← hp, Path.mem_visited_trim]
      exact hm
    apply createDirAll_confined
    · exact fun m hm hmissing => .directory (hvisited m hm) hmissing
    · exact fun m hm => hlogs m (hvisited m hm)
  · intro t ht name hname toError content
    apply write_confined
    rw [ht.keyDirPath, target_keyFile]
    exact .file hname
  · intro s' hs' huser account t ht
    refine ⟨ht.rootPath, ht.namespaceCache, fun user' huser' => ?_, ⟨ht.loggable.nulFree,
      ht.loggable.auditLogs, ht.loggable.logFiles⟩, ht.node⟩
    obtain rfl | huser' := Finmap.mem_insert.mp huser'
    · exact hs'.users _ huser
    · exact ht.users user' huser'
  · intro s' hs' huser t ht toError content
    apply write_confined
    rw [ht.accountPath]
    exact .account (hs'.users _ huser)

theorem delete_confined (h : Loggable s)
    (habove : ¬ s.dirOf ns key <+: s.rootPath ++ ["audit_logs"]) (auth : Option AuthContext) :
    Confined (s.dirOf ns key <+: ·) s (final (delete auth ns key s)) := by
  refine delete_keeps confined_ofFiles auth ?_ s (.refl h _)
  intro t ht toError
  rw [ht.keyDirPath]
  exact removeDirAll_confined (fun m hm => hm) habove toError

end

/-! ## What is read -/

theorem versionName_ne_logName (version timestamp : Nat) :
    versionName version ≠ logName timestamp := by
  intro hname
  have hlists := congrArg String.toList hname
  rw [toList_versionName, logName, toList_log] at hlists
  exact absurd (List.cons.inj hlists).1 (by decide)

theorem IsKeyFile.not_isLog {name : String} (h : IsKeyFile name) (root l : Location) :
    ¬ IsLog root (l ++ [name]) := by
  rintro ⟨timestamp, heq⟩
  have hlog : root ++ ["audit_logs", logName timestamp] =
      (root ++ ["audit_logs"]) ++ [logName timestamp] := by simp
  rw [hlog] at heq
  have hname : name = logName timestamp := (List.cons.inj (List.append_inj' heq rfl).2).1
  obtain rfl | ⟨version, rfl⟩ := h
  · exact logName_ne_metadata timestamp hname.symm
  · exact versionName_ne_logName version timestamp hname

section
variable {s t : FileStorage} {changed : Location → Prop} {ns key : String}

/-- A log on the way keeps the file from being found, before and after. -/
theorem Confined.entry (h : Confined changed s t) (hs : Loggable s)
    (hunseen : ∀ m, LooksAt s ns key m → ¬ changed m) {name : String} (hname : IsKeyFile name) :
    t.entry ns key name = s.entry ns key name := by
  show t.files.lookup (t.keyDirPath ns key) name = s.files.lookup (s.keyDirPath ns key) name
  rw [h.keyDirPath]
  apply FileSystem.lookup_congr
  · exact h.node _ (hunseen _ (.file hname)) (hname.not_isLog _ _)
  · intro m hm hleft
    by_cases hlog : IsLog s.rootPath m
    · obtain ⟨timestamp, rfl⟩ := hlog
      simp [hs.logFiles timestamp, h.logFiles timestamp]
    · rw [h.node m (hunseen m (.detour hm hleft)) hlog]

theorem Confined.namespaceExists (h : Confined changed s t)
    (hunseen : ∀ m, LooksAt s ns key m → ¬ changed m)
    (hlogs : ns ∉ s.namespaceCache → ∀ m ∈ Path.visited [] (s.namespacePath ns),
      ¬ IsLog s.rootPath m) : t.namespaceExists ns = s.namespaceExists ns := by
  rw [FileStorage.namespaceExists, FileStorage.namespaceExists, h.namespaceCache, h.namespacePath]
  by_cases hknown : ns ∈ s.namespaceCache
  · simp [hknown]
  · have hfind : t.files.find (s.namespacePath ns) = s.files.find (s.namespacePath ns) :=
      FileSystem.find_congr fun m hm =>
        h.node m (hunseen m (.space hknown hm)) (hlogs hknown m hm)
    rw [FileSystem.exists_, FileSystem.exists_, hfind]

theorem Confined.get_answer [SerdeMetadata] (h : Confined changed s t) (hs : Loggable s)
    (hunseen : ∀ m, LooksAt s ns key m → ¬ changed m)
    (hlogs : ns ∉ s.namespaceCache → ∀ m ∈ Path.visited [] (s.namespacePath ns),
      ¬ IsLog s.rootPath m) (auth : Option AuthContext) :
    answer (get auth ns key t) = answer (get auth ns key s) := by
  have hread : readLatest t ns key s!"{ns}:{key} (no versions)" =
      readLatest s ns key s!"{ns}:{key} (no versions)" :=
    readLatest_congr (h.entry hs hunseen (.inl rfl))
      fun _ v _ _ => h.entry hs hunseen (.inr ⟨v.version, rfl⟩)
  rw [(FileStorage.get_answer h.loggable auth ns key).1, (FileStorage.get_answer hs auth ns key).1,
    hread, checked, checked, h.namespaceExists hunseen hlogs]

end

/-! ## Two callers -/

/-- A caller with a key in a namespace. -/
structure Access where
  caller : Option AuthContext
  ns : String
  key : String

/-- What the one stores or deletes under its key is not seen by a read of the other one, whose
values do not come to light under the first one's key. -/
structure Isolated [SerdeMetadata] (s : FileStorage) (a : Access) (v : ByteArray) (b : Access)
    (w : ByteArray) : Prop where
  set : answer (get b.caller b.ns b.key (final (FileStorage.set a.caller a.ns a.key v s))) =
    answer (get b.caller b.ns b.key s)
  delete : answer (get b.caller b.ns b.key (final (FileStorage.delete a.caller a.ns a.key s))) =
    answer (get b.caller b.ns b.key s)
  get : answer (get a.caller a.ns a.key (final (FileStorage.set b.caller b.ns b.key w s))) =
    answer (get a.caller a.ns a.key s)

/-- The way of the one leads through no log, and nothing that its `set` may change is looked at by
the other one. -/
structure Misses (s : FileStorage) (a b : Access) : Prop where
  logs : ∀ m ∈ Path.visited [] (s.keyDirPath a.ns a.key), ¬ IsLog s.rootPath m
  space : b.ns ∉ s.namespaceCache → ∀ m ∈ Path.visited [] (s.namespacePath b.ns),
    ¬ IsLog s.rootPath m
  unseen : ∀ m, LooksAt s b.ns b.key m →
    ¬ SetChanges s (EconomicOperations.userOf a.caller) a.ns a.key m

/-- The ways of the two keys do not meet where something may be written or removed. -/
structure Unreached (s : FileStorage) (a b : Access) : Prop where
  loggable : Loggable s
  there : Misses s a b
  back : Misses s b a
  above : ¬ s.dirOf a.ns a.key <+: s.rootPath ++ ["audit_logs"]
  delete : ∀ m, LooksAt s b.ns b.key m → ¬ s.dirOf a.ns a.key <+: m

theorem isolated_of_unreached [SerdeMetadata] {s : FileStorage} {a b : Access} (h : Unreached s a b)
    (v w : ByteArray) : Isolated s a v b w where
  set := (set_confined h.loggable h.there.logs a.caller v).get_answer h.loggable h.there.unseen
    h.there.space b.caller
  delete := (delete_confined h.loggable h.above a.caller).get_answer h.loggable h.delete
    h.there.space b.caller
  get := (set_confined h.loggable h.back.logs b.caller w).get_answer h.loggable h.back.unseen
    h.back.space a.caller

/-! ## Plain keys -/

section
variable {s : FileStorage} {ns key user : String}

theorem dirOf_of_plain (hns : Path.IsPlain ns) (hkey : Path.IsPlain key) :
    s.dirOf ns key = s.rootPath ++ "namespaces" :: place ns key := by
  rw [dirOf, keyDirPath_of_plain hns hkey, Path.target_names, List.nil_append]

/-- Whatever is in the tree of the namespaces is no log. -/
theorem not_isLog_of_isPrefix {root l m : Location} (h : m <+: root ++ "namespaces" :: l) :
    ¬ IsLog root m := by
  rintro ⟨timestamp, rfl⟩
  rw [List.prefix_append_right_inj, List.cons_prefix_cons] at h
  exact absurd h.1 (by decide)

theorem target_accountPath (hname : Path.IsName (accountName user)) :
    Files.Path.target [] (s.accountPath user) = s.rootPath ++ ["accounts", accountName user] := by
  have haccounts : Path.IsName "accounts" := by decide
  rw [accountPath, root, haccounts.join, hname.join, Path.target_append, Path.target_append,
    Path.target_names]
  simp [Path.step]

/-- A plain key's `set` makes directories that are missing and writes in its directory, unless it
writes an account. -/
theorem SetChanges.cases_of_plain (h : Opened s) (hns : Path.IsPlain ns) (hkey : Path.IsPlain key)
    {m : Location} (hm : SetChanges s user ns key m) :
    (m <+: s.rootPath ++ "namespaces" :: place ns key ∧ s.files.node m = none) ∨
      (∃ name, m = s.rootPath ++ "namespaces" :: (place ns key ++ [name])) ∨
      ∃ name, m = s.rootPath ++ ["accounts", name] := by
  cases hm with
  | directory visited missing =>
    rw [keyDirPath_of_plain hns hkey, Path.mem_visited_names] at visited
    exact .inl ⟨visited, missing⟩
  | @file name isFile =>
    refine .inr (.inl ⟨name, ?_⟩)
    rw [dirOf_of_plain hns hkey]
    simp
  | account known => exact .inr (.inr ⟨_, target_accountPath (h.accountNames user known)⟩)

/-- A read of a plain key in a namespace that exists looks at the files of the key and at nodes
that are there. -/
theorem LooksAt.cases_of_plain (h : Opened s) (hns : Path.IsPlain ns) (hkey : Path.IsPlain key)
    (hexists : s.namespaceExists ns = true) {m : Location} (hm : LooksAt s ns key m) :
    (∃ name, m = s.rootPath ++ "namespaces" :: (place ns key ++ [name])) ∨
      (m <+: s.rootPath ++ "namespaces" :: Path.components ns ∧ s.files.node m ≠ none) := by
  cases hm with
  | detour visited left =>
    rw [dirOf_of_plain hns hkey] at left
    rw [keyDirPath_of_plain hns hkey, Path.mem_visited_names] at visited
    exact absurd visited left
  | @file name isFile =>
    refine .inl ⟨name, ?_⟩
    rw [dirOf_of_plain hns hkey]
    simp
  | space unknown visited =>
    rw [namespacePath_of_plain hns, Path.mem_visited_names] at visited
    refine .inr ⟨visited, fun hnone => ?_⟩
    have hmissing : s.data (Path.components ns) = none :=
      s.files.node_eq_none_of_isPrefix hnone visited
    rw [namespaceExists_of_plain h hns, hmissing] at hexists
    simp [unknown] at hexists

end

/-- No keys of a namespace are on the way to another one. -/
theorem IsNamespace.keys_not_isPrefix {ns ns' : String} (hns' : IsNamespace ns') (l : Location) :
    ¬ Path.components ns ++ "keys" :: l <+: Path.components ns' := by
  rintro ⟨l', heq⟩
  apply hns'.keys
  rw [← heq, List.append_assoc, List.tail_append_of_ne_nil (Path.components_ne_nil ns)]
  simp

section
variable {s : FileStorage} {a b : Access} (h : Opened s) (hns : IsNamespace a.ns)
  (hns' : IsNamespace b.ns) (hne : a.ns ≠ b.ns) (hkey : Path.IsPlain a.key)
  (hkey' : Path.IsPlain b.key) (hexists : s.namespaceExists b.ns = true)
include h hns hns' hne hkey hkey' hexists

/-- What is below the directory of a key is neither a file of a key of another namespace nor on the
way to that namespace. -/
theorem not_prefix_of_plain {m : Location} (hm : LooksAt s b.ns b.key m) :
    ¬ s.dirOf a.ns a.key <+: m := by
  intro hstarts
  rw [dirOf_of_plain hns.plain hkey] at hstarts
  obtain ⟨name, rfl⟩ | ⟨hm, -⟩ := hm.cases_of_plain h hns'.plain hkey' hexists
  · rw [namespaces_isPrefix, place, place, List.append_assoc, List.cons_append] at hstarts
    exact hne (hns.eq_of_isPrefix hns' hstarts).1
  · exact hns'.keys_not_isPrefix _ (namespaces_isPrefix.mp (hstarts.trans hm))

theorem misses_of_plain : Misses s a b where
  logs m hm := by
    rw [keyDirPath_of_plain hns.plain hkey, Path.mem_visited_names] at hm
    exact not_isLog_of_isPrefix hm
  space _ m hm := by
    rw [namespacePath_of_plain hns'.plain, Path.mem_visited_names] at hm
    exact not_isLog_of_isPrefix hm
  unseen m hm hchanges := by
    obtain ⟨hway, hmissing⟩ | ⟨name, rfl⟩ | ⟨name, rfl⟩ :=
      hchanges.cases_of_plain h hns.plain hkey
    · obtain ⟨name, rfl⟩ | ⟨-, hthere⟩ := hm.cases_of_plain h hns'.plain hkey' hexists
      · rw [namespaces_isPrefix, place, place, List.append_assoc, List.cons_append] at hway
        exact hne (hns'.eq_of_isPrefix hns hway).1.symm
      · exact hthere hmissing
    · apply not_prefix_of_plain h hns hns' hne hkey hkey' hexists hm
      rw [dirOf_of_plain hns.plain hkey, namespaces_isPrefix]
      exact List.prefix_append _ _
    · have haccount : ∀ l,
          ¬ s.rootPath ++ ["accounts", name] <+: s.rootPath ++ "namespaces" :: l := by
        intro l hstarts
        rw [List.prefix_append_right_inj, List.cons_prefix_cons] at hstarts
        exact absurd hstarts.1 (by decide)
      obtain ⟨name', heq⟩ | ⟨hway, -⟩ := hm.cases_of_plain h hns'.plain hkey' hexists
      · exact haccount _ (by rw [heq])
      · exact haccount _ hway

end

/-- Plain keys of different namespaces do not meet. -/
theorem unreached_of_plain {s : FileStorage} {a b : Access} (h : Opened s) (hns : IsNamespace a.ns)
    (hns' : IsNamespace b.ns) (hne : a.ns ≠ b.ns) (hkey : Path.IsPlain a.key)
    (hkey' : Path.IsPlain b.key) (hexists : s.namespaceExists a.ns = true)
    (hexists' : s.namespaceExists b.ns = true) : Unreached s a b where
  loggable := h.loggable
  there := misses_of_plain h hns hns' hne hkey hkey' hexists'
  back := misses_of_plain h hns' hns hne.symm hkey' hkey hexists
  above := by
    rw [dirOf_of_plain hns.plain hkey, List.prefix_append_right_inj, List.cons_prefix_cons]
    exact fun hstarts => absurd hstarts.1 (by decide)
  delete _ hm := not_prefix_of_plain h hns hns' hne hkey hkey' hexists' hm

/-! ## A key that leads out of its namespace -/

/-- Through two parents, a key is read where a key of another namespace is. -/
theorem entry_of_parents {s : FileStorage} (h : Opened s) {ns ns' key key' : String}
    (hns : Path.IsName ns) (hns' : Path.IsPlain ns') (hkey' : Path.IsPlain key')
    (hkey : ∀ p, Path.join p key = p ++ ([Component.parent, .parent] ++ Path.names (place ns' key')))
    (hkeys : s.data [ns, "keys"] = some .directory) (name : String) :
    s.entry ns key name = s.entry ns' key' name := by
  have hpath : s.keyDirPath ns key =
      Path.names (s.rootPath ++ ["namespaces", ns, "keys"]) ++ ([Component.parent, .parent] ++
        Path.names (place ns' key')) := by
    rw [keyDirPath, keysPath_of_plain hns.isPlain, hkey, Path.components_of_isName hns]
    rfl
  set keys := s.rootPath ++ ["namespaces", ns, "keys"] with hkeysDef
  have hparents : Files.Path.target keys [.parent, .parent] = s.rootPath ++ ["namespaces"] := by
    simp [Files.Path.target, Path.step, hkeysDef]
  have htarget : Files.Path.target [] (s.keyDirPath ns key) =
      s.rootPath ++ "namespaces" :: place ns' key' := by
    rw [hpath, Path.target_append, Path.target_append, Path.target_names, Path.target_names,
      List.nil_append, hparents, List.append_assoc, List.singleton_append]
  have hnul : Path.hasNul (s.keyDirPath ns key) = false := by
    have hnulKeys : NulFree keys := h.nulFree_place (l := [ns, "keys"]) (by
      rintro name (_ | ⟨_, hname⟩)
      · exact hns.nul
      · rw [List.mem_singleton.mp hname]
        decide)
    rw [hpath, Path.hasNul_append, Path.hasNul_append, Path.hasNul_names hnulKeys,
      Path.hasNul_names (nulFree_place hns' hkey')]
    rfl
  -- the way there: down to the keys of the namespace, up twice, and down again
  have habove : ∀ m, m <+: keys → s.files.node m = some .directory := by
    intro m hm
    by_cases heq : m = keys
    · rw [heq]
      exact hkeys
    · refine s.files.node_of_isPrefix ?_ hm heq
      rw [show s.files.node keys = some .directory from hkeys]
      exact Option.some_ne_none _
  have hway : ∀ m ∈ Path.visited [] (s.keyDirPath ns key),
      ¬ m <+: s.rootPath ++ "namespaces" :: place ns' key' → s.files.node m = some .directory := by
    intro m hm hleft
    rw [hpath, Path.mem_visited_append, Path.mem_visited_append, Path.mem_visited_names,
      Path.target_names, List.nil_append, hparents] at hm
    obtain hm | hm | hm := hm
    · exact habove m hm
    · simp only [Path.visited, Path.step, List.mem_cons, List.not_mem_nil, or_false] at hm
      obtain rfl | rfl | rfl := hm
      · exact habove _ (List.prefix_refl _)
      · exact habove _ (List.dropLast_prefix _)
      · exact habove _ ((List.dropLast_prefix _).trans (List.dropLast_prefix _))
    · have hstarts := Path.prefix_of_mem_visited_names hm
      rw [List.append_assoc, List.singleton_append] at hstarts
      exact absurd hstarts hleft
  rw [entry_of_plain h hns' hkey' name]
  apply Option.ext
  intro n
  have hnode : s.data (place ns' key' ++ [name]) =
      s.files.node ((s.rootPath ++ "namespaces" :: place ns' key') ++ [name]) := by
    rw [List.append_assoc, List.cons_append]
    rfl
  show s.files.lookup (s.keyDirPath ns key) name = some n ↔ _
  rw [FileSystem.lookup_eq_some, htarget, hnode]
  exact ⟨fun hfound => hfound.2.1, fun hn => ⟨hnul, hn, hway⟩⟩

section
variable [SerdeMetadata] {s t : FileStorage} {ns ns' key key' : String}

theorem metadataIn_eq_ok {n : Option (Node FileContent)} {metadata : KeyMetadata} :
    metadataIn ns key n = .ok metadata ↔
      ∃ content, n = some (.file content) ∧ SerdeMetadata.parse content = .ok metadata := by
  match n with
  | none => simp [metadataIn]
  | some .directory => simp [metadataIn]
  | some (.file content) =>
    cases hparse : SerdeMetadata.parse content <;> simp [metadataIn, hparse, Except.mapError]

theorem versionIn_eq_ok {n : Option (Node FileContent)} {version : Nat} {d : ByteArray} :
    versionIn ns key version n = .ok d ↔
      ∃ content, n = some (.file content) ∧ SerdeMetadata.bytes content = d := by
  match n with
  | none => simp [versionIn]
  | some .directory => simp [versionIn]
  | some (.file content) => simp [versionIn]

theorem stored_eq_some {d : ByteArray} :
    s.stored ns key = some d ↔ ∃ metadata v, readKeyMetadata s ns key = .ok metadata ∧
      metadata.versions.getLast? = some v ∧ readVersionData s ns key v.version = .ok d := by
  rw [stored]
  cases hread : readLatest s ns key "" with
  | error e =>
    constructor
    · simp [Except.toOption]
    · rintro ⟨metadata, v, h⟩
      exact absurd (hread.symm.trans (readLatest_eq_ok.mpr ⟨metadata, h⟩)) (by simp)
  | ok found =>
    obtain ⟨d', v⟩ := found
    obtain ⟨metadata, hmetadata, hlast, hdata⟩ := readLatest_eq_ok.mp hread
    constructor
    · intro h
      obtain rfl : d' = d := Option.some.inj h
      exact ⟨metadata, v, hmetadata, hlast, hdata⟩
    · rintro ⟨metadata', v', h⟩
      have hsame := hread.symm.trans (readLatest_eq_ok.mpr ⟨metadata', h⟩)
      obtain ⟨rfl, -⟩ := Prod.mk.inj (Except.ok.inj hsame)
      rfl

/-- What is read depends on the entries, wherever they are found. -/
theorem stored_of_entries (h : ∀ name, s.entry ns key name = s.entry ns' key' name) :
    s.stored ns key = s.stored ns' key' := by
  apply Option.ext
  intro d
  simp only [stored_eq_some, readKeyMetadata_eq, readVersionData_eq, metadataIn_eq_ok,
    versionIn_eq_ok, h]

end

/-! ### Two namespaces -/

open InMemoryStorage (admin)

/-- A second namespace beside `ns`. -/
def shared : FileStorage := final (createNamespace (some admin) "b" 1000 none seeded)

theorem shared_ok : Opened shared ∧ EmptyNamespace shared "b" ∧
    shared.namespaceExists "ns" = true ∧ shared.data ["ns", "keys"] = some .directory ∧
    ∃ account, shared.accountCache.lookup "admin" = some account ∧ account.usedBytes = 0 ∧
      account.quotaBytes = 1000 := by
  have hplain : Path.IsName "b" := by decide
  have hcomponents : Path.components "b" = ["b"] := Path.components_of_isName hplain
  have hadmin : admin.hasRole "global" "admin" = true := by decide
  obtain ⟨metadata, account, -, hopened, -, hdata, hcache, hlookup, hused, hquota⟩ := seed_ok
  have hnone : ∀ l, seeded.data ("b" :: l) = none := by
    intro l
    rw [hdata, Function.update_of_ne (by simp), mkdirs_of_not_isPrefix (by simp)]
    rfl
  have hmissing : seeded.namespaceExists "b" = false := by
    rw [namespaceExists_of_plain hopened hplain.isPlain, hcomponents, hnone, hcache]
    simp [Finmap.notMem_empty]
  have hfree : seeded.Free (Path.components "b") := by
    intro m hm content hfile
    obtain ⟨-, -, -, -, hfiles, -⟩ := seeded_ok
    obtain ⟨-, hdir | ⟨rfl, -⟩⟩ := hfiles m _ hfile
    · exact nomatch hdir
    · simp [hcomponents] at hm
  obtain ⟨s, metadata', hok, hs, hdata', -, haccounts, hcache'⟩ :=
    createNamespace_ok hopened hadmin hplain.isPlain 1000 hmissing hfree
  have hshared : shared = s := by rw [shared, hok, final_ok]
  rw [hshared]
  refine ⟨hs, ?_, ?_, ?_, account, ?_, hused, hquota⟩
  · apply EmptyNamespace.of_created hplain.isPlain _ hdata'
    · intro l _
      rw [hcomponents]
      exact hnone _
    · simp [hcache']
  · rw [namespaceExists, hcache', hcache]
    simp
  · rw [hdata', hcomponents, Function.update_of_ne (by simp), mkdirs_of_not_isPrefix (by simp), hdata,
      Function.update_of_ne (by simp), mkdirs_self]
  · rw [haccounts, hlookup]

/-- A writer of the first namespace, who has no other role. -/
def bob : AuthContext := (AuthContext.new "bob").addRole "ns" "writer"

theorem bob_withoutRole : InMemoryStorage.WithoutRole "b" (some bob) := by
  have hnone : ∀ ns, ns ≠ "ns" → bob.roles.lookup ns = none := by
    intro ns hne
    exact (Finmap.lookup_insert_of_ne _ hne).trans (Finmap.lookup_empty ns)
  intro a ha role
  obtain rfl := Option.some.inj ha
  simp [AuthContext.hasRole, AuthContext.hasRoleForIdentity, hnone]

theorem bob_permitted : checkPermission (some bob) "read" "ns" = .ok () := by
  have hwriter : bob.hasRole "ns" "writer" = true := by decide
  exact checkPermission_read (by simp [checkPermission, hwriter])

theorem isolated_of_unreached_shared : letI := limitedJson
    Isolated shared ⟨some bob, "ns", "x"⟩ ByteArray.empty ⟨some admin, "b", "x"⟩ ⟨#[1]⟩ := by
  let _ := limitedJson
  obtain ⟨hopened, hb, hns, -⟩ := shared_ok
  have hx : Path.IsName "x" := by decide
  exact isolated_of_unreached (unreached_of_plain hopened (isNamespace_of_isName (by decide))
    (isNamespace_of_isName (by decide)) (by decide) hx.isPlain hx.isPlain hns hb.namespaceExists) _ _

theorem place_b_x : place "b" "x" = ["b", "keys", "x"] := by
  have hb : Path.IsName "b" := by decide
  have hx : Path.IsName "x" := by decide
  rw [place, Path.components_of_isName hb, Path.components_of_isName hx]
  rfl

theorem stored_of_parents [SerdeMetadata] {s : FileStorage} (h : Opened s)
    (hkeys : s.data ["ns", "keys"] = some .directory) :
    s.stored "ns" "../../b/keys/x" = s.stored "b" "x" := by
  have hb : Path.IsName "b" := by decide
  have hx : Path.IsName "x" := by decide
  have hparse : Path.parse "../../b/keys/x" =
      [.parent, .parent, .name "b", .name "keys", .name "x"] := by decide
  have hjoin : ∀ p, Path.join p "../../b/keys/x" =
      p ++ ([Component.parent, .parent] ++ Path.names (place "b" "x")) := by
    intro p
    rw [Path.join, if_neg (by decide), hparse, place_b_x]
    rfl
  exact stored_of_entries (entry_of_parents h (by decide) hb.isPlain hx.isPlain hjoin hkeys)

/-- A value of the second namespace is read by someone who has no role there. -/
theorem not_isolated_of_parents : ¬ ∀ [SerdeMetadata] (s : FileStorage) (a b : Access)
    (v w : ByteArray), Opened s → s.namespaceExists a.ns = true → s.namespaceExists b.ns = true → a.ns ≠ b.ns →
      (∃ auth, a.caller = some auth ∧ auth.hasRole a.ns "writer" = true) →
      InMemoryStorage.WithoutRole b.ns a.caller → Isolated s a v b w := by
  intro hall
  let _ := limitedJson
  obtain ⟨hopened, hb, hns, hkeys, account, hlookup, hused, hquota⟩ := shared_ok
  have hx : Path.IsPlain "x" := Path.IsName.isPlain (by decide)
  have hisolated := (hall shared ⟨some bob, "ns", "../../b/keys/x"⟩ ⟨some admin, "b", "x"⟩
    ByteArray.empty ⟨#[1]⟩ hopened hns hb.namespaceExists (by decide) ⟨bob, rfl, by decide⟩
    bob_withoutRole).get
  have hvacant := KeyHistory.of_vacant (hb.vacant "x")
  have hset := hvacant.set hopened hb.plain hx (some admin) ⟨#[1]⟩
  have htouches := set_touches hopened hb.plain hx (some admin) ⟨#[1]⟩
  rw [(set_first_ok hopened hb.plain hx hb.namespaceExists (hb.vacant "x") (hb.free "x") _ hlookup
    (by rw [hused, hquota]; decide) (by rw [hquota]; decide)).1, if_pos rfl] at hset
  dsimp only at hisolated
  set t := final (FileStorage.set (some admin) "b" "x" ⟨#[1]⟩ shared)
  have ht : Opened t := hopened.apart htouches.apart
  have hseparate : Separate (place "b" "x") ["ns", "keys"] := by
    rw [place_b_x]
    exact ⟨by simp, by simp⟩
  have hkeys' : t.data ["ns", "keys"] = some .directory :=
    (htouches.data _ hseparate _ (List.prefix_refl _)).trans hkeys
  have hns' : t.namespaceExists "ns" = true := by
    apply namespaceExists_of_data ht isNamespace_ns.plain (l := ["keys"])
    rw [Path.components_of_isName (by decide), List.singleton_append, hkeys']
    exact Option.some_ne_none _
  have hreads : ∀ {u : FileStorage}, Opened u → u.namespaceExists "ns" = true →
      (answer (get (some bob) "ns" "../../b/keys/x" u)).toOption =
        u.stored "ns" "../../b/keys/x" := fun hu hexists =>
    toOption_get hu.loggable (checked_eq_ok.mpr ⟨bob_permitted, hexists⟩)
  have hbefore := hreads hopened hns
  have hafter := hreads ht hns'
  rw [stored_of_parents hopened hkeys, hvacant.stored hopened hb.plain hx] at hbefore
  rw [stored_of_parents ht hkeys', hset.stored ht hb.plain hx, hisolated, hbefore] at hafter
  exact nomatch hafter

end FileStorage

end Covm
