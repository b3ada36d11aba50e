import Covm.Storage.Calls
import Covm.Storage.FileWrites

/-!
# Opening a storage

`new` in an empty directory, the first namespaces and the first accounts. What they leave is
`Opened`, and a new namespace holds nothing.
-/

namespace Covm

open Files Partial

namespace FileStorage

/-! ## The directories of a storage -/

/-- Where a storage can be made: the root is empty, and nothing on the way to it is a file. -/
structure Vacant (s : FileStorage) : Prop where
  nulFree : NulFree s.rootPath
  free : ∀ m, m <+: s.rootPath → ∀ content, s.files.node m ≠ some (.file content)
  empty : ∀ name, s.files.node (s.rootPath ++ [name]) = none

/-- The files after some directories have been made in the root. -/
def Made (s : FileStorage) (made : List String) (files : FileSystem FileContent) : Prop :=
  ∀ m, files.node m =
    if ∃ name ∈ made, m <+: s.rootPath ++ [name] then some .directory else s.files.node m

theorem Made.next {s : FileStorage} (h : s.Vacant) {made : List String}
    {files : FileSystem FileContent} (hfiles : s.Made made files) {name : String}
    (hname : Path.IsName name) (toError : IoError → StorageError) :
    ∃ files', io toError (FileSystem.createDirAll (s.root.join name)) { s with files := files } =
        .ok () { s with files := files' } ∧ s.Made (made ++ [name]) files' := by
  have hnul : NulFree (s.rootPath ++ [name]) := by
    rw [nulFree_append]
    exact ⟨h.nulFree, nulFree_singleton.mpr hname.nul⟩
  have hpath : s.root.join name = Path.names (s.rootPath ++ [name]) := by
    rw [root, hname.join, Path.names_append, Path.names_singleton]
  rw [hpath]
  obtain ⟨files', hok, -, hnode⟩ | ⟨e, -, m, hm, content, hfile⟩ :=
    FileSystem.createDirAll_names hnul files
  · refine ⟨files', io_of_ok (s := { s with files := files }) toError hok, fun m => ?_⟩
    rw [congrFun hnode m, hfiles m, ← ite_or]
    apply if_congr _ rfl rfl
    simp only [List.mem_append, List.mem_singleton, or_and_right, exists_or, exists_eq_left]
    exact or_comm
  · exfalso
    rw [hfiles] at hfile
    split at hfile
    · simp at hfile
    · obtain rfl | hm := List.prefix_concat_iff.mp hm
      · rw [h.empty] at hfile
        simp at hfile
      · exact h.free m hm content hfile

/-- The four directories are made in an empty root. -/
theorem createDirectories_ok {s : FileStorage} (h : s.Vacant) :
    ∃ files, createDirectories s = .ok () { s with files := files } ∧
      s.Made ["namespaces", "accounts", "audit_logs", "transactions"] files := by
  have hnone : s.Made [] s.files := by simp [Made]
  unfold createDirectories
  rw [StorageM.bind_of_ok (StorageM.get_apply s)]
  obtain ⟨files₁, hok₁, hmade₁⟩ := hnone.next h (show Path.IsName "namespaces" by decide)
    fun e => .ioError "create_namespaces_dir"
      s!"Unable to create namespaces directory: {e.display}"
  obtain ⟨files₂, hok₂, hmade₂⟩ := hmade₁.next h (show Path.IsName "accounts" by decide)
    fun e => .ioError "create_accounts_dir" s!"Unable to create accounts directory: {e.display}"
  obtain ⟨files₃, hok₃, hmade₃⟩ := hmade₂.next h (show Path.IsName "audit_logs" by decide)
    fun e => .ioError "create_audit_logs_dir"
      s!"Unable to create audit logs directory: {e.display}"
  obtain ⟨files₄, hok₄, hmade₄⟩ := hmade₃.next h (show Path.IsName "transactions" by decide)
    fun e => .ioError "create_transactions_dir"
      s!"Unable to create transactions directory: {e.display}"
  refine ⟨files₄, ?_, hmade₄⟩
  rw [StorageM.bind_of_ok hok₁, StorageM.bind_of_ok hok₂, StorageM.bind_of_ok hok₃]
  exact hok₄

/-- A storage without users is open as soon as it has its directories. -/
theorem Made.opened {s : FileStorage} (h : s.Vacant) {files : FileSystem FileContent}
    (hfiles : s.Made ["namespaces", "accounts", "audit_logs", "transactions"] files)
    (husers : s.accountCache = ∅) :
    Opened { s with files := files } where
  nulFree := h.nulFree
  accounts := by
    rw [hfiles]
    exact if_pos ⟨"accounts", by decide, List.prefix_refl _⟩
  auditLogs := by
    rw [hfiles]
    exact if_pos ⟨"audit_logs", by decide, List.prefix_refl _⟩
  logFiles timestamp := by
    have hnone : s.files.node (s.rootPath ++ ["audit_logs", logName timestamp]) = none :=
      s.files.node_eq_none_of_isPrefix (h.empty "audit_logs") (by simp)
    rw [hfiles, if_neg, hnone]
    · exact fun hdir => nomatch hdir
    · rintro ⟨name, -, hstarts⟩
      simpa using hstarts.length_le
  accountNames user huser := by
    rw [show ({ s with files := files } : FileStorage).accountCache = ∅ from husers] at huser
    exact absurd huser Finmap.notMem_empty
  accountFiles user huser := by
    rw [show ({ s with files := files } : FileStorage).accountCache = ∅ from husers] at huser
    exact absurd huser Finmap.notMem_empty

/-- The tree of the namespaces of a new storage. -/
theorem Made.data {s : FileStorage} (h : s.Vacant) {files : FileSystem FileContent}
    (hfiles : s.Made ["namespaces", "accounts", "audit_logs", "transactions"] files) (l : Location) :
    ({ s with files := files } : FileStorage).data l = if l = [] then some .directory else none := by
  rw [FileStorage.data, hfiles]
  by_cases hnil : l = []
  · rw [if_pos hnil, hnil]
    exact if_pos ⟨"namespaces", by decide, List.prefix_refl _⟩
  · rw [if_neg hnil, if_neg]
    · apply s.files.node_eq_none_of_isPrefix (h.empty "namespaces")
      rw [List.prefix_append_right_inj, List.cons_prefix_cons]
      exact ⟨rfl, List.nil_prefix⟩
    · rintro ⟨name, -, hstarts⟩
      have hlength := hstarts.length_le
      have hpos := List.length_pos_iff.mpr hnil
      simp only [List.length_append, List.length_cons, List.length_nil] at hlength
      omega

/-- `new` in an empty directory. -/
theorem new_ok {files : FileSystem FileContent} {rootPath : Location} {clock : Nat → Timestamp}
    (h : Vacant ⟨files, rootPath, [], ∅, ∅, clock, 0⟩) :
    ∃ s, new files rootPath clock = .ok s ∧ Opened s ∧ s.transactions = [] ∧
      s.namespaceCache = ∅ ∧ s.accountCache = ∅ ∧
      ∀ l, s.data l = if l = [] then some .directory else none := by
  obtain ⟨files', hok, hmade⟩ := createDirectories_ok h
  refine ⟨_, ?_, hmade.opened h rfl, rfl, rfl, rfl, hmade.data h⟩
  rw [new, hok]

/-! ## Namespaces and accounts -/

theorem mkdirs_mkdirs {l m : Location} (h : l <+: m)
    (tree : Location → Option (Node FileContent)) : mkdirs m (mkdirs l tree) = mkdirs m tree := by
  funext x
  unfold mkdirs
  by_cases hm : x <+: m
  · rw [if_pos hm, if_pos hm]
  · rw [if_neg hm, if_neg hm, if_neg fun hl => hm (hl.trans h)]

/-- An administrator makes a namespace whose directory is not there. -/
theorem createNamespace_ok {s : FileStorage} (h : Opened s) {a : AuthContext}
    (hadmin : a.hasRole "global" "admin" = true) {ns : String} (hns : Path.IsPlain ns)
    (quotaBytes : Nat) (hmissing : s.namespaceExists ns = false)
    (hfree : s.Free (Path.components ns)) :
    ∃ s' metadata, createNamespace (some a) ns quotaBytes none s = .ok () s' ∧ Opened s' ∧
      s'.data = Function.update (mkdirs (Path.components ns ++ ["keys"]) s.data)
        (Path.components ns ++ ["namespace_metadata.json"])
        (some (.file (.namespaceMetadata metadata))) ∧
      s'.transactions = recorded (.createNamespace ns) s.transactions ∧
      s'.accountCache = s.accountCache ∧
      s'.namespaceCache = s.namespaceCache.insert ns metadata := by
  have hnone : s.data (Path.components ns) = none := by
    rw [namespaceExists_of_plain h hns, Bool.or_eq_false_iff] at hmissing
    simpa using hmissing.2
  have hname : Path.IsName "namespace_metadata.json" := by decide
  have hnulKeys : NulFree (Path.components ns ++ ["keys"]) := by
    rw [nulFree_append]
    exact ⟨hns.nulFree, nulFree_singleton.mpr (by decide)⟩
  set metadata : NamespaceMetadata := ⟨ns, a.currentIdentityDid, quotaBytes, 0, none, ∅⟩
  -- the directory of the namespace
  obtain ⟨s₁, hmade₁, -, hs₁⟩ | ⟨e, -, m, hm, content, hfile⟩ :=
    io_createDirAll (mapIoError ns none "creating namespace directory") h hns.nulFree
  swap
  · exact absurd hfile (hfree m hm content)
  have h₁ := h.apart hs₁.apart
  have hdir₁ : s₁.data (Path.components ns) = some .directory := by rw [hs₁.data, mkdirs_self]
  have hbelow₁ : ∀ l, Path.components ns <+: l → l ≠ Path.components ns → s₁.data l = none := by
    intro l hl hne
    rw [hs₁.data, mkdirs_of_not_isPrefix fun hstarts =>
      hne (hstarts.eq_of_length (le_antisymm hstarts.length_le hl.length_le))]
    exact data_eq_none_of_isPrefix hnone hl
  -- the one of its keys
  obtain ⟨s₂, hmade₂, -, hs₂⟩ | ⟨e, -, m, hm, content, hfile⟩ :=
    io_createDirAll (mapIoError ns none "creating namespace keys directory") h₁ hnulKeys
  swap
  · exfalso
    obtain rfl | hm := List.prefix_concat_iff.mp hm
    · rw [hbelow₁ _ (List.prefix_append _ _) (by simp)] at hfile
      exact nomatch hfile
    · exact free_of_directory hdir₁ m hm content hfile
  rw [hs₁.apart.rootPath] at hmade₂
  rw [hs₁.data, mkdirs_mkdirs (List.prefix_append _ _), hs₁.transactions, hs₁.accounts] at hs₂
  replace hs₂ := hs₁.trans hs₂
  have h₂ := h.apart hs₂.apart
  have hdir₂ : s₂.data (Path.components ns) = some .directory := by
    rw [hs₂.data]
    exact if_pos (List.prefix_append _ _)
  have hfile₂ : s₂.data (Path.components ns ++ ["namespace_metadata.json"]) ≠ some .directory := by
    rw [hs₂.data, mkdirs_of_not_isPrefix (by simp),
      data_eq_none_of_isPrefix hnone (List.prefix_append _ _)]
    exact fun hdir => nomatch hdir
  -- its metadata
  obtain ⟨s₃, hmade₃, hs₃⟩ : ∃ s₃, writeNamespaceMetadata metadata s₂ = .ok () s₃ ∧
      Leaves s₂ s₃ (Function.update s₂.data (Path.components ns ++ ["namespace_metadata.json"])
        (some (.file (.namespaceMetadata metadata)))) s₂.transactions s₂.accountCache := by
    unfold writeNamespaceMetadata
    have hpath : s₂.namespaceMetadataPath metadata.path =
        Path.names (s₂.rootPath ++ "namespaces" :: Path.components ns) ++
          [Component.name "namespace_metadata.json"] := by
      rw [namespaceMetadataPath, hname.join, namespacePath_of_plain hns]
    rw [StorageM.bind_of_ok (StorageM.get_apply s₂), hpath, Path.parent_concat_of_ne (by simp),
      Path.trim_names]
    obtain ⟨t, hmade, -, ht⟩ | ⟨e, -, m, hm, content, hfile⟩ := io_createDirAll
      (mapIoError metadata.path none "creating namespace directory") h₂ hns.nulFree
    swap
    · exact absurd hfile (free_of_directory hdir₂ m hm content)
    rw [mkdirs_of_directory hdir₂] at ht
    obtain ⟨t', hwritten, ht'⟩ := io_write
      (mapIoError metadata.path none "opening namespace metadata file for writing")
      (h₂.apart ht.apart) hns.nulFree hname.nul (.namespaceMetadata metadata)
      (by rw [ht.data, hdir₂]) (by rwa [ht.data])
    rw [ht.apart.rootPath] at hwritten
    rw [ht.data, ht.transactions, ht.accounts] at ht'
    refine ⟨t', ?_, ht.trans ht'⟩
    rw [StorageM.bind_of_ok hmade]
    exact hwritten
  rw [hs₂.data, hs₂.transactions, hs₂.accounts] at hs₃
  replace hs₃ := hs₂.trans hs₃
  set s₄ : FileStorage := { s₃ with namespaceCache := s₃.namespaceCache.insert ns metadata }
  have h₃ := h.apart hs₃.apart
  have h₄ : Opened s₄ := ⟨h₃.nulFree, h₃.accounts, h₃.auditLogs, h₃.logFiles, h₃.accountNames,
    h₃.accountFiles⟩
  obtain ⟨s₅, hrecorded, hs₅⟩ := recordForRollback_ok (.createNamespace ns) s₄
  obtain ⟨s₆, hlog, hs₆⟩ := recordAuditLog_ok (h₄.apart hs₅.apart).loggable a "create_namespace" ns none
    s!"Created namespace with quota {quotaBytes} bytes"
  replace hs₆ := hs₅.logged hs₆
  refine ⟨s₆, metadata, ?_, h₄.apart hs₆.apart, hs₆.data.trans hs₃.data, ?_,
    hs₆.accounts.trans hs₃.accounts, ?_⟩
  · unfold createNamespace
    simp only [Option.any_some, Option.any_none, hadmin, Bool.true_or, Bool.not_true,
      Bool.false_eq_true, if_false]
    rw [StorageM.bind_of_ok (StorageM.get_apply s), hmissing, if_neg Bool.false_ne_true,
      keysPath_of_plain hns, namespacePath_of_plain hns, StorageM.bind_of_ok hmade₁,
      StorageM.bind_of_ok hmade₂]
    refine (StorageM.bind_of_ok hmade₃).trans ?_
    refine (StorageM.bind_of_ok (StorageM.modify_apply _ s₃)).trans ?_
    exact (StorageM.bind_of_ok hrecorded).trans hlog
  · rw [hs₆.transactions, ← hs₃.transactions]
  · rw [hs₆.apart.namespaceCache, ← hs₃.apart.namespaceCache]

/-- An administrator makes an account, for which there is no file yet. -/
theorem createAccount_ok {s : FileStorage} (h : Opened s) {a : AuthContext}
    (hadmin : a.hasRole "global" "admin" = true) {user : String}
    (huser : Path.IsName (accountName user)) (quotaBytes : Nat)
    (hmissing : s.files.node (s.rootPath ++ ["accounts", accountName user]) = none) :
    ∃ s' account, createAccount (some a) user quotaBytes s = .ok () s' ∧ Opened s' ∧
      s'.data = s.data ∧ s'.transactions = s.transactions ∧
      s'.namespaceCache = s.namespaceCache ∧
      s'.accountCache = s.accountCache.insert user account ∧ account.usedBytes = 0 ∧
      account.quotaBytes = quotaBytes := by
  have hname : Path.IsName "accounts" := by decide
  have hnul : NulFree (s.rootPath ++ ["accounts"]) := by
    rw [nulFree_append]
    exact ⟨h.nulFree, nulFree_singleton.mpr (by decide)⟩
  have hdirPath : s.root.join "accounts" = Path.names (s.rootPath ++ ["accounts"]) := by
    rw [root, hname.join, Path.names_append, Path.names_singleton]
  have hpath : s.accountPath user =
      Path.names (s.rootPath ++ ["accounts"]) ++ [Component.name (accountName user)] := by
    rw [accountPath, huser.join, hdirPath]
  have hplace : (s.rootPath ++ ["accounts"]) ++ [accountName user] =
      s.rootPath ++ ["accounts", accountName user] := by simp
  have henter : s.files.enter (Path.names (s.rootPath ++ ["accounts"])) =
      some (s.rootPath ++ ["accounts"]) := by
    rw [FileSystem.enter_names hnul, if_pos h.accounts]
  -- the directory is there
  obtain ⟨files, hmade, -, hnode⟩ | ⟨e, -, m, hm, content, hfile⟩ :=
    FileSystem.createDirAll_names hnul s.files
  swap
  · exfalso
    obtain rfl | hm := List.prefix_concat_iff.mp hm
    · rw [h.accounts] at hfile
      simp at hfile
    · rw [h.root_directory hm] at hfile
      simp at hfile
  obtain rfl : files = s.files := by
    apply FileSystem.ext_node
    rw [hnode]
    funext m
    split
    · next hm =>
      obtain rfl | hm := List.prefix_concat_iff.mp hm
      · exact h.accounts.symm
      · exact (h.root_directory hm).symm
    · rfl
  replace hmade : io unknownError
      (FileSystem.createDirAll (Path.names (s.rootPath ++ ["accounts"]))) s = .ok () s :=
    io_of_ok _ hmade
  have hexists : s.files.exists_ (s.accountPath user) = false := by
    rw [hpath, FileSystem.exists_, FileSystem.find_concat_name _ _ huser.nul, henter]
    show (s.files.node _).isSome = false
    rw [hplace, hmissing]
    rfl
  set account : FileResourceAccount :=
    ⟨user, quotaBytes, 0, (s.clock s.reads).val, (s.clock (s.reads + 1)).val⟩
  obtain ⟨files', hwrite, hnode'⟩ := FileSystem.writeWith_of_enter huser.nul
    (fun _ => .account account) henter (by rw [hplace, hmissing]; simp)
  rw [hplace] at hnode'
  set s₁ : FileStorage := { s with
    accountCache := s.accountCache.insert user account
    reads := s.reads + 1 + 1 } with hs₁
  have hother : ∀ {name : String} (l : Location), name ≠ "accounts" →
      files'.node (s.rootPath ++ name :: l) = s.files.node (s.rootPath ++ name :: l) := by
    intro name l hne
    rw [hnode', Function.update_of_ne]
    intro heq
    exact hne (List.cons.inj (List.append_cancel_left heq)).1
  have hopened : Opened { s₁ with files := files' } := by
    refine ⟨h.nulFree, ?_, (hother _ (by decide)).trans h.auditLogs, ?_, ?_, ?_⟩
    · show files'.node (s.rootPath ++ ["accounts"]) = _
      rw [hnode', Function.update_of_ne (by simp)]
      exact h.accounts
    · intro timestamp
      show files'.node _ ≠ _
      rw [hother _ (by decide)]
      exact h.logFiles timestamp
    · intro user' huser'
      obtain rfl | huser' := Finmap.mem_insert.mp huser'
      · exact huser
      · exact h.accountNames user' huser'
    · intro user' huser'
      show ∃ account, files'.node (s.rootPath ++ ["accounts", accountName user']) = _
      rw [hnode']
      by_cases heq : accountName user' = accountName user
      · rw [heq]
        exact ⟨account, Function.update_self ..⟩
      · rw [Function.update_of_ne (by simpa using heq)]
        obtain rfl | huser' := Finmap.mem_insert.mp huser'
        · exact absurd rfl heq
        · exact h.accountFiles user' huser'
  obtain ⟨s₂, hlog, hs₂⟩ := recordAuditLog_ok hopened.loggable a "account_created" "global" (some user)
    s!"Created account with {quotaBytes} byte quota"
  refine ⟨s₂, account, ?_, hopened.apart hs₂.apart, ?_, hs₂.transactions,
    hs₂.apart.namespaceCache, hs₂.accounts, rfl, rfl⟩
  · have hpermitted : checkPermission (some a) "admin" "global" = .ok () := by
      simp [checkPermission, hadmin]
    have hallowed : StorageM.query (fun _ => checkPermission (some a) "admin" "global") s =
        .ok () s := by
      rw [query_apply, hpermitted]
    unfold createAccount
    rw [StorageM.bind_of_ok hallowed, StorageM.bind_of_ok (StorageM.get_apply s), hdirPath,
      StorageM.bind_of_ok hmade, StorageM.bind_of_ok (StorageM.get_apply s),
      StorageM.bind_of_ok (StorageM.get_apply s), hexists, if_neg Bool.false_ne_true]
    have hwritten : io unknownError (FileSystem.write (s.accountPath user) (.account account)) s₁ =
        .ok () { s₁ with files := files' } := by
      rw [hpath]
      exact io_of_ok _ hwrite
    exact (StorageM.bind_of_ok hwritten).trans hlog
  · rw [hs₂.data]
    funext l
    exact hother l (by decide)

/-! ## A storage with one namespace -/

open InMemoryStorage (admin)

/-- A global administrator may do everything. -/
theorem admin_permitted (action ns : String) : checkPermission (some admin) action ns = .ok () := by
  rw [checkPermission, if_pos InMemoryStorage.hasRole_admin]

/-- A reader that gives up where `serde_json` does. -/
@[reducible] def limitedJson : SerdeMetadata where
  bytes
    | .data b => b
    | _ => ByteArray.empty
  bytes_data _ := rfl
  parse
    | .keyMetadata metadata =>
      if metadata.depth < 128 then .ok metadata else .error "recursion limit exceeded"
    | _ => .error "missing field: key"
  parse_shallow _ h := if_pos h
  parse_deep _ h := ⟨"recursion limit exceeded", if_neg (Nat.not_lt.mpr h)⟩
  parse_account := ⟨"missing field: key", fun _ => rfl⟩

def blank : FileStorage :=
  ⟨FileSystem.empty, ["data"], [], ∅, ∅, fun _ => ⟨1700000000, by decide⟩, 0⟩

def seed : StorageM FileStorage Unit := do
  createDirectories
  createAccount (some admin) "admin" 1000
  createNamespace (some admin) "ns" 1000 none

/-- The namespace `ns`, which is empty, and its administrator. -/
def seeded : FileStorage := final (seed blank)

/-- A namespace without keys. -/
structure EmptyNamespace (s : FileStorage) (ns : String) : Prop where
  plain : Path.IsPlain ns
  namespaceExists : s.namespaceExists ns = true
  keys : s.data (Path.components ns ++ ["keys"]) = some .directory
  empty : ∀ l, l ≠ [] → s.data (Path.components ns ++ "keys" :: l) = none

theorem EmptyNamespace.vacant {s : FileStorage} {ns : String} (h : EmptyNamespace s ns)
    (key name : String) : s.data (place ns key ++ [name]) = none := by
  rw [place, List.append_assoc, List.cons_append]
  exact h.empty _ (by simp)

theorem EmptyNamespace.free {s : FileStorage} {ns : String} (h : EmptyNamespace s ns)
    (key : String) : s.Free (place ns key) := by
  intro m hm content hfile
  have hkeys : place ns key = (Path.components ns ++ ["keys"]) ++ Path.components key := by
    simp [place]
  rw [hkeys] at hm
  obtain hm | ⟨l, rfl⟩ := List.prefix_or_prefix_of_prefix hm (List.prefix_append _ _)
  · exact free_of_directory h.keys m hm content hfile
  · by_cases hl : l = []
    · rw [hl, List.append_nil, h.keys] at hfile
      simp at hfile
    · rw [List.append_assoc, List.singleton_append, h.empty l hl] at hfile
      simp at hfile

/-- A namespace that has just been made. -/
theorem EmptyNamespace.of_created {s : FileStorage} {ns : String} (hns : Path.IsPlain ns)
    (hknown : ns ∈ s.namespaceCache) {tree : Location → Option (Node FileContent)}
    {metadata : NamespaceMetadata}
    (hdata : s.data = Function.update (mkdirs (Path.components ns ++ ["keys"]) tree)
      (Path.components ns ++ ["namespace_metadata.json"])
      (some (.file (.namespaceMetadata metadata))))
    (hnone : ∀ l, l ≠ [] → tree (Path.components ns ++ "keys" :: l) = none) :
    EmptyNamespace s ns where
  plain := hns
  namespaceExists := by
    rw [FileStorage.namespaceExists, decide_eq_true hknown, Bool.true_or]
  keys := by rw [hdata, Function.update_of_ne (by simp), mkdirs_self]
  empty l hl := by
    rw [hdata, Function.update_of_ne (by simp), mkdirs_of_not_isPrefix, hnone l hl]
    simpa using hl

/-- A tree with nothing in it. -/
def bare : Location → Option (Node FileContent) := fun l => if l = [] then some .directory else none

theorem seed_ok : ∃ metadata account, seed blank = .ok () seeded ∧ Opened seeded ∧
    seeded.transactions = [] ∧
    seeded.data = Function.update (mkdirs ["ns", "keys"] bare) ["ns", "namespace_metadata.json"]
      (some (.file (.namespaceMetadata metadata))) ∧
    seeded.namespaceCache = Finmap.insert "ns" metadata ∅ ∧
    seeded.accountCache.lookup "admin" = some account ∧ account.usedBytes = 0 ∧
    account.quotaBytes = 1000 := by
  have hadmin : admin.hasRole "global" "admin" = true := by decide
  have hplain : Path.IsName "ns" := by decide
  have hcomponents : Path.components "ns" = ["ns"] := Path.components_of_isName hplain
  have hnode : ∀ l, l ≠ [] → blank.files.node l = none := fun l hne =>
    Finmap.lookup_eq_none.mpr fun hmem => hne ((Finmap.mem_singleton _ _ _).mp hmem)
  have hvacant : Vacant blank := by
    refine ⟨nulFree_singleton.mpr (by decide), fun m _ content => ?_, fun name => hnode _ (by simp)⟩
    by_cases hm : m = []
    · rw [hm, FileSystem.node_nil]
      exact fun h => nomatch h
    · rw [hnode m hm]
      exact fun h => nomatch h
  obtain ⟨files, hmade, hfiles⟩ := createDirectories_ok hvacant
  set s₁ : FileStorage := { blank with files := files }
  have h₁ : Opened s₁ := hfiles.opened hvacant rfl
  obtain ⟨s₂, account, haccount, h₂, hdata₂, htransactions₂, hcache₂, haccounts₂, hused, hquota⟩ :=
    createAccount_ok h₁ hadmin (show Path.IsName (accountName "admin") by decide) 1000 (by
      rw [show s₁.files = files from rfl, hfiles, if_neg, hnode _ (by simp [s₁])]
      rintro ⟨name, -, hstarts⟩
      simpa [s₁] using hstarts.length_le)
  replace hdata₂ : s₂.data = bare := hdata₂.trans (funext (hfiles.data hvacant))
  obtain ⟨s₃, metadata, hns, h₃, hdata₃, htransactions₃, haccounts₃, hcache₃⟩ :=
    createNamespace_ok h₂ hadmin hplain.isPlain 1000
      (by
        rw [namespaceExists_of_plain h₂ hplain.isPlain, hcomponents, hdata₂, hcache₂]
        simp [s₁, blank, bare, Finmap.notMem_empty])
      (by
        intro m hm content
        rw [hdata₂, bare]
        split <;> simp)
  have hseed : seed blank = .ok () s₃ := by
    unfold seed
    rw [StorageM.bind_of_ok hmade, StorageM.bind_of_ok haccount]
    exact hns
  have hseeded : seeded = s₃ := by rw [seeded, hseed, final_ok]
  rw [hseeded]
  refine ⟨metadata, account, hseed, h₃, ?_, ?_, ?_, ?_, hused, hquota⟩
  · rw [htransactions₃, htransactions₂]
    rfl
  · rw [hdata₃, hcomponents, hdata₂]
    rfl
  · rw [hcache₃, hcache₂]
    rfl
  · rw [haccounts₃, haccounts₂, Finmap.lookup_insert]

theorem seeded_ok : seed blank = .ok () seeded ∧ Opened seeded ∧ seeded.transactions = [] ∧
    EmptyNamespace seeded "ns" ∧
    (∀ l n, seeded.data l = some n → l.length ≤ 2 ∧ (n = .directory ∨
      l = ["ns", "namespace_metadata.json"] ∧ ∃ metadata, n = .file (.namespaceMetadata metadata))) ∧
    ∃ account, seeded.accountCache.lookup "admin" = some account ∧ account.usedBytes = 0 ∧
      account.quotaBytes = 1000 := by
  have hplain : Path.IsName "ns" := by decide
  have hcomponents : Path.components "ns" = ["ns"] := Path.components_of_isName hplain
  obtain ⟨metadata, account, hseed, hopened, htransactions, hdata, hcache, hlookup, hused, hquota⟩ :=
    seed_ok
  refine ⟨hseed, hopened, htransactions, ?_, ?_, account, hlookup, hused, hquota⟩
  · have hdata' : seeded.data = Function.update (mkdirs (Path.components "ns" ++ ["keys"]) bare)
        (Path.components "ns" ++ ["namespace_metadata.json"])
        (some (.file (.namespaceMetadata metadata))) := by
      rw [hcomponents]
      exact hdata
    apply EmptyNamespace.of_created hplain.isPlain _ hdata'
    · intro l _
      rw [hcomponents]
      exact if_neg (by simp)
    · simp [hcache]
  · intro l n hn
    rw [hdata] at hn
    by_cases hl : l = ["ns", "namespace_metadata.json"]
    · rw [hl, Function.update_self] at hn
      obtain rfl := Option.some.inj hn
      exact ⟨by simp [hl], .inr ⟨hl, metadata, rfl⟩⟩
    · rw [Function.update_of_ne hl, mkdirs, bare] at hn
      split at hn
      · next hstarts =>
        obtain rfl := Option.some.inj hn
        exact ⟨by simpa using hstarts.length_le, .inl rfl⟩
      · split at hn
        · next hnil =>
          obtain rfl := Option.some.inj hn
          exact ⟨by simp [hnil], .inl rfl⟩
        · simp at hn

end FileStorage

end Covm
