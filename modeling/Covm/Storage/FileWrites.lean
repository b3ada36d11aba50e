import Covm.Storage.FileReads

/-!
# Writing to the file backend

What `set` and `delete` can do to a key with plain names, case by case (`SetOutcome`,
`DeleteOutcome`). A `set` makes the directory of the key before it is charged, is charged before it
reads the metadata, and records the key before it writes.
-/

namespace Covm

open Files Partial

namespace FileStorage

/-! ## The parts of `set` -/

/-- The transactions after an operation has been recorded in the innermost one. -/
def recorded (op : TransactionOp) : List (List TransactionOp) → List (List TransactionOp)
  | [] => []
  | current :: rest => (current ++ [op]) :: rest

theorem recordForRollback_ok (op : TransactionOp) (s : FileStorage) :
    ∃ s', recordForRollback op s = .ok () s' ∧
      Leaves s s' s.data (recorded op s.transactions) s.accountCache := by
  refine ⟨_, StorageM.modify_apply _ s, ?_⟩
  cases htransactions : s.transactions with
  | nil => exact ⟨.refl s, rfl, htransactions, rfl⟩
  | cons current rest => exact ⟨⟨rfl, rfl, fun _ => .rfl, fun _ _ => .same _⟩, rfl, rfl, rfl⟩

/-- The accounts after a user's data has grown. -/
def charged (accounts : HashMap FileResourceAccount) (user : String) (growth : Nat) :
    HashMap FileResourceAccount :=
  if growth = 0 then accounts
  else (accounts.lookup user).elim accounts fun account =>
    accounts.insert user { account with usedBytes := account.usedBytes + growth }

/-- A growth that a user's account does not allow. -/
def Overdrawn (accounts : HashMap FileResourceAccount) (user : String) (growth : Nat) : Prop :=
  0 < growth ∧ ∃ account, accounts.lookup user = some account ∧
    (2 ^ 64 ≤ account.usedBytes + growth ∨ account.quotaBytes < account.usedBytes + growth)

theorem mem_charged {accounts : HashMap FileResourceAccount} {user u : String} {growth : Nat} :
    u ∈ charged accounts user growth ↔ u ∈ accounts := by
  unfold charged
  split
  · rfl
  · cases hlookup : accounts.lookup user with
    | none => rfl
    | some account =>
      have hmem := Finmap.mem_of_lookup_eq_some hlookup
      rw [Option.elim_some, Finmap.mem_insert]
      constructor
      · rintro (rfl | hu)
        · exact hmem
        · exact hu
      · exact .inr

/-- The account of a user is written to its file. -/
theorem writeAccount_ok {s : FileStorage} (h : Opened s) {user : String}
    (huser : user ∈ s.accountCache) (account : FileResourceAccount)
    (toError : IoError → StorageError) :
    ∃ files, io toError (FileSystem.write (s.accountPath user) (.account account)) s =
        .ok () { s with files := files } ∧
      Apart s { s with files := files } ∧
      ({ s with files := files } : FileStorage).data = s.data := by
  have hname : Path.IsName "accounts" := by decide
  have huserName := h.accountNames user huser
  have hnul : NulFree (s.rootPath ++ ["accounts"]) := by
    rw [nulFree_append]
    exact ⟨h.nulFree, nulFree_singleton.mpr (by decide)⟩
  have hpath : s.accountPath user =
      Path.names (s.rootPath ++ ["accounts"]) ++ [Component.name (accountName user)] := by
    rw [accountPath, root, hname.join, huserName.join, Path.names_append, Path.names_singleton]
  have henter : s.files.enter (Path.names (s.rootPath ++ ["accounts"])) =
      some (s.rootPath ++ ["accounts"]) := by
    rw [FileSystem.enter_names hnul, if_pos h.accounts]
  have hfile : (s.rootPath ++ ["accounts"]) ++ [accountName user] =
      s.rootPath ++ ["accounts", accountName user] := by simp
  obtain ⟨old, hold⟩ := h.accountFiles user huser
  obtain ⟨files, hwrite, hnode⟩ := FileSystem.writeWith_of_enter huserName.nul
    (fun _ => .account account) henter (by rw [hfile, hold]; simp)
  rw [hfile] at hnode
  refine ⟨files, ?_, ⟨rfl, rfl, fun _ => .rfl, ?_⟩, ?_⟩
  · rw [hpath]
    exact io_of_ok _ hwrite
  · intro l hl
    rw [hnode]
    by_cases heq : l = s.rootPath ++ ["accounts", accountName user]
    · subst heq
      rw [Function.update_self, hold]
      exact .account user old account rfl
    · rw [Function.update_of_ne heq]
      exact .same _
  · funext l
    show files.node _ = s.files.node _
    rw [hnode, Function.update_of_ne]
    intro heq
    exact absurd (List.cons.inj (List.append_cancel_left heq)).1 (by decide)

/-- The accounting of `set`: a growth is charged, or it is refused and nothing happens. -/
theorem chargeGrowth_cases {s : FileStorage} (h : Opened s) (user : String)
    (existingSize valueSize : Nat) :
    (∃ s', chargeGrowth user existingSize valueSize s = .ok () s' ∧
      ¬ Overdrawn s.accountCache user (valueSize - existingSize) ∧
      Leaves s s' s.data s.transactions
        (charged s.accountCache user (valueSize - existingSize))) ∨
    ∃ f, chargeGrowth user existingSize valueSize s = .error f s ∧
      Overdrawn s.accountCache user (valueSize - existingSize) := by
  unfold chargeGrowth
  by_cases hgrows : existingSize < valueSize
  · rw [if_pos hgrows, StorageM.bind_of_ok (StorageM.get_apply s)]
    have hpos : 0 < valueSize - existingSize := by omega
    cases hlookup : s.accountCache.lookup user with
    | none =>
      refine .inl ⟨s, rfl, ?_, .refl s, rfl, rfl, ?_⟩
      · rintro ⟨-, account, haccount, -⟩
        rw [hlookup] at haccount
        exact nomatch haccount
      · rw [charged, if_neg hpos.ne', hlookup]
        rfl
    | some account =>
      have huser := Finmap.mem_of_lookup_eq_some hlookup
      by_cases hlt : account.usedBytes + (valueSize - existingSize) < 2 ^ 64
      · dsimp only
        rw [StorageM.bind_of_ok (StorageM.addU64_of_lt hlt s)]
        by_cases hquota : account.quotaBytes < account.usedBytes + (valueSize - existingSize)
        · right
          rw [if_pos hquota]
          exact ⟨_, rfl, hpos, account, hlookup, .inr hquota⟩
        · left
          rw [if_neg hquota]
          set growth := valueSize - existingSize
          set account' := { account with usedBytes := account.usedBytes + growth }
          have hcharged : charged s.accountCache user growth =
              s.accountCache.insert user account' := by
            rw [charged, if_neg hpos.ne', hlookup]
            rfl
          set s₁ := { s with accountCache := s.accountCache.insert user account' } with hs₁
          have hapart : Apart s s₁ := by
            refine ⟨rfl, rfl, fun u => ?_, fun _ _ => .same _⟩
            rw [hs₁, ← hcharged]
            exact mem_charged
          obtain ⟨files, hwrite, hbooked, hdata⟩ := writeAccount_ok (h.apart hapart)
            ((hapart.users user).mpr huser) account' unknownError
          refine ⟨{ s₁ with files := files }, ?_, ?_, hapart.trans hbooked, hdata, rfl,
            hcharged.symm⟩
          · rw [StorageM.bind_of_ok (StorageM.modify_apply _ s),
              StorageM.bind_of_ok (StorageM.get_apply s₁)]
            exact hwrite
          · rintro ⟨-, a, haccount, hover⟩
            rw [hlookup] at haccount
            obtain rfl := Option.some.inj haccount
            omega
      · right
        dsimp only
        rw [StorageM.bind_of_error (StorageM.addU64_of_le (Nat.not_lt.mp hlt) s)]
        exact ⟨_, rfl, hpos, account, hlookup, .inl (Nat.not_lt.mp hlt)⟩
  · rw [if_neg hgrows]
    have hzero : valueSize - existingSize = 0 := by omega
    rw [hzero]
    exact .inl ⟨s, rfl, fun hover => absurd hover.1 (Nat.lt_irrefl 0), .refl s, rfl, rfl, rfl⟩

theorem existingData_ok [SerdeMetadata] {s : FileStorage} (h : Opened s) {auth : Option AuthContext}
    {ns missing : String} (key : String) (hread : checked s auth "read" ns missing = .ok ()) :
    ∃ s', existingData auth ns key (s.entry ns key "metadata.json").isSome s =
        .ok (s.stored ns key) s' ∧ Logged s s' := by
  unfold existingData
  cases hentry : s.entry ns key "metadata.json" with
  | none =>
    have hmissing : readLatest s ns key "" = .error (.notFound s!"{ns}:{key}") := by
      rw [readLatest, readKeyMetadata_eq, hentry]
      rfl
    rw [stored_of_error hmissing]
    exact ⟨s, rfl, .refl s⟩
  | some n =>
    obtain ⟨hanswer, hlogged⟩ := get_answer h.loggable auth ns key
    rw [checked_eq_ok.mpr (checked_eq_ok.mp hread)] at hanswer
    refine ⟨final (get auth ns key s), ?_, hlogged⟩
    cases hfound : readLatest s ns key s!"{ns}:{key} (no versions)" with
    | error e =>
      rw [hfound] at hanswer
      rw [stored_of_error hfound, eq_error_of_answer hanswer]
      rfl
    | ok found =>
      rw [hfound] at hanswer
      rw [stored_of_ok hfound, eq_ok_of_answer hanswer]
      rfl

/-! ## Files at a place -/

theorem mkdirs_of_not_isPrefix {l m : Location} {tree : Location → Option (Node FileContent)}
    (h : ¬ m <+: l) : mkdirs l tree m = tree m := if_neg h

theorem mkdirs_concat (l : Location) (name : String)
    (tree : Location → Option (Node FileContent)) :
    mkdirs l tree (l ++ [name]) = tree (l ++ [name]) := by
  apply mkdirs_of_not_isPrefix
  intro h
  have hlength := h.length_le
  rw [List.length_append, List.length_singleton] at hlength
  omega

@[simp] theorem mkdirs_self (l : Location) (tree : Location → Option (Node FileContent)) :
    mkdirs l tree l = some .directory := if_pos (List.prefix_refl l)

/-- Nothing on the way to a location is a file. -/
def Free (s : FileStorage) (l : Location) : Prop :=
  ∀ m, m <+: l → ∀ content, s.data m ≠ some (.file content)

theorem mkdirs_of_directory {s : FileStorage} {l : Location} (h : s.data l = some .directory) :
    mkdirs l s.data = s.data := by
  funext m
  unfold mkdirs
  split
  · next hm =>
    by_cases heq : m = l
    · rw [heq, h]
    · exact (data_of_isPrefix (by rw [h]; exact Option.some_ne_none _) hm heq).symm
  · rfl

theorem free_of_directory {s : FileStorage} {l : Location} (h : s.data l = some .directory) :
    s.Free l := by
  intro m hm content hfile
  have hdir := congrFun (mkdirs_of_directory h) m
  rw [mkdirs, if_pos hm, hfile] at hdir
  simp at hdir

section
variable {s : FileStorage} {ns key : String} (h : Opened s) (hns : Path.IsPlain ns)
  (hkey : Path.IsPlain key)
include h hns hkey

/-- A file in the directory of a key, which is made if it is not there. -/
theorem writeFile_ok {name : String} (hname : Path.IsName name) (content : FileContent)
    (toError toError' : IoError → StorageError) (hfree : s.Free (place ns key))
    (hfile : s.data (place ns key ++ [name]) ≠ some .directory) :
    ∃ s', ((do
        io toError (FileSystem.createDirAll ((s.keyDirPath ns key).join name).parent)
        io toError' (FileSystem.write ((s.keyDirPath ns key).join name) content)) :
          StorageM FileStorage Unit) s = .ok () s' ∧
      Leaves s s' (Function.update (mkdirs (place ns key) s.data) (place ns key ++ [name])
        (some (.file content))) s.transactions s.accountCache := by
  have hnul := nulFree_place hns hkey
  have hparent (l : Location) : Path.parent (Path.names l ++ [Component.name name]) = Path.names l := by
    rw [Path.parent_concat_of_ne (by simp), Path.trim_names]
  rw [keyDirPath_of_plain hns hkey, hname.join, hparent]
  obtain ⟨s₁, hmade, -, hs₁⟩ | ⟨e, -, m, hm, content, hblocked⟩ := io_createDirAll toError h hnul
  · obtain ⟨s₂, hwritten, hs₂⟩ := io_write toError' (h.apart hs₁.apart) hnul hname.nul content
      (by rw [hs₁.data, mkdirs_self]) (by rwa [hs₁.data, mkdirs_concat])
    rw [hs₁.apart.rootPath] at hwritten
    refine ⟨s₂, ?_, ?_⟩
    · rw [StorageM.bind_of_ok hmade]
      exact hwritten
    · rw [hs₁.data, hs₁.transactions, hs₁.accounts] at hs₂
      exact hs₁.trans hs₂
  · exact absurd hblocked (hfree m hm content)

theorem writeKeyMetadata_ok (metadata : KeyMetadata) (hfree : s.Free (place ns key))
    (hfile : s.data (place ns key ++ ["metadata.json"]) ≠ some .directory) :
    ∃ s', writeKeyMetadata ns key metadata s = .ok () s' ∧
      Leaves s s' (Function.update (mkdirs (place ns key) s.data)
        (place ns key ++ ["metadata.json"]) (some (.file (.keyMetadata metadata)))) s.transactions
        s.accountCache := by
  unfold writeKeyMetadata
  rw [StorageM.bind_of_ok (StorageM.get_apply s)]
  exact writeFile_ok h hns hkey isName_metadata (.keyMetadata metadata) _ _ hfree hfile

theorem writeVersionData_ok (version : Nat) (data : ByteArray) (hfree : s.Free (place ns key))
    (hfile : s.data (place ns key ++ [versionName version]) ≠ some .directory) :
    ∃ s', writeVersionData ns key version data s = .ok () s' ∧
      Leaves s s' (Function.update (mkdirs (place ns key) s.data)
        (place ns key ++ [versionName version]) (some (.file (.data data)))) s.transactions
        s.accountCache := by
  unfold writeVersionData
  rw [StorageM.bind_of_ok (StorageM.get_apply s)]
  exact writeFile_ok h hns hkey (isName_versionName version) (.data data) _ _ hfree hfile

end

/-- Where a directory stands in the way no version can be written. -/
theorem writeVersionData_blocked {s : FileStorage} {ns key : String} (h : Opened s)
    (hns : Path.IsPlain ns) (hkey : Path.IsPlain key) {version : Nat} (data : ByteArray)
    (hdir : s.data (place ns key ++ [versionName version]) = some .directory) :
    ∃ e s', writeVersionData ns key version data s = .error (.error e) s' ∧ Logged s s' := by
  have hnul := nulFree_place hns hkey
  have hplace : s.data (place ns key) = some .directory := by
    apply data_of_isPrefix (by rw [hdir]; exact Option.some_ne_none _) (List.prefix_append _ _)
    intro heq
    simpa using congrArg List.length heq
  have hparent (l : Location) : Path.parent (Path.names l ++ [Component.name (versionName version)]) =
      Path.names l := by
    rw [Path.parent_concat_of_ne (by simp), Path.trim_names]
  unfold writeVersionData
  rw [StorageM.bind_of_ok (StorageM.get_apply s), versionPath_eq, keyDirPath_of_plain hns hkey]
  rw [hparent]
  obtain ⟨s₁, hmade, -, hs₁⟩ | ⟨e, -, m, hm, content, hblocked⟩ :=
    io_createDirAll (mapIoError ns (some key) s!"creating directory for version {version}") h hnul
  · rw [mkdirs_of_directory hplace] at hs₁
    have henter := enter_names_data (h.apart hs₁.apart) hnul (by rw [hs₁.data, hplace])
    rw [hs₁.apart.rootPath] at henter
    obtain ⟨e, herror⟩ := FileSystem.writeWith_error s₁.files
      (isName_versionName version).nul (fun _ => .data data) (by
        intro l hl
        rw [henter] at hl
        obtain rfl := Option.some.inj hl
        have hdir₁ := hdir
        rw [← hs₁.data] at hdir₁
        simpa [FileStorage.data, hs₁.apart.rootPath] using hdir₁)
    exact ⟨_, s₁, (StorageM.bind_of_ok hmade).trans (io_of_error _ herror), hs₁⟩
  · exact absurd hblocked (free_of_directory hplace m hm content)

theorem entry_congr {s s' : FileStorage} {ns key : String} (h : Opened s) (hs' : Apart s s')
    (hns : Path.IsPlain ns) (hkey : Path.IsPlain key)
    (hdata : ∀ name, s'.data (place ns key ++ [name]) = s.data (place ns key ++ [name]))
    (name : String) : s'.entry ns key name = s.entry ns key name := by
  rw [entry_of_plain (h.apart hs') hns hkey, entry_of_plain h hns hkey, hdata]

/-- What there is of a namespace keeps existing when directories are added. -/
theorem namespaceExists_mkdirs {s s' : FileStorage} {ns : String} (h : Opened s)
    (hns : Path.IsPlain ns) {l : Location} (hs' : Apart s s') (hdata : s'.data = mkdirs l s.data)
    (hexists : s.namespaceExists ns = true) : s'.namespaceExists ns = true := by
  rw [namespaceExists_of_plain h hns] at hexists
  rw [namespaceExists_of_plain (h.apart hs') hns, hs'.namespaceCache, hdata, mkdirs]
  simp only [Bool.or_eq_true] at hexists ⊢
  obtain hcached | hthere := hexists
  · exact .inl hcached
  · right
    split
    · rfl
    · exact hthere

/-- A key with metadata has a directory. -/
theorem mkdirs_of_metadata {s : FileStorage} {ns key : String} (h : Opened s)
    (hns : Path.IsPlain ns) (hkey : Path.IsPlain key)
    (hsome : (s.entry ns key "metadata.json").isSome = true) :
    mkdirs (place ns key) s.data = s.data := by
  rw [entry_of_plain h hns hkey, Option.isSome_iff_ne_none] at hsome
  apply mkdirs_of_directory
  apply data_of_isPrefix hsome (List.prefix_append _ _)
  intro heq
  simpa using congrArg List.length heq

/-! ## A new version -/

/-- The number of the version a `set` writes. -/
def nextNumber : Option KeyMetadata → Nat
  | none => 1
  | some metadata => (metadata.versions.getLast?.map (·.version)).getD 0 + 1

/-- The metadata a `set` writes. -/
def nextMetadata (user key : String) (time createdAt : Nat) : Option KeyMetadata → KeyMetadata
  | none => ⟨key, user, createdAt, [⟨1, user, time, none⟩]⟩
  | some metadata =>
    { metadata with versions := metadata.versions ++
        [⟨nextNumber (some metadata), user, time, metadata.versions.getLast?⟩] }

theorem now_ok (s : FileStorage) : ∃ time s', now s = .ok time s' ∧ Logged s s' :=
  ⟨_, _, rfl, ⟨rfl, rfl, fun _ => .rfl, fun _ _ => .same _⟩, rfl, rfl, rfl⟩

section
variable [SerdeMetadata]

/-- The metadata of a key that can be read, if there is a file for it. -/
def HasMetadata (s : FileStorage) (ns key : String) : Option KeyMetadata → Prop
  | none => s.entry ns key "metadata.json" = none
  | some metadata => readKeyMetadata s ns key = .ok metadata

theorem HasMetadata.congr {s s' : FileStorage} {ns key : String} {old : Option KeyMetadata}
    (h : HasMetadata s ns key old)
    (hentry : s'.entry ns key "metadata.json" = s.entry ns key "metadata.json") :
    HasMetadata s' ns key old := by
  cases old with
  | none => exact hentry.trans h
  | some metadata => exact (readKeyMetadata_congr hentry).trans h

theorem HasMetadata.isSome {s : FileStorage} {ns key : String} {old : Option KeyMetadata}
    (h : HasMetadata s ns key old) : (s.entry ns key "metadata.json").isSome = old.isSome := by
  cases old with
  | none =>
    rw [show s.entry ns key "metadata.json" = none from h]
    rfl
  | some metadata =>
    rw [HasMetadata, readKeyMetadata_eq] at h
    cases hentry : s.entry ns key "metadata.json" with
    | none =>
      rw [hentry] at h
      exact nomatch h
    | some n => rfl

theorem HasMetadata.not_directory {s : FileStorage} {ns key : String} {old : Option KeyMetadata}
    (h : HasMetadata s ns key old) : s.entry ns key "metadata.json" ≠ some .directory := by
  cases old with
  | none =>
    rw [show s.entry ns key "metadata.json" = none from h]
    exact fun h => nomatch h
  | some metadata =>
    intro hdir
    rw [HasMetadata, readKeyMetadata_eq, hdir] at h
    exact nomatch h

theorem currentVersion_ok {s : FileStorage} {ns key : String} {old : Option KeyMetadata}
    (h : HasMetadata s ns key old) :
    currentVersion ns key old.isSome s = .ok (old.bind (·.versions.getLast?)) s := by
  cases old with
  | none => rfl
  | some metadata =>
    have hread : StorageM.query (readKeyMetadata · ns key) s = .ok metadata s := by
      rw [query_apply, show readKeyMetadata s ns key = .ok metadata from h]
    show (StorageM.query (readKeyMetadata · ns key) >>= fun metadata =>
      pure metadata.versions.getLast?) s = _
    rw [StorageM.bind_of_ok hread]
    rfl

theorem addVersion_ok {s : FileStorage} {ns key : String} (h : Opened s) (hns : Path.IsPlain ns)
    (hkey : Path.IsPlain key) (user : String) {old : Option KeyMetadata}
    (hold : HasMetadata s ns key old) (hnumber : nextNumber old < 2 ^ 64)
    (hfree : s.Free (place ns key)) :
    ∃ time createdAt s', addVersion user ns key old.isSome s = .ok (nextNumber old) s' ∧
      Leaves s s' (Function.update (mkdirs (place ns key) s.data)
        (place ns key ++ ["metadata.json"])
        (some (.file (.keyMetadata (nextMetadata user key time createdAt old))))) s.transactions
        s.accountCache := by
  have hfile := hold.not_directory
  rw [entry_of_plain h hns hkey] at hfile
  have hwrite : ∀ metadata s', Logged s s' → ∃ s'', writeKeyMetadata ns key metadata s' = .ok () s'' ∧
      Leaves s s'' (Function.update (mkdirs (place ns key) s.data)
        (place ns key ++ ["metadata.json"]) (some (.file (.keyMetadata metadata)))) s.transactions
        s.accountCache := by
    intro metadata s' hs'
    have hfree' : s'.Free (place ns key) := by
      unfold Free
      rwa [hs'.data]
    obtain ⟨s'', hok, hs''⟩ := writeKeyMetadata_ok (h.apart hs'.apart) hns hkey metadata hfree'
      (by rwa [hs'.data])
    rw [hs'.data, hs'.transactions, hs'.accounts] at hs''
    exact ⟨s'', hok, hs'.trans hs''⟩
  obtain ⟨time, s₁, htime, hs₁⟩ := now_ok s
  cases old with
  | none =>
    obtain ⟨createdAt, s₂, hcreated, hs₂⟩ := now_ok s₁
    obtain ⟨s₃, hok, hs₃⟩ := hwrite ⟨key, user, createdAt, [⟨1, user, time, none⟩]⟩ s₂
      (hs₁.logged hs₂)
    refine ⟨time, createdAt, s₃, ?_, hs₃⟩
    unfold addVersion
    simp only [Option.isSome_none, Bool.false_eq_true, if_false]
    rw [StorageM.bind_of_ok htime, StorageM.bind_of_ok hcreated, StorageM.bind_of_ok hok]
    rfl
  | some metadata =>
    have hread : StorageM.query (readKeyMetadata · ns key) s = .ok metadata s := by
      rw [query_apply, show readKeyMetadata s ns key = .ok metadata from hold]
    obtain ⟨s₂, hok, hs₂⟩ := hwrite (nextMetadata user key time 0 (some metadata)) s₁ hs₁
    refine ⟨time, 0, s₂, ?_, hs₂⟩
    unfold addVersion
    simp only [Option.isSome_some, if_true]
    rw [StorageM.bind_of_ok hread, StorageM.bind_of_ok (StorageM.addU64_of_lt hnumber s),
      StorageM.bind_of_ok htime]
    exact StorageM.bind_of_ok hok

/-! ## What `set` can do -/

/-- By how many bytes a value is longer than the one it replaces. -/
def growth (s : FileStorage) (ns key : String) (value : ByteArray) : Nat :=
  value.size - (s.stored ns key).elim 0 ByteArray.size

/-- The accounts after a `set` has been charged. -/
def chargedFor (s : FileStorage) (auth : Option AuthContext) (ns key : String)
    (value : ByteArray) : HashMap FileResourceAccount :=
  charged s.accountCache (EconomicOperations.userOf auth) (s.growth ns key value)

/-- The transactions after a `set` has been recorded. -/
def recordedSet (s : FileStorage) (ns key : String) (old : Option KeyMetadata) :
    List (List TransactionOp) :=
  recorded (.set ns key (s.stored ns key) (old.bind (·.versions.getLast?))) s.transactions

/-- The tree with new metadata for a key. -/
def withMetadata (s : FileStorage) (ns key : String) (metadata : KeyMetadata) :
    Location → Option (Node FileContent) :=
  Function.update (mkdirs (place ns key) s.data) (place ns key ++ ["metadata.json"])
    (some (.file (.keyMetadata metadata)))

/-- How a `set` ends, and what it leaves behind. -/
inductive SetOutcome (s : FileStorage) (auth : Option AuthContext) (ns key : String)
    (value : ByteArray) : EStateM.Result StorageFault FileStorage Unit → Prop
  | refused (e : StorageError) (h : checked s auth "write" ns s!"{ns}:{key}" = .error e) :
    SetOutcome s auth ns key value (.error (.error e) s)
  /-- The directory of the key cannot be made. -/
  | blocked (e : StorageError) (h : ¬ s.Free (place ns key)) :
    SetOutcome s auth ns key value (.error (.error e) s)
  /-- The directory has been made. -/
  | overdrawn (f : StorageFault) {s' : FileStorage}
      (checks : checked s auth "write" ns s!"{ns}:{key}" = .ok ())
      (free : s.Free (place ns key))
      (h : Overdrawn s.accountCache (EconomicOperations.userOf auth) (s.growth ns key value))
      (leaves : Leaves s s' (mkdirs (place ns key) s.data) s.transactions s.accountCache) :
    SetOutcome s auth ns key value (.error f s')
  /-- The user has been charged. -/
  | unreadable (e : StorageError) {s' : FileStorage}
      (checks : checked s auth "write" ns s!"{ns}:{key}" = .ok ())
      (free : s.Free (place ns key))
      (fits : ¬ Overdrawn s.accountCache (EconomicOperations.userOf auth) (s.growth ns key value))
      (file : s.entry ns key "metadata.json" ≠ none) (h : readKeyMetadata s ns key = .error e)
      (leaves : Leaves s s' s.data s.transactions (s.chargedFor auth ns key value)) :
    SetOutcome s auth ns key value (.error (.error e) s')
  /-- The version number overflows; the key has been recorded. -/
  | exhausted (metadata : KeyMetadata) {s' : FileStorage}
      (checks : checked s auth "write" ns s!"{ns}:{key}" = .ok ())
      (free : s.Free (place ns key))
      (fits : ¬ Overdrawn s.accountCache (EconomicOperations.userOf auth) (s.growth ns key value))
      (read : readKeyMetadata s ns key = .ok metadata)
      (h : 2 ^ 64 ≤ nextNumber (some metadata))
      (leaves : Leaves s s' s.data (s.recordedSet ns key (some metadata))
        (s.chargedFor auth ns key value)) :
    SetOutcome s auth ns key value (.error .panic s')
  /-- A directory has the name of the version file; the metadata has been written. -/
  | halfStored (e : StorageError) (old : Option KeyMetadata) (time createdAt : Nat)
      {s' : FileStorage} (checks : checked s auth "write" ns s!"{ns}:{key}" = .ok ())
      (free : s.Free (place ns key))
      (fits : ¬ Overdrawn s.accountCache (EconomicOperations.userOf auth) (s.growth ns key value))
      (read : HasMetadata s ns key old)
      (h : s.data (place ns key ++ [versionName (nextNumber old)]) = some .directory)
      (leaves : Leaves s s'
        (s.withMetadata ns key
          (nextMetadata (EconomicOperations.userOf auth) key time createdAt old))
        (s.recordedSet ns key old) (s.chargedFor auth ns key value)) :
    SetOutcome s auth ns key value (.error (.error e) s')
  | stored (old : Option KeyMetadata) (time createdAt : Nat) {s' : FileStorage}
      (checks : checked s auth "write" ns s!"{ns}:{key}" = .ok ())
      (free : s.Free (place ns key))
      (fits : ¬ Overdrawn s.accountCache (EconomicOperations.userOf auth) (s.growth ns key value))
      (read : HasMetadata s ns key old) (number : nextNumber old < 2 ^ 64)
      (file : s.data (place ns key ++ [versionName (nextNumber old)]) ≠ some .directory)
      (leaves : Leaves s s'
        (Function.update (s.withMetadata ns key
            (nextMetadata (EconomicOperations.userOf auth) key time createdAt old))
          (place ns key ++ [versionName (nextNumber old)]) (some (.file (.data value))))
        (s.recordedSet ns key old) (s.chargedFor auth ns key value)) :
    SetOutcome s auth ns key value (.ok () s')

/-- The rest of a `set` that has been charged. -/
theorem storeVersion_outcome {s s₃ : FileStorage} {auth : Option AuthContext} {ns key : String}
    {value : ByteArray} {old : Option KeyMetadata} (h : Opened s) (hns : Path.IsPlain ns)
    (hkey : Path.IsPlain key) (hchecked : checked s auth "write" ns s!"{ns}:{key}" = .ok ())
    (hfree : s.Free (place ns key))
    (hfits : ¬ Overdrawn s.accountCache (EconomicOperations.userOf auth) (s.growth ns key value))
    (hold : HasMetadata s ns key old)
    (hs₃ : Leaves s s₃ (mkdirs (place ns key) s.data) s.transactions
      (s.chargedFor auth ns key value)) :
    SetOutcome s auth ns key value ((do
      recordForRollback (.set ns key (s.stored ns key) (old.bind (·.versions.getLast?)))
      let version ← addVersion (EconomicOperations.userOf auth) ns key old.isSome
      writeVersionData ns key version value
      audit auth "write" ns (some key) s!"Set v{version} ({value.size} bytes)") s₃) := by
  obtain ⟨s₄, hrecorded, hs₄⟩ := recordForRollback_ok
    (.set ns key (s.stored ns key) (old.bind (·.versions.getLast?))) s₃
  rw [hs₃.data, hs₃.transactions, hs₃.accounts] at hs₄
  replace hs₄ := hs₃.trans hs₄
  have h₄ := h.apart hs₄.apart
  have hold₄ : HasMetadata s₄ ns key old := hold.congr
    (entry_congr h hs₄.apart hns hkey (fun name => by rw [hs₄.data, mkdirs_concat]) _)
  have hplace₄ : s₄.data (place ns key) = some .directory := by rw [hs₄.data, mkdirs_self]
  rw [StorageM.bind_of_ok hrecorded]
  by_cases hnumber : nextNumber old < 2 ^ 64
  · obtain ⟨time, createdAt, s₅, hadded, hs₅⟩ := addVersion_ok h₄ hns hkey
      (EconomicOperations.userOf auth) hold₄ hnumber (free_of_directory hplace₄)
    rw [mkdirs_of_directory hplace₄, hs₄.data, hs₄.transactions, hs₄.accounts] at hs₅
    replace hs₅ := hs₄.trans hs₅
    have h₅ := h.apart hs₅.apart
    have hplace₅ : s₅.data (place ns key) = some .directory := by
      rw [hs₅.data, Function.update_of_ne, mkdirs_self]
      intro heq
      simpa using congrArg List.length heq
    have hversion₅ : s₅.data (place ns key ++ [versionName (nextNumber old)]) =
        s.data (place ns key ++ [versionName (nextNumber old)]) := by
      rw [hs₅.data, Function.update_of_ne, mkdirs_concat]
      simpa using versionName_ne_metadata _
    rw [StorageM.bind_of_ok hadded]
    by_cases hdir : s.data (place ns key ++ [versionName (nextNumber old)]) = some .directory
    · obtain ⟨e, s₆, herror, hs₆⟩ := writeVersionData_blocked h₅ hns hkey value
        (hversion₅.trans hdir)
      rw [StorageM.bind_of_error herror]
      exact .halfStored e old time createdAt hchecked hfree hfits hold hdir (hs₅.logged hs₆)
    · obtain ⟨s₆, hwritten, hs₆⟩ := writeVersionData_ok h₅ hns hkey (nextNumber old) value
        (free_of_directory hplace₅) (by rwa [hversion₅])
      rw [mkdirs_of_directory hplace₅, hs₅.data, hs₅.transactions, hs₅.accounts] at hs₆
      replace hs₆ := hs₅.trans hs₆
      obtain ⟨a, rfl⟩ := checkPermission_some (checked_eq_ok.mp hchecked).1
      obtain ⟨s₇, hlog, hs₇⟩ := recordAuditLog_ok (h.apart hs₆.apart).loggable a "write" ns (some key)
        s!"Set v{nextNumber old} ({value.size} bytes)"
      rw [StorageM.bind_of_ok hwritten]
      dsimp only [audit]
      rw [hlog]
      exact .stored old time createdAt hchecked hfree hfits hold hnumber hdir (hs₆.logged hs₇)
  · cases old with
    | none => exact absurd (by decide) hnumber
    | some metadata =>
      have hread : StorageM.query (readKeyMetadata · ns key) s₄ = .ok metadata s₄ := by
        rw [query_apply, show readKeyMetadata s₄ ns key = .ok metadata from hold₄]
      have hfails : addVersion (EconomicOperations.userOf auth) ns key true s₄ =
          .error .panic s₄ := by
        unfold addVersion
        rw [if_pos rfl, StorageM.bind_of_ok hread,
          StorageM.bind_of_error (StorageM.addU64_of_le (Nat.not_lt.mp hnumber) s₄)]
      rw [Option.isSome_some, StorageM.bind_of_error hfails]
      rw [mkdirs_of_metadata h hns hkey hold.isSome] at hs₄
      exact .exhausted metadata hchecked hfree hfits hold (Nat.not_lt.mp hnumber) hs₄

theorem set_outcome {s : FileStorage} {ns key : String} (h : Opened s) (hns : Path.IsPlain ns)
    (hkey : Path.IsPlain key) (auth : Option AuthContext) (value : ByteArray) :
    SetOutcome s auth ns key value (set auth ns key value s) := by
  unfold set
  cases hchecked : checked s auth "write" ns s!"{ns}:{key}" with
  | error e =>
    have hrefused : requireNamespace auth "write" ns s!"{ns}:{key}" s = .error (.error e) s := by
      rw [requireNamespace_eq, query_apply, hchecked]
    rw [StorageM.bind_of_error hrefused]
    exact .refused e hchecked
  | ok u =>
  have hrequired : requireNamespace auth "write" ns s!"{ns}:{key}" s = .ok () s := by
    rw [requireNamespace_eq, query_apply, hchecked]
  have hnul := nulFree_place hns hkey
  rw [StorageM.bind_of_ok hrequired, StorageM.bind_of_ok (StorageM.get_apply s),
    keyDirPath_of_plain hns hkey]
  obtain ⟨s₁, hmade, hfree, hs₁⟩ | ⟨e, herror, m, hm, content, hfile⟩ :=
    io_createDirAll unknownError h hnul
  swap
  · rw [StorageM.bind_of_error herror]
    exact .blocked e fun hfree => hfree m hm content hfile
  have hentry : ∀ name, s₁.entry ns key name = s.entry ns key name :=
    entry_congr h hs₁.apart hns hkey fun name => by rw [hs₁.data, mkdirs_concat]
  have hexists : s₁.files.exists_ (s₁.metadataPath ns key) =
      (s₁.entry ns key "metadata.json").isSome := by
    rw [FileSystem.exists_, find_metadataPath]
  have hread : checked s₁ auth "read" ns "" = .ok () := by
    obtain ⟨hpermission, hnamespace⟩ := checked_eq_ok.mp hchecked
    exact checked_eq_ok.mpr ⟨checkPermission_read hpermission,
      namespaceExists_mkdirs h hns hs₁.apart hs₁.data hnamespace⟩
  obtain ⟨s₂, hexisting, hs₂⟩ := existingData_ok (h.apart hs₁.apart) key hread
  rw [stored_congr hentry] at hexisting
  rw [StorageM.bind_of_ok hmade, StorageM.bind_of_ok (StorageM.get_apply s₁), hexists,
    StorageM.bind_of_ok hexisting, hentry]
  replace hs₂ := hs₁.logged hs₂
  obtain ⟨s₃, hcharged, hfits, hs₃⟩ | ⟨f, hover, hoverdrawn⟩ :=
    chargeGrowth_cases (h.apart hs₂.apart) (EconomicOperations.userOf auth)
      ((s.stored ns key).elim 0 ByteArray.size) value.size
  swap
  · rw [hs₂.accounts] at hoverdrawn
    rw [StorageM.bind_of_error hover]
    exact .overdrawn f hchecked hfree hoverdrawn hs₂
  rw [hs₂.accounts] at hfits
  rw [hs₂.data, hs₂.transactions, hs₂.accounts] at hs₃
  replace hs₃ := hs₂.trans hs₃
  rw [StorageM.bind_of_ok hcharged]
  have hentry₃ : ∀ name, s₃.entry ns key name = s.entry ns key name :=
    entry_congr h hs₃.apart hns hkey fun name => by rw [hs₃.data, mkdirs_concat]
  by_cases hreadable : ∃ old, HasMetadata s ns key old
  · obtain ⟨old, hold⟩ := hreadable
    rw [hold.isSome, StorageM.bind_of_ok (currentVersion_ok (hold.congr (hentry₃ _)))]
    exact storeVersion_outcome h hns hkey hchecked hfree hfits hold hs₃
  · -- there is metadata, and it cannot be read
    have hfile : s.entry ns key "metadata.json" ≠ none := fun hnone => hreadable ⟨none, hnone⟩
    have hsome := Option.isSome_iff_ne_none.mpr hfile
    rw [mkdirs_of_metadata h hns hkey hsome] at hs₃
    cases hread : readKeyMetadata s ns key with
    | ok metadata => exact absurd ⟨some metadata, hread⟩ hreadable
    | error e =>
      have hfails : currentVersion ns key true s₃ = .error (.error e) s₃ := by
        unfold currentVersion
        rw [if_pos rfl]
        apply StorageM.bind_of_error
        rw [query_apply, readKeyMetadata_congr (hentry₃ _), hread]
      rw [hsome, StorageM.bind_of_error hfails]
      exact .unreadable e hchecked hfree hfits hfile hread hs₃

/-! ## What `delete` can do -/

theorem readLatest_of_ok {s : FileStorage} {ns key noVersions noVersions' : String}
    {found : ByteArray × VersionInfo} (h : readLatest s ns key noVersions = .ok found) :
    readLatest s ns key noVersions' = .ok found :=
  readLatest_eq_ok.mpr (readLatest_eq_ok.mp h)

/-- How a `delete` ends, and what it leaves behind. -/
inductive DeleteOutcome (s : FileStorage) (auth : Option AuthContext) (ns key : String) :
    EStateM.Result StorageFault FileStorage Unit → Prop
  | refused (e : StorageError)
      (h : checked s auth "write" ns s!"Namespace not found: {ns}" = .error e) :
    DeleteOutcome s auth ns key (.error (.error e) s)
  | missing (e : StorageError) (h : s.stored ns key = none) :
    DeleteOutcome s auth ns key (.error (.error e) s)
  | deleted (d : ByteArray) (v : VersionInfo) {s' : FileStorage}
      (checks : checked s auth "write" ns s!"Namespace not found: {ns}" = .ok ())
      (read : readLatest s ns key "" = .ok (d, v))
      (leaves : Leaves s s' (removed (place ns key) s.data)
        (recorded (.delete ns key d v.version) s.transactions) s.accountCache) :
    DeleteOutcome s auth ns key (.ok () s')

theorem delete_outcome {s : FileStorage} {ns key : String} (h : Opened s) (hns : Path.IsPlain ns)
    (hkey : Path.IsPlain key) (auth : Option AuthContext) :
    DeleteOutcome s auth ns key (delete auth ns key s) := by
  unfold delete
  rw [requireNamespace_eq]
  cases hchecked : checked s auth "write" ns s!"Namespace not found: {ns}" with
  | error e =>
    rw [StorageM.bind_of_error (query_of_error hchecked)]
    exact .refused e hchecked
  | ok u =>
  rw [StorageM.bind_of_ok (query_of_ok hchecked)]
  cases hfound : readLatest s ns key s!"{ns}:{key} (no versions)" with
  | error e =>
    rw [StorageM.bind_of_error (query_of_error hfound)]
    exact .missing e (stored_of_error hfound)
  | ok found =>
  obtain ⟨s₁, hrecorded, hs₁⟩ := recordForRollback_ok (.delete ns key found.1 found.2.version) s
  have hdir : s₁.data (place ns key) = some .directory := by
    obtain ⟨metadata, hread, -⟩ := readLatest_eq_ok.mp hfound
    have hold : HasMetadata s ns key (some metadata) := hread
    rw [hs₁.data, ← mkdirs_of_metadata h hns hkey hold.isSome]
    exact mkdirs_self _ _
  obtain ⟨s₂, hremoved, hs₂⟩ := io_removeDirAll
    (mapIoError ns (some key) "deleting key directory") (h.apart hs₁.apart)
    (nulFree_place hns hkey) hdir
  rw [hs₁.data, hs₁.transactions, hs₁.accounts] at hs₂
  obtain ⟨a, rfl⟩ := checkPermission_some (checked_eq_ok.mp hchecked).1
  obtain ⟨s₃, hlog, hs₃⟩ := recordAuditLog_ok (h.apart (hs₁.trans hs₂).apart).loggable a "delete" ns
    (some key) s!"Deleted version {found.2.version}"
  rw [StorageM.bind_of_ok (query_of_ok hfound), StorageM.bind_of_ok hrecorded,
    StorageM.bind_of_ok (StorageM.get_apply s₁),
    keyDirPath_of_plain hns hkey, StorageM.bind_of_ok hremoved]
  dsimp only [audit]
  rw [hlog]
  exact .deleted found.1 found.2 hchecked (readLatest_of_ok hfound)
    ((hs₁.trans hs₂).logged hs₃)

/-- A permitted `delete` of a key that can be read succeeds. -/
theorem delete_ok {s : FileStorage} {ns key : String} (h : Opened s) (hns : Path.IsPlain ns)
    (hkey : Path.IsPlain key) (auth : Option AuthContext)
    (hchecked : checked s auth "write" ns s!"Namespace not found: {ns}" = .ok ())
    (hstored : s.stored ns key ≠ none) : succeeded (delete auth ns key s) = true := by
  have houtcome := delete_outcome h hns hkey auth
  generalize delete auth ns key s = r at houtcome
  cases houtcome with
  | refused e herror =>
    rw [hchecked] at herror
    exact nomatch herror
  | missing e hnone => exact absurd hnone hstored
  | deleted => rfl

end

end FileStorage

end Covm
