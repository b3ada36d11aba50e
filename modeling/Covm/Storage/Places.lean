import Covm.Storage.FileStorage
import Covm.Partial.Within

/-!
# Where the file backend keeps things

The namespaces are a tree of their own, `data`; plain names lead to a `place` in it. Accounts and
audit logs are kept beside it. What a read returns depends on the entries of one directory only
(`entry`), and reading writes nothing but an audit log (`Logged`).
-/

namespace Covm

open Files Partial

namespace FileStorage

/-! ## Names -/

instance (s : String) : Decidable (Path.IsName s) :=
  decidable_of_iff (s.toList ≠ [] ∧ '/' ∉ s.toList ∧ '\x00' ∉ s.toList ∧ s.toList ≠ ['.'] ∧
      s.toList ≠ ['.', '.'])
    ⟨fun ⟨h₁, h₂, h₃, h₄, h₅⟩ => ⟨h₁, h₂, h₃, h₄, h₅⟩,
      fun h => ⟨h.nonempty, h.slash, h.nul, h.dot, h.dots⟩⟩

theorem isName_metadata : Path.IsName "metadata.json" := by decide

theorem isDigit_of_mem_toString {n : Nat} {c : Char} (h : c ∈ (toString n).toList) :
    c.isDigit = true := by
  rw [show (toString n).toList = Nat.toDigits 10 n from Nat.toList_repr] at h
  exact Nat.isDigit_of_mem_toDigits (by decide) (by decide) h

theorem toList_versionName (n : Nat) :
    (versionName n).toList = 'v' :: (toString n).toList ++ ".data".toList := by
  simp [versionName, String.toList_append, toString]

theorem isName_versionName (n : Nat) : Path.IsName (versionName n) := by
  have hlist := toList_versionName n
  have hother : ∀ c, c.isDigit = false → c ≠ 'v' → c ∉ ".data".toList → c ∉ (versionName n).toList := by
    intro c hc hv hdata hmem
    simp only [hlist, List.cons_append, List.mem_cons, List.mem_append] at hmem
    obtain h | h | h := hmem
    · exact hv h
    · rw [isDigit_of_mem_toString h] at hc
      exact nomatch hc
    · exact hdata h
  refine ⟨?_, hother _ (by decide) (by decide) (by decide),
    hother _ (by decide) (by decide) (by decide), ?_, ?_⟩ <;> simp [hlist]

theorem versionName_injective : Function.Injective versionName := by
  intro n m h
  have hlists := congrArg String.toList h
  rw [toList_versionName, toList_versionName] at hlists
  have hdigits : (toString n).toList = (toString m).toList := by simpa using hlists
  rw [show (toString n).toList = Nat.toDigits 10 n from Nat.toList_repr,
    show (toString m).toList = Nat.toDigits 10 m from Nat.toList_repr] at hdigits
  rw [← Nat.ofDigitChars_ten_toDigits (n := n), hdigits, Nat.ofDigitChars_ten_toDigits]

theorem versionName_ne_metadata (n : Nat) : versionName n ≠ "metadata.json" := by
  intro h
  have hlists := congrArg String.toList h
  rw [toList_versionName] at hlists
  simp at hlists

theorem isDigit_of_mem_padded {width n : Nat} {c : Char} (h : c ∈ (padded width n).toList) :
    c.isDigit = true := by
  rw [padded, String.toList_append, String.toList_ofList, List.mem_append] at h
  obtain h | h := h
  · rw [(List.mem_replicate.mp h).2]
    decide
  · exact isDigit_of_mem_toString h

theorem mem_dateText {timestamp : Nat} {c : Char} (h : c ∈ (dateText timestamp).toList) :
    c = '+' ∨ c.isDigit = true := by
  simp only [dateText, String.toList_append, List.mem_append] at h
  obtain ((h | h) | h) | h := h
  · left
    split at h
    · simpa using h
    · simp at h
  · exact .inr (isDigit_of_mem_padded h)
  · exact .inr (isDigit_of_mem_padded h)
  · exact .inr (isDigit_of_mem_padded h)

/-! The name of a log, for any text in the place of the date -/

theorem toList_log (date : String) :
    s!"log_{date}.jsonl".toList = "log_".toList ++ date.toList ++ ".jsonl".toList := by
  simp [String.toList_append, toString]

theorem isName_log {date : String} (h : ∀ c ∈ date.toList, c = '+' ∨ c.isDigit = true) :
    Path.IsName s!"log_{date}.jsonl" := by
  have hlist := toList_log date
  have hother : ∀ c, c.isDigit = false → c ≠ '+' → c ∉ "log_".toList → c ∉ ".jsonl".toList →
      c ∉ s!"log_{date}.jsonl".toList := by
    intro c hc hplus hstart hend hmem
    rw [hlist, List.mem_append, List.mem_append] at hmem
    obtain (hmem | hmem) | hmem := hmem
    · exact hstart hmem
    · obtain heq | hdigit := h c hmem
      · exact hplus heq
      · rw [hdigit] at hc
        exact nomatch hc
    · exact hend hmem
  refine ⟨?_, hother _ (by decide) (by decide) (by decide) (by decide),
    hother _ (by decide) (by decide) (by decide) (by decide), ?_, ?_⟩ <;> simp [hlist]

theorem log_ne_metadata (date : String) : s!"log_{date}.jsonl" ≠ "metadata.json" := by
  intro h
  have hlists := congrArg String.toList h
  rw [toList_log] at hlists
  simp at hlists

theorem isName_logName (timestamp : Nat) : Path.IsName (logName timestamp) :=
  isName_log fun _ hc => mem_dateText hc

theorem logName_ne_metadata (timestamp : Nat) : logName timestamp ≠ "metadata.json" :=
  log_ne_metadata (dateText timestamp)

/-! ## Places -/

/-- The tree of the namespaces. -/
def data (s : FileStorage) (l : Location) : Option (Node FileContent) :=
  s.files.node (s.rootPath ++ "namespaces" :: l)

/-- Where the directory of a key is in this tree. -/
def place (ns key : String) : Location := Path.components ns ++ "keys" :: Path.components key

/-- What the directory a key leads to has under a name. -/
def entry (s : FileStorage) (ns key name : String) : Option (Node FileContent) :=
  (s.files.enter (s.keyDirPath ns key)).bind fun l => s.files.node (l ++ [name])

section
variable {s : FileStorage} {ns key : String}

theorem data_of_isPrefix {l m : Location} (hl : s.data l ≠ none) (hm : m <+: l) (hne : m ≠ l) :
    s.data m = some .directory := by
  apply s.files.node_of_isPrefix hl
  · exact (List.prefix_append_right_inj _).mpr (List.cons_prefix_cons.mpr ⟨rfl, hm⟩)
  · intro heq
    exact hne (List.cons.inj (List.append_cancel_left heq)).2

theorem data_eq_none_of_isPrefix {l m : Location} (hl : s.data l = none) (hm : l <+: m) :
    s.data m = none :=
  s.files.node_eq_none_of_isPrefix hl
    ((List.prefix_append_right_inj _).mpr (List.cons_prefix_cons.mpr ⟨rfl, hm⟩))

theorem namespacePath_of_plain (hns : Path.IsPlain ns) :
    s.namespacePath ns = Path.names (s.rootPath ++ "namespaces" :: Path.components ns) := by
  have hnamespaces : Path.IsName "namespaces" := by decide
  rw [namespacePath, root, hnamespaces.join, hns.join]
  simp [Path.names]

theorem keysPath_of_plain (hns : Path.IsPlain ns) :
    (s.namespacePath ns).join "keys" =
      Path.names (s.rootPath ++ "namespaces" :: (Path.components ns ++ ["keys"])) := by
  have hkeys : Path.IsName "keys" := by decide
  rw [hkeys.join, namespacePath_of_plain hns]
  simp [Path.names]

theorem keyDirPath_of_plain (hns : Path.IsPlain ns) (hkey : Path.IsPlain key) :
    s.keyDirPath ns key = Path.names (s.rootPath ++ "namespaces" :: place ns key) := by
  rw [keyDirPath, keysPath_of_plain hns, hkey.join, place]
  simp [Path.names]

theorem metadataPath_eq : s.metadataPath ns key = s.keyDirPath ns key ++ [Component.name "metadata.json"] :=
  isName_metadata.join _

theorem versionPath_eq (n : Nat) :
    s.versionPath ns key n = s.keyDirPath ns key ++ [.name (versionName n)] :=
  (isName_versionName n).join _

theorem find_metadataPath : s.files.find (s.metadataPath ns key) = s.entry ns key "metadata.json" := by
  rw [metadataPath_eq, FileSystem.find_concat_name _ _ isName_metadata.nul, entry]

theorem find_versionPath (n : Nat) :
    s.files.find (s.versionPath ns key n) = s.entry ns key (versionName n) := by
  rw [versionPath_eq, FileSystem.find_concat_name _ _ (isName_versionName n).nul, entry]

theorem nulFree_place (hns : Path.IsPlain ns) (hkey : Path.IsPlain key) :
    NulFree (place ns key) := by
  rw [place, nulFree_append]
  refine ⟨hns.nulFree, ?_⟩
  intro name hname
  obtain rfl | hname := List.mem_cons.mp hname
  · decide
  · exact hkey.nulFree name hname

end

/-! ## Beside the namespaces -/

/-- The directories of the storage are there, no log is a directory, and every account has a file
that can be called after its user. -/
structure Opened (s : FileStorage) : Prop where
  nulFree : NulFree s.rootPath
  accounts : s.files.node (s.rootPath ++ ["accounts"]) = some .directory
  auditLogs : s.files.node (s.rootPath ++ ["audit_logs"]) = some .directory
  logFiles : ∀ timestamp,
    s.files.node (s.rootPath ++ ["audit_logs", logName timestamp]) ≠ some .directory
  accountNames : ∀ user ∈ s.accountCache, Path.IsName (accountName user)
  accountFiles : ∀ user ∈ s.accountCache, ∃ account,
    s.files.node (s.rootPath ++ ["accounts", accountName user]) = some (.file (.account account))

/-- The logs can be written. -/
structure Loggable (s : FileStorage) : Prop where
  nulFree : NulFree s.rootPath
  auditLogs : s.files.node (s.rootPath ++ ["audit_logs"]) = some .directory
  logFiles : ∀ timestamp,
    s.files.node (s.rootPath ++ ["audit_logs", logName timestamp]) ≠ some .directory

theorem Opened.loggable {s : FileStorage} (h : Opened s) : Loggable s :=
  ⟨h.nulFree, h.auditLogs, h.logFiles⟩

/-- How a node outside of the namespaces may change: an account is rewritten, a log is appended
to. -/
inductive Beside (root l : Location) : Option (Node FileContent) → Option (Node FileContent) → Prop
  | same (n : Option (Node FileContent)) : Beside root l n n
  | account (user : String) (a a' : FileResourceAccount)
      (place : l = root ++ ["accounts", accountName user]) :
    Beside root l (some (.file (.account a))) (some (.file (.account a')))
  | log (timestamp : Nat) {n n' : Option (Node FileContent)}
      (place : l = root ++ ["audit_logs", logName timestamp])
      (before : n ≠ some .directory) (after : n' ≠ some .directory) : Beside root l n n'

theorem Beside.trans {root l : Location} {n n' n'' : Option (Node FileContent)}
    (h : Beside root l n n') (h' : Beside root l n' n'') : Beside root l n n'' := by
  cases h with
  | same => exact h'
  | account user a a' place =>
    cases h' with
    | same => exact .account user a a' place
    | account user' _ a'' => exact .account user a a'' place
    | log timestamp place' =>
      rw [place] at place'
      exact absurd (List.cons.inj (List.append_cancel_left place')).1 (by decide)
  | log timestamp place before after =>
    cases h' with
    | same => exact .log timestamp place before after
    | account user a' a'' place' =>
      rw [place] at place'
      exact absurd (List.cons.inj (List.append_cancel_left place')).1 (by decide)
    | log timestamp' place' before' after' => exact .log timestamp place before after'

theorem Beside.directory_iff {root l : Location} {n n' : Option (Node FileContent)}
    (h : Beside root l n n') : n' = some .directory ↔ n = some .directory := by
  cases h with
  | same => rfl
  | account => simp
  | log timestamp place before after => simp [before, after]

/-- Outside of the namespaces only accounts and logs are written. -/
structure Apart (s s' : FileStorage) : Prop where
  rootPath : s'.rootPath = s.rootPath
  namespaceCache : s'.namespaceCache = s.namespaceCache
  users : ∀ user, user ∈ s'.accountCache ↔ user ∈ s.accountCache
  beside : ∀ l, ¬ s.rootPath ++ ["namespaces"] <+: l →
    Beside s.rootPath l (s.files.node l) (s'.files.node l)

theorem Apart.refl (s : FileStorage) : Apart s s := ⟨rfl, rfl, fun _ => .rfl, fun _ _ => .same _⟩

theorem Apart.trans {s s' s'' : FileStorage} (h : Apart s s') (h' : Apart s' s'') : Apart s s'' where
  rootPath := h'.rootPath.trans h.rootPath
  namespaceCache := h'.namespaceCache.trans h.namespaceCache
  users user := (h'.users user).trans (h.users user)
  beside l hl := by
    have hl' := h'.beside l
    rw [h.rootPath] at hl'
    exact (h.beside l hl).trans (hl' hl)

theorem not_namespaces_isPrefix {root : Location} {name : String} (l : Location)
    (hname : name ≠ "namespaces") : ¬ root ++ ["namespaces"] <+: root ++ name :: l := by
  rw [List.prefix_append_right_inj, List.cons_prefix_cons]
  exact fun h => hname h.1.symm

theorem Opened.apart {s s' : FileStorage} (h : Opened s) (hs : Apart s s') : Opened s' where
  nulFree := by
    rw [hs.rootPath]
    exact h.nulFree
  accounts := by
    rw [hs.rootPath, (hs.beside _ (not_namespaces_isPrefix [] (by decide))).directory_iff]
    exact h.accounts
  auditLogs := by
    rw [hs.rootPath, (hs.beside _ (not_namespaces_isPrefix [] (by decide))).directory_iff]
    exact h.auditLogs
  logFiles timestamp := by
    rw [hs.rootPath, Ne, (hs.beside _ (not_namespaces_isPrefix _ (by decide))).directory_iff]
    exact h.logFiles timestamp
  accountNames user huser := h.accountNames user ((hs.users user).mp huser)
  accountFiles user huser := by
    obtain ⟨account, hfile⟩ := h.accountFiles user ((hs.users user).mp huser)
    have hbeside := hs.beside (s.rootPath ++ ["accounts", accountName user])
      (not_namespaces_isPrefix _ (by decide))
    rw [hfile] at hbeside
    rw [hs.rootPath]
    generalize s'.files.node _ = n at hbeside ⊢
    cases hbeside with
    | same => exact ⟨account, rfl⟩
    | account _ _ a' => exact ⟨a', rfl⟩
    | log timestamp place =>
      exact absurd (List.cons.inj (List.append_cancel_left place)).1 (by decide)

/-- The tree of the namespaces becomes `tree`; the open transactions and the accounts become these
ones, and nothing else changes but the logs. -/
structure Leaves (s s' : FileStorage) (tree : Location → Option (Node FileContent))
    (transactions : List (List TransactionOp)) (accounts : HashMap FileResourceAccount) : Prop where
  apart : Apart s s'
  data : s'.data = tree
  transactions : s'.transactions = transactions
  accounts : s'.accountCache = accounts

/-- Nothing but the logs changes. -/
abbrev Logged (s s' : FileStorage) : Prop := Leaves s s' s.data s.transactions s.accountCache

theorem Leaves.trans {s s' s'' : FileStorage} {tree tree' : Location → Option (Node FileContent)}
    {transactions transactions' : List (List TransactionOp)}
    {accounts accounts' : HashMap FileResourceAccount}
    (h : Leaves s s' tree transactions accounts) (h' : Leaves s' s'' tree' transactions' accounts') :
    Leaves s s'' tree' transactions' accounts' :=
  ⟨h.apart.trans h'.apart, h'.data, h'.transactions, h'.accounts⟩

theorem Logged.refl (s : FileStorage) : Logged s s := ⟨.refl s, rfl, rfl, rfl⟩

theorem Leaves.logged {s s' s'' : FileStorage} {tree : Location → Option (Node FileContent)}
    {transactions : List (List TransactionOp)} {accounts : HashMap FileResourceAccount}
    (h : Leaves s s' tree transactions accounts) (h' : Logged s' s'') :
    Leaves s s'' tree transactions accounts :=
  ⟨h.apart.trans h'.apart, h'.data.trans h.data, h'.transactions.trans h.transactions,
    h'.accounts.trans h.accounts⟩

/-- A change of the files that keeps to the tree of the namespaces. -/
theorem leaves_files {s : FileStorage} {files : FileSystem FileContent}
    {tree : Location → Option (Node FileContent)}
    (hbeside : ∀ l, ¬ s.rootPath ++ ["namespaces"] <+: l → files.node l = s.files.node l)
    (hdata : ∀ l, files.node (s.rootPath ++ "namespaces" :: l) = tree l) :
    Leaves s { s with files := files } tree s.transactions s.accountCache where
  apart := ⟨rfl, rfl, fun _ => .rfl, fun l hl => by rw [hbeside l hl]; exact .same _⟩
  data := funext hdata
  transactions := rfl
  accounts := rfl

theorem namespaces_isPrefix {root l m : Location} :
    root ++ "namespaces" :: l <+: root ++ "namespaces" :: m ↔ l <+: m := by
  rw [List.prefix_append_right_inj, List.cons_prefix_cons]
  simp

/-- A place is above or in the tree of the namespaces, or beside it. -/
theorem prefix_or_eq {root l m : Location} (h : m <+: root ++ "namespaces" :: l) :
    m <+: root ∨ ∃ m', m = root ++ "namespaces" :: m' ∧ m' <+: l := by
  obtain hm | ⟨m', rfl⟩ := List.prefix_or_prefix_of_prefix h (List.prefix_append root _)
  · exact .inl hm
  · rw [List.prefix_append_right_inj] at h
    cases m' with
    | nil => exact .inl (by simp)
    | cons name m' =>
      obtain ⟨rfl, hm'⟩ := List.cons_prefix_cons.mp h
      exact .inr ⟨m', rfl, hm'⟩

theorem Opened.root_directory {s : FileStorage} (h : Opened s) {m : Location}
    (hm : m <+: s.rootPath) : s.files.node m = some .directory := by
  have haccounts : s.files.node (s.rootPath ++ ["accounts"]) ≠ none := by
    rw [h.accounts]
    exact Option.some_ne_none _
  apply s.files.node_of_isPrefix haccounts (hm.trans (List.prefix_append _ _))
  rintro rfl
  have hlength := hm.length_le
  rw [List.length_append, List.length_singleton] at hlength
  omega

theorem Opened.nulFree_place {s : FileStorage} (h : Opened s) {l : Location} (hnul : NulFree l) :
    NulFree (s.rootPath ++ "namespaces" :: l) := by
  rw [nulFree_append]
  refine ⟨h.nulFree, ?_⟩
  intro name hname
  obtain rfl | hname := List.mem_cons.mp hname
  · decide
  · exact hnul name hname

/-- The tree with directories on the way to a location. -/
def mkdirs (l : Location) (tree : Location → Option (Node FileContent)) :
    Location → Option (Node FileContent) :=
  fun m => if m <+: l then some .directory else tree m

section
variable {s : FileStorage} (toError : IoError → StorageError)

theorem io_of_ok {α : Type} {x : FileSystem.Change FileContent α} {a : α}
    {files : FileSystem FileContent} (h : x s.files = .ok a files) :
    io toError x s = .ok a { s with files := files } := by
  rw [io, h]

theorem io_of_error {α : Type} {x : FileSystem.Change FileContent α} {e : IoError}
    {files : FileSystem FileContent} (h : x s.files = .error e files) :
    io toError x s = .error (.error (toError e)) { s with files := files } := by
  rw [io, h]

theorem io_createDirAll (h : Opened s) {l : Location} (hnul : NulFree l) :
    (∃ s', io toError (FileSystem.createDirAll (Path.names (s.rootPath ++ "namespaces" :: l))) s =
        .ok () s' ∧ (∀ m, m <+: l → ∀ content, s.data m ≠ some (.file content)) ∧
      Leaves s s' (mkdirs l s.data) s.transactions s.accountCache) ∨
    ∃ e, io toError (FileSystem.createDirAll (Path.names (s.rootPath ++ "namespaces" :: l))) s =
        .error (.error e) s ∧ ∃ m, m <+: l ∧ ∃ content, s.data m = some (.file content) := by
  obtain ⟨files, hok, hfree, hnode⟩ | ⟨e, herror, m, hm, content, hfile⟩ :=
    FileSystem.createDirAll_names (h.nulFree_place hnul) s.files
  · refine .inl ⟨_, io_of_ok toError hok, ?_, leaves_files ?_ ?_⟩
    · intro m hm content hfile
      exact hfree _ (namespaces_isPrefix.mpr hm) content hfile
    · intro m hm
      rw [hnode]
      dsimp only
      split
      · next hstarts =>
        obtain hroot | ⟨m', rfl, -⟩ := prefix_or_eq hstarts
        · exact (h.root_directory hroot).symm
        · exact absurd (namespaces_isPrefix.mpr (List.nil_prefix)) hm
      · rfl
    · intro m
      rw [hnode]
      dsimp only
      rw [mkdirs, if_congr namespaces_isPrefix rfl rfl]
      rfl
  · refine .inr ⟨_, io_of_error toError herror, ?_⟩
    obtain hroot | ⟨m', rfl, hm'⟩ := prefix_or_eq hm
    · rw [h.root_directory hroot] at hfile
      exact nomatch hfile
    · exact ⟨m', hm', content, hfile⟩

/-- The tree without what is at a location and below it. -/
def removed (l : Location) (tree : Location → Option (Node FileContent)) :
    Location → Option (Node FileContent) :=
  fun m => if l <+: m then none else tree m

theorem io_removeDirAll (h : Opened s) {l : Location} (hnul : NulFree l)
    (hdir : s.data l = some .directory) :
    ∃ s', io toError (FileSystem.removeDirAll (Path.names (s.rootPath ++ "namespaces" :: l))) s =
        .ok () s' ∧ Leaves s s' (removed l s.data) s.transactions s.accountCache := by
  obtain ⟨files, hok, hnode⟩ := FileSystem.removeDirAll_names (by simp) (h.nulFree_place hnul) hdir
  refine ⟨_, io_of_ok toError hok, leaves_files ?_ ?_⟩
  · intro m hm
    rw [hnode]
    apply if_neg
    intro hstarts
    exact hm ((namespaces_isPrefix.mpr List.nil_prefix).trans hstarts)
  · intro m
    rw [hnode]
    exact if_congr namespaces_isPrefix rfl rfl

theorem enter_names_data (h : Opened s) {l : Location} (hnul : NulFree l)
    (hdir : s.data l = some .directory) :
    s.files.enter (Path.names (s.rootPath ++ "namespaces" :: l)) =
      some (s.rootPath ++ "namespaces" :: l) := by
  rw [FileSystem.enter_names (h.nulFree_place hnul)]
  exact if_pos hdir

theorem io_write (h : Opened s) {l : Location} {name : String} (hnul : NulFree l)
    (hname : '\x00' ∉ name.toList) (content : FileContent) (hdir : s.data l = some .directory)
    (hfile : s.data (l ++ [name]) ≠ some .directory) :
    ∃ s', io toError (FileSystem.write
        (Path.names (s.rootPath ++ "namespaces" :: l) ++ [.name name]) content) s = .ok () s' ∧
      Leaves s s' (Function.update s.data (l ++ [name]) (some (.file content))) s.transactions
        s.accountCache := by
  obtain ⟨files, hok, hnode⟩ := FileSystem.writeWith_of_enter hname (fun _ => content)
    (enter_names_data h hnul hdir) (by simpa [data] using hfile)
  refine ⟨_, io_of_ok toError hok, leaves_files ?_ ?_⟩
  · intro m hm
    rw [hnode, Function.update_of_ne]
    rintro rfl
    apply hm
    rw [List.append_assoc, List.cons_append]
    exact namespaces_isPrefix.mpr List.nil_prefix
  · intro m
    rw [hnode]
    by_cases hm : m = l ++ [name]
    · subst hm
      simp
    · rw [Function.update_of_ne hm, Function.update_of_ne]
      · rfl
      · simpa using hm

end

/-! ## Reading -/

/-- With plain names the entries are those at the place of the key. -/
theorem entry_of_plain {s : FileStorage} {ns key : String} (h : Opened s) (hns : Path.IsPlain ns)
    (hkey : Path.IsPlain key) (name : String) :
    s.entry ns key name = s.data (place ns key ++ [name]) := by
  have hnode : s.data (place ns key ++ [name]) =
      s.files.node ((s.rootPath ++ "namespaces" :: place ns key) ++ [name]) := by
    simp [data]
  rw [entry, keyDirPath_of_plain hns hkey,
    FileSystem.enter_names (h.nulFree_place (nulFree_place hns hkey))]
  by_cases hdir : s.files.node (s.rootPath ++ "namespaces" :: place ns key) = some .directory
  · rw [if_pos hdir, hnode]
    rfl
  · rw [if_neg hdir]
    symm
    by_contra hne
    apply hdir
    apply data_of_isPrefix hne (List.prefix_append _ _)
    intro heq
    simpa using congrArg List.length heq

theorem stat_of_find {fs : FileSystem FileContent} {path : Path} {n : Node FileContent}
    (h : fs.find path = some n) : fs.stat path = .ok n := by
  unfold FileSystem.find at h
  cases hstat : fs.stat path with
  | ok m =>
    rw [hstat] at h
    exact congrArg _ (Option.some.inj h)
  | error e =>
    rw [hstat] at h
    exact nomatch h

section
variable [SerdeMetadata]

/-- What `readKeyMetadata` makes of the metadata file. -/
def metadataIn (ns key : String) : Option (Node FileContent) → Except StorageError KeyMetadata
  | none => .error (.notFound s!"{ns}:{key}")
  | some .directory => .error (mapIoError ns (some key) "reading metadata file" .isADirectory)
  | some (.file content) =>
    (SerdeMetadata.parse content).mapError (.serializationError "KeyMetadata")

/-- What `readVersionData` makes of a version file. -/
def versionIn (ns key : String) (version : Nat) :
    Option (Node FileContent) → Except StorageError ByteArray
  | none => .error (.notFound s!"{ns}:{key} (version {version})")
  | some .directory =>
    .error (mapIoError ns (some key) s!"reading version {version} data" .isADirectory)
  | some (.file content) => .ok (SerdeMetadata.bytes content)

theorem readKeyMetadata_eq (s : FileStorage) (ns key : String) :
    readKeyMetadata s ns key = metadataIn ns key (s.entry ns key "metadata.json") := by
  rw [readKeyMetadata, FileSystem.exists_, find_metadataPath]
  cases hentry : s.entry ns key "metadata.json" with
  | none => rfl
  | some n =>
    rw [← find_metadataPath] at hentry
    simp only [FileSystem.read, stat_of_find hentry]
    cases n <;> rfl

theorem readVersionData_eq (s : FileStorage) (ns key : String) (version : Nat) :
    readVersionData s ns key version =
      versionIn ns key version (s.entry ns key (versionName version)) := by
  rw [readVersionData, FileSystem.exists_, find_versionPath]
  cases hentry : s.entry ns key (versionName version) with
  | none => rfl
  | some n =>
    rw [← find_versionPath] at hentry
    simp only [FileSystem.read, stat_of_find hentry]
    cases n <;> rfl

end

/-! ## Audit logs -/

theorem nulFree_auditLogs {s : FileStorage} (h : Loggable s) :
    NulFree (s.rootPath ++ ["audit_logs"]) := by
  rw [nulFree_append]
  exact ⟨h.nulFree, nulFree_singleton.mpr (by decide)⟩

/-- A line is added to the log of the day, and nothing else is done to the files. -/
theorem recordAuditLog_writes {s : FileStorage} (h : Loggable s) (auth : AuthContext)
    (action ns : String) (key : Option String) (message : String) :
    ∃ files timestamp content, recordAuditLog auth action ns key message s =
        .ok () { s with files := files, reads := s.reads + 1 } ∧
      files.node = Function.update s.files.node (s.rootPath ++ ["audit_logs", logName timestamp])
        (some (.file content)) := by
  have hname : Path.IsName "audit_logs" := by decide
  have hdir : s.root.join "audit_logs" = Path.names (s.rootPath ++ ["audit_logs"]) := by
    rw [root, hname.join, Path.names_append, Path.names_singleton]
  have hexists : s.files.exists_ (Path.names (s.rootPath ++ ["audit_logs"])) = true := by
    rw [FileSystem.exists_, FileSystem.find_names _ (nulFree_auditLogs h), h.auditLogs]
    rfl
  have henter : s.files.enter (Path.names (s.rootPath ++ ["audit_logs"])) =
      some (s.rootPath ++ ["audit_logs"]) := by
    rw [FileSystem.enter_names (nulFree_auditLogs h), if_pos h.auditLogs]
  set time := (s.clock s.reads).val
  have hlog : (s.rootPath ++ ["audit_logs"]) ++ [logName time] =
      s.rootPath ++ ["audit_logs", logName time] := by simp
  obtain ⟨files, hwrite, hnode⟩ := FileSystem.writeWith_of_enter (isName_logName time).nul
    (FileContent.append ⟨time, auth.currentIdentityDid, action, ns, key, message⟩) henter
    (by rw [hlog]; exact h.logFiles time)
  rw [hlog] at hnode
  refine ⟨files, time, _, ?_, hnode⟩
  have hpath : (Path.names (s.rootPath ++ ["audit_logs"])).join (logName time) =
      Path.names (s.rootPath ++ ["audit_logs"]) ++ [Component.name (logName time)] :=
    (isName_logName time).join _
  have hdir' : ({ s with reads := s.reads + 1 } : FileStorage).root.join "audit_logs" = _ := hdir
  unfold recordAuditLog
  simp only [bind, EStateM.bind, now, StorageM.get_apply]
  rw [hdir', hexists, hpath]
  exact io_of_ok _ hwrite

theorem recordAuditLog_ok {s : FileStorage} (h : Loggable s) (auth : AuthContext)
    (action ns : String) (key : Option String) (message : String) :
    ∃ s', recordAuditLog auth action ns key message s = .ok () s' ∧ Logged s s' := by
  obtain ⟨files, time, content, hok, hnode⟩ := recordAuditLog_writes h auth action ns key message
  refine ⟨_, hok, ⟨rfl, rfl, fun _ => .rfl, ?_⟩, ?_, rfl, rfl⟩
  · intro l hl
    rw [hnode]
    by_cases heq : l = s.rootPath ++ ["audit_logs", logName time]
    · subst heq
      rw [Function.update_self]
      exact .log time rfl (h.logFiles time) (fun hdir => nomatch hdir)
    · rw [Function.update_of_ne heq]
      exact .same _
  · funext l
    show files.node _ = s.files.node _
    rw [hnode, Function.update_of_ne]
    intro heq
    exact absurd (List.cons.inj (List.append_cancel_left heq)).1 (by decide)

end FileStorage

end Covm
