import Covm.Storage.Calls

/-!
# The history of a key

`written` lists the successful sets of a key since it was created or last deleted. As long as
nothing is rolled back, the versions of the key are this list, numbered from one (up to the largest
`u64`), whoever made the sets.
-/

namespace Covm

open Maps Partial

/-- A successful set: who made it, and the value. -/
structure Write where
  user : String
  value : ByteArray
  deriving DecidableEq

/-- The number of the `n`-th version of a key; it saturates at the largest `u64`. -/
def versionNumber (n : Nat) : Nat := min n (2 ^ 64 - 1)

theorem saturatingAdd_versionNumber (n : Nat) :
    saturatingAdd (versionNumber n) 1 = versionNumber (n + 1) := by
  unfold saturatingAdd versionNumber
  omega

/-- The chain of versions that a list of sets leaves, the oldest set first. -/
inductive VersionInfo.Records : VersionInfo → List Write → Prop
  | first (w : Write) (time : Nat) : Records ⟨1, w.user, time, none⟩ [w]
  | next {v : VersionInfo} {ws : List Write} (h : Records v ws) (w : Write) (time : Nat) :
    Records ⟨versionNumber (ws.length + 1), w.user, time, some v⟩ (ws ++ [w])

namespace VersionInfo.Records

variable {v : VersionInfo} {ws : List Write}

theorem ne_nil (h : v.Records ws) : ws ≠ [] := by
  cases h with
  | first w time => exact List.cons_ne_nil w []
  | next h w time => exact List.concat_ne_nil w _

theorem length_pos (h : v.Records ws) : 1 ≤ ws.length := List.length_pos_iff.mpr h.ne_nil

theorem version_eq (h : v.Records ws) : v.version = versionNumber ws.length := by
  cases h with
  | first w time => rfl
  | next h w time => rw [List.length_append, List.length_singleton]

theorem new (w : Write) (now : Nat) : (VersionInfo.new now w.user).Records [w] := .first w now

theorem nextVersion (h : v.Records ws) (w : Write) (now : Nat) :
    (v.nextVersion now w.user).Records (ws ++ [w]) := by
  unfold VersionInfo.nextVersion
  rw [h.version_eq, saturatingAdd_versionNumber]
  exact .next h w now

theorem history_users (h : v.Records ws) :
    v.getVersionHistory.map (·.createdBy) = ws.map (·.user) := by
  induction h with
  | first w time => rfl
  | next h w time ih =>
    rw [getVersionHistory, List.map_append, List.map_append, ih]
    rfl

theorem length_history (h : v.Records ws) : v.getVersionHistory.length = ws.length := by
  have husers := congrArg List.length h.history_users
  rwa [List.length_map, List.length_map] at husers

theorem history_versions (h : v.Records ws) :
    v.getVersionHistory.map (·.version) = (List.range' 1 ws.length).map versionNumber := by
  induction h with
  | first w time => rfl
  | next h w time ih =>
    rw [getVersionHistory, List.map_append, ih, List.length_append, List.length_singleton,
      List.range'_concat, List.map_append, Nat.one_mul, Nat.add_comm 1]
    rfl

theorem history_entry (h : v.Records ws) {i : Nat} (hi : i < ws.length) :
    ∃ info, v.getVersionHistory[i]? = some info ∧ info.version = versionNumber (i + 1) := by
  have hlt : i < v.getVersionHistory.length := by rwa [h.length_history]
  refine ⟨_, List.getElem?_eq_getElem hlt, ?_⟩
  have hversions := congrArg (·[i]?) h.history_versions
  simpa [List.getElem?_eq_getElem hlt, hi, Nat.add_comm] using hversions

/-- The newest version is the last entry of its history. -/
theorem history_last (h : v.Records ws) : v.getVersionHistory[ws.length - 1]? = some v := by
  cases h with
  | first w time => rfl
  | next h w time =>
    rw [getVersionHistory, List.length_append, List.length_singleton, Nat.add_sub_cancel,
      ← h.length_history, List.getElem?_concat_length]

/-- The search for a version number finds the entry at its place. -/
theorem history_find (h : v.Records ws) {i : Nat} (hpos : 1 ≤ i) (hi : i < 2 ^ 64) :
    v.getVersionHistory.find? (·.version == i) = v.getVersionHistory[i - 1]? := by
  induction h with
  | first w time =>
    rw [getVersionHistory, List.find?_singleton, List.getElem?_singleton]
    by_cases hone : i = 1
    · rw [hone]
      rfl
    · rw [if_neg (by simpa using Ne.symm hone), if_neg (by omega)]
  | @next v ws h w time ih =>
    rw [getVersionHistory, List.find?_append, ih, List.find?_singleton, List.getElem?_append,
      h.length_history]
    by_cases hlt : i - 1 < ws.length
    · have hsome := List.getElem?_eq_getElem (h.length_history.symm ▸ hlt)
      rw [if_pos hlt, hsome, Option.some_or]
    · rw [if_neg hlt, List.getElem?_eq_none (by rw [h.length_history]; omega), Option.none_or,
        List.getElem?_singleton]
      congr 1
      unfold versionNumber
      simp only [beq_iff_eq, eq_iff_iff]
      omega

theorem findOlder_eq (h : v.Records ws) (hlt : ws.length < 2 ^ 64) (i : Nat) :
    v.findOlder i = if 1 ≤ i ∧ i < ws.length then v.getVersionHistory[i - 1]? else none := by
  induction h with
  | first w time =>
    rw [if_neg]
    · rfl
    · rw [List.length_singleton]
      omega
  | @next v ws h w time ih =>
    rw [List.length_append, List.length_singleton] at hlt ⊢
    rw [findOlder, h.version_eq, ih (by omega), getVersionHistory]
    have hnumber : versionNumber ws.length = ws.length := by
      unfold versionNumber
      omega
    rw [hnumber]
    by_cases hlast : ws.length = i
    · subst hlast
      have hinside : ws.length - 1 < v.getVersionHistory.length := by
        rw [h.length_history]
        exact Nat.sub_lt h.length_pos one_pos
      rw [if_pos rfl, if_pos ⟨h.length_pos, Nat.lt_succ_self _⟩,
        List.getElem?_append_left hinside, h.history_last]
    · rw [if_neg hlast]
      by_cases hi : 1 ≤ i ∧ i < ws.length
      · rw [if_pos hi, if_pos ⟨hi.1, by omega⟩,
          List.getElem?_append_left (by rw [h.length_history]; omega)]
      · rw [if_neg hi, if_neg (by omega)]

/-- `getVersion` finds exactly the versions there are. -/
theorem getVersion_eq (h : v.Records ws) (hlt : ws.length < 2 ^ 64) (i : Nat) :
    v.getVersion i = if 1 ≤ i then v.getVersionHistory[i - 1]? else none := by
  have hnumber : versionNumber ws.length = ws.length := by
    unfold versionNumber
    omega
  rw [getVersion, h.version_eq, hnumber, h.findOlder_eq hlt]
  by_cases hlast : i = ws.length
  · subst hlast
    rw [if_pos rfl, if_pos h.length_pos, h.history_last]
  · rw [if_neg hlast]
    by_cases hfuture : ws.length < i
    · rw [if_pos hfuture, if_pos (by omega),
        List.getElem?_eq_none (by rw [h.length_history]; omega)]
    · rw [if_neg hfuture]
      by_cases hone : 1 ≤ i
      · rw [if_pos ⟨hone, by omega⟩, if_pos hone]
      · rw [if_neg (by omega), if_neg hone]

end VersionInfo.Records

namespace InMemoryStorage

/-! ## Runs without rollback -/

def NoRollback : Call → Prop
  | .rollbackTransaction => False
  | _ => True

/-- What a call does to the list of the successful sets of a key. -/
def writtenAfter (ns key : String) : Call → InMemoryStorage → List Write → List Write
  | .set auth ns' key' value, s, ws =>
    if succeeded (set auth ns' key' value s) ∧ (ns', key') = (ns, key) then
      ws ++ [⟨EconomicOperations.userOf auth, value⟩]
    else ws
  | .delete auth ns' key', s, ws =>
    if succeeded (delete auth ns' key' s) ∧ (ns', key') = (ns, key) then [] else ws
  | _, _, ws => ws

section writtenAfter
variable (ns key : String) (auth : Option AuthContext) (ns' key' : String)
  (s : InMemoryStorage) (ws : List Write)

theorem writtenAfter_set (value : ByteArray) :
    writtenAfter ns key (.set auth ns' key' value) s ws =
      if succeeded (set auth ns' key' value s) ∧ (ns', key') = (ns, key) then
        ws ++ [⟨EconomicOperations.userOf auth, value⟩]
      else ws := rfl

theorem writtenAfter_delete :
    writtenAfter ns key (.delete auth ns' key') s ws =
      if succeeded (delete auth ns' key' s) ∧ (ns', key') = (ns, key) then [] else ws := rfl

end writtenAfter

/-- The successful sets of a key in a run, the oldest first, since the key was last deleted; `ws`
are those before the run. -/
def written (ns key : String) : List Call → InMemoryStorage → List Write → List Write
  | [], _, ws => ws
  | c :: calls, s, ws => written ns key calls (c.after s) (writtenAfter ns key c s ws)

/-- The storage shows for a key what the list of its sets says. -/
structure Tracks (ns key : String) (ws : List Write) (s : InMemoryStorage) : Prop where
  value : s.data.get (ns, key) = ws.getLast?.map (·.value)
  version : (s.versions.get (ns, key)).elim (ws = []) (·.Records ws)

theorem Tracks.congr {ns key : String} {ws : List Write} {s s' : InMemoryStorage}
    (h : Tracks ns key ws s) (hdata : s'.data.get (ns, key) = s.data.get (ns, key))
    (hversions : s'.versions.get (ns, key) = s.versions.get (ns, key)) : Tracks ns key ws s' where
  value := hdata.trans h.value
  version := by
    rw [hversions]
    exact h.version

theorem writeVersion_newest (s : InMemoryStorage) (user ns key : String) :
    ∃ now, (s.writeVersion user ns key).versions.get (ns, key) =
      some ((s.versions.get (ns, key)).elim (VersionInfo.new now user)
        (·.nextVersion now user)) := by
  refine ⟨s.clock s.reads, ?_⟩
  unfold writeVersion
  cases hv : s.versions.get (ns, key) with
  | none =>
    dsimp only
    rw [Table.get_put, Function.update_self, Option.elim_none]
  | some v =>
    dsimp only
    rw [Table.get_put, Function.update_self, Option.elim_some]

/-- The version a successful `set` writes. -/
theorem set_newest {a : AuthContext} {ns key : String} {value : ByteArray}
    {s s' : InMemoryStorage} (h : set (some a) ns key value s = .ok () s') :
    ∃ now, s'.versions.get (ns, key) =
      some ((s.versions.get (ns, key)).elim (VersionInfo.new now a.currentIdentityDid)
        (·.nextVersion now a.currentIdentityDid)) := by
  obtain ⟨e, -, hdenied⟩ | ⟨_, heq, -, hquery⟩ := query_permission (some a) "write" ns s
  · unfold set at h
    simp only [bind, EStateM.bind, hdenied] at h
    simp at h
  cases heq
  set r := s.recordForRollback ns key (s.data.get (ns, key)) with hr
  obtain ⟨e, hcharge⟩ | ⟨s₁, hcharge, -, -, hversions, -⟩ :=
    chargeDifference_cases a.currentIdentityDid (makeInternalKey ns key) (s.storedBytes ns key)
      value.size r
  · unfold set at h
    unfold storedBytes at hcharge
    simp only [bind, EStateM.bind, hquery, StorageM.get_apply, StorageM.modify_apply, ← hr,
      hcharge] at h
    simp at h
  · unfold set at h
    unfold storedBytes at hcharge
    simp only [bind, EStateM.bind, hquery, StorageM.get_apply, StorageM.modify_apply, ← hr,
      hcharge] at h
    cases h
    have hold : s₁.versions.get (ns, key) = s.versions.get (ns, key) := by
      rw [hversions, hr, recordForRollback_versions]
    rw [emitEvent_versions, ← hold]
    exact writeVersion_newest (writeData ns key value s₁) a.currentIdentityDid ns key

theorem Tracks.stored {ns key : String} {ws : List Write} {s s' : InMemoryStorage}
    {a : AuthContext} {value : ByteArray} (h : Tracks ns key ws s)
    (hok : set (some a) ns key value s = .ok () s') (hs' : Stored a ns key value s s') :
    Tracks ns key (ws ++ [⟨a.currentIdentityDid, value⟩]) s' where
  value := by
    rw [hs'.data, Function.update_self, List.getLast?_concat]
    rfl
  version := by
    obtain ⟨now, hnewest⟩ := set_newest hok
    have hold := h.version
    rw [hnewest, Option.elim_some]
    cases hv : s.versions.get (ns, key) with
    | none =>
      rw [hv] at hold
      obtain rfl : ws = [] := hold
      exact .new ⟨a.currentIdentityDid, value⟩ now
    | some v =>
      rw [hv] at hold
      exact hold.nextVersion ⟨a.currentIdentityDid, value⟩ now

/-- What a call does to a key other than its own. -/
theorem Tracks.frame {ns key : String} {ws : List Write} {s s' : InMemoryStorage}
    (h : Tracks ns key ws s) {p : String × String} (hp : p ≠ (ns, key)) {value : Option ByteArray}
    {version : Option VersionInfo} (hdata : s'.data.get = Function.update s.data.get p value)
    (hversions : s'.versions.get = Function.update s.versions.get p version) :
    Tracks ns key ws s' := by
  apply h.congr
  · rw [hdata, Function.update_of_ne hp.symm]
  · rw [hversions, Function.update_of_ne hp.symm]

theorem Tracks.versions_eq_none {ns key : String} {ws : List Write} {s : InMemoryStorage}
    (h : Tracks ns key ws s) (hdata : s.data.get (ns, key) = none) :
    s.versions.get (ns, key) = none := by
  have hempty : ws = [] := by simpa [hdata] using h.value
  have hversion := h.version
  cases hv : s.versions.get (ns, key) with
  | none => rfl
  | some v =>
    rw [hv, hempty] at hversion
    exact absurd rfl (VersionInfo.Records.ne_nil hversion)

/-- A new namespace is empty, and so was whatever it replaces. -/
theorem Tracks.newRow {ns key : String} {ws : List Write} {s s' : InMemoryStorage} {row : String}
    (h : Tracks ns key ws s) (fresh : row ∉ s.data) (data : s'.data = s.data.insert row ∅)
    (versions : s'.versions = s.versions.insert row ∅) : Tracks ns key ws s' := by
  by_cases hrow : ns = row
  · subst hrow
    have hnone := Table.get_of_notMem fresh key
    apply h.congr
    · rw [hnone, data, Table.get, Finmap.lookup_insert]
      rfl
    · rw [h.versions_eq_none hnone, versions, Table.get, Finmap.lookup_insert]
      rfl
  · apply h.congr
    · rw [data, Table.get, Finmap.lookup_insert_of_ne _ hrow]
      rfl
    · rw [versions, Table.get, Finmap.lookup_insert_of_ne _ hrow]
      rfl

theorem Tracks.step {ns key : String} {ws : List Write} {s : InMemoryStorage}
    (h : Tracks ns key ws s) {c : Call} (hc : NoRollback c) :
    Tracks ns key (writtenAfter ns key c s ws) (c.after s) := by
  have heffect := c.effect s
  cases c with
  | set auth ns' key' value =>
    rw [writtenAfter_set, Call.after_set]
    obtain ⟨e, -, he⟩ | ⟨e, -, he⟩ | ⟨a, s', rfl, hok, hs'⟩ := set_cases auth ns' key' value s
    · rw [he, if_neg (by simp)]
      exact h
    · rw [he, if_neg (by simp)]
      exact h.congr (by rw [final_error, recordForRollback_data])
        (by rw [final_error, recordForRollback_versions])
    · rw [hok]
      by_cases hp : (ns', key') = (ns, key)
      · rw [if_pos ⟨rfl, hp⟩]
        cases hp
        exact h.stored hok hs'
      · rw [if_neg (fun hand => hp hand.2)]
        obtain ⟨v, hv⟩ := hs'.versions
        exact h.frame hp hs'.data hv
  | delete auth ns' key' =>
    rw [writtenAfter_delete, Call.after_delete]
    obtain ⟨e, -, he⟩ | ⟨a, s', rfl, hok, hs'⟩ := delete_cases auth ns' key' s
    · rw [he, if_neg (by simp)]
      exact h
    · rw [hok]
      by_cases hp : (ns', key') = (ns, key)
      · rw [if_pos ⟨rfl, hp⟩]
        cases hp
        refine ⟨?_, ?_⟩
        · rw [final_ok, hs'.data, Function.update_self]
          rfl
        · rw [final_ok, hs'.versions, Function.update_self]
          rfl
      · rw [if_neg (fun hand => hp hand.2)]
        exact h.frame hp hs'.data hs'.versions
  | createAccount auth userId quota =>
    generalize Call.after _ s = s' at heffect
    cases heffect with
    | unchanged => exact h
    | accountCreated _ _ _ account fresh accounts unused data versions =>
      exact h.congr (by rw [data]) (by rw [versions])
  | createNamespace auth ns' quota parent =>
    generalize Call.after _ s = s' at heffect
    cases heffect with
    | unchanged => exact h
    | namespaceCreated _ _ _ _ fresh data versions => exact h.newRow fresh data versions
  | beginTransaction => exact h.congr rfl rfl
  | commitTransaction =>
    generalize Call.after _ s = s' at heffect
    cases heffect with
    | unchanged => exact h
    | committed => exact h.congr rfl rfl
  | rollbackTransaction => exact absurd hc not_false

theorem tracks_written {ns key : String} {calls : List Call} {ws : List Write}
    {s : InMemoryStorage} (hno : ∀ c ∈ calls, NoRollback c) (h : Tracks ns key ws s) :
    Tracks ns key (written ns key calls s ws) (afterAll calls s) := by
  induction calls generalizing s ws with
  | nil => exact h
  | cons c calls ih =>
    exact ih (fun d hd => hno d (List.mem_cons_of_mem c hd)) (h.step (hno c List.mem_cons_self))

theorem tracks_new (ns key : String) (clock : Nat → Nat) : Tracks ns key [] (new clock) :=
  ⟨rfl, rfl⟩

/-! ## What the readers return -/

section readers
variable {ns key : String} {ws : List Write} {s : InMemoryStorage} {auth : Option AuthContext}

theorem Tracks.current (h : Tracks ns key ws s) (hne : ws ≠ []) :
    s.data.get (ns, key) = some (ws.getLast hne).value ∧
      ∃ info, s.versions.get (ns, key) = some info ∧ info.Records ws := by
  have hversion := h.version
  refine ⟨?_, ?_⟩
  · rw [h.value, List.getLast?_eq_some_getLast hne]
    rfl
  · cases hv : s.versions.get (ns, key) with
    | none =>
      rw [hv] at hversion
      exact absurd hversion hne
    | some info =>
      rw [hv] at hversion
      exact ⟨info, rfl, hversion⟩

theorem Tracks.getVersioned (h : Tracks ns key ws s) (hne : ws ≠ [])
    (hauth : checkPermission auth "read" ns = .ok ()) :
    ∃ info, s.getVersioned auth ns key = .ok ((ws.getLast hne).value, info) ∧
      s.listVersions auth ns key = .ok info.getVersionHistory ∧ info.Records ws := by
  obtain ⟨hdata, info, hversion, hrecords⟩ := h.current hne
  refine ⟨info, ?_, ?_, hrecords⟩
  · simp only [InMemoryStorage.getVersioned, hauth, bind, Except.bind, hdata, hversion]
  · simp only [InMemoryStorage.listVersions, hauth, bind, Except.bind, hversion]

end readers

/-- In a run without rollback the versions of a key that was set `n` times since it was created or
last deleted are `1, …, n`, each with the user of its set, and the newest value is the last one. -/
theorem version_chain (clock : Nat → Nat) (calls : List Call) (hno : ∀ c ∈ calls, NoRollback c)
    (ns key : String) (hne : written ns key calls (new clock) [] ≠ [])
    (hlt : (written ns key calls (new clock) []).length < 2 ^ 64) {auth : Option AuthContext}
    (hauth : checkPermission auth "read" ns = .ok ()) :
    ∃ info versions,
      (afterAll calls (new clock)).getVersioned auth ns key =
        .ok (((written ns key calls (new clock) []).getLast hne).value, info) ∧
      info.version = (written ns key calls (new clock) []).length ∧
      (afterAll calls (new clock)).listVersions auth ns key = .ok versions ∧
      versions.map (·.version) =
        List.range' 1 (written ns key calls (new clock) []).length ∧
      versions.map (·.createdBy) = (written ns key calls (new clock) []).map (·.user) ∧
      ∀ i, info.getVersion i = if 1 ≤ i then versions[i - 1]? else none := by
  have htracks := tracks_written hno (tracks_new ns key clock)
  obtain ⟨info, hget, hlist, hrecords⟩ := htracks.getVersioned hne hauth
  refine ⟨info, info.getVersionHistory, hget, ?_, hlist, ?_, hrecords.history_users,
    hrecords.getVersion_eq hlt⟩
  · rw [hrecords.version_eq]
    exact min_eq_left (by omega)
  · rw [hrecords.history_versions]
    refine (List.map_congr_left fun i hi => ?_).trans (List.map_id _)
    have hle := (List.mem_range'_1.mp hi).2
    exact min_eq_left (by omega)

/-- Two users write to a key, which is deleted in between. -/
def rewriteKey : List Call :=
  [.createAccount (some admin) "admin" 1000, .set (some admin) "ns" "k" "a".toUTF8,
    .delete (some admin) "ns" "k", .set (some admin) "ns" "k" "b".toUTF8,
    .set (some admin) "ns" "k" "Revised draft".toUTF8]

theorem version_chain_rewriteKey : ∃ info versions,
    (afterAll rewriteKey (new fun _ => 0)).getVersioned (some admin) "ns" "k" =
      .ok ("Revised draft".toUTF8, info) ∧ info.version = 2 ∧
    (afterAll rewriteKey (new fun _ => 0)).listVersions (some admin) "ns" "k" = .ok versions ∧
    versions.map (·.version) = [1, 2] ∧ versions.map (·.createdBy) = ["admin", "admin"] ∧
    ∀ i, info.getVersion i = if 1 ≤ i then versions[i - 1]? else none := by
  have hwritten : written "ns" "k" rewriteKey (new fun _ => 0) [] =
      [⟨"admin", "b".toUTF8⟩, ⟨"admin", "Revised draft".toUTF8⟩] := by decide
  have hchain := version_chain (fun _ => 0) rewriteKey (by simp [rewriteKey, NoRollback]) "ns" "k"
    (by rw [hwritten]; exact List.cons_ne_nil _ _) (by rw [hwritten]; decide)
    (admin_permitted _ _)
  simp only [hwritten] at hchain
  exact hchain

/-! ## Historical reads -/

/-- What `get_version` returns for a version: the texts of the tests, or the newest value. -/
def recalled (version : Nat) (newest : ByteArray) : ByteArray :=
  match version with
  | 1 => "Initial draft".toUTF8
  | 2 => "Revised draft".toUTF8
  | 3 => "Final version".toUTF8
  | _ => newest

theorem Tracks.getVersion {ns key : String} {ws : List Write} {s : InMemoryStorage}
    {auth : Option AuthContext} (h : Tracks ns key ws s) (hne : ws ≠ [])
    (hauth : checkPermission auth "read" ns = .ok ()) {i : Nat} (hpos : 1 ≤ i)
    (hle : i ≤ ws.length) (hi : i < 2 ^ 64) :
    ∃ info, s.getVersion auth ns key i = .ok (recalled i (ws.getLast hne).value, info) ∧
      info.version = i := by
  obtain ⟨hdata, info, hversion, hrecords⟩ := h.current hne
  obtain ⟨target, htarget, hnumber⟩ := hrecords.history_entry (i := i - 1) (by omega)
  refine ⟨target, ?_, ?_⟩
  · simp only [InMemoryStorage.getVersion, hauth, bind, Except.bind, hversion, hdata,
      hrecords.history_find hpos hi, htarget]
    -- the three fixed texts, and the newest value
    rcases i with _ | _ | _ | _ | i <;> rfl
  · rw [hnumber, Nat.sub_add_cancel hpos]
    exact min_eq_left (by omega)

theorem eq_recalled_iff {i : Nat} (hpos : 1 ≤ i) (value newest : ByteArray) :
    value = recalled i newest ↔
      (i = 1 → value = "Initial draft".toUTF8) ∧ (i = 2 → value = "Revised draft".toUTF8) ∧
      (i = 3 → value = "Final version".toUTF8) ∧ (4 ≤ i → value = newest) := by
  rcases i with _ | _ | _ | _ | i
  · omega
  · simp [recalled]
  · simp [recalled]
  · simp [recalled]
  · have hfour : 4 ≤ i + 1 + 1 + 1 + 1 := by omega
    simp [recalled, hfour]

/-- `get_version` returns the `i`-th value that was set, if it is one of the texts of the tests, or,
from the fourth version on, if it is also the newest value; otherwise it does not. -/
theorem getVersion_iff (clock : Nat → Nat) (calls : List Call) (hno : ∀ c ∈ calls, NoRollback c)
    (ns key : String) {ws : List Write} (hws : written ns key calls (new clock) [] = ws) {i : Nat}
    (hpos : 1 ≤ i) (hle : i ≤ ws.length) (hi : i < 2 ^ 64) {auth : Option AuthContext}
    (hauth : checkPermission auth "read" ns = .ok ()) :
    (∃ info, (afterAll calls (new clock)).getVersion auth ns key i = .ok (ws[i - 1].value, info) ∧
      info.version = i) ↔
    (i = 1 → ws[i - 1].value = "Initial draft".toUTF8) ∧
      (i = 2 → ws[i - 1].value = "Revised draft".toUTF8) ∧
      (i = 3 → ws[i - 1].value = "Final version".toUTF8) ∧
      (4 ≤ i → ws[i - 1].value = ws[ws.length - 1].value) := by
  have htracks := tracks_written hno (tracks_new ns key clock)
  rw [hws] at htracks
  have hne : ws ≠ [] := List.length_pos_iff.mp (by omega)
  obtain ⟨info, hget, hversion⟩ := htracks.getVersion hne hauth hpos hle hi
  rw [List.getLast_eq_getElem] at hget
  rw [← eq_recalled_iff hpos, hget]
  constructor
  · rintro ⟨_, heq, -⟩
    exact (Prod.ext_iff.mp (Except.ok.inj heq)).1.symm
  · intro heq
    exact ⟨info, by rw [heq], hversion⟩

theorem getVersion_rewriteKey :
    (∃ info, (afterAll rewriteKey (new fun _ => 0)).getVersion (some admin) "ns" "k" 2 =
      .ok ("Revised draft".toUTF8, info) ∧ info.version = 2) ↔
    (2 = 1 → "Revised draft".toUTF8 = "Initial draft".toUTF8) ∧
      (2 = 2 → "Revised draft".toUTF8 = "Revised draft".toUTF8) ∧
      (2 = 3 → "Revised draft".toUTF8 = "Final version".toUTF8) ∧
      (4 ≤ 2 → "Revised draft".toUTF8 = "Revised draft".toUTF8) :=
  getVersion_iff (fun _ => 0) rewriteKey (by simp [rewriteKey, NoRollback]) "ns" "k"
    (show written "ns" "k" rewriteKey (new fun _ => 0) [] =
      [⟨"admin", "b".toUTF8⟩, ⟨"admin", "Revised draft".toUTF8⟩] by decide)
    (by decide) (by decide) (by decide) (by decide)

/-- A key that was set once does not read back at version 1. -/
theorem not_getVersion :
    ¬ ∀ (clock : Nat → Nat) (calls : List Call) (ns key : String) (auth : Option AuthContext)
      (i : Nat) (write : Write), (∀ c ∈ calls, NoRollback c) →
      checkPermission auth "read" ns = .ok () → 1 ≤ i → i < 2 ^ 64 →
      (written ns key calls (new clock) [])[i - 1]? = some write →
      ∃ info, (afterAll calls (new clock)).getVersion auth ns key i = .ok (write.value, info) ∧
        info.version = i := by
  intro h
  obtain ⟨info, hget, -⟩ := h (fun _ => 0)
    [.createAccount (some admin) "admin" 1000, .set (some admin) "ns" "k" "v".toUTF8] "ns" "k"
    (some admin) 1 ⟨"admin", "v".toUTF8⟩ (by simp [NoRollback]) (by decide) (by decide)
    (by decide) (by decide)
  have hfixed : ((afterAll [.createAccount (some admin) "admin" 1000,
      .set (some admin) "ns" "k" "v".toUTF8] (new fun _ => 0)).getVersion (some admin) "ns" "k"
        1).toOption.map Prod.fst ≠ some "v".toUTF8 := by decide
  rw [hget] at hfixed
  exact hfixed rfl

end InMemoryStorage

end Covm
