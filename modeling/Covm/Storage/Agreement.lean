import Covm.Storage.FileFrames
import Covm.Storage.FileListing
import Covm.Storage.Room

/-!
# The two backends side by side

Both backends keep, for every flat key, the sets that were made since it was created or last
deleted, and answer from these (`Request.reply`). The in-memory backend always does; the file
backend does unless a call reads the metadata of a key that was set 126 times.
-/

namespace Covm

open Files Maps Partial

/-! ## Requests -/

/-- A call about one key, or about all keys of a namespace. -/
inductive Request where
  | set (ns key : String) (value : ByteArray)
  | delete (ns key : String)
  | get (ns key : String)
  | contains (ns key : String)
  | getVersioned (ns key : String)
  | listVersions (ns key : String)
  | listKeys (ns : String) (start : Option String)

/-- What a call returns: of a version, its number. -/
inductive Reply where
  | done
  | bytes (value : ByteArray)
  | flag (b : Bool)
  | versioned (value : ByteArray) (version : Nat)
  | versions (numbers : List Nat)
  | keys (keys : Set String)

/-- The successful sets of every key, the oldest first, since the key was created or last
deleted. -/
abbrev Writes := String × String → List Write

namespace Request

def inMemory (auth : Option AuthContext) : Request → StorageM InMemoryStorage Reply
  | set ns key value => (fun _ => .done) <$> InMemoryStorage.set auth ns key value
  | delete ns key => (fun _ => .done) <$> InMemoryStorage.delete auth ns key
  | get ns key => StorageM.query fun s => .bytes <$> s.get auth ns key
  | contains ns key => StorageM.query fun s => .flag <$> s.contains auth ns key
  | getVersioned ns key => StorageM.query fun s =>
    (fun found => .versioned found.1 found.2.version) <$> s.getVersioned auth ns key
  | listVersions ns key => StorageM.query fun s =>
    (fun versions => .versions (versions.map (·.version))) <$> s.listVersions auth ns key
  | listKeys ns start => StorageM.query fun s =>
    (fun keys => .keys {key | key ∈ keys}) <$> s.listKeys auth ns start

def inFiles [SerdeMetadata] (auth : Option AuthContext) : Request → StorageM FileStorage Reply
  | set ns key value => (fun _ => .done) <$> FileStorage.set auth ns key value
  | delete ns key => (fun _ => .done) <$> FileStorage.delete auth ns key
  | get ns key => .bytes <$> FileStorage.get auth ns key
  | contains ns key => StorageM.query fun s => .flag <$> s.contains auth ns key
  | getVersioned ns key =>
    (fun found => .versioned found.1 found.2.version) <$> FileStorage.getVersioned auth ns key
  | listVersions ns key =>
    (fun versions => .versions (versions.map (·.version))) <$> FileStorage.listVersions auth ns key
  | listKeys ns start =>
    (fun keys => .keys {key | key ∈ keys}) <$> FileStorage.listKeys auth ns start

/-- What a call returns where the sets of every key are known, if it succeeds. -/
def reply (w : Writes) : Request → Option Reply
  | set _ _ _ => some .done
  | delete ns key => (w (ns, key)).getLast?.map fun _ => .done
  | get ns key => (w (ns, key)).getLast?.map fun write => .bytes write.value
  | contains ns key => some (.flag !(w (ns, key)).isEmpty)
  | getVersioned ns key => (w (ns, key)).getLast?.map fun write =>
    .versioned write.value (versionNumber (w (ns, key)).length)
  | listVersions ns key => (w (ns, key)).getLast?.map fun _ =>
    .versions ((List.range' 1 (w (ns, key)).length).map versionNumber)
  | listKeys ns start => some (.keys {key | w (ns, key) ≠ [] ∧
    (start.all fun text => text.toList <+: key.toList) = true})

/-- The sets of every key after a call of a user. -/
def writes (user : String) : Request → Writes → Writes
  | set ns key value, w => Function.update w (ns, key) (w (ns, key) ++ [⟨user, value⟩])
  | delete ns key, w => Function.update w (ns, key) []
  | _, w => w

/-- Keys with one component, of some namespaces. -/
def On (N : Set String) : Request → Prop
  | set ns key _ => ns ∈ N ∧ Path.IsName key
  | delete ns key => ns ∈ N ∧ Path.IsName key
  | get ns key => ns ∈ N ∧ Path.IsName key
  | contains ns key => ns ∈ N ∧ Path.IsName key
  | getVersioned ns key => ns ∈ N ∧ Path.IsName key
  | listVersions ns key => ns ∈ N ∧ Path.IsName key
  | listKeys ns _ => ns ∈ N

/-- No call reads the metadata of a key that was set more than 125 times. -/
def Shallow : Request → Writes → Prop
  | set ns key _, w => (w (ns, key)).length ≤ 125
  | delete ns key, w => (w (ns, key)).length ≤ 125
  | get ns key, w => (w (ns, key)).length ≤ 125
  | getVersioned ns key, w => (w (ns, key)).length ≤ 125
  | listVersions ns key, w => (w (ns, key)).length ≤ 125
  | contains _ _, _ => True
  | listKeys _ _, _ => True

/-- Where a key was set, every call is answered. -/
theorem reply_ne_none {w : Writes} {r : Request} (h : ¬ r.Shallow w) : r.reply w ≠ none := by
  have hlast : ∀ {ns key}, ¬ (w (ns, key)).length ≤ 125 → (w (ns, key)).getLast? ≠ none := by
    intro ns key hlength hnone
    rw [List.getLast?_eq_none_iff.mp hnone] at hlength
    exact hlength (Nat.zero_le _)
  cases r with
  | set ns key value => exact Option.some_ne_none _
  | delete ns key => exact mt Option.map_eq_none_iff.mp (hlast h)
  | get ns key => exact mt Option.map_eq_none_iff.mp (hlast h)
  | contains ns key => exact absurd trivial h
  | getVersioned ns key => exact mt Option.map_eq_none_iff.mp (hlast h)
  | listVersions ns key => exact mt Option.map_eq_none_iff.mp (hlast h)
  | listKeys ns start => exact absurd trivial h

end Request

/-- What a call returns, if it succeeds. -/
def outcome {S α : Type} (r : EStateM.Result StorageFault S α) : Option α := (answer r).toOption

section outcome
variable {S α β : Type} (f : α → β) (x : StorageM S α) (s : S)

theorem outcome_map : outcome ((f <$> x) s) = (outcome (x s)).map f := by
  rw [outcome, outcome, answer_map]
  cases answer (x s) <;> rfl

theorem outcome_query (q : S → Except StorageError α) :
    outcome (StorageM.query q s) = (q s).toOption := by
  unfold StorageM.query
  cases q s <;> rfl

theorem final_query (q : S → Except StorageError α) : final (StorageM.query q s) = s := by
  unfold StorageM.query
  cases q s <;> rfl

theorem toOption_map (y : Except StorageError α) : (f <$> y).toOption = y.toOption.map f := by
  cases y <;> rfl

theorem outcome_unit (r : EStateM.Result StorageFault S Unit) :
    outcome r = if succeeded r then some () else none := by
  cases r <;> rfl

end outcome

/-! ## The in-memory backend -/

namespace InMemoryStorage

/-- The storage shows the sets of the keys of some namespaces. -/
def Holds (N : Set String) (w : Writes) (s : InMemoryStorage) : Prop :=
  ∀ ns ∈ N, ∀ key, Tracks ns key (w (ns, key)) s

/-- A `set` does not exceed the quota of the user. -/
def HasRoom (user : String) : Request → InMemoryStorage → Prop
  | .set ns key value, s => s.storedBytes ns key < value.size →
    ∃ account, s.accounts.lookup user = some account ∧
      account.canStore (value.size - s.storedBytes ns key) = true
  | _, _ => True

/-- A permitted `set` within the quota succeeds. -/
theorem set_ok {s : InMemoryStorage} {a : AuthContext} {ns key : String} {value : ByteArray}
    (hauth : checkPermission (some a) "write" ns = .ok ())
    (hroom : HasRoom a.currentIdentityDid (.set ns key value) s) :
    succeeded (set (some a) ns key value s) = true := by
  obtain ⟨s', hset⟩ := set_ok_iff.mpr ⟨a, rfl, hauth, hroom⟩
  rw [hset, succeeded_ok]

theorem delete_succeeded (s : InMemoryStorage) {a : AuthContext} {ns : String} (key : String)
    (hauth : checkPermission (some a) "write" ns = .ok ()) :
    succeeded (delete (some a) ns key s) = (s.data.get (ns, key)).isSome := by
  obtain ⟨e, hnone, he⟩ | ⟨_, s', -, hok, hs'⟩ := delete_cases (some a) ns key s
  · rw [he, hnone hauth]
    rfl
  · rw [hok, Option.isSome_iff_ne_none.mpr hs'.present]
    rfl

section
variable {N : Set String} {w : Writes} {s : InMemoryStorage} {a : AuthContext}

theorem Holds.set (h : Holds N w s) {ns key : String} {value : ByteArray}
    (hok : succeeded (InMemoryStorage.set (some a) ns key value s) = true) :
    Holds N (Function.update w (ns, key) (w (ns, key) ++ [⟨a.currentIdentityDid, value⟩]))
      (final (InMemoryStorage.set (some a) ns key value s)) := by
  intro ns' hns' key'
  have hstep := (h ns' hns' key').step (c := .set (some a) ns key value) trivial
  rw [writtenAfter_set, Call.after_set, hok] at hstep
  by_cases heq : (ns, key) = (ns', key')
  · obtain ⟨rfl, rfl⟩ := Prod.mk.inj heq
    rw [if_pos ⟨rfl, rfl⟩] at hstep
    rwa [Function.update_self]
  · rw [if_neg fun hand => heq hand.2] at hstep
    rwa [Function.update_of_ne (Ne.symm heq)]

theorem Holds.delete (h : Holds N w s) {ns key : String}
    (hempty : succeeded (InMemoryStorage.delete (some a) ns key s) = false → w (ns, key) = []) :
    Holds N (Function.update w (ns, key) [])
      (final (InMemoryStorage.delete (some a) ns key s)) := by
  intro ns' hns' key'
  have hstep := (h ns' hns' key').step (c := .delete (some a) ns key) trivial
  rw [writtenAfter_delete, Call.after_delete] at hstep
  by_cases heq : (ns, key) = (ns', key')
  · obtain ⟨rfl, rfl⟩ := Prod.mk.inj heq
    rw [Function.update_self]
    by_cases hok : succeeded (InMemoryStorage.delete (some a) ns key s) = true
    · rwa [if_pos ⟨hok, rfl⟩] at hstep
    · rw [if_neg fun hand => hok hand.1, hempty (by simpa using hok)] at hstep
      exact hstep
  · rw [if_neg fun hand => heq hand.2] at hstep
    rwa [Function.update_of_ne (Ne.symm heq)]

end

/-- The newest value and version of a key, if it was set. -/
theorem Tracks.toOption_getVersioned {ns key : String} {ws : List Write} {s : InMemoryStorage}
    {auth : Option AuthContext} (h : Tracks ns key ws s)
    (hauth : checkPermission auth "read" ns = .ok ()) :
    (s.getVersioned auth ns key).toOption.map (fun found => (found.1, found.2.version)) =
        ws.getLast?.map (fun write => (write.value, versionNumber ws.length)) ∧
      (s.listVersions auth ns key).toOption.map (fun versions => versions.map (·.version)) =
        ws.getLast?.map (fun _ => (List.range' 1 ws.length).map versionNumber) := by
  by_cases hne : ws = []
  · subst hne
    have hdata := h.value
    have hversions := h.versions_eq_none hdata
    simp only [InMemoryStorage.getVersioned, InMemoryStorage.listVersions, hauth, bind, Except.bind,
      hversions, show s.data.get (ns, key) = none from hdata]
    exact ⟨rfl, rfl⟩
  · obtain ⟨info, hget, hlist, hrecords⟩ := h.getVersioned hne hauth
    rw [hget, hlist, List.getLast?_eq_some_getLast hne]
    simp only [Except.toOption, Option.map_some]
    exact ⟨by rw [hrecords.version_eq], by rw [hrecords.history_versions]⟩

theorem permitted_of_admin {a : AuthContext} (hadmin : a.hasRole "global" "admin" = true)
    (action ns : String) : checkPermission (some a) action ns = .ok () := by
  rw [checkPermission, if_pos hadmin]

/-- Every call answers from the sets of its keys, and keeps them. -/
theorem Holds.request {N : Set String} {w : Writes} {s : InMemoryStorage} {a : AuthContext}
    (h : Holds N w s) (hadmin : a.hasRole "global" "admin" = true) {r : Request} (hr : r.On N)
    (hroom : HasRoom a.currentIdentityDid r s) :
    outcome (r.inMemory (some a) s) = r.reply w ∧
      Holds N (r.writes a.currentIdentityDid w) (final (r.inMemory (some a) s)) := by
  have hread := permitted_of_admin hadmin "read"
  have hwrite := permitted_of_admin hadmin "write"
  cases r with
  | set ns key value =>
    have hok := set_ok (hwrite ns) hroom
    rw [Request.inMemory, outcome_map, outcome_unit, hok, final_map]
    exact ⟨rfl, h.set hok⟩
  | delete ns key =>
    have hvalue := (h ns hr.1 key).value
    have hsome := delete_succeeded s key (hwrite ns)
    rw [hvalue, Option.isSome_map] at hsome
    rw [Request.inMemory, outcome_map, outcome_unit, final_map]
    refine ⟨?_, h.delete fun hfails => ?_⟩
    · rw [hsome, Request.reply]
      cases (w (ns, key)).getLast? <;> rfl
    · rw [hsome] at hfails
      simpa using hfails
  | get ns key =>
    rw [Request.inMemory, outcome_query, final_query]
    refine ⟨?_, h⟩
    rw [InMemoryStorage.get, hread, Request.reply]
    simp only [bind, Except.bind, (h ns hr.1 key).value]
    cases (w (ns, key)).getLast? <;> rfl
  | contains ns key =>
    rw [Request.inMemory, outcome_query, final_query]
    refine ⟨?_, h⟩
    rw [InMemoryStorage.contains, (h ns hr.1 key).value, Request.reply]
    cases hws : w (ns, key) with
    | nil => rfl
    | cons write ws => simp [Functor.map, Except.map, Except.toOption]
  | getVersioned ns key =>
    rw [Request.inMemory, outcome_query, final_query]
    refine ⟨?_, h⟩
    have hpair := ((h ns hr.1 key).toOption_getVersioned (hread ns)).1
    have hmap := congrArg (Option.map fun found => Reply.versioned found.1 found.2) hpair
    rw [Option.map_map, Option.map_map] at hmap
    rw [Request.reply]
    refine Eq.trans ?_ hmap
    cases s.getVersioned (some a) ns key <;> rfl
  | listVersions ns key =>
    rw [Request.inMemory, outcome_query, final_query]
    refine ⟨?_, h⟩
    have hlist := ((h ns hr.1 key).toOption_getVersioned (hread ns)).2
    have hmap := congrArg (Option.map Reply.versions) hlist
    rw [Option.map_map, Option.map_map] at hmap
    rw [Request.reply]
    refine Eq.trans ?_ hmap
    cases s.listVersions (some a) ns key <;> rfl
  | listKeys ns start =>
    rw [Request.inMemory, outcome_query, final_query]
    refine ⟨?_, h⟩
    have hkeys : ∀ key, w (ns, key) ≠ [] ↔ s.data.get (ns, key) ≠ none := by
      intro key
      rw [(h ns hr key).value]
      simp
    rw [InMemoryStorage.listKeys, hread, Request.reply]
    simp only [bind, Except.bind, hkeys, Table.get]
    cases hrow : s.data.lookup ns with
    | none => simp [Functor.map, Except.map, Except.toOption]
    | some row =>
      cases start with
      | none =>
        simp [Functor.map, Except.map, Except.toOption, Finmap.mem_keys, ← Finmap.lookup_isSome,
          Option.isSome_iff_ne_none]
      | some text =>
        simp [Functor.map, Except.map, Except.toOption, Finmap.mem_keys, ← Finmap.lookup_isSome,
          Option.isSome_iff_ne_none]

end InMemoryStorage

/-! ## The file backend -/

namespace FileStorage

/-- Below the directory of the keys of some namespaces stand the sets of every key. -/
structure Holds (N : Set String) (w : Writes) (s : FileStorage) : Prop where
  opened : Opened s
  keys : ∀ ns ∈ N, s.keyTree ns [] = some .directory
  entries : ∀ ns ∈ N, ∀ key,
    s.keyTree ns [key] = if w (ns, key) = [] then none else some .directory
  histories : ∀ ns ∈ N, ∀ key, Path.IsName key →
    KeyHistory s.data (place ns key) (w (ns, key))

/-- A `set` does not exceed the quota of the user. -/
def HasRoom [SerdeMetadata] (user : String) : Request → FileStorage → Prop
  | .set ns key value, s => ¬ Overdrawn s.accountCache user (s.growth ns key value)
  | _, _ => True

section
variable {N : Set String} {w : Writes} {s : FileStorage}

theorem Holds.logged (h : Holds N w s) {s' : FileStorage} (hs : Logged s s') : Holds N w s' where
  opened := h.opened.apart hs.apart
  keys ns hns := (congrFun hs.data _).trans (h.keys ns hns)
  entries ns hns key := (congrFun hs.data _).trans (h.entries ns hns key)
  histories ns hns key hkey := (h.histories ns hns key hkey).congr fun _ => congrFun hs.data _

theorem Holds.checked (h : Holds N w s) {a : AuthContext}
    (hadmin : a.hasRole "global" "admin" = true) {ns : String} (hns : ns ∈ N)
    (hname : Path.IsName ns) (action missing : String) :
    FileStorage.checked s (some a) action ns missing = .ok () := by
  refine checked_eq_ok.mpr ⟨by rw [checkPermission, if_pos hadmin], ?_⟩
  apply namespaceExists_of_data h.opened hname.isPlain (l := ["keys"])
  exact (h.keys ns hns).trans_ne (Option.some_ne_none _)

/-- The directory of a key can be made. -/
theorem Holds.free (h : Holds N w s) {ns key : String} (hns : ns ∈ N) (hkey : Path.IsName key) :
    s.Free (place ns key) := by
  intro m hm content hfile
  rw [place, Path.components_of_isName hkey] at hm
  obtain rfl | hparent := List.prefix_concat_iff.mp
    (show m <+: (Path.components ns ++ ["keys"]) ++ [key] by simpa using hm)
  · have hentry := h.entries ns hns key
    rw [List.append_assoc, List.singleton_append, ← keyTree, hentry] at hfile
    split at hfile
    · simp at hfile
    · simp at hfile
  · exact free_of_directory (h.keys ns hns) m hparent content hfile

/-- The places of flat keys are told apart by their names. -/
theorem prefix_place_iff {ns ns' key key' : String} (hns : Path.IsName ns) (hkey : Path.IsName key)
    (hns' : Path.IsName ns') :
    Path.components ns' ++ ["keys", key'] <+: place ns key ↔ (ns', key') = (ns, key) := by
  rw [place, Path.components_of_isName hns, Path.components_of_isName hkey,
    Path.components_of_isName hns']
  simp

end

section
variable [SerdeMetadata] {N : Set String} {w : Writes} {s : FileStorage} {ns key : String}

theorem Holds.set (h : Holds N w s) (hN : ∀ ns ∈ N, Path.IsName ns) (hns : ns ∈ N)
    (hkey : Path.IsName key) {a : AuthContext} {value : ByteArray}
    (hok : succeeded (FileStorage.set (some a) ns key value s) = true) :
    Holds N (Function.update w (ns, key) (w (ns, key) ++ [⟨a.currentIdentityDid, value⟩]))
      (final (FileStorage.set (some a) ns key value s)) := by
  have hname := hN ns hns
  have hflat : (Call.set (some a) ns key value).Flat := ⟨isNamespace_of_isName hname, hkey⟩
  obtain ⟨-, -, hdata⟩ := set_ok_data h.opened hname.isPlain hkey.isPlain hok
  have hshort : ∀ ns' ∈ N, ∀ l, l.length ≤ 1 →
      (final (FileStorage.set (some a) ns key value s)).keyTree ns' l =
        mkdirs (place ns key) s.data (Path.components ns' ++ "keys" :: l) := by
    intro ns' hns' l hl
    have hlength : ∀ name, Path.components ns' ++ "keys" :: l ≠ place ns key ++ [name] := by
      intro name heq
      have hlength := congrArg List.length heq
      simp only [place, Path.components_of_isName hname, Path.components_of_isName hkey,
        Path.components_of_isName (hN ns' hns'), List.length_append, List.length_cons,
        List.length_nil] at hlength
      omega
    exact hdata _ (hlength _) fun i => hlength _
  refine ⟨hflat.opened h.opened, fun ns' hns' => ?_, fun ns' hns' key' => ?_,
    fun ns' hns' key' hkey' => ?_⟩
  · rw [hshort ns' hns' [] (by simp), mkdirs]
    split
    · rfl
    · exact h.keys ns' hns'
  · rw [hshort ns' hns' [key'] (by simp), mkdirs]
    by_cases heq : (ns', key') = (ns, key)
    · rw [if_pos ((prefix_place_iff hname hkey (hN ns' hns')).mpr heq), heq, Function.update_self,
        if_neg (by simp)]
    · rw [if_neg fun hstarts => heq ((prefix_place_iff hname hkey (hN ns' hns')).mp hstarts),
        Function.update_of_ne heq]
      exact h.entries ns' hns' key'
  · have hstep := (h.histories ns' hns' key' hkey').step h.opened
      (hflat.keepsTo (isNamespace_of_isName (hN ns' hns')) hkey')
    rw [writtenAfter, hok, if_pos rfl] at hstep
    by_cases heq : (ns, key) = (ns', key')
    · rw [if_pos heq] at hstep
      rwa [heq, Function.update_self]
    · rw [if_neg heq] at hstep
      rwa [Function.update_of_ne (Ne.symm heq)]

theorem Holds.delete (h : Holds N w s) (hN : ∀ ns ∈ N, Path.IsName ns) (hns : ns ∈ N)
    (hkey : Path.IsName key) {a : AuthContext}
    (hok : succeeded (FileStorage.delete (some a) ns key s) = true) :
    Holds N (Function.update w (ns, key) []) (final (FileStorage.delete (some a) ns key s)) := by
  have hname := hN ns hns
  have hflat : (Call.delete (some a) ns key).Flat := ⟨isNamespace_of_isName hname, hkey⟩
  obtain ⟨-, hdata⟩ := delete_ok_data h.opened hname.isPlain hkey.isPlain hok
  refine ⟨hflat.opened h.opened, fun ns' hns' => ?_, fun ns' hns' key' => ?_,
    fun ns' hns' key' hkey' => ?_⟩
  · rw [keyTree, hdata, removed, if_neg]
    · exact h.keys ns' hns'
    · intro hstarts
      have hlength := hstarts.length_le
      simp only [place, Path.components_of_isName hname, Path.components_of_isName hkey,
        Path.components_of_isName (hN ns' hns'), List.length_append, List.length_cons,
        List.length_nil] at hlength
      omega
  · rw [keyTree, hdata, removed, place, Path.components_of_isName hname,
      Path.components_of_isName hkey, Path.components_of_isName (hN ns' hns')]
    by_cases heq : (ns', key') = (ns, key)
    · obtain ⟨rfl, rfl⟩ := Prod.mk.inj heq
      rw [Function.update_self, if_pos (List.prefix_refl _), if_pos rfl]
    · rw [Function.update_of_ne heq, if_neg, ← h.entries ns' hns' key', keyTree,
        Path.components_of_isName (hN ns' hns')]
      intro hstarts
      apply heq
      simp at hstarts
      rw [hstarts.1, hstarts.2]
  · have hstep := (h.histories ns' hns' key' hkey').step h.opened
      (hflat.keepsTo (isNamespace_of_isName (hN ns' hns')) hkey')
    rw [writtenAfter, hok, if_pos rfl] at hstep
    by_cases heq : (ns, key) = (ns', key')
    · rw [if_pos heq] at hstep
      rwa [heq, Function.update_self]
    · rw [if_neg heq] at hstep
      rwa [Function.update_of_ne (Ne.symm heq)]

/-- The newest value and version of a key that was set at most 125 times. -/
theorem KeyHistory.toOption_readLatest {ws : List Write} (h : Opened s) (hns : Path.IsPlain ns)
    (hkey : Path.IsPlain key) (hws : KeyHistory s.data (place ns key) ws) (missing : String) :
    (FileStorage.readLatest s ns key missing).toOption.map (fun found => (found.1, found.2.version))
      = if ws.length ≤ 125 then ws.getLast?.map fun write => (write.value, ws.length) else none := by
  have hstored : (FileStorage.readLatest s ns key missing).toOption.map Prod.fst =
      if ws.length ≤ 125 then ws.getLast?.map (·.value) else none := by
    rw [readLatest_toOption]
    exact hws.stored h hns hkey
  by_cases hne : ws ≠ [] ∧ ws.length ≤ 125
  · obtain ⟨v, hread, hversion⟩ := hws.readLatest h hns hkey hne.1 hne.2 missing
    rw [hread, if_pos hne.2, List.getLast?_eq_some_getLast hne.1]
    simp [Except.toOption, hversion]
  · have hnone : ∀ {α : Type} (f : Write → α),
        (if ws.length ≤ 125 then ws.getLast?.map f else none) = none := by
      intro α f
      split
      · next hlength => simpa using fun hempty => hne ⟨hempty, hlength⟩
      · rfl
    rw [hnone, Option.map_eq_none_iff] at hstored
    rw [hnone, hstored, Option.map_none]

theorem KeyHistory.toOption_readKeyMetadata {ws : List Write} (h : Opened s)
    (hns : Path.IsPlain ns) (hkey : Path.IsPlain key)
    (hws : KeyHistory s.data (place ns key) ws) :
    (readKeyMetadata s ns key).toOption.map (fun metadata => metadata.versions.map (·.version)) =
      if ws.length ≤ 125 then ws.getLast?.map fun _ => List.range' 1 ws.length else none := by
  obtain ⟨hnone, rfl⟩ | ⟨metadata, hread, hne, hlength, hchained⟩ | ⟨⟨e, hread⟩, -, hlong⟩ :=
    hws.hasMetadata_cases h hns hkey
  · rw [readKeyMetadata_eq, show s.entry ns key "metadata.json" = none from hnone]
    rfl
  · rw [show readKeyMetadata s ns key = .ok metadata from hread, if_pos hlength,
      List.getLast?_eq_some_getLast hne]
    simp [Except.toOption, hchained.map_version]
  · rw [hread, if_neg (by omega)]
    rfl

/-- A key that was set 126 times cannot be set again. -/
theorem KeyHistory.set_fails {ws : List Write} (h : Opened s) (hns : Path.IsPlain ns)
    (hkey : Path.IsPlain key) (hws : KeyHistory s.data (place ns key) ws)
    (hlength : ¬ ws.length ≤ 125) (auth : Option AuthContext) (value : ByteArray) :
    succeeded (FileStorage.set auth ns key value s) = false := by
  have houtcome := set_outcome h hns hkey auth value
  generalize FileStorage.set auth ns key value s = r at houtcome
  cases houtcome with
  | stored old time createdAt checks free fits read number file leaves =>
    exact absurd (hws.of_hasMetadata h hns hkey read).2.2.2 hlength
  | _ => rfl

/-- A permitted `delete` succeeds iff the key can be read, and otherwise does nothing. -/
theorem delete_succeeded (h : Opened s) (hns : Path.IsPlain ns) (hkey : Path.IsPlain key)
    {auth : Option AuthContext}
    (hchecked : checked s auth "write" ns s!"Namespace not found: {ns}" = .ok ()) :
    succeeded (FileStorage.delete auth ns key s) = (s.stored ns key).isSome ∧
      (s.stored ns key = none → final (FileStorage.delete auth ns key s) = s) := by
  by_cases hstored : s.stored ns key = none
  · have houtcome := delete_outcome h hns hkey auth
    generalize FileStorage.delete auth ns key s = r at houtcome
    cases houtcome with
    | refused e herror =>
      rw [hchecked] at herror
      exact nomatch herror
    | missing e hnone => exact ⟨by rw [hstored]; rfl, fun _ => rfl⟩
    | deleted d v checks read leaves =>
      rw [stored_of_ok read] at hstored
      exact nomatch hstored
  · exact ⟨by rw [delete_ok h hns hkey auth hchecked hstored, Option.isSome_iff_ne_none.mpr hstored],
      fun hnone => absurd hnone hstored⟩

/-- What a call returns that asks for nothing but the newest version. -/
theorem Holds.outcome_readLatest (h : Holds N w s) (hns : ns ∈ N) (hname : Path.IsName ns)
    (hkey : Path.IsName key) (missing : String) :
    (readLatest s ns key missing).toOption.map (fun found => (found.1, found.2.version)) =
      if (w (ns, key)).length ≤ 125 then
        (w (ns, key)).getLast?.map fun write =>
          (write.value, versionNumber (w (ns, key)).length)
      else none := by
  rw [(h.histories ns hns key hkey).toOption_readLatest h.opened hname.isPlain hkey.isPlain]
  apply if_ctx_congr .rfl (fun hlength => ?_) fun _ => rfl
  rw [versionNumber, min_eq_left (by omega)]

omit [SerdeMetadata] in
theorem map_versionNumber {n : Nat} (h : n ≤ 125) :
    (List.range' 1 n).map versionNumber = List.range' 1 n := by
  refine (List.map_congr_left fun i hi => ?_).trans (List.map_id _)
  have hle := (List.mem_range'_1.mp hi).2
  exact min_eq_left (by omega)

omit [SerdeMetadata] in
/-- The answer of a call that passes its checks. -/
theorem outcome_checked {α : Type} {a : AuthContext} {action missing : String}
    {r : EStateM.Result StorageFault FileStorage α} {y : Except StorageError α}
    (hchecked : FileStorage.checked s (some a) action ns missing = .ok ())
    (hanswer : answer r = (FileStorage.checked s (some a) action ns missing >>= fun _ =>
      y).mapError .error) : outcome r = y.toOption := by
  rw [outcome, hanswer, hchecked]
  cases y <;> rfl

omit [SerdeMetadata] in
theorem map_ite_none {α β : Type} (f : α → β) (p : Prop) [Decidable p] (o : Option α) :
    (if p then o else none).map f = if p then o.map f else none := by
  split <;> rfl

omit [SerdeMetadata] in
/-- A call that reads metadata, in both cases. -/
theorem reads_of_outcome {s' : FileStorage} (h : Holds N w s') {p : Prop} [Decidable p]
    {o o' : Option Reply} (ho : o = if p then o' else none) :
    (p → o = o' ∧ Holds N w s') ∧ (¬ p → o = none) :=
  ⟨fun hp => ⟨ho.trans (if_pos hp), h⟩, fun hp => ho.trans (if_neg hp)⟩

/-- As long as a call need not read the metadata of more than 125 versions it answers from the
sets of its keys, and keeps them; otherwise it fails. -/
theorem Holds.request (h : Holds N w s) (hN : ∀ ns ∈ N, Path.IsName ns) {a : AuthContext}
    (hadmin : a.hasRole "global" "admin" = true) {r : Request} (hr : r.On N)
    (hroom : HasRoom a.currentIdentityDid r s) :
    (r.Shallow w → outcome (r.inFiles (some a) s) = r.reply w ∧
      Holds N (r.writes a.currentIdentityDid w) (final (r.inFiles (some a) s))) ∧
    (¬ r.Shallow w → outcome (r.inFiles (some a) s) = none) := by
  have hchecked : ∀ {ns}, ns ∈ N → ∀ action missing,
      FileStorage.checked s (some a) action ns missing = .ok () :=
    fun hns => h.checked hadmin hns (hN _ hns)
  cases r with
  | set ns key value =>
    obtain ⟨hns, hkey⟩ := hr
    have hplain := (hN ns hns).isPlain
    have hws := h.histories ns hns key hkey
    rw [Request.inFiles, outcome_map, outcome_unit, final_map]
    constructor
    · intro hlength
      have hok := (hws.set_ok h.opened hplain hkey.isPlain hlength _ _ (hchecked hns _ _)
        (h.free hns hkey) hroom).1
      rw [hok]
      exact ⟨rfl, h.set hN hns hkey hok⟩
    · intro hlength
      rw [hws.set_fails h.opened hplain hkey.isPlain hlength]
      rfl
  | delete ns key =>
    obtain ⟨hns, hkey⟩ := hr
    have hplain := (hN ns hns).isPlain
    have hstored := (h.histories ns hns key hkey).stored h.opened hplain hkey.isPlain
    obtain ⟨hsucceeded, hsame⟩ := delete_succeeded h.opened hplain hkey.isPlain
      (hchecked hns "write" s!"Namespace not found: {ns}")
    rw [Request.inFiles, outcome_map, outcome_unit, final_map, hsucceeded, hstored]
    constructor
    · intro (hlength : (w (ns, key)).length ≤ 125)
      rw [if_pos hlength] at hstored ⊢
      rw [Request.reply, Request.writes]
      cases hlast : (w (ns, key)).getLast? with
      | none =>
        rw [hlast] at hstored
        rw [hsame hstored, ← List.getLast?_eq_none_iff.mp hlast, Function.update_eq_self]
        exact ⟨rfl, h⟩
      | some write =>
        rw [hlast] at hstored
        refine ⟨rfl, h.delete hN hns hkey ?_⟩
        rw [hsucceeded, hstored]
        rfl
    · intro (hlength : ¬ (w (ns, key)).length ≤ 125)
      rw [if_neg hlength]
      rfl
  | get ns key =>
    obtain ⟨hns, hkey⟩ := hr
    obtain ⟨hanswer, hlogged⟩ := get_answer h.opened.loggable (some a) ns key
    have hlatest := h.outcome_readLatest hns (hN ns hns) hkey s!"{ns}:{key} (no versions)"
    simp only [Request.Shallow, Request.writes, Request.inFiles, Request.reply, final_map]
    apply reads_of_outcome (h.logged hlogged)
    rw [outcome_map, outcome_checked (hchecked hns _ _) hanswer, toOption_map, Option.map_map]
    have hvalue := congrArg (Option.map fun found => Reply.bytes found.1) hlatest
    rw [Option.map_map, map_ite_none, Option.map_map] at hvalue
    exact hvalue
  | contains ns key =>
    obtain ⟨hns, hkey⟩ := hr
    have hplain := (hN ns hns).isPlain
    refine ⟨fun _ => ?_, fun hdeep => absurd trivial hdeep⟩
    rw [Request.inFiles, outcome_query, final_query]
    refine ⟨?_, h⟩
    rw [contains_of_plain h.opened hplain hkey.isPlain, (checked_eq_ok.mp (hchecked hns "read" "")).1,
      Request.reply]
    obtain ⟨hnone, hempty⟩ | ⟨metadata, hfile, hne, -⟩ := (h.histories ns hns key hkey).metadata
    · rw [hnone, hempty]
      rfl
    · rw [hfile, List.isEmpty_eq_false_iff.mpr hne]
      rfl
  | getVersioned ns key =>
    obtain ⟨hns, hkey⟩ := hr
    obtain ⟨hanswer, hlogged⟩ := getVersioned_answer h.opened.loggable (some a) ns key
    have hlatest := h.outcome_readLatest hns (hN ns hns) hkey s!"{ns}:{key}"
    simp only [Request.Shallow, Request.writes, Request.inFiles, Request.reply, final_map]
    apply reads_of_outcome (h.logged hlogged)
    rw [outcome_map, outcome_checked (hchecked hns _ _) hanswer]
    have hfound := congrArg (Option.map fun found => Reply.versioned found.1 found.2) hlatest
    rw [Option.map_map, map_ite_none, Option.map_map] at hfound
    exact hfound
  | listVersions ns key =>
    obtain ⟨hns, hkey⟩ := hr
    obtain ⟨hanswer, hlogged⟩ := listVersions_answer h.opened.loggable (some a) ns key
    have hlisted := (h.histories ns hns key hkey).toOption_readKeyMetadata h.opened
      (hN ns hns).isPlain hkey.isPlain
    simp only [Request.Shallow, Request.writes, Request.inFiles, Request.reply, final_map]
    apply reads_of_outcome (h.logged hlogged)
    rw [outcome_map, outcome_checked (hchecked hns _ _) hanswer, toOption_map, Option.map_map]
    have hnumbers := congrArg (Option.map Reply.versions) hlisted
    rw [Option.map_map, map_ite_none] at hnumbers
    refine hnumbers.trans (if_ctx_congr .rfl (fun hlength => ?_) fun _ => rfl)
    rw [Option.map_map, map_versionNumber hlength]
    rfl
  | listKeys ns start =>
    refine ⟨fun _ => ?_, fun hdeep => absurd trivial hdeep⟩
    obtain ⟨keys, s', hrun, hlogged, -, hmem⟩ := listKeys_answer h.opened (hN ns hr).isPlain
      (hchecked hr "read" s!"Namespace not found: {ns}")
      (fun content hfile => nomatch (h.keys ns hr).symm.trans hfile) start
    rw [Request.inFiles, outcome_map, final_map, hrun]
    refine ⟨congrArg some (congrArg Reply.keys (Set.ext fun key => ?_)), h.logged hlogged⟩
    have hentry := h.entries ns hr key
    rw [keyTree] at hentry
    rw [Set.mem_ofPred_eq, Set.mem_ofPred_eq, hmem, hentry]
    by_cases hempty : w (ns, key) = []
    · simp [hempty]
    · simp [hempty]

end

end FileStorage

/-! ## Both backends -/

/-- An in-memory storage and a file storage. -/
structure Backends where
  memory : InMemoryStorage
  files : FileStorage

namespace Backends

section
variable [SerdeMetadata]

def after (a : AuthContext) (r : Request) (b : Backends) : Backends :=
  ⟨final (r.inMemory (some a) b.memory), final (r.inFiles (some a) b.files)⟩

/-- Both backends return the same, or both fail. -/
def SameReply (a : AuthContext) (r : Request) (b : Backends) : Prop :=
  outcome (r.inMemory (some a) b.memory) = outcome (r.inFiles (some a) b.files)

def HasRoom (a : AuthContext) (r : Request) (b : Backends) : Prop :=
  b.memory.HasRoom a.currentIdentityDid r ∧ b.files.HasRoom a.currentIdentityDid r

omit [SerdeMetadata] in
/-- Some namespaces have just been created. -/
structure Created (N : Set String) (b : Backends) : Prop where
  opened : b.files.Opened
  names : ∀ ns ∈ N, Path.IsName ns
  memory : ∀ ns ∈ N, ∀ key,
    b.memory.data.get (ns, key) = none ∧ b.memory.versions.get (ns, key) = none
  files : ∀ ns ∈ N, b.files.EmptyNamespace ns

omit [SerdeMetadata] in
theorem Created.holds {N : Set String} {b : Backends} (h : Created N b) :
    b.memory.Holds N (fun _ => []) ∧ b.files.Holds N (fun _ => []) := by
  refine ⟨fun ns hns key => ?_, h.opened, fun ns hns => (h.files ns hns).keys,
    fun ns hns key => (h.files ns hns).empty _ (by simp), fun ns hns key _ => ?_⟩
  · obtain ⟨hdata, hversions⟩ := h.memory ns hns key
    exact ⟨hdata, by rw [hversions]; rfl⟩
  · exact .of_vacant ((h.files ns hns).vacant key)

section
variable {N : Set String} {w : Writes} {b : Backends} {a : AuthContext} {r : Request}
  (hmemory : b.memory.Holds N w) (hfiles : b.files.Holds N w) (hN : ∀ ns ∈ N, Path.IsName ns)
  (hadmin : a.hasRole "global" "admin" = true)
include hmemory hfiles hN hadmin

/-- The backends answer alike iff the call need not read too much metadata: as the in-memory
backend does answer. -/
theorem sameReply_iff (hr : r.On N) (hroom : HasRoom a r b) : SameReply a r b ↔ r.Shallow w := by
  obtain ⟨hreply, -⟩ := hmemory.request hadmin hr hroom.1
  obtain ⟨hshallow, hdeep⟩ := hfiles.request hN hadmin hr hroom.2
  rw [SameReply, hreply]
  by_cases hr : r.Shallow w
  · exact iff_of_true (hshallow hr).1.symm hr
  · refine iff_of_false (fun heq => ?_) hr
    rw [hdeep hr] at heq
    exact Request.reply_ne_none hr heq

theorem meets_iff_of_holds {requests : List Request} (hrequests : ∀ r ∈ requests, r.On N)
    (hroom : Meets (after a) (HasRoom a) requests b) :
    Meets (after a) (SameReply a) requests b ↔
      Meets (Request.writes a.currentIdentityDid) Request.Shallow requests w := by
  induction requests generalizing b w with
  | nil => exact .rfl
  | cons r requests ih =>
    have hr := hrequests r List.mem_cons_self
    have hiff := sameReply_iff hmemory hfiles hN hadmin hr hroom.1
    by_cases hshallow : r.Shallow w
    · exact and_congr hiff (ih (hmemory.request hadmin hr hroom.1.1).2
        ((hfiles.request hN hadmin hr hroom.1.2).1 hshallow).2
        (fun r' hr' => hrequests r' (List.mem_cons_of_mem r hr')) hroom.2)
    · exact iff_of_false (fun h => hshallow (hiff.mp h.1)) fun h => hshallow h.1

end

/-- In a run of an administrator within the quotas the backends answer alike iff no call reads the
metadata of a key that was set 126 times since it was created or last deleted. -/
theorem agree_iff_shallow {N : Set String} {b : Backends} (h : Created N b) {a : AuthContext}
    (hadmin : a.hasRole "global" "admin" = true) {requests : List Request}
    (hrequests : ∀ r ∈ requests, r.On N) (hroom : Meets (after a) (HasRoom a) requests b) :
    Meets (after a) (SameReply a) requests b ↔
      Meets (Request.writes a.currentIdentityDid) Request.Shallow requests fun _ => [] :=
  meets_iff_of_holds h.holds.1 h.holds.2 h.names hadmin hrequests hroom

end

/-! ### A namespace and an administrator in both backends -/

open InMemoryStorage (admin)

/-- Both backends with an administrator's account of 1000 bytes and a namespace. -/
def seeded : Backends :=
  ⟨InMemoryStorage.afterAll [.createAccount (some admin) "admin" 1000,
    .createNamespace (some admin) "ns" 1000 none] (.new fun _ => 0), FileStorage.seeded⟩

theorem seeded_created : Created {"ns"} seeded where
  opened := FileStorage.seeded_ok.2.1
  names ns hns := by
    rw [Set.mem_singleton_iff.mp hns]
    decide
  memory ns hns key := by
    have hno : ∀ c ∈ [InMemoryStorage.Call.createAccount (some admin) "admin" 1000,
        .createNamespace (some admin) "ns" 1000 none], InMemoryStorage.NoRollback c := by
      simp [InMemoryStorage.NoRollback]
    have htracks := InMemoryStorage.tracks_written hno (InMemoryStorage.tracks_new ns key fun _ => 0)
    exact ⟨htracks.value, htracks.versions_eq_none htracks.value⟩
  files ns hns := by
    rw [Set.mem_singleton_iff.mp hns]
    exact FileStorage.seeded_ok.2.2.2.1

theorem admin_global : admin.hasRole "global" "admin" = true := by decide

theorem agree_iff_shallow_seeded : letI := FileStorage.limitedJson
    Meets (after admin) (SameReply admin)
      [.set "ns" "k" "abc".toUTF8, .get "ns" "k", .listKeys "ns" none] seeded := by
  let _ := FileStorage.limitedJson
  obtain ⟨-, -, -, -, -, account, hlookup, hused, hquota⟩ := FileStorage.seeded_ok
  have hkey : Path.IsName "k" := by decide
  have hon : ∀ r ∈ ([.set "ns" "k" "abc".toUTF8, .get "ns" "k", .listKeys "ns" none] :
      List Request), r.On {"ns"} := by
    simp [Request.On, hkey]
  have hroom : Meets (after admin) (HasRoom admin)
      [.set "ns" "k" "abc".toUTF8, .get "ns" "k", .listKeys "ns" none] seeded := by
    refine ⟨⟨fun _ => ?_, ?_⟩, ⟨trivial, trivial⟩, ⟨trivial, trivial⟩, trivial⟩
    · exact ⟨⟨"admin", 1000, 0, 0⟩, by decide, by decide⟩
    · rintro ⟨-, account', hlookup', hover⟩
      obtain rfl := Option.some.inj (hlookup.symm.trans hlookup')
      have hgrowth : seeded.files.growth "ns" "k" "abc".toUTF8 ≤ 3 := Nat.sub_le _ _
      omega
  refine (agree_iff_shallow seeded_created admin_global hon hroom).mpr ⟨?_, ?_, trivial, trivial⟩
  · exact Nat.zero_le _
  · simp [Request.Shallow, Request.writes]

/-- Sets of empty values stay within every quota. -/
theorem hasRoom_empty [SerdeMetadata] (a : AuthContext) (ns key : String) (b : Backends) :
    HasRoom a (.set ns key ByteArray.empty) b := by
  refine ⟨fun hgrow => absurd hgrow (Nat.not_lt_zero _), fun hover => ?_⟩
  have hpos := hover.1
  simp [FileStorage.growth] at hpos

theorem not_shallow_replicate (user ns key : String) (r : Request)
    (hr : ∀ w, r.Shallow w → (w (ns, key)).length ≤ 125) (n : Nat) (w : Writes)
    (h : Meets (Request.writes user) Request.Shallow
      (List.replicate n (.set ns key ByteArray.empty) ++ [r]) w) :
    (w (ns, key)).length + n ≤ 125 := by
  induction n generalizing w with
  | zero => exact hr w h.1
  | succ n ih =>
    have hnext := ih _ h.2
    simp only [Request.writes, Function.update_self, List.length_append,
      List.length_singleton] at hnext
    omega

/-- After 126 sets only the in-memory backend returns the value. -/
theorem not_agree_run :
    ¬ ∀ [SerdeMetadata] (N : Set String) (b : Backends) (a : AuthContext) (requests : List Request),
      Created N b → a.hasRole "global" "admin" = true →
      a.currentIdentityDid ∈ b.memory.accounts → a.currentIdentityDid ∈ b.files.accountCache →
      (∀ r ∈ requests, r.On N) → Meets (after a) (HasRoom a) requests b →
      Meets (after a) (SameReply a) requests b := by
  intro hall
  let _ := FileStorage.limitedJson
  obtain ⟨-, -, -, -, -, account, hlookup, -⟩ := FileStorage.seeded_ok
  have hkey : Path.IsName "k" := by decide
  obtain ⟨requests, hrequests⟩ : ∃ requests, requests =
      List.replicate 126 (Request.set "ns" "k" ByteArray.empty) ++ [.get "ns" "k"] := ⟨_, rfl⟩
  have hmem : ∀ r ∈ requests, r = .set "ns" "k" ByteArray.empty ∨ r = .get "ns" "k" := by
    intro r hr
    rw [hrequests, List.mem_append, List.mem_singleton] at hr
    exact hr.imp_left List.eq_of_mem_replicate
  have hon : ∀ r ∈ requests, r.On {"ns"} := by
    intro r hr
    obtain rfl | rfl := hmem r hr
    · exact ⟨rfl, hkey⟩
    · exact ⟨rfl, hkey⟩
  have hroom : Meets (after admin) (HasRoom admin) requests seeded := by
    refine meets_of_forall (fun r hr b => ?_) seeded
    obtain rfl | rfl := hmem r hr
    · exact hasRoom_empty admin "ns" "k" b
    · exact ⟨trivial, trivial⟩
  have hagree := hall {"ns"} seeded admin requests seeded_created admin_global
    (by decide) (Finmap.mem_of_lookup_eq_some hlookup) hon hroom
  obtain ⟨hmemory, hfiles⟩ := seeded_created.holds
  have hshallow := (meets_iff_of_holds hmemory hfiles seeded_created.names admin_global hon
    hroom).mp hagree
  rw [hrequests] at hshallow
  have hlength := not_shallow_replicate _ "ns" "k" (.get "ns" "k") (fun _ h => h) 126 _ hshallow
  simp at hlength

end Backends

end Covm
