import Covm.Maps.Table
import Covm.Storage.FileHistory

/-!
# What an account is charged for

A `set` charges its user for what is longer than the value it replaces, and nothing is ever given
back: the bytes that are charged are those that are stored as long as no value is replaced by a
shorter one and only empty ones are deleted. A key whose metadata cannot be read counts as empty,
so that the whole value is charged, before the `set` fails.
-/

namespace Covm

open Files Partial Maps

namespace FileStorage

/-! ## The newest values -/

/-- The newest value in a directory: what the metadata lists last. -/
def newest (tree : Location → Option (Node FileContent)) (l : Location) : Option FileContent :=
  match FileSystem.contentOf (tree (l ++ ["metadata.json"])) with
  | some (.keyMetadata metadata) => metadata.versions.getLast?.bind fun latest =>
    FileSystem.contentOf (tree (l ++ [versionName latest.version]))
  | _ => none

section newest
variable {tree tree' : Location → Option (Node FileContent)} {l m : Location}

/-- Only the files in a directory matter. -/
theorem newest_congr (h : ∀ name, FileSystem.contentOf (tree' (l ++ [name])) =
    FileSystem.contentOf (tree (l ++ [name]))) : newest tree' l = newest tree l := by
  simp only [newest, h]

theorem newest_eq_none (h : tree (l ++ ["metadata.json"]) = none) : newest tree l = none := by
  rw [newest, h]
  rfl

/-- The files in one directory are changed. -/
theorem newest_update (h : ∀ m, m ≠ l → ∀ name,
    FileSystem.contentOf (tree' (m ++ [name])) = FileSystem.contentOf (tree (m ++ [name])))
    {content : Option FileContent} (hl : newest tree' l = content) :
    newest tree' = Function.update (newest tree) l content := by
  funext m
  by_cases hm : m = l
  · rw [hm, hl, Function.update_self]
  · rw [Function.update_of_ne hm, newest_congr (h m hm)]

theorem contentOf_mkdirs {s : FileStorage} (hfree : s.Free l) (m : Location) :
    FileSystem.contentOf (mkdirs l s.data m) = FileSystem.contentOf (s.data m) := by
  unfold mkdirs
  split
  · next hm =>
    cases hnode : s.data m with
    | none => rfl
    | some n =>
      cases n with
      | directory => rfl
      | file content => exact absurd hnode (hfree m hm content)
  · rfl

/-- Making directories changes no value. -/
theorem newest_mkdirs {s : FileStorage} (hfree : s.Free l) :
    newest (mkdirs l s.data) = newest s.data :=
  funext fun _ => newest_congr fun _ => contentOf_mkdirs hfree _

end newest

/-- There are finitely many values. -/
theorem newest_finite (s : FileStorage) (size : FileContent → Nat) :
    (fun l => (newest s.data l).elim 0 size).support.Finite := by
  have hfinite : {l | s.files.node l ≠ none}.Finite := by
    apply s.files.nodes.keys.finite_toSet.subset
    intro l hl
    exact Finmap.mem_keys.mpr (Finmap.lookup_isSome.mp (Option.isSome_iff_ne_none.mpr hl))
  have hinjective : Function.Injective fun l : Location =>
      s.rootPath ++ "namespaces" :: (l ++ ["metadata.json"]) := by
    intro l l' h
    simpa using h
  apply (hfinite.preimage hinjective.injOn).subset
  intro l hl hnone
  apply hl
  show (newest s.data l).elim 0 size = 0
  rw [newest_eq_none hnone]
  rfl

/-- The sum of the sizes of the newest values. -/
noncomputable def used [SerdeMetadata] (tree : Location → Option (Node FileContent)) : Nat :=
  ∑ᶠ l, (newest tree l).elim 0 fun content => (SerdeMetadata.bytes content).size

section
variable [SerdeMetadata] {s : FileStorage}

/-- One value is replaced. -/
theorem used_update {tree : Location → Option (Node FileContent)} {l : Location}
    {content : Option FileContent} (h : newest tree = Function.update (newest s.data) l content) :
    used tree + (newest s.data l).elim 0 (fun content => (SerdeMetadata.bytes content).size) =
      used s.data + content.elim 0 (fun content => (SerdeMetadata.bytes content).size) := by
  have hsum := finsum_update_add (newest_finite s fun content => (SerdeMetadata.bytes content).size) l
    (content.elim 0 fun content => (SerdeMetadata.bytes content).size)
  rw [used, h]
  refine Eq.trans ?_ hsum
  congr 1
  apply finsum_congr
  intro m
  by_cases hm : m = l
  · rw [hm, Function.update_self, Function.update_self]
  · rw [Function.update_of_ne hm, Function.update_of_ne hm]

/-! ## Exact accounts -/

omit [SerdeMetadata] in
theorem KeyHistory.newest {tree : Location → Option (Node FileContent)} {place : Location}
    {ws : List Write} (hws : KeyHistory tree place ws) :
    FileStorage.newest tree place = ws.getLast?.map fun w => .data w.value := by
  obtain ⟨hnone, rfl⟩ | ⟨metadata, hfile, hne, hchained⟩ := hws.metadata
  · exact newest_eq_none hnone
  · obtain ⟨v, hlast, hversion, -⟩ := hchained.getLast hne
    have hpos := List.length_pos_iff.mpr hne
    have hvalue := hws.values (ws.length - 1) (ws.getLast hne)
      (by rw [List.getLast_eq_getElem, List.getElem?_eq_getElem])
    rw [Nat.sub_add_cancel hpos, ← hversion] at hvalue
    rw [FileStorage.newest, hfile, List.getLast?_eq_some_getLast hne]
    simp only [FileSystem.contentOf, hlast, Option.bind_some, hvalue, Option.map_some]

/-- What an account is charged is what is stored. -/
def Exact (s : FileStorage) (user : String) : Prop :=
  ∃ account, s.accountCache.lookup user = some account ∧ account.usedBytes = used s.data

/-- No value is replaced by a shorter one, none is charged that is not stored, and only empty values
are deleted. -/
def Balanced : Call → FileStorage → Prop
  | .set auth ns key value, s =>
    checked s auth "write" ns s!"{ns}:{key}" = .ok () → s.Free (place ns key) →
    ¬ Overdrawn s.accountCache (EconomicOperations.userOf auth) (s.growth ns key value) →
      (s.stored ns key).elim 0 ByteArray.size ≤ value.size ∧
        ((∃ old, HasMetadata s ns key old) ∨ value.size = 0)
  | .delete auth ns key, s =>
    checked s auth "write" ns s!"Namespace not found: {ns}" = .ok () →
      (s.stored ns key).elim 0 ByteArray.size = 0

omit [SerdeMetadata] in
theorem lookup_charged {accounts : HashMap FileResourceAccount} {user : String}
    {account : FileResourceAccount} (h : accounts.lookup user = some account) (growth : Nat) :
    (charged accounts user growth).lookup user =
      some { account with usedBytes := account.usedBytes + growth } := by
  unfold charged
  split
  · next hzero =>
    rw [h, hzero, Nat.add_zero]
  · rw [h, Option.elim_some, Finmap.lookup_insert]

theorem exact_of_lookup {s : FileStorage} {user : String} {account : FileResourceAccount}
    (h : s.accountCache.lookup user = some account) :
    Exact s user ↔ account.usedBytes = used s.data := by
  simp [Exact, h]

section
variable {ns key : String} {ws : List Write} (h : Opened s) (hns : Path.IsPlain ns)
  (hkey : Path.IsPlain key) (hws : KeyHistory s.data (place ns key) ws)
include h hns hkey hws

theorem KeyHistory.size_newest (hlength : ws.length ≤ 125) :
    (FileStorage.newest s.data (place ns key)).elim 0 (fun c => (SerdeMetadata.bytes c).size) =
      (s.stored ns key).elim 0 ByteArray.size := by
  rw [hws.newest, hws.stored h hns hkey, if_pos hlength]
  cases ws.getLast? with
  | none => rfl
  | some w => simp [SerdeMetadata.bytes_data]

/-- A `set` keeps an exact account exact iff it is balanced. -/
theorem exact_set {auth : Option AuthContext} (value : ByteArray)
    (hexact : Exact s (EconomicOperations.userOf auth)) :
    Exact (final (set auth ns key value s)) (EconomicOperations.userOf auth) ↔
      Balanced (.set auth ns key value) s := by
  obtain ⟨account, hlookup, hused⟩ := hexact
  have hnext := hws.set h hns hkey auth value
  have houtcome := set_outcome h hns hkey auth value
  generalize set auth ns key value s = r at houtcome hnext
  cases houtcome with
  | refused e herror =>
    refine iff_of_true ⟨account, hlookup, hused⟩ fun hchecked => ?_
    rw [hchecked] at herror
    simp at herror
  | blocked e hblocked =>
    exact iff_of_true ⟨account, hlookup, hused⟩ fun _ hfree => absurd hfree hblocked
  | overdrawn f checks free hover leaves =>
    refine iff_of_true ⟨account, ?_, ?_⟩ fun _ _ hfits => absurd hover hfits
    · rw [final_error, leaves.accounts, hlookup]
    · rw [final_error, leaves.data, used, newest_mkdirs free, hused, used]
  | unreadable e checks free fits file herror leaves =>
    have hnone : s.stored ns key = none := by
      have hlatest : readLatest s ns key "" = .error e := by
        rw [readLatest, herror]
        rfl
      exact stored_of_error hlatest
    have hlookup' := lookup_charged hlookup (s.growth ns key value)
    rw [← chargedFor, ← leaves.accounts] at hlookup'
    have hunreadable : ¬ ∃ old, HasMetadata s ns key old := by
      rintro ⟨_ | metadata, hold⟩
      · exact file hold
      · exact absurd (herror.symm.trans hold) (by simp)
    have hbalanced : Balanced (.set auth ns key value) s ↔ value.size = 0 := by
      constructor
      · intro hkept
        exact (hkept checks free fits).2.resolve_left hunreadable
      · intro hzero _ _ _
        rw [hnone]
        exact ⟨Nat.zero_le _, .inr hzero⟩
    rw [hbalanced, final_error, exact_of_lookup hlookup', leaves.data, hused]
    simp [growth, hnone]
  | exhausted metadata checks free fits read hlarge leaves =>
    obtain ⟨-, -, hnumber, hlength⟩ :=
      hws.of_hasMetadata h hns hkey (show HasMetadata s ns key (some metadata) from read)
    omega
  | halfStored e old time createdAt checks free fits read hdir leaves => exact absurd hdir (hws.files _)
  | @stored old time createdAt s' checks free fits read number file leaves =>
    obtain ⟨-, -, -, hlength⟩ := hws.of_hasMetadata h hns hkey read
    have hnewest : newest s'.data (place ns key) = some (.data value) := by
      have hlast := hnext.newest
      rwa [succeeded_ok, if_pos rfl, List.getLast?_concat] at hlast
    have hother : ∀ m, m ≠ place ns key → ∀ name, FileSystem.contentOf (s'.data (m ++ [name])) =
        FileSystem.contentOf (s.data (m ++ [name])) := by
      intro m hm name
      have hne : ∀ name', m ++ [name] ≠ place ns key ++ [name'] := by
        intro name' heq
        exact hm (List.append_inj_left' heq rfl)
      rw [leaves.data, Function.update_of_ne (hne _), withMetadata, Function.update_of_ne (hne _),
        contentOf_mkdirs free]
    have hsum := used_update (newest_update hother hnewest)
    rw [hws.size_newest h hns hkey hlength, Option.elim_some, SerdeMetadata.bytes_data] at hsum
    have hlookup' := lookup_charged hlookup (s.growth ns key value)
    rw [← chargedFor, ← leaves.accounts] at hlookup'
    have hbalanced : Balanced (.set auth ns key value) s ↔
        (s.stored ns key).elim 0 ByteArray.size ≤ value.size := by
      constructor
      · intro hkept
        exact (hkept checks free fits).1
      · intro hle _ _ _
        exact ⟨hle, .inl ⟨old, read⟩⟩
    rw [hbalanced, final_ok, exact_of_lookup hlookup', hused]
    simp only [growth]
    omega

/-- A `delete` keeps an exact account exact iff it is balanced. -/
theorem exact_delete {auth : Option AuthContext} {user : String} (hexact : Exact s user) :
    Exact (final (delete auth ns key s)) user ↔ Balanced (.delete auth ns key) s := by
  obtain ⟨account, hlookup, hused⟩ := hexact
  have houtcome := delete_outcome h hns hkey auth
  generalize delete auth ns key s = r at houtcome
  cases houtcome with
  | refused e herror =>
    refine iff_of_true ⟨account, hlookup, hused⟩ fun hchecked => ?_
    rw [hchecked] at herror
    exact nomatch herror
  | missing e hnone =>
    refine iff_of_true ⟨account, hlookup, hused⟩ fun _ => ?_
    rw [hnone]
    rfl
  | @deleted d v s' checks read leaves =>
    have hlength : ws.length ≤ 125 := by
      by_contra hlong
      have hstored := hws.stored h hns hkey
      rw [if_neg hlong, stored_of_ok read] at hstored
      exact nomatch hstored
    have hdir : s.data (place ns key) = some .directory := by
      obtain ⟨metadata, hmetadata, -⟩ := readLatest_eq_ok.mp read
      have hold : HasMetadata s ns key (some metadata) := hmetadata
      rw [← mkdirs_of_metadata h hns hkey hold.isSome, mkdirs_self]
    -- there are no directories in the one that is removed, and so no other values
    have hnewest : newest s'.data = Function.update (newest s.data) (place ns key) none := by
      funext m
      by_cases hstarts : place ns key <+: m
      · have hnone' : newest s'.data m = none := by
          apply newest_eq_none
          rw [leaves.data, removed, if_pos (hstarts.trans (List.prefix_append _ _))]
        by_cases hm : m = place ns key
        · rw [hnone', hm, Function.update_self]
        · rw [hnone', Function.update_of_ne hm]
          symm
          apply newest_eq_none
          obtain ⟨l, rfl⟩ := hstarts
          obtain _ | ⟨name, l⟩ := l
          · exact absurd (List.append_nil _) hm
          · by_contra hne
            refine hws.files name (data_of_isPrefix hne ?_ ?_)
            · rw [List.append_assoc, List.prefix_append_right_inj]
              simp
            · simp
      · rw [Function.update_of_ne (by rintro rfl; exact hstarts (List.prefix_refl _))]
        apply newest_congr
        intro name
        rw [leaves.data, removed]
        split
        · next hconcat =>
          obtain heq | hm := List.prefix_concat_iff.mp hconcat
          · rw [← heq, hdir]
            rfl
          · exact absurd hm hstarts
        · rfl
    have hsum := used_update hnewest
    rw [hws.size_newest h hns hkey hlength, Option.elim_none, Nat.add_zero] at hsum
    have hbalanced : Balanced (.delete auth ns key) s ↔
        (s.stored ns key).elim 0 ByteArray.size = 0 :=
      ⟨fun hkept => hkept checks, fun hzero _ => hzero⟩
    rw [hbalanced, final_ok, exact_of_lookup (by rw [leaves.accounts]; exact hlookup), hused]
    omega

end

/-! ## Runs -/

theorem exact_after (h : Opened s) (hs : s.Histories) {c : Call} (hc : c.Flat) {user : String}
    (huser : c.user = user) (hexact : Exact s user) : Exact (c.after s) user ↔ Balanced c s := by
  obtain ⟨ws, hws⟩ := hs c.ns c.key hc.ns hc.key
  subst huser
  cases c with
  | set auth ns key value => exact exact_set h hc.ns.plain hc.key.isPlain hws value hexact
  | delete auth ns key => exact exact_delete h hc.ns.plain hc.key.isPlain hws hexact

/-- In a run of calls of one user on flat keys the account is exact all along iff every call is
balanced. -/
theorem exact_iff_balanced (h : Opened s) (hs : s.Histories) {user : String}
    (hexact : Exact s user) {calls : List Call} (hcalls : ∀ c ∈ calls, c.Flat ∧ c.user = user) :
    (∀ calls', calls' <+: calls → Exact (runAll Call.after calls' s) user) ↔
      Meets Call.after Balanced calls s := by
  refine forall_prefix_iff_meets (I := (Exact · user)) (J := fun s => Opened s ∧ s.Histories)
    ?_ ?_ hcalls ⟨h, hs⟩ hexact
  · rintro c s ⟨hc, -⟩ ⟨h, hs⟩
    exact ⟨hc.opened h, hs.after h hc⟩
  · rintro c s ⟨hc, huser⟩ ⟨h, hs⟩ hexact
    exact exact_after h hs hc huser hexact

/-- Nothing is stored and nothing is charged. -/
theorem exact_of_empty {user : String} {account : FileResourceAccount}
    (hlookup : s.accountCache.lookup user = some account) (hused : account.usedBytes = 0)
    (hempty : ∀ l metadata, s.data l ≠ some (.file (.keyMetadata metadata))) : Exact s user := by
  refine ⟨account, hlookup, hused.trans ?_⟩
  symm
  refine (finsum_congr fun l => ?_).trans finsum_zero
  rw [newest]
  split
  · next metadata hfile =>
    exact absurd (FileSystem.contentOf_eq_some.mp hfile) (hempty _ metadata)
  · rfl

end

open InMemoryStorage (admin)

/-- The seeded storage is one to start from. -/
theorem seeded_exact : letI := limitedJson
    seeded.Histories ∧ Exact seeded "admin" := by
  let _ := limitedJson
  obtain ⟨-, -, -, -, hdata, account, hlookup, hused, -⟩ := seeded_ok
  refine ⟨.of_vacant fun ns key name hns hkey => ?_, exact_of_empty hlookup hused ?_⟩
  · by_contra hne
    obtain ⟨n, hn⟩ := Option.ne_none_iff_exists'.mp hne
    have hlength := (hdata _ n hn).1
    have hns' := List.length_pos_iff.mpr (Path.components_ne_nil ns)
    simp only [place, List.length_append, List.length_cons, List.length_nil] at hlength
    omega
  · intro l metadata hfile
    obtain ⟨-, hdir | ⟨-, metadata', hmetadata⟩⟩ := hdata l _ hfile
    · simp at hdir
    · simp at hmetadata

/-- A first value is balanced. -/
theorem balanced_set_seeded (value : ByteArray) : letI := limitedJson
    Balanced (.set (some admin) "ns" "k" value) seeded := by
  let _ := limitedJson
  obtain ⟨-, hopened, -, hempty, -⟩ := seeded_ok
  have hns := isNamespace_ns
  have hkey : Path.IsName "k" := by decide
  intro _ _ _
  have hnone : seeded.stored "ns" "k" = none :=
    (KeyHistory.of_vacant (hempty.vacant "k")).stored hopened hns.plain hkey.isPlain
  rw [hnone]
  exact ⟨Nat.zero_le _, .inl ⟨none, (entry_of_plain hopened hns.plain hkey.isPlain _).trans
    (hempty.vacant "k" _)⟩⟩

/-- What was charged for it is not given back when it is deleted. -/
theorem balanced_delete_seeded {value : ByteArray} (hsize : value.size ≤ 1000) :
    letI := limitedJson
    Balanced (.delete (some admin) "ns" "k") ((Call.set (some admin) "ns" "k" value).after seeded) →
      value.size = 0 := by
  let _ := limitedJson
  obtain ⟨-, hopened, -, hempty, -, account, hlookup, hused, hquota⟩ := seeded_ok
  have hns := isNamespace_ns
  have hkey : Path.IsName "k" := by decide
  have hflat : (Call.set (some admin) "ns" "k" value).Flat := ⟨hns, hkey⟩
  have hok := (set_first_ok hopened hns.plain hkey.isPlain hempty.namespaceExists
    (hempty.vacant "k") (hempty.free "k") value hlookup (by omega) (by omega)).1
  have hhistory : KeyHistory ((Call.set (some admin) "ns" "k" value).after seeded).data
      (place "ns" "k") [⟨"admin", value⟩] := by
    have hnext := (KeyHistory.of_vacant (hempty.vacant "k")).set hopened hns.plain hkey.isPlain
      (some admin) value
    rw [hok] at hnext
    exact hnext
  have hopened' := hflat.opened hopened
  intro hbalanced
  have hzero := hbalanced (checked_eq_ok.mpr
    ⟨admin_permitted _ _, hhistory.namespaceExists hopened' hns.plain (List.cons_ne_nil _ _)⟩)
  have hstored : ((Call.set (some admin) "ns" "k" value).after seeded).stored "ns" "k" =
      some value := hhistory.stored hopened' hns.plain hkey.isPlain
  rwa [hstored] at hzero

/-- Three bytes are counted as long as they stay. -/
theorem exact_iff_balanced_seeded : letI := limitedJson
    (∀ calls', calls' <+: [Call.set (some admin) "ns" "k" "abc".toUTF8] →
        Exact (runAll Call.after calls' seeded) "admin") ∧
      ¬ ∀ calls', calls' <+: [Call.set (some admin) "ns" "k" "abc".toUTF8,
          .delete (some admin) "ns" "k"] →
        Exact (runAll Call.after calls' seeded) "admin" := by
  let _ := limitedJson
  obtain ⟨-, hopened, -, -⟩ := seeded_ok
  obtain ⟨hhistories, hexact⟩ := seeded_exact
  have hsize : "abc".toUTF8.size = 3 := by decide
  have hkey : Path.IsName "k" := by decide
  have hset : (Call.set (some admin) "ns" "k" "abc".toUTF8).Flat := ⟨isNamespace_ns, hkey⟩
  have hdelete : (Call.delete (some admin) "ns" "k").Flat := ⟨isNamespace_ns, hkey⟩
  constructor
  · exact (exact_iff_balanced hopened hhistories hexact (by simpa using ⟨hset, rfl⟩)).mpr
      ⟨balanced_set_seeded _, trivial⟩
  · intro hall
    obtain ⟨-, hbalanced, -⟩ := (exact_iff_balanced hopened hhistories hexact
      (by simpa using ⟨⟨hset, rfl⟩, hdelete, rfl⟩)).mp hall
    have hzero := balanced_delete_seeded (by omega) hbalanced
    omega

/-- What was charged for three bytes is not given back when they are deleted. -/
theorem not_exact_run :
    ¬ ∀ [SerdeMetadata] (s : FileStorage) (user : String) (calls : List Call), Opened s →
      s.Histories → Exact s user → (∀ c ∈ calls, c.Flat ∧ c.user = user) →
      Exact (runAll Call.after calls s) user := by
  intro hall
  let _ := limitedJson
  obtain ⟨-, hopened, -, -⟩ := seeded_ok
  obtain ⟨hhistories, hexact⟩ := seeded_exact
  have hsize : "abc".toUTF8.size = 3 := by decide
  have hkey : Path.IsName "k" := by decide
  have hset : (Call.set (some admin) "ns" "k" "abc".toUTF8).Flat := ⟨isNamespace_ns, hkey⟩
  have hdelete : (Call.delete (some admin) "ns" "k").Flat := ⟨isNamespace_ns, hkey⟩
  have hfinal := hall seeded "admin" [.set (some admin) "ns" "k" "abc".toUTF8,
    .delete (some admin) "ns" "k"] hopened hhistories hexact
    (by simpa using ⟨⟨hset, rfl⟩, ⟨hdelete, rfl⟩⟩)
  rw [runAll_cons, runAll_cons, runAll_nil] at hfinal
  have hexact' := (exact_after hopened hhistories hset rfl hexact).mpr (balanced_set_seeded _)
  have hbalanced := (exact_after (hset.opened hopened) (hhistories.after hopened hset) hdelete rfl
    hexact').mp hfinal
  have hzero := balanced_delete_seeded (by omega) hbalanced
  omega

end FileStorage

end Covm
