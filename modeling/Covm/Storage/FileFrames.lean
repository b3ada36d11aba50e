import Covm.Storage.FileHistory

/-!
# Calls on other keys

A key is read from its metadata and the file of its newest version. A `set` of another key makes
directories on the way to that key, and a `delete` removes whatever is below it: these are the ways
in which keys that share directories are not independent.
-/

namespace Covm

open Files Partial

namespace FileStorage

/-- The answers about a key are the same in two states. -/
structure Unchanged [SerdeMetadata] (s s' : FileStorage) (ns key : String) : Prop where
  get : ∀ auth, answer (FileStorage.get auth ns key s') = answer (FileStorage.get auth ns key s)
  getVersioned : ∀ auth, answer (FileStorage.getVersioned auth ns key s') =
    answer (FileStorage.getVersioned auth ns key s)
  contains : ∀ auth, s'.contains auth ns key = s.contains auth ns key

/-- The files that a read of a key looks for. -/
inductive LooksFor [SerdeMetadata] (s : FileStorage) (ns key : String) : Location → Prop
  | metadata : LooksFor s ns key (place ns key ++ ["metadata.json"])
  | value {metadata : KeyMetadata} {v : VersionInfo}
      (read : readKeyMetadata s ns key = .ok metadata)
      (last : metadata.versions.getLast? = some v) :
    LooksFor s ns key (place ns key ++ [versionName v.version])

section
variable [SerdeMetadata] {s s' : FileStorage} {ns key : String} (h : Opened s) (h' : Opened s')
  (hns : Path.IsPlain ns) (hkey : Path.IsPlain key)
include h h' hns hkey

/-- The answers stay if the files that are looked for do. -/
theorem unchanged_of_data (hexists : s.namespaceExists ns = true)
    (hexists' : s'.namespaceExists ns = true) (hdata : ∀ l, LooksFor s ns key l → s'.data l = s.data l) :
    Unchanged s s' ns key := by
  have hchecked : ∀ auth missing, checked s' auth "read" ns missing =
      checked s auth "read" ns missing := by
    intro auth missing
    rw [checked, checked, hexists, hexists']
  have hlatest : ∀ missing, readLatest s' ns key missing = readLatest s ns key missing := by
    intro missing
    apply readLatest_congr
    · rw [entry_of_plain h' hns hkey, entry_of_plain h hns hkey]
      exact hdata _ .metadata
    · intro metadata v hread hlast
      rw [entry_of_plain h' hns hkey, entry_of_plain h hns hkey]
      exact hdata _ (.value hread hlast)
  refine ⟨fun auth => ?_, fun auth => ?_, fun auth => ?_⟩
  · rw [(get_answer h'.loggable auth ns key).1, (get_answer h.loggable auth ns key).1, hchecked,
      hlatest]
  · rw [(getVersioned_answer h'.loggable auth ns key).1,
      (getVersioned_answer h.loggable auth ns key).1, hchecked,
      hlatest]
  · rw [contains_of_plain h' hns hkey, contains_of_plain h hns hkey, hdata _ .metadata]

open InMemoryStorage (admin)

/-- A file that is looked for is there before iff it is there afterwards, as a reader can tell. -/
theorem Unchanged.metadata_none_iff (hsame : Unchanged s s' ns key) :
    s'.data (place ns key ++ ["metadata.json"]) = none ↔
      s.data (place ns key ++ ["metadata.json"]) = none := by
  have hauth := admin_permitted "read" ns
  have hcontains := hsame.contains (some admin)
  rw [contains_of_plain h' hns hkey, contains_of_plain h hns hkey, hauth] at hcontains
  have hisSome : (s'.data (place ns key ++ ["metadata.json"])).isSome =
      (s.data (place ns key ++ ["metadata.json"])).isSome := Except.ok.inj hcontains
  rw [← Option.not_isSome_iff_eq_none, ← Option.not_isSome_iff_eq_none, hisSome]

theorem Unchanged.value_none_iff (hsame : Unchanged s s' ns key)
    (hexists : s.namespaceExists ns = true) (hexists' : s'.namespaceExists ns = true)
    {metadata : KeyMetadata}
    {v : VersionInfo} (hread : readKeyMetadata s ns key = .ok metadata)
    (hlast : metadata.versions.getLast? = some v)
    (hmetadata : s'.data (place ns key ++ ["metadata.json"]) =
      s.data (place ns key ++ ["metadata.json"])) :
    s'.data (place ns key ++ [versionName v.version]) = none ↔
      s.data (place ns key ++ [versionName v.version]) = none := by
  have hread' : readKeyMetadata s' ns key = .ok metadata := by
    rw [← hread]
    apply readKeyMetadata_congr
    rw [entry_of_plain h' hns hkey, entry_of_plain h hns hkey, hmetadata]
  -- only a missing file is reported as not found
  have hanswer : ∀ {t : FileStorage}, Opened t → t.namespaceExists ns = true →
      readKeyMetadata t ns key = .ok metadata →
      (answer (FileStorage.get (some admin) ns key t) =
          .error (.error (.notFound s!"{ns}:{key} (version {v.version})")) ↔
        t.data (place ns key ++ [versionName v.version]) = none) := by
    intro t ht hexists hread
    have hchecked : checked t (some admin) "read" ns s!"Namespace not found: {ns}" = .ok () :=
      checked_eq_ok.mpr ⟨admin_permitted _ _, hexists⟩
    rw [(get_answer ht.loggable (some admin) ns key).1, hchecked, readLatest_of_metadata hread hlast,
      readVersionData_eq, entry_of_plain ht hns hkey]
    cases t.data (place ns key ++ [versionName v.version]) with
    | none => exact iff_of_true rfl rfl
    | some n =>
      refine iff_of_false (fun heq => ?_) (Option.some_ne_none n)
      cases n with
      | directory => exact nomatch heq
      | file content => exact nomatch heq
  rw [← hanswer h' hexists' hread', ← hanswer h hexists hread, hsame.get]

end

/-! ## One call -/

section
variable [SerdeMetadata] {s : FileStorage} {ns k key : String} (h : Opened s)
  (hns : Path.IsPlain ns) (hk : Path.IsPlain k)
include h hns hk

/-- A successful `set` writes the metadata and a version, and makes directories. -/
theorem set_ok_data {auth : Option AuthContext} {value : ByteArray}
    (hok : succeeded (set auth ns k value s) = true) :
    s.namespaceExists ns = true ∧ s.Free (place ns k) ∧
      ∀ x, x ≠ place ns k ++ ["metadata.json"] → (∀ i, x ≠ place ns k ++ [versionName i]) →
        (final (set auth ns k value s)).data x = mkdirs (place ns k) s.data x := by
  have houtcome := set_outcome h hns hk auth value
  generalize set auth ns k value s = r at houtcome hok
  cases houtcome with
  | refused => exact nomatch hok
  | blocked => exact nomatch hok
  | overdrawn => exact nomatch hok
  | unreadable => exact nomatch hok
  | exhausted => exact nomatch hok
  | halfStored => exact nomatch hok
  | stored old time createdAt checks free fits read number file leaves =>
    refine ⟨(checked_eq_ok.mp checks).2, free, fun x hmetadata hversion => ?_⟩
    rw [final_ok, leaves.data, Function.update_of_ne (hversion _), withMetadata,
      Function.update_of_ne hmetadata]

theorem delete_ok_data {auth : Option AuthContext}
    (hok : succeeded (delete auth ns k s) = true) :
    s.namespaceExists ns = true ∧
      (final (delete auth ns k s)).data = removed (place ns k) s.data := by
  have houtcome := delete_outcome h hns hk auth
  generalize delete auth ns k s = r at houtcome hok
  cases houtcome with
  | refused => exact nomatch hok
  | missing => exact nomatch hok
  | deleted d v checks read leaves => exact ⟨(checked_eq_ok.mp checks).2, leaves.data⟩

omit hns hk in
theorem data_of_read (hns : Path.IsPlain ns) (hkey : Path.IsPlain key) {metadata : KeyMetadata}
    (hread : readKeyMetadata s ns key = .ok metadata) :
    ∃ content, s.data (place ns key ++ ["metadata.json"]) = some (.file content) := by
  have hold : HasMetadata s ns key (some metadata) := hread
  have hsome := hold.isSome
  have hdir := hold.not_directory
  rw [entry_of_plain h hns hkey] at hsome hdir
  cases hnode : s.data (place ns key ++ ["metadata.json"]) with
  | none =>
    rw [hnode] at hsome
    exact nomatch hsome
  | some n =>
    cases n with
    | directory => exact absurd hnode hdir
    | file content => exact ⟨content, rfl⟩

omit [SerdeMetadata] h hns hk in
theorem place_concat_ne (hne : k ≠ key) (name name' : String) :
    place ns key ++ [name] ≠ place ns k ++ [name'] := by
  intro heq
  have hplaces := List.append_inj_left' heq rfl
  exact hne (Path.components_injective (List.cons.inj (List.append_cancel_left hplaces)).2).symm

/-- A `set` leaves another key alone iff it makes no directory where a file of that key is looked
for. -/
theorem unchanged_set_iff (hkey : Path.IsPlain key) (hne : k ≠ key) {auth : Option AuthContext}
    {value : ByteArray} (hok : succeeded (set auth ns k value s) = true) :
    Unchanged s (final (set auth ns k value s)) ns key ↔
      ∀ l, LooksFor s ns key l → s.data l = none → ¬ l <+: place ns k := by
  obtain ⟨hexists, hfree, hdata⟩ := set_ok_data h hns hk hok
  have hapart := (set_touches h hns hk auth value).apart
  generalize final (set auth ns k value s) = s' at hdata hapart
  have h' := h.apart hapart
  have hfile : ∀ name, s'.data (place ns key ++ [name]) =
      mkdirs (place ns k) s.data (place ns key ++ [name]) :=
    fun name => hdata _ (place_concat_ne hne name _) fun _ => place_concat_ne hne name _
  have hexists' : s'.namespaceExists ns = true := by
    have hshort : ∀ name, Path.components ns ≠ place ns k ++ [name] := by
      intro name heq
      have hlength := congrArg List.length heq
      simp only [place, List.length_append, List.length_cons, List.length_nil] at hlength
      omega
    apply namespaceExists_of_data h' hns (l := [])
    rw [List.append_nil, hdata _ (hshort _) fun _ => hshort _, mkdirs, if_pos]
    · exact Option.some_ne_none _
    · simp [place]
  constructor
  · intro hsame l hl hnone hstarts
    have hdir : mkdirs (place ns k) s.data l = some .directory := if_pos hstarts
    cases hl with
    | metadata =>
      rw [← hfile, (hsame.metadata_none_iff h h' hns hkey).mpr hnone] at hdir
      simp at hdir
    | @value metadata v hread hlast =>
      obtain ⟨content, hcontent⟩ := data_of_read h hns hkey hread
      have hmetadata : s'.data (place ns key ++ ["metadata.json"]) =
          s.data (place ns key ++ ["metadata.json"]) := by
        rw [hfile, mkdirs_of_not_isPrefix fun hmade => hfree _ hmade content hcontent]
      rw [← hfile, (hsame.value_none_iff h h' hns hkey hexists hexists' hread hlast
        hmetadata).mpr hnone] at hdir
      simp at hdir
  · intro hapart
    apply unchanged_of_data h h' hns hkey hexists hexists'
    intro l hl
    have hmade : s'.data l = mkdirs (place ns k) s.data l := by
      cases hl with
      | metadata => exact hfile _
      | value hread hlast => exact hfile _
    rw [hmade, mkdirs]
    split
    · next hstarts =>
      cases hnode : s.data l with
      | none => exact absurd hstarts (hapart l hl hnode)
      | some n =>
        cases n with
        | directory => rfl
        | file content => exact absurd hnode (hfree l hstarts content)
    · rfl

/-- A `delete` leaves another key alone iff it removes no file that is looked for. -/
theorem unchanged_delete_iff (hkey : Path.IsPlain key) {auth : Option AuthContext}
    (hok : succeeded (delete auth ns k s) = true) :
    Unchanged s (final (delete auth ns k s)) ns key ↔
      ∀ l, LooksFor s ns key l → s.data l ≠ none → ¬ place ns k <+: l := by
  obtain ⟨hexists, hdata⟩ := delete_ok_data h hns hk hok
  have hapart := (delete_touches h hns hk auth).apart
  generalize final (delete auth ns k s) = s' at hdata hapart
  have h' := h.apart hapart
  have hexists' : s'.namespaceExists ns = true := by
    rw [← hexists, namespaceExists_of_plain h' hns, namespaceExists_of_plain h hns,
      hapart.namespaceCache, hdata, removed, if_neg]
    intro hstarts
    have hlength := hstarts.length_le
    simp only [place, List.length_append, List.length_cons] at hlength
    omega
  have hkept : ∀ l, s'.data l ≠ none → s'.data l = s.data l := by
    intro l hl
    rw [hdata, removed] at hl ⊢
    split at hl
    · exact absurd rfl hl
    · next hstarts => exact if_neg hstarts
  constructor
  · intro hsame l hl hnone hstarts
    have hgone : s'.data l = none := by
      rw [hdata]
      exact if_pos hstarts
    cases hl with
    | metadata => exact hnone ((hsame.metadata_none_iff h h' hns hkey).mp hgone)
    | @value metadata v hread hlast =>
      obtain ⟨content, hcontent⟩ := data_of_read h hns hkey hread
      have hmetadata : s'.data (place ns key ++ ["metadata.json"]) ≠ none := by
        rw [Ne, hsame.metadata_none_iff h h' hns hkey, hcontent]
        exact Option.some_ne_none _
      exact hnone ((hsame.value_none_iff h h' hns hkey hexists hexists' hread hlast
        (hkept _ hmetadata)).mp hgone)
  · intro hapart
    apply unchanged_of_data h h' hns hkey hexists hexists'
    intro l hl
    rw [hdata, removed]
    split
    · next hstarts =>
      by_contra hne
      exact hapart l hl (Ne.symm hne) hstarts
    · rfl

/-- A call on one key does not get in the way of another key: no directory is made where a file of
that key is missing, and none of its files is removed. -/
def Independent (key : String) : Call → FileStorage → Prop
  | .set _ ns k _, s => ∀ l, LooksFor s ns key l → s.data l = none → ¬ l <+: place ns k
  | .delete _ ns k, s => ∀ l, LooksFor s ns key l → s.data l ≠ none → ¬ place ns k <+: l

omit h hns hk in
/-- A successful call leaves `get`, `get_versioned` and `contains` of another key alone iff it does
not get in its way. -/
theorem unchanged_iff_independent (h : Opened s) {c : Call} (hns : Path.IsPlain c.ns)
    (hk : Path.IsPlain c.key) (hkey : Path.IsPlain key) (hne : c.key ≠ key)
    (hok : succeeded (c.perform s) = true) :
    Unchanged s (c.after s) c.ns key ↔ Independent key c s := by
  cases c with
  | set auth ns k value => exact unchanged_set_iff h hns hk hkey hne hok
  | delete auth ns k => exact unchanged_delete_iff h hns hk hkey hok

end

open InMemoryStorage (admin)

theorem unchanged_iff_independent_seeded : letI := limitedJson
    Unchanged seeded ((Call.set (some admin) "ns" "a" "x".toUTF8).after seeded) "ns" "b" := by
  let _ := limitedJson
  obtain ⟨-, hopened, -, hempty, -, account, hlookup, hused, hquota⟩ := seeded_ok
  have ha : Path.IsName "a" := by decide
  have hb : Path.IsName "b" := by decide
  have hsize : "x".toUTF8.size = 1 := by decide
  have hok := (set_first_ok hopened hempty.plain ha.isPlain hempty.namespaceExists
    (hempty.vacant "a") (hempty.free "a") "x".toUTF8 hlookup (by omega) (by omega)).1
  have hlengths : (place "ns" "a").length = (place "ns" "b").length := by decide
  refine (unchanged_iff_independent hopened (c := .set _ _ _ _) hempty.plain ha.isPlain hb.isPlain
    (by decide) hok).mpr fun l hl _ hprefix => ?_
  -- a file of `b` lies one level below the directory of `a`
  have hle := hprefix.length_le
  cases hl <;> simp [hlengths] at hle

theorem votes_ne_versionName (i : Nat) : "votes" ≠ versionName i := by
  intro heq
  have hlengths := congrArg (List.length ∘ String.toList) heq
  simp [toList_versionName] at hlengths

/-- A proposal and a vote on it can both be stored. -/
theorem exists_nested [SerdeMetadata] : ∃ s, Opened s ∧ s.namespaceExists "ns" = true ∧
    s.stored "ns" "proposals/p" ≠ none ∧
    s.data (place "ns" "proposals/p/votes/v" ++ ["metadata.json"]) ≠ none := by
  obtain ⟨-, hopened, -, hempty, -, account, hlookup, hused, hquota⟩ := seeded_ok
  have hproposal := isPlain_proposal
  have hvote := isPlain_vote
  have hplace : place "ns" "proposals/p/votes/v" = place "ns" "proposals/p" ++ ["votes", "v"] := by
    simp [place, components_proposal, components_vote]
  have hns := hempty.plain
  have hsize : "open".toUTF8.size = 4 := by decide
  -- the proposal
  obtain ⟨hok₁, hdir₁⟩ := set_first_ok hopened hns hproposal hempty.namespaceExists
    (hempty.vacant _) (hempty.free _) "open".toUTF8 hlookup (by omega) (by omega)
  have hws₁ := (KeyHistory.of_vacant (hempty.vacant "proposals/p")).set hopened hns hproposal
    (some admin) "open".toUTF8
  have h₁ := hopened.apart
    (set_touches hopened hns hproposal (some admin) "open".toUTF8).apart
  obtain ⟨-, -, hdata₁⟩ := set_ok_data hopened hns hproposal hok₁
  rw [hok₁, if_pos rfl] at hws₁
  generalize final (set (some admin) "ns" "proposals/p" "open".toUTF8 seeded) = s₁ at *
  have hexists₁ := hws₁.namespaceExists h₁ hns (by simp)
  have hvotes₁ : s₁.data (place "ns" "proposals/p" ++ ["votes"]) = none := by
    rw [hdata₁ _ (by simp) fun i => by simpa using votes_ne_versionName i, mkdirs_concat]
    exact hempty.vacant _ _
  have hbelow₁ : ∀ l, s₁.data (place "ns" "proposals/p" ++ "votes" :: l) = none := fun l =>
    data_eq_none_of_isPrefix hvotes₁ (by simp)
  have hfree₁ : s₁.Free (place "ns" "proposals/p/votes/v") := by
    rw [hplace]
    intro m hm content hfile
    obtain hm | ⟨l, rfl⟩ := List.prefix_or_prefix_of_prefix hm (List.prefix_append _ _)
    · exact free_of_directory hdir₁ m hm content hfile
    · rw [List.prefix_append_right_inj] at hm
      cases l with
      | nil =>
        rw [List.append_nil, hdir₁] at hfile
        simp at hfile
      | cons name l =>
        obtain ⟨rfl, -⟩ := List.cons_prefix_cons.mp hm
        rw [hbelow₁] at hfile
        simp at hfile
  -- the vote
  have hvacant₁ : ∀ name, s₁.data (place "ns" "proposals/p/votes/v" ++ [name]) = none := by
    intro name
    rw [hplace, List.append_assoc]
    exact hbelow₁ _
  obtain ⟨hok₂, -⟩ := (KeyHistory.of_vacant hvacant₁).set_ok h₁ hns hvote (by simp)
    (some admin) ByteArray.empty (checked_eq_ok.mpr ⟨admin_permitted _ _, hexists₁⟩) hfree₁ (by
      rintro ⟨hpos, -⟩
      simp [growth] at hpos)
  have hws₂ := (KeyHistory.of_vacant hvacant₁).set h₁ hns hvote (some admin) ByteArray.empty
  have h₂ := h₁.apart (set_touches h₁ hns hvote (some admin) ByteArray.empty).apart
  obtain ⟨-, -, hdata₂⟩ := set_ok_data h₁ hns hvote hok₂
  rw [hok₂, if_pos rfl] at hws₂
  generalize final (set (some admin) "ns" "proposals/p/votes/v" ByteArray.empty s₁) = s₂ at *
  refine ⟨s₂, h₂, hws₂.namespaceExists h₂ hns (by simp), ?_, ?_⟩
  · have hsame : ∀ name, name ≠ "votes" → s₂.data (place "ns" "proposals/p" ++ [name]) =
        s₁.data (place "ns" "proposals/p" ++ [name]) := by
      intro name hname
      rw [hdata₂ _ (place_concat_ne (by decide) _ _) fun _ => place_concat_ne (by decide) _ _,
        mkdirs_of_not_isPrefix]
      rw [hplace, List.prefix_append_right_inj, List.cons_prefix_cons]
      exact fun hstarts => hname hstarts.1
    have hlatest : readLatest s₂ "ns" "proposals/p" "" = readLatest s₁ "ns" "proposals/p" "" := by
      apply readLatest_congr
      · rw [entry_of_plain h₂ hns hproposal, entry_of_plain h₁ hns hproposal,
          hsame _ (by decide)]
      · intro metadata v _ _
        rw [entry_of_plain h₂ hns hproposal, entry_of_plain h₁ hns hproposal,
          hsame _ (votes_ne_versionName _).symm]
    rw [stored, hlatest, ← stored, hws₁.stored h₁ hns hproposal]
    exact Option.some_ne_none _
  · obtain ⟨-, hempty⟩ | ⟨metadata, hfile, -⟩ := hws₂.metadata
    · exact absurd hempty (by simp)
    · rw [hfile]
      exact Option.some_ne_none _

/-- Deleting a proposal removes the votes on it. -/
theorem not_unchanged_delete :
    ¬ ∀ [SerdeMetadata] (s : FileStorage) (c : Call) (key : String), Opened s → Path.IsPlain c.ns →
      Path.IsPlain c.key → Path.IsPlain key → c.key ≠ key → succeeded (c.perform s) = true →
      Unchanged s (c.after s) c.ns key := by
  intro hall
  let _ := limitedJson
  obtain ⟨s, h, hexists, hstored, hvote⟩ := exists_nested
  have hok := delete_ok h isNamespace_ns.plain isPlain_proposal (some admin)
    (checked_eq_ok.mpr ⟨admin_permitted _ _, hexists⟩) hstored
  have hsame := hall s (.delete (some admin) "ns" "proposals/p") "proposals/p/votes/v" h
    isNamespace_ns.plain isPlain_proposal isPlain_vote (by decide) hok
  refine (unchanged_delete_iff h isNamespace_ns.plain isPlain_proposal isPlain_vote hok).mp hsame _
    .metadata hvote ?_
  simp [place, components_proposal, components_vote]

end FileStorage

end Covm
