import Covm.Partial.Runs
import Covm.Storage.Extensions
import Covm.Storage.History

/-!
# Optimistic locking

Clients read a key with `get_versioned` and later call `set_json_versioned` with the version they
read; any other calls come in between. A version number stands for the number of sets since the key
was created, so that a client that missed a change is told of it as long as the key was not deleted
in the meantime. After a deletion the numbers start again, and a key that is not there passes any
check.
-/

namespace Covm

open Maps Partial

namespace InMemoryStorage

/-! ## The check of the expected version -/

section check
variable {s : InMemoryStorage} {auth : Option AuthContext} {ns key : String}

theorem query_contains (auth : Option AuthContext) (ns key : String) (s : InMemoryStorage) :
    StorageM.query (StorageBackend.contains · auth ns key) s =
      .ok (s.data.get (ns, key)).isSome s := rfl

theorem query_getVersioned {found : ByteArray × VersionInfo}
    (h : s.getVersioned auth ns key = .ok found) :
    StorageM.query (VersionedBackend.getVersioned · auth ns key) s = .ok found s :=
  StorageM.query_of_ok h

theorem checkExpected_absent (hdata : s.data.get (ns, key) = none) (expected : Nat) :
    StorageExtensions.checkExpected auth ns key expected s = .ok () s := by
  unfold StorageExtensions.checkExpected
  rw [StorageM.bind_of_ok (query_contains auth ns key s), hdata]
  rfl

theorem checkExpected_present (hauth : checkPermission auth "read" ns = .ok ())
    {value : ByteArray} {info : VersionInfo} (hdata : s.data.get (ns, key) = some value)
    (hversion : s.versions.get (ns, key) = some info) (expected : Nat) :
    StorageExtensions.checkExpected auth ns key expected s =
      if info.version = expected then .ok () s
      else .error (.error (.versionConflict info.version expected key)) s := by
  have hget : s.getVersioned auth ns key = .ok (value, info) := by
    simp only [getVersioned, hauth, bind, Except.bind, hdata, hversion]
  unfold StorageExtensions.checkExpected
  rw [StorageM.bind_of_ok (query_contains auth ns key s), hdata, Option.isSome_some, if_pos rfl,
    StorageM.bind_of_ok (query_getVersioned hget)]
  by_cases heq : info.version = expected
  · simp [heq, pure, EStateM.pure]
  · simp [heq, StorageM.fail]

end check

/-! ## A conflict comes from the check only -/

def IsConflict : StorageFault → Prop
  | .error (.versionConflict _ _ _) => True
  | _ => False

/-- The computation never ends with a version conflict. -/
def NoConflict {α : Type} (x : StorageM InMemoryStorage α) : Prop :=
  ∀ s e s', x s = .error e s' → ¬ IsConflict e

namespace NoConflict

variable {α β : Type}

theorem bind {x : StorageM InMemoryStorage α} {f : α → StorageM InMemoryStorage β}
    (hx : NoConflict x) (hf : ∀ a, NoConflict (f a)) : NoConflict (x >>= f) := by
  intro s e s' h
  cases hs : x s with
  | ok a s₁ =>
    rw [StorageM.bind_of_ok hs] at h
    exact hf a s₁ e s' h
  | error e₁ s₁ =>
    have heq : (x >>= f) s = .error e₁ s₁ := by simp only [Bind.bind, EStateM.bind, hs]
    obtain ⟨rfl, -⟩ := EStateM.Result.error.inj (heq.symm.trans h)
    exact hx s e₁ s₁ hs

theorem pure (a : α) : NoConflict (Pure.pure a) := fun _ _ _ h => nomatch h

theorem modify (f : InMemoryStorage → InMemoryStorage) :
    NoConflict (modify f : StorageM InMemoryStorage PUnit) := fun _ _ _ h => nomatch h

theorem get : NoConflict (EStateM.get : StorageM InMemoryStorage InMemoryStorage) :=
  fun _ _ _ h => nomatch h

theorem fail {e : StorageError} (he : ¬ IsConflict (.error e)) :
    NoConflict (StorageM.fail e : StorageM InMemoryStorage α) := by
  intro s e' s' h
  cases h
  exact he

theorem query {f : InMemoryStorage → Except StorageError α}
    (hf : ∀ s e, f s = .error e → ¬ IsConflict (.error e)) : NoConflict (StorageM.query f) := by
  intro s e s' h
  unfold StorageM.query at h
  cases hs : f s with
  | ok a =>
    rw [hs] at h
    exact nomatch h
  | error e₁ =>
    rw [hs] at h
    cases h
    exact hf s e₁ hs

end NoConflict

theorem checkPermission_error {auth : Option AuthContext} {action ns : String} {e : StorageError}
    (h : checkPermission auth action ns = .error e) : ¬ IsConflict (.error e) := by
  unfold checkPermission at h
  cases auth with
  | none =>
    cases h
    exact id
  | some a =>
    dsimp only at h
    split_ifs at h <;> cases h <;> exact id

theorem getVersioned_error {s : InMemoryStorage} {auth : Option AuthContext} {ns key : String}
    {e : StorageError} (h : s.getVersioned auth ns key = .error e) :
    ¬ IsConflict (.error e) := by
  unfold getVersioned at h
  cases hauth : checkPermission auth "read" ns with
  | error e' =>
    simp only [hauth, bind, Except.bind] at h
    cases h
    exact checkPermission_error hauth
  | ok u =>
    simp only [hauth, bind, Except.bind] at h
    split at h
    · cases h
      exact id
    · split at h
      · simp at h
      · cases h
        exact id

theorem chargeDifference_noConflict (user internalKey : String) (existing size : Nat) :
    NoConflict (chargeDifference user internalKey existing size) := by
  intro s e s' h
  unfold chargeDifference at h
  split_ifs at h
  · split at h
    · cases h
      exact id
    · next account _ =>
      unfold ResourceAccount.addUsage at h
      by_cases hfit : account.canStore (size - existing)
      · simp [hfit] at h
      · simp only [hfit, Bool.not_false, if_true] at h
        cases h
        exact id

theorem set_noConflict (auth : Option AuthContext) (ns key : String) (value : ByteArray) :
    NoConflict (set auth ns key value) := by
  unfold set
  refine .bind (.query fun _ _ h => checkPermission_error h) fun _ => .bind .get fun s => ?_
  refine .bind (.modify _) fun _ => ?_
  cases auth with
  | none => exact .fail id
  | some a =>
    refine .bind (chargeDifference_noConflict _ _ _ _) fun _ => ?_
    exact .bind (.modify _) fun _ => .bind (.modify _) fun _ => .modify _

section versioned
variable {T : Type} [Serde T]

theorem encode_error {value : T} {e : StorageError}
    (h : StorageExtensions.encode value = .error e) : ¬ IsConflict (.error e) := by
  unfold StorageExtensions.encode at h
  split at h
  · exact nomatch h
  · cases h
    exact id

theorem setJson_noConflict (auth : Option AuthContext) (ns key : String) (value : T) :
    NoConflict (StorageExtensions.setJson auth ns key value) :=
  .bind (.query fun _ _ h => encode_error h) fun bytes => set_noConflict auth ns key bytes

/-- What comes after the check. -/
theorem setJsonVersioned_of_checked {s : InMemoryStorage} {auth : Option AuthContext}
    {ns key : String} {expected : Nat} (value : T)
    (h : StorageExtensions.checkExpected auth ns key expected s = .ok () s) :
    StorageExtensions.setJsonVersioned auth ns key value (some expected) s =
      StorageExtensions.setJsonVersioned auth ns key value none s := by
  unfold StorageExtensions.setJsonVersioned
  exact StorageM.bind_of_ok h

theorem setJsonVersioned_none (auth : Option AuthContext) (ns key : String) (value : T) :
    StorageExtensions.setJsonVersioned auth ns key value none =
      (do
        StorageExtensions.setJson auth ns key value
        let (_, info) ← StorageM.query (VersionedBackend.getVersioned · auth ns key)
        return info.version : StorageM InMemoryStorage Nat) := rfl

theorem setJsonVersioned_none_noConflict (auth : Option AuthContext) (ns key : String)
    (value : T) : NoConflict (StorageExtensions.setJsonVersioned auth ns key value none) := by
  rw [setJsonVersioned_none]
  refine .bind (setJson_noConflict auth ns key value) fun _ => ?_
  exact .bind (.query fun _ _ h => getVersioned_error h) fun found => .pure found.2.version

/-- A set with an expected version refuses and leaves the key alone, or is a set. -/
theorem setJsonVersioned_cases (auth : Option AuthContext) (ns key : String) (value : T)
    (s : InMemoryStorage) :
    (∃ e s', StorageExtensions.setJsonVersioned auth ns key value none s = .error e s' ∧
      s'.data = s.data ∧ s'.versions = s.versions) ∨
    ∃ a bytes s' n, auth = some a ∧ set (some a) ns key bytes s = .ok () s' ∧
      Stored a ns key bytes s s' ∧
      StorageExtensions.setJsonVersioned auth ns key value none s = .ok n s' := by
  cases hbytes : StorageExtensions.encode value with
  | error e =>
    left
    have hset : StorageExtensions.setJson auth ns key value s = .error (.error e) s :=
      StorageM.bind_of_error (StorageM.query_of_error hbytes)
    exact ⟨.error e, s, StorageM.bind_of_error hset, rfl, rfl⟩
  | ok bytes =>
    have hjson : StorageExtensions.setJson auth ns key value s = set auth ns key bytes s :=
      StorageM.bind_of_ok (StorageM.query_of_ok hbytes)
    obtain ⟨e, -, he⟩ | ⟨e, -, he⟩ | ⟨a, s', rfl, hok, hs'⟩ := set_cases auth ns key bytes s
    · left
      exact ⟨.error e, s, StorageM.bind_of_error (hjson.trans he), rfl, rfl⟩
    · left
      exact ⟨.error e, _, StorageM.bind_of_error (hjson.trans he),
        recordForRollback_data s ns key _, recordForRollback_versions s ns key _⟩
    · right
      obtain ⟨v, hversions⟩ := hs'.versions
      have hget : s'.getVersioned (some a) ns key = .ok (bytes, v) := by
        simp only [getVersioned, checkPermission_read hs'.permitted, bind, Except.bind, hs'.data,
          hversions, Function.update_self]
      refine ⟨a, bytes, s', v.version, rfl, hok, hs', ?_⟩
      rw [setJsonVersioned_none, StorageM.bind_of_ok (hjson.trans hok)]
      exact StorageM.bind_of_ok (query_getVersioned hget)

end versioned

/-! ## The clients -/

/-- What a successful call does to a key. -/
inductive Change where
  | written
  | deleted

/-- The number of sets of a key since it was created or last deleted. -/
def writesOf (changes : List Change) : Nat :=
  changes.foldl (fun n change => change.casesOn (n + 1) 0) 0

theorem writesOf_written (changes : List Change) :
    writesOf (changes ++ [.written]) = writesOf changes + 1 := by
  simp [writesOf]

theorem writesOf_deleted (changes : List Change) : writesOf (changes ++ [.deleted]) = 0 := by
  simp [writesOf]

/-- The change a call makes to the key, if it is a successful set or delete of it. -/
def Call.changes (ns key : String) (s : InMemoryStorage) : Call → List Change
  | .set auth ns' key' value =>
    if succeeded (InMemoryStorage.set auth ns' key' value s) ∧ (ns', key') = (ns, key) then
      [.written]
    else []
  | .delete auth ns' key' =>
    if succeeded (InMemoryStorage.delete auth ns' key' s) ∧ (ns', key') = (ns, key) then [.deleted]
    else []
  | _ => []

theorem writesOf_changes (ns key : String) (c : Call) (s : InMemoryStorage) {ws : List Write}
    {changes : List Change} (h : ws.length = writesOf changes) :
    (writtenAfter ns key c s ws).length = writesOf (changes ++ c.changes ns key s) := by
  cases c with
  | set auth ns' key' value =>
    rw [writtenAfter_set]
    show _ = writesOf (changes ++ if _ then _ else _)
    by_cases hkey : succeeded (set auth ns' key' value s) ∧ (ns', key') = (ns, key)
    · rw [if_pos hkey, if_pos hkey, List.length_append, List.length_singleton, writesOf_written, h]
    · rw [if_neg hkey, if_neg hkey, List.append_nil, h]
  | delete auth ns' key' =>
    rw [writtenAfter_delete]
    show _ = writesOf (changes ++ if _ then _ else _)
    by_cases hkey : succeeded (delete auth ns' key' s) ∧ (ns', key') = (ns, key)
    · rw [if_pos hkey, if_pos hkey, List.length_nil, writesOf_deleted]
    · rw [if_neg hkey, if_neg hkey, List.append_nil, h]
  | createAccount | createNamespace | beginTransaction | commitTransaction | rollbackTransaction =>
    simpa [writtenAfter, Call.changes] using h

/-- What a client has read: the version, and how many changes of the key there had been. -/
structure Reading where
  version : Nat
  seen : Nat
  deriving DecidableEq

/-- The storage, the changes of the key so far, and what each client has read last. -/
structure Clients (C : Type) where
  storage : InMemoryStorage
  changes : List Change
  readings : C → Option Reading

/-- A client reads the key or writes it with the version it has read; other calls are made by
anybody. -/
inductive Step (C T : Type) where
  | getVersioned (c : C)
  | setJsonVersioned (c : C) (value : T)
  | call (call : Call)

section clients
variable {C T : Type} [Serde T] (auth : C → Option AuthContext) (ns key : String)

/-- The call of a client that expects the version it has read. -/
def Clients.write (c : C) (value : T) (r : Reading) (s : Clients C) :
    EStateM.Result StorageFault InMemoryStorage Nat :=
  StorageExtensions.setJsonVersioned (auth c) ns key value (some r.version) s.storage

def Clients.start (clock : Nat → Nat) : Clients C := ⟨new clock, [], fun _ => none⟩

def Clients.afterWrite (s : Clients C) (result : EStateM.Result StorageFault InMemoryStorage Nat) :
    Clients C :=
  { s with
    storage := final result
    changes := s.changes ++ if succeeded result then [.written] else [] }

/-- A client that missed a change is told so, and nothing changes. -/
def ToldOfChanges : Step C T → Clients C → Prop
  | .setJsonVersioned c value, s => ∀ r, s.readings c = some r → r.seen ≠ s.changes.length →
    ∃ current, s.write auth ns key c value r =
      .error (.error (.versionConflict current r.version key)) s.storage
  | _, _ => True

/-- A client that missed a change finds the key there, with another number of sets since it was
created than the version it has read. -/
def NumberMoved : Step C T → Clients C → Prop
  | .setJsonVersioned c _, s => ∀ r, s.readings c = some r → r.seen ≠ s.changes.length →
    writesOf s.changes ≠ 0 ∧ versionNumber (writesOf s.changes) ≠ r.version
  | _, _ => True

/-- The number of sets is the version, and who has read may read. -/
structure Clients.Counted (s : Clients C) : Prop where
  tracks : ∃ ws : List Write, ws.length = writesOf s.changes ∧ Tracks ns key ws s.storage
  permitted : ∀ c r, s.readings c = some r → checkPermission (auth c) "read" ns = .ok ()

variable {auth ns key}

theorem counted_start (clock : Nat → Nat) :
    (Clients.start clock : Clients C).Counted auth ns key where
  tracks := ⟨[], rfl, tracks_new ns key clock⟩
  permitted _ _ h := nomatch h

/-- What the check of the expected version leads to. -/
theorem Clients.Counted.write_cases {s : Clients C} (h : s.Counted auth ns key) {c : C}
    {r : Reading} (hr : s.readings c = some r) (value : T) :
    (writesOf s.changes ≠ 0 ∧ versionNumber (writesOf s.changes) ≠ r.version ∧
      s.write auth ns key c value r = .error
        (.error (.versionConflict (versionNumber (writesOf s.changes)) r.version key)) s.storage) ∨
    ((writesOf s.changes = 0 ∨ versionNumber (writesOf s.changes) = r.version) ∧
      s.write auth ns key c value r =
        StorageExtensions.setJsonVersioned (auth c) ns key value none s.storage) := by
  obtain ⟨ws, hlength, htracks⟩ := h.tracks
  by_cases hne : ws = []
  · right
    have hdata : s.storage.data.get (ns, key) = none := by
      rw [htracks.value, hne]
      rfl
    refine ⟨.inl (by rw [← hlength, hne, List.length_nil]), ?_⟩
    exact setJsonVersioned_of_checked value (checkExpected_absent hdata r.version)
  · obtain ⟨hdata, info, hversion, hrecords⟩ := htracks.current hne
    have hcheck := checkExpected_present (h.permitted c r hr) hdata hversion r.version
    rw [hrecords.version_eq, hlength] at hcheck
    by_cases hsame : versionNumber (writesOf s.changes) = r.version
    · right
      rw [if_pos hsame] at hcheck
      exact ⟨.inr hsame, setJsonVersioned_of_checked value hcheck⟩
    · left
      rw [if_neg hsame] at hcheck
      refine ⟨?_, hsame, StorageM.bind_of_error hcheck⟩
      rw [← hlength]
      exact fun hzero => hne (List.length_eq_zero_iff.mp hzero)

/-- A client that missed a change is told so iff the number has moved. -/
theorem Clients.Counted.told_iff {s : Clients C} (h : s.Counted auth ns key) (step : Step C T) :
    ToldOfChanges auth ns key step s ↔ NumberMoved step s := by
  cases step with
  | getVersioned c => exact .rfl
  | call call => exact .rfl
  | setJsonVersioned c value =>
    refine forall₂_congr fun r hr => imp_congr_right fun _ => ?_
    obtain ⟨hne, hmoved, hconflict⟩ | ⟨hsame, hset⟩ := h.write_cases hr value
    · exact ⟨fun _ => ⟨hne, hmoved⟩, fun _ => ⟨_, hconflict⟩⟩
    · constructor
      · rintro ⟨current, hconflict⟩
        rw [hset] at hconflict
        exact absurd trivial (setJsonVersioned_none_noConflict (auth c) ns key value _ _ _ hconflict)
      · rintro ⟨hne, hmoved⟩
        exact absurd hsame (not_or.mpr ⟨hne, hmoved⟩)

variable [DecidableEq C]

variable (auth ns key) in
def Clients.read (c : C) (s : Clients C) : Clients C :=
  match s.storage.getVersioned (auth c) ns key with
  | .ok (_, info) =>
    { s with
      readings := Function.update s.readings c (some ⟨info.version, s.changes.length⟩) }
  | .error _ => s

variable (auth ns key) in
def Clients.after : Step C T → Clients C → Clients C
  | .getVersioned c, s => s.read auth ns key c
  | .setJsonVersioned c value, s =>
    (s.readings c).elim s fun r => s.afterWrite (s.write auth ns key c value r)
  | .call call, s =>
    { s with
      storage := call.after s.storage
      changes := s.changes ++ call.changes ns key s.storage }

theorem Clients.Counted.read {s : Clients C} (h : s.Counted auth ns key) (c : C) :
    (s.read auth ns key c).Counted auth ns key := by
  unfold Clients.read
  cases hread : s.storage.getVersioned (auth c) ns key with
  | error e => exact h
  | ok found =>
    refine ⟨h.tracks, ?_⟩
    intro d r hr
    by_cases hd : d = c
    · subst hd
      cases hpermission : checkPermission (auth d) "read" ns with
      | ok u => rfl
      | error e => simp [getVersioned, hpermission, bind, Except.bind] at hread
    · replace hr : Function.update s.readings c _ d = some r := hr
      rw [Function.update_of_ne hd] at hr
      exact h.permitted d r hr

theorem Clients.Counted.setJsonVersioned {s : Clients C} (h : s.Counted auth ns key) (c : C)
    (value : T) : (Clients.after auth ns key (.setJsonVersioned c value) s).Counted auth ns key := by
  show ((s.readings c).elim s _).Counted auth ns key
  cases hr : s.readings c with
  | none => exact h
  | some r =>
    obtain ⟨ws, hlength, htracks⟩ := h.tracks
    rw [Option.elim_some]
    unfold Clients.afterWrite
    obtain ⟨-, -, hconflict⟩ | ⟨-, hset⟩ := h.write_cases hr value
    · rw [hconflict, succeeded_error, if_neg Bool.false_ne_true, List.append_nil]
      exact h
    rw [hset]
    obtain ⟨e, s', he, hdata, hversions⟩ | ⟨a, bytes, s', n, -, hok, hstored, hn⟩ :=
      setJsonVersioned_cases (auth c) ns key value s.storage
    · rw [he, succeeded_error, if_neg Bool.false_ne_true, List.append_nil]
      exact ⟨⟨ws, hlength, htracks.congr (by rw [final_error, hdata])
        (by rw [final_error, hversions])⟩, h.permitted⟩
    · rw [hn, succeeded_ok, if_pos rfl]
      refine ⟨⟨ws ++ [⟨a.currentIdentityDid, bytes⟩], ?_, htracks.stored hok hstored⟩, h.permitted⟩
      rw [List.length_append, List.length_singleton, writesOf_written, hlength]

theorem Clients.Counted.after {s : Clients C} (h : s.Counted auth ns key) {step : Step C T}
    (hstep : ∀ call, step = .call call → NoRollback call) :
    (Clients.after auth ns key step s).Counted auth ns key := by
  cases step with
  | getVersioned c => exact h.read c
  | setJsonVersioned c value => exact h.setJsonVersioned c value
  | call call =>
    obtain ⟨ws, hlength, htracks⟩ := h.tracks
    exact ⟨⟨_, writesOf_changes ns key call s.storage hlength,
      htracks.step (hstep call rfl)⟩, h.permitted⟩

/-- In a run without rollback, every client that missed a change of the key is told so and changes
nothing, iff whenever a client that missed a change calls `set_json_versioned`, the key is there
and the number of its sets since it was created is not the version the client has read. -/
theorem told_iff_numberMoved (auth : C → Option AuthContext) (ns key : String) (clock : Nat → Nat)
    {steps : List (Step C T)} (hno : ∀ call, .call call ∈ steps → NoRollback call) :
    Partial.Meets (Clients.after auth ns key) (ToldOfChanges auth ns key) steps (.start clock) ↔
      Partial.Meets (Clients.after auth ns key) NumberMoved steps (.start clock) := by
  have hcalls : Partial.Meets (Clients.after auth ns key)
      (fun step _ => ∀ call, step = .call call → NoRollback call) steps (.start clock) :=
    meets_of_forall (fun _ hstep _ call heq => hno call (by rwa [heq] at hstep)) _
  exact meets_iff_meets (fun step s _ h => h.told_iff step) (fun _ _ hstep h _ => h.after hstep)
    hcalls (counted_start clock)

/-- The JSON text of the unit value. -/
instance : Serde Unit where
  typeName := "()"
  toVec _ := .ok "null".toUTF8
  fromSlice bytes := if bytes = "null".toUTF8 then .ok () else .error "expected unit"

/-- One client misses the deletion of a key that is then created again. -/
def missDeletion : List (Step Unit Unit) :=
  [.call (.createAccount (some admin) "admin" 1000), .call (.set (some admin) "ns" "k" "a".toUTF8),
    .getVersioned (), .call (.delete (some admin) "ns" "k"),
    .call (.set (some admin) "ns" "k" "b".toUTF8), .setJsonVersioned () ()]

/-- One client misses a set. -/
def missSet : List (Step Unit Unit) :=
  [.call (.createAccount (some admin) "admin" 1000), .call (.set (some admin) "ns" "k" "a".toUTF8),
    .getVersioned (), .call (.set (some admin) "ns" "k" "b".toUTF8), .setJsonVersioned () ()]

/-- The client of `missSet` is told. -/
theorem told_iff_numberMoved_missSet :
    Partial.Meets (Clients.after (fun _ => some admin) "ns" "k")
      (ToldOfChanges (fun _ => some admin) "ns" "k") missSet (.start fun _ => 0) := by
  refine (told_iff_numberMoved (fun _ => some admin) "ns" "k" (fun _ => 0)
    (by simp [missSet, NoRollback])).mpr ⟨trivial, trivial, trivial, trivial, ?_, trivial⟩
  intro r hr _
  have hread : (runAll (Clients.after (fun _ => some admin) "ns" "k") (missSet.take 4)
      (.start fun _ => 0)).readings () = some ⟨1, 1⟩ := by decide
  obtain rfl := Option.some.inj (hread.symm.trans hr)
  constructor <;> decide

/-- The client of `missDeletion` overwrites the value it never saw. -/
theorem update_lost : ¬ ∀ (C T : Type) [DecidableEq C] [Serde T] (auth : C → Option AuthContext)
    (ns key : String) (clock : Nat → Nat) (steps : List (Step C T)),
    (∀ call, .call call ∈ steps → NoRollback call) →
      Partial.Meets (Clients.after auth ns key) (ToldOfChanges auth ns key) steps
        (.start clock) := by
  intro h
  obtain ⟨-, -, -, -, -, htold, -⟩ := h Unit Unit (fun _ => some admin) "ns" "k" (fun _ => 0)
    missDeletion (by simp [missDeletion, NoRollback])
  obtain ⟨current, hconflict⟩ := htold ⟨1, 1⟩ (by decide) (by decide)
  have hok : succeeded (Clients.write (fun _ => some admin) "ns" "k" () () ⟨1, 1⟩
    (runAll (Clients.after (fun _ => some admin) "ns" "k") (missDeletion.take 5)
      (.start fun _ => 0))) = true := by decide
  exact Bool.noConfusion (hok.symm.trans (congrArg succeeded hconflict))

end clients

end InMemoryStorage

end Covm
