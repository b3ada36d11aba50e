import Covm.Storage.FileFrames
import Covm.Storage.FileUndo

/-!
# Rolling back calls on files

A rollback undoes the recorded operations from the last to the first. What it needs to know of a
key depends on the first operation that was recorded for it: if that is a `set` of a value, the
metadata must be what the `set`s made of it; otherwise the directory is removed or written anew at
the end, and it is enough that the steps before that do not fail.
-/

namespace Covm

open Files Partial

/-! ## The log of a transaction -/

namespace TransactionOp

/-- The key of an operation on a key. -/
def target : TransactionOp → Option (String × String)
  | set ns key _ _ => some (ns, key)
  | delete ns key _ _ => some (ns, key)
  | createNamespace _ => none
  | deleteNamespace _ _ => none

/-- Whether a value was replaced. -/
def replaces : TransactionOp → Bool
  | set _ _ (some _) _ => true
  | _ => false

/-- The first operation on a key. -/
def first (log : List TransactionOp) (p : String × String) : Option TransactionOp :=
  log.find? fun op => decide (op.target = some p)

variable {log : List TransactionOp} {op : TransactionOp} {p : String × String}

theorem first_concat_of_ne (h : op.target ≠ some p) : first (log ++ [op]) p = first log p := by
  rw [first, List.find?_append, List.find?_singleton, if_neg (by simpa using h), Option.or_none,
    first]

theorem first_concat_self (h : op.target = some p) :
    first (log ++ [op]) p = (first log p).or (some op) := by
  rw [first, List.find?_append, List.find?_singleton, if_pos (by simpa using h), first]

end TransactionOp

namespace FileStorage

open TransactionOp (first)

/-! ## Keys during a transaction -/

section keys
variable [SerdeMetadata] {tree tree' : Location → Option (Node FileContent)} {l : Location}
  {op : Option TransactionOp}

/-- A key whose calls in a transaction can be undone: if there are any, its metadata is as a `set`
writes it. -/
inductive Kept (op : Option TransactionOp) (tree : Location → Option (Node FileContent))
    (l : Location) : Prop
  | absent (h : tree l = none)
  | present (metadata : KeyMetadata) (v : VersionInfo) (d : ByteArray)
      (directory : KeyDirectory tree l) (reads : Reads tree l metadata v d)
      (written : op ≠ none → Written tree l metadata)

/-- A key before some operations, and after they have been undone; `op` is the first operation on it
before these. -/
inductive Near (op : Option TransactionOp) (tree tree' : Location → Option (Node FileContent))
    (l : Location) : Prop
  | absent (old : tree l = none) (new : tree' l = none)
  | present (old : KeyDirectory tree l) (new : KeyDirectory tree' l)
      (untouched : op = none → ∃ metadata v metadata' v' d,
        Reads tree l metadata v d ∧ Reads tree' l metadata' v' d)
      (touched : op ≠ none → ∃ metadata, Written tree' l metadata ∧
        (op.any (·.replaces) = true → Parses tree l metadata))

theorem Kept.congr (h : Kept op tree l) (hsame : ∀ m, l <+: m → tree' m = tree m) :
    Kept op tree' l := by
  cases h with
  | absent h => exact .absent ((hsame l (List.prefix_refl l)).trans h)
  | present metadata v d directory reads written =>
    exact .present metadata v d (directory.congr hsame) (reads.congr hsame)
      fun hop => (written hop).congr hsame

theorem Kept.near (h : Kept op tree l) : Near op tree tree l := by
  cases h with
  | absent h => exact .absent h h
  | present metadata v d directory reads written =>
    refine .present directory directory (fun _ => ⟨metadata, v, metadata, v, d, reads, reads⟩) ?_
    intro hop
    exact ⟨metadata, written hop, fun _ => reads.read⟩

theorem Near.congr {tree₁ tree₁' : Location → Option (Node FileContent)}
    (h : Near op tree tree' l) (hsame : ∀ m, l <+: m → tree₁ m = tree m)
    (hsame' : ∀ m, l <+: m → tree₁' m = tree' m) : Near op tree₁ tree₁' l := by
  cases h with
  | absent old new =>
    exact .absent ((hsame l (List.prefix_refl l)).trans old)
      ((hsame' l (List.prefix_refl l)).trans new)
  | present old new untouched touched =>
    refine .present (old.congr hsame) (new.congr hsame') (fun hop => ?_) fun hop => ?_
    · obtain ⟨metadata, v, metadata', v', d, hreads, hreads'⟩ := untouched hop
      exact ⟨metadata, v, metadata', v', d, hreads.congr hsame, hreads'.congr hsame'⟩
    · obtain ⟨metadata, hwritten, hparses⟩ := touched hop
      exact ⟨metadata, hwritten.congr hsame', fun hreplaces => (hparses hreplaces).congr hsame⟩

end keys

/-! ## The state during a transaction -/

/-- A flat key of an existing namespace. -/
structure Regular (s : FileStorage) (p : String × String) : Prop where
  ns : IsNamespace p.1
  key : Path.IsName p.2
  keys : s.data (Path.components p.1 ++ ["keys"]) = some .directory

section
variable {s s' : FileStorage} {p : String × String}

theorem Regular.separate (h : s.Regular p) {q : String × String} (hq : s.Regular q) (hne : p ≠ q) :
    Separate (place p.1 p.2) (place q.1 q.2) :=
  separate_of_ne h.ns hq.ns h.key hq.key hne

/-- The directories of the keys are in none of them. -/
theorem Regular.not_isPrefix (h : s.Regular p) {q : String × String} (hq : s.Regular q) :
    ¬ place p.1 p.2 <+: Path.components q.1 ++ ["keys"] := by
  intro hstarts
  rw [place, Path.components_of_isName h.key] at hstarts
  have hnil := (h.ns.eq_of_isPrefix hq.ns hstarts).2
  simp at hnil

/-- Only the directory of a key is made, as its parent is there. -/
theorem Regular.mkdirs_eq (h : s.Regular p) {x : Location} (hx : ¬ place p.1 p.2 <+: x) :
    mkdirs (place p.1 p.2) s.data x = s.data x := by
  by_cases hstarts : x <+: place p.1 p.2
  · have hplace : place p.1 p.2 = (Path.components p.1 ++ ["keys"]) ++ [p.2] := by
      rw [place, Path.components_of_isName h.key, List.append_assoc, List.singleton_append]
    rw [hplace] at hstarts
    obtain heq | hparent := List.prefix_concat_iff.mp hstarts
    · rw [hplace, heq] at hx
      exact absurd (List.prefix_refl _) hx
    · have hdir := congrFun (mkdirs_of_directory h.keys) x
      rw [mkdirs, if_pos hparent] at hdir
      rw [mkdirs, if_pos (hplace ▸ hstarts), hdir]
  · exact mkdirs_of_not_isPrefix hstarts

theorem Regular.free (h : s.Regular p) (hnone : s.data (place p.1 p.2) = none) :
    s.Free (place p.1 p.2) := by
  intro m hm content hfile
  by_cases heq : place p.1 p.2 <+: m
  · rw [data_eq_none_of_isPrefix hnone heq] at hfile
    simp at hfile
  · have hdir := h.mkdirs_eq heq
    rw [mkdirs, if_pos hm, hfile] at hdir
    simp at hdir

theorem Regular.congr (h : s.Regular p) {q : String × String} (hq : s.Regular q)
    (hsame : ∀ x, ¬ place q.1 q.2 <+: x → s'.data x = s.data x) : s'.Regular p where
  ns := h.ns
  key := h.key
  keys := (hsame _ (hq.not_isPrefix h)).trans h.keys

end

section
variable [SerdeMetadata] {K : Set (String × String)} {log : List TransactionOp} {op : TransactionOp}
  {s s' t t' : FileStorage} {p : String × String}

/-- All the keys in `K` can be restored from the log. -/
structure Journaled (K : Set (String × String)) (log : List TransactionOp) (s : FileStorage) :
    Prop where
  opened : Opened s
  regular : ∀ p ∈ K, s.Regular p
  kept : ∀ p ∈ K, Kept (first log p) s.data (place p.1 p.2)

/-- `s` before some operations, and `t` after they have been undone. -/
structure Close (K : Set (String × String)) (log : List TransactionOp) (s t : FileStorage) :
    Prop where
  apart : Apart s t
  outside : ∀ x, (∀ p ∈ K, ¬ place p.1 p.2 <+: x) → t.data x = s.data x
  inside : ∀ p ∈ K, Near (first log p) s.data t.data (place p.1 p.2)

theorem Journaled.close (h : Journaled K log s) : Close K log s s :=
  ⟨.refl s, fun _ _ => rfl, fun p hp => (h.kept p hp).near⟩

/-- One more operation is recorded. -/
theorem Journaled.record (h : Journaled K log s) (hp : p ∈ K) (htarget : op.target = some p)
    (hapart : Apart s s') (hsame : ∀ x, ¬ place p.1 p.2 <+: x → s'.data x = s.data x)
    (hkept : Kept (first (log ++ [op]) p) s'.data (place p.1 p.2)) :
    Journaled K (log ++ [op]) s' where
  opened := h.opened.apart hapart
  regular q hq := (h.regular q hq).congr (h.regular p hp) hsame
  kept q hq := by
    by_cases heq : p = q
    · rwa [← heq]
    · have hseparate := (h.regular p hp).separate (h.regular q hq) heq
      rw [TransactionOp.first_concat_of_ne (by simpa [htarget] using heq)]
      refine (h.kept q hq).congr fun x hx => hsame x fun hstarts => ?_
      obtain hpq | hqp := List.prefix_or_prefix_of_prefix hstarts hx
      · exact hseparate.1 hpq
      · exact hseparate.2 hqp

/-- One operation is undone. -/
theorem Close.undo (h : Journaled K log s) (hp : p ∈ K) (htarget : op.target = some p)
    (hapart : Apart s s') (hsame : ∀ x, ¬ place p.1 p.2 <+: x → s'.data x = s.data x)
    (hclose : Close K (log ++ [op]) s' t') (hapart' : Apart t' t)
    (hsame' : ∀ x, ¬ place p.1 p.2 <+: x → t.data x = t'.data x)
    (hnear : Near (first log p) s.data t.data (place p.1 p.2)) : Close K log s t where
  apart := (hapart.trans hclose.apart).trans hapart'
  outside x hx := by
    rw [hsame' x (hx p hp), hclose.outside x hx, hsame x (hx p hp)]
  inside q hq := by
    by_cases heq : p = q
    · rwa [← heq]
    · have hseparate := (h.regular p hp).separate (h.regular q hq) heq
      have hnear' := hclose.inside q hq
      rw [TransactionOp.first_concat_of_ne (by simpa [htarget] using heq)] at hnear'
      have hother : ∀ x, place q.1 q.2 <+: x → ¬ place p.1 p.2 <+: x := by
        intro x hx hstarts
        obtain hpq | hqp := List.prefix_or_prefix_of_prefix hstarts hx
        · exact hseparate.1 hpq
        · exact hseparate.2 hqp
      exact hnear'.congr (fun x hx => (hsame x (hother x hx)).symm)
        fun x hx => hsame' x (hother x hx)

/-- As long as `base` is restored by undoing the operations of the log. -/
def Undoable (base : FileStorage) (K : Set (String × String)) (log : List TransactionOp)
    (s : FileStorage) : Prop :=
  Journaled K log s ∧
    ∀ t, Close K log s t → ∃ t', undoAll log.reverse t = .ok () t' ∧ Close K [] base t'

theorem Journaled.undoable (h : Journaled K [] s) : Undoable s K [] s :=
  ⟨h, fun t ht => ⟨t, rfl, ht⟩⟩

/-- Nothing is recorded and nothing is changed. -/
theorem Undoable.unrecorded {base : FileStorage} (h : Undoable base K log s) (hapart : Apart s s')
    (hdata : s'.data = s.data) : Undoable base K log s' := by
  refine ⟨⟨h.1.opened.apart hapart, fun p hp => ?_, fun p hp => ?_⟩, fun t ht => h.2 t ?_⟩
  · have hregular := h.1.regular p hp
    exact ⟨hregular.ns, hregular.key, by rw [hdata]; exact hregular.keys⟩
  · rw [hdata]
    exact h.1.kept p hp
  · refine ⟨hapart.trans ht.apart, fun x hx => ?_, fun p hp => ?_⟩
    · rw [← hdata]
      exact ht.outside x hx
    · rw [← hdata]
      exact ht.inside p hp

/-- An operation is recorded that can be undone. -/
theorem Undoable.recorded {base : FileStorage} (h : Undoable base K log s) (hp : p ∈ K)
    (htarget : op.target = some p) (hapart : Apart s s')
    (hsame : ∀ x, ¬ place p.1 p.2 <+: x → s'.data x = s.data x)
    (hkept : Kept (first (log ++ [op]) p) s'.data (place p.1 p.2))
    (hundo : ∀ t', Close K (log ++ [op]) s' t' → ∃ t, undo op t' = .ok () t ∧ Apart t' t ∧
      (∀ x, ¬ place p.1 p.2 <+: x → t.data x = t'.data x) ∧
      Near (first log p) s.data t.data (place p.1 p.2)) :
    Undoable base K (log ++ [op]) s' := by
  refine ⟨h.1.record hp htarget hapart hsame hkept, fun t' ht' => ?_⟩
  obtain ⟨t, hok, hapart', hsame', hnear⟩ := hundo t' ht'
  obtain ⟨t₀, hrest, ht₀⟩ := h.2 t (Close.undo h.1 hp htarget hapart hsame ht' hapart' hsame' hnear)
  refine ⟨t₀, ?_, ht₀⟩
  rw [List.reverse_append, List.reverse_singleton, List.singleton_append, undoAll,
    StorageM.bind_of_ok hok, hrest]

end

/-! ## Undoing what was recorded last -/

theorem depth_lt_iff {metadata : KeyMetadata} :
    metadata.depth < 128 ↔ ∀ v ∈ metadata.versions, v.chainLength ≤ 125 := by
  have hfold : ∀ l : List Nat, l.foldr max 0 < 126 ↔ ∀ n ∈ l, n ≤ 125 := by
    intro l
    induction l with
    | nil => simp
    | cons n l ih =>
      rw [List.foldr_cons, max_lt_iff, ih, List.forall_mem_cons]
      exact and_congr_left fun _ => Nat.lt_succ_iff
  have hdepth := hfold (metadata.versions.map VersionInfo.chainLength)
  rw [List.forall_mem_map] at hdepth
  rw [← hdepth, KeyMetadata.depth]
  omega

/-- The versions that a `set` added are dropped. -/
theorem rdropWhile_next {versions : List VersionInfo} {v w : VersionInfo}
    (hlast : versions.getLast? = some v) (hw : w.version = v.version + 1) :
    (versions ++ [w]).rdropWhile (fun x => decide (v.version < x.version)) = versions := by
  obtain ⟨older, rfl⟩ := List.getLast?_eq_some_iff.mp hlast
  rw [List.rdropWhile_concat_pos _ _ _ (by simp [hw]), List.rdropWhile_concat_neg _ _ _ (by simp)]

section
variable [SerdeMetadata] {K : Set (String × String)} {log : List TransactionOp} {op : TransactionOp}
  {s s' t' : FileStorage} {ns key : String} {metadata : KeyMetadata} {v : VersionInfo}
  {d : ByteArray}

theorem Reads.readLatest (h : Opened s) (hns : Path.IsPlain ns) (hkey : Path.IsPlain key)
    (hreads : Reads s.data (place ns key) metadata v d) (missing : String) :
    readKeyMetadata s ns key = .ok metadata ∧
      FileStorage.readLatest s ns key missing = .ok (d, v) ∧ s.stored ns key = some d := by
  have hmetadata := readKeyMetadata_of_parses h hns hkey hreads.read
  obtain ⟨content, hfile, hbytes⟩ := hreads.value
  have hlatest : FileStorage.readLatest s ns key missing = .ok (d, v) := by
    rw [readLatest_of_metadata hmetadata hreads.newest, readVersionData_eq,
      entry_of_plain h hns hkey, hfile, versionIn, hbytes]
    rfl
  exact ⟨hmetadata, hlatest, stored_of_ok hlatest⟩

/-- A `set` of a new key is undone by removing it. -/
theorem undo_new (hK : ∀ p ∈ K, s'.Regular p) (h : Opened s') (hp : (ns, key) ∈ K)
    (htarget : op = .set ns key none none) (hnone : s.data (place ns key) = none)
    (hdir : s'.data (place ns key) = some .directory) (hclose : Close K (log ++ [op]) s' t') :
    ∃ t, undo op t' = .ok () t ∧ Apart t' t ∧
      (∀ x, ¬ place ns key <+: x → t.data x = t'.data x) ∧
      Near (first log (ns, key)) s.data t.data (place ns key) := by
  have hregular := hK _ hp
  have hnear := hclose.inside _ hp
  have hthere : t'.data (place ns key) = some .directory := by
    cases hnear with
    | absent old new => exact nomatch hdir.symm.trans old
    | present old new => exact new.directory
  obtain ⟨t, hok, ht⟩ := undo_new_ok (h.apart hclose.apart) hregular.ns.plain hregular.key.isPlain
    hthere none
  refine ⟨t, by rw [htarget, hok], ht.apart, fun x hx => ?_, .absent hnone ?_⟩
  · rw [ht.data, removed, if_neg hx]
  · rw [ht.data, removed, if_pos (List.prefix_refl _)]

/-- A `set` of a key with a value is undone by dropping the new version. -/
theorem undo_set (hK : ∀ p ∈ K, s'.Regular p) (h : Opened s') (hp : (ns, key) ∈ K)
    (hop : op = .set ns key (some d) (some v)) (hdir : KeyDirectory s.data (place ns key))
    (hreads : Reads s.data (place ns key) metadata v d) {user : String} {time createdAt : Nat}
    (hdir' : s'.data (place ns key) = some .directory)
    (hparses' : Parses s'.data (place ns key)
      (nextMetadata user key time createdAt (some metadata)))
    (hclose : Close K (log ++ [op]) s' t') :
    ∃ t, undo op t' = .ok () t ∧ Apart t' t ∧
      (∀ x, ¬ place ns key <+: x → t.data x = t'.data x) ∧
      Near (first log (ns, key)) s.data t.data (place ns key) := by
  have hregular := hK _ hp
  have hnear := hclose.inside _ hp
  rw [TransactionOp.first_concat_self (by rw [hop]; rfl)] at hnear
  cases hnear with
  | absent old new => exact nomatch hdir'.symm.trans old
  | present old new untouched touched =>
  obtain ⟨metadata', hwritten, hparses⟩ := touched (by simp)
  obtain ⟨t, hok, ht⟩ := undo_set_ok (h.apart hclose.apart) hregular.ns.plain hregular.key.isPlain
    new hwritten d v
  set kept := metadata'.versions.rdropWhile fun w => decide (v.version < w.version) with hkept
  have hnewDir : KeyDirectory t.data (place ns key) := by
    rw [ht.data]
    exact (new.update _ _).update _ _
  have hnewWritten : Written t.data (place ns key) { metadata' with versions := kept } := by
    refine ⟨by rw [ht.data, Function.update_self], depth_lt_iff.mpr fun w hw => ?_⟩
    exact depth_lt_iff.mp hwritten.2 w ((List.rdropWhile_prefix _ _).subset hw)
  -- where a `set` came first the metadata is back to what it was
  have hback : ((first log (ns, key)).or (some op)).any (·.replaces) = true →
      ({ metadata' with versions := kept } : KeyMetadata) = metadata := by
    intro hreplaces
    obtain rfl := hparses'.eq (hparses hreplaces)
    rw [hkept]
    exact congrArg (fun versions => ({ metadata with versions := versions } : KeyMetadata))
      (rdropWhile_next hreads.newest (by simp [nextNumber, hreads.newest]))
  refine ⟨t, by rw [hop, hok], ht.apart, fun x hx => ?_, .present hdir hnewDir (fun hfirst => ?_)
    fun hfirst => ⟨_, hnewWritten, fun hreplaces => ?_⟩⟩
  · have hfile : ∀ name, x ≠ place ns key ++ [name] := by
      rintro name rfl
      exact hx (List.prefix_append _ _)
    rw [ht.data, Function.update_of_ne (hfile _), Function.update_of_ne (hfile _)]
  · have heq := hback (by rw [hfirst, hop]; rfl)
    rw [heq] at hnewWritten
    refine ⟨metadata, v, metadata, v, d, hreads, .of_written hnewWritten hreads.newest ?_⟩
    rw [ht.data, Function.update_of_ne (by simpa using versionName_ne_metadata _),
      Function.update_self]
  · obtain ⟨op', hop'⟩ := Option.ne_none_iff_exists'.mp hfirst
    rw [hback (by rw [hop'] at hreplaces ⊢; exact hreplaces)]
    exact hreads.read

/-- A `delete` is undone by a new version, which is enough unless the key had been set. -/
theorem undo_delete (hK : ∀ p ∈ K, s'.Regular p) (h : Opened s') (hp : (ns, key) ∈ K)
    (hop : op = .delete ns key d v.version) (hdir : KeyDirectory s.data (place ns key))
    (hreads : Reads s.data (place ns key) metadata v d)
    (hreplaces : (first log (ns, key)).any (·.replaces) = false)
    (hnone : s'.data (place ns key) = none) (hclose : Close K (log ++ [op]) s' t') :
    ∃ t, undo op t' = .ok () t ∧ Apart t' t ∧
      (∀ x, ¬ place ns key <+: x → t.data x = t'.data x) ∧
      Near (first log (ns, key)) s.data t.data (place ns key) := by
  have hregular := hK _ hp
  have hmissing : t'.data (place ns key) = none := by
    cases hclose.inside _ hp with
    | absent old new => exact new
    | present old new => exact absurd (hnone.symm.trans old.directory) (by simp)
  have hregular' : t'.Regular (ns, key) := by
    refine ⟨hregular.ns, hregular.key, ?_⟩
    rw [hclose.outside _ fun q hq => (hK q hq).not_isPrefix hregular]
    exact hregular.keys
  obtain ⟨t, createdAt, time, hok, ht⟩ := undo_delete_ok (h.apart hclose.apart)
    hregular.ns.plain hregular.key.isPlain hmissing (hregular'.free hmissing) d v.version
  have hnewDir : KeyDirectory t.data (place ns key) := by
    rw [ht.data]
    refine .update (.update ⟨mkdirs_self _ _, fun m hm hne => ?_⟩ _ _) _ _
    rw [mkdirs_of_not_isPrefix fun hstarts => hne (hstarts.eq_of_length_le hm.length_le),
      data_eq_none_of_isPrefix hmissing hm]
    simp
  have hwritten : Written t.data (place ns key) ⟨key, "SYSTEM_ROLLBACK", createdAt,
      [⟨v.version, "SYSTEM_ROLLBACK", time, none⟩]⟩ :=
    ⟨by rw [ht.data, Function.update_self], by simp [KeyMetadata.depth, VersionInfo.chainLength]⟩
  refine ⟨t, by rw [hop, hok], ht.apart, fun x hx => ?_, .present hdir hnewDir (fun _ => ?_)
    fun _ => ⟨_, hwritten, fun hedited => ?_⟩⟩
  · have hfile : ∀ name, x ≠ place ns key ++ [name] := by
      rintro name rfl
      exact hx (List.prefix_append _ _)
    rw [ht.data, Function.update_of_ne (hfile _), Function.update_of_ne (hfile _)]
    exact hregular'.mkdirs_eq hx
  · refine ⟨metadata, v, _, ⟨v.version, "SYSTEM_ROLLBACK", time, none⟩, d, hreads,
      .of_written hwritten rfl ?_⟩
    rw [ht.data, Function.update_of_ne (by simpa using versionName_ne_metadata _),
      Function.update_self]
  · rw [hreplaces] at hedited
    simp at hedited

end

/-! ## Calls in a transaction -/

section
variable [SerdeMetadata]

/-- A `set` is not refused for its quota where the key has no directory, and its metadata can be read
back; a `delete` is not of a key whose value was replaced in this transaction, if it was not deleted
before. -/
def Restorable : Call → FileStorage → Prop
  | .set auth ns key value, s =>
    (checked s auth "write" ns s!"{ns}:{key}" = .ok () → s.data (place ns key) = none →
      ¬ Overdrawn s.accountCache (EconomicOperations.userOf auth) (s.growth ns key value)) ∧
    ∀ metadata, readKeyMetadata s ns key = .ok metadata → nextNumber (some metadata) < 2 ^ 64 ∧
      (nextMetadata (EconomicOperations.userOf auth) key 0 0 (some metadata)).depth < 128
  | .delete _ ns key, s =>
    (first (s.transactions.headD []) (ns, key)).any (·.replaces) = false

variable {K : Set (String × String)} {log : List TransactionOp}
  {rest : List (List TransactionOp)} {base s : FileStorage} {ns key : String}

theorem HasMetadata.eq {old old' : Option KeyMetadata} (h : HasMetadata s ns key old)
    (h' : HasMetadata s ns key old') : old = old' := by
  have hsome := h.isSome.symm.trans h'.isSome
  cases old with
  | none =>
    cases old' with
    | none => rfl
    | some metadata' => exact nomatch hsome
  | some metadata =>
    cases old' with
    | none => exact nomatch hsome
    | some metadata' => exact congrArg some (Except.ok.inj (h.symm.trans h'))

theorem hasMetadata_of_absent (h : Opened s) (hregular : s.Regular (ns, key))
    (hnone : s.data (place ns key) = none) :
    HasMetadata s ns key none ∧ s.stored ns key = none := by
  have hentry : s.entry ns key "metadata.json" = none := by
    rw [entry_of_plain h hregular.ns.plain hregular.key.isPlain]
    exact data_eq_none_of_isPrefix hnone (List.prefix_append _ _)
  have hlatest : readLatest s ns key "" = .error (.notFound s!"{ns}:{key}") := by
    rw [readLatest, readKeyMetadata_eq, hentry]
    rfl
  exact ⟨hentry, stored_of_error hlatest⟩

omit [SerdeMetadata] in
theorem depth_nextMetadata {metadata : KeyMetadata} {user user' key' : String}
    (h : (nextMetadata user key 0 0 (some metadata)).depth < 128) (time createdAt : Nat) :
    (nextMetadata user' key' time createdAt (some metadata)).depth < 128 := by
  rw [depth_lt_iff] at h ⊢
  intro v hv
  obtain hold | hnew := List.mem_append.mp hv
  · exact h v (List.mem_append_left _ hold)
  · rw [List.mem_singleton.mp hnew]
    have hchain := h _ (List.mem_append_right _ (List.mem_singleton_self _))
    cases hlast : metadata.versions.getLast? with
    | none => simp [VersionInfo.chainLength]
    | some last => simpa [VersionInfo.chainLength, hlast] using hchain

/-- The directory of a key after its first `set`. -/
theorem reads_of_new (hnone : s.data (place ns key) = none) {s' : FileStorage} {user : String}
    {time createdAt : Nat} {value : ByteArray}
    (hdata : s'.data = Function.update
      (s.withMetadata ns key (nextMetadata user key time createdAt none))
      (place ns key ++ [versionName 1]) (some (.file (.data value)))) :
    KeyDirectory s'.data (place ns key) ∧
      Written s'.data (place ns key) (nextMetadata user key time createdAt none) ∧
      Reads s'.data (place ns key) (nextMetadata user key time createdAt none)
        ⟨1, user, time, none⟩ value := by
  have hwritten : Written s'.data (place ns key) (nextMetadata user key time createdAt none) := by
    refine ⟨?_, by simp [nextMetadata, KeyMetadata.depth, VersionInfo.chainLength]⟩
    rw [hdata, Function.update_of_ne (by simpa using (versionName_ne_metadata _).symm),
      withMetadata, Function.update_self]
  refine ⟨?_, hwritten, .of_written hwritten rfl (by rw [hdata, Function.update_self])⟩
  rw [hdata]
  refine .update (.update ⟨mkdirs_self _ _, fun m hm hne => ?_⟩ _ _) _ _
  rw [mkdirs_of_not_isPrefix fun hstarts => hne (hstarts.eq_of_length_le hm.length_le),
    data_eq_none_of_isPrefix hnone hm]
  simp

/-- The directory of a key after another `set`. -/
theorem reads_of_again {metadata : KeyMetadata} (hdir : KeyDirectory s.data (place ns key))
    {s' : FileStorage} {user : String} {time createdAt : Nat} {value : ByteArray}
    (hdepth : (nextMetadata user key time createdAt (some metadata)).depth < 128)
    (hdata : s'.data = Function.update
      (s.withMetadata ns key (nextMetadata user key time createdAt (some metadata)))
      (place ns key ++ [versionName (nextNumber (some metadata))]) (some (.file (.data value)))) :
    KeyDirectory s'.data (place ns key) ∧
      Written s'.data (place ns key) (nextMetadata user key time createdAt (some metadata)) ∧
      Reads s'.data (place ns key) (nextMetadata user key time createdAt (some metadata))
        ⟨nextNumber (some metadata), user, time, metadata.versions.getLast?⟩ value := by
  rw [withMetadata, mkdirs_of_directory hdir.directory] at hdata
  have hwritten : Written s'.data (place ns key)
      (nextMetadata user key time createdAt (some metadata)) := by
    refine ⟨?_, hdepth⟩
    rw [hdata, Function.update_of_ne (by simpa using (versionName_ne_metadata _).symm),
      Function.update_self]
  refine ⟨?_, hwritten,
    .of_written hwritten List.getLast?_concat (by rw [hdata, Function.update_self])⟩
  rw [hdata]
  exact (hdir.update _ _).update _ _

omit [SerdeMetadata] in
/-- A `set` changes nothing outside of the directory of its key. -/
theorem Regular.data_eq (hregular : s.Regular (ns, key)) {s' : FileStorage}
    {metadata : KeyMetadata} {n : Nat} {value : ByteArray}
    (hdata : s'.data = Function.update (s.withMetadata ns key metadata)
      (place ns key ++ [versionName n]) (some (.file (.data value)))) {x : Location}
    (hx : ¬ place ns key <+: x) : s'.data x = s.data x := by
  have hfile : ∀ name, x ≠ place ns key ++ [name] := by
    rintro name rfl
    exact hx (List.prefix_append _ _)
  rw [hdata, Function.update_of_ne (hfile _), withMetadata, Function.update_of_ne (hfile _)]
  exact hregular.mkdirs_eq hx

/-- The first `set` of a key. -/
theorem Undoable.set_new (h : Undoable base K log s) (hp : (ns, key) ∈ K)
    (hnone : s.data (place ns key) = none) {s' : FileStorage} {user : String}
    {time createdAt : Nat} {value : ByteArray} (hapart : Apart s s')
    (hdata : s'.data = Function.update
      (s.withMetadata ns key (nextMetadata user key time createdAt none))
      (place ns key ++ [versionName 1]) (some (.file (.data value)))) :
    Undoable base K (log ++ [.set ns key none none]) s' := by
  have hregular := h.1.regular _ hp
  have hsame : ∀ x, ¬ place ns key <+: x → s'.data x = s.data x := fun x => hregular.data_eq hdata
  obtain ⟨hdir, hwritten, hreads⟩ := reads_of_new hnone hdata
  refine h.recorded hp rfl hapart hsame (.present _ _ _ hdir hreads fun _ => hwritten) ?_
  intro t' ht'
  exact undo_new (fun q hq => (h.1.regular q hq).congr hregular hsame) (h.1.opened.apart hapart) hp
    rfl hnone hdir.directory ht'

/-- A `set` of a key with a value. -/
theorem Undoable.set_again (h : Undoable base K log s) (hp : (ns, key) ∈ K)
    {metadata : KeyMetadata} {v : VersionInfo} {d : ByteArray}
    (hdir : KeyDirectory s.data (place ns key)) (hreads : Reads s.data (place ns key) metadata v d)
    {s' : FileStorage} {user : String} {time createdAt : Nat} {value : ByteArray}
    (hdepth : (nextMetadata user key time createdAt (some metadata)).depth < 128)
    (hapart : Apart s s')
    (hdata : s'.data = Function.update
      (s.withMetadata ns key (nextMetadata user key time createdAt (some metadata)))
      (place ns key ++ [versionName (nextNumber (some metadata))]) (some (.file (.data value)))) :
    Undoable base K (log ++ [.set ns key (some d) (some v)]) s' := by
  have hregular := h.1.regular _ hp
  have hsame : ∀ x, ¬ place ns key <+: x → s'.data x = s.data x := fun x => hregular.data_eq hdata
  obtain ⟨hdir', hwritten, hreads'⟩ := reads_of_again hdir hdepth hdata
  refine h.recorded hp rfl hapart hsame (.present _ _ _ hdir' hreads' fun _ => hwritten) ?_
  intro t' ht'
  exact undo_set (fun q hq => (h.1.regular q hq).congr hregular hsame) (h.1.opened.apart hapart) hp
    rfl hdir hreads hdir'.directory hwritten.parses ht'

theorem Undoable.delete (h : Undoable base K log s) (hp : (ns, key) ∈ K)
    {metadata : KeyMetadata} {v : VersionInfo} {d : ByteArray}
    (hdir : KeyDirectory s.data (place ns key)) (hreads : Reads s.data (place ns key) metadata v d)
    (hreplaces : (first log (ns, key)).any (·.replaces) = false) {s' : FileStorage}
    (hapart : Apart s s') (hdata : s'.data = removed (place ns key) s.data) :
    Undoable base K (log ++ [.delete ns key d v.version]) s' := by
  have hregular := h.1.regular _ hp
  have hsame : ∀ x, ¬ place ns key <+: x → s'.data x = s.data x := by
    intro x hx
    rw [hdata, removed, if_neg hx]
  have hnone : s'.data (place ns key) = none := by
    rw [hdata, removed, if_pos (List.prefix_refl _)]
  refine h.recorded hp rfl hapart hsame (.absent hnone) ?_
  intro t' ht'
  exact undo_delete (fun q hq => (h.1.regular q hq).congr hregular hsame)
    (h.1.opened.apart hapart) hp rfl hdir hreads hreplaces hnone ht'

/-- The log has grown or stays, and everything can still be undone. -/
def Advanced (base : FileStorage) (K : Set (String × String))
    (rest : List (List TransactionOp)) (s : FileStorage) : Prop :=
  ∃ log, s.transactions = log :: rest ∧ Undoable base K log s

theorem Undoable.advanced (h : Undoable base K log s) (hlog : s.transactions = log :: rest)
    {s' : FileStorage} {accounts : HashMap FileResourceAccount}
    (hleaves : Leaves s s' s.data s.transactions accounts) : Advanced base K rest s' :=
  ⟨log, hleaves.transactions.trans hlog, h.unrecorded hleaves.apart hleaves.data⟩

theorem Undoable.after_set (h : Undoable base K log s) (hlog : s.transactions = log :: rest)
    (hp : (ns, key) ∈ K) {auth : Option AuthContext} {value : ByteArray}
    (hc : Restorable (.set auth ns key value) s) :
    Advanced base K rest (final (set auth ns key value s)) := by
  have hopened := h.1.opened
  have hregular := h.1.regular _ hp
  have hns := hregular.ns.plain
  have hkey := hregular.key.isPlain
  have hkept := h.1.kept _ hp
  obtain ⟨hquota, hreadable⟩ := hc
  have houtcome := set_outcome hopened hns hkey auth value
  generalize set auth ns key value s = r at houtcome
  cases houtcome with
  | refused => exact h.advanced hlog (Logged.refl s)
  | blocked => exact h.advanced hlog (Logged.refl s)
  | overdrawn f checks free hover leaves =>
    cases hkept with
    | absent hnone => exact absurd hover (hquota checks hnone)
    | present metadata v d directory reads written =>
      rw [mkdirs_of_directory directory.directory] at leaves
      exact h.advanced hlog leaves
  | unreadable e checks free fits file herror leaves => exact h.advanced hlog leaves
  | exhausted metadata checks free fits read hlarge leaves =>
    exact absurd (hreadable metadata read).1 (Nat.not_lt.mpr hlarge)
  | halfStored e old time createdAt checks free fits read hdir leaves =>
    cases hkept with
    | absent hnone =>
      exact nomatch (data_eq_none_of_isPrefix hnone (List.prefix_append _ _)).symm.trans hdir
    | present metadata v d directory reads written =>
      exact absurd hdir (directory.files _ (List.prefix_append _ _) (by simp))
  | stored old time createdAt checks free fits read number file leaves =>
    have htransactions := leaves.transactions
    rw [recordedSet, hlog] at htransactions
    cases hkept with
    | absent hnone =>
      obtain ⟨hmetadata, hstored⟩ := hasMetadata_of_absent hopened hregular hnone
      obtain rfl := read.eq hmetadata
      rw [hstored] at htransactions
      exact ⟨_, htransactions, h.set_new hp hnone leaves.apart leaves.data⟩
    | present metadata v d directory reads written =>
      obtain ⟨hread, -, hstored⟩ := reads.readLatest hopened hns hkey ""
      have hold : HasMetadata _ _ _ (some metadata) := hread
      obtain rfl := read.eq hold
      rw [hstored, Option.bind_some, reads.newest] at htransactions
      exact ⟨_, htransactions, h.set_again hp directory reads
        (depth_nextMetadata (hreadable metadata hread).2 time createdAt) leaves.apart leaves.data⟩

theorem Undoable.after_delete (h : Undoable base K log s) (hlog : s.transactions = log :: rest)
    (hp : (ns, key) ∈ K) {auth : Option AuthContext} (hc : Restorable (.delete auth ns key) s) :
    Advanced base K rest (final (FileStorage.delete auth ns key s)) := by
  have hopened := h.1.opened
  have hregular := h.1.regular _ hp
  have hns := hregular.ns.plain
  have hkey := hregular.key.isPlain
  have hkept := h.1.kept _ hp
  rw [Restorable, hlog, List.headD_cons] at hc
  have houtcome := delete_outcome hopened hns hkey auth
  generalize FileStorage.delete auth ns key s = r at houtcome
  cases houtcome with
  | refused => exact h.advanced hlog (Logged.refl s)
  | missing => exact h.advanced hlog (Logged.refl s)
  | deleted d v checks read leaves =>
    have htransactions := leaves.transactions
    rw [hlog] at htransactions
    cases hkept with
    | absent hnone =>
      obtain ⟨-, hstored⟩ := hasMetadata_of_absent hopened hregular hnone
      exact nomatch (stored_of_ok read).symm.trans hstored
    | present metadata v' d' directory reads written =>
      obtain ⟨-, hlatest, -⟩ := reads.readLatest hopened hns hkey ""
      obtain ⟨rfl, rfl⟩ := Prod.mk.inj (Except.ok.inj (hlatest.symm.trans read))
      exact ⟨_, htransactions, h.delete hp directory reads hc leaves.apart leaves.data⟩

/-- Every call under the condition is recorded so that it can be undone. -/
theorem Advanced.after (h : Advanced base K rest s) {c : Call} (hp : (c.ns, c.key) ∈ K)
    (hc : Restorable c s) : Advanced base K rest (c.after s) := by
  obtain ⟨log, hlog, hundoable⟩ := h
  cases c with
  | set auth ns key value => exact hundoable.after_set hlog hp hc
  | delete auth ns key => exact hundoable.after_delete hlog hp hc

theorem Advanced.run (h : Advanced base K rest s) {calls : List Call}
    (hK : ∀ c ∈ calls, (c.ns, c.key) ∈ K) (hmeets : Meets Call.after Restorable calls s) :
    Advanced base K rest (runAll Call.after calls s) := by
  induction calls generalizing s with
  | nil => exact h
  | cons c calls ih =>
    exact ih (h.after (hK c List.mem_cons_self) hmeets.1)
      (fun d hd => hK d (List.mem_cons_of_mem c hd)) hmeets.2

/-- The rollback undoes all the operations. -/
theorem Advanced.rollback (h : Advanced base K rest s) :
    ∃ s', rollbackTransaction s = .ok () s' ∧ Close K [] base s' := by
  obtain ⟨log, hlog, hjournaled, hundo⟩ := h
  have hclose : Close K log s { s with transactions := rest } :=
    ⟨⟨rfl, rfl, fun _ => .rfl, fun _ _ => .same _⟩, fun _ _ => rfl,
      fun p hp => (hjournaled.kept p hp).near⟩
  obtain ⟨s', hok, hs'⟩ := hundo _ hclose
  refine ⟨s', ?_, hs'⟩
  unfold rollbackTransaction
  rw [StorageM.bind_of_ok (StorageM.get_apply s), hlog]
  exact (StorageM.bind_of_ok (StorageM.modify_apply _ s)).trans hok

end

/-! ## What is read after the rollback -/

theorem accountName_ne_versionName (user : String) (n : Nat) : accountName user ≠ versionName n := by
  intro h
  have hlists := congrArg (fun text : String => text.toList.reverse.head?) h
  rw [toList_versionName, accountName] at hlists
  simp [String.toList_append, toString] at hlists

theorem log_ne_versionName (date : String) (n : Nat) : s!"log_{date}.jsonl" ≠ versionName n := by
  intro h
  have hlists := congrArg (fun text : String => text.toList.head?) h
  rw [toList_versionName, toList_log] at hlists
  simp at hlists

section
variable [SerdeMetadata]

/-- What a read makes of the entries of a directory. -/
def latestIn (ns key missing : String) (entry : String → Option (Node FileContent)) :
    Except StorageError ByteArray := do
  let metadata ← metadataIn ns key (entry "metadata.json")
  match metadata.versions.getLast? with
  | none => throw (.notFound missing)
  | some latest => versionIn ns key latest.version (entry (versionName latest.version))

theorem readLatest_eq_latestIn (s : FileStorage) (ns key missing : String) :
    Prod.fst <$> readLatest s ns key missing = latestIn ns key missing (s.entry ns key) := by
  unfold readLatest latestIn
  rw [readKeyMetadata_eq]
  cases metadataIn ns key (s.entry ns key "metadata.json") with
  | error e => rfl
  | ok metadata =>
    simp only [bind, Except.bind, readVersionData_eq]
    cases metadata.versions.getLast? with
    | none => rfl
    | some latest =>
      dsimp only
      cases versionIn ns key latest.version (s.entry ns key (versionName latest.version)) <;> rfl

theorem latestIn_congr {ns key missing : String}
    {entry entry' : String → Option (Node FileContent)}
    (hmetadata : metadataIn ns key ( entry' "metadata.json") =
      metadataIn ns key (entry "metadata.json"))
    (hversions : ∀ n, entry' (versionName n) = entry (versionName n)) :
    latestIn ns key missing entry' = latestIn ns key missing entry := by
  unfold latestIn
  rw [hmetadata]
  simp only [hversions]

/-- A directory with a value is read in the same way under all names. -/
theorem Reads.latestIn {tree : Location → Option (Node FileContent)} {l : Location}
    {metadata : KeyMetadata} {v : VersionInfo} {d : ByteArray} (h : Reads tree l metadata v d)
    (ns key missing : String) :
    FileStorage.latestIn ns key missing (fun name => tree (l ++ [name])) = .ok d := by
  obtain ⟨content, hfile, hparse⟩ := h.read
  obtain ⟨content', hfile', hbytes⟩ := h.value
  unfold FileStorage.latestIn
  simp only [hfile, metadataIn, hparse, Except.mapError, bind, Except.bind, h.newest, hfile',
    versionIn, hbytes]

/-- A namespace that is known or has a directory. -/
def HasNamespace (s : FileStorage) (ns : String) : Prop :=
  ns ∈ s.namespaceCache ∨ s.files.isDir (s.namespacePath ns) = true

omit [SerdeMetadata] in
theorem HasNamespace.exists_ {s : FileStorage} {ns : String} (h : HasNamespace s ns) :
    s.namespaceExists ns = true := by
  obtain hcached | hdir := h
  · rw [namespaceExists, decide_eq_true hcached, Bool.true_or]
  · have hfind : s.files.find (s.namespacePath ns) = some .directory := of_decide_eq_true hdir
    rw [namespaceExists, FileSystem.exists_, hfind, Option.isSome_some, Bool.or_true]

variable {K : Set (String × String)} {s t : FileStorage}

/-- Directories are where they were. -/
theorem Close.directory_iff (hclose : Close K [] s t) (x : Location) :
    t.files.node x = some .directory ↔ s.files.node x = some .directory := by
  by_cases hx : s.rootPath ++ ["namespaces"] <+: x
  · obtain ⟨y, rfl⟩ := hx
    have hdata : ∀ u : FileStorage, u.rootPath = s.rootPath →
        u.files.node (s.rootPath ++ ["namespaces"] ++ y) = u.data y := by
      intro u hu
      rw [data, hu, List.append_assoc, List.singleton_append]
    rw [hdata t hclose.apart.rootPath, hdata s rfl]
    by_cases hy : ∃ p ∈ K, place p.1 p.2 <+: y
    · obtain ⟨p, hp, hstarts⟩ := hy
      cases hclose.inside p hp with
      | absent old new =>
        rw [data_eq_none_of_isPrefix old hstarts, data_eq_none_of_isPrefix new hstarts]
      | present old new =>
        by_cases heq : y = place p.1 p.2
        · rw [heq, old.directory, new.directory]
        · exact iff_of_false (new.files y hstarts heq) (old.files y hstarts heq)
    · rw [hclose.outside y fun p hp hstarts => hy ⟨p, hp, hstarts⟩]
  · exact (hclose.apart.beside x hx).directory_iff

/-- What a file outside of the keys is read as. -/
theorem Beside.metadataIn_eq {root l : Location} {name : String}
    {n n' : Option (Node FileContent)} (h : Beside root (l ++ [name]) n n')
    (hname : ∀ date : String, name ≠ s!"log_{date}.jsonl")
    (ns key : String) : metadataIn ns key n' = metadataIn ns key n := by
  cases h with
  | same => rfl
  | account user a a' =>
    obtain ⟨e, he⟩ := SerdeMetadata.parse_account
    rw [metadataIn, metadataIn, he, he]
  | log timestamp place =>
    have hlast := congrArg List.getLast? place
    simp at hlast
    exact absurd hlast (hname _)

omit [SerdeMetadata] in
theorem Beside.version_eq {root l : Location} {m : Nat} {n n' : Option (Node FileContent)}
    (h : Beside root (l ++ [versionName m]) n n') : n' = n := by
  cases h with
  | same => rfl
  | account user a a' place =>
    have hlast := congrArg List.getLast? place
    simp at hlast
    exact absurd hlast.symm (accountName_ne_versionName user m)
  | log timestamp place =>
    have hlast := congrArg List.getLast? place
    simp at hlast
    exact absurd hlast.symm (log_ne_versionName _ m)

/-- Every path to a key leads to the same answer as before. -/
theorem Close.latestIn_eq (hclose : Close K [] s t) (ns key missing : String) :
    latestIn ns key missing (t.entry ns key) = latestIn ns key missing (s.entry ns key) := by
  have hpath : t.keyDirPath ns key = s.keyDirPath ns key := by
    simp only [keyDirPath, namespacePath, root, hclose.apart.rootPath]
  have henter : t.files.enter (t.keyDirPath ns key) = s.files.enter (s.keyDirPath ns key) := by
    rw [hpath]
    exact FileSystem.enter_congr hclose.directory_iff _
  cases hdir : s.files.enter (s.keyDirPath ns key) with
  | none =>
    apply latestIn_congr <;> simp [entry, henter, hdir]
  | some l =>
  have hentry : ∀ name, s.entry ns key name = s.files.node (l ++ [name]) := by
    intro name
    rw [entry, hdir, Option.bind_some]
  have hentry' : ∀ name, t.entry ns key name = t.files.node (l ++ [name]) := by
    intro name
    rw [entry, henter, hdir, Option.bind_some]
  by_cases hl : s.rootPath ++ ["namespaces"] <+: l
  · obtain ⟨y, rfl⟩ := hl
    have hdata : ∀ u : FileStorage, u.rootPath = s.rootPath → ∀ name,
        u.files.node (s.rootPath ++ ["namespaces"] ++ y ++ [name]) = u.data (y ++ [name]) := by
      intro u hu name
      rw [data, hu]
      simp
    have hnode : s.data y = some .directory := by
      have hthere := FileSystem.node_of_enter hdir
      rwa [List.append_assoc, List.singleton_append] at hthere
    by_cases hy : ∃ p ∈ K, place p.1 p.2 <+: y
    · obtain ⟨p, hp, hstarts⟩ := hy
      cases hclose.inside p hp with
      | absent old new => exact absurd ((data_eq_none_of_isPrefix old hstarts).symm.trans hnode) (by simp)
      | present old new untouched touched =>
        have heq : y = place p.1 p.2 := by
          by_contra hne
          exact old.files y hstarts hne hnode
        obtain ⟨metadata, v, metadata', v', d, hreads, hreads'⟩ := untouched rfl
        rw [funext hentry, funext hentry', funext (hdata s rfl),
          funext (hdata t hclose.apart.rootPath), heq, hreads.latestIn, hreads'.latestIn]
    · -- the directory of a key may be in this one, under a name that is looked for
      have hsame : ∀ name, t.data (y ++ [name]) = s.data (y ++ [name]) := by
        intro name
        by_cases hplace : ∃ p ∈ K, place p.1 p.2 <+: y ++ [name]
        · obtain ⟨p, hp, hstarts⟩ := hplace
          have heq : place p.1 p.2 = y ++ [name] := by
            obtain heq | hstarts := List.prefix_concat_iff.mp hstarts
            · exact heq
            · exact absurd ⟨p, hp, hstarts⟩ hy
          rw [← heq]
          cases hclose.inside p hp with
          | absent old new => rw [old, new]
          | present old new => rw [old.directory, new.directory]
        · exact hclose.outside _ fun p hp hstarts => hplace ⟨p, hp, hstarts⟩
      apply latestIn_congr
      · rw [hentry, hentry', hdata s rfl, hdata t hclose.apart.rootPath, hsame]
      · intro n
        rw [hentry, hentry', hdata s rfl, hdata t hclose.apart.rootPath, hsame]
  · have hbeside : ∀ name, name ≠ "namespaces" →
        Beside s.rootPath (l ++ [name]) (s.files.node (l ++ [name]))
          (t.files.node (l ++ [name])) := by
      intro name hname
      apply hclose.apart.beside
      intro hstarts
      obtain heq | hstarts := List.prefix_concat_iff.mp hstarts
      · exact hname (List.append_inj_right' heq rfl |> List.singleton_inj.mp).symm
      · exact hl hstarts
    apply latestIn_congr
    · rw [hentry, hentry']
      exact (hbeside _ (by decide)).metadataIn_eq (fun date => (log_ne_metadata date).symm) ns key
    · intro n
      rw [hentry, hentry']
      refine (hbeside _ fun heq => ?_).version_eq
      have hlists := congrArg (fun text : String => text.toList.head?) heq
      rw [toList_versionName] at hlists
      simp at hlists

/-- Every key of every namespace there is reads as before. -/
theorem Close.get_eq (hclose : Close K [] s t) (h : Opened s) {ns : String} (hns : HasNamespace s ns)
    (auth : Option AuthContext) (key : String) :
    answer (get auth ns key t) = answer (get auth ns key s) := by
  have hns' : HasNamespace t ns := by
    refine hns.imp (fun hcached => ?_) fun hdir => ?_
    · rwa [hclose.apart.namespaceCache]
    · have hpath : t.namespacePath ns = s.namespacePath ns := by
        simp only [namespacePath, root, hclose.apart.rootPath]
      rw [FileSystem.isDir_eq_true] at hdir ⊢
      rwa [hpath, FileSystem.enter_congr hclose.directory_iff]
  rw [(get_answer (h.apart hclose.apart).loggable auth ns key).1, (get_answer h.loggable auth ns key).1,
    readLatest_eq_latestIn, readLatest_eq_latestIn, hclose.latestIn_eq, checked, checked,
    hns.exists_, hns'.exists_]

/-- What a rollback restores. -/
def Restored (s s' : FileStorage) : Prop :=
  ∀ auth ns key, HasNamespace s ns → answer (get auth ns key s') = answer (get auth ns key s)

/-- A key can be restored that is not there, or has a value and a directory of its own. -/
def Sound (s : FileStorage) (p : String × String) : Prop :=
  s.data (place p.1 p.2) = none ∨
    (KeyDirectory s.data (place p.1 p.2) ∧ s.stored p.1 p.2 ≠ none)

theorem Sound.kept {p : String × String} (h : Opened s) (hregular : s.Regular p)
    (hsound : s.Sound p) : Kept none s.data (place p.1 p.2) := by
  obtain hnone | ⟨hdir, hstored⟩ := hsound
  · exact .absent hnone
  · obtain ⟨d, hd⟩ := Option.ne_none_iff_exists'.mp hstored
    rw [stored] at hd
    cases hlatest : readLatest s p.1 p.2 "" with
    | error e =>
      rw [hlatest] at hd
      simp [Except.toOption] at hd
    | ok found =>
      obtain ⟨metadata, hread, hnewest, hvalue⟩ :=
        readLatest_eq_ok.mp (show readLatest s p.1 p.2 "" = .ok (found.1, found.2) from hlatest)
      refine .present metadata found.2 found.1 hdir ⟨?_, hnewest, ?_⟩ fun hnone => absurd rfl hnone
      · rw [readKeyMetadata_eq, entry_of_plain h hregular.ns.plain hregular.key.isPlain] at hread
        cases hfile : s.data (place p.1 p.2 ++ ["metadata.json"]) with
        | none =>
          rw [hfile] at hread
          cases hread
        | some n =>
          rw [hfile] at hread
          cases n with
          | directory => cases hread
          | file content =>
            refine ⟨content, hfile, ?_⟩
            rw [metadataIn] at hread
            cases hparse : SerdeMetadata.parse content with
            | error e =>
              rw [hparse] at hread
              cases hread
            | ok metadata' =>
              rw [hparse] at hread
              exact congrArg Except.ok (Except.ok.inj hread)
      · rw [readVersionData_eq, entry_of_plain h hregular.ns.plain hregular.key.isPlain] at hvalue
        cases hfile : s.data (place p.1 p.2 ++ [versionName found.2.version]) with
        | none =>
          rw [hfile] at hvalue
          cases hvalue
        | some n =>
          rw [hfile] at hvalue
          cases n with
          | directory => cases hvalue
          | file content => exact ⟨content, rfl, Except.ok.inj hvalue⟩

/-- The storage with a new transaction. -/
def begun (s : FileStorage) : FileStorage := final (beginTransaction s)

/-- After calls that can be undone a rollback succeeds and restores what was read before. -/
theorem rollback_restores (h : Opened s) {calls : List Call}
    (hregular : ∀ c ∈ calls, s.Regular (c.ns, c.key)) (hsound : ∀ c ∈ calls, s.Sound (c.ns, c.key))
    (hmeets : Meets Call.after Restorable calls s.begun) :
    ∃ s', rollbackTransaction (runAll Call.after calls s.begun) = .ok () s' ∧ Restored s s' := by
  have hapart : Apart s s.begun := ⟨rfl, rfl, fun _ => .rfl, fun _ _ => .same _⟩
  have hjournaled : Journaled {p | ∃ c ∈ calls, (c.ns, c.key) = p} [] s.begun := by
    refine ⟨h.apart hapart, ?_, ?_⟩
    · rintro p ⟨c, hc, rfl⟩
      have hp := hregular c hc
      exact ⟨hp.ns, hp.key, hp.keys⟩
    · rintro p ⟨c, hc, rfl⟩
      have hkept := (hsound c hc).kept h (hregular c hc)
      exact hkept
  obtain ⟨s', hok, hclose⟩ := (Advanced.run ⟨[], rfl, hjournaled.undoable⟩
    (fun c hc => ⟨c, hc, rfl⟩) hmeets).rollback
  refine ⟨s', hok, fun auth ns key hns => ?_⟩
  exact Close.get_eq (s := s) ⟨hapart.trans hclose.apart, hclose.outside, hclose.inside⟩ h hns auth key

end

/-! ### A key that is set and deleted -/

open InMemoryStorage (admin)

def Call.auth : Call → Option AuthContext
  | .set auth _ _ _ => auth
  | .delete auth _ _ => auth

theorem seeded_regular : seeded.Regular ("ns", "k") := by
  obtain ⟨-, -, -, hempty, -⟩ := seeded_ok
  exact ⟨isNamespace_ns, by decide, hempty.keys⟩

theorem seeded_absent : seeded.data (place "ns" "k") = none := by
  obtain ⟨-, -, -, hempty, -⟩ := seeded_ok
  rw [place, Path.components_of_isName (s := "k") (by decide)]
  exact hempty.empty ["k"] (by simp)

theorem rollback_restores_seeded : letI := limitedJson
    ∃ s', rollbackTransaction (runAll Call.after [.set (some admin) "ns" "k" "abc".toUTF8]
      seeded.begun) = .ok () s' ∧ Restored seeded s' := by
  let _ := limitedJson
  obtain ⟨-, hopened, -, -, -, account, hlookup, hused, hquota⟩ := seeded_ok
  refine rollback_restores hopened (by simpa [Call.ns, Call.key] using seeded_regular) ?_
    ⟨⟨fun _ _ => ?_, fun metadata hread => ?_⟩, trivial⟩
  · intro c hc
    rw [List.mem_singleton.mp hc]
    exact .inl seeded_absent
  · rintro ⟨-, account', hlookup', hover⟩
    obtain rfl := Option.some.inj (hlookup.symm.trans hlookup')
    have hgrowth : seeded.begun.growth "ns" "k" "abc".toUTF8 ≤ 3 := Nat.sub_le _ _
    omega
  · obtain ⟨hmetadata, -⟩ := hasMetadata_of_absent hopened seeded_regular seeded_absent
    have hsome : HasMetadata seeded "ns" "k" (some metadata) := hread
    exact nomatch hmetadata.eq hsome

section
variable [SerdeMetadata] {s : FileStorage} {ns key : String}

/-- A `set` that succeeds, with what it found. -/
theorem set_leaves (h : Opened s) (hns : Path.IsPlain ns) (hkey : Path.IsPlain key)
    {auth : Option AuthContext} {value : ByteArray}
    (hok : succeeded (set auth ns key value s) = true) :
    ∃ old time createdAt, HasMetadata s ns key old ∧
      Leaves s (final (set auth ns key value s))
        (Function.update (s.withMetadata ns key
            (nextMetadata (EconomicOperations.userOf auth) key time createdAt old))
          (place ns key ++ [versionName (nextNumber old)]) (some (.file (.data value))))
        (s.recordedSet ns key old) (s.chargedFor auth ns key value) := by
  have houtcome := set_outcome h hns hkey auth value
  generalize set auth ns key value s = r at houtcome hok
  cases houtcome with
  | stored old time createdAt checks free fits read number file leaves =>
    exact ⟨old, time, createdAt, read, leaves⟩
  | _ => exact nomatch hok

theorem delete_leaves (h : Opened s) (hns : Path.IsPlain ns) (hkey : Path.IsPlain key)
    {auth : Option AuthContext} (hok : succeeded (FileStorage.delete auth ns key s) = true) :
    ∃ d v, readLatest s ns key "" = .ok (d, v) ∧
      Leaves s (final (FileStorage.delete auth ns key s)) (removed (place ns key) s.data)
        (recorded (.delete ns key d v.version) s.transactions) s.accountCache := by
  have houtcome := delete_outcome h hns hkey auth
  generalize FileStorage.delete auth ns key s = r at houtcome hok
  cases houtcome with
  | deleted d v checks read leaves => exact ⟨d, v, read, leaves⟩
  | _ => exact nomatch hok

/-- Metadata without versions is left of a key that was set and then deleted. -/
theorem undo_set_delete (h : Opened s) (hregular : s.Regular (ns, key))
    (hnone : s.data (place ns key) = none) (d d' : ByteArray) {v : VersionInfo} {n : Nat}
    (hn : v.version < n) :
    ∃ s', undoAll [.delete ns key d' n, .set ns key (some d) (some v)] s = .ok () s' ∧
      Opened s' ∧ s'.stored ns key = none := by
  have hns := hregular.ns.plain
  have hkey := hregular.key.isPlain
  obtain ⟨s₁, createdAt, time, hdelete, hs₁⟩ :=
    undo_delete_ok h hns hkey hnone (hregular.free hnone) d' n
  have h₁ := h.apart hs₁.apart
  have hdir₁ : KeyDirectory s₁.data (place ns key) := by
    rw [hs₁.data]
    refine .update (.update ⟨mkdirs_self _ _, fun m hm hne => ?_⟩ _ _) _ _
    rw [mkdirs_of_not_isPrefix fun hstarts => hne (hstarts.eq_of_length_le hm.length_le),
      data_eq_none_of_isPrefix hnone hm]
    exact fun hd => nomatch hd
  have hwritten₁ : Written s₁.data (place ns key) ⟨key, "SYSTEM_ROLLBACK", createdAt,
      [⟨n, "SYSTEM_ROLLBACK", time, none⟩]⟩ :=
    ⟨by rw [hs₁.data, Function.update_self],
      by simp [KeyMetadata.depth, VersionInfo.chainLength]⟩
  obtain ⟨s₂, hset, hs₂⟩ := undo_set_ok h₁ hns hkey hdir₁ hwritten₁ d v
  refine ⟨s₂, ?_, h₁.apart hs₂.apart, ?_⟩
  · rw [undoAll, StorageM.bind_of_ok hdelete, undoAll, StorageM.bind_of_ok hset]
    rfl
  · have hdropped : List.rdropWhile (fun w : VersionInfo => decide (v.version < w.version))
        [⟨n, "SYSTEM_ROLLBACK", time, none⟩] = [] := by
      simp [List.rdropWhile_singleton, hn]
    have hwritten₂ : Written s₂.data (place ns key) ⟨key, "SYSTEM_ROLLBACK", createdAt, []⟩ :=
      ⟨by rw [hs₂.data, Function.update_self, hdropped], by simp [KeyMetadata.depth]⟩
    have hlatest : readLatest s₂ ns key "" = .error (.notFound "") := by
      rw [readLatest, readKeyMetadata_of_parses (h₁.apart hs₂.apart) hns hkey hwritten₂.parses]
      rfl
    exact stored_of_error hlatest

end

section
variable [SerdeMetadata] {s : FileStorage}

omit [SerdeMetadata] in
theorem Regular.hasNamespace {p : String × String} (h : Opened s) (hregular : s.Regular p) :
    HasNamespace s p.1 := by
  have hdir : s.data (Path.components p.1) = some .directory := by
    apply data_of_isPrefix (l := Path.components p.1 ++ ["keys"]) _ (List.prefix_append _ _) (by simp)
    rw [hregular.keys]
    exact Option.some_ne_none _
  right
  rw [FileSystem.isDir_eq_true, namespacePath_of_plain hregular.ns.plain]
  exact ⟨_, enter_names_data h hregular.ns.plain.nulFree hdir⟩

/-- A transaction in which a key is set and deleted, and what a rollback leaves of it. -/
theorem set_delete_lost (h : Opened s) (hregular : s.Regular ("ns", "k"))
    (hdir : KeyDirectory s.data (place "ns" "k")) {metadata : KeyMetadata} {v : VersionInfo}
    {d : ByteArray} (hreads : Reads s.data (place "ns" "k") metadata v d)
    (hdepth : (nextMetadata "admin" "k" 0 0 (some metadata)).depth < 128)
    {calls : List Call} (hcalls : calls = [.set (some admin) "ns" "k" ByteArray.empty,
      .delete (some admin) "ns" "k"])
    (hok : succeeded (set (some admin) "ns" "k" ByteArray.empty s.begun) = true) :
    ∃ s', rollbackTransaction (runAll Call.after calls s.begun) = .ok () s' ∧ Opened s' ∧
      s'.stored "ns" "k" = none := by
  have hns := hregular.ns.plain
  have hkey := hregular.key.isPlain
  have hbegun : Opened s.begun := h.apart ⟨rfl, rfl, fun _ => .rfl, fun _ _ => .same _⟩
  have hregular₁ : s.begun.Regular ("ns", "k") := ⟨hregular.ns, hregular.key, hregular.keys⟩
  obtain ⟨old, time, createdAt, hold, hleaves⟩ := set_leaves hbegun hns hkey hok
  obtain ⟨s₁, hs₁⟩ : ∃ s₁, s₁ = final (set (some admin) "ns" "k" ByteArray.empty s.begun) :=
    ⟨_, rfl⟩
  rw [← hs₁] at hleaves
  have hreads₀ : Reads s.begun.data (place "ns" "k") metadata v d := hreads
  obtain ⟨hread, -, hstored⟩ := hreads₀.readLatest hbegun hns hkey ""
  have hold' : HasMetadata _ _ _ (some metadata) := hread
  obtain rfl := hold.eq hold'
  have hdir₀ : KeyDirectory s.begun.data (place "ns" "k") := hdir
  obtain ⟨-, -, hreads₁⟩ := reads_of_again hdir₀ (depth_nextMetadata hdepth time createdAt)
    hleaves.data
  have h₁ := hbegun.apart hleaves.apart
  obtain ⟨-, hlatest₁, hstored₁⟩ := hreads₁.readLatest h₁ hns hkey ""
  have hregular₁' := hregular₁.congr hregular₁ fun x => hregular₁.data_eq hleaves.data
  have hexists : s₁.namespaceExists "ns" = true := by
    apply namespaceExists_of_data h₁ hns (l := ["keys"])
    rw [hregular₁'.keys]
    exact Option.some_ne_none _
  have hdeleted := delete_ok h₁ hns hkey (some admin)
    (checked_eq_ok.mpr ⟨admin_permitted _ _, hexists⟩) (by rw [hstored₁]; exact Option.some_ne_none _)
  obtain ⟨d', v', hlatest, hleaves₂⟩ := delete_leaves h₁ hns hkey hdeleted
  obtain ⟨rfl, rfl⟩ := Prod.mk.inj (Except.ok.inj (hlatest₁.symm.trans hlatest))
  obtain ⟨s₂, hs₂⟩ : ∃ s₂, s₂ = final (FileStorage.delete (some admin) "ns" "k" s₁) := ⟨_, rfl⟩
  rw [← hs₂] at hleaves₂
  have htransactions : s₂.transactions =
      [.set "ns" "k" (some d) (some v),
        .delete "ns" "k" ByteArray.empty (nextNumber (some metadata))] :: s.transactions := by
    rw [hleaves₂.transactions, hleaves.transactions, recordedSet, hstored, Option.bind_some,
      hreads.newest]
    rfl
  have hnone : ({ s₂ with transactions := s.transactions } : FileStorage).data (place "ns" "k") =
      none := by
    show s₂.data _ = none
    rw [hleaves₂.data, removed, if_pos (List.prefix_refl _)]
  have hregular₂ : ({ s₂ with transactions := s.transactions } : FileStorage).Regular ("ns", "k") := by
    refine ⟨hregular.ns, hregular.key, ?_⟩
    show s₂.data _ = _
    rw [hleaves₂.data, removed, if_neg (hregular₁'.not_isPrefix hregular₁')]
    exact hregular₁'.keys
  have hopened₂ : Opened { s₂ with transactions := s.transactions } :=
    (h₁.apart hleaves₂.apart).apart ⟨rfl, rfl, fun _ => .rfl, fun _ _ => .same _⟩
  obtain ⟨s', hundo, h', hlost⟩ := undo_set_delete hopened₂ hregular₂ hnone d ByteArray.empty
    (v := v) (n := nextNumber (some metadata)) (by simp [nextNumber, hreads.newest])
  have hrun : runAll Call.after calls s.begun = s₂ := by
    rw [hcalls, hs₂, hs₁]
    rfl
  refine ⟨s', ?_, h', hlost⟩
  rw [hrun]
  unfold rollbackTransaction
  rw [StorageM.bind_of_ok (StorageM.get_apply s₂), htransactions]
  exact (StorageM.bind_of_ok (StorageM.modify_apply _ s₂)).trans hundo

end

/-- A key that is set and then deleted is not restored. -/
theorem not_rollback_restores :
    ¬ ∀ [SerdeMetadata] (s : FileStorage) (calls : List Call), Opened s →
      (∀ c ∈ calls, s.Regular (c.ns, c.key)) →
      (∀ c ∈ calls, checkPermission c.auth "write" c.ns = .ok ()) →
      ∃ s', rollbackTransaction (runAll Call.after calls s.begun) = .ok () s' ∧ Restored s s' := by
  intro hall
  let _ := limitedJson
  obtain ⟨-, hopened, -, hempty, -⟩ := seeded_ok
  have hns := isNamespace_ns.plain
  have hname : Path.IsName "k" := by decide
  have hkey := hname.isPlain
  have hset : ∀ {t ws}, Opened t → KeyHistory t.data (place "ns" "k") ws → ws.length ≤ 125 →
      t.namespaceExists "ns" = true → t.Free (place "ns" "k") →
      succeeded (set (some admin) "ns" "k" ByteArray.empty t) = true := by
    intro t ws ht hws hlength hexists hfree
    refine (hws.set_ok ht hns hkey hlength _ _
      (checked_eq_ok.mpr ⟨admin_permitted _ _, hexists⟩) hfree ?_).1
    rintro ⟨hpos, -⟩
    simp [growth] at hpos
  -- a value before the transaction
  have hvacant := KeyHistory.of_vacant (hempty.vacant "k")
  have hok := hset hopened hvacant (by simp) hempty.namespaceExists (hempty.free "k")
  have hws := hvacant.set hopened hns hkey (some admin) ByteArray.empty
  obtain ⟨old, time, createdAt, hold, hleaves⟩ := set_leaves hopened hns hkey hok
  obtain ⟨s, hs⟩ : ∃ s, s = final (set (some admin) "ns" "k" ByteArray.empty seeded) := ⟨_, rfl⟩
  rw [← hs] at hleaves hws
  obtain rfl := hold.eq (hasMetadata_of_absent hopened seeded_regular seeded_absent).1
  obtain ⟨hdir, -, hreads⟩ := reads_of_new seeded_absent hleaves.data
  have hregular := seeded_regular.congr seeded_regular fun x => seeded_regular.data_eq hleaves.data
  have h := hopened.apart hleaves.apart
  have hexists : s.namespaceExists "ns" = true := by
    apply namespaceExists_of_data h hns (l := ["keys"])
    rw [hregular.keys]
    exact Option.some_ne_none _
  obtain ⟨calls, hcalls⟩ : ∃ calls, calls = [Call.set (some admin) "ns" "k" ByteArray.empty,
    .delete (some admin) "ns" "k"] := ⟨_, rfl⟩
  have hkeys : ∀ c ∈ calls, (c.ns, c.key) = ("ns", "k") ∧ c.auth = some admin := by
    rw [hcalls]
    simp [Call.ns, Call.key, Call.auth]
  have hok' := hset (t := s.begun) (h.apart ⟨rfl, rfl, fun _ => .rfl, fun _ _ => .same _⟩) hws
    (by rw [hok, if_pos rfl]; simp) hexists (free_of_directory hdir.directory)
  obtain ⟨s', hrollback, h', hlost⟩ := set_delete_lost h hregular hdir hreads
    (by simp [nextMetadata, KeyMetadata.depth, VersionInfo.chainLength]) hcalls hok'
  obtain ⟨s'', hrollback', hrestored⟩ := hall s calls h
    (fun c hc => by rw [(hkeys c hc).1]; exact hregular)
    (fun c hc => by rw [(hkeys c hc).2]; exact admin_permitted _ _)
  obtain ⟨-, rfl⟩ := EStateM.Result.ok.inj (hrollback.symm.trans hrollback')
  have hget := congrArg Except.toOption
    (hrestored (some admin) "ns" "k" (hregular.hasNamespace h))
  rw [toOption_get h.loggable (checked_eq_ok.mpr ⟨admin_permitted _ _, hexists⟩), (hreads.readLatest h hns hkey "").2.2] at hget
  obtain ⟨d, hd⟩ : ∃ d, answer (get (some admin) "ns" "k" s') = .ok d := by
    cases hanswer : answer (get (some admin) "ns" "k" s') with
    | error e =>
      rw [hanswer] at hget
      cases hget
    | ok d => exact ⟨d, rfl⟩
  exact absurd (hlost.symm.trans (stored_of_get h'.loggable hd)) (by simp)

end FileStorage

end Covm
