import Covm.Storage.Calls

/-!
# What callers without a role learn of a namespace

All reads of the in-memory backend but one check the caller's permission before they look at the
data. A caller without a role therefore gets the same answers from any two states; `contains` tells
whether a key is there.
-/

namespace Covm

open Maps

namespace InMemoryStorage

/-- A read of a namespace. -/
inductive Read where
  | get (key : String)
  | getVersioned (key : String)
  | getVersion (key : String) (version : Nat)
  | listVersions (key : String)
  | listKeys (start : Option String)
  | getUsage
  | contains (key : String)

inductive Read.Answer where
  | bytes (value : ByteArray)
  | versioned (value : ByteArray) (version : VersionInfo)
  | versions (versions : List VersionInfo)
  | keys (keys : Finset String)
  | count (bytes : Nat)
  | flag (b : Bool)

def Read.answer (auth : Option AuthContext) (ns : String) (s : InMemoryStorage) :
    Read → Except StorageError Read.Answer
  | get key => .bytes <$> s.get auth ns key
  | getVersioned key => (fun found => .versioned found.1 found.2) <$> s.getVersioned auth ns key
  | getVersion key version =>
    (fun found => .versioned found.1 found.2) <$> s.getVersion auth ns key version
  | listVersions key => .versions <$> s.listVersions auth ns key
  | listKeys start => .keys <$> s.listKeys auth ns start
  | getUsage => .count <$> s.getUsage auth ns
  | contains key => .flag <$> s.contains auth ns key

/-- Two states that differ only in the data and the versions of one namespace. -/
structure SameOutside (ns : String) (s t : InMemoryStorage) : Prop where
  data : ∀ other, other ≠ ns → t.data.lookup other = s.data.lookup other
  versions : ∀ other, other ≠ ns → t.versions.lookup other = s.versions.lookup other
  accounts : t.accounts = s.accounts
  auditLog : t.auditLog = s.auditLog
  transactionStack : t.transactionStack = s.transactionStack
  clock : t.clock = s.clock
  reads : t.reads = s.reads

/-- No caller, or one who has no role in the namespace or globally. -/
def WithoutRole (ns : String) (auth : Option AuthContext) : Prop :=
  ∀ a, auth = some a → ∀ role, a.hasRole ns role = false ∧ a.hasRole "global" role = false

theorem withoutRole_none (ns : String) : WithoutRole ns none := fun _ h => nomatch h

theorem denied_of_withoutRole {ns : String} {auth : Option AuthContext}
    (h : WithoutRole ns auth) (action : String) :
    ∃ e, checkPermission auth action ns = .error e := by
  unfold checkPermission
  cases auth with
  | none => exact ⟨_, rfl⟩
  | some a =>
    have hns : ∀ role, a.hasRole ns role = false := fun role => (h a rfl role).1
    have hglobal : a.hasRole "global" "admin" = false := (h a rfl "admin").2
    simp only [hns, hglobal, Bool.false_eq_true, if_false, List.any_cons, List.any_nil,
      Bool.or_self]
    split
    · exact ⟨_, rfl⟩
    · split <;> exact ⟨_, rfl⟩

/-- A caller without permission is refused before the data is looked at. -/
theorem answer_of_denied {ns : String} {auth : Option AuthContext} {e : StorageError}
    (h : checkPermission auth "read" ns = .error e) (s : InMemoryStorage) {r : Read}
    (hr : ∀ key, r ≠ .contains key) : r.answer auth ns s = .error e := by
  have hrefused : ∀ {α : Type} (f : α → Read.Answer) (rest : Unit → Except StorageError α),
      f <$> (checkPermission auth "read" ns >>= rest) = .error e := by
    intro α f rest
    rw [h]
    rfl
  cases r with
  | get key => exact hrefused _ _
  | getVersioned key => exact hrefused _ _
  | getVersion key version => exact hrefused _ _
  | listVersions key => exact hrefused _ _
  | listKeys start => exact hrefused _ _
  | getUsage => exact hrefused _ _
  | contains key => exact absurd rfl (hr key)

/-- Whether a key is there is told to everybody. -/
theorem answer_contains (auth : Option AuthContext) (ns key : String) (s : InMemoryStorage) :
    (Read.contains key).answer auth ns s = .ok (.flag (s.data.get (ns, key)).isSome) := rfl

/-- A caller without a role gets the same answer from two states iff the question is not whether
a key is there, or it is there in both states or in none. -/
theorem same_answer_iff {ns : String} {s t : InMemoryStorage} {auth : Option AuthContext}
    (hno : WithoutRole ns auth) (r : Read) :
    r.answer auth ns t = r.answer auth ns s ↔ ∀ key, r = .contains key →
      (t.data.get (ns, key)).isSome = (s.data.get (ns, key)).isSome := by
  by_cases hr : ∃ key, r = .contains key
  · obtain ⟨key, rfl⟩ := hr
    rw [answer_contains, answer_contains]
    constructor
    · intro h key' hkey
      obtain rfl := Read.contains.inj hkey
      exact Read.Answer.flag.inj (Except.ok.inj h)
    · intro h
      rw [h key rfl]
  · rw [not_exists] at hr
    obtain ⟨e, he⟩ := denied_of_withoutRole hno "read"
    rw [answer_of_denied he t hr, answer_of_denied he s hr]
    exact ⟨fun _ key hkey => absurd hkey (hr key), fun _ => rfl⟩

/-- An empty storage, and one with a single value. -/
def secret : InMemoryStorage :=
  { new fun _ => 0 with data := Table.put ∅ ("private", "ballot") "yes".toUTF8 }

theorem secret_sameOutside : SameOutside "private" (new fun _ => 0) secret where
  data other hother := by
    show ((∅ : Table String String ByteArray).put ("private", "ballot") _).lookup other = _
    unfold Table.put
    exact Finmap.lookup_insert_of_ne _ hother
  versions _ _ := rfl
  accounts := rfl
  auditLog := rfl
  transactionStack := rfl
  clock := rfl
  reads := rfl

/-- The value itself is not told, but that there is one is. -/
theorem same_answer_iff_get :
    (Read.get "ballot").answer none "private" secret =
        (Read.get "ballot").answer none "private" (new fun _ => 0) ∧
      (Read.contains "ballot").answer none "private" secret ≠
        (Read.contains "ballot").answer none "private" (new fun _ => 0) := by
  refine ⟨(same_answer_iff (withoutRole_none _) _).mpr nofun, fun h => ?_⟩
  have htold := (same_answer_iff (withoutRole_none _) _).mp h "ballot" rfl
  exact absurd htold (by decide)

theorem contains_told : ¬ ∀ (ns : String) (s t : InMemoryStorage) (auth : Option AuthContext)
    (r : Read), SameOutside ns s t → WithoutRole ns auth →
      r.answer auth ns t = r.answer auth ns s := by
  intro hsame
  have h := hsame "private" _ secret none (.contains "ballot") secret_sameOutside
    (withoutRole_none _)
  rw [answer_contains, answer_contains] at h
  exact absurd (Read.Answer.flag.inj (Except.ok.inj h)) (by decide)

end InMemoryStorage

end Covm
