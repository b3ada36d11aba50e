import Covm.Storage.Quota
import Covm.Storage.Room

/-!
# Keys with one writer

Without transactions, and while nobody writes to the keys of another, the account of every user is
exact: it shows the bytes that are stored under the user's own keys, and never more than the quota.
-/

namespace Covm

open Maps Partial

namespace InMemoryStorage

/-- The bytes stored under the keys that belong to a user. -/
def ownedBytes (owner : String → String → String) (s : InMemoryStorage) (user : String) : Nat :=
  s.data.totalOn ByteArray.size fun p => owner p.1 p.2 = user

/-- A set or delete that succeeds is made by the user the key belongs to. -/
def WrittenByOwner (owner : String → String → String) : Call → InMemoryStorage → Prop
  | .set (some auth) ns key value, s =>
    (∃ s', set (some auth) ns key value s = .ok () s') → auth.currentIdentityDid = owner ns key
  | .delete (some auth) ns key, s =>
    (∃ s', delete (some auth) ns key s = .ok () s') → auth.currentIdentityDid = owner ns key
  | _, _ => True

/-! ## Quotas -/

def WithinQuota (s : InMemoryStorage) : Prop :=
  ∀ user account, s.accounts.lookup user = some account →
    account.storageUsedBytes ≤ account.storageQuotaBytes

theorem WithinQuota.congr {s s' : InMemoryStorage} (h : s.WithinQuota)
    (hacc : s'.accounts = s.accounts) : s'.WithinQuota := by
  intro user account hlookup
  rw [hacc] at hlookup
  exact h user account hlookup

theorem WithinQuota.insert {s s' : InMemoryStorage} (h : s.WithinQuota) {user : String}
    {account : ResourceAccount} (hfit : account.storageUsedBytes ≤ account.storageQuotaBytes)
    (hacc : s'.accounts = s.accounts.insert user account) : s'.WithinQuota := by
  intro u a hlookup
  rw [hacc] at hlookup
  by_cases hu : u = user
  · subst hu
    rw [Finmap.lookup_insert] at hlookup
    cases hlookup
    exact hfit
  · rw [Finmap.lookup_insert_of_ne _ hu] at hlookup
    exact h u a hlookup

theorem WithinQuota.refund {s : InMemoryStorage} (h : s.WithinQuota) (user : String)
    (bytes : Nat) : (s.refund user bytes).WithinQuota := by
  unfold InMemoryStorage.refund
  cases hlookup : s.accounts.lookup user with
  | none => exact h
  | some account =>
    have hfit := h user account hlookup
    have hless : (account.reduceUsage (s.clock s.reads) bytes).storageUsedBytes ≤
        account.storageQuotaBytes := (Nat.sub_le _ _).trans hfit
    exact h.insert hless rfl

/-- A charge is made only if the quota covers it. -/
theorem WithinQuota.chargeDifference {s : InMemoryStorage} (h : s.WithinQuota)
    (user internalKey : String) (existing size : Nat) :
    (final (chargeDifference user internalKey existing size s)).WithinQuota := by
  unfold InMemoryStorage.chargeDifference
  split
  · cases hlookup : s.accounts.lookup user with
    | none => exact h
    | some account =>
      dsimp only
      cases hadd : account.addUsage (s.clock s.reads) (size - existing) with
      | error e => exact h
      | ok account' =>
        have hfit := (ResourceAccount.addUsage_ok hadd).2
        rw [← ResourceAccount.addUsage_quota hadd] at hfit
        exact h.insert hfit rfl
  · split
    · exact h.refund user _
    · exact h

theorem delete_accounts (auth : Option AuthContext) (ns key : String) (s : InMemoryStorage) :
    (final (delete auth ns key s)).accounts = s.accounts ∨
    ∃ user bytes old, (final (delete auth ns key s)).accounts =
      ((s.recordForRollback ns key old).refund user bytes).accounts := by
  obtain ⟨e, -, hdenied⟩ | ⟨a, rfl, -, hquery⟩ := query_permission auth "write" ns s
  · left
    unfold delete
    simp only [bind, EStateM.bind, hdenied, final_error]
  · cases hget : s.data.get (ns, key) with
    | none =>
      left
      unfold delete
      simp only [bind, EStateM.bind, hquery, StorageM.get_apply, hget]
      rfl
    | some value =>
      right
      refine ⟨a.currentIdentityDid, value.size, some value, ?_⟩
      unfold delete
      simp only [bind, EStateM.bind, hquery, StorageM.get_apply, hget, StorageM.modify_apply]
      rfl

theorem WithinQuota.step {s : InMemoryStorage} (h : s.WithinQuota) (c : Call) :
    (c.after s).WithinQuota := by
  have heffect := c.effect s
  cases c with
  | set auth ns key value =>
    have hrecorded := h.congr (recordForRollback_accounts s ns key (s.data.get (ns, key)))
    obtain hsame | ⟨user, hcharged⟩ := set_accounts auth ns key value s
    · exact h.congr hsame
    · exact (hrecorded.chargeDifference user _ _ _).congr hcharged
  | delete auth ns key =>
    obtain hsame | ⟨user, bytes, old, hrefunded⟩ := delete_accounts auth ns key s
    · exact h.congr hsame
    · exact ((h.congr (recordForRollback_accounts s ns key old)).refund user bytes).congr hrefunded
  | createAccount auth userId quota =>
    generalize Call.after _ s = s' at heffect
    cases heffect with
    | unchanged => exact h
    | accountCreated _ _ _ account fresh accounts unused =>
      exact h.insert (by rw [unused]; exact Nat.zero_le _) accounts
  | createNamespace auth ns quota parent =>
    generalize Call.after _ s = s' at heffect
    cases heffect with
    | unchanged => exact h
    | namespaceCreated _ _ _ _ fresh data versions accounts => exact h.congr accounts
  | beginTransaction => exact h
  | commitTransaction =>
    generalize Call.after _ s = s' at heffect
    cases heffect with
    | unchanged => exact h
    | committed => exact h
  | rollbackTransaction =>
    generalize Call.after _ s = s' at heffect
    cases heffect with
    | unchanged => exact h
    | rolledBack => exact h

/-! ## Usage -/

theorem ownedBytes_congr {owner : String → String → String} {s s' : InMemoryStorage}
    (h : s'.data.get = s.data.get) : s'.ownedBytes owner = s.ownedBytes owner :=
  funext fun user => Table.totalOn_congr ByteArray.size (fun p => owner p.1 p.2 = user) h

/-- One key of a user changes its size. -/
theorem ownedBytes_update {owner : String → String → String} {s s' : InMemoryStorage}
    {ns key : String} {value : Option ByteArray}
    (h : s'.data.get = Function.update s.data.get (ns, key) value) (user : String) :
    s'.ownedBytes owner user + (if owner ns key = user then s.storedBytes ns key else 0) =
      s.ownedBytes owner user + if owner ns key = user then value.elim 0 ByteArray.size else 0 :=
  Table.totalOn_of_update ByteArray.size (fun p => owner p.1 p.2 = user) h

theorem storedBytes_le_ownedBytes (owner : String → String → String) (s : InMemoryStorage)
    (ns key : String) : s.storedBytes ns key ≤ s.ownedBytes owner (owner ns key) := by
  set erased : InMemoryStorage := { s with data := s.data.erase (ns, key) }
  have hdata : erased.data.get = Function.update s.data.get (ns, key) none :=
    Table.get_erase s.data (ns, key)
  have h : erased.ownedBytes owner (owner ns key) + _ = s.ownedBytes owner (owner ns key) + _ :=
    ownedBytes_update hdata (owner ns key)
  rw [if_pos rfl, if_pos rfl, Option.elim_none] at h
  omega

theorem ownedBytes_le_totalBytes (owner : String → String → String) (s : InMemoryStorage)
    (user : String) : s.ownedBytes owner user ≤ s.totalBytes :=
  Table.totalOn_le_total ByteArray.size (fun p => owner p.1 p.2 = user) s.data

/-- The owner of a key is charged for its change of size. -/
theorem exact_of_charged {owner : String → String → String} {s s' : InMemoryStorage}
    {ns key : String} {value : Option ByteArray} (h : s.usedBytes = s.ownedBytes owner)
    (hdata : s'.data.get = Function.update s.data.get (ns, key) value)
    (hcharged : Charged (owner ns key) (bytesAfter (s.usedBytes (owner ns key))
      (s.storedBytes ns key) (value.elim 0 ByteArray.size)) s s')
    (hfit : s'.totalBytes < 2 ^ 64) : s'.usedBytes = s'.ownedBytes owner := by
  rw [hcharged.used]
  funext user
  have howned : s'.ownedBytes owner user + _ = s.ownedBytes owner user + _ :=
    ownedBytes_update hdata user
  by_cases huser : user = owner ns key
  · subst huser
    rw [if_pos rfl, if_pos rfl] at howned
    have hexisting := s.storedBytes_le_ownedBytes owner ns key
    have htotal := s'.ownedBytes_le_totalBytes owner (owner ns key)
    have hsum := congrFun h (owner ns key)
    rw [Function.update_self]
    unfold bytesAfter
    split
    · rw [saturatingAdd_of_lt (by omega)]
      omega
    · omega
  · rw [if_neg (Ne.symm huser), if_neg (Ne.symm huser)] at howned
    rw [Function.update_of_ne huser, h]
    omega

theorem usedBytes_eq_ownedBytes_step {owner : String → String → String} {c : Call}
    {s : InMemoryStorage} (hno : NoTransaction c) (howner : WrittenByOwner owner c s)
    (hfit : (c.after s).totalBytes < 2 ^ 64) (h : s.usedBytes = s.ownedBytes owner) :
    (c.after s).usedBytes = (c.after s).ownedBytes owner := by
  have heffect := c.effect s
  cases c with
  | set auth ns key value =>
    obtain ⟨e, -, he⟩ | ⟨e, -, he⟩ | ⟨a, s', rfl, hok, hs'⟩ := set_cases auth ns key value s
    · rwa [Call.after_set, he]
    · rw [Call.after_set, he, final_error, usedBytes_congr (recordForRollback_accounts s ns key _), h]
      exact (ownedBytes_congr (by rw [recordForRollback_data])).symm
    · rw [Call.after_set, hok] at hfit ⊢
      have hcharged := hs'.charged
      rw [howner ⟨s', hok⟩] at hcharged
      exact exact_of_charged h hs'.data hcharged hfit
  | delete auth ns key =>
    obtain ⟨e, -, he⟩ | ⟨a, s', rfl, hok, hs'⟩ := delete_cases auth ns key s
    · rwa [Call.after_delete, he]
    · rw [Call.after_delete, hok] at hfit ⊢
      have hcharged := hs'.booked.charged
      rw [howner ⟨s', hok⟩] at hcharged
      exact exact_of_charged h hs'.data hcharged hfit
  | createAccount auth userId quota =>
    generalize Call.after _ s = s' at heffect
    cases heffect with
    | unchanged => exact h
    | accountCreated _ _ _ account fresh accounts unused data =>
      rw [usedBytes_insert_new fresh accounts unused, h]
      exact (ownedBytes_congr (by rw [data])).symm
  | createNamespace auth ns quota parent =>
    generalize Call.after _ s = s' at heffect
    cases heffect with
    | unchanged => exact h
    | namespaceCreated _ _ _ _ fresh data versions accounts =>
      rw [usedBytes_congr accounts, h]
      refine (ownedBytes_congr ?_).symm
      rw [data, Table.get_insert_empty _ _ (Table.get_of_notMem fresh)]
  | beginTransaction => exact absurd hno not_false
  | commitTransaction => exact absurd hno not_false
  | rollbackTransaction => exact absurd hno not_false

/-- A rejected `set` is seen neither in the values nor in the accounts. -/
theorem rejected_set {auth : Option AuthContext} {ns key : String} {value : ByteArray}
    {e : StorageFault} {s s' : InMemoryStorage} (h : set auth ns key value s = .error e s') :
    s'.get = s.get ∧ s'.usedBytes = s.usedBytes := by
  have hkept : s'.data = s.data ∧ s'.accounts = s.accounts := by
    obtain ⟨e, -, he⟩ | ⟨e, -, he⟩ | ⟨a, s₁, -, hok, -⟩ := set_cases auth ns key value s
    · rw [he] at h
      cases h
      exact ⟨rfl, rfl⟩
    · rw [he] at h
      cases h
      exact ⟨recordForRollback_data s ns key _, recordForRollback_accounts s ns key _⟩
    · rw [hok] at h
      cases h
  refine ⟨?_, usedBytes_congr hkept.2⟩
  funext reader ns' key'
  unfold InMemoryStorage.get
  rw [hkept.1]

/-- In a run without transactions in which every key is written and deleted by one user only, and
never `2 ^ 64` bytes are stored, every account shows the bytes stored under the keys of its user and
is within its quota. A set over the quota changes neither values nor usage. -/
theorem accounts_exact (clock : Nat → Nat) (owner : String → String → String) (calls : List Call)
    (hno : ∀ c ∈ calls, NoTransaction c)
    (h : Meets (fun c s => WrittenByOwner owner c s ∧ (c.after s).totalBytes < 2 ^ 64) calls
      (new clock)) :
    (∀ user account, (afterAll calls (new clock)).accounts.lookup user = some account →
      account.storageUsedBytes = (afterAll calls (new clock)).ownedBytes owner user ∧
      account.storageUsedBytes ≤ account.storageQuotaBytes) ∧
    ∀ auth ns key value limitType current maximum s',
      set auth ns key value (afterAll calls (new clock)) =
        .error (.error (.quotaExceeded limitType current maximum)) s' →
      s'.get = (afterAll calls (new clock)).get ∧
        s'.usedBytes = (afterAll calls (new clock)).usedBytes := by
  refine ⟨?_, fun _ _ _ _ _ _ _ _ => rejected_set⟩
  have hused : (afterAll calls (new clock)).usedBytes =
      (afterAll calls (new clock)).ownedBytes owner :=
    (h.and hno).invariant (I := fun s => s.usedBytes = s.ownedBytes owner)
      (fun c s hc hs => usedBytes_eq_ownedBytes_step hc.1 hc.2.1 hc.2.2 hs) rfl
  have hquota : (afterAll calls (new clock)).WithinQuota :=
    h.invariant (I := WithinQuota) (fun c s _ hs => hs.step c) (fun _ _ hnew => nomatch hnew)
  intro user account hlookup
  refine ⟨?_, hquota user account hlookup⟩
  rw [← congrFun hused user]
  unfold usedBytes
  rw [hlookup]
  rfl

/-- A value is set, shrunk and deleted, another one is over the quota. -/
def setShrinkDelete : List Call :=
  [.createAccount (some admin) "admin" 4, .set (some admin) "ns" "k" "abc".toUTF8,
    .set (some admin) "ns" "j" "de".toUTF8, .set (some admin) "ns" "k" "a".toUTF8,
    .delete (some admin) "ns" "k"]

theorem accounts_exact_setShrinkDelete :
    ∃ account, (afterAll setShrinkDelete (new fun _ => 0)).accounts.lookup "admin" = some account ∧
      account.storageUsedBytes =
        (afterAll setShrinkDelete (new fun _ => 0)).ownedBytes (fun _ _ => "admin") "admin" ∧
      account.storageUsedBytes ≤ account.storageQuotaBytes := by
  have hsome : ((afterAll setShrinkDelete (new fun _ => 0)).accounts.lookup "admin").isSome = true := by
    decide
  obtain ⟨account, haccount⟩ := Option.isSome_iff_exists.mp hsome
  refine ⟨account, haccount,
    (accounts_exact (fun _ => 0) (fun _ _ => "admin") setShrinkDelete ?_ ?_).1 "admin" account haccount⟩
  · simp [setShrinkDelete, NoTransaction]
  · refine ⟨⟨trivial, ?_⟩, ⟨fun _ => rfl, ?_⟩, ⟨fun _ => rfl, ?_⟩, ⟨fun _ => rfl, ?_⟩,
      ⟨fun _ => rfl, ?_⟩, trivial⟩ <;> decide

end InMemoryStorage

end Covm
