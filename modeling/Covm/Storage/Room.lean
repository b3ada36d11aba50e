import Covm.Storage.Calls

/-!
# Which writes succeed

A `set` on the in-memory backend succeeds exactly if the caller may write to the namespace and, where
the value grows, has an account with room for the difference.
-/

namespace Covm.InMemoryStorage

open Partial

/-- There is room for `size` bytes in the place of `existing` bytes. -/
def RoomFor (s : InMemoryStorage) (user : String) (existing size : Nat) : Prop :=
  existing < size → ∃ account, s.accounts.lookup user = some account ∧
    account.canStore (size - existing) = true

/-- The caller may write the value under the key, and has room for it. -/
def Writable (s : InMemoryStorage) (auth : Option AuthContext) (ns key : String)
    (value : ByteArray) : Prop :=
  ∃ a, auth = some a ∧ checkPermission (some a) "write" ns = .ok () ∧
    s.RoomFor a.currentIdentityDid (s.storedBytes ns key) value.size

theorem chargeDifference_ok_iff {user internalKey : String} {existing size : Nat}
    {s : InMemoryStorage} :
    (∃ s', chargeDifference user internalKey existing size s = .ok () s') ↔
      s.RoomFor user existing size := by
  unfold chargeDifference RoomFor
  by_cases hgrow : existing < size
  · rw [if_pos hgrow]
    cases hlookup : s.accounts.lookup user with
    | none => simp [hgrow]
    | some account =>
      simp only [hgrow, forall_const, Option.some.injEq, exists_eq_left', ResourceAccount.addUsage]
      cases account.canStore (size - existing) with
      | true => simp
      | false => simp
  · rw [if_neg hgrow]
    simp only [hgrow, IsEmpty.forall_iff, iff_true]
    split_ifs
    · exact ⟨_, rfl⟩
    · exact ⟨_, rfl⟩

theorem set_ok_iff {auth : Option AuthContext} {ns key : String} {value : ByteArray}
    {s : InMemoryStorage} :
    (∃ s', set auth ns key value s = .ok () s') ↔ s.Writable auth ns key value := by
  unfold Writable
  obtain ⟨e, hno, hdenied⟩ | ⟨a, rfl, hpermitted, hquery⟩ := query_permission auth "write" ns s
  · have hset : set auth ns key value s = .error (.error e) s := StorageM.bind_of_error hdenied
    rw [hset]
    refine iff_of_false (by simp) ?_
    rintro ⟨a, rfl, hpermitted, -⟩
    cases hno.symm.trans hpermitted
  · set r := s.recordForRollback ns key (s.data.get (ns, key)) with hr
    have hroom : r.RoomFor a.currentIdentityDid (s.storedBytes ns key) value.size ↔
        s.RoomFor a.currentIdentityDid (s.storedBytes ns key) value.size := by
      unfold RoomFor
      rw [hr, recordForRollback_accounts]
    simp only [Option.some.injEq, exists_eq_left', hpermitted, true_and]
    rw [← hroom, ← @chargeDifference_ok_iff a.currentIdentityDid (makeInternalKey ns key)]
    unfold set storedBytes
    simp only [bind, EStateM.bind, hquery, StorageM.get_apply, StorageM.modify_apply, ← hr]
    cases chargeDifference a.currentIdentityDid (makeInternalKey ns key)
        ((s.data.get (ns, key)).elim 0 ByteArray.size) value.size r with
    | ok u s₁ => simp
    | error e s₁ => simp

/-- What a `set` can do to the data: write the value, or fail without a trace. -/
theorem set_data (auth : Option AuthContext) (ns key : String) (value : ByteArray)
    (s : InMemoryStorage) :
    (s.Writable auth ns key value ∧ ∃ s', set auth ns key value s = .ok () s' ∧
      s'.data.get = Function.update s.data.get (ns, key) (some value)) ∨
    (¬ s.Writable auth ns key value ∧ ∃ e s', set auth ns key value s = .error (.error e) s' ∧
      s'.data = s.data) := by
  rw [← set_ok_iff]
  obtain ⟨e, -, h⟩ | ⟨e, -, h⟩ | ⟨a, s', -, h, hstored⟩ := set_cases auth ns key value s
  · exact .inr ⟨by simp [h], e, s, h, rfl⟩
  · exact .inr ⟨by simp [h], e, _, h, recordForRollback_data s ns key _⟩
  · exact .inl ⟨⟨s', h⟩, s', h, hstored.data⟩

/-- The accounts after a `set` are those after the charge, if it gets that far. -/
theorem set_accounts (auth : Option AuthContext) (ns key : String) (value : ByteArray)
    (s : InMemoryStorage) :
    (final (set auth ns key value s)).accounts = s.accounts ∨
    ∃ user, (final (set auth ns key value s)).accounts =
      (final (chargeDifference user (makeInternalKey ns key) (s.storedBytes ns key) value.size
        (s.recordForRollback ns key (s.data.get (ns, key))))).accounts := by
  obtain ⟨e, -, hdenied⟩ | ⟨a, rfl, -, hquery⟩ := query_permission auth "write" ns s
  · left
    unfold set
    simp only [bind, EStateM.bind, hdenied, final_error]
  · right
    refine ⟨a.currentIdentityDid, ?_⟩
    unfold set storedBytes
    simp only [bind, EStateM.bind, hquery, StorageM.get_apply, StorageM.modify_apply]
    cases chargeDifference a.currentIdentityDid (makeInternalKey ns key)
      ((s.data.get (ns, key)).elim 0 ByteArray.size) value.size
      (s.recordForRollback ns key (s.data.get (ns, key))) with
    | ok u s₁ => rfl
    | error e s₁ => rfl

/-! ### Quotas -/

/-- The quota of a user who has an account. -/
def quotaOf (s : InMemoryStorage) (user : String) : Option Nat :=
  (s.accounts.lookup user).map (·.storageQuotaBytes)

theorem quotaOf_congr {s s' : InMemoryStorage} (h : s'.accounts = s.accounts) :
    s'.quotaOf = s.quotaOf := by
  funext user
  unfold quotaOf
  rw [h]

theorem quotaOf_insert {s s' : InMemoryStorage} {other : String}
    {account account' : ResourceAccount} (hlookup : s.accounts.lookup other = some account)
    (hquota : account'.storageQuotaBytes = account.storageQuotaBytes)
    (haccounts : s'.accounts = s.accounts.insert other account') : s'.quotaOf = s.quotaOf := by
  funext user
  unfold quotaOf
  rw [haccounts]
  by_cases heq : user = other
  · rw [heq, Finmap.lookup_insert, hlookup]
    exact congrArg some hquota
  · rw [Finmap.lookup_insert_of_ne _ heq]

theorem quotaOf_chargeDifference (other internalKey : String) (existing size : Nat)
    (s : InMemoryStorage) :
    (final (chargeDifference other internalKey existing size s)).quotaOf = s.quotaOf := by
  unfold InMemoryStorage.chargeDifference
  cases hlookup : s.accounts.lookup other with
  | none =>
    split_ifs
    · rfl
    · unfold refund
      rw [hlookup]
      rfl
    · rfl
  | some account =>
    split_ifs
    · dsimp only
      cases hadd : account.addUsage (s.clock s.reads) (size - existing) with
      | error e => rfl
      | ok account' => exact quotaOf_insert hlookup (ResourceAccount.addUsage_quota hadd) rfl
    · unfold refund
      rw [hlookup]
      have hquota : (account.reduceUsage (s.clock s.reads) (existing - size)).storageQuotaBytes =
          account.storageQuotaBytes := rfl
      exact quotaOf_insert hlookup hquota rfl
    · rfl

/-- Writing never changes a quota. -/
theorem quotaOf_set (auth : Option AuthContext) (ns key : String) (value : ByteArray)
    (s : InMemoryStorage) :
    (final (InMemoryStorage.set auth ns key value s)).quotaOf = s.quotaOf := by
  obtain hsame | ⟨other, hcharged⟩ := set_accounts auth ns key value s
  · exact quotaOf_congr hsame
  · rw [quotaOf_congr hcharged, quotaOf_chargeDifference]
    exact quotaOf_congr (recordForRollback_accounts s ns key _)

/-- Room for `size` bytes in the place of `existing` bytes within a quota, `used` bytes being
charged already. -/
def Accommodates (quota : Option Nat) (used existing size : Nat) : Prop :=
  existing < size → ∃ q, quota = some q ∧ saturatingAdd used (size - existing) ≤ q

theorem roomFor_iff {s : InMemoryStorage} {user : String} {existing size : Nat} :
    s.RoomFor user existing size ↔ Accommodates (s.quotaOf user) (s.usedBytes user) existing size := by
  unfold RoomFor Accommodates quotaOf usedBytes
  refine imp_congr_right fun _ => ?_
  cases s.accounts.lookup user with
  | none => simp
  | some account => simp [ResourceAccount.canStore]

/-- The user has an account without a limit. -/
def Roomy (user : String) (s : InMemoryStorage) : Prop :=
  ∃ account, s.accounts.lookup user = some account ∧ 2 ^ 64 - 1 ≤ account.storageQuotaBytes

theorem Roomy.roomFor {user : String} {s : InMemoryStorage} (h : s.Roomy user)
    (existing size : Nat) : s.RoomFor user existing size := by
  intro _
  obtain ⟨account, hlookup, hquota⟩ := h
  refine ⟨account, hlookup, decide_eq_true ?_⟩
  exact (Nat.min_le_right _ _).trans hquota

theorem roomy_iff {user : String} {s : InMemoryStorage} :
    s.Roomy user ↔ ∃ quota, s.quotaOf user = some quota ∧ 2 ^ 64 - 1 ≤ quota := by
  simp [Roomy, quotaOf]

theorem Roomy.set {user : String} {s : InMemoryStorage} (h : s.Roomy user)
    (auth : Option AuthContext) (ns key : String) (value : ByteArray) :
    (final (InMemoryStorage.set auth ns key value s)).Roomy user := by
  rw [roomy_iff, quotaOf_set, ← roomy_iff]
  exact h

end Covm.InMemoryStorage
