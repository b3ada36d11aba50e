import Covm.Storage.Calls

/-!
# Quota accounting

Each write charges the difference in size to the writer. While the sizes fit in a `u64`, the bytes
charged are the bytes stored, with two exceptions: a rollback changes what is stored but not what
is charged, and a refund larger than what the writer has used is cut off at zero. Both accounting
invariants are proved of runs that avoid them.
-/

namespace Covm

open Maps Partial

namespace InMemoryStorage

/-- The bytes charged to all accounts. -/
def totalUsed (s : InMemoryStorage) : Nat := ∑ user ∈ s.accounts.keys, s.usedBytes user

/-! ## Conditions on calls -/

/-- The value fits in a `u64` beside what is stored. -/
def FitsU64 : Call → InMemoryStorage → Prop
  | .set _ _ _ value, s => s.totalBytes + value.size < 2 ^ 64
  | _, _ => True

/-- A rollback finds under the recorded keys as many bytes as it brings back. -/
def RollsBackEvenly : Call → InMemoryStorage → Prop
  | .rollbackTransaction, s =>
    ∑ p ∈ s.innermostLog.keys, ((s.innermostLog.recorded p).getD none).elim 0 ByteArray.size =
      ∑ p ∈ s.innermostLog.keys, (s.data.get p).elim 0 ByteArray.size
  | _, _ => True

/-- A permitted write gives back at most what the writer has used. -/
def RefundCovered : Call → InMemoryStorage → Prop
  | .set (some auth) ns key value, s =>
    checkPermission (some auth) "write" ns = .ok () →
      s.storedBytes ns key - value.size ≤ s.usedBytes auth.currentIdentityDid
  | .delete (some auth) ns key, s =>
    checkPermission (some auth) "write" ns = .ok () →
      s.storedBytes ns key ≤ s.usedBytes auth.currentIdentityDid
  | _, _ => True

/-- Writes and deletes are made by one user. -/
def WritesAs (user : String) : Call → Prop
  | .set (some auth) _ _ _ => auth.currentIdentityDid = user
  | .delete (some auth) _ _ => auth.currentIdentityDid = user
  | _ => True

/-- A user who writes has an account. -/
def WriterHasAccount : Call → InMemoryStorage → Prop
  | .set (some auth) _ _ _, s => auth.currentIdentityDid ∈ s.accounts
  | .delete (some auth) _ _, s => auth.currentIdentityDid ∈ s.accounts
  | _, _ => True

/-- The call is not about transactions. -/
def NoTransaction : Call → Prop
  | .beginTransaction | .commitTransaction | .rollbackTransaction => False
  | _ => True

/-! ## The bytes stored -/

theorem totalBytes_congr {s s' : InMemoryStorage} (h : s'.data.get = s.data.get) :
    s'.totalBytes = s.totalBytes :=
  Table.total_congr ByteArray.size h

theorem storedBytes_le_totalBytes (s : InMemoryStorage) (ns key : String) :
    s.storedBytes ns key ≤ s.totalBytes :=
  Table.le_total ByteArray.size s.data (ns, key)

theorem Stored.totalBytes {auth : AuthContext} {ns key : String} {value : ByteArray}
    {s s' : InMemoryStorage} (h : Stored auth ns key value s s') :
    s'.totalBytes + s.storedBytes ns key = s.totalBytes + value.size :=
  Table.total_of_update ByteArray.size h.data

theorem Deleted.totalBytes {auth : AuthContext} {ns key : String} {s s' : InMemoryStorage}
    (h : Deleted auth ns key s s') : s'.totalBytes + s.storedBytes ns key = s.totalBytes :=
  Table.total_of_update ByteArray.size h.data

theorem totalBytes_replay {s : InMemoryStorage}
    (h : RollsBackEvenly .rollbackTransaction s) :
    (s.data.replay s.innermostLog).total ByteArray.size = s.totalBytes := by
  have hreplay := Table.total_replay ByteArray.size s.data s.innermostLog
  have hundo : ∀ p ∈ s.innermostLog.keys, (s.innermostLog.undo s.data.get p).elim 0 ByteArray.size =
      ((s.innermostLog.recorded p).getD none).elim 0 ByteArray.size := by
    intro p hp
    rw [UndoLog.undo_apply]
    cases hr : s.innermostLog.recorded p with
    | none => exact absurd hp (UndoLog.recorded_eq_none.mp hr)
    | some old => rfl
  rw [Finset.sum_congr rfl hundo] at hreplay
  have heven : _ = _ := h
  unfold totalBytes
  omega

/-! ## The bytes charged -/

theorem bytesAfter_add (used existing size : Nat) (hfit : existing < size → used + size < 2 ^ 64)
    (hrefund : existing - size ≤ used) : bytesAfter used existing size + existing = used + size := by
  unfold bytesAfter
  by_cases hgrow : existing < size
  · have hlt := hfit hgrow
    rw [if_pos hgrow, saturatingAdd_of_lt (by omega)]
    omega
  · rw [if_neg hgrow]
    omega

/-- A new account has used nothing. -/
theorem usedBytes_insert_new {s s' : InMemoryStorage} {user : String} {account : ResourceAccount}
    (hfresh : user ∉ s.accounts) (hacc : s'.accounts = s.accounts.insert user account)
    (hunused : account.storageUsedBytes = 0) : s'.usedBytes = s.usedBytes := by
  funext u
  unfold usedBytes
  rw [hacc]
  by_cases hu : u = user
  · subst hu
    rw [Finmap.lookup_insert, Finmap.lookup_eq_none.mpr hfresh]
    exact hunused
  · rw [Finmap.lookup_insert_of_ne _ hu]

theorem usedBytes_congr {s s' : InMemoryStorage} (h : s'.accounts = s.accounts) :
    s'.usedBytes = s.usedBytes := by
  unfold usedBytes
  rw [h]

theorem usedBytes_support_subset (s : InMemoryStorage) :
    s.usedBytes.support ⊆ s.accounts.keys := by
  intro user hu
  rw [Finset.mem_coe, Finmap.mem_keys]
  by_contra hmem
  apply hu
  unfold usedBytes
  rw [Finmap.lookup_eq_none.mpr hmem]
  rfl

theorem totalUsed_eq_finsum (s : InMemoryStorage) : s.totalUsed = ∑ᶠ user, s.usedBytes user :=
  (finsum_eq_sum_of_support_subset _ s.usedBytes_support_subset).symm

theorem totalUsed_congr {s s' : InMemoryStorage} (h : s'.usedBytes = s.usedBytes) :
    s'.totalUsed = s.totalUsed := by
  rw [totalUsed_eq_finsum, totalUsed_eq_finsum, h]

theorem Charged.totalUsed {user : String} {bytes : Nat} {s s' : InMemoryStorage}
    (h : Charged user bytes s s') : s'.totalUsed + s.usedBytes user = s.totalUsed + bytes := by
  rw [totalUsed_eq_finsum, totalUsed_eq_finsum, h.used]
  exact finsum_update_add (s.accounts.keys.finite_toSet.subset s.usedBytes_support_subset) user bytes

theorem usedBytes_le_totalUsed (s : InMemoryStorage) (user : String) :
    s.usedBytes user ≤ s.totalUsed := by
  by_cases hu : s.usedBytes user = 0
  · omega
  · exact Finset.single_le_sum (f := s.usedBytes) (fun _ _ => Nat.zero_le _)
      (s.usedBytes_support_subset hu)

/-! ## One call -/

/-- One key goes from `existing` to `size` bytes at the charge of a user. -/
structure Booked (user : String) (existing size : Nat) (s s' : InMemoryStorage) : Prop where
  charged : Charged user (bytesAfter (s.usedBytes user) existing size) s s'
  stored : s'.totalBytes + existing = s.totalBytes + size
  existing_le : existing ≤ s.totalBytes

theorem Stored.booked {auth : AuthContext} {ns key : String} {value : ByteArray}
    {s s' : InMemoryStorage} (h : Stored auth ns key value s s') :
    Booked auth.currentIdentityDid (s.storedBytes ns key) value.size s s' :=
  ⟨h.charged, h.totalBytes, s.storedBytes_le_totalBytes ns key⟩

theorem Deleted.booked {auth : AuthContext} {ns key : String} {s s' : InMemoryStorage}
    (h : Deleted auth ns key s s') :
    Booked auth.currentIdentityDid (s.storedBytes ns key) 0 s s' := by
  refine ⟨?_, h.totalBytes, s.storedBytes_le_totalBytes ns key⟩
  have hcharged := h.charged
  unfold bytesAfter
  rwa [if_neg (Nat.not_lt_zero _), Nat.sub_zero]

/-- What a call does to the books: nothing, or one key changes its size. -/
theorem Effect.booked {c : Call} {s s' : InMemoryStorage} (he : Effect s c s')
    (hroll : RollsBackEvenly c s) :
    (s'.usedBytes = s.usedBytes ∧ s'.totalBytes = s.totalBytes) ∨
    ∃ user existing size, Booked user existing size s s' ∧
      (FitsU64 c s → existing < size → s.totalBytes + size < 2 ^ 64) ∧
      (∀ u, WritesAs u c → user = u) ∧
      (RefundCovered c s → existing - size ≤ s.usedBytes user) := by
  cases he with
  | unchanged => exact .inl ⟨rfl, rfl⟩
  | recorded auth ns key value =>
    exact .inl ⟨usedBytes_congr (recordForRollback_accounts s ns key _),
      totalBytes_congr (by rw [recordForRollback_data])⟩
  | stored auth ns key value h =>
    exact .inr ⟨_, _, _, h.booked, fun hfit _ => hfit, fun _ hu => hu,
      fun hrefund => hrefund h.permitted⟩
  | deleted auth ns key h =>
    exact .inr ⟨_, _, _, h.booked, fun _ hlt => absurd hlt (Nat.not_lt_zero _), fun _ hu => hu,
      fun hrefund => hrefund h.permitted⟩
  | accountCreated auth userId quota account fresh accounts unused data versions logs =>
    exact .inl ⟨usedBytes_insert_new fresh accounts unused, totalBytes_congr (by rw [data])⟩
  | namespaceCreated auth ns quota parent fresh data versions accounts logs =>
    refine .inl ⟨usedBytes_congr accounts, totalBytes_congr ?_⟩
    rw [data, Table.get_insert_empty _ _ (Table.get_of_notMem fresh)]
  | begun => exact .inl ⟨rfl, rfl⟩
  | committed log rest => exact .inl ⟨rfl, rfl⟩
  | rolledBack log rest hopen =>
    have hlog : log = s.innermostLog := by
      unfold innermostLog
      rw [hopen]
      rfl
    rw [hlog]
    exact .inl ⟨rfl, totalBytes_replay hroll⟩

/-! ## One user -/

/-- The single writer is charged for all that is stored. -/
theorem usedBytes_step {user : String} {c : Call} {s s' : InMemoryStorage}
    (huser : WritesAs user c) (hfit : FitsU64 c s) (hroll : RollsBackEvenly c s)
    (he : Effect s c s') (h : s.usedBytes user = s.totalBytes) :
    s'.usedBytes user = s'.totalBytes := by
  obtain ⟨hused, htotal⟩ | ⟨writer, existing, size, hbooked, hfits, hwriter, -⟩ := he.booked hroll
  · rw [hused, htotal, h]
  · obtain rfl := hwriter user huser
    have hle := hbooked.existing_le
    have hstored := hbooked.stored
    have hadd := bytesAfter_add (s.usedBytes writer) existing size
      (fun hlt => by rw [h]; exact hfits hfit hlt) (by omega)
    rw [hbooked.charged.used, Function.update_self]
    omega

/-- In a run in which one user makes all writes, and every rollback brings back as many bytes as it
replaces, the user is charged for the bytes that are stored. -/
theorem usedBytes_eq_totalBytes (clock : Nat → Nat) (user : String) (calls : List Call)
    (huser : ∀ c ∈ calls, WritesAs user c)
    (h : Meets (fun c s => FitsU64 c s ∧ RollsBackEvenly c s) calls (new clock)) :
    (afterAll calls (new clock)).usedBytes user = (afterAll calls (new clock)).totalBytes :=
  (h.and huser).invariant (fun c s hc hs => usedBytes_step hc.1 hc.2.1 hc.2.2 (c.effect s) hs) rfl

/-- A key is set, and set to as many bytes in a transaction that is rolled back. -/
def replaceAndRollBack : List Call :=
  [.createAccount (some admin) "admin" 1000, .set (some admin) "ns" "k" "v".toUTF8,
    .beginTransaction, .set (some admin) "ns" "k" "w".toUTF8, .rollbackTransaction]

theorem usedBytes_eq_totalBytes_replaceAndRollBack :
    (afterAll replaceAndRollBack (new fun _ => 0)).usedBytes "admin" =
      (afterAll replaceAndRollBack (new fun _ => 0)).totalBytes := by
  apply usedBytes_eq_totalBytes
  · simp [replaceAndRollBack, WritesAs, admin, AuthContext.new, AuthContext.addRole,
      AuthContext.addRoleToIdentity]
  · refine ⟨⟨trivial, trivial⟩, ⟨?_, trivial⟩, ⟨trivial, trivial⟩, ⟨?_, trivial⟩, ⟨trivial, ?_⟩,
      trivial⟩
    · show _ < _
      decide
    · show _ < _
      decide
    · show (_ : Nat) = _
      decide

/-- The bytes of a write that was rolled back stay charged. -/
theorem not_usedBytes_eq_totalBytes :
    ¬ ∀ (clock : Nat → Nat) (user : String) (calls : List Call),
      (∀ c ∈ calls, WritesAs user c) → Meets WriterHasAccount calls (new clock) →
      (afterAll calls (new clock)).usedBytes user = (afterAll calls (new clock)).totalBytes := by
  intro h
  have hused := h (fun _ => 0) "admin" [.createAccount (some admin) "admin" 1000,
    .beginTransaction, .set (some admin) "ns" "k" "v".toUTF8, .rollbackTransaction]
    (by simp [WritesAs, admin, AuthContext.new, AuthContext.addRole,
      AuthContext.addRoleToIdentity])
    ⟨trivial, trivial, by show _ ∈ _; decide, trivial, trivial⟩
  exact absurd hused (by decide)

/-! ## Any number of users -/

theorem totalUsed_step {c : Call} {s s' : InMemoryStorage} (hfit : FitsU64 c s)
    (hrefund : RefundCovered c s) (hroll : RollsBackEvenly c s) (he : Effect s c s')
    (h : s.totalUsed = s.totalBytes) : s'.totalUsed = s'.totalBytes := by
  obtain ⟨hused, htotal⟩ | ⟨writer, existing, size, hbooked, hfits, -, hcovered⟩ := he.booked hroll
  · rw [totalUsed_congr hused, htotal, h]
  · have hle := s.usedBytes_le_totalUsed writer
    have hstored := hbooked.stored
    have hsum := hbooked.charged.totalUsed
    have hadd := bytesAfter_add (s.usedBytes writer) existing size
      (fun hlt => by have := hfits hfit hlt; omega) (hcovered hrefund)
    omega

/-- Without transactions, and while no write gives back more than the writer has used, the bytes
charged to all accounts are the bytes that are stored. -/
theorem totalUsed_eq_totalBytes (clock : Nat → Nat) (calls : List Call)
    (hno : ∀ c ∈ calls, NoTransaction c)
    (h : Meets (fun c s => FitsU64 c s ∧ RefundCovered c s) calls (new clock)) :
    (afterAll calls (new clock)).totalUsed = (afterAll calls (new clock)).totalBytes := by
  refine Meets.invariant (I := fun s => s.totalUsed = s.totalBytes) ?_ (h.and hno) rfl
  intro c s hc hs
  have hroll : RollsBackEvenly c s := by
    cases c with
    | rollbackTransaction => exact absurd hc.1 not_false
    | _ => trivial
  exact totalUsed_step hc.2.1 hc.2.2 hroll (c.effect s) hs

/-- Another user of the namespace the administrator writes to. -/
def writer : AuthContext := (AuthContext.new "writer").addRole "ns" "writer"

/-- Two users, the second of whom overwrites a value of the first with `value`. -/
def overwriteAsOther (value : ByteArray) : List Call :=
  [.createAccount (some admin) "admin" 1000, .createAccount (some admin) "writer" 1000,
    .set (some admin) "ns" "k" "0123456789".toUTF8, .set (some writer) "ns" "k" value]

theorem totalUsed_eq_totalBytes_overwriteAsOther :
    (afterAll (overwriteAsOther "0123456789a".toUTF8) (new fun _ => 0)).totalUsed =
      (afterAll (overwriteAsOther "0123456789a".toUTF8) (new fun _ => 0)).totalBytes := by
  apply totalUsed_eq_totalBytes
  · simp [overwriteAsOther, NoTransaction]
  · refine ⟨⟨trivial, trivial⟩, ⟨trivial, trivial⟩, ⟨?_, fun _ => ?_⟩, ⟨?_, fun _ => ?_⟩, trivial⟩
    · show _ < _
      decide
    · decide
    · show _ < _
      decide
    · decide

/-- The refund for a value of another user is lost. -/
theorem not_totalUsed_eq_totalBytes :
    ¬ ∀ (clock : Nat → Nat) (calls : List Call), (∀ c ∈ calls, NoTransaction c) →
      Meets WriterHasAccount calls (new clock) →
      (afterAll calls (new clock)).totalUsed = (afterAll calls (new clock)).totalBytes := by
  intro h
  have hused := h (fun _ => 0) (overwriteAsOther "01234".toUTF8)
    (by simp [overwriteAsOther, NoTransaction])
    ⟨trivial, trivial, by show _ ∈ _; decide, by show _ ∈ _; decide, trivial⟩
  exact absurd hused (by decide)

end InMemoryStorage

end Covm
