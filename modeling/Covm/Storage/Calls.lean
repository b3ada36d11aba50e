import Covm.Partial.Within
import Covm.Storage.InMemory

/-!
# What a storage call can do

`Call` is a call that may change an `InMemoryStorage`, with its arguments. What such a call does is
said once here, in terms of what can be observed: the values (`data.get`), the versions, the bytes
charged to each user (`usedBytes`) and the undo logs. A call that fails may have recorded the key
it was about to write; nothing else of it is left.
-/

namespace Covm

open Maps Partial

namespace InMemoryStorage

/-- The bytes charged to a user; `0` without an account. -/
def usedBytes (s : InMemoryStorage) (user : String) : Nat :=
  (s.accounts.lookup user).elim 0 (·.storageUsedBytes)

/-- The bytes of all stored values. -/
def totalBytes (s : InMemoryStorage) : Nat := s.data.total ByteArray.size

/-- The bytes stored under one key. -/
def storedBytes (s : InMemoryStorage) (ns key : String) : Nat :=
  (s.data.get (ns, key)).elim 0 ByteArray.size

/-! ## The parts of a call -/

section parts
variable (s : InMemoryStorage)

@[simp] theorem recordForRollback_data (ns key : String) (old : Option ByteArray) :
    (s.recordForRollback ns key old).data = s.data := by
  unfold recordForRollback
  split <;> rfl

@[simp] theorem recordForRollback_versions (ns key : String) (old : Option ByteArray) :
    (s.recordForRollback ns key old).versions = s.versions := by
  unfold recordForRollback
  split <;> rfl

@[simp] theorem recordForRollback_accounts (ns key : String) (old : Option ByteArray) :
    (s.recordForRollback ns key old).accounts = s.accounts := by
  unfold recordForRollback
  split <;> rfl

@[simp] theorem emitEvent_data (type : String) (auth : AuthContext) (ns key details : String) :
    (s.emitEvent type auth ns key details).data = s.data := rfl

@[simp] theorem emitEvent_versions (type : String) (auth : AuthContext)
    (ns key details : String) : (s.emitEvent type auth ns key details).versions = s.versions := rfl

@[simp] theorem emitEvent_accounts (type : String) (auth : AuthContext)
    (ns key details : String) : (s.emitEvent type auth ns key details).accounts = s.accounts := rfl

@[simp] theorem emitEvent_transactionStack (type : String) (auth : AuthContext)
    (ns key details : String) :
    (s.emitEvent type auth ns key details).transactionStack = s.transactionStack := rfl

@[simp] theorem refund_data (user : String) (bytes : Nat) :
    (s.refund user bytes).data = s.data := by
  unfold refund
  split <;> rfl

@[simp] theorem refund_versions (user : String) (bytes : Nat) :
    (s.refund user bytes).versions = s.versions := by
  unfold refund
  split <;> rfl

@[simp] theorem refund_transactionStack (user : String) (bytes : Nat) :
    (s.refund user bytes).transactionStack = s.transactionStack := by
  unfold refund
  split <;> rfl

theorem writeVersion_versions (user ns key : String) :
    ∃ v, (s.writeVersion user ns key).versions.get =
      Function.update s.versions.get (ns, key) (some v) :=
  ⟨_, Table.get_put s.versions (ns, key) _⟩

end parts

/-- Accounts in which one user's used bytes are changed. -/
structure Charged (user : String) (bytes : Nat) (s s' : InMemoryStorage) : Prop where
  used : s'.usedBytes = Function.update s.usedBytes user bytes
  holders : ∀ u, u ∈ s'.accounts ↔ u ∈ s.accounts

theorem Charged.refl (user : String) (s : InMemoryStorage) :
    Charged user (s.usedBytes user) s s where
  used := (Function.update_eq_self user s.usedBytes).symm
  holders _ := Iff.rfl

/-- A new record for a user who has an account. -/
theorem charged_insert {s s' : InMemoryStorage} {user : String} {old account : ResourceAccount}
    (h : s.accounts.lookup user = some old) (hs : s'.accounts = s.accounts.insert user account) :
    Charged user account.storageUsedBytes s s' where
  used := by
    funext u
    unfold usedBytes
    rw [hs]
    by_cases hu : u = user
    · subst hu
      rw [Finmap.lookup_insert, Function.update_self]
      rfl
    · rw [Finmap.lookup_insert_of_ne _ hu, Function.update_of_ne hu]
  holders u := by
    have hmem : user ∈ s.accounts := Finmap.lookup_isSome.mp (by rw [h]; rfl)
    rw [hs, Finmap.mem_insert]
    constructor
    · rintro (rfl | hu)
      · exact hmem
      · exact hu
    · exact .inr

theorem refund_charged (s : InMemoryStorage) (user : String) (bytes : Nat) :
    Charged user (s.usedBytes user - bytes) s (s.refund user bytes) := by
  unfold refund
  cases h : s.accounts.lookup user with
  | some account =>
    have hused : s.usedBytes user = account.storageUsedBytes := by
      unfold usedBytes
      rw [h]
      rfl
    rw [hused]
    show Charged user (account.reduceUsage (s.clock s.reads) bytes).storageUsedBytes s _
    exact charged_insert h rfl
  | none =>
    have hused : s.usedBytes user = 0 := by
      unfold usedBytes
      rw [h]
      rfl
    rw [hused, Nat.zero_sub, ← hused]
    exact Charged.refl user s

/-- The used bytes of a writer who replaces `existing` bytes by `size` bytes. -/
def bytesAfter (used existing size : Nat) : Nat :=
  if existing < size then saturatingAdd used (size - existing) else used - (existing - size)

/-- What `chargeDifference` can do: refuse and change nothing, or charge the writer. -/
theorem chargeDifference_cases (user internalKey : String) (existing size : Nat)
    (s : InMemoryStorage) :
    (∃ e, chargeDifference user internalKey existing size s = .error (.error e) s) ∨
    ∃ s', chargeDifference user internalKey existing size s = .ok () s' ∧
      Charged user (bytesAfter (s.usedBytes user) existing size) s s' ∧
      s'.data = s.data ∧ s'.versions = s.versions ∧
      s'.transactionStack = s.transactionStack := by
  unfold chargeDifference bytesAfter
  by_cases hgrow : existing < size
  · rw [if_pos hgrow, if_pos hgrow]
    cases h : s.accounts.lookup user with
    | none => exact .inl ⟨_, rfl⟩
    | some account =>
      have hused : s.usedBytes user = account.storageUsedBytes := by
        unfold usedBytes
        rw [h]
        rfl
      dsimp only
      cases hadd : account.addUsage (s.clock s.reads) (size - existing) with
      | error e => exact .inl ⟨e, rfl⟩
      | ok account' =>
        rw [hused, ← (ResourceAccount.addUsage_ok hadd).1]
        exact .inr ⟨_, rfl, charged_insert h rfl, rfl, rfl, rfl⟩
  · rw [if_neg hgrow, if_neg hgrow]
    refine .inr ?_
    by_cases hshrink : size < existing
    · rw [if_pos hshrink]
      exact ⟨_, rfl, refund_charged s user _, refund_data s user _, refund_versions s user _,
        refund_transactionStack s user _⟩
    · have hsame : s.usedBytes user - (existing - size) = s.usedBytes user := by omega
      rw [if_neg hshrink, hsame]
      exact ⟨s, rfl, Charged.refl user s, rfl, rfl, rfl⟩

/-! ## Writes -/

/-- The store after a successful `set`. -/
structure Stored (auth : AuthContext) (ns key : String) (value : ByteArray)
    (s s' : InMemoryStorage) : Prop where
  permitted : checkPermission (some auth) "write" ns = .ok ()
  data : s'.data.get = Function.update s.data.get (ns, key) (some value)
  versions : ∃ v, s'.versions.get = Function.update s.versions.get (ns, key) (some v)
  charged : Charged auth.currentIdentityDid
    (bytesAfter (s.usedBytes auth.currentIdentityDid) (s.storedBytes ns key) value.size) s s'
  logs : s'.transactionStack =
    (s.recordForRollback ns key (s.data.get (ns, key))).transactionStack

/-- The store after a successful `delete`. -/
structure Deleted (auth : AuthContext) (ns key : String) (s s' : InMemoryStorage) : Prop where
  permitted : checkPermission (some auth) "write" ns = .ok ()
  present : s.data.get (ns, key) ≠ none
  data : s'.data.get = Function.update s.data.get (ns, key) none
  versions : s'.versions.get = Function.update s.versions.get (ns, key) none
  charged : Charged auth.currentIdentityDid
    (s.usedBytes auth.currentIdentityDid - s.storedBytes ns key) s s'
  logs : s'.transactionStack =
    (s.recordForRollback ns key (s.data.get (ns, key))).transactionStack

/-- Charges are not affected by what else changes. -/
theorem Charged.congr {user : String} {bytes : Nat} {s s' t t' : InMemoryStorage}
    (h : Charged user bytes s s') (hs : t.accounts = s.accounts) (hs' : t'.accounts = s'.accounts) :
    Charged user bytes t t' where
  used := by
    have hused := h.used
    unfold usedBytes at hused ⊢
    rwa [hs, hs']
  holders u := by
    rw [hs, hs']
    exact h.holders u

theorem query_permission (auth : Option AuthContext) (action ns : String) (s : InMemoryStorage) :
    (∃ e, checkPermission auth action ns = .error e ∧
      StorageM.query (fun _ => checkPermission auth action ns) s = .error (.error e) s) ∨
    (∃ a, auth = some a ∧ checkPermission (some a) action ns = .ok () ∧
      StorageM.query (fun _ => checkPermission auth action ns) s = .ok () s) := by
  unfold StorageM.query
  cases h : checkPermission auth action ns with
  | error e => exact .inl ⟨e, rfl, rfl⟩
  | ok u =>
    cases auth with
    | none => exact nomatch h
    | some a => exact .inr ⟨a, rfl, h, rfl⟩

/-- Who may write may read. -/
theorem checkPermission_read {auth : Option AuthContext} {ns : String}
    (h : checkPermission auth "write" ns = .ok ()) : checkPermission auth "read" ns = .ok () := by
  cases auth with
  | none => cases h
  | some auth =>
    have hroles : ["writer", "admin"].any (auth.hasRole ns) = true →
        ["reader", "writer", "admin"].any (auth.hasRole ns) = true := by
      simp only [List.any_cons, List.any_nil, Bool.or_false, Bool.or_eq_true]
      exact .inr
    unfold checkPermission at h ⊢
    dsimp only at h ⊢
    rw [if_neg (by decide : "write" ≠ "read"), if_pos rfl] at h
    rw [if_pos rfl]
    split
    · rfl
    · next hglobal =>
      rw [if_neg hglobal] at h
      split
      · rfl
      · next hadmin =>
        rw [if_neg hadmin] at h
        split at h
        · next hwriter => rw [if_pos (hroles hwriter)]
        · cases h

/-- What `set` can do: nothing, record the key and then fail, or store the value. -/
theorem set_cases (auth : Option AuthContext) (ns key : String) (value : ByteArray)
    (s : InMemoryStorage) :
    (∃ e, checkPermission auth "write" ns = .error e ∧
      set auth ns key value s = .error (.error e) s) ∨
    (∃ e, checkPermission auth "write" ns = .ok () ∧ set auth ns key value s =
      .error (.error e) (s.recordForRollback ns key (s.data.get (ns, key)))) ∨
    ∃ a s', auth = some a ∧ set auth ns key value s = .ok () s' ∧ Stored a ns key value s s' := by
  obtain ⟨e, hno, hdenied⟩ | ⟨a, rfl, hpermitted, hquery⟩ := query_permission auth "write" ns s
  · left
    refine ⟨e, hno, ?_⟩
    unfold set
    simp only [bind, EStateM.bind, hdenied]
  right
  set r := s.recordForRollback ns key (s.data.get (ns, key)) with hr
  obtain ⟨e, hcharge⟩ | ⟨s₁, hcharge, hcharged, hdata, hversions, hlogs⟩ :=
    chargeDifference_cases a.currentIdentityDid (makeInternalKey ns key) (s.storedBytes ns key)
      value.size r
  · left
    refine ⟨e, hpermitted, ?_⟩
    unfold set
    simp only [bind, EStateM.bind, hquery, StorageM.get_apply, StorageM.modify_apply, ← hr]
    unfold storedBytes at hcharge
    rw [hcharge]
  · right
    refine ⟨a, emitEvent "write" a ns key s!"Value updated ({value.size} bytes)"
      (writeVersion a.currentIdentityDid ns key (writeData ns key value s₁)), rfl, ?_,
      hpermitted, ?_, ?_, ?_, ?_⟩
    · unfold set
      simp only [bind, EStateM.bind, hquery, StorageM.get_apply, StorageM.modify_apply, ← hr]
      unfold storedBytes at hcharge
      rw [hcharge]
    · rw [emitEvent_data]
      show (s₁.data.put (ns, key) value).get = _
      rw [hdata, hr, recordForRollback_data, Table.get_put]
    · obtain ⟨v, hv⟩ := writeVersion_versions (writeData ns key value s₁)
        a.currentIdentityDid ns key
      refine ⟨v, ?_⟩
      rw [emitEvent_versions, hv]
      show Function.update s₁.versions.get (ns, key) (some v) = _
      rw [hversions, hr, recordForRollback_versions]
    · have hused : r.usedBytes = s.usedBytes := by
        unfold usedBytes
        rw [hr, recordForRollback_accounts]
      rw [hused] at hcharged
      exact hcharged.congr (recordForRollback_accounts s ns key _).symm rfl
    · exact hlogs

/-- What `delete` can do. -/
theorem delete_cases (auth : Option AuthContext) (ns key : String) (s : InMemoryStorage) :
    (∃ e, (checkPermission auth "write" ns = .ok () → s.data.get (ns, key) = none) ∧
      delete auth ns key s = .error (.error e) s) ∨
    ∃ a s', auth = some a ∧ delete auth ns key s = .ok () s' ∧ Deleted a ns key s s' := by
  obtain ⟨e, hno, hdenied⟩ | ⟨a, rfl, hpermitted, hquery⟩ := query_permission auth "write" ns s
  · left
    refine ⟨e, ?_, ?_⟩
    · intro hyes
      rw [hno] at hyes
      exact nomatch hyes
    · unfold delete
      simp only [bind, EStateM.bind, hdenied]
  cases hget : s.data.get (ns, key) with
  | none =>
    left
    refine ⟨.notFound (makeInternalKey ns key), fun _ => rfl, ?_⟩
    unfold delete
    simp only [bind, EStateM.bind, hquery, StorageM.get_apply, hget]
    rfl
  | some value =>
    right
    set r := s.recordForRollback ns key (some value) with hr
    have hcharged := refund_charged r a.currentIdentityDid value.size
    refine ⟨a, emitEvent "delete" a ns key "Key deleted"
      { r.refund a.currentIdentityDid value.size with
        data := (r.refund a.currentIdentityDid value.size).data.erase (ns, key)
        versions := (r.refund a.currentIdentityDid value.size).versions.erase (ns, key) },
      rfl, ?_, hpermitted, ?_, ?_, ?_, ?_, ?_⟩
    · unfold delete
      simp only [bind, EStateM.bind, hquery, StorageM.get_apply, hget, StorageM.modify_apply,
        ← hr]
    · rw [hget]
      exact Option.some_ne_none value
    · rw [emitEvent_data]
      show ((r.refund a.currentIdentityDid value.size).data.erase (ns, key)).get = _
      rw [refund_data, hr, recordForRollback_data, Table.get_erase]
    · rw [emitEvent_versions]
      show ((r.refund a.currentIdentityDid value.size).versions.erase (ns, key)).get = _
      rw [refund_versions, hr, recordForRollback_versions, Table.get_erase]
    · have hstored : s.storedBytes ns key = value.size := by
        unfold storedBytes
        rw [hget]
        rfl
      have hused : r.usedBytes = s.usedBytes := by
        unfold usedBytes
        rw [hr, recordForRollback_accounts]
      rw [hstored]
      rw [hused] at hcharged
      exact hcharged.congr (recordForRollback_accounts s ns key _).symm rfl
    · rw [emitEvent_transactionStack]
      show (r.refund a.currentIdentityDid value.size).transactionStack = _
      rw [refund_transactionStack, hr, hget]

/-! ## Accounts, namespaces and transactions -/

theorem createAccount_cases (auth : Option AuthContext) (userId : String) (quota : Nat)
    (s : InMemoryStorage) :
    (∃ e, createAccount auth userId quota s = .error (.error e) s) ∨
    ∃ s' account, createAccount auth userId quota s = .ok () s' ∧ userId ∉ s.accounts ∧
      s'.accounts = s.accounts.insert userId account ∧ account.storageUsedBytes = 0 ∧
      s'.data = s.data ∧ s'.versions = s.versions ∧
      s'.transactionStack = s.transactionStack := by
  unfold createAccount
  cases auth with
  | none => exact .inl ⟨_, rfl⟩
  | some a =>
    dsimp only
    split
    · exact .inl ⟨_, rfl⟩
    · split
      · exact .inl ⟨_, rfl⟩
      · next hmem =>
        exact .inr ⟨_, ResourceAccount.new (s.clock s.reads) userId quota, rfl, hmem, rfl, rfl,
          rfl, rfl, rfl⟩

/-- A new namespace is an empty row in both tables. -/
theorem createNamespace_cases (auth : Option AuthContext) (ns : String) (quota : Nat)
    (parent : Option String) (s : InMemoryStorage) :
    (final (createNamespace auth ns quota parent s) = s) ∨
    ∃ s', createNamespace auth ns quota parent s = .ok () s' ∧ ns ∉ s.data ∧
      s'.data = s.data.insert ns ∅ ∧ s'.versions = s.versions.insert ns ∅ ∧
      s'.accounts = s.accounts ∧ s'.transactionStack = s.transactionStack := by
  unfold createNamespace
  cases auth with
  | none => exact .inl rfl
  | some a =>
    dsimp only
    split
    · exact .inl rfl
    · split
      · exact .inl rfl
      · split
        · exact .inl rfl
        · next hmem => exact .inr ⟨_, rfl, hmem, rfl, rfl, rfl, rfl⟩

/-! ## Runs -/

/-- A call that may change the storage. -/
inductive Call where
  | createAccount (auth : Option AuthContext) (userId : String) (quotaBytes : Nat)
  | createNamespace (auth : Option AuthContext) (ns : String) (quotaBytes : Nat)
      (parent : Option String)
  | set (auth : Option AuthContext) (ns key : String) (value : ByteArray)
  | delete (auth : Option AuthContext) (ns key : String)
  | beginTransaction
  | commitTransaction
  | rollbackTransaction

namespace Call

def perform : Call → StorageM InMemoryStorage Unit
  | createAccount auth userId quota => InMemoryStorage.createAccount auth userId quota
  | createNamespace auth ns quota parent => InMemoryStorage.createNamespace auth ns quota parent
  | set auth ns key value => InMemoryStorage.set auth ns key value
  | delete auth ns key => InMemoryStorage.delete auth ns key
  | beginTransaction => InMemoryStorage.beginTransaction
  | commitTransaction => InMemoryStorage.commitTransaction
  | rollbackTransaction => InMemoryStorage.rollbackTransaction

/-- The storage after the call, whether it succeeded or not. -/
def after (c : Call) (s : InMemoryStorage) : InMemoryStorage := final (c.perform s)

theorem after_set (auth : Option AuthContext) (ns key : String) (value : ByteArray)
    (s : InMemoryStorage) :
    (Call.set auth ns key value).after s = final (InMemoryStorage.set auth ns key value s) := rfl

theorem after_delete (auth : Option AuthContext) (ns key : String) (s : InMemoryStorage) :
    (Call.delete auth ns key).after s = final (InMemoryStorage.delete auth ns key s) := rfl

end Call

/-- The storage after the calls, in this order. -/
def afterAll (calls : List Call) (s : InMemoryStorage) : InMemoryStorage :=
  calls.foldl (fun s c => c.after s) s

@[simp] theorem afterAll_nil (s : InMemoryStorage) : afterAll [] s = s := rfl

@[simp] theorem afterAll_cons (c : Call) (calls : List Call) (s : InMemoryStorage) :
    afterAll (c :: calls) s = afterAll calls (c.after s) := rfl

@[simp] theorem afterAll_append (calls calls' : List Call) (s : InMemoryStorage) :
    afterAll (calls ++ calls') s = afterAll calls' (afterAll calls s) :=
  List.foldl_append

/-- Every call of a run meets a condition in the state it is made in. -/
def Meets (C : Call → InMemoryStorage → Prop) : List Call → InMemoryStorage → Prop
  | [], _ => True
  | c :: calls, s => C c s ∧ Meets C calls (c.after s)

/-- What each call under the condition preserves holds after the run. -/
theorem Meets.invariant {C : Call → InMemoryStorage → Prop} {I : InMemoryStorage → Prop}
    (step : ∀ c s, C c s → I s → I (c.after s)) {calls : List Call} {s : InMemoryStorage}
    (h : Meets C calls s) (hs : I s) : I (afterAll calls s) := by
  induction calls generalizing s with
  | nil => exact hs
  | cons c calls ih => exact ih h.2 (step c s h.1 hs)

theorem Meets.and {P : Call → Prop} {C : Call → InMemoryStorage → Prop} {calls : List Call}
    {s : InMemoryStorage} (hP : ∀ c ∈ calls, P c) (h : Meets C calls s) :
    Meets (fun c s => P c ∧ C c s) calls s := by
  induction calls generalizing s with
  | nil => trivial
  | cons c calls ih =>
    exact ⟨⟨hP c List.mem_cons_self, h.1⟩, ih (fun d hd => hP d (List.mem_cons_of_mem c hd)) h.2⟩

/-- The undo log of the innermost open transaction. -/
def innermostLog (s : InMemoryStorage) : UndoLog (String × String) ByteArray :=
  s.transactionStack.headD []

/-- What a call can do to the storage. -/
inductive Effect (s : InMemoryStorage) : Call → InMemoryStorage → Prop where
  /-- The call failed, or there was nothing to do. -/
  | unchanged (c : Call) : Effect s c s
  /-- The call failed after it had recorded its key. -/
  | recorded (auth : Option AuthContext) (ns key : String) (value : ByteArray) :
    Effect s (.set auth ns key value) (s.recordForRollback ns key (s.data.get (ns, key)))
  | stored (auth : AuthContext) (ns key : String) (value : ByteArray) {s' : InMemoryStorage}
      (h : Stored auth ns key value s s') : Effect s (.set (some auth) ns key value) s'
  | deleted (auth : AuthContext) (ns key : String) {s' : InMemoryStorage}
      (h : Deleted auth ns key s s') : Effect s (.delete (some auth) ns key) s'
  | accountCreated (auth : Option AuthContext) (userId : String) (quota : Nat)
      (account : ResourceAccount) {s' : InMemoryStorage} (fresh : userId ∉ s.accounts)
      (accounts : s'.accounts = s.accounts.insert userId account)
      (unused : account.storageUsedBytes = 0) (data : s'.data = s.data)
      (versions : s'.versions = s.versions)
      (logs : s'.transactionStack = s.transactionStack) :
    Effect s (.createAccount auth userId quota) s'
  | namespaceCreated (auth : Option AuthContext) (ns : String) (quota : Nat)
      (parent : Option String) {s' : InMemoryStorage} (fresh : ns ∉ s.data)
      (data : s'.data = s.data.insert ns ∅) (versions : s'.versions = s.versions.insert ns ∅)
      (accounts : s'.accounts = s.accounts)
      (logs : s'.transactionStack = s.transactionStack) :
    Effect s (.createNamespace auth ns quota parent) s'
  | begun : Effect s .beginTransaction { s with transactionStack := [] :: s.transactionStack }
  | committed (log : UndoLog (String × String) ByteArray)
      (rest : List (UndoLog (String × String) ByteArray))
      (open_ : s.transactionStack = log :: rest) :
    Effect s .commitTransaction { s with transactionStack := rest }
  | rolledBack (log : UndoLog (String × String) ByteArray)
      (rest : List (UndoLog (String × String) ByteArray))
      (open_ : s.transactionStack = log :: rest) :
    Effect s .rollbackTransaction
      { s with data := s.data.replay log, transactionStack := rest }

theorem Call.effect (c : Call) (s : InMemoryStorage) : Effect s c (c.after s) := by
  cases c with
  | createAccount auth userId quota =>
    show Effect s _ (final (InMemoryStorage.createAccount auth userId quota s))
    obtain ⟨e, he⟩ | ⟨s', account, hok, hfresh, hacc, hused, hd, hv, hlogs⟩ :=
      createAccount_cases auth userId quota s
    · rw [he]
      exact .unchanged _
    · rw [hok]
      exact .accountCreated auth userId quota account hfresh hacc hused hd hv hlogs
  | createNamespace auth ns quota parent =>
    show Effect s _ (final (InMemoryStorage.createNamespace auth ns quota parent s))
    obtain he | ⟨s', hok, hfresh, hd, hv, hacc, hlogs⟩ :=
      createNamespace_cases auth ns quota parent s
    · rw [he]
      exact .unchanged _
    · rw [hok]
      exact .namespaceCreated auth ns quota parent hfresh hd hv hacc hlogs
  | set auth ns key value =>
    show Effect s _ (final (InMemoryStorage.set auth ns key value s))
    obtain ⟨e, -, he⟩ | ⟨e, -, he⟩ | ⟨a, s', rfl, hok, hs'⟩ := set_cases auth ns key value s
    · rw [he]
      exact .unchanged _
    · rw [he]
      exact .recorded auth ns key value
    · rw [hok]
      exact .stored a ns key value hs'
  | delete auth ns key =>
    show Effect s _ (final (InMemoryStorage.delete auth ns key s))
    obtain ⟨e, -, he⟩ | ⟨a, s', rfl, hok, hs'⟩ := delete_cases auth ns key s
    · rw [he]
      exact .unchanged _
    · rw [hok]
      exact .deleted a ns key hs'
  | beginTransaction => exact .begun
  | commitTransaction =>
    show Effect s _ (final (InMemoryStorage.commitTransaction s))
    unfold InMemoryStorage.commitTransaction
    cases hs : s.transactionStack with
    | nil => exact .unchanged _
    | cons log rest => exact .committed log rest hs
  | rollbackTransaction =>
    show Effect s _ (final (InMemoryStorage.rollbackTransaction s))
    unfold InMemoryStorage.rollbackTransaction
    cases hs : s.transactionStack with
    | nil => exact .unchanged _
    | cons log rest => exact .rolledBack log rest hs

/-! ### The storage of the source's tests -/

def admin : AuthContext := (AuthContext.new "admin").addRole "global" "admin"

theorem hasRole_admin : admin.hasRole "global" "admin" = true := by decide

theorem admin_permitted (action ns : String) : checkPermission (some admin) action ns = .ok () := by
  rw [checkPermission, if_pos hasRole_admin]

/-- An administrator with an account of 1000 bytes. -/
def adminStorage : InMemoryStorage :=
  Call.after (.createAccount (some admin) "admin" 1000) (new fun _ => 0)

end InMemoryStorage

end Covm
