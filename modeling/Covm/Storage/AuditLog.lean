import Covm.Storage.Calls
import Mathlib.Data.List.DropRight

/-!
# The audit log of the in-memory backend

The log only grows: a call leaves one event if it is a `set`, a `delete` or a `create_account` that
succeeds or makes a new namespace, and otherwise leaves the log as it is. A rollback takes no event
back. An administrator is shown the newest of the events that are asked for.
-/

namespace Covm

open Maps Partial

namespace InMemoryStorage

/-- What an event says of the call that left it. -/
structure Tells (type : String) (auth : Option AuthContext) (ns key : String)
    (event : StorageEvent) : Prop where
  type : event.eventType = type
  user : auth.map (·.currentIdentityDid) = some event.userId
  ns : event.ns = ns
  key : event.key = key

/-- The calls that leave an event. -/
def Call.Leaves (s : InMemoryStorage) : Call → Prop
  | c@(.createAccount ..) => succeeded (c.perform s) = true
  | c@(.createNamespace _ ns _ _) => succeeded (c.perform s) = true ∧ ns ∉ s.data
  | c@(.set ..) => succeeded (c.perform s) = true
  | c@(.delete ..) => succeeded (c.perform s) = true
  | .beginTransaction => False
  | .commitTransaction => False
  | .rollbackTransaction => False

/-- The events a call may leave. -/
def Call.Tells : Call → StorageEvent → Prop
  | .createAccount auth userId _ => InMemoryStorage.Tells "account_created" auth "global" userId
  | .createNamespace auth ns _ _ => InMemoryStorage.Tells "namespace_created" auth "global" ns
  | .set auth ns key _ => InMemoryStorage.Tells "write" auth ns key
  | .delete auth ns key => InMemoryStorage.Tells "delete" auth ns key
  | _ => fun _ => False

/-! ## The parts of a call -/

section parts
variable (s : InMemoryStorage)

@[simp] theorem recordForRollback_auditLog (ns key : String) (old : Option ByteArray) :
    (s.recordForRollback ns key old).auditLog = s.auditLog := by
  unfold recordForRollback
  split <;> rfl

@[simp] theorem refund_auditLog (user : String) (bytes : Nat) :
    (s.refund user bytes).auditLog = s.auditLog := by
  unfold refund
  split <;> rfl

theorem chargeDifference_auditLog (user internalKey : String) (existing size : Nat) :
    (final (chargeDifference user internalKey existing size s)).auditLog = s.auditLog := by
  unfold chargeDifference
  split
  · split
    · rfl
    · split <;> rfl
  · split
    · exact refund_auditLog s _ _
    · rfl

/-- The last thing a call that leaves an event does. -/
theorem emitEvent_tells (type : String) (auth : AuthContext) (ns key details : String) :
    ∃ e, (s.emitEvent type auth ns key details).auditLog = s.auditLog ++ [e] ∧
      Tells type (some auth) ns key e :=
  ⟨_, rfl, rfl, rfl, rfl, rfl⟩

end parts

/-- One call and the log. -/
structure Logs (c : Call) (s s' : InMemoryStorage) : Prop where
  left : c.Leaves s → ∃ e, s'.auditLog = s.auditLog ++ [e] ∧ c.Tells e
  kept : ¬ c.Leaves s → s'.auditLog = s.auditLog

theorem logs_of_ok {c : Call} {s s' : InMemoryStorage} {e : StorageEvent}
    (h : c.perform s = .ok () s') (hleaves : c.Leaves s) (he : s'.auditLog = s.auditLog ++ [e])
    (htells : c.Tells e) : Logs c s (c.after s) := by
  unfold Call.after
  rw [h]
  exact ⟨fun _ => ⟨e, he, htells⟩, fun hno => absurd hleaves hno⟩

theorem logs_of_kept {c : Call} {s : InMemoryStorage} (hleaves : ¬ c.Leaves s)
    (h : (c.after s).auditLog = s.auditLog) : Logs c s (c.after s) :=
  ⟨fun hyes => absurd hyes hleaves, fun _ => h⟩

theorem logs_of_error {c : Call} {s s' : InMemoryStorage} {e : StorageFault}
    (h : c.perform s = .error e s') (hleaves : c.Leaves s → succeeded (c.perform s) = true)
    (hlog : s'.auditLog = s.auditLog) : Logs c s (c.after s) := by
  refine logs_of_kept (fun hyes => ?_) ?_
  · have hfails := hleaves hyes
    rw [h] at hfails
    cases hfails
  · rw [Call.after, h]
    exact hlog

theorem set_logs (auth : Option AuthContext) (ns key : String) (value : ByteArray)
    (s : InMemoryStorage) :
    Logs (.set auth ns key value) s (Call.after (.set auth ns key value) s) := by
  obtain ⟨e, -, hdenied⟩ | ⟨a, rfl, -, hquery⟩ := query_permission auth "write" ns s
  · have hset : set auth ns key value s = .error (.error e) s := by
      unfold set
      simp only [bind, EStateM.bind, hdenied]
    exact logs_of_error hset id rfl
  set r := s.recordForRollback ns key (s.data.get (ns, key)) with hr
  have hlog := chargeDifference_auditLog r a.currentIdentityDid (makeInternalKey ns key)
    ((s.data.get (ns, key)).elim 0 ByteArray.size) value.size
  rw [hr, recordForRollback_auditLog, ← hr] at hlog
  have hset : set (some a) ns key value s =
      match chargeDifference a.currentIdentityDid (makeInternalKey ns key)
        ((s.data.get (ns, key)).elim 0 ByteArray.size) value.size r with
      | .ok _ s₁ => .ok () (emitEvent "write" a ns key s!"Value updated ({value.size} bytes)"
          (writeVersion a.currentIdentityDid ns key (writeData ns key value s₁)))
      | .error e s₁ => .error e s₁ := by
    unfold set
    simp only [bind, EStateM.bind, hquery, StorageM.get_apply, StorageM.modify_apply, ← hr]
    cases chargeDifference a.currentIdentityDid (makeInternalKey ns key)
      ((s.data.get (ns, key)).elim 0 ByteArray.size) value.size r <;> rfl
  cases hcharge : chargeDifference a.currentIdentityDid (makeInternalKey ns key)
      ((s.data.get (ns, key)).elim 0 ByteArray.size) value.size r with
  | ok u s₁ =>
    rw [hcharge] at hlog hset
    obtain ⟨e, he, htells⟩ := emitEvent_tells
      (writeVersion a.currentIdentityDid ns key (writeData ns key value s₁)) "write" a ns key
      s!"Value updated ({value.size} bytes)"
    refine logs_of_ok hset ?_ (he.trans (congrArg (· ++ [e]) hlog)) htells
    show succeeded (set (some a) ns key value s) = true
    rw [hset, succeeded_ok]
  | error e s₁ =>
    rw [hcharge] at hlog hset
    exact logs_of_error hset id hlog

theorem delete_logs (auth : Option AuthContext) (ns key : String) (s : InMemoryStorage) :
    Logs (.delete auth ns key) s (Call.after (.delete auth ns key) s) := by
  obtain ⟨e, -, he⟩ | ⟨a, s', rfl, hok, -⟩ := delete_cases auth ns key s
  · exact logs_of_error he id rfl
  obtain ⟨e, -, hdenied⟩ | ⟨_, ha, -, hquery⟩ := query_permission (some a) "write" ns s
  · have herror : delete (some a) ns key s = .error (.error e) s := by
      unfold delete
      simp only [bind, EStateM.bind, hdenied]
    exact logs_of_error herror id rfl
  cases hget : s.data.get (ns, key) with
  | none =>
    have herror : delete (some a) ns key s =
        .error (.error (.notFound (makeInternalKey ns key))) s := by
      unfold delete
      simp only [bind, EStateM.bind, hquery, StorageM.get_apply, hget]
      rfl
    exact logs_of_error herror id rfl
  | some value =>
    set r := s.recordForRollback ns key (some value) with hr
    have hdelete : delete (some a) ns key s = .ok () (emitEvent "delete" a ns key "Key deleted"
        { r.refund a.currentIdentityDid value.size with
          data := (r.refund a.currentIdentityDid value.size).data.erase (ns, key)
          versions := (r.refund a.currentIdentityDid value.size).versions.erase (ns, key) }) := by
      unfold delete
      simp only [bind, EStateM.bind, hquery, StorageM.get_apply, hget, StorageM.modify_apply,
        ← hr]
    have hlog : (r.refund a.currentIdentityDid value.size).auditLog = s.auditLog := by
      rw [refund_auditLog, hr, recordForRollback_auditLog]
    obtain ⟨e, he, htells⟩ := emitEvent_tells
      { r.refund a.currentIdentityDid value.size with
        data := (r.refund a.currentIdentityDid value.size).data.erase (ns, key)
        versions := (r.refund a.currentIdentityDid value.size).versions.erase (ns, key) }
      "delete" a ns key "Key deleted"
    refine logs_of_ok hdelete ?_ (he.trans (congrArg (· ++ [e]) hlog)) htells
    show succeeded (delete (some a) ns key s) = true
    rw [hdelete, succeeded_ok]

theorem createAccount_logs (auth : Option AuthContext) (userId : String) (quota : Nat)
    (s : InMemoryStorage) :
    Logs (.createAccount auth userId quota) s
      (Call.after (.createAccount auth userId quota) s) := by
  cases auth with
  | none => exact logs_of_error (e := _) rfl id rfl
  | some a =>
    by_cases hadmin : a.hasRole "global" "admin" = true
    · by_cases hmem : userId ∈ s.accounts
      · have herror : createAccount (some a) userId quota s = .error (.error
            (.transactionError s!"Account already exists for user {userId}")) s := by
          simp [createAccount, hadmin, hmem]
        exact logs_of_error herror id rfl
      · obtain ⟨e, he, htells⟩ := emitEvent_tells
          { s with
            accounts := s.accounts.insert userId
              (ResourceAccount.new (s.clock s.reads) userId quota)
            reads := s.reads + 1 }
          "account_created" a "global" userId s!"Account created with quota {quota} bytes"
        have hok : ∃ s', createAccount (some a) userId quota s = .ok () s' ∧
            s'.auditLog = s.auditLog ++ [e] := by
          refine ⟨_, ?_, he⟩
          simp [createAccount, hadmin, hmem]
        obtain ⟨s', hok, hlog⟩ := hok
        refine logs_of_ok hok ?_ hlog htells
        show succeeded (createAccount (some a) userId quota s) = true
        rw [hok, succeeded_ok]
    · have herror : createAccount (some a) userId quota s = .error (.error
          (.permissionDenied a.currentIdentityDid "create_account" userId)) s := by
        simp [createAccount, hadmin]
      exact logs_of_error herror id rfl

theorem createNamespace_logs (auth : Option AuthContext) (ns : String) (quota : Nat)
    (parent : Option String) (s : InMemoryStorage) :
    Logs (.createNamespace auth ns quota parent) s
      (Call.after (.createNamespace auth ns quota parent) s) := by
  have hsucceeds : Call.Leaves s (.createNamespace auth ns quota parent) →
      succeeded (createNamespace auth ns quota parent s) = true := And.left
  cases auth with
  | none => exact logs_of_error (e := _) rfl hsucceeds rfl
  | some a =>
    by_cases hadmin : a.hasRole "global" "admin" = true
    · cases hparent : parent.filter (· ∉ s.data) with
      | some missing =>
        have herror : createNamespace (some a) ns quota parent s =
            .error (.error (.notFound missing)) s := by
          simp only [createNamespace, hadmin, hparent, Bool.not_true, Bool.false_eq_true, if_false]
        exact logs_of_error herror hsucceeds rfl
      | none =>
        by_cases hmem : ns ∈ s.data
        · have hsame : createNamespace (some a) ns quota parent s = .ok () s := by
            simp only [createNamespace, hadmin, hparent, hmem, Bool.not_true, Bool.false_eq_true,
              if_false, if_true]
          refine logs_of_kept (fun hleaves => hleaves.2 hmem) ?_
          show (final (createNamespace (some a) ns quota parent s)).auditLog = s.auditLog
          rw [hsame, final_ok]
        · obtain ⟨e, he, htells⟩ := emitEvent_tells
            { s with data := s.data.insert ns ∅, versions := s.versions.insert ns ∅ }
            "namespace_created" a "global" ns s!"Namespace created with quota {quota} bytes"
          have hok : ∃ s', createNamespace (some a) ns quota parent s = .ok () s' ∧
              s'.auditLog = s.auditLog ++ [e] := by
            refine ⟨_, ?_, he⟩
            simp only [createNamespace, hadmin, hparent, hmem, Bool.not_true, Bool.false_eq_true,
              if_false]
          obtain ⟨s', hok, hlog⟩ := hok
          refine logs_of_ok hok ⟨?_, hmem⟩ hlog htells
          show succeeded (createNamespace (some a) ns quota parent s) = true
          rw [hok, succeeded_ok]
    · have herror : createNamespace (some a) ns quota parent s = .error (.error
          (.permissionDenied a.currentIdentityDid "create_namespace" ns)) s := by
        simp [createNamespace, hadmin]
      exact logs_of_error herror hsucceeds rfl

theorem Call.logs (c : Call) (s : InMemoryStorage) : Logs c s (c.after s) := by
  cases c with
  | createAccount auth userId quota => exact createAccount_logs auth userId quota s
  | createNamespace auth ns quota parent => exact createNamespace_logs auth ns quota parent s
  | set auth ns key value => exact set_logs auth ns key value s
  | delete auth ns key => exact delete_logs auth ns key s
  | beginTransaction => exact logs_of_kept id rfl
  | commitTransaction =>
    refine logs_of_kept id ?_
    show (final (InMemoryStorage.commitTransaction s)).auditLog = s.auditLog
    unfold InMemoryStorage.commitTransaction
    split <;> rfl
  | rollbackTransaction =>
    refine logs_of_kept id ?_
    show (final (InMemoryStorage.rollbackTransaction s)).auditLog = s.auditLog
    unfold InMemoryStorage.rollbackTransaction
    split <;> rfl

/-! ## Runs -/

theorem Logs.appends_iff {c : Call} {s s' : InMemoryStorage} (h : Logs c s s') :
    (∃ e, s'.auditLog = s.auditLog ++ [e]) ↔ c.Leaves s := by
  constructor
  · rintro ⟨e, he⟩
    by_contra hno
    rw [h.kept hno] at he
    have hlength := congrArg List.length he
    simp at hlength
  · intro hyes
    obtain ⟨e, he, -⟩ := h.left hyes
    exact ⟨e, he⟩

theorem auditLog_isPrefix (calls : List Call) (s : InMemoryStorage) :
    s.auditLog <+: (afterAll calls s).auditLog := by
  induction calls generalizing s with
  | nil => exact List.prefix_refl _
  | cons c calls ih =>
    refine List.IsPrefix.trans ?_ (ih (c.after s))
    by_cases hleaves : c.Leaves s
    · obtain ⟨e, he, -⟩ := (c.logs s).left hleaves
      rw [he]
      exact List.prefix_append _ _
    · rw [(c.logs s).kept hleaves]

/-- The events that are asked for, the oldest first. -/
def matching (s : InMemoryStorage) (ns eventType : Option String) : List StorageEvent :=
  s.auditLog.filter fun event => ns.all (event.ns == ·) && eventType.all (event.eventType == ·)

theorem getAuditLog_of_admin (s : InMemoryStorage) {admin : AuthContext}
    (hadmin : admin.hasRole "global" "admin" = true) (ns eventType : Option String)
    (limit : Nat) : s.getAuditLog (some admin) ns eventType limit =
      .ok ((s.matching ns eventType).rtake (min limit (s.matching ns eventType).length)).reverse := by
  have htake : ((s.matching ns eventType).reverse).take limit =
      ((s.matching ns eventType).reverse).take (min limit (s.matching ns eventType).length) := by
    rw [← List.length_reverse, ← List.take_take, List.take_length]
  rw [List.rtake_eq_reverse_take_reverse, List.reverse_reverse, ← htake]
  simp [getAuditLog, hadmin, matching]

/-- Over any run the log only grows, by one event for each call that leaves one, and an
administrator is shown the last events that are asked for, the newest first. -/
theorem auditLog_of_run (clock : Nat → Nat) (calls : List Call) (c : Call) :
    ((c.after (afterAll calls (new clock))).auditLog = (afterAll calls (new clock)).auditLog ∨
      ∃ e, (c.after (afterAll calls (new clock))).auditLog =
        (afterAll calls (new clock)).auditLog ++ [e] ∧ c.Tells e) ∧
    ((∃ e, (c.after (afterAll calls (new clock))).auditLog =
        (afterAll calls (new clock)).auditLog ++ [e]) ↔ c.Leaves (afterAll calls (new clock))) ∧
    (∀ earlier, earlier <+: calls →
      (afterAll earlier (new clock)).auditLog <+: (afterAll calls (new clock)).auditLog) ∧
    ∀ (admin : AuthContext), admin.hasRole "global" "admin" = true → ∀ ns eventType limit,
      (afterAll calls (new clock)).getAuditLog (some admin) ns eventType limit =
        .ok (((afterAll calls (new clock)).matching ns eventType).rtake
          (min limit ((afterAll calls (new clock)).matching ns eventType).length)).reverse := by
  have hlogs := c.logs (afterAll calls (new clock))
  refine ⟨?_, hlogs.appends_iff, ?_, ?_⟩
  · by_cases hleaves : c.Leaves (afterAll calls (new clock))
    · exact .inr (hlogs.left hleaves)
    · exact .inl (hlogs.kept hleaves)
  · rintro earlier ⟨later, rfl⟩
    rw [afterAll_append]
    exact auditLog_isPrefix later _
  · intro admin hadmin ns eventType limit
    exact getAuditLog_of_admin _ hadmin ns eventType limit

/-- The account of the administrator is the only event so far. -/
theorem auditLog_of_run_admin :
    (afterAll [.createAccount (some admin) "admin" 1000] (new fun _ => 0)).getAuditLog (some admin)
        none none 10 =
      .ok (((afterAll [.createAccount (some admin) "admin" 1000] (new fun _ => 0)).matching none
        none).rtake (min 10 ((afterAll [.createAccount (some admin) "admin" 1000]
          (new fun _ => 0)).matching none none).length)).reverse :=
  (auditLog_of_run (fun _ => 0) [.createAccount (some admin) "admin" 1000]
    .beginTransaction).2.2.2 admin (by decide) none none 10

end InMemoryStorage

end Covm
