import Covm.Storage.Calls

/-!
# Transactions of the in-memory backend

A `Script` is a well-nested run of writes and inner transactions, each of them closed by a commit or
by a rollback. What the rollback of a transaction leaves under a key is `held`: the value the key
had when the transaction itself first recorded it, or, if it never did, the one it has at the end.
An inner rollback gives back what the inner transaction recorded. An inner commit drops its undo
log, so its writes are permanent for the outer transaction as well.
-/

namespace Covm

open Maps Partial

namespace InMemoryStorage

/-- A call that writes one key. -/
inductive Write where
  | set (auth : Option AuthContext) (ns key : String) (value : ByteArray)
  | delete (auth : Option AuthContext) (ns key : String)

namespace Write

def call : Write → Call
  | set auth ns key value => .set auth ns key value
  | delete auth ns key => .delete auth ns key

/-- The key written, with its namespace. -/
def target : Write → String × String
  | set _ ns key _ => (ns, key)
  | delete _ ns key => (ns, key)

/-- Whether the call gets as far as recording its key: it is permitted, and there is something to
delete. -/
def records (s : InMemoryStorage) : Write → Bool
  | set auth ns _ _ => (checkPermission auth "write" ns).toBool
  | delete auth ns key => (checkPermission auth "write" ns).toBool && (s.data.get (ns, key)).isSome

end Write

/-- A well-nested run of writes and transactions. -/
inductive Script where
  | done
  | write (w : Write) (rest : Script)
  | transaction (inner : Script) (committed : Bool) (rest : Script)

namespace Script

/-- The calls of a transaction. -/
def transactionCalls (body : List Call) (committed : Bool) : List Call :=
  .beginTransaction :: body ++ [if committed then .commitTransaction else .rollbackTransaction]

def calls : Script → List Call
  | done => []
  | write w rest => w.call :: rest.calls
  | transaction inner committed rest => transactionCalls inner.calls committed ++ rest.calls

/-- All inner transactions are rolled back. -/
def NoCommit : Script → Prop
  | done => True
  | write _ rest => rest.NoCommit
  | transaction inner committed rest => committed = false ∧ inner.NoCommit ∧ rest.NoCommit

variable (p : String × String)

mutual

/-- Some write of `p` is not undone within the run. -/
def Writes : Script → Prop
  | done => False
  | write w rest => w.target = p ∨ rest.Writes
  | transaction inner true rest => inner.Writes ∨ rest.Writes
  | transaction inner false rest => inner.CommitsWrite ∨ rest.Writes

/-- Some write of `p` is in an inner transaction that is committed. -/
def CommitsWrite : Script → Prop
  | done => False
  | write _ rest => rest.CommitsWrite
  | transaction inner true rest => inner.Writes ∨ rest.CommitsWrite
  | transaction inner false rest => inner.CommitsWrite ∨ rest.CommitsWrite

end

/-- Some write of `p` is made by the run itself, outside its inner transactions. -/
def OwnWrites : Script → Prop
  | done => False
  | write w rest => w.target = p ∨ rest.OwnWrites
  | transaction _ _ rest => rest.OwnWrites

/-- From the state `s`, a committed inner transaction writes `p` before the run itself has recorded
it. -/
def CommitsFirst : Script → InMemoryStorage → Prop
  | done, _ => False
  | write w rest, s => ¬ (w.target = p ∧ w.records s) ∧ rest.CommitsFirst (w.call.after s)
  | transaction inner committed rest, s =>
    (if committed then inner.Writes p else inner.CommitsWrite p) ∨
      rest.CommitsFirst (afterAll (transactionCalls inner.calls committed) s)

/-- The value of `p` when the run first records it, or at its end. -/
def held : Script → InMemoryStorage → Option ByteArray
  | done, s => s.data.get p
  | write w rest, s =>
    if w.target = p ∧ w.records s then s.data.get p else rest.held (w.call.after s)
  | transaction inner committed rest, s =>
    rest.held (afterAll (transactionCalls inner.calls committed) s)

end Script

/-! ## One write -/

/-- A write records its key, or leaves the storage as it was. -/
theorem Write.after_cases (w : Write) (s : InMemoryStorage) :
    (w.records s ∧
      (w.call.after s).transactionStack =
        (s.recordForRollback w.target.1 w.target.2 (s.data.get w.target)).transactionStack ∧
      ∀ p, p ≠ w.target → (w.call.after s).data.get p = s.data.get p) ∨
    (w.records s = false ∧ w.call.after s = s) := by
  cases w with
  | set auth ns key value =>
    have hrecords : (Write.set auth ns key value).records s =
      (checkPermission auth "write" ns).toBool := rfl
    rw [hrecords]
    obtain ⟨e, hno, h⟩ | ⟨e, hyes, h⟩ | ⟨a, s', rfl, h, hs'⟩ := set_cases auth ns key value s
    · right
      rw [hno]
      exact ⟨rfl, congrArg final h⟩
    · left
      rw [hyes]
      have hafter : (Write.set auth ns key value).call.after s = _ := congrArg final h
      rw [hafter]
      refine ⟨rfl, rfl, ?_⟩
      intro p _
      rw [final_error, recordForRollback_data]
    · left
      rw [hs'.permitted]
      have hafter : (Write.set (some a) ns key value).call.after s = s' := congrArg final h
      rw [hafter]
      refine ⟨rfl, hs'.logs, ?_⟩
      intro p hp
      rw [hs'.data]
      exact Function.update_of_ne hp _ _
  | delete auth ns key =>
    have hrecords : (Write.delete auth ns key).records s =
      ((checkPermission auth "write" ns).toBool && (s.data.get (ns, key)).isSome) := rfl
    rw [hrecords]
    obtain ⟨e, hno, h⟩ | ⟨a, s', rfl, h, hs'⟩ := delete_cases auth ns key s
    · right
      refine ⟨?_, congrArg final h⟩
      cases hperm : checkPermission auth "write" ns with
      | error e => rfl
      | ok u => rw [hno hperm]; rfl
    · left
      have hafter : (Write.delete (some a) ns key).call.after s = s' := congrArg final h
      rw [hafter, hs'.permitted, Option.isSome_iff_ne_none.mpr hs'.present]
      refine ⟨rfl, hs'.logs, ?_⟩
      intro p hp
      rw [hs'.data]
      exact Function.update_of_ne hp _ _

/-- A key changes only under a write that records it. -/
theorem Write.get_after (w : Write) (s : InMemoryStorage) {p : String × String}
    (h : ¬ (w.target = p ∧ w.records s)) : (w.call.after s).data.get p = s.data.get p := by
  obtain ⟨hrec, -, hdata⟩ | ⟨-, hafter⟩ := w.after_cases s
  · exact hdata p fun hp => h ⟨hp.symm, hrec⟩
  · rw [hafter]

/-- In an open transaction, a write of `p` records it first and leaves the other keys alone. -/
theorem Write.after_open (w : Write) {s : InMemoryStorage}
    {log : UndoLog (String × String) ByteArray}
    {rest : List (UndoLog (String × String) ByteArray)} (hs : s.transactionStack = log :: rest)
    (p : String × String) :
    ∃ log', (w.call.after s).transactionStack = log' :: rest ∧
      if w.target = p ∧ w.records s then log' = log ++ [(p, s.data.get p)]
      else log'.recorded p = log.recorded p ∧ (w.call.after s).data.get p = s.data.get p := by
  obtain ⟨hrec, hstack, hdata⟩ | ⟨hrec, hafter⟩ := w.after_cases s
  · refine ⟨log ++ [(w.target, s.data.get w.target)], ?_, ?_⟩
    · rw [hstack]
      unfold recordForRollback
      rw [hs]
    · by_cases hp : w.target = p
      · rw [if_pos ⟨hp, hrec⟩, hp]
      · rw [if_neg fun h => hp h.1]
        exact ⟨UndoLog.recorded_append_of_ne log (Ne.symm hp) _, hdata p (Ne.symm hp)⟩
  · refine ⟨log, by rw [hafter, hs], ?_⟩
    rw [if_neg fun h => by rw [hrec] at h; exact absurd h.2 (by decide), hafter]
    exact ⟨rfl, rfl⟩

/-! ## Whole transactions -/

@[simp] theorem after_begin (s : InMemoryStorage) : Call.beginTransaction.after s =
    { s with transactionStack := [] :: s.transactionStack } := rfl

section close
variable {s : InMemoryStorage} {log : UndoLog (String × String) ByteArray}
  {rest : List (UndoLog (String × String) ByteArray)}

theorem after_commit (hs : s.transactionStack = log :: rest) :
    Call.commitTransaction.after s = { s with transactionStack := rest } := by
  show final (commitTransaction s) = _
  unfold commitTransaction
  rw [hs]
  rfl

theorem after_rollback (hs : s.transactionStack = log :: rest) :
    Call.rollbackTransaction.after s =
      { s with data := s.data.replay log, transactionStack := rest } := by
  show final (rollbackTransaction s) = _
  unfold rollbackTransaction
  rw [hs]
  rfl

end close

namespace Script

theorem afterAll_transaction (body : List Call) (committed : Bool) (s : InMemoryStorage) :
    afterAll (transactionCalls body committed) s =
      (if committed then Call.commitTransaction else Call.rollbackTransaction).after
        (afterAll body (Call.beginTransaction.after s)) := by
  rw [transactionCalls, List.cons_append, afterAll_cons, afterAll_append, afterAll_cons,
    afterAll_nil]

/-- What the log of an open transaction undoes to at the end of a script. -/
theorem undo_afterAll (body : Script) {s : InMemoryStorage}
    {log : UndoLog (String × String) ByteArray}
    {rest : List (UndoLog (String × String) ByteArray)}
    (hs : s.transactionStack = log :: rest) :
    ∃ log', (afterAll body.calls s).transactionStack = log' :: rest ∧
      ∀ p, log'.undo (afterAll body.calls s).data.get p = (log.recorded p).getD (body.held p s) := by
  induction body generalizing s log rest with
  | done => exact ⟨log, hs, fun p => UndoLog.undo_apply log s.data.get p⟩
  | write w body ih =>
    obtain ⟨log₁, hs₁, -⟩ := w.after_open hs w.target
    obtain ⟨log', hs', hundo⟩ := ih hs₁
    refine ⟨log', hs', ?_⟩
    intro p
    obtain ⟨log₂, hs₂, hwrite⟩ := w.after_open hs p
    obtain rfl : log₂ = log₁ := (List.cons.inj (hs₂.symm.trans hs₁)).1
    have hp : log'.undo (afterAll body.calls (w.call.after s)).data.get p = _ := hundo p
    rw [calls, afterAll_cons, hp, held]
    by_cases hrec : w.target = p ∧ w.records s
    · rw [if_pos hrec] at hwrite ⊢
      rw [hwrite, UndoLog.recorded_append_self]
      rfl
    · rw [if_neg hrec] at hwrite ⊢
      rw [hwrite.1]
  | transaction inner committed body ihInner ih =>
    rw [calls, afterAll_append]
    refine ih ?_
    -- the inner log is on top when the inner transaction is closed
    have hbegin : (Call.beginTransaction.after s).transactionStack = [] :: log :: rest := by
      rw [after_begin, hs]
    obtain ⟨inLog, hin, -⟩ := ihInner hbegin
    rw [afterAll_transaction]
    cases committed with
    | true => rw [if_pos rfl, after_commit hin]
    | false => rw [if_neg Bool.false_ne_true, after_rollback hin]

/-- At the end of an inner transaction the open ones are as they were. -/
theorem transaction_stack (inner : Script) (committed : Bool) (s : InMemoryStorage) :
    (afterAll (transactionCalls inner.calls committed) s).transactionStack =
      s.transactionStack := by
  obtain ⟨log, hlog, -⟩ := inner.undo_afterAll (congrArg transactionStack (after_begin s))
  rw [afterAll_transaction]
  cases committed with
  | true => rw [if_pos rfl, after_commit hlog]
  | false => rw [if_neg Bool.false_ne_true, after_rollback hlog]

theorem get_commit (inner : Script) (s : InMemoryStorage) (p : String × String) :
    (afterAll (transactionCalls inner.calls true) s).data.get p =
      (afterAll inner.calls (Call.beginTransaction.after s)).data.get p := by
  obtain ⟨log, hlog, -⟩ := inner.undo_afterAll (congrArg transactionStack (after_begin s))
  rw [afterAll_transaction, if_pos rfl, after_commit hlog]

/-- A rollback leaves under each key the value it had when the transaction first recorded it. -/
theorem get_rollback (inner : Script) (s : InMemoryStorage) (p : String × String) :
    (afterAll (transactionCalls inner.calls false) s).data.get p =
      inner.held p (Call.beginTransaction.after s) := by
  obtain ⟨log, hlog, hundo⟩ := inner.undo_afterAll (congrArg transactionStack (after_begin s))
  rw [afterAll_transaction, if_neg Bool.false_ne_true, after_rollback hlog]
  show (Table.replay _ log).get p = _
  rw [Table.get_replay, hundo p]
  rfl

/-! ## What is restored -/

/-- Without a committed write of `p` the key is first recorded with its value at the start, and
without any write of it that value stays. -/
theorem held_and_get (p : String × String) (body : Script) (s : InMemoryStorage) :
    (¬ body.CommitsWrite p → body.held p s = s.data.get p) ∧
    (¬ body.Writes p → (afterAll body.calls s).data.get p = s.data.get p) := by
  induction body generalizing s with
  | done => exact ⟨fun _ => rfl, fun _ => rfl⟩
  | write w body ih =>
    refine ⟨?_, ?_⟩
    · intro h
      rw [CommitsWrite] at h
      rw [held]
      by_cases hrec : w.target = p ∧ w.records s
      · rw [if_pos hrec]
      · rw [if_neg hrec, (ih _).1 h, w.get_after s hrec]
    · intro h
      rw [Writes, not_or] at h
      rw [calls, afterAll_cons, (ih _).2 h.2, w.get_after s fun hrec => h.1 hrec.1]
  | transaction inner committed body ihInner ih =>
    -- what the inner transaction leaves under `p`
    have hinner : ¬ (if committed then inner.Writes p else inner.CommitsWrite p) →
        (afterAll (transactionCalls inner.calls committed) s).data.get p = s.data.get p := by
      intro h
      cases committed with
      | true => rw [get_commit, (ihInner _).2 h, after_begin]
      | false => rw [get_rollback, (ihInner _).1 h, after_begin]
    refine ⟨?_, ?_⟩
    · intro h
      have h' : ¬ (if committed then inner.Writes p else inner.CommitsWrite p) ∧
          ¬ body.CommitsWrite p := by
        cases committed <;> rwa [CommitsWrite, not_or] at h
      rw [held, (ih _).1 h'.2, hinner h'.1]
    · intro h
      have h' : ¬ (if committed then inner.Writes p else inner.CommitsWrite p) ∧
          ¬ body.Writes p := by
        cases committed <;> rwa [Writes, not_or] at h
      rw [calls, afterAll_append, (ih _).2 h'.2, hinner h'.1]

theorem held_of_not_commitsFirst {p : String × String} {body : Script} {s : InMemoryStorage}
    (h : ¬ body.CommitsFirst p s) : body.held p s = s.data.get p := by
  induction body generalizing s with
  | done => rfl
  | write w body ih =>
    rw [held]
    by_cases hrec : w.target = p ∧ w.records s
    · rw [if_pos hrec]
    · rw [if_neg hrec, ih fun hbody => h ⟨hrec, hbody⟩, w.get_after s hrec]
  | transaction inner committed body ihInner ih =>
    rw [CommitsFirst, not_or] at h
    rw [held, ih h.2]
    cases committed with
    | true => rw [get_commit, (held_and_get p inner _).2 h.1, after_begin]
    | false => rw [get_rollback, (held_and_get p inner _).1 h.1, after_begin]

theorem not_commitsWrite_of_noCommit {body : Script} (h : body.NoCommit) (p : String × String) :
    ¬ body.CommitsWrite p := by
  induction body with
  | done => exact not_false
  | write w body ih => exact ih h
  | transaction inner committed body ihInner ih =>
    obtain ⟨rfl, hinner, hbody⟩ := h
    rintro (hw | hw)
    · exact ihInner hinner hw
    · exact ih hbody hw

/-- A key the transaction does not write itself is left alone by its rollback. -/
theorem held_of_not_ownWrites {p : String × String} {body : Script} (h : ¬ body.OwnWrites p)
    (s : InMemoryStorage) : body.held p s = (afterAll body.calls s).data.get p := by
  induction body generalizing s with
  | done => rfl
  | write w body ih =>
    rw [OwnWrites, not_or] at h
    rw [held, if_neg fun hrec => h.1 hrec.1, ih h.2]
    rfl
  | transaction inner committed body ihInner ih =>
    rw [held, ih h, calls, afterAll_append]

end Script

/-- What a caller can read depends on the value only. -/
theorem get_congr {s s' : InMemoryStorage} {ns key : String}
    (h : s'.data.get (ns, key) = s.data.get (ns, key)) (auth : Option AuthContext) :
    s'.get auth ns key = s.get auth ns key := by
  unfold get
  rw [h]

/-- A rolled back transaction without commits restores what every caller can read. -/
theorem get_after_rollback (s : InMemoryStorage) (body : Script) (h : body.NoCommit)
    (auth : Option AuthContext) (ns key : String) :
    (afterAll (.beginTransaction :: body.calls ++ [.rollbackTransaction]) s).get auth ns key =
      s.get auth ns key := by
  apply get_congr
  have hheld := (Script.held_and_get (ns, key) body (Call.beginTransaction.after s)).1
    (Script.not_commitsWrite_of_noCommit h (ns, key))
  exact (body.get_rollback s (ns, key)).trans hheld

/-- A key is set and then deleted in an inner transaction. -/
def setAndDelete : Script :=
  .write (.set (some admin) "ns" "k" "v".toUTF8)
    (.transaction (.write (.delete (some admin) "ns" "k") .done) false .done)

theorem get_after_rollback_setAndDelete :
    (afterAll (.beginTransaction :: setAndDelete.calls ++ [.rollbackTransaction])
      adminStorage).get (some admin) "ns" "k" = adminStorage.get (some admin) "ns" "k" :=
  get_after_rollback adminStorage setAndDelete ⟨rfl, trivial, trivial⟩ (some admin) "ns" "k"

/-- An outer rollback restores every key that no committed inner transaction wrote before the outer
one recorded it. A key the outer transaction never writes itself keeps the committed value. -/
theorem get_after_outer_rollback (s : InMemoryStorage) (body : Script) (auth : Option AuthContext)
    (ns key : String) :
    (¬ body.CommitsFirst (ns, key) (Call.beginTransaction.after s) →
      (afterAll (.beginTransaction :: body.calls ++ [.rollbackTransaction]) s).get auth ns key =
        s.get auth ns key) ∧
    (¬ body.OwnWrites (ns, key) →
      (afterAll (.beginTransaction :: body.calls ++ [.rollbackTransaction]) s).get auth ns key =
        (afterAll (.beginTransaction :: body.calls) s).get auth ns key) := by
  refine ⟨fun h => get_congr ?_ auth, fun h => get_congr ?_ auth⟩
  · exact (body.get_rollback s (ns, key)).trans (Script.held_of_not_commitsFirst h)
  · exact (body.get_rollback s (ns, key)).trans (Script.held_of_not_ownWrites h _)

/-- A key is set in an inner transaction. -/
def setInside : Script :=
  .transaction (.write (.set (some admin) "ns" "k" "v".toUTF8) .done) true .done

theorem get_after_outer_rollback_inside :
    (afterAll (.beginTransaction :: setInside.calls ++ [.rollbackTransaction]) adminStorage).get
        (some admin) "ns" "other" = adminStorage.get (some admin) "ns" "other" ∧
    (afterAll (.beginTransaction :: setInside.calls ++ [.rollbackTransaction]) adminStorage).get
        (some admin) "ns" "k" =
      (afterAll (.beginTransaction :: setInside.calls) adminStorage).get (some admin) "ns" "k" := by
  refine ⟨(get_after_outer_rollback adminStorage setInside (some admin) "ns" "other").1 ?_,
    (get_after_outer_rollback adminStorage setInside (some admin) "ns" "k").2 not_false⟩
  simp [setInside, Script.CommitsFirst, Script.Writes, Write.target]

/-- The committed value survives the rollback of the outer transaction. -/
theorem not_get_after_outer_rollback :
    ¬ ∀ (s : InMemoryStorage) (body : Script) (auth : Option AuthContext) (ns key : String),
      (afterAll (.beginTransaction :: body.calls ++ [.rollbackTransaction]) s).get auth ns key =
        s.get auth ns key := by
  intro h
  have hget := congrArg Except.toBool (h adminStorage setInside (some admin) "ns" "k")
  exact absurd hget (by decide)

end InMemoryStorage

end Covm
