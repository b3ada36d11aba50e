import Covm.Number.Order
import Covm.Vm.Panicking
import Covm.Vm.RoundTrip

/-!
# When a reputation changes, and when that is announced

`execute_increment_reputation` announces the increment before it touches the storage. If the storage
then refuses to read or to write, the announcement stays in the list of events. An amount that is
not a number counts as zero, and one of 2 to the 64th as one less. Besides, it depends on the
backend whether what is written changes other reputations, too (`Settles`).
-/

namespace Covm

open Partial

/-- What is kept under a key is what was last written there. -/
class StorageBackend.Keyed (S : Type) [StorageBackend S] : Prop extends ReadsBack S where
  contains_set : ∀ {auth : Option AuthContext} {ns key : String} {bytes : ByteArray} {b b' : S},
    StorageBackend.set auth ns key bytes b = .ok () b' →
      StorageBackend.contains b' auth ns key = .ok true
  others : ∀ {auth auth' : Option AuthContext} {ns ns' key key' : String} {bytes : ByteArray}
    {b b' : S}, StorageBackend.set auth ns key bytes b = .ok () b' → (ns', key') ≠ (ns, key) →
      StorageBackend.contains b' auth' ns' key' = StorageBackend.contains b auth' ns' key' ∧
        StorageBackend.get b' auth' ns' key' = StorageBackend.get b auth' ns' key'

instance InMemoryStorage.keyed : StorageBackend.Keyed InMemoryStorage where
  contains_set := by
    intro auth ns key bytes s s' h
    obtain ⟨e, -, herr⟩ | ⟨e, -, herr⟩ | ⟨a, s₁, rfl, hok, hstored⟩ := set_cases auth ns key bytes s
    · cases h.symm.trans herr
    · cases h.symm.trans herr
    · cases h.symm.trans hok
      show InMemoryStorage.contains s' (some a) ns key = .ok true
      rw [InMemoryStorage.contains, hstored.data, Function.update_self]
      rfl
  others := by
    intro auth auth' ns ns' key key' bytes s s' h hne
    obtain ⟨e, -, herr⟩ | ⟨e, -, herr⟩ | ⟨a, s₁, rfl, hok, hstored⟩ := set_cases auth ns key bytes s
    · cases h.symm.trans herr
    · cases h.symm.trans herr
    · cases h.symm.trans hok
      have hsame : s'.data.get (ns', key') = s.data.get (ns', key') := by
        rw [hstored.data, Function.update_of_ne hne]
      constructor
      · show InMemoryStorage.contains s' auth' ns' key' = InMemoryStorage.contains s auth' ns' key'
        rw [InMemoryStorage.contains, InMemoryStorage.contains, hsame]
      · show InMemoryStorage.get s' auth' ns' key' = InMemoryStorage.get s auth' ns' key'
        rw [InMemoryStorage.get, InMemoryStorage.get, hsame]

/-! ### Amounts -/

namespace VMExecution

/-- The whole number of an amount: what it is rounded to, `1` if none is given. -/
def wholeAmount : Option Binary64 → Option Int
  | none => some 1
  | some x => x.nearestInteger

/-- The amount is a number, and its whole number is not just beyond a `u64`. -/
def ExactAmount (amount : Option Binary64) : Prop :=
  ∀ x, amount = some x → x ≠ .nan ∧ x.nearestInteger ≠ some (2 ^ 64)

end VMExecution

/-! ### Reading a reputation -/

namespace EconomicOperations

section
variable {S : Type} [RecordingBackend S] {b b' : S} {auth : Option AuthContext}

/-- What `get_reputation` answers, if it succeeds. -/
def reportedReputation (b : S) (auth : Option AuthContext) (ns identityId : String) : Option Nat :=
  match getReputation auth ns identityId b with
  | .ok (reputation, _) _ => some reputation
  | .error _ _ => none

end

section
variable {S : Type} [StorageBackend S]

/-- The number kept under a key. -/
def readNumber (b : S) (auth : Option AuthContext) (ns key : String) : Except StorageError Nat := do
  if ← StorageBackend.contains b auth ns key then
    let bytes ← StorageBackend.get b auth ns key
    match String.fromUTF8? bytes with
    | some s => return (parseU64 s).getD 0
    | none => return 0
  else return 0

theorem storedU64_eq_query (auth : Option AuthContext) (ns key : String) :
    (storedU64 auth ns key : StorageM S Nat) = StorageM.query (readNumber · auth ns key) := by
  funext b
  simp only [storedU64, RecordingBackend.get_eq, RecordingBackend.contains_eq]
  unfold StorageM.query readNumber
  simp only [bind, EStateM.bind, Except.bind]
  cases StorageBackend.contains b auth ns key with
  | error e => rfl
  | ok found =>
    cases found with
    | false => rfl
    | true =>
      simp only [if_true, EStateM.bind]
      cases StorageBackend.get b auth ns key with
      | error e => rfl
      | ok bytes =>
        dsimp only
        cases String.fromUTF8? bytes <;> rfl

theorem getReputation_eq (auth : Option AuthContext) (ns identityId : String) (b : S) :
    getReputation auth ns identityId b =
      match readNumber b auth ns (reputationKey identityId) with
      | .ok n => .ok (n, none) b
      | .error e => .error (.error e) b := by
  unfold getReputation
  rw [storedU64_eq_query]
  cases hread : readNumber b auth ns (reputationKey identityId) with
  | ok n => exact StorageM.bind_of_ok (StorageM.query_of_ok hread)
  | error e => exact StorageM.bind_of_error (StorageM.query_of_error hread)

theorem getReputation_of_ok {b : S} {auth : Option AuthContext} {ns identityId : String} {n : Nat}
    (h : readNumber b auth ns (reputationKey identityId) = .ok n) :
    getReputation auth ns identityId b = .ok (n, none) b := by
  rw [getReputation_eq, h]

theorem getReputation_of_error {b : S} {auth : Option AuthContext} {ns identityId : String}
    {e : StorageError} (h : readNumber b auth ns (reputationKey identityId) = .error e) :
    getReputation auth ns identityId b = .error (.error e) b := by
  rw [getReputation_eq, h]

theorem reportedReputation_eq (b : S) (auth : Option AuthContext) (ns identityId : String) :
    reportedReputation b auth ns identityId =
      (readNumber b auth ns (reputationKey identityId)).toOption := by
  unfold reportedReputation
  rw [getReputation_eq]
  cases readNumber b auth ns (reputationKey identityId) <;> rfl

end

theorem reputationKey_injective : Function.Injective reputationKey := by
  intro a b h
  change "identities/" ++ a ++ "/reputation" = "identities/" ++ b ++ "/reputation" at h
  exact (String.append_right_inj _).mp ((String.append_left_inj _).mp h)

end EconomicOperations

namespace VMExecution

open EconomicOperations

/-- The message that announces an increment. -/
def announcement (identityId : String) (n : Nat) : String :=
  "\x7b\"identity_id\": \"" ++ identityId ++ "\", \"amount\": " ++ toString n ++ "\x7d"

/-- The event announces the increment of a reputation by `n`. -/
def Announces (identityId : String) (n : Nat) (event : VMEvent) : Prop :=
  event.category = "reputation" ∧ event.message = announcement identityId n

instance (identityId : String) (n : Nat) : DecidablePred (Announces identityId n) :=
  fun _ => inferInstanceAs (Decidable (_ ∧ _))

/-- The reputation has grown by `n`, and no other one has changed. -/
structure Changes {S : Type} [RecordingBackend S] (x : VMExecution S) (identityId : String)
    (b b' : S) (n : Nat) : Prop where
  grown : ∃ current, reportedReputation b x.authContext x.ns identityId = some current ∧
    reportedReputation b' x.authContext x.ns identityId = some (current + n)
  others : ∀ auth ns other, (ns, other) ≠ (x.ns, identityId) →
    reportedReputation b' auth ns other = reportedReputation b auth ns other

/-- The reputation has grown by the whole number of the amount, no other has changed, and just one
of the new events announces that. -/
structure Grown {S : Type} [RecordingBackend S] (identityId : String) (amount : Option Binary64)
    (x x' : VMExecution S) (b b' : S) (n : Nat) : Prop extends Changes x identityId b b' n where
  whole : wholeAmount amount = some (n : Int)
  announced : ∃ added, x'.events = x.events ++ added ∧
    added.countP (Announces identityId n ·) = 1

section outcomes
variable {F S : Type} {x : VMExecution S} {identityId : String} {amount : Option F}
  {n current : Nat} {b b₁ b' : S}

theorem storageOperation_error {α : Type} {operationName : String}
    {f : Option AuthContext → String → StorageM S α} (hb : x.storageBackend = some b)
    {e : StorageError} (h : f x.authContext x.ns b = .error (.error e) b') :
    (storageOperation operationName f : ExecutorOp F S α) x =
      .error (.fault (.error (storageErrorToVMError operationName e)))
        { x with storageBackend := some b' } := by
  simp only [storageOperation, hb, h]

theorem storageOperation_panic {α : Type} {operationName : String}
    {f : Option AuthContext → String → StorageM S α} (hb : x.storageBackend = some b)
    (h : f x.authContext x.ns b = .error .panic b') :
    (storageOperation operationName f : ExecutorOp F S α) x =
      .error (.fault .panic) { x with storageBackend := some b' } := by
  simp only [storageOperation, hb, h]

variable [RecordingBackend S]

/-- After the announcement. -/
def announced (x : VMExecution S) (identityId : String) (n : Nat) : VMExecution S :=
  { x with
    events := x.events ++ [⟨"reputation", announcement identityId n, x.clock x.reads⟩]
    reads := x.reads + 1 }

/-- The part that goes through the storage. -/
def persist (identityId : String) (n : Nat) : ExecutorOp F S Unit := do
  let (current, event) ← storageOperation "get_reputation" fun auth ns =>
    EconomicOperations.getReputation auth ns identityId
  logStorageEvent "reputation" "get_reputation" event
  let t ← now
  let event ← storageOperation "set_reputation" fun auth ns => do
    let value ← StorageM.addU64 current n
    EconomicOperations.setReputation t auth ns identityId value
  logStorageEvent "reputation" "set_reputation" event

theorem execute_of_invalid [Number F] (h : increment amount = none) :
    ∃ e, (executeIncrementReputation identityId (amount.map .number) : ExecutorOp F S Unit) x =
      .error (.fault (.error e)) x := by
  obtain ⟨e, hamount⟩ := @reputationAmount_eq F _ S amount
  rw [h] at hamount
  refine ⟨e, Comp.bind_of_error ?_⟩
  rw [hamount]
  rfl

theorem execute_of_backend [Number F] (h : increment amount = some n)
    (hb : x.storageBackend = some b) :
    (executeIncrementReputation identityId (amount.map .number) : ExecutorOp F S Unit) x =
      persist identityId n (announced x identityId n) := by
  obtain ⟨e, hamount⟩ := @reputationAmount_eq F _ S amount
  rw [h] at hamount
  have hn : (reputationAmount (amount.map .number) : ExecutorOp F S Nat) x = .ok n x := by
    rw [hamount]
    rfl
  have hemit : (emitEvent "reputation" (announcement identityId n) : ExecutorOp F S Unit) x =
      .ok () (announced x identityId n) := rfl
  unfold executeIncrementReputation
  refine (Comp.bind_of_ok hn).trans ((Comp.bind_of_ok hemit).trans ?_)
  have hannounced : (announced x identityId n).storageBackend = some b := hb
  rw [hannounced]
  rfl

section reading
variable (hb : x.storageBackend = some b)
include hb

theorem persist_of_unread {e : StorageError}
    (hread : getReputation x.authContext x.ns identityId b = .error (.error e) b₁) :
    ∃ e' x', (persist identityId n : ExecutorOp F S Unit) x = .error (.fault (.error e')) x' ∧
      x'.events = x.events :=
  ⟨_, _, Comp.bind_of_error (storageOperation_error hb hread), rfl⟩

/-- The write of the sum in the storage. -/
abbrev setSum (x : VMExecution S) (identityId : String) (sum : Nat) : StorageM S Unit :=
  RecordingBackend.set x.authContext x.ns (reputationKey identityId) (toString sum).toUTF8

/-- What is done with the storage once the current number is known. -/
def storeSum (x : VMExecution S) (identityId : String) (current n : Nat)
    (auth : Option AuthContext) (ns : String) : StorageM S (Option StorageEvent) := do
  let value ← StorageM.addU64 current n
  setReputation (x.clock x.reads) auth ns identityId value

/-- What the storage reports of that write. -/
def sumEvent (x : VMExecution S) (identityId : String) (sum : Nat) : StorageEvent :=
  ⟨"set_reputation", userOf x.authContext, x.ns, reputationKey identityId, x.clock x.reads,
    s!"Set reputation for {identityId} to {sum}"⟩

variable (hread : getReputation x.authContext x.ns identityId b = .ok (current, none) b₁)
include hread

/-- With the current number, what is left is to write the sum. -/
theorem persist_of_read :
    (persist identityId n : ExecutorOp F S Unit) x =
      (storageOperation "set_reputation" (storeSum x identityId current n) >>=
        fun event => logStorageEvent "reputation" "set_reputation" event : ExecutorOp F S Unit)
        { x with storageBackend := some b₁ } :=
  (Comp.bind_of_ok (storageOperation_ok hb hread)).trans rfl

theorem persist_of_overflow (hsum : 2 ^ 64 ≤ current + n) :
    ∃ x', (persist identityId n : ExecutorOp F S Unit) x = .error (.fault .panic) x' := by
  have hadd : storeSum x identityId current n x.authContext x.ns b₁ = .error .panic b₁ :=
    StorageM.bind_of_error (StorageM.addU64_of_le hsum b₁)
  rw [persist_of_read hb hread]
  exact ⟨_, Comp.bind_of_error (storageOperation_panic (x := { x with storageBackend := some b₁ })
    rfl hadd)⟩

theorem persist_of_refused (hsum : current + n < 2 ^ 64) {e : StorageError}
    (hset : setSum x identityId (current + n) b₁ = .error (.error e) b') :
    ∃ e' x', (persist identityId n : ExecutorOp F S Unit) x = .error (.fault (.error e')) x' ∧
      x'.events = x.events := by
  have hadd : storeSum x identityId current n x.authContext x.ns b₁ = .error (.error e) b' :=
    (StorageM.bind_of_ok (StorageM.addU64_of_lt hsum b₁)).trans (StorageM.bind_of_error hset)
  rw [persist_of_read hb hread]
  exact ⟨_, _, Comp.bind_of_error (storageOperation_error
    (x := { x with storageBackend := some b₁ }) rfl hadd), rfl⟩

theorem persist_of_panic (hsum : current + n < 2 ^ 64)
    (hset : setSum x identityId (current + n) b₁ = .error .panic b') :
    ∃ x', (persist identityId n : ExecutorOp F S Unit) x = .error (.fault .panic) x' := by
  have hadd : storeSum x identityId current n x.authContext x.ns b₁ = .error .panic b' :=
    (StorageM.bind_of_ok (StorageM.addU64_of_lt hsum b₁)).trans (StorageM.bind_of_error hset)
  rw [persist_of_read hb hread]
  exact ⟨_, Comp.bind_of_error (storageOperation_panic (x := { x with storageBackend := some b₁ })
    rfl hadd)⟩

/-- The write of the sum is announced too, by another message. -/
theorem persist_of_written (hsum : current + n < 2 ^ 64)
    (hset : setSum x identityId (current + n) b₁ = .ok () b') :
    ∃ x' t, (persist identityId n : ExecutorOp F S Unit) x = .ok () x' ∧
      x'.storageBackend = some b' ∧ (x'.events = x.events ++ [⟨"reputation",
        "set_reputation: " ++ (sumEvent x identityId (current + n)).details, t⟩]) ∧
      x'.authContext = x.authContext ∧ x'.ns = x.ns := by
  have hadd : storeSum x identityId current n x.authContext x.ns b₁ =
      .ok (some (sumEvent x identityId (current + n))) b' :=
    (StorageM.bind_of_ok (StorageM.addU64_of_lt hsum b₁)).trans (StorageM.bind_of_ok hset)
  rw [persist_of_read hb hread]
  exact ⟨_, x.clock x.reads, Comp.bind_of_ok (storageOperation_ok
    (x := { x with storageBackend := some b₁ }) rfl hadd), rfl, rfl, rfl, rfl⟩

end reading

end outcomes

section increments
variable {F S : Type} [Number F] [StorageBackend S] {x : VMExecution S} {identityId : String}
  {amount : Option F} {b : S}

/-- The amount is valid, and its sum with the current number is written. -/
def Increments (x : VMExecution S) (identityId : String) (amount : Option F) (b b' : S) : Prop :=
  ∃ n current, increment amount = some n ∧
    readNumber b x.authContext x.ns (reputationKey identityId) = .ok current ∧
    current + n < 2 ^ 64 ∧ setSum x identityId (current + n) b = .ok () b'

theorem execute_of_increments (hb : x.storageBackend = some b) {b' : S}
    (h : Increments x identityId amount b b') :
    ∃ x', (executeIncrementReputation identityId (amount.map .number) : ExecutorOp F S Unit) x =
      .ok () x' := by
  obtain ⟨n, current, hn, hread, hsum, hset⟩ := h
  have hb₁ : (announced x identityId n).storageBackend = some b := hb
  obtain ⟨x', t, hpersist, -⟩ :=
    @persist_of_written F S _ identityId n current b b b' _ hb₁ (getReputation_of_ok hread) hsum
      hset
  exact ⟨x', (execute_of_backend hn hb).trans hpersist⟩

/-- An increment that succeeds writes the sum and changes nothing else of the executor that the
storage is asked with. -/
theorem increments_of_execute (hb : x.storageBackend = some b) {x' : VMExecution S}
    (h : (executeIncrementReputation identityId (amount.map .number) : ExecutorOp F S Unit) x =
      .ok () x') :
    ∃ b', Increments x identityId amount b b' ∧ x'.storageBackend = some b' ∧
      x'.authContext = x.authContext ∧ x'.ns = x.ns := by
  cases hn : increment amount with
  | none =>
    obtain ⟨e, hexec⟩ := @execute_of_invalid F S x identityId amount _ _ hn
    cases hexec.symm.trans h
  | some n =>
    have hexec := (execute_of_backend hn hb).symm.trans h
    have hb₁ : (announced x identityId n).storageBackend = some b := hb
    cases hnumber : readNumber b x.authContext x.ns (reputationKey identityId) with
    | error e =>
      obtain ⟨e', x₁, hpersist, -⟩ := @persist_of_unread F S _ identityId n b b _ hb₁ e
        (getReputation_of_error hnumber)
      cases hpersist.symm.trans hexec
    | ok current =>
      have hread := getReputation_of_ok hnumber
      by_cases hsum : current + n < 2 ^ 64
      · cases hset : setSum x identityId (current + n) b with
        | ok u b' =>
          obtain ⟨x₁, t, hpersist, hbackend, -, hauth, hns⟩ :=
            @persist_of_written F S _ identityId n current b b b' _ hb₁ hread hsum hset
          cases hpersist.symm.trans hexec
          exact ⟨b', ⟨n, current, hn, hnumber, hsum, hset⟩, hbackend, hauth, hns⟩
        | error e b' =>
          cases e with
          | error e =>
            obtain ⟨e', x₁, hpersist, -⟩ :=
              @persist_of_refused F S _ identityId n current b b b' _ hb₁ hread hsum e hset
            cases hpersist.symm.trans hexec
          | panic =>
            obtain ⟨x₁, hpersist⟩ :=
              @persist_of_panic F S _ identityId n current b b b' _ hb₁ hread hsum hset
            cases hpersist.symm.trans hexec
      · obtain ⟨x₁, hpersist⟩ := @persist_of_overflow F S _ identityId n current b b _ hb₁ hread
          (Nat.not_lt.mp hsum)
        cases hpersist.symm.trans hexec

end increments

/-! ### What an announced increment needs -/

/-- Where the amount is valid, the current number can be read and, unless the sum overflows, the
sum is not refused, and where it is written the amount is exact and the change is as it should be. -/
def Settles {S : Type} [RecordingBackend S] (Fine : S → S → Nat → Prop) (x : VMExecution S)
    (identityId : String) (amount : Option Binary64) : Prop :=
  ∀ b n, x.storageBackend = some b → increment amount = some n →
    (∀ e b₁, getReputation x.authContext x.ns identityId b ≠ .error (.error e) b₁) ∧
    ∀ current b₁, getReputation x.authContext x.ns identityId b = .ok (current, none) b₁ →
      current + n < 2 ^ 64 →
        (∀ e b', setSum x identityId (current + n) b₁ ≠ .error (.error e) b') ∧
          ∀ b', setSum x identityId (current + n) b₁ = .ok () b' →
            ExactAmount amount ∧ Fine b b' n

section settled
variable {S : Type} [RecordingBackend S] {x : VMExecution S} {identityId : String}
  {amount : Option Binary64} {n current : Nat} {b b₁ b' : S}

theorem Settles.congr {Fine Fine' : S → S → Nat → Prop}
    (hfine : ∀ b b₁ b' current n, getReputation x.authContext x.ns identityId b =
      .ok (current, none) b₁ → current + n < 2 ^ 64 →
      setSum x identityId (current + n) b₁ = .ok () b' → (Fine b b' n ↔ Fine' b b' n)) :
    Settles Fine x identityId amount ↔ Settles Fine' x identityId amount := by
  unfold Settles
  refine forall₄_congr fun b n _ _ => and_congr_right fun _ => ?_
  refine forall₄_congr fun current b₁ hread hsum => and_congr_right fun _ => ?_
  exact forall₂_congr fun b' hset =>
    and_congr_right fun _ => hfine b b₁ b' current n hread hsum hset

end settled

/-! ### Backends that keep other keys -/

section keyed
variable {S : Type} [StorageBackend S] [StorageBackend.Keyed S] {x : VMExecution S}
  {identityId : String} {n current : Nat} {b b' : S}

end keyed

end VMExecution

end Covm
