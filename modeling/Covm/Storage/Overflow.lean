import Covm.Partial.Raises
import Covm.Storage.Tokens

/-!
# Where the economic operations overflow

`mint`, `transfer` and the increment of a reputation add `u64`s without a check. Each of them
panics exactly if it gets as far as the addition, that is if the resource is there, the numbers may
be read and, for a transfer, the source holds enough, and the sum does not fit. Nothing else on the
in-memory backend panics.
-/

namespace Covm

open Partial

namespace InMemoryStorage

open EconomicOperations

/-- The number kept under a key, for those who may read it. -/
def readU64 (s : InMemoryStorage) (auth : Option AuthContext) (ns key : String) :
    Except StorageError Nat :=
  match s.data.get (ns, key) with
  | none => .ok 0
  | some _ => (checkPermission auth "read" ns).map fun _ => s.numberAt ns key

theorem numberAt_of_readU64 {s : InMemoryStorage} {auth : Option AuthContext} {ns key : String}
    {n : Nat} (h : s.readU64 auth ns key = .ok n) : s.numberAt ns key = n := by
  unfold readU64 at h
  cases hget : s.data.get (ns, key) with
  | none =>
    rw [hget] at h
    cases h
    unfold numberAt
    rw [hget]
    rfl
  | some bytes =>
    rw [hget] at h
    cases hpermission : checkPermission auth "read" ns with
    | error e =>
      rw [hpermission] at h
      cases h
    | ok u =>
      rw [hpermission] at h
      cases h
      rfl

/-- A sum in the place of a number read fits into a `u64`. -/
def SumFits (s : InMemoryStorage) (auth : Option AuthContext) (ns key : String)
    (amount : Nat) : Prop :=
  ∀ n, s.readU64 auth ns key = .ok n → n + amount < 2 ^ 64

/-- What a mint needs not to overflow. -/
def MintFits (s : InMemoryStorage) (auth : Option AuthContext) (ns resource account : String)
    (amount : Nat) : Prop :=
  s.hasResource ns resource → s.SumFits auth ns (accountKey resource account) amount

/-- What a transfer needs not to overflow. -/
def TransferFits (s : InMemoryStorage) (auth : Option AuthContext)
    (ns resource source target : String) (amount : Nat) : Prop :=
  s.hasResource ns resource →
    ∀ n, s.readU64 auth ns (accountKey resource source) = .ok n → amount ≤ n →
      s.SumFits auth ns (accountKey resource target) amount

theorem storedU64_eq (auth : Option AuthContext) (ns key : String) (s : InMemoryStorage) :
    storedU64 auth ns key s =
      match s.readU64 auth ns key with
      | .ok n => .ok n s
      | .error e => .error (.error e) s := by
  unfold storedU64 readU64 numberAt
  simp only [bind, EStateM.bind, StorageM.query, RecordingBackend.contains, RecordingBackend.get,
    StorageBackend.contains, InMemoryStorage.contains, StorageBackend.get]
  cases hget : s.data.get (ns, key) with
  | none => rfl
  | some bytes =>
    simp only [Option.isSome_some, if_true, EStateM.bind, StorageM.query, InMemoryStorage.get]
    cases checkPermission auth "read" ns with
    | error e => rfl
    | ok u =>
      simp only [bind, Except.bind, Except.map, hget, Option.elim]
      cases String.fromUTF8? bytes <;> rfl

/-! ## What cannot panic -/

theorem query_avoids {S α : Type} (f : S → Except StorageError α) :
    Avoids .panic (StorageM.query f) := by
  intro s
  cases h : f s with
  | ok a => exact not_raises_of_ok (StorageM.query_of_ok h)
  | error e => exact not_raises_of_error (StorageM.query_of_error h) (by simp)

theorem fail_avoids {S α : Type} (e : StorageError) :
    Avoids .panic (StorageM.fail e : StorageM S α) :=
  fun _ => not_raises_of_error rfl (by simp)

theorem set_avoids (auth : Option AuthContext) (ns key : String) (value : ByteArray) :
    Avoids .panic (StorageBackend.set auth ns key value : StorageM InMemoryStorage Unit) := by
  intro s
  show ¬ Raises .panic (set auth ns key value) s
  obtain ⟨e, -, h⟩ | ⟨e, -, h⟩ | ⟨a, s₁, -, h, -⟩ := set_cases auth ns key value s
  · exact not_raises_of_error h (by simp)
  · exact not_raises_of_error h (by simp)
  · exact not_raises_of_ok h

theorem setU64_avoids (auth : Option AuthContext) (ns key : String) (n : Nat) :
    Avoids .panic (setU64 auth ns key n : StorageM InMemoryStorage Unit) := set_avoids _ _ _ _

theorem storedU64_avoids (auth : Option AuthContext) (ns key : String) :
    Avoids .panic (storedU64 auth ns key : StorageM InMemoryStorage Nat) := by
  intro s
  have h := storedU64_eq auth ns key s
  cases hread : s.readU64 auth ns key with
  | ok n =>
    rw [hread] at h
    exact not_raises_of_ok h
  | error e =>
    rw [hread] at h
    exact not_raises_of_error h (by simp)

theorem requireResource_avoids (auth : Option AuthContext) (ns resource : String) :
    Avoids .panic (requireResource auth ns resource : StorageM InMemoryStorage Unit) :=
  (query_avoids _).bind fun _ => .ite (fail_avoids _) (.pure _)

/-! ## What can -/

theorem addU64_raises_iff {S : Type} {a b : Nat} {s : S} :
    Raises .panic (StorageM.addU64 a b) s ↔ ¬ a + b < 2 ^ 64 := by
  by_cases h : a + b < 2 ^ 64
  · exact iff_of_false (not_raises_of_ok (StorageM.addU64_of_lt h s)) (not_not_intro h)
  · exact iff_of_true (.of_eq (StorageM.addU64_of_le (Nat.not_lt.mp h) s)) h

variable {auth : Option AuthContext} {ns resource : String} {s : InMemoryStorage}

/-- What follows the reading of a number raises for the number read. -/
theorem raises_storedU64_bind {α : Type} {key : String}
    {f : Nat → StorageM InMemoryStorage α} :
    Raises .panic (storedU64 auth ns key >>= f) s ↔
      ∃ n, s.readU64 auth ns key = .ok n ∧ Raises .panic (f n) s := by
  have h := storedU64_eq auth ns key s
  cases hread : s.readU64 auth ns key with
  | ok n =>
    rw [hread] at h
    rw [raises_bind_of_ok h]
    constructor
    · exact fun hf => ⟨n, rfl, hf⟩
    · rintro ⟨n', heq, hf⟩
      cases heq
      exact hf
  | error e =>
    rw [hread] at h
    refine iff_of_false (not_raises_bind_of_error h (by simp)) ?_
    rintro ⟨n, heq, -⟩
    cases heq

theorem raises_requireResource_bind {α : Type} {f : Unit → StorageM InMemoryStorage α} :
    Raises .panic (requireResource auth ns resource >>= f) s ↔
      s.hasResource ns resource ∧ Raises .panic (f ()) s := by
  have h := requireResource_eq auth ns resource s
  by_cases hres : s.hasResource ns resource
  · rw [if_pos hres] at h
    rw [raises_bind_of_ok h]
    exact (and_iff_right hres).symm
  · rw [if_neg hres] at h
    exact iff_of_false (not_raises_bind_of_error h (by simp)) fun hf => hres hf.1

/-- A sum that is written back. -/
theorem raises_addU64_bind {α : Type} {key : String} {amount : Nat}
    {f : Nat → StorageM InMemoryStorage α} (hf : ∀ n, Avoids .panic (f n)) :
    (∃ n, s.readU64 auth ns key = .ok n ∧ Raises .panic (StorageM.addU64 n amount >>= f) s) ↔
      ¬ s.SumFits auth ns key amount := by
  unfold SumFits
  simp only [raises_bind_left hf, addU64_raises_iff, not_forall, exists_prop]

theorem mint_raises_iff {now amount : Nat} {account reason : String} :
    Raises .panic (mint now auth ns resource account amount reason) s ↔
      ¬ s.MintFits auth ns resource account amount := by
  unfold mint MintFits
  rw [raises_requireResource_bind, raises_storedU64_bind, Classical.not_imp]
  refine and_congr_right fun _ => ?_
  exact raises_addU64_bind fun n => (setU64_avoids _ _ _ _).bind fun _ => .pure _

theorem transfer_raises_iff {now amount : Nat} {source target reason : String} :
    Raises .panic (transfer now auth ns resource source target amount reason) s ↔
      ¬ s.TransferFits auth ns resource source target amount := by
  unfold transfer TransferFits
  rw [raises_requireResource_bind, raises_storedU64_bind, Classical.not_imp]
  simp only [not_forall, exists_prop]
  refine and_congr_right fun _ => exists_congr fun n => and_congr_right fun _ => ?_
  by_cases hn : n < amount
  · rw [if_pos hn]
    exact iff_of_false (not_raises_bind_of_error rfl (by simp)) fun h => by omega
  · rw [if_neg hn, and_iff_right (Nat.not_lt.mp hn), raises_storedU64_bind]
    exact raises_addU64_bind fun n =>
      (setU64_avoids _ _ _ _).bind fun _ => (setU64_avoids _ _ _ _).bind fun _ => .pure _

theorem burn_avoids (now : Nat) (auth : Option AuthContext) (ns resource account : String)
    (amount : Nat) (reason : String) :
    Avoids .panic (burn now auth ns resource account amount reason :
      StorageM InMemoryStorage _) :=
  (requireResource_avoids _ _ _).bind fun _ => (storedU64_avoids _ _ _).bind fun _ =>
    .guard (fail_avoids _) ((setU64_avoids _ _ _ _).bind fun _ => .pure _)

theorem getBalance_avoids (now : Nat) (auth : Option AuthContext) (ns resource account : String) :
    Avoids .panic (getBalance now auth ns resource account : StorageM InMemoryStorage _) :=
  (requireResource_avoids _ _ _).bind fun _ => (storedU64_avoids _ _ _).bind fun _ => .pure _

theorem getReputation_avoids (auth : Option AuthContext) (ns identityId : String) :
    Avoids .panic (getReputation auth ns identityId : StorageM InMemoryStorage _) :=
  (storedU64_avoids _ _ _).bind fun _ => .pure _

theorem setReputation_avoids (now : Nat) (auth : Option AuthContext) (ns identityId : String)
    (value : Nat) :
    Avoids .panic (setReputation now auth ns identityId value : StorageM InMemoryStorage _) :=
  (setU64_avoids _ _ _ _).bind fun _ => .pure _

theorem store_avoids (now : Nat) (auth : Option AuthContext) (ns key : String)
    (value : ByteArray) :
    Avoids .panic (store now auth ns key value : StorageM InMemoryStorage _) :=
  (set_avoids _ _ _ _).bind fun _ => .pure _

theorem load_avoids (now : Nat) (auth : Option AuthContext) (ns key : String) :
    Avoids .panic (load now auth ns key : StorageM InMemoryStorage _) :=
  (query_avoids _).bind fun _ => .pure _

end InMemoryStorage

end Covm
