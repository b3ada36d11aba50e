import Covm.Storage.Overflow
import Covm.Storage.Room

/-!
# What the economic operations write

Before an operation writes anything it reads the balances and either refuses, overflows or settles
the new balances: this is its `Plan`, a function of the state. What follows are writes of numbers,
each of which may still be refused; what was written before stays.
-/

namespace Covm

open Partial

namespace InMemoryStorage

open EconomicOperations

/-- What an operation has settled once it has read the balances. -/
inductive Plan where
  | refuse (e : StorageError)
  | overflow
  | write (balances : List (String × Nat))

def Plan.run (auth : Option AuthContext) (ns : String) : Plan → StorageM InMemoryStorage Unit
  | .refuse e => StorageM.fail e
  | .overflow => fun s => .error .panic s
  | .write balances => balances.forM fun (key, n) => setU64 auth ns key n

section plans
variable (s : InMemoryStorage) (auth : Option AuthContext) (ns resource : String)

/-- Goes on with the number under a key of a resource that is there. -/
def readThen (key : String) (next : Nat → Plan) : Plan :=
  match s.readU64 auth ns key with
  | .error e => .refuse e
  | .ok n => next n

def mintPlan (account : String) (amount : Nat) : Plan :=
  if s.hasResource ns resource then
    s.readThen auth ns (accountKey resource account) fun current =>
      if current + amount < 2 ^ 64 then
        .write [(accountKey resource account, current + amount)]
      else .overflow
  else .refuse (.resourceNotFound resource)

def transferPlan (source target : String) (amount : Nat) : Plan :=
  if s.hasResource ns resource then
    s.readThen auth ns (accountKey resource source) fun fromBalance =>
      if fromBalance < amount then
        .refuse (.insufficientBalance
          s!"Account {source} has insufficient balance for resource {resource}")
      else
        s.readThen auth ns (accountKey resource target) fun toBalance =>
          if toBalance + amount < 2 ^ 64 then
            .write [(accountKey resource source, fromBalance - amount),
              (accountKey resource target, toBalance + amount)]
          else .overflow
  else .refuse (.resourceNotFound resource)

def burnPlan (account : String) (amount : Nat) : Plan :=
  if s.hasResource ns resource then
    s.readThen auth ns (accountKey resource account) fun current =>
      if current < amount then
        .refuse (.insufficientBalance
          s!"Account {account} has insufficient balance for resource {resource}")
      else .write [(accountKey resource account, current - amount)]
  else .refuse (.resourceNotFound resource)

end plans

section
variable {now amount : Nat} {auth : Option AuthContext} {ns resource reason : String}
  {s : InMemoryStorage}

theorem requireResource_bind {α : Type} (f : Unit → StorageM InMemoryStorage α) :
    (requireResource auth ns resource >>= f) s =
      if s.hasResource ns resource then f () s
      else .error (.error (.resourceNotFound resource)) s := by
  have h := requireResource_eq auth ns resource s
  by_cases hres : s.hasResource ns resource
  · rw [if_pos hres] at h ⊢
    exact StorageM.bind_of_ok h
  · rw [if_neg hres] at h ⊢
    exact StorageM.bind_of_error h

theorem storedU64_bind {α : Type} {key : String} (f : Nat → StorageM InMemoryStorage α) :
    (storedU64 auth ns key >>= f) s =
      match s.readU64 auth ns key with
      | .ok n => f n s
      | .error e => .error (.error e) s := by
  have h := storedU64_eq auth ns key s
  cases hread : s.readU64 auth ns key with
  | ok n =>
    rw [hread] at h
    exact StorageM.bind_of_ok h
  | error e =>
    rw [hread] at h
    exact StorageM.bind_of_error h

/-- The writes of a plan with one balance. -/
theorem run_write_one (key : String) (n : Nat) :
    (Plan.write [(key, n)]).run auth ns s = setU64 auth ns key n s := by
  show (setU64 auth ns key n >>= fun _ => pure ()) s = _
  rw [bind_pure_unit]

theorem run_write_two (key key' : String) (n n' : Nat) :
    (Plan.write [(key, n), (key', n')]).run auth ns s =
      (setU64 auth ns key n >>= fun _ => setU64 auth ns key' n') s := by
  show (setU64 auth ns key n >>= fun _ => (setU64 auth ns key' n' >>= fun _ => pure ())) s = _
  rw [bind_pure_unit]

theorem mint_eq (account : String) :
    (mint now auth ns resource account amount reason >>= fun _ => pure ()) s =
      (s.mintPlan auth ns resource account amount).run auth ns s := by
  unfold mint mintPlan readThen
  rw [bind_assoc, requireResource_bind]
  by_cases hres : s.hasResource ns resource
  · rw [if_pos hres, if_pos hres, bind_assoc, storedU64_bind]
    cases s.readU64 auth ns (accountKey resource account) with
    | error e => rfl
    | ok current =>
      dsimp only
      rw [bind_assoc]
      by_cases hfits : current + amount < 2 ^ 64
      · rw [StorageM.bind_of_ok (StorageM.addU64_of_lt hfits s), if_pos hfits, run_write_one]
        simp only [bind_assoc, pure_bind, bind_pure_unit]
      · rw [StorageM.bind_of_error (StorageM.addU64_of_le (Nat.not_lt.mp hfits) s), if_neg hfits]
        rfl
  · rw [if_neg hres, if_neg hres]
    rfl

theorem burn_eq (account : String) :
    (burn now auth ns resource account amount reason >>= fun _ => pure ()) s =
      (s.burnPlan auth ns resource account amount).run auth ns s := by
  unfold burn burnPlan readThen
  rw [bind_assoc, requireResource_bind]
  by_cases hres : s.hasResource ns resource
  · rw [if_pos hres, if_pos hres, bind_assoc, storedU64_bind]
    cases s.readU64 auth ns (accountKey resource account) with
    | error e => rfl
    | ok current =>
      dsimp only
      by_cases hless : current < amount
      · rw [if_pos hless, if_pos hless]
        rfl
      · rw [if_neg hless, if_neg hless, run_write_one]
        simp only [bind_assoc, pure_bind, bind_pure_unit]
  · rw [if_neg hres, if_neg hres]
    rfl

theorem transfer_eq (source target : String) :
    (transfer now auth ns resource source target amount reason >>= fun _ => pure ()) s =
      (s.transferPlan auth ns resource source target amount).run auth ns s := by
  unfold transfer transferPlan readThen
  rw [bind_assoc, requireResource_bind]
  by_cases hres : s.hasResource ns resource
  · rw [if_pos hres, if_pos hres, bind_assoc, storedU64_bind]
    cases s.readU64 auth ns (accountKey resource source) with
    | error e => rfl
    | ok fromBalance =>
      dsimp only
      by_cases hless : fromBalance < amount
      · rw [if_pos hless, if_pos hless]
        rfl
      · rw [if_neg hless, if_neg hless, bind_assoc, storedU64_bind]
        cases s.readU64 auth ns (accountKey resource target) with
        | error e => rfl
        | ok toBalance =>
          dsimp only
          rw [bind_assoc]
          by_cases hfits : toBalance + amount < 2 ^ 64
          · rw [StorageM.bind_of_ok (StorageM.addU64_of_lt hfits s), if_pos hfits, run_write_two]
            simp only [bind_assoc, pure_bind, bind_pure_unit]
          · rw [StorageM.bind_of_error (StorageM.addU64_of_le (Nat.not_lt.mp hfits) s),
              if_neg hfits]
            rfl
  · rw [if_neg hres, if_neg hres]
    rfl

end

end InMemoryStorage

end Covm
