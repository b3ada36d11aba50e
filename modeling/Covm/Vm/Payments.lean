import Covm.Number.Exact
import Covm.Storage.Conservation
import Covm.Storage.Economics
import Covm.Vm.RoundTrip

/-!
# Amounts of payments

`Mint`, `Transfer` and `Burn` hold their amount as a binary number and cast it to a `u64`, which
cuts off what is behind the point, turns negative numbers and NaN into zero and infinity into the
largest `u64`. Nothing checks it before. So a payment is exact only if its amount is a whole number
below `2 ^ 64` (`exactOrRefused_iff`), apart from payments that are refused.
-/

namespace Covm

open Partial Comp

/-- An operation that moves an amount. -/
inductive Payment where
  | mint (resource account : String)
  | transfer (resource source target : String)
  | burn (resource account : String)

/-! ## What is written -/

namespace InMemoryStorage

/-- A number is written under its key, or nothing changes. -/
theorem setU64_numberAt (auth : Option AuthContext) (ns key : String) {n : Nat}
    (hn : n < 2 ^ 64) (s : InMemoryStorage) :
    (s.Writable auth ns key (toString n).toUTF8 ∧
      ∃ s', EconomicOperations.setU64 auth ns key n s = .ok () s' ∧
        s'.numberAt = Function.update s.numberAt ns (Function.update (s.numberAt ns) key n)) ∨
    (¬ s.Writable auth ns key (toString n).toUTF8 ∧
      ∃ e s', EconomicOperations.setU64 auth ns key n s = .error (.error e) s' ∧
        s'.numberAt = s.numberAt) := by
  obtain ⟨hwritable, s', hok, hdata⟩ | ⟨hnot, e, s', herror, hdata⟩ :=
    set_data auth ns key (toString n).toUTF8 s
  · refine .inl ⟨hwritable, s', hok, ?_⟩
    funext ns' key'
    by_cases hns : ns' = ns
    · subst hns
      rw [Function.update_self]
      by_cases hkey : key' = key
      · subst hkey
        rw [Function.update_self]
        unfold numberAt
        rw [hdata, Function.update_self, Option.elim_some, fromUTF8_toUTF8]
        dsimp only
        rw [parseU64_toString hn, Option.getD_some]
      · rw [Function.update_of_ne hkey]
        unfold numberAt
        rw [hdata, Function.update_of_ne (fun h => hkey (Prod.mk.inj h).2)]
    · rw [Function.update_of_ne hns]
      unfold numberAt
      rw [hdata, Function.update_of_ne (fun h => hns (Prod.mk.inj h).1)]
  · refine .inr ⟨hnot, e, s', herror, ?_⟩
    funext ns' key'
    unfold numberAt
    rw [hdata]

end InMemoryStorage

/-- A whole number that fits into a `u64`. -/
def Ieee.Whole {fmt : Format} (amount : Ieee fmt) : Prop :=
  ∃ k : Nat, k < 2 ^ 64 ∧ amount.toRat? = some (k : ℚ)

namespace Payment

open InMemoryStorage EconomicOperations

/-- What the payment settles in a state. -/
def plan (s : InMemoryStorage) (auth : Option AuthContext) (ns : String) (n : Nat) :
    Payment → Plan
  | mint resource account => s.mintPlan auth ns resource account n
  | transfer resource source target => s.transferPlan auth ns resource source target n
  | burn resource account => s.burnPlan auth ns resource account n

/-- How often the amount is to be added to the balance under a key. -/
def sign (key : String) : Payment → Int
  | mint resource account => if key = accountKey resource account then 1 else 0
  | transfer resource source target =>
    (if key = accountKey resource target then 1 else 0) -
      (if key = accountKey resource source then 1 else 0)
  | burn resource account => if key = accountKey resource account then -1 else 0

section
variable {fmt : Format}

/-- The amount is a number, and the balances have changed by just that number. -/
def Made (p : Payment) (amount : Ieee fmt) (ns : String) (before after : String → String → Nat) :
    Prop :=
  ∃ x, amount.toRat? = some x ∧ ∀ ns' key,
    (after ns' key : ℚ) = before ns' key + (if ns' = ns then p.sign key else 0 : Int) * x

/-- The balances after a payment that was made exactly, or refused. -/
def Exact (p : Payment) (amount : Ieee fmt) (ns : String) (before : String → String → Nat) :
    EStateM.Result StorageFault (String → String → Nat) Unit → Prop
  | .ok _ after => p.Made amount ns before after
  | .error (.error _) after => after = before
  | .error .panic _ => False

/-- The balances a result leaves. -/
def balances (r : EStateM.Result StorageFault InMemoryStorage Unit) :
    EStateM.Result StorageFault (String → String → Nat) Unit :=
  match r with
  | .ok u s => .ok u s.numberAt
  | .error e s => .error e s.numberAt

/-- When the two writes of a transfer are exact: what was debited is credited. -/
def SafeWrites (s : InMemoryStorage) (auth : Option AuthContext) (ns : String) (amount : Ieee fmt)
    (resource source target : String) (fromBalance toBalance : Nat) : Prop :=
  ∀ s', setU64 auth ns (accountKey resource source) (fromBalance - amount.toU64) s = .ok () s' →
    (s'.Writable auth ns (accountKey resource target)
        (toString (toBalance + amount.toU64)).toUTF8 →
      if source = target then amount.toU64 = 0 ∧ amount.toRat? ≠ none else amount.Whole) ∧
    (¬ s'.Writable auth ns (accountKey resource target)
        (toString (toBalance + amount.toU64)).toUTF8 → amount.toU64 = 0)

/-- When a payment is exact: what is written is a whole amount, no sum overflows, and what cannot be
credited has not been debited. -/
def Safe (s : InMemoryStorage) (auth : Option AuthContext) (ns : String) (amount : Ieee fmt) :
    Payment → Prop
  | mint resource account => s.hasResource ns resource → ∀ balance,
    s.readU64 auth ns (accountKey resource account) = .ok balance →
      balance + amount.toU64 < 2 ^ 64 ∧
        (s.Writable auth ns (accountKey resource account)
            (toString (balance + amount.toU64)).toUTF8 → amount.Whole)
  | burn resource account => s.hasResource ns resource → ∀ balance,
    s.readU64 auth ns (accountKey resource account) = .ok balance → amount.toU64 ≤ balance →
      s.Writable auth ns (accountKey resource account)
        (toString (balance - amount.toU64)).toUTF8 → amount.Whole
  | transfer resource source target => s.hasResource ns resource → ∀ fromBalance toBalance,
    s.readU64 auth ns (accountKey resource source) = .ok fromBalance →
    amount.toU64 ≤ fromBalance →
    s.readU64 auth ns (accountKey resource target) = .ok toBalance →
      toBalance + amount.toU64 < 2 ^ 64 ∧
        SafeWrites s auth ns amount resource source target fromBalance toBalance

/-! ## Plans -/

variable {amount : Ieee fmt} {s : InMemoryStorage} {auth : Option AuthContext} {ns : String}

theorem whole_iff : amount.Whole ↔ amount.toRat? = some (amount.toU64 : ℚ) :=
  Ieee.toRat?_eq_toU64_iff.symm

theorem exact_refuse (p : Payment) (e : StorageError) :
    p.Exact amount ns s.numberAt (balances ((Plan.refuse e).run auth ns s)) := rfl

theorem not_exact_overflow (p : Payment) :
    ¬ p.Exact amount ns s.numberAt (balances (Plan.overflow.run auth ns s)) := fun h => h

/-- A payment after which the numbers of the namespace are known. -/
theorem exact_ok_iff {p : Payment} {s' : InMemoryStorage} {numbers : String → Nat}
    (h : s'.numberAt = Function.update s.numberAt ns numbers) :
    p.Exact amount ns s.numberAt (balances (.ok () s')) ↔
      ∃ x, amount.toRat? = some x ∧
        ∀ key, (numbers key : ℚ) = s.numberAt ns key + p.sign key * x := by
  show p.Made amount ns s.numberAt s'.numberAt ↔ _
  refine exists_congr fun x => and_congr_right fun _ => ?_
  rw [h]
  constructor
  · intro hall key
    have hkey := hall ns key
    rwa [Function.update_self, if_pos rfl] at hkey
  · intro hall ns' key
    by_cases hns : ns' = ns
    · subst hns
      rw [Function.update_self, if_pos rfl]
      exact hall key
    · rw [Function.update_of_ne hns, if_neg hns]
      simp

/-- What one more number does to the balances. -/
theorem update_exact_iff {p : Payment} {key : String} {n : Nat} {sign : Int} (hsign : sign ≠ 0)
    (hp : ∀ key', p.sign key' = if key' = key then sign else 0)
    {change : ℚ} (hchange : (n : ℚ) = s.numberAt ns key + sign * change) :
    (∃ x, amount.toRat? = some x ∧ ∀ key',
      (Function.update (s.numberAt ns) key n key' : ℚ) = s.numberAt ns key' + p.sign key' * x) ↔
      amount.toRat? = some change := by
  constructor
  · rintro ⟨x, hx, hall⟩
    have hkey := hall key
    rw [Function.update_self, hp, if_pos rfl, hchange] at hkey
    have hsame : (sign : ℚ) * change = sign * x := by linarith only [hkey]
    rw [hx, mul_left_cancel₀ (by exact_mod_cast hsign) hsame]
  · intro hx
    refine ⟨change, hx, fun key' => ?_⟩
    rw [hp]
    by_cases hkey : key' = key
    · subst hkey
      rw [Function.update_self, if_pos rfl, hchange]
    · rw [Function.update_of_ne hkey, if_neg hkey]
      simp

theorem mint_exact_iff (resource account : String) :
    (mint resource account).Exact amount ns s.numberAt
        (balances ((s.mintPlan auth ns resource account amount.toU64).run auth ns s)) ↔
      (mint resource account).Safe s auth ns amount := by
  unfold mintPlan readThen Safe
  by_cases hres : s.hasResource ns resource
  · rw [if_pos hres]
    simp only [hres, forall_const]
    cases hread : s.readU64 auth ns (accountKey resource account) with
    | error e => exact iff_of_true (exact_refuse _ e) nofun
    | ok balance =>
      simp only [Except.ok.injEq, forall_eq']
      by_cases hfits : balance + amount.toU64 < 2 ^ 64
      · rw [if_pos hfits, run_write_one, and_iff_right hfits]
        obtain ⟨hwritable, s', hok, hnumbers⟩ | ⟨hnot, e, s', herror, hnumbers⟩ :=
          setU64_numberAt auth ns (accountKey resource account) hfits s
        · rw [hok]
          rw [forall_prop_of_true hwritable]
          rw [exact_ok_iff hnumbers, whole_iff]
          refine update_exact_iff one_ne_zero (fun _ => rfl) ?_
          rw [numberAt_of_readU64 hread]
          push_cast
          ring
        · rw [herror]
          exact iff_of_true hnumbers fun h => absurd h hnot
      · rw [if_neg hfits]
        exact iff_of_false (not_exact_overflow _) fun h => hfits h.1
  · rw [if_neg hres]
    exact iff_of_true (exact_refuse _ _) fun h => absurd h hres

theorem burn_exact_iff (resource account : String) :
    (burn resource account).Exact amount ns s.numberAt
        (balances ((s.burnPlan auth ns resource account amount.toU64).run auth ns s)) ↔
      (burn resource account).Safe s auth ns amount := by
  unfold burnPlan readThen Safe
  by_cases hres : s.hasResource ns resource
  · rw [if_pos hres]
    simp only [hres, forall_const]
    cases hread : s.readU64 auth ns (accountKey resource account) with
    | error e => exact iff_of_true (exact_refuse _ e) nofun
    | ok balance =>
      simp only [Except.ok.injEq, forall_eq']
      by_cases hless : balance < amount.toU64
      · rw [if_pos hless]
        exact iff_of_true (exact_refuse _ _) fun h => absurd h (Nat.not_le.mpr hless)
      · have hle := Nat.not_lt.mp hless
        have hfits : balance - amount.toU64 < 2 ^ 64 := by
          have hbalance := s.numberAt_lt ns (accountKey resource account)
          rw [numberAt_of_readU64 hread] at hbalance
          omega
        rw [if_neg hless, run_write_one, forall_prop_of_true hle]
        obtain ⟨hwritable, s', hok, hnumbers⟩ | ⟨hnot, e, s', herror, hnumbers⟩ :=
          setU64_numberAt auth ns (accountKey resource account) hfits s
        · rw [hok]
          rw [forall_prop_of_true hwritable]
          rw [exact_ok_iff hnumbers, whole_iff]
          refine update_exact_iff (by decide : (-1 : Int) ≠ 0) (fun _ => rfl) ?_
          rw [numberAt_of_readU64 hread, Nat.cast_sub hle]
          push_cast
          ring
        · rw [herror]
          exact iff_of_true hnumbers fun h => absurd h hnot
  · rw [if_neg hres]
    exact iff_of_true (exact_refuse _ _) fun h => absurd h hres

/-- What a debit and a credit do to the balances. -/
theorem two_exact_iff {resource source target : String} {fromBalance toBalance : Nat}
    (hfrom : s.numberAt ns (accountKey resource source) = fromBalance)
    (hto : s.numberAt ns (accountKey resource target) = toBalance)
    (hle : amount.toU64 ≤ fromBalance) :
    (∃ x, amount.toRat? = some x ∧ ∀ key,
      (Function.update (Function.update (s.numberAt ns) (accountKey resource source)
          (fromBalance - amount.toU64)) (accountKey resource target) (toBalance + amount.toU64)
          key : ℚ) =
        s.numberAt ns key + (transfer resource source target).sign key * x) ↔
      if source = target then amount.toU64 = 0 ∧ amount.toRat? ≠ none else amount.Whole := by
  by_cases hself : source = target
  · subst hself
    rw [if_pos rfl, Function.update_idem]
    have hsame : fromBalance = toBalance := hfrom.symm.trans hto
    have hsign (key : String) : (transfer resource source source).sign key = 0 := sub_self _
    constructor
    · rintro ⟨x, hx, hall⟩
      have hkey := hall (accountKey resource source)
      rw [Function.update_self, hsign, hto, Int.cast_zero, zero_mul, add_zero] at hkey
      have hsum : toBalance + amount.toU64 = toBalance := by exact_mod_cast hkey
      exact ⟨by omega, by rw [hx]; exact nofun⟩
    · rintro ⟨hzero, hsome⟩
      obtain ⟨x, hx⟩ := Option.ne_none_iff_exists'.mp hsome
      refine ⟨x, hx, fun key => ?_⟩
      rw [hzero, Nat.add_zero, ← hto, Function.update_eq_self, hsign, Int.cast_zero, zero_mul,
        add_zero]
  · rw [if_neg hself, whole_iff]
    have hne : accountKey resource source ≠ accountKey resource target :=
      fun h => hself (accountKey_injective resource h)
    constructor
    · rintro ⟨x, hx, hall⟩
      have hkey := hall (accountKey resource target)
      rw [Function.update_self, hto, sign, if_pos rfl, if_neg hne.symm] at hkey
      push_cast at hkey
      rw [hx, show x = amount.toU64 by linarith only [hkey]]
    · intro hx
      refine ⟨_, hx, fun key => ?_⟩
      rw [sign]
      by_cases htarget : key = accountKey resource target
      · subst htarget
        rw [Function.update_self, hto, if_pos rfl, if_neg hne.symm]
        push_cast
        ring
      · rw [Function.update_of_ne htarget, if_neg htarget]
        by_cases hsource : key = accountKey resource source
        · subst hsource
          rw [Function.update_self, hfrom, if_pos rfl, Nat.cast_sub hle]
          push_cast
          ring
        · rw [Function.update_of_ne hsource, if_neg hsource]
          simp

/-- The two writes of a transfer. -/
theorem writes_exact_iff {resource source target : String} {fromBalance toBalance : Nat}
    (hsource : s.readU64 auth ns (accountKey resource source) = .ok fromBalance)
    (htarget : s.readU64 auth ns (accountKey resource target) = .ok toBalance)
    (hle : amount.toU64 ≤ fromBalance) (hfits : toBalance + amount.toU64 < 2 ^ 64) :
    (transfer resource source target).Exact amount ns s.numberAt
        (balances ((Plan.write [(accountKey resource source, fromBalance - amount.toU64),
          (accountKey resource target, toBalance + amount.toU64)]).run auth ns s)) ↔
      SafeWrites s auth ns amount resource source target fromBalance toBalance := by
  have hfrom := numberAt_of_readU64 hsource
  have hto := numberAt_of_readU64 htarget
  have hdebit : fromBalance - amount.toU64 < 2 ^ 64 := by
    have hbalance := s.numberAt_lt ns (accountKey resource source)
    rw [hfrom] at hbalance
    omega
  rw [run_write_two]
  obtain ⟨-, s₁, hok, hnumbers⟩ | ⟨-, e, s₁, herror, hnumbers⟩ :=
    setU64_numberAt auth ns (accountKey resource source) hdebit s
  · have hcore : (transfer resource source target).Exact amount ns s.numberAt (balances
          (setU64 auth ns (accountKey resource target) (toBalance + amount.toU64) s₁)) ↔
        (s₁.Writable auth ns (accountKey resource target)
          (toString (toBalance + amount.toU64)).toUTF8 →
            if source = target then amount.toU64 = 0 ∧ amount.toRat? ≠ none else amount.Whole) ∧
        (¬ s₁.Writable auth ns (accountKey resource target)
          (toString (toBalance + amount.toU64)).toUTF8 → amount.toU64 = 0) := by
      obtain ⟨hwritable, s₂, hok₂, hnumbers₂⟩ | ⟨hnot, e, s₂, herror, hnumbers₂⟩ :=
        setU64_numberAt auth ns (accountKey resource target) hfits s₁
      · rw [hnumbers, Function.update_self, Function.update_idem] at hnumbers₂
        rw [hok₂, exact_ok_iff hnumbers₂, two_exact_iff hfrom hto hle,
          forall_prop_of_true hwritable]
        exact (and_iff_left fun hnot => absurd hwritable hnot).symm
      · rw [hnumbers] at hnumbers₂
        rw [herror, forall_prop_of_true hnot,
          and_iff_right fun hwritable => absurd hwritable hnot]
        show s₂.numberAt = s.numberAt ↔ _
        rw [hnumbers₂, Function.update_eq_self_iff, Function.update_eq_self_iff, hfrom]
        omega
    rw [StorageM.bind_of_ok hok, hcore]
    constructor
    · intro h s' hs'
      rw [hok] at hs'
      cases hs'
      exact h
    · exact fun h => h s₁ hok
  · rw [StorageM.bind_of_error herror]
    refine iff_of_true hnumbers fun s' hs' => ?_
    rw [herror] at hs'
    exact nomatch hs'

theorem transfer_exact_iff (resource source target : String) :
    (transfer resource source target).Exact amount ns s.numberAt
        (balances ((s.transferPlan auth ns resource source target amount.toU64).run auth ns s)) ↔
      (transfer resource source target).Safe s auth ns amount := by
  unfold transferPlan readThen Safe
  by_cases hres : s.hasResource ns resource
  · rw [if_pos hres]
    simp only [hres, forall_const]
    cases hsource : s.readU64 auth ns (accountKey resource source) with
    | error e => exact iff_of_true (exact_refuse _ e) nofun
    | ok fromBalance =>
      dsimp only
      by_cases hless : fromBalance < amount.toU64
      · rw [if_pos hless]
        refine iff_of_true (exact_refuse _ _) fun balance _ hbalance hle _ => ?_
        cases hbalance
        exact absurd hle (Nat.not_le.mpr hless)
      · have hle := Nat.not_lt.mp hless
        rw [if_neg hless]
        cases htarget : s.readU64 auth ns (accountKey resource target) with
        | error e => exact iff_of_true (exact_refuse _ e) fun _ _ _ _ h => nomatch h
        | ok toBalance =>
          dsimp only
          by_cases hfits : toBalance + amount.toU64 < 2 ^ 64
          · rw [if_pos hfits, writes_exact_iff hsource htarget hle hfits]
            constructor
            · rintro h _ _ ⟨⟩ - ⟨⟩
              exact ⟨hfits, h⟩
            · exact fun h => (h _ _ rfl hle rfl).2
          · rw [if_neg hfits]
            exact iff_of_false (not_exact_overflow _) fun h => hfits (h _ _ rfl hle rfl).1
  · rw [if_neg hres]
    exact iff_of_true (exact_refuse _ _) fun h => absurd h hres

theorem plan_exact_iff (p : Payment) :
    p.Exact amount ns s.numberAt (balances ((p.plan s auth ns amount.toU64).run auth ns s)) ↔
      p.Safe s auth ns amount := by
  cases p with
  | mint resource account => exact mint_exact_iff resource account
  | transfer resource source target => exact transfer_exact_iff resource source target
  | burn resource account => exact burn_exact_iff resource account

end

/-! ## The operations -/

section
variable {F S τ : Type}

/-- The operation that makes the payment. -/
def op (amount : F) (reason : Option String) : Payment → Op F
  | mint resource account => .mint resource account amount reason
  | transfer resource source target => .transfer resource source target amount reason
  | burn resource account => .burn resource account amount reason

/-- A run that ends like a storage call, and has the storage that the call left. -/
def Settles (backend : τ → Option S) :
    EStateM.Result StorageFault S Unit → Outcome (Fault F) τ Unit → Prop
  | .ok _ s, .ok _ x => backend x = some s
  | .error (.error _) s, .error (.error _) x => backend x = some s
  | .error .panic s, .error .panic x => backend x = some s
  | _, _ => False

theorem Settles.ok_of_eq {σ : Type} {backend : τ → Option S} {backend' : σ → Option S}
    {result : EStateM.Result StorageFault S Unit} {x : τ} {x' : σ}
    (h : Settles (F := F) backend result (.ok () x)) (hx : backend' x' = backend x) :
    Settles (F := F) backend' result (.ok () x') := by
  cases result with
  | ok u s => exact hx.trans h
  | error e s => cases e <;> exact h

theorem Settles.error_of_eq {σ : Type} {backend : τ → Option S} {backend' : σ → Option S}
    {result : EStateM.Result StorageFault S Unit} {x : τ} {x' : σ} {e : Fault F}
    (h : Settles backend result (.error e x)) (hx : backend' x' = backend x) :
    Settles backend' result (.error e x') := by
  rcases result with ⟨u, s⟩ | ⟨_ | _, s⟩ <;> cases e
  · exact h
  · exact h
  · exact hx.trans h
  · exact h
  · exact h
  · exact hx.trans h

open VMExecution in
/-- A storage call whose event is logged. -/
theorem settles_logged {x : VMExecution S} {s : S} (hb : x.storageBackend = some s)
    (operationName category label : String)
    (f : Option AuthContext → String → StorageM S (Option StorageEvent)) :
    ∃ r : Outcome (Fault F) _ Unit,
      ends (storageOperation operationName f >>= logStorageEvent category label) x r ∧
      Settles VMExecution.storageBackend
        ((f x.authContext x.ns >>= fun _ => pure ()) s) r := by
  have happly : (storageOperation operationName f : ExecutorOp F S _) x =
      match f x.authContext x.ns s with
      | .ok a s' => .ok a { x with storageBackend := some s' }
      | .error (.error e) s' => .error (.fault (.error (storageErrorToVMError operationName e)))
          { x with storageBackend := some s' }
      | .error .panic s' => .error (.fault .panic) { x with storageBackend := some s' } := by
    unfold storageOperation
    rw [hb]
    dsimp only
    cases f x.authContext x.ns s with
    | ok event s' => rfl
    | error fault s' => cases fault <;> rfl
  cases hf : f x.authContext x.ns s with
  | ok event s' =>
    rw [hf] at happly
    obtain ⟨x', hlog, hheld⟩ := logStorageEvent_ok (F := F) category label event
      { x with storageBackend := some s' }
    refine ⟨.ok () x', ?_, ?_⟩
    · rw [ends_iff, bind_of_ok happly, hlog]
      rfl
    · rw [StorageM.bind_of_ok hf]
      exact congrArg Prod.fst hheld
  | error fault s' =>
    rw [hf] at happly
    rw [StorageM.bind_of_error hf]
    cases fault with
    | error e => exact ⟨.error (.error _) _, bind_of_error happly, rfl⟩
    | panic => exact ⟨.error .panic _, bind_of_error happly, rfl⟩

/-- The executor's part of the operation. -/
def execute [Number F] [StorageBackend S] (amount : F) (reason : Option String) :
    Payment → ExecutorOp F S Unit
  | mint resource account => VMExecution.executeMint resource account (.number amount) reason
  | transfer resource source target =>
    VMExecution.executeTransfer resource source target (.number amount) reason
  | burn resource account => VMExecution.executeBurn resource account (.number amount) reason

theorem executeBasic_op [Number F] [StorageBackend S] (p : Payment) (amount : F)
    (reason : Option String) :
    VM.executeBasic (p.op amount reason) =
      some (VM.onExecutor (p.execute amount reason) : Exec F S Unit) := by
  cases p <;> rfl

theorem settles_execute [Number F] (p : Payment) (amount : F) (reason : Option String)
    {x : VMExecution InMemoryStorage} {s : InMemoryStorage} (hb : x.storageBackend = some s) :
    ∃ r, ends (p.execute amount reason) x r ∧ Settles VMExecution.storageBackend
      ((p.plan s x.authContext x.ns (Number.toU64 amount)).run x.authContext x.ns s) r := by
  cases p with
  | mint resource account =>
    obtain ⟨r, hends, hsettles⟩ := settles_logged (F := F) hb "mint" "economic" "mint"
      fun auth ns => EconomicOperations.mint (x.clock x.reads) auth ns resource account (Number.toU64 amount)
        (reason.getD "No reason provided")
    rw [mint_eq] at hsettles
    exact ⟨r, hends, hsettles⟩
  | transfer resource source target =>
    obtain ⟨r, hends, hsettles⟩ := settles_logged (F := F) hb "transfer" "economic" "transfer"
      fun auth ns => EconomicOperations.transfer (x.clock x.reads) auth ns resource source target
        (Number.toU64 amount) (reason.getD "No reason provided")
    rw [transfer_eq] at hsettles
    exact ⟨r, hends, hsettles⟩
  | burn resource account =>
    obtain ⟨r, hends, hsettles⟩ := settles_logged (F := F) hb "burn" "economic" "burn"
      fun auth ns => EconomicOperations.burn (x.clock x.reads) auth ns resource account
        (Number.toU64 amount) (reason.getD "No reason provided")
    rw [burn_eq] at hsettles
    exact ⟨r, hends, hsettles⟩

end

end Payment

namespace VM

open Payment InMemoryStorage

section
variable {F S : Type} [Number F] [SerdeJson]

/-- What a payment does that is not only simulated. -/
theorem run_payment (p : Payment) (amount : F) (reason : Option String)
    {vm : VM F InMemoryStorage} (hreal : vm.simulationMode = false) :
    ∃ vm₁, vm₁.executor.held = vm.executor.held ∧ run [p.op amount reason] vm =
      (ends (onExecutor (p.execute amount reason)) >>= fun _ => ends recordStackAfter :
        Sem _ (VM F InMemoryStorage) Unit) vm₁ := by
  obtain ⟨vm₁, hrest, hannounce⟩ := announce_apply (p.op amount reason) vm
  rw [hreal, Bool.false_and, if_neg Bool.false_ne_true] at hannounce
  have hkept := congrArg kept hrest
  refine ⟨vm₁, congrArg (fun k => k.2.2) hkept, ?_⟩
  rw [run_cons, run_nil, next_of_basic (executeBasic_op p amount reason), bind_assoc,
    ends_bind_of_ok hannounce, if_neg Bool.false_ne_true]
  simp only [bind_assoc, pure_bind, Flow.andThen, bind_pure_unit]

/-- A payment on the VM settles what its plan says. -/
theorem settles_run (p : Payment) (amount : F) (reason : Option String)
    {vm : VM F InMemoryStorage} (hreal : vm.simulationMode = false) {s : InMemoryStorage}
    (hb : vm.executor.storageBackend = some s) :
    ∃ r, run [p.op amount reason] vm r ∧ Settles (fun vm => vm.executor.storageBackend)
      ((p.plan s vm.executor.authContext vm.executor.ns (Number.toU64 amount)).run
        vm.executor.authContext vm.executor.ns s) r := by
  obtain ⟨vm₁, hheld, hrun⟩ := run_payment p amount reason hreal
  have hbackend : vm₁.executor.storageBackend = some s := (congrArg Prod.fst hheld).trans hb
  obtain ⟨r, hends, hsettles⟩ := settles_execute p amount reason hbackend
  rw [show vm₁.executor.authContext = vm.executor.authContext from congrArg (fun k => k.2.1) hheld,
    show vm₁.executor.ns = vm.executor.ns from congrArg (fun k => k.2.2) hheld] at hsettles
  rw [hrun]
  cases r with
  | ok u x =>
    have hok : onExecutor (p.execute amount reason) vm₁ = .ok () { vm₁ with executor := x } :=
      onExecutor_ok (ends_iff.mp hends)
    obtain ⟨vm₂, hrecord⟩ := recordStackAfter_ok { vm₁ with executor := x }
    have hkept := congrArg (fun k => k.2.2.1) (recordStackAfter_kept.ok hrecord)
    exact ⟨.ok () vm₂, Sem.bind_ok hok hrecord, hsettles.ok_of_eq hkept⟩
  | error e x =>
    have herror : onExecutor (p.execute amount reason) vm₁ =
        .error (.fault e) { vm₁ with executor := x } := by
      unfold onExecutor zoom
      rw [ends_iff.mp hends]
      rfl
    exact ⟨.error e _, Sem.bind_error herror, hsettles.error_of_eq rfl⟩

/-- Without a storage the payment is refused. -/
theorem run_without_storage (p : Payment) (amount : F) (reason : Option String)
    {vm : VM F InMemoryStorage} (hreal : vm.simulationMode = false)
    (hb : vm.executor.storageBackend = none) :
    ∃ e vm', run [p.op amount reason] vm (.error (.error e) vm') ∧
      vm'.executor.storageBackend = none := by
  obtain ⟨vm₁, hheld, hrun⟩ := run_payment p amount reason hreal
  have hnone : vm₁.executor.storageBackend = none := (congrArg Prod.fst hheld).trans hb
  have herror : p.execute amount reason vm₁.executor =
      .error (.fault (.error .storageUnavailable)) vm₁.executor := by
    generalize vm₁.executor = x at hnone
    obtain ⟨backend, auth, ns, output, events, clock, reads, active⟩ := x
    cases hnone
    cases p <;> rfl
  refine ⟨.storageUnavailable, vm₁, ?_, hnone⟩
  rw [hrun]
  refine Sem.bind_error (ends_iff.mpr ?_)
  unfold onExecutor zoom
  rw [herror]
  rfl

/-- A payment that is only simulated. -/
theorem run_simulated_payment (p : Payment) (amount : F) (reason : Option String)
    {vm : VM F InMemoryStorage} (hsim : vm.simulationMode = true) :
    ∃ vm', run [p.op amount reason] vm (.ok () vm') ∧
      vm'.executor.storageBackend = vm.executor.storageBackend := by
  obtain ⟨vm₁, hrest, hannounce⟩ := announce_apply (p.op amount reason) vm
  have hkept := congrArg kept hrest
  obtain ⟨vm₂, hsimulate, hbackend⟩ : ∃ vm₂, simulate (p.op amount reason) vm₁ = .ok () vm₂ ∧
      vm₂.executor.storageBackend = vm₁.executor.storageBackend := by
    cases p <;> exact ⟨_, rfl, rfl⟩
  have hsimulated : isSimulated (p.op amount reason) = true := by
    cases p <;> rfl
  rw [hsim, hsimulated, Bool.true_and, if_pos rfl, bind_of_ok hsimulate] at hannounce
  refine ⟨vm₂, ?_, hbackend.trans (congrArg (fun k => k.2.2.1) hkept)⟩
  rw [run_cons, run_nil, next_of_basic (executeBasic_op p amount reason), bind_assoc,
    ends_bind_of_ok hannounce, if_pos rfl, pure_bind]
  rfl

/-- The balances of the VM's storage. -/
def numberAt (vm : VM F InMemoryStorage) (ns key : String) : Nat :=
  vm.executor.storageBackend.elim 0 fun s => s.numberAt ns key

end

section
variable {fmt : Format}

/-- A payment that ends with an error and no change, or with `Ok` and the exact change. -/
def ExactOrRefused (p : Payment) (amount : Ieee fmt) (vm : VM (Ieee fmt) InMemoryStorage) :
    Outcome (Fault (Ieee fmt)) (VM (Ieee fmt) InMemoryStorage) Unit → Prop
  | .ok _ vm' => p.Made amount vm.executor.ns vm.numberAt vm'.numberAt
  | .error (.error _) vm' => vm'.numberAt = vm.numberAt
  | .error .panic _ => False

variable {p : Payment} {amount : Ieee fmt} {reason : Option String}
  {vm : VM (Ieee fmt) InMemoryStorage}

theorem numberAt_of_some {s : InMemoryStorage} (h : vm.executor.storageBackend = some s) :
    vm.numberAt = s.numberAt := by
  funext ns key
  rw [numberAt, h]
  rfl

theorem exactOrRefused_of_settles {s : InMemoryStorage} (hb : vm.executor.storageBackend = some s)
    {result : EStateM.Result StorageFault InMemoryStorage Unit}
    {r : Outcome (Fault (Ieee fmt)) (VM (Ieee fmt) InMemoryStorage) Unit}
    (h : Settles (fun vm => vm.executor.storageBackend) result r) :
    ExactOrRefused p amount vm r ↔
      p.Exact amount vm.executor.ns s.numberAt (balances result) := by
  rcases result with ⟨u, s'⟩ | ⟨_ | _, s'⟩ <;> rcases r with ⟨u', vm'⟩ | ⟨_ | _, vm'⟩
  · show p.Made amount vm.executor.ns vm.numberAt vm'.numberAt ↔
      p.Made amount vm.executor.ns s.numberAt s'.numberAt
    rw [numberAt_of_some hb, numberAt_of_some h]
  · exact h.elim
  · exact h.elim
  · exact h.elim
  · show vm'.numberAt = vm.numberAt ↔ s'.numberAt = s.numberAt
    rw [numberAt_of_some hb, numberAt_of_some h]
  · exact h.elim
  · exact h.elim
  · exact h.elim
  · exact Iff.rfl

/-- A payment is exact or refused exactly if what it writes is a whole amount that fits, or, where it
is only simulated, if there is nothing to pay. -/
theorem exactOrRefused_iff [SerdeJson] (p : Payment) (amount : Ieee fmt) (reason : Option String)
    (vm : VM (Ieee fmt) InMemoryStorage) :
    (∃ r, run [p.op amount reason] vm r ∧ ExactOrRefused p amount vm r) ↔
      if vm.simulationMode then
        ∃ x, amount.toRat? = some x ∧ ∀ key, (p.sign key : ℚ) * x = 0
      else ∀ s, vm.executor.storageBackend = some s →
        p.Safe s vm.executor.authContext vm.executor.ns amount := by
  cases hmode : vm.simulationMode with
  | true =>
    rw [if_pos rfl]
    obtain ⟨vm', hrun, hbackend⟩ := run_simulated_payment p amount reason hmode
    have hmade : p.Made amount vm.executor.ns vm.numberAt vm'.numberAt ↔
        ∃ x, amount.toRat? = some x ∧ ∀ key, (p.sign key : ℚ) * x = 0 := by
      rw [show vm'.numberAt = vm.numberAt by unfold numberAt; rw [hbackend]]
      refine exists_congr fun x => and_congr_right fun _ => ?_
      simp only [left_eq_add]
      constructor
      · intro h key
        have hkey := h vm.executor.ns key
        rwa [if_pos rfl] at hkey
      · intro h ns key
        by_cases hns : ns = vm.executor.ns
        · rw [if_pos hns]
          exact h key
        · rw [if_neg hns, Int.cast_zero, zero_mul]
    rw [← hmade]
    constructor
    · rintro ⟨r, hrun', h⟩
      cases run_functional _ vm _ _ hrun hrun'
      exact h
    · exact fun h => ⟨_, hrun, h⟩
  | false =>
    rw [if_neg Bool.false_ne_true]
    cases hb : vm.executor.storageBackend with
    | none =>
      obtain ⟨e, vm', hrun, hbackend⟩ := run_without_storage p amount reason hmode hb
      refine iff_of_true ⟨_, hrun, ?_⟩ nofun
      show vm'.numberAt = vm.numberAt
      unfold numberAt
      rw [hbackend, hb]
    | some s =>
      obtain ⟨r, hrun, hsettles⟩ := settles_run p amount reason hmode hb
      have hexact := (exactOrRefused_of_settles hb hsettles).trans (plan_exact_iff p)
      constructor
      · rintro ⟨r', hrun', h⟩ _ ⟨⟩
        cases run_functional _ vm _ _ hrun hrun'
        exact hexact.mp h
      · exact fun h => ⟨r, hrun, hexact.mpr (h s rfl)⟩

end

/-- The administrator's VM over a storage with the resource `token`. -/
def paying : VM Binary64 InMemoryStorage :=
  performing.setStorageBackend InMemoryStorage.tokenStorage

/-- Minting one and a half mints one. -/
theorem not_exactOrRefused :
    ¬ ∀ (p : Payment) (amount : Binary64) (reason : Option String)
      (vm : VM Binary64 InMemoryStorage),
      ∃ r, run [p.op amount reason] vm r ∧ ExactOrRefused p amount vm r := by
  intro h
  obtain ⟨r, hrun, hexact⟩ := h (.mint "token" "alice")
    (Number.div (Number.ofNat 3) (Number.ofNat 2)) none paying
  obtain ⟨vm', hrun', hone⟩ : ∃ vm', run [Payment.op (Number.div (Number.ofNat 3) (Number.ofNat 2))
        none (.mint "token" "alice")] paying (.ok () vm') ∧
      vm'.numberAt "ns" (EconomicOperations.accountKey "token" "alice") = 1 := lim_of_endsIn 2 (by decide +kernel)
  cases run_functional _ paying _ _ hrun hrun'
  obtain ⟨x, hx, hall⟩ := hexact
  have hzero : paying.numberAt "ns" (EconomicOperations.accountKey "token" "alice") = 0 := by
    decide
  have hkey := hall "ns" (EconomicOperations.accountKey "token" "alice")
  rw [hone, hzero, Payment.sign, if_pos rfl, if_pos (show "ns" = paying.executor.ns from rfl)]
    at hkey
  have hx1 : x = 1 := by simpa using hkey.symm
  rw [hx1] at hx
  revert hx
  decide +kernel

end VM

end Covm
