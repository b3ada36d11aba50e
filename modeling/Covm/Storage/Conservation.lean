import Covm.Storage.Tokens

/-!
# Conservation of tokens

Runs of successful mints, transfers and burns of one resource. The sum of all balances after a run
is the sum before it, plus what was minted, minus what was burned, plus the amounts that accounts
transferred to themselves. So tokens are conserved, and every transfer moves its amount, exactly in
the runs in which no account transfers a positive amount to itself.
-/

namespace Covm

open Maps Partial

namespace InMemoryStorage

open EconomicOperations

/-- The balance `get_balance` reports; `0` if the call fails. -/
def balanceOf (s : InMemoryStorage) (reader : Option AuthContext) (ns resource account : String) :
    Nat :=
  match getBalance 0 reader ns resource account s with
  | .ok (balance, _) _ => balance
  | .error _ _ => 0

/-- The sum over all accounts of `get_balance`. -/
noncomputable def supply (s : InMemoryStorage) (reader : Option AuthContext)
    (ns resource : String) : Nat :=
  ∑ᶠ account, s.balanceOf reader ns resource account

/-- Who may read the namespace is shown the balances of a resource that exists. -/
theorem balanceOf_eq {reader : Option AuthContext} {ns resource : String} {s : InMemoryStorage}
    (hread : checkPermission reader "read" ns = .ok ()) (hres : s.hasResource ns resource) :
    s.balanceOf reader ns resource = s.holdings ns resource := by
  funext account
  have hreq : requireResource reader ns resource s = .ok () s := by
    rw [requireResource_eq, if_pos hres]
  have hstored : storedU64 reader ns (accountKey resource account) s =
      .ok (s.numberAt ns (accountKey resource account)) s := by
    obtain hok | ⟨e, herr, -⟩ := storedU64_cases reader ns (accountKey resource account) s
    · exact hok
    · exact nomatch herr.symm.trans hread
  unfold balanceOf getBalance
  simp only [bind, EStateM.bind, hreq, hstored]
  rfl

theorem supply_eq {reader : Option AuthContext} {ns resource : String} {s : InMemoryStorage}
    (hread : checkPermission reader "read" ns = .ok ()) (hres : s.hasResource ns resource) :
    s.supply reader ns resource = ∑ᶠ account, s.holdings ns resource account := by
  unfold supply
  rw [balanceOf_eq hread hres]

/-! ## Calls and runs -/

/-- A call on the tokens of one resource, with the reading of the clock it announces. -/
inductive TokenCall where
  | mint (now : Nat) (auth : Option AuthContext) (account : String) (amount : Nat)
      (reason : String)
  | transfer (now : Nat) (auth : Option AuthContext) (source target : String) (amount : Nat)
      (reason : String)
  | burn (now : Nat) (auth : Option AuthContext) (account : String) (amount : Nat)
      (reason : String)

namespace TokenCall

def perform (ns resource : String) : TokenCall → StorageM InMemoryStorage (Option StorageEvent)
  | mint now auth account amount reason =>
    EconomicOperations.mint now auth ns resource account amount reason
  | transfer now auth source target amount reason =>
    EconomicOperations.transfer now auth ns resource source target amount reason
  | burn now auth account amount reason =>
    EconomicOperations.burn now auth ns resource account amount reason

/-- The storage after the call, if it succeeds. -/
def success (ns resource : String) (c : TokenCall) (s : InMemoryStorage) :
    Option InMemoryStorage :=
  match c.perform ns resource s with
  | .ok _ s' => some s'
  | .error _ _ => none

def minted : TokenCall → Nat
  | mint _ _ _ amount _ => amount
  | _ => 0

def burned : TokenCall → Nat
  | burn _ _ _ amount _ => amount
  | _ => 0

/-- The amount an account transfers to itself. -/
def toItself : TokenCall → Nat
  | transfer _ _ source target amount _ => if source = target then amount else 0
  | _ => 0

/-- A transfer leaves the sum as it is and moves exactly its amount. -/
def MovesExactly (reader : Option AuthContext) (ns resource : String) (s s' : InMemoryStorage) :
    TokenCall → Prop
  | transfer _ _ source target amount _ =>
    s'.supply reader ns resource = s.supply reader ns resource ∧
    ∀ account,
      s'.balanceOf reader ns resource account + (if account = source then amount else 0) =
        s.balanceOf reader ns resource account + (if account = target then amount else 0)
  | _ => True

end TokenCall

/-- The storage after the calls, if all of them succeed. -/
def successAll (ns resource : String) : List TokenCall → InMemoryStorage → Option InMemoryStorage
  | [], s => some s
  | c :: calls, s => (c.success ns resource s).bind (successAll ns resource calls)

/-- Every transfer of the run moves exactly its amount. -/
def TransfersMove (reader : Option AuthContext) (ns resource : String) :
    List TokenCall → InMemoryStorage → Prop
  | [], _ => True
  | c :: calls, s => ∀ s', c.success ns resource s = some s' →
    c.MovesExactly reader ns resource s s' ∧ TransfersMove reader ns resource calls s'

def mintedAll (calls : List TokenCall) : Nat := (calls.map (·.minted)).sum

def burnedAll (calls : List TokenCall) : Nat := (calls.map (·.burned)).sum

/-! ## One call -/

section step
variable {reader : Option AuthContext} {ns resource : String} {s s' : InMemoryStorage}

theorem TokenCall.success_eq_some {c : TokenCall} (h : c.success ns resource s = some s') :
    ∃ event, c.perform ns resource s = .ok event s' := by
  unfold success at h
  cases hc : c.perform ns resource s with
  | ok event s₁ =>
    rw [hc] at h
    cases h
    exact ⟨event, rfl⟩
  | error e s₁ =>
    rw [hc] at h
    exact nomatch h

theorem finsum_holdings_update (s : InMemoryStorage) (ns resource account : String) (n : Nat) :
    ∑ᶠ a, Function.update (s.holdings ns resource) account n a + s.holdings ns resource account =
      ∑ᶠ a, s.holdings ns resource a + n :=
  finsum_update_add (s.holdings_support_finite ns resource) account n

/-- The sum after the two writes of a transfer. -/
theorem finsum_holdings_transfer {source : String} {amount : Nat}
    (hle : amount ≤ s.holdings ns resource source) (target : String) :
    ∑ᶠ a, Function.update
        (Function.update (s.holdings ns resource) source (s.holdings ns resource source - amount))
        target (s.holdings ns resource target + amount) a =
      ∑ᶠ a, s.holdings ns resource a + (if source = target then amount else 0) := by
  by_cases hst : source = target
  · -- the write to the target replaces the one to the source
    subst hst
    rw [Function.update_idem, if_pos rfl]
    have hsum := finsum_holdings_update s ns resource source
      (s.holdings ns resource source + amount)
    omega
  · rw [if_neg hst]
    have hsource := finsum_holdings_update s ns resource source
      (s.holdings ns resource source - amount)
    have htarget := finsum_update_add
      (support_update_finite (s.holdings_support_finite ns resource) source
        (s.holdings ns resource source - amount)) target (s.holdings ns resource target + amount)
    rw [Function.update_of_ne (Ne.symm hst)] at htarget
    omega

/-- What a successful call does to the sum of the balances. -/
theorem supply_success {c : TokenCall} (hread : checkPermission reader "read" ns = .ok ())
    (h : c.success ns resource s = some s') :
    s'.supply reader ns resource + c.burned =
      s.supply reader ns resource + c.minted + c.toItself := by
  obtain ⟨event, hc⟩ := TokenCall.success_eq_some h
  cases c with
  | mint now auth account amount reason =>
    have hb := mint_ok hc
    have hsum := finsum_holdings_update s ns resource account
      (s.holdings ns resource account + amount)
    rw [supply_eq hread hb.hasResource, supply_eq hread hb.hadResource, hb.holdings]
    simp only [TokenCall.minted, TokenCall.burned, TokenCall.toItself]
    omega
  | transfer now auth source target amount reason =>
    obtain ⟨hle, hb⟩ := transfer_ok hc
    rw [supply_eq hread hb.hasResource, supply_eq hread hb.hadResource, hb.holdings,
      finsum_holdings_transfer hle]
    simp only [TokenCall.minted, TokenCall.burned, TokenCall.toItself]
    omega
  | burn now auth account amount reason =>
    obtain ⟨hle, hb⟩ := burn_ok hc
    have hsum := finsum_holdings_update s ns resource account
      (s.holdings ns resource account - amount)
    rw [supply_eq hread hb.hasResource, supply_eq hread hb.hadResource, hb.holdings]
    simp only [TokenCall.minted, TokenCall.burned, TokenCall.toItself]
    omega

/-- A transfer moves its amount, unless an account transfers to itself. -/
theorem movesExactly_iff {c : TokenCall} (hread : checkPermission reader "read" ns = .ok ())
    (h : c.success ns resource s = some s') :
    c.MovesExactly reader ns resource s s' ↔ c.toItself = 0 := by
  have hsupply := supply_success hread h
  obtain ⟨event, hc⟩ := TokenCall.success_eq_some h
  cases c with
  | mint now auth account amount reason => exact iff_of_true trivial rfl
  | burn now auth account amount reason => exact iff_of_true trivial rfl
  | transfer now auth source target amount reason =>
    obtain ⟨hle, hb⟩ := transfer_ok hc
    simp only [TokenCall.minted, TokenCall.burned, TokenCall.toItself] at hsupply ⊢
    unfold TokenCall.MovesExactly
    constructor
    · intro hmoves
      have hsame := hmoves.1
      omega
    · intro hself
      refine ⟨by omega, ?_⟩
      intro account
      rw [balanceOf_eq hread hb.hasResource, balanceOf_eq hread hb.hadResource, hb.holdings]
      by_cases hst : source = target
      · rw [if_pos hst] at hself
        subst hst hself
        by_cases ha : account = source
        · subst ha
          simp
        · simp [ha]
      · by_cases ht : account = target
        · subst ht
          rw [Function.update_self, if_neg (Ne.symm hst), if_pos rfl]
          omega
        · rw [Function.update_of_ne ht, if_neg ht]
          by_cases hs : account = source
          · subst hs
            rw [Function.update_self, if_pos rfl]
            omega
          · rw [Function.update_of_ne hs, if_neg hs]

end step

/-! ## Runs -/

section run
variable {reader : Option AuthContext} {ns resource : String}

/-- The amounts that accounts transfer to themselves in a run. -/
def toItselfAll (calls : List TokenCall) : Nat := (calls.map (·.toItself)).sum

theorem successAll_cons {c : TokenCall} {calls : List TokenCall} {s s' : InMemoryStorage}
    (h : successAll ns resource (c :: calls) s = some s') :
    ∃ s₁, c.success ns resource s = some s₁ ∧ successAll ns resource calls s₁ = some s' :=
  Option.bind_eq_some_iff.mp h

theorem supply_successAll (hread : checkPermission reader "read" ns = .ok ())
    {calls : List TokenCall} {s s' : InMemoryStorage}
    (h : successAll ns resource calls s = some s') :
    s'.supply reader ns resource + burnedAll calls =
      s.supply reader ns resource + mintedAll calls + toItselfAll calls := by
  induction calls generalizing s with
  | nil =>
    cases h
    rfl
  | cons c calls ih =>
    obtain ⟨s₁, hc, hrest⟩ := successAll_cons h
    have hstep := supply_success hread hc
    have hih := ih hrest
    simp only [burnedAll, mintedAll, toItselfAll, List.map_cons, List.sum_cons] at hih ⊢
    omega

theorem transfersMove_iff (hread : checkPermission reader "read" ns = .ok ())
    {calls : List TokenCall} {s s' : InMemoryStorage}
    (h : successAll ns resource calls s = some s') :
    TransfersMove reader ns resource calls s ↔ toItselfAll calls = 0 := by
  induction calls generalizing s with
  | nil => exact iff_of_true trivial rfl
  | cons c calls ih =>
    obtain ⟨s₁, hc, hrest⟩ := successAll_cons h
    have hstep := movesExactly_iff hread hc
    have hih := ih hrest
    have hsum : toItselfAll (c :: calls) = 0 ↔ c.toItself = 0 ∧ toItselfAll calls = 0 := by
      simp [toItselfAll]
    rw [hsum, ← hstep, ← hih]
    constructor
    · intro hall
      exact hall s₁ hc
    · intro hboth s₂ hc'
      obtain rfl : s₁ = s₂ := Option.some.inj (hc.symm.trans hc')
      exact hboth

theorem toItselfAll_eq_zero {calls : List TokenCall} :
    toItselfAll calls = 0 ↔ ∀ now auth source target amount reason,
      TokenCall.transfer now auth source target amount reason ∈ calls →
        source ≠ target ∨ amount = 0 := by
  unfold toItselfAll
  rw [List.sum_eq_zero_iff]
  constructor
  · intro h now auth source target amount reason hmem
    have hself := h _ (List.mem_map_of_mem hmem)
    by_cases hst : source = target
    · right
      simpa [TokenCall.toItself, hst] using hself
    · exact .inl hst
  · intro h n hn
    obtain ⟨c, hc, rfl⟩ := List.mem_map.mp hn
    cases c with
    | mint => rfl
    | burn => rfl
    | transfer now auth source target amount reason =>
      show (if source = target then amount else 0) = 0
      rcases h now auth source target amount reason hc with hst | rfl
      · rw [if_neg hst]
      · rw [ite_self]

/-- Tokens are conserved and transfers move exactly their amounts, if and only if no account
transfers a positive amount to itself. -/
theorem conservation_iff (hread : checkPermission reader "read" ns = .ok ())
    {calls : List TokenCall} {s s' : InMemoryStorage}
    (h : successAll ns resource calls s = some s') :
    (s'.supply reader ns resource + burnedAll calls =
        s.supply reader ns resource + mintedAll calls ∧
      TransfersMove reader ns resource calls s) ↔
    ∀ now auth source target amount reason,
      TokenCall.transfer now auth source target amount reason ∈ calls →
        source ≠ target ∨ amount = 0 := by
  have hsupply := supply_successAll hread h
  rw [← toItselfAll_eq_zero, transfersMove_iff hread h]
  omega

end run

/-- An administrator's storage with one resource. -/
def tokenStorage : InMemoryStorage :=
  final (createResource (some admin) "ns" "token" adminStorage)

def mintAndTransfer (target : String) : List TokenCall :=
  [.mint 0 (some admin) "alice" 100 "", .transfer 0 (some admin) "alice" target 40 ""]

theorem conservation_mintAndTransfer :
    ∃ s', successAll "ns" "token" (mintAndTransfer "bob") tokenStorage = some s' ∧
      s'.supply (some admin) "ns" "token" + burnedAll (mintAndTransfer "bob") =
        tokenStorage.supply (some admin) "ns" "token" + mintedAll (mintAndTransfer "bob") := by
  have hsome : (successAll "ns" "token" (mintAndTransfer "bob") tokenStorage).isSome := by
    decide
  obtain ⟨s', hs'⟩ := Option.isSome_iff_exists.mp hsome
  refine ⟨s', hs', ((conservation_iff ?_ hs').mpr ?_).1⟩
  · rfl
  · intro now auth source target amount reason hmem
    simp only [mintAndTransfer, List.mem_cons, List.not_mem_nil, reduceCtorEq, false_or, or_false,
      TokenCall.transfer.injEq] at hmem
    obtain ⟨-, -, rfl, rfl, -, -⟩ := hmem
    exact .inl (by decide)

/-- An account that transfers 40 of its 100 tokens to itself has 140. -/
theorem not_conservation :
    ¬ ∀ (reader : Option AuthContext) (ns resource : String) (calls : List TokenCall)
        (s s' : InMemoryStorage),
      checkPermission reader "read" ns = .ok () → successAll ns resource calls s = some s' →
      s'.supply reader ns resource + burnedAll calls =
          s.supply reader ns resource + mintedAll calls ∧
        TransfersMove reader ns resource calls s := by
  intro h
  have hsome : (successAll "ns" "token" (mintAndTransfer "alice") tokenStorage).isSome := by
    decide
  obtain ⟨s', hs'⟩ := Option.isSome_iff_exists.mp hsome
  have hclaim := (h (some admin) "ns" "token" (mintAndTransfer "alice") tokenStorage s' rfl hs').1
  have hreal := supply_successAll (admin_permitted "read" "ns") hs'
  have hself : toItselfAll (mintAndTransfer "alice") = 40 := by decide
  omega

end InMemoryStorage

end Covm
