import Covm.Storage.Calls

/-!
# Token balances on the in-memory backend

The balances of a resource are decimal numbers under one key per account. A successful mint, burn or
transfer rewrites the balances it names and no others. The sum over all accounts moves with what is
minted and burned, except that a transfer of an account to itself adds its amount: both new
balances are computed from the old ones, and the second write wins.
-/

namespace Covm

open Maps Partial

/-! ## Numbers as text -/

theorem fromUTF8_toUTF8 (s : String) : String.fromUTF8? s.toUTF8 = some s := by
  simp only [String.fromUTF8?, String.toUTF8_eq_toByteArray, dif_pos s.isValidUTF8]
  rfl

/-- A decimal numeral starts with a digit, not with a sign. -/
theorem toDigits_head (n : Nat) : ∃ c cs, Nat.toDigits 10 n = c :: cs ∧ c ≠ '+' := by
  cases h : Nat.toDigits 10 n with
  | nil => exact absurd h Nat.toDigits_ne_nil
  | cons c cs =>
    refine ⟨c, cs, rfl, ?_⟩
    rintro rfl
    have hdigit := Nat.isDigit_of_mem_toDigits (b := 10) (n := n) (c := '+') (by decide)
      (by decide) (by rw [h]; exact List.mem_cons_self)
    exact absurd hdigit (by decide)

theorem parseU64_toString {n : Nat} (h : n < 2 ^ 64) : parseU64 (toString n) = some n := by
  obtain ⟨c, cs, hdigits, hc⟩ := toDigits_head n
  have hlist : (toString n).toList = Nat.toDigits 10 n := Nat.toList_repr
  have hall : (Nat.toDigits 10 n).all Char.isDigit := by
    rw [List.all_eq_true]
    intro d hd
    exact Nat.isDigit_of_mem_toDigits (by decide) (by decide) hd
  have hvalue : (Nat.toDigits 10 n).foldl (fun n c => 10 * n + (c.toNat - '0'.toNat)) 0 = n :=
    Nat.ofDigitChars_ten_toDigits
  unfold parseU64
  rw [hlist]
  split
  · next heq => rw [hdigits] at heq; exact absurd (List.cons.inj heq).1 hc
  · rw [if_pos ⟨Nat.toDigits_ne_nil, hall⟩, hvalue, if_pos h]

namespace InMemoryStorage

open EconomicOperations

/-- The number kept under a key, as `storedU64` reads it. -/
def numberAt (s : InMemoryStorage) (ns key : String) : Nat :=
  (s.data.get (ns, key)).elim 0 fun bytes =>
    match String.fromUTF8? bytes with
    | some text => (parseU64 text).getD 0
    | none => 0

theorem parseU64_lt {text : String} {n : Nat} (h : parseU64 text = some n) : n < 2 ^ 64 := by
  unfold parseU64 at h
  grind

theorem numberAt_lt (s : InMemoryStorage) (ns key : String) : s.numberAt ns key < 2 ^ 64 := by
  unfold numberAt
  cases s.data.get (ns, key) with
  | none => decide
  | some bytes =>
    dsimp only [Option.elim]
    cases String.fromUTF8? bytes with
    | none => decide
    | some text =>
      dsimp only
      cases hn : parseU64 text with
      | none => decide
      | some n => exact parseU64_lt hn

/-- A balance is read without changing anything, if its key may be read. -/
theorem storedU64_cases (auth : Option AuthContext) (ns key : String) (s : InMemoryStorage) :
    storedU64 auth ns key s = .ok (s.numberAt ns key) s ∨
    ∃ e, checkPermission auth "read" ns = .error e ∧
      storedU64 auth ns key s = .error (.error e) s := by
  unfold storedU64 numberAt
  simp only [bind, EStateM.bind, StorageM.query, RecordingBackend.contains, RecordingBackend.get,
    StorageBackend.contains, InMemoryStorage.contains, StorageBackend.get]
  cases hget : s.data.get (ns, key) with
  | none => exact .inl rfl
  | some bytes =>
    cases hperm : checkPermission auth "read" ns with
    | error e =>
      right
      refine ⟨e, rfl, ?_⟩
      simp only [Option.isSome_some, if_true, EStateM.bind, StorageM.query, InMemoryStorage.get,
        hperm, bind, Except.bind]
    | ok u =>
      left
      simp only [Option.isSome_some, if_true, EStateM.bind, StorageM.query, InMemoryStorage.get,
        hperm, bind, Except.bind, hget, Option.elim]
      cases String.fromUTF8? bytes <;> rfl

theorem storedU64_ok {auth : Option AuthContext} {ns key : String} {s s' : InMemoryStorage}
    {n : Nat} (h : storedU64 auth ns key s = .ok n s') : s.numberAt ns key = n ∧ s = s' := by
  obtain hok | ⟨e, -, herr⟩ := storedU64_cases auth ns key s
  · rw [hok] at h
    cases h
    exact ⟨rfl, rfl⟩
  · rw [herr] at h
    exact nomatch h

/-- The resource has been created. -/
def hasResource (s : InMemoryStorage) (ns resource : String) : Bool :=
  (s.data.get (ns, s!"resources/{resource}/metadata")).isSome

theorem requireResource_eq (auth : Option AuthContext) (ns resource : String)
    (s : InMemoryStorage) :
    requireResource auth ns resource s =
      if s.hasResource ns resource then .ok () s
      else .error (.error (.resourceNotFound resource)) s := by
  unfold requireResource hasResource
  simp only [bind, EStateM.bind, StorageM.query, StorageBackend.contains,
    InMemoryStorage.contains]
  cases (s.data.get (ns, s!"resources/{resource}/metadata")).isSome <;> rfl

theorem setU64_ok {auth : Option AuthContext} {ns key : String} {n : Nat}
    {s s' : InMemoryStorage} (h : setU64 auth ns key n s = .ok () s') :
    s'.data.get = Function.update s.data.get (ns, key) (some (toString n).toUTF8) := by
  obtain ⟨e, -, herr⟩ | ⟨e, -, herr⟩ | ⟨a, s₁, -, hok, hs₁⟩ :=
    set_cases auth ns key (toString n).toUTF8 s
  · exact nomatch herr.symm.trans h
  · exact nomatch herr.symm.trans h
  · cases hok.symm.trans h
    exact hs₁.data

/-! ## Balances -/

theorem accountKey_injective (resource : String) : Function.Injective (accountKey resource) := by
  intro a b h
  change "resources/" ++ resource ++ "/accounts/" ++ a =
    "resources/" ++ resource ++ "/accounts/" ++ b at h
  exact (String.append_right_inj _).mp h

theorem accountKey_ne_metadata (resource account : String) :
    s!"resources/{resource}/metadata" ≠ accountKey resource account := by
  intro h
  change "resources/" ++ resource ++ "/metadata" =
    "resources/" ++ resource ++ "/accounts/" ++ account at h
  have h' : "resources/" ++ resource ++ "/metadata" =
      "resources/" ++ resource ++ ("/accounts/" ++ account) := h.trans String.append_assoc
  have htail := congrArg String.toList ((String.append_right_inj _).mp h')
  rw [String.toList_append] at htail
  exact absurd (congrArg (·[1]?) htail) (by simp)

/-- The balances of a resource, by account. -/
def holdings (s : InMemoryStorage) (ns resource account : String) : Nat :=
  s.numberAt ns (accountKey resource account)

theorem holdings_support_finite (s : InMemoryStorage) (ns resource : String) :
    (s.holdings ns resource).support.Finite := by
  have hinj : Function.Injective fun account => (ns, accountKey resource account) := by
    intro a b h
    exact accountKey_injective resource (congrArg Prod.snd h)
  refine (s.data.keys.finite_toSet.preimage hinj.injOn).subset ?_
  intro account h
  rw [Set.mem_preimage, Finset.mem_coe, Table.mem_keys]
  intro hnone
  apply h
  unfold holdings numberAt
  rw [hnone]
  rfl

/-- Writing a balance changes it and nothing else of the resource. -/
theorem setU64_holdings {auth : Option AuthContext} {ns resource account : String} {n : Nat}
    {s s' : InMemoryStorage} (h : setU64 auth ns (accountKey resource account) n s = .ok () s')
    (hn : n < 2 ^ 64) :
    s'.holdings ns resource = Function.update (s.holdings ns resource) account n ∧
      s'.hasResource ns resource = s.hasResource ns resource := by
  have hdata := setU64_ok h
  refine ⟨?_, ?_⟩
  · funext a
    unfold holdings numberAt
    rw [hdata]
    by_cases ha : a = account
    · subst ha
      rw [Function.update_self, Function.update_self]
      show (match String.fromUTF8? (toString n).toUTF8 with
        | some text => (parseU64 text).getD 0
        | none => 0) = n
      rw [fromUTF8_toUTF8]
      dsimp only
      rw [parseU64_toString hn]
      rfl
    · have hkey : (ns, accountKey resource a) ≠ (ns, accountKey resource account) := fun hk =>
        ha (accountKey_injective resource (congrArg Prod.snd hk))
      rw [Function.update_of_ne hkey, Function.update_of_ne ha]
  · have hkey : (ns, s!"resources/{resource}/metadata") ≠ (ns, accountKey resource account) :=
      fun hk => accountKey_ne_metadata resource account (congrArg Prod.snd hk)
    unfold hasResource
    rw [hdata, Function.update_of_ne hkey]

/-! ## Successful calls -/

theorem bind_eq_ok {α β : Type} {x : StorageM InMemoryStorage α}
    {f : α → StorageM InMemoryStorage β} {s s' : InMemoryStorage} {b : β}
    (h : (x >>= f) s = .ok b s') : ∃ a s₁, x s = .ok a s₁ ∧ f a s₁ = .ok b s' := by
  change EStateM.bind x f s = _ at h
  unfold EStateM.bind at h
  cases hx : x s with
  | ok a s₁ =>
    rw [hx] at h
    exact ⟨a, s₁, rfl, h⟩
  | error e s₁ =>
    rw [hx] at h
    exact nomatch h

theorem requireResource_ok {auth : Option AuthContext} {ns resource : String}
    {s s' : InMemoryStorage} (h : requireResource auth ns resource s = .ok () s') :
    s.hasResource ns resource ∧ s = s' := by
  rw [requireResource_eq] at h
  split at h
  · next hres =>
    cases h
    exact ⟨hres, rfl⟩
  · exact nomatch h

theorem addU64_ok {a b n : Nat} {s s' : InMemoryStorage}
    (h : StorageM.addU64 a b s = .ok n s') : a + b = n ∧ a + b < 2 ^ 64 ∧ s = s' := by
  unfold StorageM.addU64 at h
  split at h
  · next hlt =>
    cases h
    exact ⟨rfl, hlt, rfl⟩
  · exact nomatch h

theorem unless_fail_ok {α : Type} {c : Prop} [Decidable c] {e : StorageError}
    {f : Unit → StorageM InMemoryStorage α} {s s' : InMemoryStorage} {a : α}
    (h : (if c then StorageM.fail e >>= f else f ()) s = .ok a s') : ¬ c ∧ f () s = .ok a s' := by
  by_cases hc : c
  · rw [if_pos hc] at h
    exact nomatch h
  · rw [if_neg hc] at h
    exact ⟨hc, h⟩

/-- The resource is still there and its balances are the given ones. -/
structure Balances (ns resource : String) (balances : String → Nat) (s s' : InMemoryStorage) :
    Prop where
  hadResource : s.hasResource ns resource
  hasResource : s'.hasResource ns resource
  holdings : s'.holdings ns resource = balances

section calls
variable {now amount : Nat} {auth : Option AuthContext} {ns resource reason : String}
  {event : Option StorageEvent} {s s' : InMemoryStorage}

theorem mint_ok {account : String}
    (h : mint now auth ns resource account amount reason s = .ok event s') :
    Balances ns resource (Function.update (s.holdings ns resource) account
      (s.holdings ns resource account + amount)) s s' := by
  unfold mint at h
  obtain ⟨_, _, hreq, h₁⟩ := bind_eq_ok h
  obtain ⟨hres, rfl⟩ := requireResource_ok hreq
  obtain ⟨_, _, hread, h₂⟩ := bind_eq_ok h₁
  obtain ⟨rfl, rfl⟩ := storedU64_ok hread
  obtain ⟨_, _, hadd, h₃⟩ := bind_eq_ok h₂
  obtain ⟨rfl, hlt, rfl⟩ := addU64_ok hadd
  obtain ⟨_, _, hset, h₄⟩ := bind_eq_ok h₃
  obtain ⟨hhold, hres'⟩ := setU64_holdings hset hlt
  cases h₄
  exact ⟨hres, hres'.trans hres, hhold⟩

theorem burn_ok {account : String}
    (h : burn now auth ns resource account amount reason s = .ok event s') :
    amount ≤ s.holdings ns resource account ∧
    Balances ns resource (Function.update (s.holdings ns resource) account
      (s.holdings ns resource account - amount)) s s' := by
  unfold burn at h
  obtain ⟨_, _, hreq, h₁⟩ := bind_eq_ok h
  obtain ⟨hres, rfl⟩ := requireResource_ok hreq
  obtain ⟨_, _, hread, h₂⟩ := bind_eq_ok h₁
  obtain ⟨rfl, rfl⟩ := storedU64_ok hread
  obtain ⟨hle, h₃⟩ := unless_fail_ok h₂
  obtain ⟨_, _, hset, h₄⟩ := bind_eq_ok h₃
  have hlt := numberAt_lt s ns (accountKey resource account)
  obtain ⟨hhold, hres'⟩ := setU64_holdings hset (lt_of_le_of_lt (Nat.sub_le _ _) hlt)
  cases h₄
  exact ⟨Nat.not_lt.mp hle, hres, hres'.trans hres, hhold⟩

/-- Both balances are computed before either is written. -/
theorem transfer_ok {source target : String}
    (h : transfer now auth ns resource source target amount reason s = .ok event s') :
    amount ≤ s.holdings ns resource source ∧
    Balances ns resource
      (Function.update
        (Function.update (s.holdings ns resource) source (s.holdings ns resource source - amount))
        target (s.holdings ns resource target + amount)) s s' := by
  unfold transfer at h
  obtain ⟨_, _, hreq, h₁⟩ := bind_eq_ok h
  obtain ⟨hres, rfl⟩ := requireResource_ok hreq
  obtain ⟨_, _, hread, h₂⟩ := bind_eq_ok h₁
  obtain ⟨rfl, rfl⟩ := storedU64_ok hread
  obtain ⟨hle, h₃⟩ := unless_fail_ok h₂
  obtain ⟨_, _, hreadTo, h₄⟩ := bind_eq_ok h₃
  obtain ⟨rfl, rfl⟩ := storedU64_ok hreadTo
  obtain ⟨_, _, hadd, h₅⟩ := bind_eq_ok h₄
  obtain ⟨rfl, hlt, rfl⟩ := addU64_ok hadd
  obtain ⟨_, s₁, hsetFrom, h₆⟩ := bind_eq_ok h₅
  obtain ⟨_, s₂, hsetTo, h₇⟩ := bind_eq_ok h₆
  have hfrom := numberAt_lt s ns (accountKey resource source)
  obtain ⟨hhold, hres₁⟩ := setU64_holdings hsetFrom (lt_of_le_of_lt (Nat.sub_le _ _) hfrom)
  obtain ⟨hhold', hres₂⟩ := setU64_holdings hsetTo hlt
  cases h₇
  refine ⟨Nat.not_lt.mp hle, hres, (hres₂.trans hres₁).trans hres, ?_⟩
  rw [hhold', hhold]
  rfl

end calls

end InMemoryStorage

end Covm
