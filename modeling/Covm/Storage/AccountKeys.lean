import Covm.Storage.Economics

/-!
# Which accounts share a key

The balance of an account is kept under `resources/{resource}/accounts/{account}`, next to the
metadata `resources/{resource}/metadata`. Names may contain slashes, so that other names may give
the same key; a call changes what is reported for them.
-/

namespace Covm

open Maps Partial

/-- The calls that write to resources. -/
inductive EconomicCall where
  | createResource (resource : String)
  | mint (resource account : String) (amount : UInt64)
  | transfer (resource source target : String) (amount : UInt64)
  | burn (resource account : String) (amount : UInt64)

namespace InMemoryStorage

open EconomicOperations

def metadataKey (resource : String) : String := s!"resources/{resource}/metadata"

/-- What `get_balance` answers, if it succeeds. -/
def reportedBalance (s : InMemoryStorage) (now : Nat) (reader : Option AuthContext)
    (ns resource account : String) : Option Nat :=
  match getBalance now reader ns resource account s with
  | .ok (balance, _) _ => some balance
  | .error _ _ => none

end InMemoryStorage

namespace EconomicCall

open InMemoryStorage EconomicOperations

def perform (now : Nat) (auth : Option AuthContext) (ns reason : String) :
    EconomicCall → StorageM InMemoryStorage Unit
  | .createResource resource => EconomicOperations.createResource auth ns resource
  | .mint resource account amount =>
    EconomicOperations.mint now auth ns resource account amount.toNat reason >>= fun _ => pure ()
  | .transfer resource source target amount =>
    EconomicOperations.transfer now auth ns resource source target amount.toNat reason >>=
      fun _ => pure ()
  | .burn resource account amount =>
    EconomicOperations.burn now auth ns resource account amount.toNat reason >>= fun _ => pure ()

/-- The accounts a call names, with their resource. -/
def accounts : EconomicCall → List (String × String)
  | .createResource _ => []
  | .mint resource account _ => [(resource, account)]
  | .transfer resource source target _ => [(resource, source), (resource, target)]
  | .burn resource account _ => [(resource, account)]

/-- The keys a call writes. -/
def keys : EconomicCall → List String
  | .createResource resource => [metadataKey resource]
  | .mint resource account _ => [accountKey resource account]
  | .transfer resource source target _ =>
    [accountKey resource source, accountKey resource target]
  | .burn resource account _ => [accountKey resource account]

/-- A transfer of an account to itself of so much that the balance of the target, which is that of
the source, overflows. -/
def NeverWrites : EconomicCall → Prop
  | .transfer _ source target amount => source = target ∧ 2 ^ 63 ≤ amount.toNat
  | _ => False

/-- Whatever the store, the caller and the reader: a balance that is reported before the call, of an
account the call does not name, is reported after it. -/
def Independent (c : EconomicCall) : Prop :=
  ∀ (s : InMemoryStorage) (now now' : Nat) (auth reader : Option AuthContext)
    (ns ns' reason resource account : String) (n : Nat),
    ¬ (ns' = ns ∧ (resource, account) ∈ c.accounts) →
    s.reportedBalance now' reader ns' resource account = some n →
      (final (c.perform now auth ns reason s)).reportedBalance now' reader ns' resource account =
        some n

end EconomicCall

namespace InMemoryStorage

open EconomicOperations

theorem reportedBalance_eq (s : InMemoryStorage) (now : Nat) (reader : Option AuthContext)
    (ns resource account : String) : s.reportedBalance now reader ns resource account =
      if s.hasResource ns resource then
        (s.readU64 reader ns (accountKey resource account)).toOption
      else none := by
  unfold reportedBalance getBalance
  rw [requireResource_bind]
  by_cases hres : s.hasResource ns resource
  · rw [if_pos hres, if_pos hres, storedU64_bind]
    cases s.readU64 reader ns (accountKey resource account) with
    | ok n => rfl
    | error e => rfl
  · rw [if_neg hres, if_neg hres]

/-! ### What a call leaves alone -/

/-- The keys in a namespace that are not in the list hold what they held, and every key that was
there still is. -/
structure Frame (ns : String) (keys : List String) (s s' : InMemoryStorage) : Prop where
  same : ∀ ns' key, ¬ (ns' = ns ∧ key ∈ keys) → s'.data.get (ns', key) = s.data.get (ns', key)
  present : ∀ ns' key, s.data.get (ns', key) ≠ none → s'.data.get (ns', key) ≠ none

theorem Frame.of_data_eq {ns : String} {keys : List String} {s s' : InMemoryStorage}
    (h : s'.data = s.data) : Frame ns keys s s' :=
  ⟨fun _ _ _ => by rw [h], fun _ _ hkey => by rwa [h]⟩

theorem set_frame {ns key : String} {keys : List String} (hkey : key ∈ keys)
    (auth : Option AuthContext) (value : ByteArray) (s₀ : InMemoryStorage) :
    Keeps (Frame ns keys s₀)
      (StorageBackend.set auth ns key value : StorageM InMemoryStorage Unit) := by
  intro s h
  show Frame ns keys s₀ (final (set auth ns key value s))
  obtain ⟨-, s', hok, hdata⟩ | ⟨-, e, s', herror, hdata⟩ := set_data auth ns key value s
  · rw [hok, final_ok]
    refine ⟨fun ns' key' hout => ?_, fun ns' key' hthere => ?_⟩
    · have hne : (ns', key') ≠ (ns, key) := by
        intro heq
        obtain ⟨rfl, rfl⟩ := Prod.mk.inj heq
        exact hout ⟨rfl, hkey⟩
      rw [hdata, Function.update_of_ne hne, h.same ns' key' hout]
    · rw [hdata]
      by_cases heq : (ns', key') = (ns, key)
      · rw [heq, Function.update_self]
        exact Option.some_ne_none _
      · rw [Function.update_of_ne heq]
        exact h.present ns' key' hthere
  · rw [herror, final_error]
    exact ⟨fun ns' key' hout => by rw [hdata, h.same ns' key' hout],
      fun ns' key' hthere => by rw [hdata]; exact h.present ns' key' hthere⟩

theorem Plan.run_frame {plan : Plan} {keys : List String}
    (h : ∀ balances, plan = .write balances → ∀ b ∈ balances, b.1 ∈ keys)
    (auth : Option AuthContext) (ns : String) (s₀ : InMemoryStorage) :
    Keeps (Frame ns keys s₀) (plan.run auth ns) := by
  cases plan with
  | refuse e => exact StorageM.fail_keeps e
  | overflow => exact .of_final_eq fun _ => rfl
  | write balances =>
    have hkeys := h balances rfl
    clear h
    show Keeps _ (balances.forM fun b => setU64 auth ns b.1 b.2)
    induction balances with
    | nil => exact .pure _
    | cons b balances ih =>
      refine (set_frame (hkeys b List.mem_cons_self) auth _ s₀).bind fun _ => ?_
      exact ih fun b' hb' => hkeys b' (List.mem_cons_of_mem _ hb')

/-- A balance kept under another key is reported as before. -/
theorem Frame.reportedBalance {ns : String} {keys : List String} {s s' : InMemoryStorage}
    (h : Frame ns keys s s') {now : Nat} {reader : Option AuthContext}
    {ns' resource account : String} {n : Nat}
    (hout : ¬ (ns' = ns ∧ accountKey resource account ∈ keys))
    (hbefore : s.reportedBalance now reader ns' resource account = some n) :
    s'.reportedBalance now reader ns' resource account = some n := by
  rw [reportedBalance_eq] at hbefore ⊢
  have hread : s'.readU64 reader ns' (accountKey resource account) =
      s.readU64 reader ns' (accountKey resource account) := by
    unfold readU64 numberAt
    rw [h.same ns' _ hout]
  by_cases hres : s.hasResource ns' resource
  · have hres' : s'.hasResource ns' resource := by
      unfold hasResource at hres ⊢
      rw [Option.isSome_iff_ne_none] at hres ⊢
      exact h.present _ _ hres
    rw [if_pos hres] at hbefore
    rw [if_pos hres', hread]
    exact hbefore
  · rw [if_neg hres] at hbefore
    cases hbefore

/-! ### The keys of a plan -/

section plans
variable {s : InMemoryStorage} {auth : Option AuthContext} {ns resource : String}

theorem write_of_readThen {key : String} {next : Nat → Plan} {balances : List (String × Nat)}
    (h : s.readThen auth ns key next = .write balances) :
    ∃ n, s.readU64 auth ns key = .ok n ∧ next n = .write balances := by
  unfold readThen at h
  cases hread : s.readU64 auth ns key with
  | error e =>
    rw [hread] at h
    cases h
  | ok n =>
    rw [hread] at h
    exact ⟨n, rfl, h⟩

theorem write_of_mintPlan {account : String} {amount : Nat} {balances : List (String × Nat)}
    (h : s.mintPlan auth ns resource account amount = .write balances) :
    ∀ b ∈ balances, b.1 ∈ [accountKey resource account] := by
  unfold mintPlan at h
  split_ifs at h
  obtain ⟨n, -, h⟩ := write_of_readThen h
  split_ifs at h
  obtain rfl := Plan.write.inj h
  simp

theorem write_of_burnPlan {account : String} {amount : Nat} {balances : List (String × Nat)}
    (h : s.burnPlan auth ns resource account amount = .write balances) :
    ∀ b ∈ balances, b.1 ∈ [accountKey resource account] := by
  unfold burnPlan at h
  split_ifs at h
  obtain ⟨n, -, h⟩ := write_of_readThen h
  split_ifs at h
  obtain rfl := Plan.write.inj h
  simp

/-- A transfer that gets to write has read what both accounts hold. -/
theorem write_of_transferPlan {source target : String} {amount : Nat}
    {balances : List (String × Nat)}
    (h : s.transferPlan auth ns resource source target amount = .write balances) :
    ∃ fromBalance toBalance, s.readU64 auth ns (accountKey resource source) = .ok fromBalance ∧
      s.readU64 auth ns (accountKey resource target) = .ok toBalance ∧
      amount ≤ fromBalance ∧ toBalance + amount < 2 ^ 64 ∧
      balances = [(accountKey resource source, fromBalance - amount),
        (accountKey resource target, toBalance + amount)] := by
  unfold transferPlan at h
  split_ifs at h
  obtain ⟨fromBalance, hfrom, h⟩ := write_of_readThen h
  split_ifs at h with hless
  obtain ⟨toBalance, hto, h⟩ := write_of_readThen h
  split_ifs at h with hfits
  exact ⟨fromBalance, toBalance, hfrom, hto, Nat.not_lt.mp hless, hfits, (Plan.write.inj h).symm⟩

end plans

end InMemoryStorage

namespace EconomicCall

open InMemoryStorage EconomicOperations

theorem frame_perform (c : EconomicCall) (now : Nat) (auth : Option AuthContext)
    (ns reason : String) (s : InMemoryStorage) :
    Frame ns c.keys s (final (c.perform now auth ns reason s)) := by
  have hstart : Frame ns c.keys s s := .of_data_eq rfl
  cases c with
  | createResource resource =>
    exact set_frame List.mem_cons_self auth _ s s hstart
  | mint resource account amount =>
    rw [perform, mint_eq]
    exact Plan.run_frame (fun _ => write_of_mintPlan) auth ns s s hstart
  | transfer resource source target amount =>
    rw [perform, transfer_eq]
    refine Plan.run_frame (fun balances hwrite => ?_) auth ns s s hstart
    obtain ⟨_, _, -, -, -, -, rfl⟩ := write_of_transferPlan hwrite
    simp [keys]
  | burn resource account amount =>
    rw [perform, burn_eq]
    exact Plan.run_frame (fun _ => write_of_burnPlan) auth ns s s hstart

theorem NeverWrites.frame {c : EconomicCall} (h : c.NeverWrites) (now : Nat)
    (auth : Option AuthContext) (ns reason : String) (s : InMemoryStorage) :
    Frame ns [] s (final (c.perform now auth ns reason s)) := by
  cases c with
  | transfer resource source target amount =>
    obtain ⟨rfl, hamount⟩ := h
    rw [perform, transfer_eq]
    refine Plan.run_frame (fun balances hwrite => ?_) auth ns s s (.of_data_eq rfl)
    obtain ⟨balance, _, hfrom, hto, hle, hfits, -⟩ := write_of_transferPlan hwrite
    obtain rfl := Except.ok.inj (hfrom.symm.trans hto)
    omega
  | _ => exact h.elim

/-- Names that give other keys than the call writes are not affected. -/
theorem independent_of_keys {c : EconomicCall} (h : c.NeverWrites ∨
      ∀ account, account ∉ c.accounts → accountKey account.1 account.2 ∉ c.keys) :
    c.Independent := by
  intro s now now' auth reader ns ns' reason resource account n hother hbefore
  rcases h with hnever | hkeys
  · exact (hnever.frame now auth ns reason s).reportedBalance (fun hin => by cases hin.2) hbefore
  · refine (frame_perform c now auth ns reason s).reportedBalance (fun hin => ?_) hbefore
    exact hkeys (resource, account) (fun hmem => hother ⟨hin.1, hmem⟩) hin.2

end EconomicCall

/-! ### Stores that tell the names apart -/

namespace InMemoryStorage

open EconomicOperations

theorem readU64_of_absent {s : InMemoryStorage} {ns key : String}
    (h : s.data.get (ns, key) = none) (auth : Option AuthContext) :
    s.readU64 auth ns key = .ok 0 := by
  rw [readU64, h]

theorem readU64_of_permitted {s : InMemoryStorage} {auth : Option AuthContext} {ns : String}
    (h : checkPermission auth "read" ns = .ok ()) (key : String) :
    s.readU64 auth ns key = .ok (s.numberAt ns key) := by
  unfold readU64 numberAt
  cases s.data.get (ns, key) with
  | none => rfl
  | some bytes => rw [h]; rfl

theorem numberAt_of_number {s : InMemoryStorage} {ns key : String} {n : Nat} (hn : n < 2 ^ 64)
    (h : s.data.get (ns, key) = some (toString n).toUTF8) : s.numberAt ns key = n := by
  unfold numberAt
  rw [h, Option.elim_some, fromUTF8_toUTF8]
  dsimp only
  rw [parseU64_toString hn, Option.getD_some]

/-- Two resources, and an administrator whose account has no limit. -/
def vault (resource other : String) : InMemoryStorage :=
  { new (fun _ => 0) with
    data := (Table.put ∅ ("default", metadataKey resource) ByteArray.empty).put
      ("default", metadataKey other) ByteArray.empty
    accounts := (∅ : HashMap ResourceAccount).insert "admin" ⟨"admin", 2 ^ 64 - 1, 0, 0⟩ }

/-- The same, with a number under a key. -/
def holding (s : InMemoryStorage) (key : String) (n : Nat) : InMemoryStorage :=
  s.writeData "default" key (toString n).toUTF8

section vault
variable {resource other key : String} {n : Nat}

theorem vault_get : (vault resource other).data.get ("default", key) =
    if key = metadataKey other ∨ key = metadataKey resource then some ByteArray.empty
    else none := by
  unfold vault
  simp only [Table.get_put, Table.get_empty, Function.update_apply, Prod.mk.injEq, true_and]
  split_ifs <;> simp_all

theorem numberAt_vault : (vault resource other).numberAt "default" key = 0 := by
  unfold numberAt
  rw [vault_get]
  split_ifs
  · decide
  · rfl

theorem holding_get (s : InMemoryStorage) (key' : String) :
    (s.holding key n).data.get ("default", key') =
      if key' = key then some (toString n).toUTF8 else s.data.get ("default", key') := by
  show (s.data.put _ _).get _ = _
  simp [Table.get_put, Function.update_apply]

theorem numberAt_holding_of_ne (s : InMemoryStorage) {key' : String} (h : key' ≠ key) :
    (s.holding key n).numberAt "default" key' = s.numberAt "default" key' := by
  unfold numberAt
  rw [holding_get, if_neg h]

theorem vault_get_account {r account : String} (h : key = accountKey resource account)
    (h' : key = accountKey other r) : (vault resource other).data.get ("default", key) = none := by
  rw [vault_get, if_neg]
  rintro (heq | heq)
  · exact accountKey_ne_metadata other r (heq.symm.trans h')
  · exact accountKey_ne_metadata resource account (heq.symm.trans h)

theorem hasResource_vault :
    (vault resource other).hasResource "default" resource ∧
      (vault resource other).hasResource "default" other := by
  unfold hasResource
  rw [show s!"resources/{resource}/metadata" = metadataKey resource from rfl,
    show s!"resources/{other}/metadata" = metadataKey other from rfl, vault_get, vault_get]
  simp

theorem hasResource_holding {s : InMemoryStorage} {r : String}
    (h : s.hasResource "default" r) : (s.holding key n).hasResource "default" r := by
  unfold hasResource at h ⊢
  rw [holding_get]
  split_ifs
  · rfl
  · exact h

theorem roomy_vault : (vault resource other).Roomy "admin" :=
  ⟨_, Finmap.lookup_insert _, le_refl _⟩

end vault

theorem Roomy.holding {s : InMemoryStorage} {user : String} (h : s.Roomy user) (key : String)
    (n : Nat) : (s.holding key n).Roomy user := h

/-- Nothing that an administrator with an unlimited account writes is refused. -/
theorem run_write_of_roomy {s : InMemoryStorage} (h : s.Roomy "admin")
    (balances : List (String × Nat)) :
    (final ((Plan.write balances).run (some admin) "default" s)).data.get =
      balances.foldl (fun data b =>
        Function.update data ("default", b.1) (some (toString b.2).toUTF8)) s.data.get := by
  show (final ((balances.forM fun b => setU64 (some admin) "default" b.1 b.2) s)).data.get = _
  induction balances generalizing s with
  | nil => rfl
  | cons b balances ih =>
    have hwritable : s.Writable (some admin) "default" b.1 (toString b.2).toUTF8 :=
      ⟨admin, rfl, admin_permitted "write" _, h.roomFor _ _⟩
    obtain ⟨-, s', hok, hdata⟩ | ⟨hnot, -⟩ :=
      set_data (some admin) "default" b.1 (toString b.2).toUTF8 s
    · have hset : setU64 (some admin) "default" b.1 b.2 s = .ok () s' := hok
      have hroomy : s'.Roomy "admin" := by
        have hkept := h.set (some admin) "default" b.1 (toString b.2).toUTF8
        rwa [hok] at hkept
      show (final ((setU64 (some admin) "default" b.1 b.2 >>= fun _ =>
        balances.forM fun b => setU64 (some admin) "default" b.1 b.2) s)).data.get = _
      rw [StorageM.bind_of_ok hset, ih hroomy, hdata, List.foldl_cons]
    · exact absurd hwritable hnot

end InMemoryStorage

namespace EconomicCall

open InMemoryStorage EconomicOperations

/-- A key that appears can no longer be read by everybody. -/
theorem not_independent_of_appears {c : EconomicCall} {s : InMemoryStorage}
    {resource account : String} (hother : (resource, account) ∉ c.accounts)
    (hres : s.hasResource "default" resource)
    (habsent : s.data.get ("default", accountKey resource account) = none)
    (hthere : (final (c.perform 0 (some admin) "default" "" s)).data.get
      ("default", accountKey resource account) ≠ none) : ¬ c.Independent := by
  intro h
  have hbefore : s.reportedBalance 0 none "default" resource account = some 0 := by
    rw [reportedBalance_eq, if_pos hres, readU64_of_absent habsent]
    rfl
  have hafter := h s 0 0 (some admin) none "default" "default" "" resource account 0
    (fun hin => hother hin.2) hbefore
  rw [reportedBalance_eq] at hafter
  obtain ⟨bytes, hbytes⟩ := Option.ne_none_iff_exists'.mp hthere
  unfold readU64 at hafter
  rw [hbytes] at hafter
  split_ifs at hafter
  cases hafter

/-- A number that changes is reported to those who may read it. -/
theorem not_independent_of_changes {c : EconomicCall} {s : InMemoryStorage}
    {resource account : String} (hother : (resource, account) ∉ c.accounts)
    (hres : s.hasResource "default" resource)
    (hchanges : (final (c.perform 0 (some admin) "default" "" s)).numberAt "default"
      (accountKey resource account) ≠ s.numberAt "default" (accountKey resource account)) :
    ¬ c.Independent := by
  intro h
  have hbefore : s.reportedBalance 0 (some admin) "default" resource account =
      some (s.numberAt "default" (accountKey resource account)) := by
    rw [reportedBalance_eq, if_pos hres, readU64_of_permitted (admin_permitted "read" _)]
    rfl
  have hafter := h s 0 0 (some admin) (some admin) "default" "default" "" resource account _
    (fun hin => hother hin.2) hbefore
  rw [reportedBalance_eq] at hafter
  split_ifs at hafter
  rw [readU64_of_permitted (admin_permitted "read" _)] at hafter
  exact hchanges (Option.some.inj hafter)

section calls
variable {resource account other a : String} {amount : UInt64}

theorem not_independent_createResource (h : metadataKey resource = accountKey other a) :
    ¬ (createResource resource).Independent := by
  have habsent : (vault other other).data.get ("default", accountKey other a) = none :=
    vault_get_account rfl rfl
  refine not_independent_of_appears List.not_mem_nil hasResource_vault.2 habsent ?_
  show (final (set (some admin) "default" (metadataKey resource) _ (vault other other))).data.get
    _ ≠ none
  obtain ⟨-, s', hok, hdata⟩ | ⟨hnot, -⟩ := set_data (some admin) "default" (metadataKey resource)
    ("\x7b\"id\": \"" ++ resource ++ "\", \"namespace\": \"" ++ "default" ++ "\"\x7d").toUTF8
    (vault other other)
  · rw [hok, final_ok, hdata, h, Function.update_self]
    exact Option.some_ne_none _
  · exact absurd ⟨admin, rfl, admin_permitted "write" _, roomy_vault.roomFor _ _⟩ hnot

theorem not_independent_mint (hother : (other, a) ∉ (mint resource account amount).accounts)
    (h : accountKey resource account = accountKey other a) :
    ¬ (mint resource account amount).Independent := by
  have habsent : (vault resource other).data.get ("default", accountKey other a) = none :=
    vault_get_account h.symm rfl
  refine not_independent_of_appears hother hasResource_vault.2 habsent ?_
  have hplan : (vault resource other).mintPlan (some admin) "default" resource account
      amount.toNat = .write [(accountKey other a, 0 + amount.toNat)] := by
    unfold mintPlan readThen
    rw [if_pos hasResource_vault.1, h, readU64_of_absent habsent]
    exact if_pos (by rw [Nat.zero_add]; exact amount.toNat_lt)
  rw [perform, mint_eq, hplan, run_write_of_roomy roomy_vault, List.foldl_cons, List.foldl_nil,
    Function.update_self]
  exact Option.some_ne_none _

/-- The number under a key after the writes of an administrator. -/
theorem numberAt_run_write {s : InMemoryStorage} (h : s.Roomy "admin")
    {balances : List (String × Nat)} {key : String} {n : Nat} (hn : n < 2 ^ 64)
    (hwritten : balances.foldl (fun data b =>
      Function.update data ("default", b.1) (some (toString b.2).toUTF8)) s.data.get
        ("default", key) = some (toString n).toUTF8) :
    (final ((Plan.write balances).run (some admin) "default" s)).numberAt "default" key = n :=
  numberAt_of_number hn (by rw [run_write_of_roomy h, hwritten])

theorem numberAt_holding (s : InMemoryStorage) (key : String) (amount : UInt64) :
    (s.holding key amount.toNat).numberAt "default" key = amount.toNat :=
  numberAt_of_number amount.toNat_lt (by rw [holding_get, if_pos rfl])

theorem not_independent_burn (hother : (other, a) ∉ (burn resource account amount).accounts)
    (h : accountKey resource account = accountKey other a) :
    ¬ (burn resource account amount).Independent := by
  by_cases hzero : amount.toNat = 0
  · have habsent : (vault resource other).data.get ("default", accountKey other a) = none :=
      vault_get_account h.symm rfl
    refine not_independent_of_appears hother hasResource_vault.2 habsent ?_
    have hplan : (vault resource other).burnPlan (some admin) "default" resource account
        amount.toNat = .write [(accountKey other a, 0 - amount.toNat)] := by
      unfold burnPlan readThen
      rw [if_pos hasResource_vault.1, h, readU64_of_absent habsent]
      exact if_neg (by omega)
    rw [perform, burn_eq, hplan, run_write_of_roomy roomy_vault, List.foldl_cons, List.foldl_nil,
      Function.update_self]
    exact Option.some_ne_none _
  · have hplan : ((vault resource other).holding (accountKey other a) amount.toNat).burnPlan
        (some admin) "default" resource account amount.toNat =
          .write [(accountKey other a, amount.toNat - amount.toNat)] := by
      unfold burnPlan readThen
      rw [if_pos (hasResource_holding hasResource_vault.1), h,
        readU64_of_permitted (admin_permitted "read" _), numberAt_holding]
      exact if_neg (lt_irrefl _)
    refine @not_independent_of_changes _ ((vault resource other).holding (accountKey other a)
      amount.toNat) other a hother (hasResource_holding hasResource_vault.2) ?_
    rw [perform, burn_eq, hplan, numberAt_holding, numberAt_run_write (n := 0)
      (roomy_vault.holding _ _) (by decide) (by simp)]
    omega

theorem not_independent_transfer_self
    (hother : (other, a) ∉ (transfer resource account account amount).accounts)
    (h : accountKey resource account = accountKey other a) (hsmall : amount.toNat < 2 ^ 63) :
    ¬ (transfer resource account account amount).Independent := by
  by_cases hzero : amount.toNat = 0
  · have habsent : (vault resource other).data.get ("default", accountKey other a) = none :=
      vault_get_account h.symm rfl
    refine not_independent_of_appears hother hasResource_vault.2 habsent ?_
    have hplan : (vault resource other).transferPlan (some admin) "default" resource account
        account amount.toNat = .write [(accountKey other a, 0 - amount.toNat),
          (accountKey other a, 0 + amount.toNat)] := by
      unfold transferPlan readThen
      rw [if_pos hasResource_vault.1, h, readU64_of_absent habsent]
      dsimp only
      rw [if_neg (by omega), if_pos (by omega)]
    rw [perform, transfer_eq, hplan, run_write_of_roomy roomy_vault]
    simp
  · have hplan : ((vault resource other).holding (accountKey other a) amount.toNat).transferPlan
        (some admin) "default" resource account account amount.toNat =
          .write [(accountKey other a, amount.toNat - amount.toNat),
            (accountKey other a, amount.toNat + amount.toNat)] := by
      unfold transferPlan readThen
      rw [if_pos (hasResource_holding hasResource_vault.1), h,
        readU64_of_permitted (admin_permitted "read" _), numberAt_holding]
      dsimp only
      rw [if_neg (lt_irrefl _), if_pos (by omega)]
    refine @not_independent_of_changes _ ((vault resource other).holding (accountKey other a)
      amount.toNat) other a hother (hasResource_holding hasResource_vault.2) ?_
    rw [perform, transfer_eq, hplan, numberAt_holding,
      numberAt_run_write (n := amount.toNat + amount.toNat) (roomy_vault.holding _ _) (by omega)
        (by simp)]
    omega

theorem not_independent_transfer_target {source target : String} (hne : source ≠ target)
    (hother : (other, a) ∉ (transfer resource source target amount).accounts)
    (h : accountKey resource target = accountKey other a) :
    ¬ (transfer resource source target amount).Independent := by
  have hkeys : accountKey other a ≠ accountKey resource source := by
    rw [← h]
    exact fun heq => hne (accountKey_injective resource heq).symm
  have habsent : ((vault resource other).holding (accountKey resource source) amount.toNat).data.get
      ("default", accountKey other a) = none := by
    rw [holding_get, if_neg hkeys]
    exact vault_get_account h.symm rfl
  have hplan : ((vault resource other).holding (accountKey resource source)
      amount.toNat).transferPlan (some admin) "default" resource source target amount.toNat =
        .write [(accountKey resource source, amount.toNat - amount.toNat),
          (accountKey other a, 0 + amount.toNat)] := by
    unfold transferPlan readThen
    rw [if_pos (hasResource_holding hasResource_vault.1), h, readU64_of_absent habsent,
      readU64_of_permitted (admin_permitted "read" _), numberAt_holding]
    dsimp only
    rw [if_neg (lt_irrefl _), if_pos (by rw [Nat.zero_add]; exact amount.toNat_lt)]
  refine not_independent_of_appears hother (hasResource_holding hasResource_vault.2) habsent ?_
  rw [perform, transfer_eq, hplan, run_write_of_roomy (roomy_vault.holding _ _)]
  simp

theorem not_independent_transfer_source {source target : String} (hne : source ≠ target)
    (hother : (other, a) ∉ (transfer resource source target amount).accounts)
    (h : accountKey resource source = accountKey other a) :
    ¬ (transfer resource source target amount).Independent := by
  have hkeys : accountKey resource target ≠ accountKey other a := by
    rw [← h]
    exact fun heq => hne (accountKey_injective resource heq).symm
  by_cases hzero : amount.toNat = 0
  · have habsent : (vault resource other).data.get ("default", accountKey other a) = none :=
      vault_get_account h.symm rfl
    refine not_independent_of_appears hother hasResource_vault.2 habsent ?_
    have hplan : (vault resource other).transferPlan (some admin) "default" resource source
        target amount.toNat = .write [(accountKey other a, 0 - amount.toNat),
          (accountKey resource target, 0 + amount.toNat)] := by
      unfold transferPlan readThen
      rw [if_pos hasResource_vault.1, h, readU64_of_absent habsent,
        readU64_of_permitted (admin_permitted "read" _), numberAt_vault]
      dsimp only
      rw [if_neg (by omega), if_pos (by omega)]
    rw [perform, transfer_eq, hplan, run_write_of_roomy roomy_vault, List.foldl_cons,
      List.foldl_cons, List.foldl_nil, Function.update_of_ne (by simpa using hkeys.symm),
      Function.update_self]
    exact Option.some_ne_none _
  · have hplan : ((vault resource other).holding (accountKey other a) amount.toNat).transferPlan
        (some admin) "default" resource source target amount.toNat =
          .write [(accountKey other a, amount.toNat - amount.toNat),
            (accountKey resource target, 0 + amount.toNat)] := by
      unfold transferPlan readThen
      rw [if_pos (hasResource_holding hasResource_vault.1), h,
        readU64_of_permitted (admin_permitted "read" _), numberAt_holding,
        readU64_of_permitted (admin_permitted "read" _), numberAt_holding_of_ne _ hkeys,
        numberAt_vault]
      dsimp only
      rw [if_neg (lt_irrefl _), if_pos (by rw [Nat.zero_add]; exact amount.toNat_lt)]
    refine @not_independent_of_changes _ ((vault resource other).holding (accountKey other a)
      amount.toNat) other a hother (hasResource_holding hasResource_vault.2) ?_
    rw [perform, transfer_eq, hplan, numberAt_holding, numberAt_run_write (n := 0)
      (roomy_vault.holding _ _) (by decide) (by simp [Function.update_of_ne, hkeys.symm])]
    omega

end calls

/-- A call is independent of other accounts exactly if no other names give a key it writes, or it
never writes. -/
theorem independent_iff (c : EconomicCall) :
    c.Independent ↔ c.NeverWrites ∨
      ∀ account, account ∉ c.accounts → accountKey account.1 account.2 ∉ c.keys := by
  refine ⟨fun hindependent => ?_, independent_of_keys⟩
  by_contra hnot
  rw [not_or, not_forall] at hnot
  obtain ⟨hwrites, ⟨other, a⟩, hshared⟩ := hnot
  rw [Classical.not_imp, not_not] at hshared
  obtain ⟨hother, hkey⟩ := hshared
  cases c with
  | createResource resource =>
    exact not_independent_createResource (List.mem_singleton.mp hkey).symm hindependent
  | mint resource account amount =>
    exact not_independent_mint hother (List.mem_singleton.mp hkey).symm hindependent
  | burn resource account amount =>
    exact not_independent_burn hother (List.mem_singleton.mp hkey).symm hindependent
  | transfer resource source target amount =>
    have heither : accountKey other a = accountKey resource source ∨
        accountKey other a = accountKey resource target := by simpa [keys] using hkey
    by_cases hself : source = target
    · subst hself
      have hsmall : amount.toNat < 2 ^ 63 := by
        by_contra hlarge
        exact hwrites ⟨rfl, Nat.not_lt.mp hlarge⟩
      exact not_independent_transfer_self hother (heither.elim Eq.symm Eq.symm) hsmall hindependent
    · rcases heither with hsource | htarget
      · exact not_independent_transfer_source hself hother hsource.symm hindependent
      · exact not_independent_transfer_target hself hother htarget.symm hindependent

/-- Minting to the account `y/accounts/z` of `x` mints to the account `z` of `x/accounts/y`. -/
theorem not_independent_slash : ¬ ∀ c : EconomicCall, c.Independent := by
  intro h
  have hkeys : accountKey "x" "y/accounts/z" = accountKey "x/accounts/y" "z" := by decide
  refine not_independent_mint ?_ hkeys (h (mint "x" "y/accounts/z" 5))
  decide

end EconomicCall

end Covm
