import Covm.Storage.AccountKeys

/-!
# Transfers that fail halfway

A transfer writes the new balance of the source, then that of the target, and each write is charged
to the caller by the length of its text. Where there is room for the first but not for the second,
the transfer fails with the source already debited. Any other failure leaves the data as they were.
-/

namespace Covm

open Maps Partial

namespace InMemoryStorage

open EconomicOperations

/-- If the transfer fails, all balances are reported as before it, to everybody. -/
def MovesNothing (s : InMemoryStorage) (now : Nat) (auth : Option AuthContext)
    (ns resource source target : String) (amount : UInt64) (reason : String) : Prop :=
  ∀ e s', transfer now auth ns resource source target amount.toNat reason s = .error (.error e) s' →
    ∀ now' reader ns' resource' account, s'.reportedBalance now' reader ns' resource' account =
      s.reportedBalance now' reader ns' resource' account

/-- The bytes of the text of a balance. -/
def balanceBytes (n : Nat) : Nat := (toString n).toUTF8.size

/-- The caller may make the transfer and has room for the new balance of the source, but no longer
for that of the target. -/
structure Half (s : InMemoryStorage) (a : AuthContext) (ns resource source target : String)
    (amount fromBalance toBalance : Nat) : Prop where
  exists_resource : s.hasResource ns resource
  reads_from : s.readU64 (some a) ns (accountKey resource source) = .ok fromBalance
  reads_to : s.readU64 (some a) ns (accountKey resource target) = .ok toBalance
  enough : amount ≤ fromBalance
  fits : toBalance + amount < 2 ^ 64
  permitted : checkPermission (some a) "write" ns = .ok ()
  debited : Accommodates (s.quotaOf a.currentIdentityDid) (s.usedBytes a.currentIdentityDid)
    (s.storedBytes ns (accountKey resource source)) (balanceBytes (fromBalance - amount))
  refused : ¬ Accommodates (s.quotaOf a.currentIdentityDid)
    (bytesAfter (s.usedBytes a.currentIdentityDid)
      (s.storedBytes ns (accountKey resource source)) (balanceBytes (fromBalance - amount)))
    (if target = source then balanceBytes (fromBalance - amount)
      else s.storedBytes ns (accountKey resource target))
    (balanceBytes (toBalance + amount))

/-- The debit of such a transfer can be seen: it takes something, or makes an entry that was not
there, which not everybody may read. -/
def SeenHalf (s : InMemoryStorage) (auth : Option AuthContext)
    (ns resource source target : String) (amount : Nat) : Prop :=
  ∃ a fromBalance toBalance, auth = some a ∧
    s.Half a ns resource source target amount fromBalance toBalance ∧
    (0 < amount ∨ s.data.get (ns, accountKey resource source) = none)

/-! ### What a failed transfer leaves -/

section failure
variable {s s' : InMemoryStorage} {now amount : Nat} {auth : Option AuthContext} {a : AuthContext}
  {ns resource source target reason : String} {fromBalance toBalance : Nat}

theorem transfer_error_iff {e : StorageFault} :
    transfer now auth ns resource source target amount reason s = .error e s' ↔
      (s.transferPlan auth ns resource source target amount).run auth ns s = .error e s' := by
  rw [← transfer_eq]
  show _ ↔ (transfer now auth ns resource source target amount reason >>= fun _ => pure ()) s = _
  cases htransfer : transfer now auth ns resource source target amount reason s with
  | ok event s₁ => rw [StorageM.bind_of_ok htransfer]; simp [pure, EStateM.pure]
  | error e₁ s₁ => rw [StorageM.bind_of_error htransfer]; simp

/-- The plan of a transfer that gets to write. -/
theorem transferPlan_of_reads (hres : s.hasResource ns resource)
    (hfrom : s.readU64 auth ns (accountKey resource source) = .ok fromBalance)
    (hto : s.readU64 auth ns (accountKey resource target) = .ok toBalance)
    (hle : amount ≤ fromBalance) (hfits : toBalance + amount < 2 ^ 64) :
    s.transferPlan auth ns resource source target amount =
      .write [(accountKey resource source, fromBalance - amount),
        (accountKey resource target, toBalance + amount)] := by
  unfold transferPlan readThen
  rw [if_pos hres, hfrom]
  dsimp only
  rw [if_neg (Nat.not_lt.mpr hle), hto]
  exact if_pos hfits

theorem writable_iff {key : String} {n : Nat} :
    s.Writable (some a) ns key (toString n).toUTF8 ↔
      checkPermission (some a) "write" ns = .ok () ∧
        Accommodates (s.quotaOf a.currentIdentityDid) (s.usedBytes a.currentIdentityDid)
          (s.storedBytes ns key) (balanceBytes n) := by
  unfold Writable balanceBytes
  simp [roomFor_iff]

/-- Whether there is room for the credit once the debit is written. -/
theorem writable_after (hset : set (some a) ns (accountKey resource source)
      (toString (fromBalance - amount)).toUTF8 s = .ok () s') {n : Nat} :
    s'.Writable (some a) ns (accountKey resource target) (toString n).toUTF8 ↔
      checkPermission (some a) "write" ns = .ok () ∧
        Accommodates (s.quotaOf a.currentIdentityDid)
          (bytesAfter (s.usedBytes a.currentIdentityDid)
            (s.storedBytes ns (accountKey resource source)) (balanceBytes (fromBalance - amount)))
          (if target = source then balanceBytes (fromBalance - amount)
            else s.storedBytes ns (accountKey resource target))
          (balanceBytes n) := by
  have hquota : s'.quotaOf = s.quotaOf := by
    have hkept := quotaOf_set (some a) ns (accountKey resource source)
      (toString (fromBalance - amount)).toUTF8 s
    rwa [hset] at hkept
  obtain ⟨e, -, h⟩ | ⟨e, -, h⟩ | ⟨a', s₁, ha, h, hstored⟩ := set_cases (some a) ns
    (accountKey resource source) (toString (fromBalance - amount)).toUTF8 s
  · cases hset.symm.trans h
  · cases hset.symm.trans h
  · cases hset.symm.trans h
    obtain rfl := Option.some.inj ha
    have hused : s'.usedBytes a.currentIdentityDid = bytesAfter (s.usedBytes a.currentIdentityDid)
        (s.storedBytes ns (accountKey resource source)) (balanceBytes (fromBalance - amount)) := by
      rw [hstored.charged.used, Function.update_self]
      rfl
    have hbytes : s'.storedBytes ns (accountKey resource target) =
        if target = source then balanceBytes (fromBalance - amount)
        else s.storedBytes ns (accountKey resource target) := by
      unfold storedBytes
      rw [hstored.data]
      split_ifs with heq
      · rw [heq, Function.update_self]
        rfl
      · rw [Function.update_of_ne]
        intro hkey
        exact heq (accountKey_injective resource (Prod.mk.inj hkey).2)
    rw [writable_iff, hquota, hused, hbytes]

theorem Half.plan (h : s.Half a ns resource source target amount fromBalance toBalance) :
    s.transferPlan (some a) ns resource source target amount =
      .write [(accountKey resource source, fromBalance - amount),
        (accountKey resource target, toBalance + amount)] :=
  transferPlan_of_reads h.exists_resource h.reads_from h.reads_to h.enough h.fits

/-- Only the debit is there. -/
theorem Half.transfer_error
    (h : s.Half a ns resource source target amount fromBalance toBalance) (now : Nat)
    (reason : String) :
    ∃ e s', transfer now (some a) ns resource source target amount reason s = .error (.error e) s' ∧
      s'.data.get = Function.update s.data.get (ns, accountKey resource source)
        (some (toString (fromBalance - amount)).toUTF8) := by
  obtain ⟨-, s₁, hdebit, hdata⟩ | ⟨hnot, -⟩ := set_data (some a) ns (accountKey resource source)
    (toString (fromBalance - amount)).toUTF8 s
  · obtain ⟨hwritable, -⟩ | ⟨-, e, s₂, hcredit, hsame⟩ := set_data (some a) ns
      (accountKey resource target) (toString (toBalance + amount)).toUTF8 s₁
    · exact absurd ((writable_after hdebit).mp hwritable).2 h.refused
    · refine ⟨e, s₂, ?_, by rw [hsame, hdata]⟩
      have hset : setU64 (some a) ns (accountKey resource source) (fromBalance - amount) s =
          .ok () s₁ := hdebit
      rw [transfer_error_iff, h.plan, run_write_two, StorageM.bind_of_ok hset]
      exact hcredit
  · exact absurd (writable_iff.mpr ⟨h.permitted, h.debited⟩) hnot

/-- Any other failure leaves the data alone. -/
theorem data_of_transfer_error {e : StorageError}
    (h : transfer now auth ns resource source target amount reason s = .error (.error e) s') :
    s'.data.get = s.data.get ∨ ∃ a fromBalance toBalance, auth = some a ∧
      s.Half a ns resource source target amount fromBalance toBalance := by
  rw [transfer_error_iff] at h
  cases hplan : s.transferPlan auth ns resource source target amount with
  | refuse e' =>
    rw [hplan] at h
    cases h
    exact .inl rfl
  | overflow =>
    rw [hplan] at h
    cases h
  | write balances =>
    obtain ⟨fromBalance, toBalance, hfrom, hto, hle, hfits, rfl⟩ := write_of_transferPlan hplan
    have hres : s.hasResource ns resource := by
      by_contra hno
      unfold transferPlan at hplan
      rw [if_neg hno] at hplan
      cases hplan
    rw [hplan, run_write_two] at h
    obtain ⟨hdebited, s₁, hdebit, hdata⟩ | ⟨-, e', s₁, hdebit, hdata⟩ := set_data auth ns
      (accountKey resource source) (toString (fromBalance - amount)).toUTF8 s
    · obtain ⟨a, rfl, -⟩ := id hdebited
      obtain ⟨hpermitted, hroom⟩ := writable_iff.mp hdebited
      have hset : setU64 (some a) ns (accountKey resource source) (fromBalance - amount) s =
          .ok () s₁ := hdebit
      rw [StorageM.bind_of_ok hset] at h
      obtain ⟨-, s₂, hcredit, -⟩ | ⟨hnot, -⟩ := set_data (some a) ns
        (accountKey resource target) (toString (toBalance + amount)).toUTF8 s₁
      · cases hcredit.symm.trans h
      · refine .inr ⟨a, fromBalance, toBalance, rfl, hres, hfrom, hto, hle, hfits, hpermitted, hroom,
          fun hcredit => hnot ((writable_after hdebit).mpr ⟨hpermitted, hcredit⟩)⟩
    · have hset : setU64 auth ns (accountKey resource source) (fromBalance - amount) s =
          .error (.error e') s₁ := hdebit
      rw [StorageM.bind_of_error hset] at h
      cases h
      exact .inl (congrArg _ hdata)

end failure

/-! ### What is reported -/

section reports
variable {s s' : InMemoryStorage}

/-- What is reported depends on the numbers, and on which entries there are. -/
theorem reportedBalance_of_numbers
    (hthere : ∀ ns key, (s'.data.get (ns, key)).isSome = (s.data.get (ns, key)).isSome)
    (hnumber : ∀ ns key, s'.numberAt ns key = s.numberAt ns key) (now : Nat)
    (reader : Option AuthContext) (ns resource account : String) :
    s'.reportedBalance now reader ns resource account =
      s.reportedBalance now reader ns resource account := by
  have hread (key : String) : s'.readU64 reader ns key = s.readU64 reader ns key := by
    have hsome := hthere ns key
    unfold readU64
    rw [hnumber]
    cases hget : s.data.get (ns, key) with
    | none =>
      rw [hget, Option.isSome_none, Option.isSome_eq_false_iff, Option.isNone_iff_eq_none] at hsome
      rw [hsome]
    | some bytes =>
      rw [hget, Option.isSome_some, Option.isSome_iff_exists] at hsome
      obtain ⟨bytes', hbytes⟩ := hsome
      rw [hbytes]
  rw [reportedBalance_eq, reportedBalance_eq, hread]
  unfold hasResource
  rw [hthere]

end reports

section balances
variable {s s' : InMemoryStorage} {now amount : Nat} {auth : Option AuthContext} {a : AuthContext}
  {ns resource source target reason : String} {fromBalance toBalance : Nat}

/-- A debit of nothing from an entry that is there. -/
theorem reportedBalance_of_rewritten {key : String} {n : Nat} (hthere : s.data.get (ns, key) ≠ none)
    (hn : s.numberAt ns key = n)
    (hdata : s'.data.get = Function.update s.data.get (ns, key) (some (toString n).toUTF8))
    (now : Nat) (reader : Option AuthContext) (ns' resource account : String) :
    s'.reportedBalance now reader ns' resource account =
      s.reportedBalance now reader ns' resource account := by
  have hlt : n < 2 ^ 64 := hn ▸ s.numberAt_lt ns key
  refine reportedBalance_of_numbers (fun ns₁ key₁ => ?_) (fun ns₁ key₁ => ?_) now reader ns' resource
    account
  · rw [hdata]
    by_cases heq : (ns₁, key₁) = (ns, key)
    · rw [heq, Function.update_self, Option.isSome_some, Option.isSome_iff_ne_none.mpr hthere]
    · rw [Function.update_of_ne heq]
  · by_cases heq : (ns₁, key₁) = (ns, key)
    · obtain ⟨rfl, rfl⟩ := Prod.mk.inj heq
      rw [hn]
      exact numberAt_of_number hlt (by rw [hdata, Function.update_self])
    · unfold numberAt
      rw [hdata, Function.update_of_ne heq]

/-- The administrator sees the debit, and whoever may not read sees that there is an entry. -/
theorem Half.seen (h : s.Half a ns resource source target amount fromBalance toBalance)
    (hdata : s'.data.get = Function.update s.data.get (ns, accountKey resource source)
      (some (toString (fromBalance - amount)).toUTF8))
    (hseen : 0 < amount ∨ s.data.get (ns, accountKey resource source) = none) :
    ∃ reader, s'.reportedBalance 0 reader ns resource source ≠
      s.reportedBalance 0 reader ns resource source := by
  have hthere : s'.data.get (ns, accountKey resource source) =
      some (toString (fromBalance - amount)).toUTF8 := by
    rw [hdata, Function.update_self]
  have hres : s'.hasResource ns resource := by
    have hne : (ns, s!"resources/{resource}/metadata") ≠ (ns, accountKey resource source) :=
      fun heq => accountKey_ne_metadata resource source (Prod.mk.inj heq).2
    have hbefore := h.exists_resource
    unfold hasResource at hbefore ⊢
    rwa [hdata, Function.update_of_ne hne]
  have hbalance := numberAt_of_readU64 h.reads_from
  rcases hseen with hpos | habsent
  · refine ⟨some admin, ?_⟩
    have hlt : fromBalance - amount < 2 ^ 64 := by
      have hbound := s.numberAt_lt ns (accountKey resource source)
      omega
    have hafter := numberAt_of_number hlt hthere
    have hle := h.enough
    rw [reportedBalance_eq, reportedBalance_eq, if_pos hres, if_pos h.exists_resource,
      readU64_of_permitted (admin_permitted "read" ns),
      readU64_of_permitted (admin_permitted "read" ns), hafter, hbalance]
    intro heq
    have hnat : fromBalance - amount = fromBalance := Option.some.inj heq
    omega
  · refine ⟨none, ?_⟩
    rw [reportedBalance_eq, reportedBalance_eq, if_pos hres, if_pos h.exists_resource,
      readU64_of_absent habsent]
    unfold readU64
    rw [hthere]
    intro heq
    cases heq

end balances

/-- A failed transfer moves nothing iff it does not fail between its two writes with a debit that
can be seen. -/
theorem movesNothing_iff (s : InMemoryStorage) (now : Nat) (auth : Option AuthContext)
    (ns resource source target : String) (amount : UInt64) (reason : String) :
    s.MovesNothing now auth ns resource source target amount reason ↔
      ¬ s.SeenHalf auth ns resource source target amount.toNat := by
  constructor
  · rintro h ⟨a, fromBalance, toBalance, rfl, hhalf, hseen⟩
    obtain ⟨e, s', herror, hdata⟩ := hhalf.transfer_error now reason
    obtain ⟨reader, hne⟩ := hhalf.seen hdata hseen
    exact hne (h e s' herror 0 reader ns resource source)
  · intro h e s' herror now' reader ns' resource' account
    obtain hsame | ⟨a, fromBalance, toBalance, rfl, hhalf⟩ := data_of_transfer_error herror
    · refine reportedBalance_of_numbers (fun ns₁ key => ?_) (fun ns₁ key => ?_) now' reader ns'
        resource' account
      · rw [hsame]
      · unfold numberAt
        rw [hsame]
    · have hunseen : ¬ (0 < amount.toNat ∨ s.data.get (ns, accountKey resource source) = none) :=
        fun hseen => h ⟨a, fromBalance, toBalance, rfl, hhalf, hseen⟩
      rw [not_or, Nat.not_lt, Nat.le_zero] at hunseen
      obtain ⟨e', s₁, herror', hdata⟩ := hhalf.transfer_error now reason
      cases herror.symm.trans herror'
      rw [hunseen.1, Nat.sub_zero] at hdata
      exact reportedBalance_of_rewritten hunseen.2 (numberAt_of_readU64 hhalf.reads_from) hdata now'
        reader ns' resource' account

/-- Alice holds 5 of a resource, and the account of the administrator is full. -/
def fullVault : InMemoryStorage :=
  { (vault "token" "token").holding (accountKey "token" "alice") 5 with
    accounts := (∅ : HashMap ResourceAccount).insert "admin" ⟨"admin", 1, 1, 0⟩ }

theorem half_fullVault : fullVault.Half admin "default" "token" "alice" "bob" 1 5 0 := by
  have halice : fullVault.data.get ("default", accountKey "token" "alice") =
      some (toString 5).toUTF8 := by
    show ((vault "token" "token").holding (accountKey "token" "alice") 5).data.get _ = _
    rw [holding_get, if_pos rfl]
  have hbob : fullVault.data.get ("default", accountKey "token" "bob") = none := by
    have hne : accountKey "token" "bob" ≠ accountKey "token" "alice" :=
      fun heq => absurd (accountKey_injective "token" heq) (by decide)
    show ((vault "token" "token").holding (accountKey "token" "alice") 5).data.get _ = _
    rw [holding_get, if_neg hne]
    exact vault_get_account rfl rfl
  have hfive : fullVault.numberAt "default" (accountKey "token" "alice") = 5 :=
    numberAt_of_number (by decide) halice
  have hstored : fullVault.storedBytes "default" (accountKey "token" "alice") = 1 := by
    unfold storedBytes
    rw [halice]
    decide
  have hempty : fullVault.storedBytes "default" (accountKey "token" "bob") = 0 := by
    unfold storedBytes
    rw [hbob]
    rfl
  have hquota : fullVault.quotaOf admin.currentIdentityDid = some 1 := by
    unfold quotaOf fullVault
    rw [show admin.currentIdentityDid = "admin" from rfl, Finmap.lookup_insert]
    rfl
  have hused : fullVault.usedBytes admin.currentIdentityDid = 1 := by
    unfold usedBytes fullVault
    rw [show admin.currentIdentityDid = "admin" from rfl, Finmap.lookup_insert]
    rfl
  have hdigits : balanceBytes 4 = 1 ∧ balanceBytes 1 = 1 := by decide
  refine ⟨hasResource_holding hasResource_vault.1, ?_, readU64_of_absent hbob _, by decide,
    by decide, admin_permitted "write" _, ?_, ?_⟩
  · rw [readU64_of_permitted (admin_permitted "read" _), hfive]
  · rw [hstored, hdigits.1]
    intro hlt
    exact absurd hlt (lt_irrefl 1)
  · rw [hquota, hused, hstored, hempty, hdigits.1, Nat.zero_add, hdigits.2,
      if_neg (show "bob" ≠ "alice" by decide)]
    intro hroom
    obtain ⟨q, hq, hle⟩ := hroom Nat.one_pos
    obtain rfl := Option.some.inj hq
    exact absurd hle (by decide)

/-- A transfer of 1 from Alice to Bob takes it from Alice and fails. -/
theorem not_movesNothing : ¬ ∀ (s : InMemoryStorage) (now : Nat) (auth : Option AuthContext)
    (ns resource source target : String) (amount : UInt64) (reason : String),
    s.MovesNothing now auth ns resource source target amount reason := by
  intro h
  obtain ⟨e, s', herror, hdata⟩ := half_fullVault.transfer_error 0 ""
  obtain ⟨reader, hne⟩ := half_fullVault.seen hdata (.inl Nat.one_pos)
  exact hne (h fullVault 0 (some admin) "default" "token" "alice" "bob" 1 "" e s' herror 0 reader
    "default" "token" "alice")

end InMemoryStorage

end Covm
