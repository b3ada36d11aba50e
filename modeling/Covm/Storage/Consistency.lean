import Covm.Storage.Calls

/-!
# Values and versions in step

`set` and `delete` write the table of values and the table of versions together, but a rollback
writes back values only. A key has a value exactly when it has a version, as long as no rollback
adds a key to the stored ones or takes one away.
-/

namespace Covm

open Maps Partial

namespace InMemoryStorage

/-- A key has a value exactly when it has a version. -/
def InStep (s : InMemoryStorage) : Prop :=
  ∀ p, (s.data.get p).isSome = (s.versions.get p).isSome

/-- A rollback finds under the recorded keys a value where there was one, and none where there was
none. -/
def RollsBackInPlace : Call → InMemoryStorage → Prop
  | .rollbackTransaction, s =>
    ∀ p ∈ s.innermostLog.keys,
      ((s.innermostLog.recorded p).getD none).isSome = (s.data.get p).isSome
  | _, _ => True

instance : (c : Call) → (s : InMemoryStorage) → Decidable (RollsBackInPlace c s)
  | .rollbackTransaction, s => inferInstanceAs (Decidable (∀ p ∈ s.innermostLog.keys,
      ((s.innermostLog.recorded p).getD none).isSome = (s.data.get p).isSome))
  | .createAccount .., _ => .isTrue trivial
  | .createNamespace .., _ => .isTrue trivial
  | .set .., _ => .isTrue trivial
  | .delete .., _ => .isTrue trivial
  | .beginTransaction, _ => .isTrue trivial
  | .commitTransaction, _ => .isTrue trivial

/-- Both tables are written under the same key. -/
theorem InStep.update {s s' : InMemoryStorage} (h : s.InStep) {p : String × String}
    {value : Option ByteArray} {version : Option VersionInfo}
    (hd : s'.data.get = Function.update s.data.get p value)
    (hv : s'.versions.get = Function.update s.versions.get p version)
    (hsome : value.isSome = version.isSome) : s'.InStep := by
  intro q
  rw [hd, hv]
  by_cases hq : q = p
  · subst hq
    rwa [Function.update_self, Function.update_self]
  · rw [Function.update_of_ne hq, Function.update_of_ne hq]
    exact h q

theorem InStep.congr {s s' : InMemoryStorage} (h : s.InStep) (hd : s'.data.get = s.data.get)
    (hv : s'.versions.get = s.versions.get) : s'.InStep := by
  intro q
  rw [hd, hv]
  exact h q

theorem InStep.rollback {s : InMemoryStorage} (h : s.InStep)
    {log : UndoLog (String × String) ByteArray}
    (hkeys : ∀ p ∈ log.keys, ((log.recorded p).getD none).isSome = (s.data.get p).isSome)
    (q : String × String) :
    ((s.data.replay log).get q).isSome = (s.versions.get q).isSome := by
  rw [Table.get_replay, UndoLog.undo_apply, ← h q]
  by_cases hq : q ∈ log.keys
  · rw [← hkeys q hq]
    cases hr : log.recorded q with
    | none => exact absurd hq (UndoLog.recorded_eq_none.mp hr)
    | some old => rfl
  · rw [UndoLog.recorded_eq_none.mpr hq]
    rfl

/-- Where there is no value there is no version. -/
theorem InStep.versions_eq_none {s : InMemoryStorage} (h : s.InStep) {p : String × String}
    (hp : s.data.get p = none) : s.versions.get p = none := by
  have hsome := h p
  rw [hp] at hsome
  cases hv : s.versions.get p with
  | none => rfl
  | some v => rw [hv] at hsome; exact nomatch hsome

theorem InStep.step {c : Call} {s s' : InMemoryStorage} (h : s.InStep)
    (hc : RollsBackInPlace c s) (he : Effect s c s') : s'.InStep := by
  cases he with
  | unchanged => exact h
  | recorded auth ns key value =>
    exact h.congr (by rw [recordForRollback_data]) (by rw [recordForRollback_versions])
  | stored auth ns key value hs' =>
    obtain ⟨v, hv⟩ := hs'.versions
    exact h.update hs'.data hv rfl
  | deleted auth ns key hs' => exact h.update hs'.data hs'.versions rfl
  | accountCreated auth userId quota account fresh accounts unused data versions logs =>
    exact h.congr (by rw [data]) (by rw [versions])
  | namespaceCreated auth ns quota parent fresh data versions accounts logs =>
    -- a row of versions may be replaced by an empty one, but it shows nothing
    have hvalues : ∀ key, s.data.get (ns, key) = none := Table.get_of_notMem fresh
    apply h.congr
    · rw [data, Table.get_insert_empty _ _ hvalues]
    · rw [versions, Table.get_insert_empty _ _ fun key => h.versions_eq_none (hvalues key)]
  | begun => exact h
  | committed log rest => exact h
  | rolledBack log rest hopen =>
    have hlog : log = s.innermostLog := by
      unfold innermostLog
      rw [hopen]
      rfl
    rw [hlog]
    exact h.rollback hc

theorem InStep.new (clock : Nat → Nat) : (new clock).InStep := fun _ => rfl

/-- The readers of versions succeed where `get` does. -/
theorem InStep.readers {s : InMemoryStorage} (h : s.InStep) (auth : Option AuthContext)
    (ns key : String) :
    (s.getVersioned auth ns key).isOk = (s.get auth ns key).isOk ∧
      (s.listVersions auth ns key).isOk = (s.get auth ns key).isOk := by
  have hp := h (ns, key)
  unfold getVersioned listVersions get
  cases checkPermission auth "read" ns with
  | error e => exact ⟨rfl, rfl⟩
  | ok u =>
    show _ ∧ _
    simp only [bind, Except.bind]
    cases hd : s.data.get (ns, key) <;> cases hv : s.versions.get (ns, key) <;>
      simp_all [Except.isOk, Except.toBool]

/-- The two tables agree in every state reached by a run whose rollbacks neither bring keys back nor
take keys away. -/
theorem values_iff_versions (clock : Nat → Nat) (calls : List Call)
    (h : Meets RollsBackInPlace calls (new clock)) :
    (∀ ns key, ((afterAll calls (new clock)).data.get (ns, key)).isSome =
      ((afterAll calls (new clock)).versions.get (ns, key)).isSome) ∧
    ∀ auth ns key,
      ((afterAll calls (new clock)).getVersioned auth ns key).isOk =
        ((afterAll calls (new clock)).get auth ns key).isOk ∧
      ((afterAll calls (new clock)).listVersions auth ns key).isOk =
        ((afterAll calls (new clock)).get auth ns key).isOk := by
  have hstep : (afterAll calls (new clock)).InStep :=
    h.invariant (fun c s hc hs => hs.step hc (c.effect s)) (InStep.new clock)
  exact ⟨fun ns key => hstep (ns, key), fun auth ns key => hstep.readers auth ns key⟩

/-- A key is set, and set again in a transaction that is rolled back. -/
def overwriteAndRollBack : List Call :=
  [.createAccount (some admin) "admin" 1000, .set (some admin) "ns" "k" "v".toUTF8,
    .beginTransaction, .set (some admin) "ns" "k" "w".toUTF8, .rollbackTransaction]

theorem values_iff_versions_overwriteAndRollBack :
    ((afterAll overwriteAndRollBack (new fun _ => 0)).data.get ("ns", "k")).isSome =
      ((afterAll overwriteAndRollBack (new fun _ => 0)).versions.get ("ns", "k")).isSome :=
  (values_iff_versions (fun _ => 0) overwriteAndRollBack
    ⟨trivial, trivial, trivial, trivial, by decide, trivial⟩).1 "ns" "k"

/-- The version of a key that was first set in a transaction survives the rollback. -/
theorem not_values_iff_versions :
    ¬ ∀ (clock : Nat → Nat) (calls : List Call),
      (∀ ns key, ((afterAll calls (new clock)).data.get (ns, key)).isSome =
        ((afterAll calls (new clock)).versions.get (ns, key)).isSome) ∧
      ∀ auth ns key,
        ((afterAll calls (new clock)).getVersioned auth ns key).isOk =
          ((afterAll calls (new clock)).get auth ns key).isOk ∧
        ((afterAll calls (new clock)).listVersions auth ns key).isOk =
          ((afterAll calls (new clock)).get auth ns key).isOk := by
  intro h
  have hkey := (h (fun _ => 0) [.createAccount (some admin) "admin" 1000, .beginTransaction,
    .set (some admin) "ns" "k" "v".toUTF8, .rollbackTransaction]).1 "ns" "k"
  exact absurd hkey (by decide)

end InMemoryStorage

end Covm
