import Mathlib.Algebra.BigOperators.Finprod
import Mathlib.Data.Finmap

/-!
# Two-level finite maps

A `Table` keeps values under pairs of keys as a map of maps. Its operations are those of a nested
hash map whose rows are made on demand; what is observed of a table is `get`. Totals over the
stored values are finite sums, and a change on finitely many keys changes them by the difference
on these keys only.
-/

namespace Maps

/-! ## Sums of functions that differ on finitely many points -/

section finsum
variable {κ M : Type*} [AddCommMonoid M]

theorem finsum_add_sum_of_eqOn_compl {f g : κ → M} (hf : f.support.Finite)
    (hg : g.support.Finite) (K : Finset κ) (h : ∀ k, k ∉ K → f k = g k) :
    ∑ᶠ k, f k + ∑ k ∈ K, g k = ∑ᶠ k, g k + ∑ k ∈ K, f k := by
  classical
  set U := K ∪ hf.toFinset ∪ hg.toFinset with hU
  have hK : K ⊆ U := fun k hk => by simp [hU, hk]
  have hfU : f.support ⊆ U := fun k hk => by simp_all
  have hgU : g.support ⊆ U := fun k hk => by simp_all
  rw [finsum_eq_sum_of_support_subset f hfU, finsum_eq_sum_of_support_subset g hgU,
    ← Finset.sum_sdiff hK, ← Finset.sum_sdiff hK]
  have hrest : ∑ k ∈ U \ K, f k = ∑ k ∈ U \ K, g k := by
    apply Finset.sum_congr rfl
    intro k hk
    exact h k (Finset.mem_sdiff.mp hk).2
  rw [hrest, add_right_comm]

theorem support_update_finite [DecidableEq κ] {f : κ → M} (hf : f.support.Finite) (k : κ)
    (v : M) : (Function.update f k v).support.Finite := by
  refine (hf.insert k).subset ?_
  intro i hi
  by_cases hik : i = k
  · exact .inl hik
  · rw [Function.mem_support, Function.update_of_ne hik] at hi
    exact .inr hi

theorem finsum_update_add [DecidableEq κ] {f : κ → M} (hf : f.support.Finite) (k : κ) (v : M) :
    ∑ᶠ i, Function.update f k v i + f k = ∑ᶠ i, f i + v := by
  have hoff : ∀ i, i ∉ ({k} : Finset κ) → Function.update f k v i = f i := by
    intro i hi
    exact Function.update_of_ne (by simpa using hi) v f
  simpa using finsum_add_sum_of_eqOn_compl (support_update_finite hf k v) hf {k} hoff

end finsum

/-! ## Tables -/

/-- Rows of values under a pair of keys. -/
abbrev Table (α β γ : Type*) := Finmap fun _ : α => Finmap fun _ : β => γ

namespace Table

variable {α β γ : Type*} [DecidableEq α] [DecidableEq β]

def get (t : Table α β γ) (p : α × β) : Option γ := (t.lookup p.1).bind (·.lookup p.2)

/-- The row of `a`, or an empty one. -/
def row (t : Table α β γ) (a : α) : Finmap fun _ : β => γ := (t.lookup a).getD ∅

/-- Stores a value; the row is made if it is missing. -/
def put (t : Table α β γ) (p : α × β) (v : γ) : Table α β γ :=
  t.insert p.1 ((t.row p.1).insert p.2 v)

/-- Removes a value; the row is made if it is missing. -/
def remove (t : Table α β γ) (p : α × β) : Table α β γ :=
  t.insert p.1 ((t.row p.1).erase p.2)

/-- Removes a value from its row, if there is one. -/
def erase (t : Table α β γ) (p : α × β) : Table α β γ :=
  match t.lookup p.1 with
  | some row => t.insert p.1 (row.erase p.2)
  | none => t

theorem get_eq_row (t : Table α β γ) (p : α × β) : t.get p = (t.row p.1).lookup p.2 := by
  unfold get row
  cases t.lookup p.1 with
  | none => simp
  | some r => rfl

@[simp] theorem get_empty : (∅ : Table α β γ).get = fun _ => none := rfl

private theorem get_insert_row (t : Table α β γ) (a : α) (r : Finmap fun _ : β => γ)
    (p : α × β) : get (Finmap.insert a r t) p = if p.1 = a then r.lookup p.2 else t.get p := by
  unfold get
  by_cases h : p.1 = a
  · rw [if_pos h, h, Finmap.lookup_insert, Option.bind_some]
  · rw [if_neg h, Finmap.lookup_insert_of_ne t h]

@[simp] theorem get_put (t : Table α β γ) (p : α × β) (v : γ) :
    (t.put p v).get = Function.update t.get p (some v) := by
  funext q
  rw [put, get_insert_row]
  by_cases h : q = p
  · rw [if_pos (congrArg Prod.fst h), h, Finmap.lookup_insert, Function.update_self]
  · rw [Function.update_of_ne h]
    by_cases ha : q.1 = p.1
    · have hb : q.2 ≠ p.2 := fun hb => h (Prod.ext ha hb)
      rw [if_pos ha, Finmap.lookup_insert_of_ne _ hb, ← ha, ← get_eq_row]
    · rw [if_neg ha]

@[simp] theorem get_remove (t : Table α β γ) (p : α × β) :
    (t.remove p).get = Function.update t.get p none := by
  funext q
  rw [remove, get_insert_row]
  by_cases h : q = p
  · rw [if_pos (congrArg Prod.fst h), h, Finmap.lookup_erase, Function.update_self]
  · rw [Function.update_of_ne h]
    by_cases ha : q.1 = p.1
    · have hb : q.2 ≠ p.2 := fun hb => h (Prod.ext ha hb)
      rw [if_pos ha, Finmap.lookup_erase_ne hb, ← ha, ← get_eq_row]
    · rw [if_neg ha]

@[simp] theorem get_erase (t : Table α β γ) (p : α × β) :
    (t.erase p).get = Function.update t.get p none := by
  rw [← get_remove]
  unfold erase
  cases h : t.lookup p.1 with
  | some r => rw [remove, row, h]; rfl
  | none =>
    have hp : t.get p = none := by rw [get, h]; rfl
    rw [get_remove, ← hp, Function.update_eq_self]

/-- A new empty row shows nothing, provided nothing was stored in the old one. -/
theorem get_insert_empty (t : Table α β γ) (a : α) (h : ∀ b, t.get (a, b) = none) :
    get (Finmap.insert a ∅ t) = t.get := by
  funext p
  rw [get_insert_row]
  by_cases hp : p.1 = a
  · rw [if_pos hp, Finmap.lookup_empty, ← h p.2, ← hp]
  · rw [if_neg hp]

theorem get_of_notMem {t : Table α β γ} {a : α} (h : a ∉ t) (b : β) : t.get (a, b) = none := by
  rw [get, Finmap.lookup_eq_none.mpr h]
  rfl

/-- The pairs of keys that have a value. -/
def keys (t : Table α β γ) : Finset (α × β) :=
  (Finmap.keys t).biUnion fun a => (t.row a).keys.image (a, ·)

theorem mem_keys {t : Table α β γ} {p : α × β} : p ∈ t.keys ↔ t.get p ≠ none := by
  rw [keys, Finset.mem_biUnion, get_eq_row]
  constructor
  · rintro ⟨a, ha, hp⟩
    obtain ⟨b, hb, rfl⟩ := Finset.mem_image.mp hp
    rwa [Finmap.mem_keys, ← Finmap.lookup_isSome, Option.isSome_iff_ne_none] at hb
  · intro hp
    refine ⟨p.1, ?_, Finset.mem_image.mpr ⟨p.2, ?_, rfl⟩⟩
    · by_contra ha
      rw [Finmap.mem_keys] at ha
      rw [row, Finmap.lookup_eq_none.mpr ha] at hp
      exact hp (Finmap.lookup_empty _)
    · rwa [Finmap.mem_keys, ← Finmap.lookup_isSome, Option.isSome_iff_ne_none]

/-! ### Totals -/

variable (size : γ → Nat)

/-- The sum of the sizes of the stored values. -/
def total (t : Table α β γ) : Nat := ∑ p ∈ t.keys, (t.get p).elim 0 size

theorem support_subset_keys (t : Table α β γ) :
    (fun p => (t.get p).elim 0 size).support ⊆ t.keys := by
  intro p hp
  rw [Finset.mem_coe, mem_keys]
  intro hn
  simp [hn] at hp

theorem support_finite (t : Table α β γ) : (fun p => (t.get p).elim 0 size).support.Finite :=
  t.keys.finite_toSet.subset (support_subset_keys size t)

theorem total_eq_finsum (t : Table α β γ) : t.total size = ∑ᶠ p, (t.get p).elim 0 size :=
  (finsum_eq_sum_of_support_subset _ (support_subset_keys size t)).symm

/-- The total is a function of what is observed. -/
theorem total_congr {t u : Table α β γ} (h : t.get = u.get) : t.total size = u.total size := by
  rw [total_eq_finsum, total_eq_finsum, h]

/-- The total after a change on the keys `K`. -/
theorem total_add_sum {t u : Table α β γ} (K : Finset (α × β))
    (h : ∀ p, p ∉ K → t.get p = u.get p) :
    t.total size + ∑ p ∈ K, (u.get p).elim 0 size =
      u.total size + ∑ p ∈ K, (t.get p).elim 0 size := by
  rw [total_eq_finsum, total_eq_finsum]
  apply finsum_add_sum_of_eqOn_compl (support_finite size t) (support_finite size u) K
  intro p hp
  rw [h p hp]

/-- The total after a change at one key. -/
theorem total_of_update {t u : Table α β γ} {p : α × β} {v : Option γ}
    (h : t.get = Function.update u.get p v) :
    t.total size + (u.get p).elim 0 size = u.total size + v.elim 0 size := by
  have hoff : ∀ q, q ∉ ({p} : Finset (α × β)) → t.get q = u.get q := by
    intro q hq
    rw [h, Function.update_of_ne (by simpa using hq)]
  simpa [h] using total_add_sum size {p} hoff

@[simp] theorem total_empty : (∅ : Table α β γ).total size = 0 := rfl

theorem le_total (t : Table α β γ) (p : α × β) : (t.get p).elim 0 size ≤ t.total size := by
  by_cases hp : t.get p = none
  · simp [hp]
  · unfold total
    exact Finset.single_le_sum (f := fun q => (t.get q).elim 0 size)
      (fun _ _ => Nat.zero_le _) (mem_keys.mpr hp)

/-- The sum of the sizes of the values stored under the keys in `P`. -/
def totalOn (P : α × β → Prop) [DecidablePred P] (t : Table α β γ) : Nat :=
  ∑ p ∈ t.keys with P p, (t.get p).elim 0 size

section totalOn
variable (P : α × β → Prop) [DecidablePred P]

theorem totalOn_eq_finsum (t : Table α β γ) :
    t.totalOn size P = ∑ᶠ p, if P p then (t.get p).elim 0 size else 0 := by
  have hsupport : (fun p => if P p then (t.get p).elim 0 size else 0).support ⊆ t.keys := by
    intro p hp
    apply support_subset_keys size t
    intro hzero
    simp [hzero] at hp
  rw [totalOn, Finset.sum_filter, finsum_eq_sum_of_support_subset _ hsupport]

theorem totalOn_congr {t u : Table α β γ} (h : t.get = u.get) :
    t.totalOn size P = u.totalOn size P := by
  rw [totalOn_eq_finsum, totalOn_eq_finsum, h]

theorem totalOn_of_update {t u : Table α β γ} {p : α × β} {v : Option γ}
    (h : t.get = Function.update u.get p v) :
    t.totalOn size P + (if P p then (u.get p).elim 0 size else 0) =
      u.totalOn size P + if P p then v.elim 0 size else 0 := by
  set f : α × β → Nat := fun q => if P q then (u.get q).elim 0 size else 0 with hf
  have hfinite : f.support.Finite := by
    refine (support_finite size u).subset ?_
    intro q hq hzero
    simp [hf, hzero] at hq
  have hupdate : (fun q => if P q then (t.get q).elim 0 size else 0) =
      Function.update f p (if P p then v.elim 0 size else 0) := by
    funext q
    by_cases hq : q = p
    · subst hq
      rw [h, Function.update_self, Function.update_self]
    · rw [h, Function.update_of_ne hq, Function.update_of_ne hq]
  rw [totalOn_eq_finsum, totalOn_eq_finsum, hupdate]
  exact finsum_update_add hfinite p _

theorem totalOn_le_total (t : Table α β γ) : t.totalOn size P ≤ t.total size :=
  Finset.sum_le_sum_of_subset (Finset.filter_subset _ _)

end totalOn

end Table

end Maps
