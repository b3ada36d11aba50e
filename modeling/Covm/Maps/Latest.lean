import Covm.Maps.Absorb
import Mathlib.Data.Finset.Card
import Mathlib.Data.List.Find
import Mathlib.Data.List.Induction

/-!
# The last element of each identifier

A list that replaces an element by the next one with its identifier holds, of everything that was
put into it, exactly the last element of each identifier (`IsLatest`).
-/

namespace Maps

variable {α κ : Type} [DecidableEq κ] (ident : α → κ)

/-- The last element with an identifier. -/
def latest (xs : List α) (k : κ) : Option α := xs.reverse.find? (ident · = k)

/-- An element takes the place of the first one with its identifier, or comes at the end. -/
def upsert (xs : List α) (x : α) : List α :=
  match xs.findIdx? (ident · = ident x) with
  | some i => xs.set i x
  | none => xs ++ [x]

/-- The list holds the last element of each identifier of the log, and nothing else. -/
structure IsLatest (log xs : List α) : Prop where
  nodup : (xs.map ident).Nodup
  find : ∀ k, xs.find? (ident · = k) = latest ident log k

variable {ident}

theorem latest_concat (xs : List α) (x : α) (k : κ) :
    latest ident (xs ++ [x]) k = if ident x = k then some x else latest ident xs k := by
  rw [latest, List.reverse_concat]
  split_ifs with h
  · exact List.find?_cons_of_pos (by simpa using h)
  · exact List.find?_cons_of_neg (by simpa using h)

theorem mem_of_latest {xs : List α} {k : κ} {x : α} (h : latest ident xs k = some x) :
    x ∈ xs ∧ ident x = k :=
  ⟨List.mem_reverse.mp (List.mem_of_find?_eq_some h), by simpa using List.find?_some h⟩

theorem exists_latest (ident : α → κ) {xs : List α} {x : α} (h : x ∈ xs) :
    ∃ y, latest ident xs (ident x) = some y := by
  rw [← Option.isSome_iff_exists, latest, List.find?_isSome]
  exact ⟨x, List.mem_reverse.mpr h, by simp⟩

theorem upsert_nil (x : α) : upsert ident [] x = [x] := rfl

theorem upsert_cons (y : α) (ys : List α) (x : α) :
    upsert ident (y :: ys) x = if ident y = ident x then x :: ys else y :: upsert ident ys x := by
  unfold upsert
  rw [List.findIdx?_cons]
  by_cases h : ident y = ident x
  · simp [h]
  · simp only [h, decide_false, Bool.false_eq_true, if_false]
    cases ys.findIdx? (ident · = ident x) <;> rfl

theorem map_upsert (xs : List α) (x : α) : (upsert ident xs x).map ident =
    if ident x ∈ xs.map ident then xs.map ident else xs.map ident ++ [ident x] := by
  induction xs with
  | nil => rfl
  | cons y ys ih =>
    rw [upsert_cons]
    by_cases h : ident y = ident x
    · simp [h]
    · rw [if_neg h, List.map_cons, ih]
      by_cases hx : ident x ∈ ys.map ident
      · simp only [hx, if_true, List.map_cons, List.mem_cons, or_true]
      · simp only [hx, if_false, List.map_cons, List.mem_cons, Ne.symm h, or_self,
          List.cons_append]

theorem find_upsert (xs : List α) (x : α) (k : κ) :
    (upsert ident xs x).find? (ident · = k) =
      if ident x = k then some x else xs.find? (ident · = k) := by
  induction xs with
  | nil => by_cases h : ident x = k <;> simp [upsert_nil, h]
  | cons y ys ih =>
    rw [upsert_cons]
    by_cases hy : ident y = ident x
    · by_cases h : ident x = k <;> simp [hy, h]
    · rw [if_neg hy]
      by_cases h : ident x = k
      · rw [List.find?_cons_of_neg (by simpa [← h] using hy), ih, if_pos h, if_pos h]
      · rw [if_neg h] at ih ⊢
        by_cases hk : ident y = k <;> simp [hk, ih]

theorem isLatest_nil : IsLatest ident [] [] := ⟨List.nodup_nil, fun _ => rfl⟩

theorem IsLatest.upsert {log xs : List α} (h : IsLatest ident log xs) (x : α) :
    IsLatest ident (log ++ [x]) (upsert ident xs x) where
  nodup := by
    rw [map_upsert]
    split_ifs with hx
    · exact h.nodup
    · rw [← List.concat_eq_append, List.nodup_concat]
      exact ⟨hx, h.nodup⟩
  find k := by rw [find_upsert, latest_concat, h.find]

theorem IsLatest.mem_iff {log xs : List α} (h : IsLatest ident log xs) {x : α} :
    x ∈ xs ↔ latest ident log (ident x) = some x := by
  rw [← h.find]
  constructor
  · exact find_of_nodup h.nodup
  · exact List.mem_of_find?_eq_some

/-- There is one element for each identifier of the log. -/
theorem IsLatest.toFinset_eq {log xs : List α} (h : IsLatest ident log xs) :
    (xs.map ident).toFinset = (log.map ident).toFinset := by
  ext k
  simp only [List.mem_toFinset, List.mem_map]
  constructor
  · rintro ⟨x, hx, rfl⟩
    exact ⟨x, (mem_of_latest (h.mem_iff.mp hx)).1, rfl⟩
  · rintro ⟨x, hx, rfl⟩
    obtain ⟨y, hy⟩ := exists_latest ident hx
    have hident := (mem_of_latest hy).2
    exact ⟨y, h.mem_iff.mpr (hident ▸ hy), hident⟩

theorem IsLatest.length {log xs : List α} (h : IsLatest ident log xs) :
    xs.length = (log.map ident).toFinset.card := by
  rw [← h.toFinset_eq, List.toFinset_card_of_nodup h.nodup, List.length_map]

theorem exists_isLatest (ident : α → κ) (log : List α) : ∃ xs, IsLatest ident log xs := by
  induction log using List.reverseRecOn with
  | nil => exact ⟨[], isLatest_nil⟩
  | append_singleton log x ih =>
    obtain ⟨xs, h⟩ := ih
    exact ⟨_, h.upsert x⟩

/-- Identifiers may be told apart more coarsely, as long as they stay apart. -/
theorem IsLatest.of_comp {κ' : Type} [DecidableEq κ'] {f : κ → κ'} {log xs : List α}
    (h : IsLatest (f ∘ ident) log xs)
    (hf : ∀ x ∈ log, ∀ y ∈ log, f (ident x) = f (ident y) → ident x = ident y) :
    IsLatest ident log xs where
  nodup := by
    have hnodup := h.nodup
    rw [← List.map_map] at hnodup
    exact hnodup.of_map f
  find k := by
    have hmem : ∀ x ∈ xs, x ∈ log := fun x hx => (mem_of_latest (h.mem_iff.mp hx)).1
    by_cases hk : ∃ y ∈ log, ident y = k
    · obtain ⟨y, hy, rfl⟩ := hk
      have hsame : ∀ x ∈ log, (ident x = ident y ↔ (f ∘ ident) x = (f ∘ ident) y) :=
        fun x hx => ⟨congrArg f, hf x hx y hy⟩
      have hfind := h.find ((f ∘ ident) y)
      rw [latest] at hfind ⊢
      refine Eq.trans (List.find?_congr fun x hx => ?_) (hfind.trans ?_)
      · exact decide_eq_decide.mpr (hsame x (hmem x hx))
      · refine List.find?_congr fun x hx => ?_
        exact decide_eq_decide.mpr (hsame x (List.mem_reverse.mp hx)).symm
    · have hnone : ∀ ys : List α, (∀ x ∈ ys, x ∈ log) → ys.find? (ident · = k) = none := by
        intro ys hys
        rw [List.find?_eq_none]
        intro x hx hident
        exact hk ⟨x, hys x hx, of_decide_eq_true hident⟩
      rw [latest, hnone xs hmem, hnone log.reverse fun x hx => List.mem_reverse.mp hx]

end Maps
