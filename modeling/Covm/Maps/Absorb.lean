import Mathlib.Data.List.Nodup

/-!
# Lists of things with an identifier

A list absorbs another one element by element: an element is added at the end unless one with its
identifier is already there. What is added is `missing`, the first element of each identifier the
list does not have.
-/

namespace Maps

variable {α κ : Type} [DecidableEq κ] (ident : α → κ)

/-- One element. -/
def absorbOne (xs : List α) (y : α) : List α :=
  if xs.any fun x => ident x == ident y then xs else xs ++ [y]

def absorb (xs ys : List α) : List α := ys.foldl (absorbOne ident) xs

/-- What a list with the identifiers `known` does not have. -/
def missing (known : List κ) : List α → List α
  | [] => []
  | y :: ys =>
    if ident y ∈ known then missing known ys else y :: missing (known ++ [ident y]) ys

variable {ident}

theorem absorbOne_eq (xs : List α) (y : α) :
    absorbOne ident xs y = if ident y ∈ xs.map ident then xs else xs ++ [y] := by
  simp [absorbOne]

@[simp] theorem absorb_nil (xs : List α) : absorb ident xs [] = xs := rfl

@[simp] theorem absorb_cons (xs : List α) (y : α) (ys : List α) :
    absorb ident xs (y :: ys) = absorb ident (absorbOne ident xs y) ys := rfl

theorem absorb_eq (xs ys : List α) : absorb ident xs ys = xs ++ missing ident (xs.map ident) ys := by
  induction ys generalizing xs with
  | nil => simp [missing]
  | cons y ys ih =>
    rw [absorb_cons, ih, absorbOne_eq, missing]
    split_ifs with hy
    · rfl
    · simp

theorem mem_missing {known : List κ} {ys : List α} {y : α} :
    y ∈ missing ident known ys ↔ ident y ∉ known ∧ ys.find? (ident · = ident y) = some y := by
  induction ys generalizing known with
  | nil => simp [missing]
  | cons z ys ih =>
    rw [missing]
    by_cases hident : ident z = ident y
    · rw [List.find?_cons_of_pos (by simpa using hident), ← hident]
      split_ifs with hz
      · rw [ih]
        simp [← hident, hz]
      · rw [hident] at hz
        rw [List.mem_cons, ih]
        simp [hident, hz, eq_comm]
    · rw [List.find?_cons_of_neg (by simpa using hident)]
      split_ifs with hz
      · exact ih
      · rw [List.mem_cons, ih]
        have hne : y ≠ z := fun hyz => hident (by rw [hyz])
        simp [hne, Ne.symm hident]

theorem mem_map_missing {known : List κ} {ys : List α} {k : κ} :
    k ∈ (missing ident known ys).map ident ↔ k ∉ known ∧ k ∈ ys.map ident := by
  constructor
  · intro h
    obtain ⟨y, hy, rfl⟩ := List.mem_map.mp h
    obtain ⟨hnew, hfind⟩ := mem_missing.mp hy
    exact ⟨hnew, List.mem_map_of_mem (List.mem_of_find?_eq_some hfind)⟩
  · rintro ⟨hnew, h⟩
    obtain ⟨z, hz, rfl⟩ := List.mem_map.mp h
    obtain ⟨y, hy⟩ := Option.isSome_iff_exists.mp
      (List.find?_isSome.mpr ⟨z, hz, decide_eq_true rfl⟩ : (ys.find? (ident · = ident z)).isSome)
    have hident : ident y = ident z := by simpa using List.find?_some hy
    rw [← hident] at hnew hy ⊢
    exact List.mem_map_of_mem (mem_missing.mpr ⟨hnew, hy⟩)

theorem nodup_missing (known : List κ) (ys : List α) :
    ((missing ident known ys).map ident).Nodup := by
  induction ys generalizing known with
  | nil => exact List.nodup_nil
  | cons y ys ih =>
    rw [missing]
    split_ifs with hy
    · exact ih known
    · rw [List.map_cons, List.nodup_cons]
      refine ⟨fun hmem => ?_, ih _⟩
      exact (mem_map_missing.mp hmem).1 (by simp)

theorem mem_map_absorb {xs ys : List α} {k : κ} :
    k ∈ (absorb ident xs ys).map ident ↔ k ∈ xs.map ident ∨ k ∈ ys.map ident := by
  rw [absorb_eq, List.map_append, List.mem_append, mem_map_missing]
  tauto

/-- A list has nothing to absorb from a list whose identifiers it has. -/
theorem absorb_of_subset {xs ys : List α} (h : ys.map ident ⊆ xs.map ident) :
    absorb ident xs ys = xs := by
  rw [absorb_eq]
  apply List.append_right_eq_self.mpr
  rw [List.eq_nil_iff_forall_not_mem]
  intro y hy
  have hkey := mem_map_missing.mp (List.mem_map_of_mem hy)
  exact hkey.1 (h hkey.2)

theorem nodup_absorb {xs ys : List α} (h : (xs.map ident).Nodup) :
    ((absorb ident xs ys).map ident).Nodup := by
  rw [absorb_eq, List.map_append]
  refine List.nodup_append'.mpr ⟨h, nodup_missing _ ys, ?_⟩
  intro k hk hk'
  exact (mem_map_missing.mp hk').1 hk

/-- Leaving out what the list has anyway changes nothing. -/
theorem missing_filter (known : List κ) (ys : List α) :
    missing ident known (ys.filter (ident · ∉ known)) = missing ident known ys := by
  suffices hsub : ∀ known', known ⊆ known' →
      missing ident known' (ys.filter (ident · ∉ known)) = missing ident known' ys from
    hsub known (List.Subset.refl known)
  induction ys with
  | nil => exact fun _ _ => rfl
  | cons y ys ih =>
    intro known' hsub
    by_cases hy : ident y ∈ known
    · rw [List.filter_cons_of_neg (by simpa using hy), missing, if_pos (hsub hy), ih known' hsub]
    · rw [List.filter_cons_of_pos (by simpa using hy), missing, missing, ih known' hsub,
        ih _ (List.Subset.trans hsub (List.subset_append_left _ _))]

/-- In a list without repeated identifiers an element is found by its identifier. -/
theorem find_of_nodup {xs : List α} (h : (xs.map ident).Nodup) {x : α} (hx : x ∈ xs) :
    xs.find? (ident · = ident x) = some x := by
  induction xs with
  | nil => simp at hx
  | cons y xs ih =>
    rw [List.map_cons, List.nodup_cons] at h
    rcases List.mem_cons.mp hx with rfl | hx
    · simp
    · rw [List.find?_cons_of_neg, ih h.2 hx]
      intro heq
      rw [of_decide_eq_true heq] at h
      exact h.1 (List.mem_map_of_mem hx)

end Maps
