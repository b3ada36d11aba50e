import Mathlib.Data.Finmap
import Mathlib.Logic.Relation

/-!
# Pointers

A finite map from a type to itself, seen as pointers: every element points to at most one. Pointing
an element somewhere else closes a cycle exactly if the element was to be reached from there, along
the old pointers, its own old one included.
-/

namespace Maps

open Relation

/-- An element nothing points to closes no cycle, wherever it points. -/
theorem acyclic_of_fresh {α : Type} {r r' : α → α → Prop} {c : α} (hfresh : ∀ a, ¬ r' a c)
    (hold : ∀ a b, r' a b → a ≠ c → r a b) (h : ∀ a, ¬ TransGen r a a) (a : α) :
    ¬ TransGen r' a a := by
  have hway : ∀ x y, TransGen r' x y → x ≠ c → TransGen r x y := by
    intro x y hxy
    induction hxy using TransGen.head_induction_on with
    | @single x hxy => exact fun hx => .single (hold x y hxy hx)
    | @head x z hxz _ ih =>
      have hz : z ≠ c := fun heq => hfresh x (heq ▸ hxz)
      exact fun hx => .head (hold x z hxz hx) (ih hz)
  intro hcycle
  obtain ⟨b, -, hb⟩ := TransGen.tail'_iff.mp hcycle
  have ha : a ≠ c := fun heq => hfresh b (heq ▸ hb)
  exact h a (hway a a hcycle ha)

variable {α : Type} [DecidableEq α]

/-- A partial map of a type to itself. -/
abbrev Pointers (α : Type) := Finmap fun _ : α => α

namespace Pointers

/-- `a` points to `b`. -/
def Points (m : Pointers α) (a b : α) : Prop := m.lookup a = some b

/-- `b` is where the pointers lead from `a`, in any number of steps. -/
def Leads (m : Pointers α) : α → α → Prop := ReflTransGen m.Points

/-- No element is reached from itself; in particular none points to itself. -/
def Acyclic (m : Pointers α) : Prop := ∀ a, ¬ TransGen m.Points a a

variable {m : Pointers α} {a b c d : α}

theorem Points.unique (h : m.Points a b) (h' : m.Points a c) : b = c :=
  Option.some.inj (h.symm.trans h')

theorem points_insert : Points (m.insert c d) a b ↔ if a = c then b = d else m.Points a b := by
  unfold Points
  split_ifs with h
  · rw [h, Finmap.lookup_insert]
    simp [eq_comm]
  · rw [Finmap.lookup_insert_of_ne m h]

theorem points_erase : Points (m.erase c) a b ↔ a ≠ c ∧ m.Points a b := by
  unfold Points
  by_cases h : a = c
  · subst h
    simp [Finmap.lookup_erase]
  · simp [h, Finmap.lookup_erase_ne h]

theorem acyclic_empty : Acyclic (∅ : Pointers α) := by
  intro a h
  obtain ⟨b, hb, -⟩ := TransGen.head'_iff.mp h
  simp [Points] at hb

theorem Acyclic.erase (h : m.Acyclic) (c : α) : Acyclic (m.erase c) := by
  intro a ha
  apply h a
  exact TransGen.mono (fun _ _ hpoints => (points_erase.mp hpoints).2) _ _ ha

/-- Where a pointer starts does not matter for what leads there. -/
theorem leads_insert : Leads (m.insert c d) a c ↔ m.Leads a c := by
  constructor
  · intro h
    induction h using ReflTransGen.head_induction_on with
    | refl => exact .refl
    | @head a b hab _ ih =>
      rw [points_insert] at hab
      split_ifs at hab with hac
      · exact hac ▸ .refl
      · exact .head hab ih
  · intro h
    induction h using ReflTransGen.head_induction_on with
    | refl => exact .refl
    | @head a b hab _ ih =>
      by_cases hac : a = c
      · exact hac ▸ .refl
      · refine .head (points_insert.mpr ?_) ih
        rw [if_neg hac]
        exact hab

/-- A way along the new pointers uses only old ones, or the one that was set. -/
theorem transGen_insert (h : TransGen (Points (m.insert c d)) a b) :
    TransGen m.Points a b ∨ Leads (m.insert c d) a c ∧ Leads (m.insert c d) d b := by
  induction h with
  | @single b hab =>
    by_cases hac : a = c
    · subst hac
      have hb : b = d := by simpa [points_insert] using hab
      exact .inr ⟨.refl, hb ▸ .refl⟩
    · rw [points_insert, if_neg hac] at hab
      exact .inl (.single hab)
  | @tail x b hax hxb ih =>
    rcases ih with hold | ⟨hc, hd⟩
    · by_cases hxc : x = c
      · subst hxc
        have hb : b = d := by simpa [points_insert] using hxb
        exact .inr ⟨hax.to_reflTransGen, hb ▸ .refl⟩
      · rw [points_insert, if_neg hxc] at hxb
        exact .inl (hold.tail hxb)
    · exact .inr ⟨hc, hd.tail hxb⟩

theorem acyclic_insert_iff (h : m.Acyclic) : Acyclic (m.insert c d) ↔ ¬ m.Leads d c := by
  constructor
  · intro hacyclic hleads
    apply hacyclic c
    exact TransGen.head' (points_insert.mpr (by simp)) (leads_insert.mpr hleads)
  · intro hleads a ha
    rcases transGen_insert ha with hold | ⟨hc, hd⟩
    · exact h a hold
    · exact hleads (leads_insert.mp (hd.trans hc))

end Pointers

end Maps
