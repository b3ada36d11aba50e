import Mathlib.Data.Finset.Card
import Mathlib.Data.Finset.SDiff
import Mathlib.Logic.Relation
import Mathlib.Tactic.Common

/-!
# Depth-first search

`visit next fuel k order` comes to the key `k` and then to what `k` leads to, one after the other;
`order` lists the keys the search has come to, each of which it leaves alone from then on. A key may
have no successors but an error, which ends the search.

A search that ends well has listed every key that can be reached, once (`Explores`), and it ends with
an error only if a key with this error can be reached. If only finitely many keys have successors,
then fuel above their number is enough (`explore_cases`), whatever cycles there are.
-/

namespace Covm.Partial

variable {K ε : Type}

section loop
variable {σ κ : Type} {f : σ → κ → Option (Except ε σ)} {k : κ} {ks : List κ} {s s' : σ}

theorem foldlM_cons_of_ok (h : f s k = some (.ok s')) :
    (k :: ks).foldlM (m := ExceptT ε Option) f s = ks.foldlM (m := ExceptT ε Option) f s' := by
  show Option.bind (f s k) _ = _
  rw [h]
  rfl

theorem foldlM_cons_of_error {e : ε} (h : f s k = some (.error e)) :
    (k :: ks).foldlM (m := ExceptT ε Option) f s = some (.error e) := by
  show Option.bind (f s k) _ = _
  rw [h]
  rfl

/-- The first round of a loop that ends, well or with an error. -/
theorem foldlM_cons_cases {r : Except ε σ}
    (h : (k :: ks).foldlM (m := ExceptT ε Option) f s = some r) :
    (∃ s', f s k = some (.ok s') ∧ ks.foldlM (m := ExceptT ε Option) f s' = some r) ∨
      ∃ e, f s k = some (.error e) ∧ r = .error e := by
  cases hk : f s k with
  | none =>
    have hnone : (k :: ks).foldlM (m := ExceptT ε Option) f s = none := by
      show Option.bind (f s k) _ = _
      rw [hk]
      rfl
    rw [hnone] at h
    cases h
  | some r' =>
    cases r' with
    | ok s' =>
      rw [foldlM_cons_of_ok hk] at h
      exact .inl ⟨s', rfl, h⟩
    | error e =>
      rw [foldlM_cons_of_error hk] at h
      cases h
      exact .inr ⟨e, rfl, rfl⟩

end loop

variable (next : K → Except ε (List K))

def Edge (a b : K) : Prop := ∃ bs, next a = .ok bs ∧ b ∈ bs

def ReachedFrom (ks : List K) (x : K) : Prop := ∃ k ∈ ks, Relation.ReflTransGen (Edge next) k x

/-! ### What a search has listed -/

variable {next} {k : K} {ks ls order order' : List K}

/-- The search that came to `ks` went on from `order` to `order'`. -/
structure Explores (next : K → Except ε (List K)) (ks order order' : List K) : Prop where
  keeps : order <+: order'
  starts : ∀ k ∈ ks, k ∈ order'
  reached : ∀ x ∈ order', x ∈ order ∨ ReachedFrom next ks x
  closed : ∀ x ∈ order', x ∈ order ∨ ∃ ys, next x = .ok ys ∧ ∀ y ∈ ys, y ∈ order'
  nodup : order.Nodup → order'.Nodup

theorem ReachedFrom.mono (h : ReachedFrom next ks k) (hsub : ks ⊆ ls) : ReachedFrom next ls k := by
  obtain ⟨start, hstart, hreach⟩ := h
  exact ⟨start, hsub hstart, hreach⟩

/-- What the successors of a key lead to, the key leads to. -/
theorem ReachedFrom.head (hk : next k = .ok ks) {x : K} (h : ReachedFrom next ks x) :
    ReachedFrom next [k] x := by
  obtain ⟨start, hstart, hreach⟩ := h
  exact ⟨k, List.mem_singleton_self k, .head ⟨ks, hk, hstart⟩ hreach⟩

namespace Explores

theorem nil (order : List K) : Explores next [] order order :=
  ⟨List.prefix_rfl, nofun, fun _ => .inl, fun _ => .inl, id⟩

theorem of_mem (h : k ∈ order) : Explores next [k] order order where
  keeps := List.prefix_rfl
  starts _ hx := List.mem_singleton.mp hx ▸ h
  reached _ := .inl
  closed _ := .inl
  nodup := id

theorem trans {order₁ : List K} (h₁ : Explores next ks order order₁)
    (h₂ : Explores next ls order₁ order') : Explores next (ks ++ ls) order order' where
  keeps := h₁.keeps.trans h₂.keeps
  starts k hk := by
    rcases List.mem_append.mp hk with hk | hk
    · exact h₂.keeps.subset (h₁.starts k hk)
    · exact h₂.starts k hk
  reached x hx := by
    rcases h₂.reached x hx with hx | hx
    · exact (h₁.reached x hx).imp_right fun hr => hr.mono (List.subset_append_left ks ls)
    · exact .inr (hx.mono (List.subset_append_right ks ls))
  closed x hx := by
    rcases h₂.closed x hx with hx | hx
    · rcases h₁.closed x hx with hx | ⟨ys, hys, hmem⟩
      · exact .inl hx
      · exact .inr ⟨ys, hys, fun y hy => h₂.keeps.subset (hmem y hy)⟩
    · exact .inr hx
  nodup h := h₂.nodup (h₁.nodup h)

theorem of_successors (hk : next k = .ok ks) (hnew : k ∉ order)
    (h : Explores next ks (order ++ [k]) order') : Explores next [k] order order' where
  keeps := (List.prefix_append order [k]).trans h.keeps
  starts x hx := h.keeps.subset (List.mem_append_right order hx)
  reached x hx := by
    rcases h.reached x hx with hx | hx
    · exact (List.mem_append.mp hx).imp_right fun hx => ⟨x, hx, .refl⟩
    · exact .inr (hx.head hk)
  closed x hx := by
    rcases h.closed x hx with hx | hx
    · refine (List.mem_append.mp hx).imp_right fun hx => ?_
      rw [List.mem_singleton.mp hx]
      exact ⟨ks, hk, h.starts⟩
    · exact .inr hx
  nodup hnodup := by
    apply h.nodup
    rw [← List.concat_eq_append, List.nodup_concat]
    exact ⟨hnew, hnodup⟩

/-- From nothing, the search lists what can be reached. -/
theorem mem_iff (h : Explores next ks [] order') {x : K} :
    x ∈ order' ↔ ReachedFrom next ks x := by
  constructor
  · exact fun hx => (h.reached x hx).resolve_left (List.not_mem_nil)
  · rintro ⟨k, hk, hreach⟩
    induction hreach with
    | refl => exact h.starts k hk
    | tail _ hedge ih =>
      obtain ⟨bs, hbs, hb⟩ := hedge
      obtain ⟨ys, hys, hmem⟩ := (h.closed _ ih).resolve_left (List.not_mem_nil)
      rw [hbs] at hys
      cases hys
      exact hmem _ hb

theorem next_ok (h : Explores next ks [] order') {x : K} (hx : x ∈ order') :
    ∃ ys, next x = .ok ys ∧ ∀ y ∈ ys, y ∈ order' :=
  (h.closed x hx).resolve_left (List.not_mem_nil)

end Explores

/-! ### The search -/

variable (next) [DecidableEq K]

def visit : Nat → K → List K → Option (Except ε (List K))
  | 0, _, _ => none
  | fuel + 1, k, order =>
    if k ∈ order then some (.ok order)
    else
      match next k with
      | .error e => some (.error e)
      | .ok ks => ks.foldlM (m := ExceptT ε Option) (fun order k => visit fuel k order) (order ++ [k])

def visitAll (fuel : Nat) (ks order : List K) : Option (Except ε (List K)) :=
  ks.foldlM (m := ExceptT ε Option) (fun order k => visit next fuel k order) order

variable {next} {fuel : Nat}

theorem visit_of_mem (h : k ∈ order) : visit next (fuel + 1) k order = some (.ok order) := by
  rw [visit, if_pos h]

theorem visit_of_ok (h : k ∉ order) (hk : next k = .ok ks) :
    visit next (fuel + 1) k order = visitAll next fuel ks (order ++ [k]) := by
  simp only [visit, if_neg h, hk]
  rfl

theorem visit_of_error {e : ε} (h : k ∉ order) (hk : next k = .error e) :
    visit next (fuel + 1) k order = some (.error e) := by
  simp only [visit, if_neg h, hk]

@[simp] theorem visitAll_nil : visitAll next fuel [] order = some (.ok order) := rfl

theorem visitAll_singleton : visitAll next fuel [k] order = visit next fuel k order := by
  show Option.bind (visit next fuel k order) _ = _
  cases visit next fuel k order with
  | none => rfl
  | some r => cases r <;> rfl

/-! ### More fuel -/

theorem visitAll_mono_of {fuel' : Nat}
    (h : ∀ k order r, visit next fuel k order = some r → visit next fuel' k order = some r)
    (ks order : List K) {r : Except ε (List K)} (hr : visitAll next fuel ks order = some r) :
    visitAll next fuel' ks order = some r := by
  induction ks generalizing order with
  | nil => exact hr
  | cons k ks ih =>
    rcases foldlM_cons_cases hr with ⟨order', hk, hrest⟩ | ⟨e, hk, rfl⟩
    · exact (foldlM_cons_of_ok (h k order _ hk)).trans (ih order' hrest)
    · exact foldlM_cons_of_error (h k order _ hk)

theorem visit_succ (fuel : Nat) : ∀ (k : K) (order : List K) (r : Except ε (List K)),
    visit next fuel k order = some r → visit next (fuel + 1) k order = some r := by
  induction fuel with
  | zero => exact fun _ _ _ h => nomatch h
  | succ fuel ih =>
    intro k order r h
    by_cases hk : k ∈ order
    · rw [visit_of_mem hk] at h ⊢
      exact h
    · cases hn : next k with
      | error e =>
        rw [visit_of_error hk hn] at h ⊢
        exact h
      | ok ks =>
        rw [visit_of_ok hk hn] at h ⊢
        exact visitAll_mono_of ih ks _ h

/-- A search that has ended does not use more fuel. -/
theorem visitAll_mono {fuel' : Nat} (hle : fuel ≤ fuel') {r : Except ε (List K)}
    (h : visitAll next fuel ks order = some r) : visitAll next fuel' ks order = some r := by
  induction fuel', hle using Nat.le_induction with
  | base => exact h
  | succ n _ ih => exact visitAll_mono_of (visit_succ n) ks order ih

/-! ### A search that ends well -/

theorem visitAll_explores_of
    (h : ∀ k order order', visit next fuel k order = some (.ok order') →
      Explores next [k] order order')
    (ks : List K) : ∀ order order', visitAll next fuel ks order = some (.ok order') →
      Explores next ks order order' := by
  induction ks with
  | nil =>
    intro order order' hr
    cases hr
    exact .nil order
  | cons k ks ih =>
    intro order order' hr
    rcases foldlM_cons_cases hr with ⟨order₁, hk, hrest⟩ | ⟨e, -, hr⟩
    · exact (h k order order₁ hk).trans (ih order₁ order' hrest)
    · cases hr

theorem visit_explores (fuel : Nat) : ∀ (k : K) (order order' : List K),
    visit next fuel k order = some (.ok order') → Explores next [k] order order' := by
  induction fuel with
  | zero => exact fun _ _ _ h => nomatch h
  | succ fuel ih =>
    intro k order order' h
    by_cases hk : k ∈ order
    · rw [visit_of_mem hk] at h
      cases h
      exact .of_mem hk
    · cases hn : next k with
      | error e =>
        rw [visit_of_error hk hn] at h
        cases h
      | ok ks =>
        rw [visit_of_ok hk hn] at h
        exact .of_successors hn hk (visitAll_explores_of ih ks _ order' h)

theorem visitAll_explores (h : visitAll next fuel ks order = some (.ok order')) :
    Explores next ks order order' := visitAll_explores_of (visit_explores fuel) ks order order' h

/-- A key that is new is listed first. -/
theorem visit_head (hk : k ∉ order) (h : visit next fuel k order = some (.ok order')) :
    order ++ [k] <+: order' := by
  cases fuel with
  | zero => exact nomatch h
  | succ fuel =>
    cases hn : next k with
    | error e =>
      rw [visit_of_error hk hn] at h
      cases h
    | ok ks =>
      rw [visit_of_ok hk hn] at h
      exact (visitAll_explores h).keeps

/-! ### What ends a search early -/

theorem visitAll_error_of {e : ε}
    (h : ∀ k order, visit next fuel k order = some (.error e) →
      ∃ x, ReachedFrom next [k] x ∧ next x = .error e)
    (ks : List K) : ∀ order, visitAll next fuel ks order = some (.error e) →
      ∃ x, ReachedFrom next ks x ∧ next x = .error e := by
  induction ks with
  | nil => exact fun _ hr => nomatch hr
  | cons k ks ih =>
    intro order hr
    rcases foldlM_cons_cases hr with ⟨order₁, -, hrest⟩ | ⟨e, hk, hr⟩
    · obtain ⟨x, hx, he⟩ := ih order₁ hrest
      exact ⟨x, hx.mono (List.subset_cons_self k ks), he⟩
    · cases hr
      obtain ⟨x, hx, he⟩ := h k order hk
      exact ⟨x, hx.mono (by simp), he⟩

theorem visit_error {e : ε} (fuel : Nat) : ∀ (k : K) (order : List K),
    visit next fuel k order = some (.error e) → ∃ x, ReachedFrom next [k] x ∧ next x = .error e := by
  induction fuel with
  | zero => exact fun _ _ h => nomatch h
  | succ fuel ih =>
    intro k order h
    by_cases hk : k ∈ order
    · rw [visit_of_mem hk] at h
      cases h
    · cases hn : next k with
      | error e' =>
        rw [visit_of_error hk hn] at h
        cases h
        exact ⟨k, ⟨k, List.mem_singleton_self k, .refl⟩, hn⟩
      | ok ks =>
        rw [visit_of_ok hk hn] at h
        obtain ⟨x, hx, he⟩ := visitAll_error_of ih ks _ h
        exact ⟨x, hx.head hn, he⟩

theorem visitAll_error {e : ε} (h : visitAll next fuel ks order = some (.error e)) :
    ∃ x, ReachedFrom next ks x ∧ next x = .error e := visitAll_error_of (visit_error fuel) ks order h

/-! ### The end of a search -/

/-- Only the keys of a finite set have successors. -/
def Spans (next : K → Except ε (List K)) (keys : Finset K) : Prop :=
  ∀ k ks, next k = .ok ks → k ∉ keys → ks = []

/-- The keys with successors that a search has not come to. -/
def unvisited (keys : Finset K) (order : List K) : Finset K := keys \ order.toFinset

theorem unvisited_subset {keys : Finset K} (h : order <+: order') :
    unvisited keys order' ⊆ unvisited keys order := by
  apply Finset.sdiff_subset_sdiff subset_rfl
  intro k hk
  rw [List.mem_toFinset] at hk ⊢
  exact h.subset hk

theorem card_unvisited_concat {keys : Finset K} (hk : k ∈ keys) (hnew : k ∉ order) :
    (unvisited keys (order ++ [k])).card < (unvisited keys order).card := by
  apply Finset.card_lt_card
  refine (Finset.ssubset_iff_of_subset (unvisited_subset (List.prefix_append order [k]))).mpr
    ⟨k, ?_, ?_⟩
  · simp [unvisited, hk, hnew]
  · simp [unvisited]

theorem visitAll_returns_of {keys : Finset K}
    (h : ∀ k order, (unvisited keys order).card < fuel → ∃ r, visit next fuel k order = some r)
    (ks : List K) : ∀ order, (unvisited keys order).card < fuel →
      ∃ r, visitAll next fuel ks order = some r := by
  induction ks with
  | nil => exact fun order _ => ⟨_, rfl⟩
  | cons k ks ih =>
    intro order hfuel
    obtain ⟨r, hr⟩ := h k order hfuel
    cases r with
    | error e => exact ⟨_, foldlM_cons_of_error hr⟩
    | ok order₁ =>
      rw [visitAll, foldlM_cons_of_ok hr]
      apply ih
      have hkeeps : order <+: order₁ := (visit_explores fuel k order order₁ hr).keeps
      exact (Finset.card_le_card (unvisited_subset hkeeps)).trans_lt hfuel

theorem visit_returns {keys : Finset K} (hspans : Spans next keys) (fuel : Nat) :
    ∀ (k : K) (order : List K), (unvisited keys order).card < fuel →
      ∃ r, visit next fuel k order = some r := by
  induction fuel with
  | zero => exact fun _ _ h => absurd h (Nat.not_lt_zero _)
  | succ fuel ih =>
    intro k order hfuel
    by_cases hk : k ∈ order
    · exact ⟨_, visit_of_mem hk⟩
    · cases hn : next k with
      | error e => exact ⟨_, visit_of_error hk hn⟩
      | ok ks =>
        rw [visit_of_ok hk hn]
        by_cases hkey : k ∈ keys
        · apply visitAll_returns_of ih
          have hcard := card_unvisited_concat hkey hk
          omega
        · rw [hspans k ks hn hkey]
          exact ⟨_, rfl⟩

/-- A search from nothing ends, with everything that can be reached or with an error. -/
theorem explore_cases {keys : Finset K} (hspans : Spans next keys) (ks : List K) :
    (∃ order, (∀ fuel, keys.card < fuel → visitAll next fuel ks [] = some (.ok order)) ∧
        Explores next ks [] order) ∨
      ∃ e x, (∀ fuel, keys.card < fuel → visitAll next fuel ks [] = some (.error e)) ∧
        ReachedFrom next ks x ∧ next x = .error e := by
  have hcard : (unvisited keys []).card < keys.card + 1 := by simp [unvisited]
  obtain ⟨r, hr⟩ := visitAll_returns_of (visit_returns hspans (keys.card + 1)) ks [] hcard
  have hall : ∀ fuel, keys.card < fuel → visitAll next fuel ks [] = some r :=
    fun fuel hfuel => visitAll_mono hfuel hr
  cases r with
  | ok order => exact .inl ⟨order, hall, visitAll_explores hr⟩
  | error e =>
    obtain ⟨x, hx, he⟩ := visitAll_error hr
    exact .inr ⟨e, x, hall, hx, he⟩

end Covm.Partial
