import Covm.Partial.Basic
import Mathlib.Logic.Relation

/-!
# Small-step machines

A machine repeats `step` while it is `running`. `Machine.exec` is the fuelled loop one would write
for it, and `Machine.Run n s r` its outcome in `n` steps; the two agree (`Machine.lim_exec`).

To reason about a machine by parts, its states are seen as locations `κ` paired with data `σ`
(`Machine.Located`). A *segment* says what the machine does between two locations:
`Segment d p m k` means that from location `p` it computes `m` and then stands at `k a`, where `a`
is the result of `m`, and that this takes at least `d` steps. Segments compose with the monad
operations of `Sem`: `Segment.bind`, and `Segment.whileDo` for a loop that comes back to its
head. Each has two halves, so that from a segment that ends at a halted location one gets the
outcomes of the machine exactly (`Segment.outcome_iff`).
-/

namespace Covm.Partial

variable {ε ς κ σ α β : Type}

structure Machine (ε ς : Type) where
  running : ς → Bool
  step : Comp ε ς Unit

namespace Machine

variable (M : Machine ε ς)

/-- At most `fuel` steps. -/
def exec (fuel : Nat) : Comp ε ς Unit :=
  whileFuel (Comp.asks M.running) M.step fuel

def Step (s t : ς) : Prop := M.running s = true ∧ M.step s = .ok () t

def Faults (s : ς) (e : ε) (t : ς) : Prop := M.running s = true ∧ M.step s = .error (.fault e) t

def Reaches : ς → ς → Prop := Relation.ReflTransGen M.Step

/-- The outcome of a run, with its number of successful steps. -/
inductive Run : Nat → ς → Outcome ε ς Unit → Prop
  | halt {s : ς} : M.running s = false → Run 0 s (.ok () s)
  | fault {s t : ς} {e : ε} : M.Faults s e t → Run 0 s (.error e t)
  | step {n : Nat} {s t : ς} {r : Outcome ε ς Unit} : M.Step s t → Run n t r → Run (n + 1) s r

/-- The outcomes of a machine. -/
def outcome : Sem ε ς Unit := fun s r => ∃ n, M.Run n s r

variable {M}

theorem Step.deterministic {s t t' : ς} (h : M.Step s t) (h' : M.Step s t') : t = t' := by
  have := h.2.symm.trans h'.2
  cases this
  rfl

theorem Step.not_fault {s t t' : ς} {e : ε} (h : M.Step s t) (h' : M.Faults s e t') : False := by
  have := h.2.symm.trans h'.2
  cases this

theorem Run.inv_step {n : Nat} {s t : ς} {r : Outcome ε ς Unit} (h : M.Run n s r)
    (hst : M.Step s t) : ∃ n', n = n' + 1 ∧ M.Run n' t r := by
  cases h with
  | halt hh => exact absurd hst.1 (by simp [hh])
  | fault hf => exact (hst.not_fault hf).elim
  | step hst' h => exact ⟨_, rfl, hst.deterministic hst' ▸ h⟩

theorem Run.inv_fault {n : Nat} {s t : ς} {e : ε} {r : Outcome ε ς Unit} (h : M.Run n s r)
    (hf : M.Faults s e t) : r = .error e t := by
  cases h with
  | halt hh => exact absurd hf.1 (by simp [hh])
  | fault hf' =>
    have := hf.2.symm.trans hf'.2
    cases this
    rfl
  | step hst _ => exact (hst.not_fault hf).elim

theorem Run.inv_halt {n : Nat} {s : ς} {r : Outcome ε ς Unit} (h : M.Run n s r)
    (hh : M.running s = false) : r = .ok () s := by
  cases h with
  | halt _ => rfl
  | fault hf => exact absurd hf.1 (by simp [hh])
  | step hst _ => exact absurd hst.1 (by simp [hh])

theorem Reaches.outcome {s t : ς} (h : M.Reaches s t) {r : Outcome ε ς Unit}
    (hr : M.outcome t r) : M.outcome s r := by
  induction h using Relation.ReflTransGen.head_induction_on with
  | refl => exact hr
  | head hst _ ih =>
    obtain ⟨n, hn⟩ := ih
    exact ⟨n + 1, .step hst hn⟩

/-- How a machine ends, in terms of the last state it reaches. -/
theorem outcome_iff_reaches {s : ς} {r : Outcome ε ς Unit} :
    M.outcome s r ↔ ∃ t, M.Reaches s t ∧
      ((M.running t = false ∧ r = .ok () t) ∨ ∃ e u, M.Faults t e u ∧ r = .error e u) := by
  constructor
  · rintro ⟨n, h⟩
    induction h with
    | @halt s hh => exact ⟨s, .refl, .inl ⟨hh, rfl⟩⟩
    | @fault s t e hf => exact ⟨s, .refl, .inr ⟨e, t, hf, rfl⟩⟩
    | step hst _ ih =>
      obtain ⟨u, hu, hr⟩ := ih
      exact ⟨u, .head hst hu, hr⟩
  · rintro ⟨t, ht, (⟨hh, rfl⟩ | ⟨e, u, hf, rfl⟩)⟩
    · exact Reaches.outcome ht ⟨0, .halt hh⟩
    · exact Reaches.outcome ht ⟨0, .fault hf⟩

/-- What every step preserves holds of every state reached. -/
theorem Reaches.invariant {P : ς → Prop} (hstep : ∀ s t, P s → M.Step s t → P t) {s t : ς}
    (hs : P s) (h : M.Reaches s t) : P t := by
  induction h with
  | refl => exact hs
  | tail _ hst ih => exact hstep _ _ ih hst

variable (M) in
/-- `p` holds of every state of the run from `s`, which ends within `fuel` steps. -/
def throughout (p : ς → Bool) : Nat → ς → Bool
  | 0, _ => false
  | fuel + 1, s =>
    p s && (!M.running s ||
      match M.step s with
      | .ok _ t => throughout p fuel t
      | .error _ _ => true)

/-- A run that ends can be checked by running it. -/
theorem Reaches.of_throughout {p : ς → Bool} (fuel : Nat) {s t : ς}
    (h : M.throughout p fuel s = true) (ht : M.Reaches s t) : p t = true := by
  induction fuel generalizing s with
  | zero => cases h
  | succ fuel ih =>
    rw [throughout, Bool.and_eq_true] at h
    rcases Relation.ReflTransGen.cases_head ht with rfl | ⟨u, hst, hu⟩
    · exact h.1
    · apply ih _ hu
      simpa [hst.1, hst.2] using h.2

theorem exec_succ (n : Nat) (s : ς) : M.exec (n + 1) s =
    if M.running s then (M.step >>= fun _ => M.exec n) s else .ok () s := by
  show (Comp.asks M.running >>= _) s = _
  rw [Comp.bind_of_ok (Comp.asks_apply M.running s)]
  cases M.running s <;> rfl

private theorem exec_sound {n : Nat} {s : ς} {r : Outcome ε ς Unit}
    (h : M.exec n s = embed r) : M.outcome s r := by
  induction n generalizing s with
  | zero => exact absurd h fuel_ne_embed
  | succ n ih =>
    rw [exec_succ] at h
    split at h
    · next hr =>
      obtain ⟨_, t, hst, h⟩ | ⟨e, t, hf, rfl⟩ := Comp.bind_eq_embed_iff.mp h
      · obtain ⟨m, hm⟩ := ih h
        exact ⟨m + 1, .step ⟨hr, hst⟩ hm⟩
      · exact ⟨0, .fault ⟨hr, hf⟩⟩
    · next hr =>
      rw [embed_eq_ok] at h
      exact ⟨0, h ▸ .halt (Bool.eq_false_iff.mpr hr)⟩

private theorem exec_complete {n : Nat} {s : ς} {r : Outcome ε ς Unit} (h : M.Run n s r) :
    M.exec (n + 1) s = embed r := by
  induction h with
  | halt hh => simp [exec_succ, hh]
  | fault hf =>
    rw [exec_succ, if_pos hf.1, Comp.bind_of_error hf.2]
    rfl
  | step hst _ ih =>
    rw [exec_succ, if_pos hst.1, Comp.bind_of_ok hst.2]
    exact ih

/-- The fuelled loop computes the outcomes of the machine. -/
theorem lim_exec (M : Machine ε ς) : lim M.exec = M.outcome := by
  ext s r
  exact ⟨fun ⟨_, h⟩ => exec_sound h, fun ⟨n, h⟩ => ⟨n + 1, exec_complete h⟩⟩

/-! ## Segments -/

/-- A view of the machine's states as locations paired with data. -/
structure Located (M : Machine ε ς) (κ σ : Type) where
  loc : κ → σ → ς
  data : ς → σ
  data_loc : ∀ k s, data (loc k s) = s

variable (L : Located M κ σ)

/-- The machine computes `m` from location `p`; a result `a` is left at location `k a`. -/
structure Computes (p : κ) (m : Sem ε σ α) (k : α → κ) : Prop where
  ok : ∀ {s a s'}, m s (.ok a s') → M.Reaches (L.loc p s) (L.loc (k a) s')
  error : ∀ {s e s'}, m s (.error e s') →
    ∃ t u, M.Reaches (L.loc p s) t ∧ M.Faults t e u ∧ L.data u = s'

/-- The machine computes `m` from location `p` and nothing else, in at least `d` steps. -/
structure Segment (d : Nat) (p : κ) (m : Sem ε σ α) (k : α → κ) : Prop
    extends Computes L p m k where
  only : ∀ {n s r}, M.Run n (L.loc p s) r →
    (∃ a s' n', n' + d ≤ n ∧ m s (.ok a s') ∧ M.Run n' (L.loc (k a) s') r) ∨
      ∃ e t, m s (.error e (L.data t)) ∧ r = .error e t

variable {L} {p : κ} {d d' : Nat}

theorem Computes.pure (a : α) (k : α → κ) : Computes L (k a) (Pure.pure a) k where
  ok h := by
    cases h
    exact .refl
  error h := by cases h

theorem Computes.bind {m : Sem ε σ α} {k : α → κ} {f : α → Sem ε σ β} {k' : β → κ}
    (hm : Computes L p m k) (hf : ∀ a, Computes L (k a) (f a) k') :
    Computes L p (m >>= f) k' where
  ok h := by
    obtain ⟨a, s₁, h₁, h₂⟩ | ⟨e, s₁, _, h₂⟩ := h
    · exact (hm.ok h₁).trans ((hf a).ok h₂)
    · cases h₂
  error h := by
    obtain ⟨a, s₁, h₁, h₂⟩ | ⟨e, s₁, h₁, h₂⟩ := h
    · obtain ⟨t, u, ht, hu⟩ := (hf a).error h₂
      exact ⟨t, u, (hm.ok h₁).trans ht, hu⟩
    · cases h₂
      exact hm.error h₁

theorem Computes.endsPure (a : α) (k : α → κ) : Computes L (k a) (ends (Pure.pure a)) k := by
  rw [ends_pure]
  exact .pure a k

theorem Computes.outOfFuel (k : α → κ) : Computes L p (ends Comp.outOfFuel) k where
  ok h := absurd h fuel_ne_embed
  error h := absurd h fuel_ne_embed

/-- A step that leaves the data alone may stand in front. -/
theorem Computes.head {m : Sem ε σ α} {k : α → κ} {q : κ}
    (hstep : ∀ s, M.Step (L.loc p s) (L.loc q s)) (h : Computes L q m k) : Computes L p m k where
  ok hm := .head (hstep _) (h.ok hm)
  error hm := by
    obtain ⟨t, u, ht, hu⟩ := h.error hm
    exact ⟨t, u, .head (hstep _) ht, hu⟩

/-- One step of the machine, as a computation on the data. -/
theorem Computes.step {x : Comp ε σ α} {k : α → κ}
    (hrun : ∀ s, M.running (L.loc p s) = true)
    (hok : ∀ s a s', x s = .ok a s' → M.step (L.loc p s) = .ok () (L.loc (k a) s'))
    (herr : ∀ s e s', x s = .error (.fault e) s' →
      ∃ u, M.step (L.loc p s) = .error (.fault e) u ∧ L.data u = s') :
    Computes L p (ends x) k where
  ok h := .single ⟨hrun _, hok _ _ _ h⟩
  error h := by
    obtain ⟨u, hu, hdata⟩ := herr _ _ _ h
    exact ⟨_, u, .refl, ⟨hrun _, hu⟩, hdata⟩

theorem Computes.repeatM {m : Sem ε σ Unit} {q : Nat → κ} {k : Nat}
    (hm : ∀ i, Computes L (q (i + 1)) m fun _ => q i) :
    Computes L (q k) (Partial.repeatM m k) fun _ => q 0 := by
  induction k with
  | zero => exact .pure () fun _ => q 0
  | succ k ih => exact (hm k).bind fun _ => ih

theorem Segment.pure (a : α) (k : α → κ) : Segment L 0 (k a) (Pure.pure a) k where
  toComputes := .pure a k
  only h := .inl ⟨a, _, _, le_refl _, rfl, h⟩

theorem Segment.bind {m : Sem ε σ α} {k : α → κ} {f : α → Sem ε σ β} {k' : β → κ}
    (hm : Segment L d p m k) (hf : ∀ a, Segment L d' (k a) (f a) k') :
    Segment L (d + d') p (m >>= f) k' where
  toComputes := hm.toComputes.bind fun a => (hf a).toComputes
  only h := by
    obtain ⟨a, s₁, n₁, hn₁, h₁, h⟩ | ⟨e, t, h₁, rfl⟩ := hm.only h
    · obtain ⟨b, s₂, n₂, hn₂, h₂, h⟩ | ⟨e, t, h₂, rfl⟩ := (hf a).only h
      · exact .inl ⟨b, s₂, n₂, by omega, Sem.bind_ok h₁ h₂, h⟩
      · exact .inr ⟨e, t, Sem.bind_ok h₁ h₂, rfl⟩
    · exact .inr ⟨e, t, Sem.bind_error h₁, rfl⟩

theorem Segment.weaken {m : Sem ε σ α} {k : α → κ} (h : Segment L d p m k) (hd : d' ≤ d) :
    Segment L d' p m k where
  toComputes := h.toComputes
  only hr := by
    obtain ⟨a, s', n', hn, h', hr⟩ | he := h.only hr
    · exact .inl ⟨a, s', n', by omega, h', hr⟩
    · exact .inr he

theorem Segment.andThen {m : Sem ε σ α} {k : α → κ} {f : α → Sem ε σ β} {k' : β → κ}
    (hm : Segment L d p m k) (hf : ∀ a, Segment L 0 (k a) (f a) k') :
    Segment L 0 p (m >>= f) k' := (hm.bind hf).weaken (Nat.zero_le _)

/-- One step of the machine, as a computation on the data that never runs short of fuel. -/
theorem Segment.step {x : Comp ε σ α} {k : α → κ}
    (hrun : ∀ s, M.running (L.loc p s) = true)
    (hx : x.Definite)
    (hok : ∀ s a s', x s = .ok a s' → M.step (L.loc p s) = .ok () (L.loc (k a) s'))
    (herr : ∀ s e s', x s = .error (.fault e) s' →
      ∃ u, M.step (L.loc p s) = .error (.fault e) u ∧ L.data u = s') :
    Segment L 1 p (ends x) k where
  toComputes := .step hrun hok herr
  only := by
    intro n s r h
    cases hs : x s with
    | ok a s' =>
      obtain ⟨n', rfl, h'⟩ := h.inv_step ⟨hrun s, hok s a s' hs⟩
      exact .inl ⟨a, s', n', le_refl _, hs, h'⟩
    | error e s' =>
      cases e with
      | fuel => exact absurd hs (hx s s')
      | fault e =>
        obtain ⟨u, hu, rfl⟩ := herr s e s' hs
        exact .inr ⟨e, u, hs, h.inv_fault ⟨hrun s, hu⟩⟩

theorem Segment.endsBind {x : Comp ε σ α} {k : α → κ} {f : α → Comp ε σ β} {k' : β → κ}
    (hx : Segment L d p (ends x) k) (hf : ∀ a, Segment L d' (k a) (ends (f a)) k') :
    Segment L (d + d') p (ends (x >>= f)) k' := by
  rw [ends_bind]
  exact hx.bind hf

theorem Segment.repeatM {m : Sem ε σ Unit} {q : Nat → κ} {k : Nat}
    (hm : ∀ i < k, Segment L 0 (q i) m fun _ => q (i + 1)) :
    Segment L 0 (q 0) (Partial.repeatM m k) fun _ => q k := by
  induction k generalizing q with
  | zero => exact .pure () fun _ => q 0
  | succ k ih =>
    exact (hm 0 (Nat.succ_pos k)).bind fun _ =>
      ih fun i hi => hm (i + 1) (Nat.succ_lt_succ hi)

/-- A loop whose body comes back to its head. -/
theorem Segment.whileDo {test : Sem ε σ Bool} {body : Sem ε σ Unit} {inside after : κ}
    (ht : Segment L (d + 1) p test fun b => bif b then inside else after)
    (hb : Segment L 0 inside body fun _ => p) :
    Segment L 0 p (Sem.whileDo test body) fun _ => after where
  ok := by
    intro s a s' h
    generalize hr : EStateM.Result.ok a s' = r at h
    induction h with
    | stop h =>
      cases hr
      exact ht.ok h
    | testFault h => cases hr
    | bodyFault h h' => cases hr
    | again h h' _ ih => exact ((ht.ok h).trans (hb.ok h')).trans (ih hr)
  error := by
    intro s e s' h
    generalize hr : EStateM.Result.error e s' = r at h
    induction h with
    | stop h => cases hr
    | testFault h =>
      cases hr
      exact ht.error h
    | bodyFault h h' =>
      cases hr
      obtain ⟨t, u, htu, hu⟩ := hb.error h'
      exact ⟨t, u, (ht.ok h).trans htu, hu⟩
    | again h h' _ ih =>
      obtain ⟨t, u, htu, hu⟩ := ih hr
      exact ⟨t, u, ((ht.ok h).trans (hb.ok h')).trans htu, hu⟩
  only := by
    intro n
    -- every round takes a step, so the rest of the run is shorter
    induction n using Nat.strong_induction_on with
    | h n ih =>
      intro s r h
      obtain ⟨b, s₁, n₁, hn₁, h₁, h⟩ | ⟨e, t, h₁, rfl⟩ := ht.only h
      · cases b with
        | false => exact .inl ⟨(), s₁, n₁, by omega, .stop h₁, h⟩
        | true =>
          obtain ⟨_, s₂, n₂, hn₂, h₂, h⟩ | ⟨e, t, h₂, rfl⟩ := hb.only h
          · obtain ⟨_, s₃, n₃, hn₃, h₃, h⟩ | ⟨e, t, h₃, rfl⟩ := ih n₂ (by omega) h
            · exact .inl ⟨(), s₃, n₃, by omega, .again h₁ h₂ h₃, h⟩
            · exact .inr ⟨e, t, .again h₁ h₂ h₃, rfl⟩
          · exact .inr ⟨e, t, .bodyFault h₁ h₂, rfl⟩
      · exact .inr ⟨e, t, .testFault h₁, rfl⟩

/-- The data of an outcome of the machine. -/
def Located.view (L : Located M κ σ) : Outcome ε ς Unit → Outcome ε σ Unit
  | .ok () t => .ok () (L.data t)
  | .error e t => .error e (L.data t)

/-- A segment that ends where the machine halts is the outcome of the machine. -/
theorem Segment.outcome_iff {m : Sem ε σ Unit} {q : κ} (h : Segment L d p m fun _ => q)
    (hq : ∀ s, M.running (L.loc q s) = false) {s : σ} {r : Outcome ε σ Unit} :
    m s r ↔ ∃ r', M.outcome (L.loc p s) r' ∧ L.view r' = r := by
  constructor
  · intro hm
    cases r with
    | ok a s' =>
      exact ⟨_, (h.ok hm).outcome ⟨0, .halt (hq s')⟩, by simp [Located.view, L.data_loc]⟩
    | error e s' =>
      obtain ⟨t, u, ht, hf, rfl⟩ := h.error hm
      exact ⟨_, ht.outcome ⟨0, .fault hf⟩, rfl⟩
  · rintro ⟨r', ⟨n, hn⟩, rfl⟩
    obtain ⟨_, s', n', -, hm, hrun⟩ | ⟨e, t, hm, rfl⟩ := h.only hn
    · obtain rfl := hrun.inv_halt (hq s')
      simpa [Located.view, L.data_loc] using hm
    · exact hm

end Machine

end Covm.Partial
