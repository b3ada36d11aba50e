/-!
# Runs of calls

A run performs calls one after the other, each on the state the one before it left. `Meets`
restricts what the calls of a run do in the states they are made in; what every such call preserves
holds after the run.

Where a call may not return, a run goes on only as long as its calls return: `performAll` and
`Along` are `runAll` and `Meets` for such calls.
-/

namespace Covm.Partial

variable {σ κ : Type} (after : κ → σ → σ)

/-- The state after the calls, in this order. -/
def runAll (calls : List κ) (s : σ) : σ := calls.foldl (fun s c => after c s) s

@[simp] theorem runAll_nil (s : σ) : runAll after [] s = s := rfl

@[simp] theorem runAll_cons (c : κ) (calls : List κ) (s : σ) :
    runAll after (c :: calls) s = runAll after calls (after c s) := rfl

@[simp] theorem runAll_append (calls calls' : List κ) (s : σ) :
    runAll after (calls ++ calls') s = runAll after calls' (runAll after calls s) :=
  List.foldl_append

/-- Every call of a run meets a condition in the state it is made in. -/
def Meets (P : κ → σ → Prop) : List κ → σ → Prop
  | [], _ => True
  | c :: calls, s => P c s ∧ Meets P calls (after c s)

variable {after}

theorem Meets.invariant {P : κ → σ → Prop} {I : σ → Prop}
    (step : ∀ c s, P c s → I s → I (after c s)) {calls : List κ} {s : σ}
    (h : Meets after P calls s) (hs : I s) : I (runAll after calls s) := by
  induction calls generalizing s with
  | nil => exact hs
  | cons c calls ih => exact ih h.2 (step c s h.1 hs)

/-- A condition that does not depend on the state. -/
theorem meets_of_forall {P : κ → σ → Prop} {calls : List κ} (h : ∀ c ∈ calls, ∀ s, P c s) (s : σ) :
    Meets after P calls s := by
  induction calls generalizing s with
  | nil => trivial
  | cons c calls ih =>
    exact ⟨h c List.mem_cons_self s, ih (fun d hd => h d (List.mem_cons_of_mem c hd)) _⟩

/-- What holds before the run holds all along it iff every call meets the condition under which it
is kept; `J` is what all the calls of the run (those in `Q`) keep. -/
theorem forall_prefix_iff_meets {P : κ → σ → Prop} {Q : κ → Prop} {I J : σ → Prop}
    (keep : ∀ c s, Q c → J s → J (after c s))
    (step : ∀ c s, Q c → J s → I s → (I (after c s) ↔ P c s)) {calls : List κ} {s : σ}
    (hcalls : ∀ c ∈ calls, Q c) (hJ : J s) (hI : I s) :
    (∀ calls', calls' <+: calls → I (runAll after calls' s)) ↔ Meets after P calls s := by
  induction calls generalizing s with
  | nil =>
    refine ⟨fun _ => trivial, fun _ calls' hstarts => ?_⟩
    rw [List.prefix_nil.mp hstarts]
    exact hI
  | cons c calls ih =>
    have hc := hcalls c List.mem_cons_self
    have hrest : ∀ d ∈ calls, Q d := fun d hd => hcalls d (List.mem_cons_of_mem c hd)
    constructor
    · intro hall
      have hnext : I (after c s) := hall [c] (by simp)
      refine ⟨(step c s hc hJ hI).mp hnext, (ih hrest (keep c s hc hJ) hnext).mp ?_⟩
      intro calls' hstarts
      exact hall (c :: calls') (List.cons_prefix_cons.mpr ⟨rfl, hstarts⟩)
    · rintro ⟨hP, hmeets⟩ calls' hstarts
      have hnext := (step c s hc hJ hI).mpr hP
      cases calls' with
      | nil => exact hI
      | cons d calls' =>
        obtain ⟨rfl, htail⟩ := List.cons_prefix_cons.mp hstarts
        exact (ih hrest (keep d s hc hJ) hnext).mpr hmeets calls' htail

/-- Two conditions on the calls of a run that are the same as long as they are met; `J` is kept by
the calls that meet them, and `Q` is met by all the calls of the run. -/
theorem meets_iff_meets {P P' Q : κ → σ → Prop} {J : σ → Prop}
    (step : ∀ c s, Q c s → J s → (P c s ↔ P' c s))
    (keep : ∀ c s, Q c s → J s → P c s → J (after c s)) {calls : List κ} {s : σ}
    (hQ : Meets after Q calls s) (hJ : J s) : Meets after P calls s ↔ Meets after P' calls s := by
  induction calls generalizing s with
  | nil => exact .rfl
  | cons c calls ih =>
    have hiff := step c s hQ.1 hJ
    constructor
    · rintro ⟨hP, hrest⟩
      exact ⟨hiff.mp hP, (ih hQ.2 (keep c s hQ.1 hJ hP)).mp hrest⟩
    · rintro ⟨hP', hrest⟩
      have hP := hiff.mpr hP'
      exact ⟨hP, (ih hQ.2 (keep c s hQ.1 hJ hP)).mpr hrest⟩

/-! ## Calls that may not return -/

section returning
variable {ε : Type} (perform : κ → EStateM ε σ Unit)

/-- The calls in this order, up to the first that does not return. -/
def performAll : List κ → EStateM ε σ Unit
  | [] => pure ()
  | c :: calls => do
    perform c
    performAll calls

theorem performAll_cons_ok {c : κ} {calls : List κ} {s s' : σ} :
    performAll perform (c :: calls) s = .ok () s' ↔
      ∃ s₁, perform c s = .ok () s₁ ∧ performAll perform calls s₁ = .ok () s' := by
  show (perform c >>= fun _ => performAll perform calls) s = _ ↔ _
  simp only [bind, EStateM.bind]
  cases perform c s <;> simp

/-- Every call that is made meets a condition in the state it is made in. -/
def Along (P : κ → σ → Prop) : List κ → σ → Prop
  | [], _ => True
  | c :: calls, s => P c s ∧ ∀ s', perform c s = .ok () s' → Along P calls s'

variable {perform}

/-- What every call that returns preserves holds after the run. -/
theorem performAll_invariant {J : σ → Prop}
    (step : ∀ c s s', perform c s = .ok () s' → J s → J s') {calls : List κ} {s s' : σ}
    (h : performAll perform calls s = .ok () s') (hs : J s) : J s' := by
  induction calls generalizing s with
  | nil =>
    cases h
    exact hs
  | cons c calls ih =>
    obtain ⟨s₁, hc, hrest⟩ := (performAll_cons_ok perform).mp h
    exact ih hrest (step c s s₁ hc hs)

/-- Two conditions on the calls of a run that are the same where `J` holds, which the calls keep. -/
theorem along_iff_along {P P' : κ → σ → Prop} {J : σ → Prop}
    (step : ∀ c s, J s → (P c s ↔ P' c s))
    (keep : ∀ c s s', perform c s = .ok () s' → J s → J s') {calls : List κ} {s : σ} (hs : J s) :
    Along perform P calls s ↔ Along perform P' calls s := by
  induction calls generalizing s with
  | nil => exact .rfl
  | cons c calls ih =>
    refine and_congr (step c s hs) (forall_congr' fun s' => ?_)
    exact imp_congr_right fun hc => ih (keep c s s' hc hs)

end returning

end Covm.Partial
