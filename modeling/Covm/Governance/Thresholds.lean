import Covm.Vm.Compose

/-!
# Threshold operations as conditions

The handlers push `0.0` when the threshold is met, and an `If` takes `0.0` for false. So an `If`
whose condition is a threshold operation executes its then branch when the threshold is *not* met.
-/

namespace Covm.Governance

open Partial VM

section conditions
variable {F S : Type} [Number F] [StorageBackend S] [SerdeJson]

/-- An `If` with the condition `op` executes its then branch if `met` and its else branch if not, on
the stack `s`. -/
def Decides (op : Op F) (met : Bool) (vm : VM F S) (s : VMStack F) : Prop :=
  ∀ thenOps elseOps, ∃ vm₁, vm₁.stack = s ∧
    run [.ifOp [op] thenOps (some elseOps)] vm =
      (run (if met then thenOps else elseOps) >>= fun _ => ends recordStackAfter) vm₁

/-- On the stack `stack` the handler replaces the numbers it reads by `v`. -/
def Pushes (S : Type) (op : Op F) (stack : VMStack F) (v : TypedValue F) (s : VMStack F) : Prop :=
  ∀ vm : VM F S, vm.stack = stack →
    ∃ vm', tryHandleGovernanceOp op vm = .ok (some ()) vm' ∧ vm'.stack = v :: s

/-- On the stack `stack` the handler returns an error. -/
def Refuses (S : Type) (op : Op F) (stack : VMStack F) : Prop :=
  ∀ vm : VM F S, vm.stack = stack →
    ∃ e vm', tryHandleGovernanceOp op vm = .error (.fault e) vm'

/-! ### An `If` over its condition -/

theorem run_if (condition thenOps elseOps : List (Op F)) (vm : VM F S) :
    ∃ vm₁, vm₁.stack = vm.stack ∧ run [.ifOp condition thenOps (some elseOps)] vm =
      (limit.test condition >>= fun holds =>
        run (if holds then thenOps else elseOps) >>= fun _ => ends recordStackAfter) vm₁ := by
  obtain ⟨vm₁, hannounce, hcore⟩ := announce_ok
    (show isSimulated (.ifOp condition thenOps (some elseOps)) = false from rfl) vm
  refine ⟨vm₁, congrArg Prod.fst hcore, ?_⟩
  have hflow : (limit.flow (.ifOp condition thenOps (some elseOps)) : Sem _ (VM F S) _) =
      limit.test condition >>= fun holds =>
        run (if holds then thenOps else elseOps) >>= fun _ => pure .next := by
    rw [Runner.flow]
    refine congrArg _ (funext fun holds => ?_)
    cases holds <;> rfl
  rw [run_cons, run_nil, Runner.next, bind_assoc, limit_lift, ends_bind_of_ok hannounce,
    if_neg Bool.false_ne_true, hflow]
  simp [Flow.andThen]

omit [Number F] [SerdeJson] in
theorem isSimulated_of_governance {op : Op F} (h : op.isGovernance = true) :
    isSimulated op = false := by
  cases op <;> first | rfl | cases h

/-- The value the handler has pushed decides. -/
theorem decides_of_pushes {op : Op F} (hop : op.isGovernance = true) {vm : VM F S}
    {v : TypedValue F} {s : VMStack F} (h : Pushes S op vm.stack v s) :
    Decides op (!v.isFalsey) vm s := by
  intro thenOps elseOps
  obtain ⟨vm₁, hstack₁, hrun⟩ := run_if [op] thenOps elseOps vm
  obtain ⟨vm₂, hannounce, hcore⟩ := announce_ok (isSimulated_of_governance hop) vm₁
  have hstack₂ : vm₂.stack = vm.stack := (congrArg Prod.fst hcore).trans hstack₁
  obtain ⟨vm₃, hhandled, hstack₃⟩ := h vm₂ hstack₂
  have hcondition : run [op] vm₁ (.ok () vm₃) := by
    rw [run_cons]
    exact Sem.bind_ok (next_leave.mpr ⟨vm₂, hannounce, flow_of_handled hhandled⟩) rfl
  have htest : limit.test [op] vm₁ (.ok (!v.isFalsey) { vm₃ with stack := s }) :=
    Sem.bind_ok hcondition (Sem.bind_ok (pop_of_cons hstack₃) rfl)
  refine ⟨{ vm₃ with stack := s }, rfl, ?_⟩
  rw [hrun, (test_tends [op]).functional.bind_of_ok htest]

theorem flow_of_refused {op : Op F} (hop : op.isGovernance = true) {vm vm' : VM F S} {e : Fault F}
    (h : tryHandleGovernanceOp op vm = .error (.fault e) vm') :
    limit.flow op vm (.error e vm') := by
  have hbasic : (executeBasic op : Option (Exec F S Unit)) = none := by
    cases op <;> first | rfl | cases hop
  have hplain : executePlain op vm = .error (.fault e) vm' := by
    rw [executePlain_of_none hbasic, Comp.bind_of_error h]
  cases op <;> first | exact hplain | cases hop

/-- A refused condition ends the run before either branch. -/
theorem run_if_of_refuses {op : Op F} (hop : op.isGovernance = true) {vm : VM F S}
    (h : Refuses S op vm.stack) (thenOps elseOps : List (Op F)) :
    ∃ e vm', run [.ifOp [op] thenOps (some elseOps)] vm (.error e vm') := by
  obtain ⟨vm₁, hstack₁, hrun⟩ := run_if [op] thenOps elseOps vm
  obtain ⟨vm₂, hannounce, hcore⟩ := announce_ok (isSimulated_of_governance hop) vm₁
  have hstack₂ : vm₂.stack = vm.stack := (congrArg Prod.fst hcore).trans hstack₁
  obtain ⟨e, vm₃, hrefused⟩ := h vm₂ hstack₂
  refine ⟨e, vm₃, ?_⟩
  have hcondition : run [op] vm₁ (.error e vm₃) := by
    rw [run_cons, Runner.next, limit_lift, bind_assoc, ends_bind_of_ok hannounce,
      if_neg Bool.false_ne_true]
    exact Sem.bind_error (Sem.bind_error (flow_of_refused hop hrefused))
  rw [hrun]
  exact Sem.bind_error (Sem.bind_error hcondition)

/-! ### At most one decision -/

omit [Number F] [StorageBackend S] [SerdeJson] in
theorem ends_recordStackAfter_stack {vm vm' : VM F S}
    (h : ends recordStackAfter vm (.ok () vm')) : vm'.stack = vm.stack :=
  congrArg Prod.fst (recordStackAfter_core.ok (ends_iff.mp h))

/-- The branches `[]` and `[Push null]` leave different stacks. -/
theorem Decides.unique {op : Op F} {met : Bool} {vm : VM F S} {s : VMStack F}
    (h : Decides op met vm s) : ¬ Decides op (!met) vm s := by
  intro h'
  -- the branch that `h` executes is empty, the one that `h'` executes pushes a value
  obtain ⟨vm₁, hstack₁, hrun₁⟩ := h (if met then [] else [.push .null])
    (if met then [.push .null] else [])
  obtain ⟨vm₂, hstack₂, hrun₂⟩ := h' (if met then [] else [.push .null])
    (if met then [.push .null] else [])
  have hempty : (if met then (if met then [] else [.push .null])
      else if met then [.push .null] else [] : List (Op F)) = [] := by cases met <;> rfl
  have hpush : (if !met then (if met then [] else [.push .null])
      else if met then [.push .null] else [] : List (Op F)) = [.push .null] := by cases met <;> rfl
  rw [hempty, run_nil, pure_bind] at hrun₁
  rw [hpush] at hrun₂
  obtain ⟨vm₃, hrecord⟩ := recordStackAfter_ok vm₁
  have hok : ends recordStackAfter vm₁ (.ok () vm₃) := hrecord
  rw [← hrun₁, hrun₂, Sem.bind_ok_iff] at hok
  obtain ⟨_, vm₄, hpushed, hrecord'⟩ := hok
  have hlength := congrArg List.length (run_push hpushed)
  rw [← ends_recordStackAfter_stack hrecord', ends_recordStackAfter_stack hrecord, hstack₁,
    hstack₂, List.length_cons] at hlength
  omega

theorem not_decides_of_refuses {op : Op F} (hop : op.isGovernance = true) {vm : VM F S}
    (h : Refuses S op vm.stack) (met : Bool) (s : VMStack F) : ¬ Decides op met vm s := by
  intro hdecides
  obtain ⟨vm₁, -, hrun⟩ := hdecides [] []
  obtain ⟨e, vm', herror⟩ := run_if_of_refuses hop h [] []
  rw [hrun, ite_self, run_nil, pure_bind] at herror
  obtain ⟨vm₂, hrecord⟩ := recordStackAfter_ok vm₁
  have hok : ends recordStackAfter vm₁ (.ok () vm₂) := hrecord
  cases ends_functional _ _ _ _ herror hok

end conditions

/-! ### The handlers -/

section handlers
variable {F S : Type} [Number F]

theorem popNumber_of_cons {vm : VM F S} {n : F} {s : VMStack F} (h : vm.stack = .number n :: s)
    (opName : String) :
    (popNumber opName : Exec F S F) vm = .ok n { vm with stack := s } := by
  cases vm
  subst h
  rfl

/-- Both handlers end with an event and the verdict. -/
theorem pushVerdict_ok (message : String) (met : Bool) (subject : String) (vm : VM F S) :
    ∃ vm', (governanceEvent message >>= fun _ => pushVerdict met subject) vm = .ok () vm' ∧
      vm'.stack = .number (Number.ofNat (if met then 0 else 1)) :: vm.stack := by
  unfold pushVerdict
  cases met with
  | true => exact ⟨_, rfl, rfl⟩
  | false => exact ⟨_, rfl, rfl⟩

omit [Number F] in
theorem refuse_false (text : String) (vm : VM F S) : refuse false text vm = .ok () vm := rfl

omit [Number F] in
theorem refuse_true (text : String) (vm : VM F S) :
    refuse true text vm = .error (.fault (.error (.governanceError text))) vm := rfl

omit [Number F] in
theorem handled_ok {x : Exec F S Unit} {vm vm' : VM F S} (h : x vm = .ok () vm') :
    (some <$> x) vm = .ok (some ()) vm' := by
  rw [← bind_pure_comp, Comp.bind_of_ok h]
  rfl

omit [Number F] in
theorem handled_error {x : Exec F S Unit} {vm vm' : VM F S} {e : Stop (Fault F)}
    (h : x vm = .error e vm') : (some <$> x) vm = .error e vm' := by
  rw [← bind_pure_comp, Comp.bind_of_error h]

variable [SerdeJson]

theorem voteThreshold_pushes {threshold : F} (h : Number.lt threshold (Number.ofNat 0) = false)
    (votes : F) (s : VMStack F) :
    Pushes S (.voteThreshold threshold) (.number votes :: s)
      (.number (Number.ofNat (if Number.ge votes threshold then 0 else 1))) s := by
  intro vm hstack
  obtain ⟨vm', hverdict, hstack'⟩ := pushVerdict_ok
    (s!"Vote threshold check: {Number.fixed2 votes} votes, " ++
      s!"threshold: {Number.fixed2 threshold}")
    (Number.ge votes threshold) "Vote" { vm with stack := s }
  refine ⟨vm', handled_ok ?_, hstack'⟩
  rw [handleVoteThreshold, h, Comp.bind_of_ok (refuse_false _ vm),
    Comp.bind_of_ok (popNumber_of_cons hstack _), hverdict]

theorem voteThreshold_refuses {threshold : F} (h : Number.lt threshold (Number.ofNat 0) = true)
    (stack : VMStack F) : Refuses S (.voteThreshold threshold) stack := by
  intro vm _
  refine ⟨.error (.governanceError "VoteThreshold must be non-negative"), vm, handled_error ?_⟩
  rw [handleVoteThreshold, h, Comp.bind_of_error (refuse_true _ vm)]

theorem quorumThreshold_pushes {threshold totalPossible : F}
    (h : (Number.lt threshold (Number.ofNat 0) || Number.gt threshold (Number.ofNat 1)) = false)
    (h' : Number.le totalPossible (Number.ofNat 0) = false) (votesCast : F) (s : VMStack F) :
    Pushes S (.quorumThreshold threshold) (.number totalPossible :: .number votesCast :: s)
      (.number (Number.ofNat
        (if Number.ge (Number.div votesCast totalPossible) threshold then 0 else 1))) s := by
  intro vm hstack
  obtain ⟨vm', hverdict, hstack'⟩ := pushVerdict_ok
    (s!"Quorum check: {Number.toStr votesCast}/{Number.toStr totalPossible} = " ++
      s!"{percent (Number.div votesCast totalPossible)}, threshold: {percent threshold}")
    (Number.ge (Number.div votesCast totalPossible) threshold) "Quorum" { vm with stack := s }
  refine ⟨vm', handled_ok ?_, hstack'⟩
  rw [handleQuorumThreshold, h, Comp.bind_of_ok (refuse_false _ vm),
    Comp.bind_of_ok (popNumber_of_cons hstack _), Comp.bind_of_ok (popNumber_of_cons rfl _), h',
    Comp.bind_of_ok (refuse_false _ _), hverdict]

theorem quorumThreshold_refuses {threshold totalPossible : F}
    (h : (Number.lt threshold (Number.ofNat 0) || Number.gt threshold (Number.ofNat 1)) = true ∨
      Number.le totalPossible (Number.ofNat 0) = true) (votesCast : F) (s : VMStack F) :
    Refuses S (.quorumThreshold threshold)
      (.number totalPossible :: .number votesCast :: s) := by
  intro vm hstack
  cases hthreshold : (Number.lt threshold (Number.ofNat 0) || Number.gt threshold (Number.ofNat 1))
    with
  | true =>
    refine ⟨.error (.governanceError "QuorumThreshold must be between 0.0 and 1.0"), vm,
      handled_error ?_⟩
    rw [handleQuorumThreshold, hthreshold, Comp.bind_of_error (refuse_true _ vm)]
  | false =>
    have htotal : Number.le totalPossible (Number.ofNat 0) = true := by simpa [hthreshold] using h
    refine ⟨.error (.governanceError "Total possible votes must be greater than zero"),
      { vm with stack := s }, handled_error ?_⟩
    rw [handleQuorumThreshold, hthreshold, Comp.bind_of_ok (refuse_false _ vm),
      Comp.bind_of_ok (popNumber_of_cons hstack _), Comp.bind_of_ok (popNumber_of_cons rfl _),
      htotal, Comp.bind_of_error (refuse_true _ _)]

end handlers

/-! ### Over doubles -/

theorem isFalsey_verdict (met : Bool) :
    (TypedValue.number (Number.ofNat (if met then 0 else 1)) : TypedValue Binary64).isFalsey =
      met := by
  have hzero : Number.eq (Number.ofNat 0 : Binary64) (Number.ofNat 0) = true :=
    Ieee.eq_ofNat (by decide) (by decide)
  have hone : Number.eq (Number.ofNat 1 : Binary64) (Number.ofNat 0) = false :=
    Ieee.eq_ofNat (by decide) (by decide)
  cases met with
  | true => exact hzero
  | false => exact hone

section doubles
variable {S : Type} [StorageBackend S] [SerdeJson]

/-- A pushed verdict decides the wrong way round. -/
theorem not_decides_of_pushes {op : Op Binary64} (hop : op.isGovernance = true) {met : Bool}
    {vm : VM Binary64 S} {s : VMStack Binary64}
    (h : Pushes S op vm.stack (.number (Number.ofNat (if met then 0 else 1))) s) :
    Decides op (!met) vm s ∧ ¬ Decides op met vm s := by
  have hinverted := decides_of_pushes hop h
  rw [isFalsey_verdict] at hinverted
  refine ⟨hinverted, ?_⟩
  rw [← Bool.not_not met]
  exact hinverted.unique

/-- Whatever the threshold and the numbers on the stack, an `If` does not execute its then branch
exactly when the quorum, or the number of votes, is reached. -/
theorem not_decides_threshold (threshold x y : Binary64) (vm : VM Binary64 S)
    (s : VMStack Binary64) :
    ¬ Decides (.quorumThreshold threshold) (Number.ge (Number.div y x) threshold)
      { vm with stack := .number x :: .number y :: s } s ∧
    ¬ Decides (.voteThreshold threshold) (Number.ge x threshold)
      { vm with stack := .number x :: .number y :: s } (.number y :: s) := by
  constructor
  · by_cases h : (Number.lt threshold (Number.ofNat 0) || Number.gt threshold (Number.ofNat 1)) =
        true ∨ Number.le x (Number.ofNat 0) = true
    · exact not_decides_of_refuses rfl (quorumThreshold_refuses h y s) _ _
    · rw [not_or, Bool.not_eq_true, Bool.not_eq_true] at h
      exact (not_decides_of_pushes rfl (quorumThreshold_pushes h.1 h.2 y s)).2
  · cases h : Number.lt threshold (Number.ofNat 0) with
    | true => exact not_decides_of_refuses rfl (voteThreshold_refuses h _) _ _
    | false => exact (not_decides_of_pushes rfl (voteThreshold_pushes h x (.number y :: s))).2

/-- With the wrong branches exchanged: what the handlers do not refuse is decided by the opposite of
the comparison. -/
theorem decides_inverted {threshold x : Binary64}
    (h : Number.lt threshold (Number.ofNat 0) = false)
    (hone : Number.gt threshold (Number.ofNat 1) = false)
    (hx : Number.le x (Number.ofNat 0) = false) (y : Binary64) (vm : VM Binary64 S)
    (s : VMStack Binary64) :
    Decides (.quorumThreshold threshold) (!Number.ge (Number.div y x) threshold)
      { vm with stack := .number x :: .number y :: s } s ∧
    Decides (.voteThreshold threshold) (!Number.ge x threshold)
      { vm with stack := .number x :: .number y :: s } (.number y :: s) := by
  have hquorum : (Number.lt threshold (Number.ofNat 0) ||
      Number.gt threshold (Number.ofNat 1)) = false := by rw [h, hone]; rfl
  exact ⟨(not_decides_of_pushes rfl (quorumThreshold_pushes hquorum hx y s)).1,
    (not_decides_of_pushes rfl (voteThreshold_pushes h x (.number y :: s))).1⟩

end doubles

/-- Three votes reach a threshold of two, and the else branch is executed. -/
theorem not_decides_threeVotes :
    Number.ge (Number.ofNat 3 : Binary64) (Number.ofNat 2) = true ∧
    Decides (.voteThreshold (Number.ofNat 2)) false (stackVm [.number (Number.ofNat 3)]) [] ∧
    ¬ Decides (.voteThreshold (Number.ofNat 2))
      (Number.ge (Number.ofNat 3 : Binary64) (Number.ofNat 2))
      (stackVm [.number (Number.ofNat 3)]) [] := by
  have htwo : Number.lt (Number.ofNat 2 : Binary64) (Number.ofNat 3) = true :=
    Ieee.lt_ofNat (by decide) (by decide)
  have hmet : Number.ge (Number.ofNat 3 : Binary64) (Number.ofNat 2) = true := by
    rw [Number.ge, Number.le, htwo, Bool.true_or]
  have hthreshold : Number.lt (Number.ofNat 2 : Binary64) (Number.ofNat 0) = false :=
    Ieee.lt_ofNat (by decide) (by decide)
  have hpushes := voteThreshold_pushes (S := NoStorage) hthreshold (Number.ofNat 3) []
  rw [hmet] at hpushes ⊢
  have hnot : Decides (.voteThreshold (Number.ofNat 2)) (!true)
      (stackVm [.number (Number.ofNat 3)]) [] ∧ ¬ _ := not_decides_of_pushes rfl hpushes
  exact ⟨rfl, hnot.1, hnot.2⟩

end Covm.Governance
