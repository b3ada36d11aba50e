import Covm.Governance.Json
import Covm.Vm.Effects

/-!
# Sequencing of op lists

`runFlow` runs a list and tells whether the end of the list was reached or an operation left it.
Two lists compose if and only if the first one is never left (`composes_of_not_leave`): apart from
`Return`, `Break` and `Continue`, the operations that leave their list are those the governance
module handles (`next_leave_iff`).
-/

namespace Covm.VM

open Partial

section compose
variable {F S : Type} [Number F] [StorageBackend S] [SerdeJson]

/-- Runs a list; tells whether an operation left it. -/
def runFlow : List (Op F) → Sem (Fault F) (VM F S) Flow
  | [] => pure .next
  | op :: ops => limit.next op >>= fun flow =>
    match flow with
    | .next => runFlow ops
    | .leave => pure .leave

theorem run_append (a b : List (Op F)) :
    (run (a ++ b) : Sem _ (VM F S) _) = runFlow a >>= Flow.andThen (run b) := by
  induction a with
  | nil => simp [runFlow, Flow.andThen]
  | cons op a ih =>
    rw [List.cons_append, run_cons, ih, runFlow, bind_assoc]
    refine congrArg _ (funext fun flow => ?_)
    cases flow <;> simp [Flow.andThen]

theorem run_eq_runFlow (a : List (Op F)) :
    (run a : Sem _ (VM F S) _) = runFlow a >>= fun _ => pure () := by
  rw [← List.append_nil a, run_append, run_nil, List.append_nil]
  refine congrArg _ (funext fun flow => ?_)
  cases flow <;> rfl

/-- Running `a ++ b` from `vm` is running `a` and then, when it ends with `Ok`, `b`. -/
def Composes (vm : VM F S) (a b : List (Op F)) : Prop :=
  run (a ++ b) vm = (run a >>= fun _ => run b) vm

theorem composes_of_not_leave {vm : VM F S} {a : List (Op F)}
    (h : ∀ vm', ¬ runFlow a vm (.ok .leave vm')) (b : List (Op F)) : Composes vm a b := by
  unfold Composes
  rw [run_append, run_eq_runFlow a, bind_assoc]
  funext r
  refine propext (or_congr_left (exists_congr fun flow => exists_congr fun vm' => ?_))
  refine and_congr_right fun hflow => ?_
  cases flow with
  | next => rw [pure_bind]; rfl
  | leave => exact (h vm' hflow).elim

/-! ### Which operations leave their list -/

/-- The governance module handles `op`, executed in the state `vm`. -/
def HandledAt (op : Op F) (vm : VM F S) : Prop :=
  ∃ vm₁ vm₂, announce op vm = .ok false vm₁ ∧ Governance.tryHandleGovernanceOp op vm₁ = .ok (some ()) vm₂

/-- Running `a` from `vm` reaches an operation that the governance module handles. -/
def ReachesHandled (a : List (Op F)) (vm : VM F S) : Prop :=
  ∃ before op after vm₁, a = before ++ op :: after ∧ op.isGovernance = true ∧
    runFlow before vm (.ok .next vm₁) ∧ HandledAt op vm₁

theorem executePlain_leave {op : Op F} {vm vm' : VM F S}
    (h : executePlain op vm = .ok .leave vm') :
    Governance.tryHandleGovernanceOp op vm = .ok (some ()) vm' := by
  cases hb : (executeBasic op : Option (Exec F S Unit)) with
  | some x =>
    rw [executePlain_of_basic hb, Comp.bind_eq_ok_iff] at h
    obtain ⟨_, _, _, h⟩ := h
    cases h
  | none =>
    rw [executePlain_of_none hb, Comp.bind_eq_ok_iff] at h
    obtain ⟨handled, vm₁, hop, h⟩ := h
    cases handled with
    | some _ =>
      cases h
      exact hop
    | none => cases h

omit [StorageBackend S] in
theorem isGovernance_of_handled {op : Op F} {vm vm' : VM F S}
    (h : Governance.tryHandleGovernanceOp op vm = .ok (some ()) vm') : op.isGovernance = true := by
  cases op <;> first | rfl | cases h

theorem flow_leave {op : Op F} (hexit : op.isExit = false) {vm vm' : VM F S}
    (h : limit.flow op vm (.ok .leave vm')) :
    Governance.tryHandleGovernanceOp op vm = .ok (some ()) vm' := by
  -- the block operations end with `pure .next`
  cases op with
  | ifOp => simp only [Runner.flow, Sem.bind_ok_iff, Sem.pure_iff] at h; grind
  | loop => simp only [Runner.flow, Sem.bind_ok_iff, Sem.pure_iff] at h; grind
  | whileOp => simp only [Runner.flow, Sem.bind_ok_iff, Sem.pure_iff] at h; grind
  | matchOp => simp only [Runner.flow, Sem.bind_ok_iff, Sem.pure_iff] at h; grind
  | call => simp only [Runner.flow, Sem.bind_ok_iff, Sem.pure_iff] at h; grind
  | returnOp => cases hexit
  | breakOp => cases hexit
  | continueOp => cases hexit
  | _ => exact executePlain_leave h

theorem flow_of_handled {op : Op F} {vm vm' : VM F S}
    (h : Governance.tryHandleGovernanceOp op vm = .ok (some ()) vm') :
    limit.flow op vm (.ok .leave vm') := by
  have hplain : executePlain op vm = .ok .leave vm' := by
    have hb : (executeBasic op : Option (Exec F S Unit)) = none := by
      cases op <;> first | rfl | cases h
    rw [executePlain_of_none hb, Comp.bind_of_ok h]
    rfl
  cases op <;> first | exact hplain | cases h

theorem next_leave {op : Op F} {vm vm' : VM F S} :
    limit.next op vm (.ok .leave vm') ↔
      ∃ vm₁, announce op vm = .ok false vm₁ ∧ limit.flow op vm₁ (.ok .leave vm') := by
  simp only [Runner.next, limit_lift, Sem.bind_ok_iff, ends_iff, embed_ok]
  constructor
  · rintro ⟨simulated, vm₁, ha, h⟩
    cases simulated with
    | true => cases h
    | false =>
      rw [if_neg Bool.false_ne_true, Sem.bind_ok_iff] at h
      obtain ⟨flow, vm₂, hflow, h⟩ := h
      cases flow with
      | next =>
        rw [if_pos rfl, Sem.bind_ok_iff] at h
        obtain ⟨_, _, _, h⟩ := h
        cases h
      | leave =>
        cases h
        exact ⟨vm₁, ha, hflow⟩
  · rintro ⟨vm₁, ha, hflow⟩
    exact ⟨false, vm₁, ha, Sem.bind_ok hflow rfl⟩

/-- An operation other than an exit leaves its list exactly if the governance module handles it. -/
theorem next_leave_iff {op : Op F} (hexit : op.isExit = false) {vm : VM F S} :
    (∃ vm', limit.next op vm (.ok .leave vm')) ↔ op.isGovernance = true ∧ HandledAt op vm := by
  constructor
  · rintro ⟨vm', h⟩
    obtain ⟨vm₁, ha, hflow⟩ := next_leave.mp h
    have hop := flow_leave hexit hflow
    exact ⟨isGovernance_of_handled hop, vm₁, vm', ha, hop⟩
  · rintro ⟨-, vm₁, vm', ha, hop⟩
    exact ⟨vm', next_leave.mpr ⟨vm₁, ha, flow_of_handled hop⟩⟩

theorem runFlow_cons_next {op : Op F} {ops : List (Op F)} {vm vm₁ : VM F S}
    {r : Outcome (Fault F) (VM F S) Flow} (h : limit.next op vm (.ok .next vm₁))
    (h' : runFlow ops vm₁ r) : runFlow (op :: ops) vm r := Sem.bind_ok h h'

theorem runFlow_append (a b : List (Op F)) :
    (runFlow (a ++ b) : Sem _ (VM F S) _) = runFlow a >>= fun flow =>
      match flow with
      | .next => runFlow b
      | .leave => pure .leave := by
  induction a with
  | nil => simp [runFlow]
  | cons op a ih =>
    rw [List.cons_append, runFlow, runFlow, ih, bind_assoc]
    refine congrArg _ (funext fun flow => ?_)
    cases flow <;> simp

/-- A list without exits is left exactly when it reaches a handled governance operation. -/
theorem runFlow_leave_iff {a : List (Op F)} (hexit : ∀ op ∈ a, op.isExit = false)
    {vm : VM F S} : (∃ vm', runFlow a vm (.ok .leave vm')) ↔ ReachesHandled a vm := by
  constructor
  · rintro ⟨vm', h⟩
    induction a generalizing vm with
    | nil => cases h
    | cons op ops ih =>
      obtain ⟨flow, vm₁, hop, h⟩ := Sem.bind_ok_iff.mp h
      cases flow with
      | next =>
        obtain ⟨before, g, after, vm₂, rfl, hg, hbefore, hhandled⟩ :=
          ih (fun op h => hexit op (List.mem_cons_of_mem _ h)) h
        exact ⟨op :: before, g, after, vm₂, rfl, hg, runFlow_cons_next hop hbefore, hhandled⟩
      | leave =>
        obtain ⟨hg, hhandled⟩ := (next_leave_iff (hexit op List.mem_cons_self)).mp ⟨vm₁, hop⟩
        exact ⟨[], op, ops, vm, rfl, hg, rfl, hhandled⟩
  · rintro ⟨before, op, after, vm₁, rfl, hg, hbefore, hhandled⟩
    have hop : op.isExit = false := hexit op (by simp)
    obtain ⟨vm', h⟩ := (next_leave_iff hop).mpr ⟨hg, hhandled⟩
    refine ⟨vm', ?_⟩
    rw [runFlow_append]
    exact Sem.bind_ok hbefore (Sem.bind_ok h rfl)

/-! ### A run of one operation -/

theorem run_single {op : Op F} {x : Exec F S Unit} (hx : executeBasic op = some x)
    (hop : isSimulated op = false) {vm vm' : VM F S} (h : run [op] vm (.ok () vm')) :
    ∃ vm₁ vm₂, vm₁.core = vm.core ∧ x vm₁ = .ok () vm₂ ∧ vm'.core = vm₂.core := by
  rw [run_cons, run_nil, next_of_basic hx, Sem.bind_ok_iff] at h
  obtain ⟨flow, vm₄, hnext, hend⟩ := h
  obtain ⟨simulated, vm₁, ha, hflow⟩ := Sem.bind_ok_iff.mp hnext
  obtain ⟨vm₂, ha', hcore⟩ := announce_ok hop vm
  cases ha.symm.trans ha'
  obtain ⟨_, vm₃, hop, hafter⟩ := Sem.bind_ok_iff.mp hflow
  obtain ⟨_, _, hrec, hpure⟩ := Sem.bind_ok_iff.mp hafter
  cases hpure
  cases hend
  exact ⟨vm₁, vm₃, hcore, hop, recordStackAfter_core.ok hrec⟩

theorem run_push {v : TypedValue F} {vm vm' : VM F S} (h : run [.push v] vm (.ok () vm')) :
    vm'.stack = v :: vm.stack := by
  obtain ⟨vm₁, vm₂, hcore, hpush, hcore'⟩ := run_single rfl rfl h
  cases hpush
  have hstack := congrArg Prod.fst hcore'
  exact hstack.trans (congrArg (v :: ·) (congrArg Prod.fst hcore))

theorem not_composes_of_leave {a : List (Op F)} {vm vm' : VM F S}
    (h : runFlow a vm (.ok .leave vm')) (v : TypedValue F) : ¬ Composes vm a [.push v] := by
  intro hc
  have hrun : run (a ++ [Op.push v]) vm (.ok () vm') := by
    rw [run_append]
    exact Sem.bind_ok h rfl
  rw [hc, Sem.bind_ok_iff] at hrun
  obtain ⟨_, vm₁, ha, hpush⟩ := hrun
  have ha' : run a vm (.ok () vm') := by
    rw [run_eq_runFlow]
    exact Sem.bind_ok h rfl
  cases run_functional a vm _ _ ha ha'
  have := congrArg List.length (run_push hpush)
  simp at this

theorem next_of_quiet {op : Op F} {x : Exec F S Unit} (h : executeBasic op = some x)
    {vm vm' : VM F S} (hvm : Quiet vm) (hvm' : Quiet vm') (hx : x vm = .ok () vm') :
    limit.next op vm (.ok .next vm') := by
  rw [next_of_basic h]
  exact Sem.bind_ok (hvm.announce op) (Sem.bind_ok hx (Sem.bind_ok hvm'.recordStackAfter rfl))

/-- Execution is compositional after `a` exactly if `a` reaches no operation that the governance
module handles. -/
theorem composes_iff_not_reachesHandled (vm : VM F S) (a : List (Op F))
    (hexit : ∀ op ∈ a, op.isExit = false) :
    (∀ b, Composes vm a b) ↔ ¬ ReachesHandled a vm := by
  rw [← runFlow_leave_iff hexit]
  constructor
  · rintro h ⟨vm', hleave⟩
    exact not_composes_of_leave hleave .null (h _)
  · intro h
    exact composes_of_not_leave fun vm' hleave => h ⟨vm', hleave⟩

/-! ### A vote in front of a program -/

omit [StorageBackend S] [SerdeJson] in
theorem handleVoteThreshold_ok {threshold votes : F} {vm : VM F S} {s : VMStack F}
    (ht : Number.lt threshold (Number.ofNat 0) = false) (hs : vm.stack = .number votes :: s) :
    ∃ vm', Governance.handleVoteThreshold threshold vm = .ok () vm' := by
  have hrefuse (text : String) : (Governance.refuse (Number.lt threshold (Number.ofNat 0)) text :
      Exec F S Unit) vm = .ok () vm := by
    rw [ht]
    rfl
  have hpop : (Governance.popNumber "VoteThreshold" : Exec F S F) vm =
      .ok votes { vm with stack := s } := by
    cases vm
    subst hs
    rfl
  rw [Governance.handleVoteThreshold, Comp.bind_of_ok (hrefuse _), Comp.bind_of_ok hpop]
  cases h : Number.ge votes threshold <;> exact ⟨_, rfl⟩

end compose

/-- Two votes against a threshold of two. -/
def voteProgram : List (Op Binary64) :=
  [.push (.number (Number.ofNat 2)), .voteThreshold (Number.ofNat 2)]

theorem voteProgram_reachesHandled : ReachesHandled voteProgram (stackVm []) := by
  have hpush : limit.next (.push (.number (Number.ofNat 2))) (stackVm []) (.ok .next
      (stackVm [.number (Number.ofNat 2)])) :=
    next_of_quiet rfl (stackVm_quiet _) (stackVm_quiet _) rfl
  have hneg : Number.lt (Number.ofNat 2 : Binary64) (Number.ofNat 0) = false :=
    Ieee.lt_ofNat (by decide) (by decide)
  have hstack : (stackVm [.number (Number.ofNat 2)]).stack = [.number (Number.ofNat 2)] := rfl
  obtain ⟨vm', hvote⟩ := handleVoteThreshold_ok hneg hstack
  refine ⟨[.push (.number (Number.ofNat 2))], .voteThreshold (Number.ofNat 2), [], _, rfl, rfl,
    runFlow_cons_next hpush rfl, _, vm', (stackVm_quiet _).announce _, ?_⟩
  show (some <$> Governance.handleVoteThreshold _) _ = _
  rw [← bind_pure_comp, Comp.bind_of_ok hvote]
  rfl

theorem composes_iff_voteProgram :
    (∀ op ∈ voteProgram, op.isExit = false) ∧
      ((∀ b, Composes (stackVm []) voteProgram b) ↔ ¬ ReachesHandled voteProgram (stackVm [])) := by
  have hexit : ∀ op ∈ voteProgram, op.isExit = false := by simp [voteProgram, Op.isExit]
  exact ⟨hexit, composes_iff_not_reachesHandled (stackVm []) voteProgram hexit⟩

/-- What follows a vote is not executed: the pushed value is missing. -/
theorem not_composes_voteProgram :
    ¬ Composes (stackVm []) voteProgram [.push (.boolean true)] := by
  have hexit : ∀ op ∈ voteProgram, op.isExit = false := by simp [voteProgram, Op.isExit]
  obtain ⟨vm', h⟩ := (runFlow_leave_iff hexit).mpr voteProgram_reachesHandled
  exact not_composes_of_leave h _

end Covm.VM
