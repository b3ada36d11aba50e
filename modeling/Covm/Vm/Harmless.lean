import Covm.Governance.Json
import Covm.Number.Binary64
import Covm.Vm.Panicking

/-!
# Runs that do not panic

`Harmless op vm` is what keeps one operation from panicking in one state. The other steps of the
machine cannot panic at all, so that a program does not panic exactly if every operation its run
comes to is harmless there.
-/

namespace Covm

open Partial Comp

variable {F : Type} [Number F]

namespace VM

/-- The operation does not panic in this state. -/
def Harmless : Op F → VM F InMemoryStorage → Prop
  | .assertEqualStack depth, vm => depth = 0 → vm.stack ≠ []
  | .mint resource account amount _, vm => ∀ b, vm.executor.storageBackend = some b →
    b.MintFits vm.executor.authContext vm.executor.ns resource account (Number.toU64 amount)
  | .transfer resource source target amount _, vm => ∀ b, vm.executor.storageBackend = some b →
    b.TransferFits vm.executor.authContext vm.executor.ns resource source target
      (Number.toU64 amount)
  | .incrementReputation identityId amount _, vm => vm.executor.ReputationFits identityId amount
  | .rankedVote candidates ballots, vm => 2 ≤ candidates → 1 ≤ ballots →
    VMStack.HoldsNumbers (candidates * ballots) vm.stack → ballots + 1 < 2 ^ 64
  | _, _ => True

theorem assertEqualStack_raises_iff {S : Type} {depth : Nat} {vm : VM F S} :
    Raises (.fault .panic) (assertEqualStack depth) vm ↔ ¬ (depth = 0 → vm.stack ≠ []) := by
  have htail (equal : Bool) : Avoids (.fault .panic) (if !equal then
      raise (.assertionFailed s!"Stack depth {depth} values are not equal")
      else (pure () : Exec F S Unit)) := .ite (raise_avoids _) (.pure _)
  unfold assertEqualStack onStack
  rw [raises_bind_left htail, raises_zoom]
  cases hs : vm.stack with
  | nil =>
    cases depth with
    | zero => exact iff_of_true ⟨[], rfl⟩ (by simp)
    | succ depth =>
      have hshort : (VMStack.assertEqualStack (depth + 1) : StackOp F Bool) [] =
          .error (.fault (.error .stackUnderflow)) [] := by simp [VMStack.assertEqualStack]
      exact iff_of_false (not_raises_of_error hshort (by simp)) (by simp)
  | cons v s =>
    refine iff_of_false ?_ (by simp)
    rintro ⟨t, ht⟩
    unfold VMStack.assertEqualStack at ht
    split at ht <;> cases ht

section plain
variable [SerdeJson]

theorem raises_of_basic {op : Op F} {vm : VM F InMemoryStorage}
    {x : Exec F InMemoryStorage Unit} (h : executeBasic op = some x) :
    Raises (.fault .panic) (executePlain op) vm ↔ Raises (.fault .panic) x vm := by
  rw [executePlain_of_basic h]
  exact raises_bind_left fun _ => .pure _

/-- An arm that cannot panic. -/
theorem calm_of_basic {op : Op F} {vm : VM F InMemoryStorage} {x : Exec F InMemoryStorage Unit}
    (h : executeBasic op = some x) (hx : Avoids (.fault .panic) x) :
    Raises (.fault .panic) (executePlain op) vm ↔ ¬ True := by
  rw [raises_of_basic h]
  exact iff_of_false (hx vm) (not_not_intro trivial)

theorem raises_of_handler {op : Op F} {vm : VM F InMemoryStorage}
    (h : (executeBasic op : Option (Exec F InMemoryStorage Unit)) = none) :
    Raises (.fault .panic) (executePlain op) vm ↔
      Raises (.fault .panic) (Governance.tryHandleGovernanceOp op) vm := by
  rw [executePlain_of_none h]
  refine raises_bind_left fun handled => ?_
  cases handled with
  | some _ => exact .pure _
  | none => exact raise_avoids _

/-- A handler that cannot panic. -/
theorem calm_of_handler {op : Op F} {vm : VM F InMemoryStorage}
    (h : (executeBasic op : Option (Exec F InMemoryStorage Unit)) = none)
    (hx : Avoids (.fault .panic) (Governance.tryHandleGovernanceOp op :
      Exec F InMemoryStorage _)) :
    Raises (.fault .panic) (executePlain op) vm ↔ ¬ True := by
  rw [raises_of_handler h]
  exact iff_of_false (hx vm) (not_not_intro trivial)

theorem executePlain_raises_iff (op : Op F) (vm : VM F InMemoryStorage) :
    Raises (.fault .panic) (executePlain op) vm ↔ ¬ Harmless op vm := by
  have hdumpStack : Avoids (.fault .panic) (dumpStack : Exec F InMemoryStorage Unit) :=
    Avoids.get.bind fun _ => emit_avoids _
  have hdumpMemory : Avoids (.fault .panic) (dumpMemory : Exec F InMemoryStorage Unit) :=
    Avoids.get.bind fun _ => emit_avoids _
  cases op with
  | push value => exact calm_of_basic rfl (push_avoids value)
  | add | sub | mul | div | mod | eq | gt | lt | and | or =>
    exact calm_of_basic rfl (binary_avoids _)
  | negate | not => exact calm_of_basic rfl (unary_avoids _)
  | store name =>
    exact calm_of_basic rfl (pop_avoids.bind fun _ => modifyMemory_avoids _)
  | load name =>
    exact calm_of_basic rfl ((load_avoids name).bind fun _ => push_avoids _)
  | emit message => exact calm_of_basic rfl (emit_avoids message)
  | assertTop expected =>
    exact calm_of_basic rfl (pop_avoids.bind fun _ => .ite (raise_avoids _) (.pure _))
  | dumpStack => exact calm_of_basic rfl hdumpStack
  | dumpMemory => exact calm_of_basic rfl hdumpMemory
  | dumpState => exact calm_of_basic rfl (hdumpStack.bind fun _ => hdumpMemory)
  | assertMemory key expected =>
    exact calm_of_basic rfl ((load_avoids key).bind fun _ => .ite (raise_avoids _) (.pure _))
  | pop => exact calm_of_basic rfl (pop_avoids.bind fun _ => .pure _)
  | dup => exact calm_of_basic rfl dup_avoids
  | swap => exact calm_of_basic rfl swap_avoids
  | overOp => exact calm_of_basic rfl overOp_avoids
  | defOp name params body => exact calm_of_basic rfl (modifyMemory_avoids _)
  | nop => exact calm_of_basic rfl (.pure ())
  | emitEvent category message => exact calm_of_basic rfl (emitEvent_avoids category message)
  | assertEqualStack depth =>
    rw [raises_of_basic rfl, assertEqualStack_raises_iff, Harmless]
  | createResource resource =>
    exact calm_of_basic rfl (avoids_zoom (VMExecution.executeCreateResource_avoids resource))
  | mint resource account amount reason =>
    rw [raises_of_basic rfl, onExecutor, raises_zoom, VMExecution.executeMint_raises_iff]
    simp only [Harmless, not_forall, exists_prop]
  | transfer resource source target amount reason =>
    rw [raises_of_basic rfl, onExecutor, raises_zoom, VMExecution.executeTransfer_raises_iff]
    simp only [Harmless, not_forall, exists_prop]
  | burn resource account amount reason =>
    exact calm_of_basic rfl (avoids_zoom (VMExecution.executeBurn_avoids _ _ _ _))
  | balance resource account =>
    exact calm_of_basic rfl ((avoids_zoom (VMExecution.executeBalance_avoids _ _)).bind fun _ =>
      push_avoids _)
  | incrementReputation identityId amount reason =>
    rw [raises_of_basic rfl, onExecutor, raises_zoom,
      VMExecution.executeIncrementReputation_raises_iff, Harmless]
  | storeP key =>
    exact calm_of_basic rfl (pop_avoids.bind fun _ => (logStorageOperation_avoids _ _ _).bind
      fun _ => avoids_zoom (VMExecution.executeStoreP_avoids _ _))
  | loadP key =>
    exact calm_of_basic rfl (Avoids.get.bind fun _ =>
      (avoids_zoom (VMExecution.executeLoadP_avoids _ _)).bind fun _ =>
        (logStorageOperation_avoids _ _ _).bind fun _ => push_avoids _)
  | rankedVote candidates ballots =>
    rw [raises_of_handler rfl, Governance.tryHandleGovernanceOp, raises_map,
      Governance.handleRankedVote_raises_iff]
    simp only [Harmless, Classical.not_imp]
  | liquidDelegate source target =>
    exact calm_of_handler rfl (.map _ (Governance.handleLiquidDelegate_avoids source target))
  | quorumThreshold threshold =>
    exact calm_of_handler rfl (.map _ (Governance.handleQuorumThreshold_avoids threshold))
  | voteThreshold threshold =>
    exact calm_of_handler rfl (.map _ (Governance.handleVoteThreshold_avoids threshold))
  | _ => exact calm_of_handler rfl (.pure none)

end plain

end VM

/-! ## Steps and runs -/

section runs
variable [SerdeJson]

theorem Frame.start_raises_iff (next out : List (Frame F)) (op : Op F)
    (vm : VM F InMemoryStorage) :
    Raises (.fault .panic) (Frame.start next out op) vm ↔ ¬ VM.Harmless op vm := by
  have hcalm {x : Exec F InMemoryStorage (List (Frame F))} (hx : Avoids (.fault .panic) x) :
      Raises (.fault .panic) x vm ↔ ¬ True := iff_of_false (hx vm) (not_not_intro trivial)
  cases op with
  | ifOp | loop | whileOp | matchOp | breakOp | continueOp => exact hcalm (.pure _)
  | call name => exact hcalm ((VM.enterCall_avoids name).bind fun _ => .pure _)
  | returnOp => exact hcalm (VM.executeReturn_avoids.bind fun _ => .pure _)
  | _ => exact (raises_bind_left fun _ => .pure _).trans (VM.executePlain_raises_iff _ vm)

/-- Only the step that executes an operation can panic. -/
theorem Frame.step_raises_iff (frame : Frame F) (rest : List (Frame F))
    (vm : VM F InMemoryStorage) :
    Raises (.fault .panic) (frame.step rest) vm ↔
      ∃ op ops, frame = .exec op ops ∧ ¬ VM.Harmless op vm := by
  have hcalm (hx : Avoids (.fault .panic) (frame.step rest : Exec F InMemoryStorage _))
      (hframe : ∀ op ops, frame ≠ .exec op ops) : Raises (.fault .panic) (frame.step rest) vm ↔
        ∃ op ops, frame = .exec op ops ∧ ¬ VM.Harmless op vm :=
    iff_of_false (hx vm) fun ⟨op, ops, h, _⟩ => hframe op ops h
  cases frame with
  | seq ops =>
    refine hcalm ?_ (by simp)
    cases ops with
    | nil => exact .pure _
    | cons op ops => exact (VM.announce_avoids op).bind fun _ => .pure _
  | exec op ops =>
    rw [Frame.step, Frame.start_raises_iff]
    simp
  | after => exact hcalm (VM.recordStackAfter_avoids.bind fun _ => .pure _) (by simp)
  | ifTest | whileTest | matchTest => exact hcalm (VM.pop_avoids.bind fun _ => .pure _) (by simp)
  | loop remaining body => cases remaining <;> exact hcalm (.pure _) (by simp)
  | whileLoop condition body => exact hcalm (.pure _) (by simp)
  | call name => exact hcalm ((VM.exitCall_avoids name).bind fun _ => .pure _) (by simp)

theorem machine_raises_iff {c : Config F InMemoryStorage} :
    (machine.running c = true ∧ Raises (.fault .panic) machine.step c) ↔
      ∃ op ops K, c.frames = .exec op ops :: K ∧ ¬ VM.Harmless op c.vm := by
  obtain ⟨frames, vm⟩ := c
  cases frames with
  | nil => simp [machine]
  | cons frame rest =>
    have hstep : Raises (.fault .panic) machine.step (⟨frame :: rest, vm⟩ : Config F _) ↔
        Raises (.fault .panic) (frame.step rest) vm := by
      cases hs : frame.step rest vm <;> simp [Raises, machine, advance, hs]
    rw [hstep, Frame.step_raises_iff]
    simp [machine]

/-- The run of the program comes to an operation, in some state. -/
def ComesTo (ops : List (Op F)) (vm : VM F InMemoryStorage) (op : Op F)
    (vm' : VM F InMemoryStorage) : Prop :=
  ∃ rest K, machine.Reaches ⟨[.seq ops], vm⟩ ⟨.exec op rest :: K, vm'⟩

/-- Whatever the fuel, the program runs on, or returns `Ok` or `Err`. -/
def NeverPanics (ops : List (Op F)) (vm : VM F InMemoryStorage) : Prop :=
  ∀ fuel, ¬ Raises (.fault .panic) (VM.Indexed.execute fuel ops) vm

theorem panics_iff_outcome {ops : List (Op F)} {vm : VM F InMemoryStorage} :
    ¬ NeverPanics ops vm ↔ ∃ c, machine.outcome ⟨[.seq ops], vm⟩ (.error .panic c) := by
  have hrun : ¬ NeverPanics ops vm ↔ ∃ vm', VM.run ops vm (.error .panic vm') := by
    unfold NeverPanics Raises VM.run lim
    simp only [VM.Indexed.execute_eq, not_forall, not_not, embed_error]
    exact exists_comm
  rw [hrun]
  constructor
  · rintro ⟨vm', h⟩
    obtain ⟨r, hr, hview⟩ := run_iff_outcome.mp h
    cases r with
    | ok a c => cases hview
    | error e c =>
      cases hview
      exact ⟨c, hr⟩
  · rintro ⟨c, hc⟩
    exact ⟨c.vm, run_iff_outcome.mpr ⟨_, hc, rfl⟩⟩

/-- A program does not panic exactly if its run comes to harmless operations only. -/
theorem neverPanics_iff_harmless (ops : List (Op F)) (vm : VM F InMemoryStorage) :
    NeverPanics ops vm ↔ ∀ op vm', ComesTo ops vm op vm' → VM.Harmless op vm' := by
  rw [← not_iff_not, panics_iff_outcome, Machine.outcome_error_iff]
  simp only [machine_raises_iff, not_forall, exists_prop]
  constructor
  · rintro ⟨⟨frames, vm'⟩, hreach, op, rest, K, rfl, hharm⟩
    exact ⟨op, vm', ⟨rest, K, hreach⟩, hharm⟩
  · rintro ⟨op, vm', ⟨rest, K, hreach⟩, hharm⟩
    exact ⟨_, hreach, op, rest, K, rfl, hharm⟩

end runs

/-- The check for `depth` values does not keep `depth = 0` from unwrapping the top of an empty
stack. -/
theorem not_neverPanics_assertEqualStack :
    ¬ ∀ (ops : List (Op Binary64)) (vm : VM Binary64 InMemoryStorage), NeverPanics ops vm := by
  intro h
  exact h [.assertEqualStack 0] (VM.new fun _ => 0) 1 ⟨_, rfl⟩

end Covm
