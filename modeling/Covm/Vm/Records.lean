import Covm.Vm.Effects

/-!
# What a run adds to

However a run ends, its output and its events begin with those from before. The clock was only read
further, and the storage calls were made for the caller, and in the namespace, the run began with.
-/

namespace Covm

open Partial Comp

/-- A loop stays within what its test and its body stay within. -/
theorem Partial.Comp.Within.whileFuel {ε σ : Type} {R : σ → σ → Prop} [Std.Refl R] [IsTrans σ R]
    {test : Comp ε σ Bool} {body : Comp ε σ Unit} (ht : Within R test) (hb : Within R body)
    (n : Nat) : Within R (Partial.whileFuel test body n) := by
  induction n with
  | zero => exact fun s => Std.Refl.refl s
  | succ n ih => exact ht.bind fun _ => .ite (hb.bind fun _ => ih) (.pure _)

variable {F S : Type}

/-- The output and the events of `x` go on in `x'`; who calls, and where, is the same. -/
structure VMExecution.Extends (x x' : VMExecution S) : Prop where
  output : x.output.toList <+: x'.output.toList
  events : x.events <+: x'.events
  reads : x.reads ≤ x'.reads
  clock : x'.clock = x.clock
  authContext : x'.authContext = x.authContext
  ns : x'.ns = x.ns
  attached : x'.storageBackend.isSome = x.storageBackend.isSome

namespace VMExecution

instance : Std.Refl (Extends (S := S)) :=
  ⟨fun _ => ⟨List.prefix_rfl, List.prefix_rfl, le_refl _, rfl, rfl, rfl, rfl⟩⟩

instance : IsTrans (VMExecution S) Extends :=
  ⟨fun _ _ _ h h' => ⟨h.output.trans h'.output, h.events.trans h'.events, h.reads.trans h'.reads,
    h'.clock.trans h.clock, h'.authContext.trans h.authContext, h'.ns.trans h.ns,
    h'.attached.trans h.attached⟩⟩

theorem emit_extends (message : String) :
    Within Extends (emit message : ExecutorOp F S Unit) := by
  intro x
  refine ⟨?_, List.prefix_rfl, le_refl _, rfl, rfl, rfl, rfl⟩
  show x.output.toList <+: (x.output ++ message ++ "\n").toList
  rw [String.toList_append, String.toList_append, List.append_assoc]
  exact List.prefix_append _ _

theorem emitEvent_extends (category message : String) :
    Within Extends (emitEvent category message : ExecutorOp F S Unit) :=
  fun _ => ⟨List.prefix_rfl, List.prefix_append _ _, Nat.le_succ _, rfl, rfl, rfl, rfl⟩

theorem logStorageEvent_extends (category label : String) (event : Option StorageEvent) :
    Within Extends (logStorageEvent category label event : ExecutorOp F S Unit) := by
  cases event with
  | none => exact .pure _
  | some e =>
    exact fun _ => ⟨List.prefix_rfl, List.prefix_append _ _, Nat.le_succ _, rfl, rfl, rfl, rfl⟩

theorem now_extends : Within Extends (now : ExecutorOp F S Nat) := fun _ => Std.Refl.refl _

/-- Whether the call succeeds or not, the records stay. -/
theorem storageOperation_extends {α : Type} (operationName : String)
    (f : Option AuthContext → String → StorageM S α) :
    Within Extends (storageOperation operationName f : ExecutorOp F S α) := by
  intro x
  unfold storageOperation
  cases hb : x.storageBackend with
  | none => exact Std.Refl.refl _
  | some b =>
    have hattached (b' : S) : Extends x { x with storageBackend := some b' } :=
      ⟨List.prefix_rfl, List.prefix_rfl, le_refl _, rfl, rfl, rfl, by rw [hb]; rfl⟩
    dsimp only
    split
    · exact hattached _
    · exact hattached _
    · exact hattached _

variable [Number F]

theorem reputationAmount_extends (amount : Option (TypedValue F)) :
    Within Extends (reputationAmount amount : ExecutorOp F S Nat) := by
  unfold reputationAmount
  split
  · exact .pure _
  · split
    · exact .fail _
    · exact .fail _
    · exact .ite (.fail _) (.ite (.fail _) (.pure _))

variable [StorageBackend S]

theorem executeIncrementReputation_extends (identityId : String)
    (amount : Option (TypedValue F)) :
    Within Extends (executeIncrementReputation identityId amount : ExecutorOp F S Unit) := by
  refine (reputationAmount_extends amount).bind fun n => (emitEvent_extends _ _).bind fun _ => ?_
  intro x
  dsimp only
  split
  · exact Std.Refl.refl _
  · refine ((storageOperation_extends _ _).bind fun current =>
      (logStorageEvent_extends _ _ _).bind fun _ => now_extends.bind fun _ =>
        (storageOperation_extends _ _).bind fun _ => logStorageEvent_extends _ _ _ :
          Within Extends (_ : ExecutorOp F S Unit)) x

theorem executeLoadP_extends (key : String) (missing : MissingKeyBehavior) :
    Within Extends (executeLoadP key missing : ExecutorOp F S (TypedValue F)) := by
  refine now_extends.bind fun t => fun x => ?_
  have hload := (storageOperation_extends "load_p" fun auth ns =>
    EconomicOperations.load t auth ns key : Within Extends (_ : ExecutorOp F S _)) x
  split
  · next bytes event x' heq =>
    rw [heq] at hload
    refine IsTrans.trans _ _ _ hload (((logStorageEvent_extends _ _ _).bind fun _ => ?_ :
      Within Extends (_ : ExecutorOp F S (TypedValue F))) x')
    split
    · exact .pure _
    · exact .fail _
  · next details x' heq =>
    rw [heq] at hload
    split_ifs
    · cases missing with
      | default => exact hload
      | error => exact hload
    · exact hload
  · next e x' _ heq =>
    rw [heq] at hload
    exact hload

end VMExecution

namespace VM

/-- The executor's records go on, and a simulation stays one. -/
def Extends (vm vm' : VM F S) : Prop :=
  vm.executor.Extends vm'.executor ∧ vm'.simulationMode = vm.simulationMode

instance : Std.Refl (Extends : VM F S → VM F S → Prop) := ⟨fun _ => ⟨Std.Refl.refl _, rfl⟩⟩

instance : IsTrans (VM F S) Extends :=
  ⟨fun _ _ _ h h' => ⟨IsTrans.trans _ _ _ h.1 h'.1, h'.2.trans h.2⟩⟩

theorem onStack_extends {α : Type} (x : StackOp F α) : Within Extends (onStack x : Exec F S α) :=
  .zoom (fun _ _ => ⟨Std.Refl.refl _, rfl⟩) x

theorem modifyMemory_extends (f : Memory F → Memory F) :
    Within Extends (modifyMemory f : Exec F S Unit) := fun _ => ⟨Std.Refl.refl _, rfl⟩

theorem onExecutor_extends {α : Type} {x : ExecutorOp F S α}
    (h : Within VMExecution.Extends x) : Within Extends (onExecutor x) := by
  intro vm
  have hx := h vm.executor
  unfold onExecutor Comp.zoom
  split
  · next heq =>
    rw [heq] at hx
    exact ⟨hx, rfl⟩
  · next heq =>
    rw [heq] at hx
    exact ⟨hx, rfl⟩

theorem executeReturn_extends : Within Extends (executeReturn : Exec F S Unit) := by
  refine Within.get.bind fun _ => .ite (fun vm => ?_) (.pure _)
  unfold setReturnValue
  split <;> exact ⟨Std.Refl.refl _, rfl⟩

theorem enterCall_extends (name : String) : Within Extends (enterCall name : Exec F S _) := by
  have harguments (names : List String) (values : HashMap (TypedValue F)) :
      Within Extends (popArguments names values : Exec F S _) := by
    induction names generalizing values with
    | nil => exact .pure _
    | cons name names ih => exact (onStack_extends _).bind fun _ => ih _
  exact (getFunction_within name).bind fun _ => (harguments _ _).bind fun _ =>
    (modifyMemory_extends _).bind fun _ => .pure _

theorem exitCall_extends (name : String) : Within Extends (exitCall name : Exec F S Unit) := by
  have hpop : Within Extends (popCallFrame : Exec F S _) := fun _ => ⟨Std.Refl.refl _, rfl⟩
  refine hpop.bind fun frame => ?_
  cases frame with
  | none => exact raise_within _
  | some frame =>
    dsimp only
    cases frame.returnValue with
    | some value => exact onStack_extends _
    | none => exact .pure _

theorem handles_extends : Governance.Handles (Extends : VM F S → VM F S → Prop) where
  onStack := onStack_extends
  emitEvent _ _ := onExecutor_extends (VMExecution.emitEvent_extends _ _)
  store _ _ := modifyMemory_extends _
  setStringMetadata _ _ := modifyMemory_extends _

theorem Extends.of_untraced {vm vm' : VM F S} (h : Agree untraced vm vm') : vm.Extends vm' := by
  have hvm : untraced vm' = untraced vm := h
  have hexecutor : (untraced vm').executor = (untraced vm).executor := congrArg VM.executor hvm
  have hmode : (untraced vm').simulationMode = (untraced vm).simulationMode :=
    congrArg VM.simulationMode hvm
  refine ⟨?_, hmode⟩
  rw [show vm'.executor = vm.executor from hexecutor]
  exact Std.Refl.refl _

variable [Number F]

theorem announce_extends (op : Op F) : Within Extends (announce op : Exec F S Bool) := by
  have hemit (message : String) : Within Extends (emit message : Exec F S Unit) :=
    onExecutor_extends (VMExecution.emit_extends message)
  have hexplain : Within Extends (logExplanation op : Exec F S Unit) := by
    intro vm
    unfold logExplanation
    split
    · exact hemit _ vm
    · exact Std.Refl.refl _
  have hsimulate : Within Extends (simulate op : Exec F S Unit) :=
    (hemit _).bind fun _ => .ite (onStack_extends _) (.pure _)
  have htrace : Within Extends (logTrace op : Exec F S Unit) :=
    (logTrace_untraced op).mono fun _ _ => .of_untraced
  exact htrace.bind fun _ => hexplain.bind fun _ => Within.get.bind fun _ =>
    .ite (hsimulate.bind fun _ => .pure _) (.pure _)

variable [StorageBackend S]

theorem executeBasic_extends {op : Op F} {x : Exec F S Unit} (h : executeBasic op = some x) :
    Within Extends x := by
  have hlog (operation key : String) (v : TypedValue F) :
      Within Extends (logStorageOperation operation key v : Exec F S Unit) := by
    intro vm
    unfold logStorageOperation
    split
    · exact onExecutor_extends (VMExecution.emitEvent_extends _ _) vm
    · exact Std.Refl.refl _
  have hpaid (label name : String) (f : Nat → Option AuthContext → String →
      StorageM S (Option StorageEvent)) :
      Within VMExecution.Extends (do
        let t ← VMExecution.now
        let event ← VMExecution.storageOperation name (f t)
        VMExecution.logStorageEvent label name event : ExecutorOp F S Unit) :=
    VMExecution.now_extends.bind fun _ => (VMExecution.storageOperation_extends _ _).bind fun _ =>
      VMExecution.logStorageEvent_extends _ _ _
  by_cases htouches : touchesStorage op = true
  · cases op with
    | createResource =>
      cases h
      exact onExecutor_extends ((VMExecution.storageOperation_extends _ _).bind fun _ =>
        VMExecution.emitEvent_extends _ _)
    | mint => cases h; exact onExecutor_extends (hpaid _ _ _)
    | transfer => cases h; exact onExecutor_extends (hpaid _ _ _)
    | burn => cases h; exact onExecutor_extends (hpaid _ _ _)
    | balance =>
      cases h
      refine (onExecutor_extends (VMExecution.now_extends.bind fun _ =>
        (VMExecution.storageOperation_extends _ _).bind fun _ =>
          (VMExecution.logStorageEvent_extends _ _ _).bind fun _ => .pure _)).bind fun _ => ?_
      exact onStack_extends _
    | incrementReputation =>
      cases h
      exact onExecutor_extends (VMExecution.executeIncrementReputation_extends _ _)
    | storeP =>
      cases h
      exact (onStack_extends _).bind fun _ => (hlog _ _ _).bind fun _ => onExecutor_extends
        (VMExecution.now_extends.bind fun _ =>
          (VMExecution.storageOperation_extends _ _).bind fun _ =>
            VMExecution.logStorageEvent_extends _ _ _)
    | loadP =>
      cases h
      exact Within.get.bind fun _ => (onExecutor_extends
        (VMExecution.executeLoadP_extends _ _)).bind fun _ => (hlog _ _ _).bind fun _ =>
          onStack_extends _
    | loadVersionP => cases h
    | listVersionsP => cases h
    | diffVersionsP => cases h
    | _ => exact absurd htouches Bool.false_ne_true
  · exact executeBasic_within
      { onStack := onStack_extends
        emit := fun _ => onExecutor_extends (VMExecution.emit_extends _)
        emitEvent := fun _ _ => onExecutor_extends (VMExecution.emitEvent_extends _ _)
        store := fun _ _ => modifyMemory_extends _
        defineFunction := fun _ => modifyMemory_extends _
        onExecutor := fun _ htouch => absurd htouch htouches } h

variable [SerdeJson]

/-- Blocks and loops stay within what their operations stay within. -/
theorem fuelled_extends {n : Nat}
    (h : ∀ ops, Within Extends (executeInner n ops : Exec F S Unit)) :
    Runner.Related (fun _ x _ => Within Extends x) (fuelled n : Runner F S _) (fuelled n) where
  pure _ := .pure _
  bind hx hf := hx.bind hf
  block := h
  loopWhile ht hb := ht.whileFuel hb n
  pop := onStack_extends _
  enterCall := enterCall_extends
  exitCall := exitCall_extends
  executeReturn := executeReturn_extends
  executePlain _ := executePlain_within handles_extends fun _ => executeBasic_extends

theorem executeInner_extends (n : Nat) (ops : List (Op F)) :
    Within Extends (executeInner n ops : Exec F S Unit) := by
  induction n generalizing ops with
  | zero => exact fun _ => Std.Refl.refl _
  | succ n ih =>
    show Within Extends (executeOps (executeInner n) n .none ops)
    induction ops with
    | nil => exact .pure _
    | cons op ops ihops =>
      rw [executeOps_cons]
      refine ((fuelled_extends ih).next announce_extends
        (recordStackAfter_untraced.mono fun _ _ => .of_untraced) op).bind fun flow => ?_
      cases flow with
      | next => exact ihops
      | leave => exact .pure _

/-- No program takes back what was printed or announced before it, whether it ends well or not, on
any backend; nor does it go on as another caller, in another namespace, or out of a simulation. -/
theorem run_keeps_records (ops : List (Op F)) (vm : VM F S) :
    (∀ vm', run ops vm (.ok () vm') → vm.Extends vm') ∧
      ∀ e vm', run ops vm (.error e vm') → vm.Extends vm' := by
  constructor
  · rintro vm' ⟨n, hn⟩
    exact (executeInner_extends n ops).ok hn
  · rintro e vm' ⟨n, hn⟩
    exact (executeInner_extends n ops).error hn

end VM

end Covm
