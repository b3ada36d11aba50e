import Covm.Number.Binary64
import Covm.Partial.Within
import Covm.Vm.Semantics

/-!
# What the operations leave alone

The operations without blocks, seen from outside: tracing and explanation touch neither the stack
nor the memory (`announce_ok`), and whatever is executed, a memory changes in one place only
(`VMMemory.Local`): inside a function the locals and the return value of the innermost frame,
outside every function the globals.
-/

namespace Covm

open Partial Comp

/-- The same calls are active. The locals and the return value of the innermost one may differ. -/
structure SameFrames {F : Type} (fs fs' : List (TypedCallFrame F)) : Prop where
  outer : fs'.dropLast = fs.dropLast
  inner : fs'.getLast?.map (fun f => (f.params, f.functionName)) =
    fs.getLast?.map fun f => (f.params, f.functionName)

/-- The memory changed at most in the current scope. -/
structure VMMemory.Local {F : Type} (m m' : VMMemory F) : Prop where
  frames : SameFrames m.callFrames m'.callFrames
  global : m.callFrames ≠ [] → m'.memory = m.memory

theorem SameFrames.refl {F : Type} (fs : List (TypedCallFrame F)) : SameFrames fs fs := ⟨rfl, rfl⟩

theorem SameFrames.trans {F : Type} {fs fs' fs'' : List (TypedCallFrame F)}
    (h : SameFrames fs fs') (h' : SameFrames fs' fs'') : SameFrames fs fs'' :=
  ⟨h'.outer.trans h.outer, h'.inner.trans h.inner⟩

theorem SameFrames.length {F : Type} {fs fs' : List (TypedCallFrame F)} (h : SameFrames fs fs') :
    fs'.length = fs.length := by
  have h₁ := congrArg List.length h.outer
  have h₂ := h.inner
  rw [List.length_dropLast, List.length_dropLast] at h₁
  cases fs with
  | nil =>
    cases fs' with
    | nil => rfl
    | cons f fs => simp at h₂
  | cons f fs =>
    cases fs' with
    | nil => simp at h₂
    | cons f' fs' => simpa using h₁

namespace VMMemory

variable {F : Type}

theorem Local.refl (m : VMMemory F) : Local m m := ⟨.refl _, fun _ => rfl⟩

theorem Local.trans {m m' m'' : VMMemory F} (h : Local m m') (h' : Local m' m'') :
    Local m m'' where
  frames := h.frames.trans h'.frames
  global hm := by
    refine (h'.global fun hnil => hm ?_).trans (h.global hm)
    exact List.length_eq_zero_iff.mp (by rw [← h.frames.length, hnil]; rfl)

/-- A change of the innermost frame that keeps its parameters and name. -/
theorem local_of_frame {m : VMMemory F} {fs : List (TypedCallFrame F)}
    {frame frame' : TypedCallFrame F} (hf : m.callFrames = fs ++ [frame])
    (hparams : frame'.params = frame.params) (hname : frame'.functionName = frame.functionName) :
    Local m { m with callFrames := fs ++ [frame'] } where
  frames := ⟨by simp [hf], by simp [hf, hparams, hname]⟩
  global _ := rfl

theorem store_local {m : VMMemory F} (hm : m.Framed) (name : String) (v : TypedValue F) :
    Local m (m.store name v) := by
  rcases List.eq_nil_or_concat m.callFrames with hf | ⟨fs, frame, hf⟩
  · rw [store_of_nil hm hf]
    exact ⟨.refl _, fun h => absurd hf h⟩
  · rw [List.concat_eq_append] at hf
    rw [store_of_frame hm hf]
    exact local_of_frame hf rfl rfl

theorem setReturnValue_local {m m' : VMMemory F} {v : TypedValue F}
    (h : m.setReturnValue v = .ok m') : Local m m' := by
  rcases List.eq_nil_or_concat m.callFrames with hf | ⟨fs, frame, hf⟩
  · simp [setReturnValue, hf] at h
  · rw [List.concat_eq_append] at hf
    rw [setReturnValue_of_frame hf] at h
    cases h
    exact local_of_frame hf rfl rfl

end VMMemory

namespace VM

variable {F S α : Type}

/-- The memory changed at most in the current scope. -/
def Local (vm vm' : VM F S) : Prop := vm.memory.1.Local vm'.memory.1

instance : Std.Refl (Local : VM F S → VM F S → Prop) := ⟨fun _ => .refl _⟩

instance : IsTrans (VM F S) Local := ⟨fun _ _ _ => .trans⟩

theorem Local.of_memory {vm vm' : VM F S} (h : Agree VM.memory vm vm') : Local vm vm' := by
  unfold Local
  rw [h]
  exact .refl _

/-! ### The parts of the VM -/

section parts
variable {R : VM F S → VM F S → Prop}

theorem onStack_memory (x : StackOp F α) : Within (Agree VM.memory) (onStack x : Exec F S α) := by
  refine .zoom (fun _ _ => ?_) x
  rfl

theorem onExecutor_memory (x : ExecutorOp F S α) : Within (Agree VM.memory) (onExecutor x) := by
  refine .zoom (fun _ _ => ?_) x
  rfl

theorem raise_within [Std.Refl R] (e : VMError F) : Within R (raise e : Exec F S α) := .fail _

theorem ofExcept_within [Std.Refl R] (r : Except (VMError F) α) :
    Within R (ofExcept r : Exec F S α) := by
  cases r with
  | ok a => exact .pure a
  | error e => exact raise_within e

theorem load_within [Std.Refl R] (name : String) : Within R (load name : Exec F S _) :=
  fun vm => ofExcept_within (vm.memory.1.load name) vm

theorem getFunction_within [Std.Refl R] (name : String) :
    Within R (getFunction name : Exec F S _) :=
  fun vm => ofExcept_within (vm.memory.1.getFunction name) vm

theorem push_memory (v : TypedValue F) : Within (Agree VM.memory) (push v : Exec F S Unit) :=
  onStack_memory _

theorem pop_memory : Within (Agree VM.memory) (pop : Exec F S _) := onStack_memory _

theorem emitEvent_memory (category message : String) :
    Within (Agree VM.memory) (emitEvent category message : Exec F S Unit) := onExecutor_memory _

theorem Local.of_within {x : Exec F S α} (h : Within (Agree VM.memory) x) : Within Local x :=
  h.mono fun _ _ => .of_memory

theorem store_local (name : String) (v : TypedValue F) :
    Within Local (store name v : Exec F S Unit) :=
  fun vm => VMMemory.store_local vm.memory.2 name v

theorem defineFunction_local (name : String) (params : List String) (body : List (Op F)) :
    Within Local (defineFunction name params body : Exec F S Unit) :=
  fun _ => ⟨.refl _, fun _ => rfl⟩

theorem setStringMetadata_local (key value : String) :
    Within Local (setStringMetadata key value : Exec F S Unit) :=
  fun _ => ⟨.refl _, fun _ => rfl⟩

theorem setReturnValue_local (v : TypedValue F) :
    Within Local (setReturnValue v : Exec F S Unit) := by
  intro vm
  unfold setReturnValue
  split
  · next h => exact VMMemory.setReturnValue_local h
  · exact .refl _

theorem executeReturn_local : Within Local (executeReturn : Exec F S Unit) :=
  Within.get.bind fun _ => .ite (setReturnValue_local _) (.pure _)

theorem setReturnValue_of_frame {vm : VM F S} {fs : List (TypedCallFrame F)}
    {frame : TypedCallFrame F} (hf : vm.memory.1.callFrames = fs ++ [frame]) (v : TypedValue F) :
    ∃ hm, setReturnValue v vm = .ok () { vm with
      memory := ⟨{ vm.memory.1 with
        callFrames := fs ++ [{ frame with returnValue := some v }] }, hm⟩ } := by
  have h := VMMemory.setReturnValue_of_frame hf v
  refine ⟨vm.memory.2.setReturnValue h, ?_⟩
  unfold setReturnValue
  split
  · next m hm =>
    cases hm.symm.trans h
    rfl
  · next e he => cases he.symm.trans h

/-- Inside a function there is a frame to keep the return value. -/
theorem executeReturn_ok (vm : VM F S) : ∃ vm', executeReturn vm = .ok () vm' := by
  rw [executeReturn, bind_of_ok (show (get : Exec F S _) vm = .ok vm vm from rfl)]
  split
  · next hin =>
    obtain ⟨fs, frame, hf⟩ := vm.memory.2.inFunctionCall_iff.mp hin
    obtain ⟨hm, h⟩ := setReturnValue_of_frame hf (vm.stack.top.getD .null)
    exact ⟨_, h⟩
  · exact ⟨vm, rfl⟩

end parts

/-! ### Tracing and explanation -/

/-- The parts of the VM that tracing and explanation only read. -/
def core (vm : VM F S) : VMStack F × Memory F := (vm.stack, vm.memory)

/-- The VM without its trace. -/
def untraced (vm : VM F S) : VM F S := { vm with tracer := none }

/-- The VM without its trace and its output. -/
def unannounced (vm : VM F S) : VM F S :=
  { vm with tracer := none, executor := { vm.executor with output := "" } }

theorem unannounced_of_untraced {x : Exec F S α} (h : Within (Agree untraced) x) :
    Within (Agree unannounced) x := h.mono fun _ _ h => congrArg unannounced h

theorem core_of_untraced {x : Exec F S α} (h : Within (Agree untraced) x) :
    Within (Agree core) x := h.mono fun _ _ h => congrArg core h

theorem logTrace_untraced (op : Op F) : Within (Agree untraced) (logTrace op : Exec F S Unit) := by
  intro vm
  unfold logTrace
  split
  · split
    · split <;> rfl
    · rfl
  · rfl

theorem recordStackAfter_untraced :
    Within (Agree untraced) (recordStackAfter : Exec F S Unit) := by
  intro vm
  unfold recordStackAfter
  split
  · split
    · split <;> rfl
    · rfl
  · rfl

theorem logTrace_core (op : Op F) : Within (Agree core) (logTrace op : Exec F S Unit) :=
  core_of_untraced (logTrace_untraced op)

theorem recordStackAfter_core : Within (Agree core) (recordStackAfter : Exec F S Unit) :=
  core_of_untraced recordStackAfter_untraced

theorem logTrace_ok (op : Op F) (vm : VM F S) : ∃ vm', logTrace op vm = .ok () vm' := by
  unfold logTrace
  split
  · split
    · split <;> exact ⟨_, rfl⟩
    · exact ⟨_, rfl⟩
  · exact ⟨_, rfl⟩

theorem recordStackAfter_ok (vm : VM F S) : ∃ vm', recordStackAfter vm = .ok () vm' := by
  unfold recordStackAfter
  split
  · split
    · split <;> exact ⟨_, rfl⟩
    · exact ⟨_, rfl⟩
  · exact ⟨_, rfl⟩

theorem memory_of_core {x : Exec F S α} (h : Within (Agree core) x) :
    Within (Agree VM.memory) x := h.mono fun _ _ h => congrArg Prod.snd h

variable [Number F]

theorem logExplanation_unannounced (op : Op F) :
    Within (Agree unannounced) (logExplanation op : Exec F S Unit) := by
  intro vm
  unfold logExplanation
  split <;> rfl

theorem logExplanation_core (op : Op F) :
    Within (Agree core) (logExplanation op : Exec F S Unit) :=
  (logExplanation_unannounced op).mono fun _ _ h => congrArg core h

theorem announce_of_not_simulated {op : Op F} (h : isSimulated op = false) :
    (announce op : Exec F S Bool) = do logTrace op; logExplanation op; return false := by
  simp [announce, h]

theorem logExplanation_ok (op : Op F) (vm : VM F S) : ∃ vm', logExplanation op vm = .ok () vm' := by
  unfold logExplanation
  split <;> exact ⟨_, rfl⟩

/-- What comes before the decision whether to simulate shows in the trace and the output only. -/
theorem announce_apply (op : Op F) (vm : VM F S) : ∃ vm₁, unannounced vm₁ = unannounced vm ∧
    announce op vm = (if vm.simulationMode && isSimulated op then (do simulate op; return true)
      else return false : Exec F S Bool) vm₁ := by
  obtain ⟨vm₁, h₁⟩ := logTrace_ok op vm
  obtain ⟨vm₂, h₂⟩ := logExplanation_ok op vm₁
  have hrest : unannounced vm₂ = unannounced vm :=
    ((logExplanation_unannounced op).ok h₂).trans
      ((unannounced_of_untraced (logTrace_untraced op)).ok h₁)
  have hmode := congrArg VM.simulationMode hrest
  refine ⟨vm₂, hrest, ?_⟩
  rw [announce, bind_of_ok h₁, bind_of_ok h₂,
    bind_of_ok (show (get : Exec F S _) vm₂ = .ok vm₂ vm₂ from rfl),
    show vm₂.simulationMode = vm.simulationMode from hmode]

/-- An operation that is not simulated is announced without a trace in the stack or the memory. -/
theorem announce_ok {op : Op F} (h : isSimulated op = false) (vm : VM F S) :
    ∃ vm', announce op vm = .ok false vm' ∧ core vm' = core vm := by
  obtain ⟨vm₁, hrest, ha⟩ := announce_apply op vm
  rw [h, Bool.and_false, if_neg Bool.false_ne_true] at ha
  have hcore := congrArg core hrest
  exact ⟨vm₁, ha, hcore⟩

/-- Without explanation only the trace records that an operation is announced. -/
theorem announce_silent {op : Op F} (h : isSimulated op = false) {vm : VM F S}
    (he : vm.explainEnabled = false) :
    ∃ vm', announce op vm = .ok false vm' ∧ untraced vm' = untraced vm := by
  obtain ⟨vm₁, h₁⟩ := logTrace_ok op vm
  have htrace : untraced vm₁ = untraced vm := (logTrace_untraced op).ok h₁
  have he₁ : vm₁.explainEnabled = false := (congrArg VM.explainEnabled htrace).trans he
  have h₂ : logExplanation op vm₁ = .ok () vm₁ := by simp [logExplanation, he₁]
  refine ⟨vm₁, ?_, htrace⟩
  rw [announce_of_not_simulated h, bind_of_ok h₁, bind_of_ok h₂]
  rfl

theorem simulate_memory (op : Op F) : Within (Agree VM.memory) (simulate op : Exec F S Unit) :=
  (onExecutor_memory _).bind fun _ => .ite (push_memory _) (.pure _)

theorem announce_memory (op : Op F) : Within (Agree VM.memory) (announce op : Exec F S Bool) := by
  refine (memory_of_core (logTrace_core op)).bind fun _ =>
    (memory_of_core (logExplanation_core op)).bind fun _ => Within.get.bind fun vm => ?_
  exact .ite ((simulate_memory op).bind fun _ => .pure _) (.pure _)

/-! ### Nothing traced, explained or simulated -/

/-- Tracing, explanation and simulation are off. -/
structure Quiet (vm : VM F S) : Prop where
  trace : vm.traceEnabled = false
  explain : vm.explainEnabled = false
  simulation : vm.simulationMode = false

theorem Quiet.announce {vm : VM F S} (h : Quiet vm) (op : Op F) :
    VM.announce op vm = .ok false vm := by
  have htrace : logTrace op vm = .ok () vm := by simp [logTrace, h.trace]
  have hexplain : logExplanation op vm = .ok () vm := by simp [logExplanation, h.explain]
  rw [VM.announce, bind_of_ok htrace, bind_of_ok hexplain]
  rw [bind_of_ok (show (get : Exec F S _) vm = .ok vm vm from rfl)]
  simp [h.simulation]

theorem Quiet.next [StorageBackend S] [SerdeJson] {vm : VM F S} (h : Quiet vm) (op : Op F) :
    limit.next op vm = (limit.flow op >>= fun flow => do
      if flow = .next then ends VM.recordStackAfter
      return flow) vm :=
  ends_bind_of_ok (h.announce op) _

omit [Number F] in
theorem Quiet.recordStackAfter {vm : VM F S} (h : Quiet vm) :
    VM.recordStackAfter vm = .ok () vm := by simp [VM.recordStackAfter, h.trace]

/-! ### Operations without blocks -/

/-- The operations that reach the storage through the executor. -/
def touchesStorage (op : Op F) : Bool :=
  match op with
  | .incrementReputation .. => true
  | op => isSimulated op

/-- The parts of the VM that an operation without blocks works on stay within `R`. -/
structure Arms (R : VM F S → VM F S → Prop) (op : Op F) : Prop where
  onStack {α : Type} (x : StackOp F α) : Within R (VM.onStack x : Exec F S α)
  emit (message : String) : Within R (VM.emit message : Exec F S Unit)
  emitEvent (category message : String) : Within R (VM.emitEvent category message : Exec F S Unit)
  store {name : String} (v : TypedValue F) : op = .store name →
    Within R (VM.store name v : Exec F S Unit)
  defineFunction {name : String} {params : List String} {body : List (Op F)} :
    op = .defOp name params body → Within R (VM.defineFunction name params body : Exec F S Unit)
  onExecutor {α : Type} (x : ExecutorOp F S α) : touchesStorage op = true →
    Within R (VM.onExecutor x)

section arms
variable {R : VM F S → VM F S → Prop} [Std.Refl R] [IsTrans (VM F S) R] {op : Op F}

omit [Number F] [Std.Refl R] [IsTrans (VM F S) R] in
theorem Arms.of_onExecutor (hstack : ∀ {α : Type} (x : StackOp F α),
    Within R (VM.onStack x : Exec F S α))
    (hexecutor : ∀ {α : Type} (x : ExecutorOp F S α), Within R (VM.onExecutor x))
    (hstore : ∀ {name : String} (v : TypedValue F), op = .store name →
      Within R (VM.store name v : Exec F S Unit))
    (hdef : ∀ {name : String} {params : List String} {body : List (Op F)},
      op = .defOp name params body →
        Within R (VM.defineFunction name params body : Exec F S Unit)) : Arms R op where
  onStack := hstack
  emit _ := hexecutor _
  emitEvent _ _ := hexecutor _
  store := hstore
  defineFunction := hdef
  onExecutor x _ := hexecutor x

variable [StorageBackend S]

/-- An operation without blocks stays within what its parts stay within. -/
theorem executeBasic_within (hR : Arms R op) {x : Exec F S Unit} (h : executeBasic op = some x) :
    Within R x := by
  have hbinary (f : TypedValue F → TypedValue F → Except (VMError F) (TypedValue F)) :
      Within R (binary f : Exec F S Unit) :=
    (hR.onStack _).bind fun _ => (ofExcept_within _).bind fun _ => hR.onStack _
  have hunary (f : TypedValue F → Except (VMError F) (TypedValue F)) :
      Within R (unary f : Exec F S Unit) :=
    (hR.onStack _).bind fun _ => (ofExcept_within _).bind fun _ => hR.onStack _
  have hdump : Within R (do dumpStack; dumpMemory : Exec F S Unit) :=
    (Within.get.bind fun _ => hR.emit _).bind fun _ => Within.get.bind fun _ => hR.emit _
  have hlog (operation key : String) (v : TypedValue F) :
      Within R (logStorageOperation operation key v : Exec F S Unit) := by
    intro vm
    unfold logStorageOperation
    split
    · exact hR.emitEvent _ _ vm
    · exact Std.Refl.refl vm
  cases op with
  | store name =>
    cases h
    exact (hR.onStack _).bind fun v => hR.store v rfl
  | load name =>
    cases h
    exact (load_within _).bind fun _ => hR.onStack _
  | defOp name params body => cases h; exact hR.defineFunction rfl
  | assertTop expected =>
    cases h
    exact (hR.onStack _).bind fun _ => .ite (raise_within _) (.pure _)
  | assertMemory key expected =>
    cases h
    exact (load_within _).bind fun _ => .ite (raise_within _) (.pure _)
  | assertEqualStack depth =>
    cases h
    exact (hR.onStack _).bind fun _ => .ite (raise_within _) (.pure _)
  | pop =>
    cases h
    exact (hR.onStack _).bind fun _ => .pure _
  | dumpStack => cases h; exact Within.get.bind fun _ => hR.emit _
  | dumpMemory => cases h; exact Within.get.bind fun _ => hR.emit _
  | dumpState => cases h; exact hdump
  | nop => cases h; exact .pure _
  | balance resource account =>
    cases h
    exact (hR.onExecutor _ rfl).bind fun _ => hR.onStack _
  | storeP key =>
    cases h
    exact (hR.onStack _).bind fun _ => (hlog _ _ _).bind fun _ => hR.onExecutor _ rfl
  | loadP key =>
    cases h
    exact Within.get.bind fun _ => (hR.onExecutor _ rfl).bind fun _ =>
      (hlog _ _ _).bind fun _ => hR.onStack _
  | _ =>
    cases h <;>
    first
    | exact hR.onStack _
    | exact hR.emit _
    | exact hR.emitEvent _ _
    | exact hR.onExecutor _ rfl
    | exact hbinary _
    | exact hunary _

end arms

/-- Only `Store` and `Def` touch the memory. -/
theorem executeBasic_memory [StorageBackend S] {op : Op F} {x : Exec F S Unit}
    (h : executeBasic op = some x) (hstore : ∀ name, op ≠ .store name)
    (hdef : ∀ name params body, op ≠ .defOp name params body) : Within (Agree VM.memory) x :=
  executeBasic_within (.of_onExecutor onStack_memory onExecutor_memory
    (fun _ heq => absurd heq (hstore _)) fun heq => absurd heq (hdef _ _ _)) h

theorem executeBasic_local [StorageBackend S] {op : Op F} {x : Exec F S Unit}
    (h : executeBasic op = some x) : Within Local x :=
  executeBasic_within (.of_onExecutor (fun _ => .of_within (onStack_memory _))
    (fun _ => .of_within (onExecutor_memory _)) (fun v _ => store_local _ v)
    fun _ => defineFunction_local _ _ _) h

end VM

/-! ### Governance operations -/

namespace Governance

open VM

variable {F S : Type}

/-- The operations that leave the memory alone stay within `R`. -/
structure Speaks (R : VM F S → VM F S → Prop) : Prop where
  onStack {α : Type} (x : StackOp F α) : Within R (VM.onStack x : Exec F S α)
  emitEvent (category message : String) : Within R (VM.emitEvent category message : Exec F S Unit)

/-- The operations the governance handlers are made of stay within `R`. -/
structure Handles (R : VM F S → VM F S → Prop) : Prop extends Speaks R where
  store (name : String) (v : TypedValue F) : Within R (VM.store name v : Exec F S Unit)
  setStringMetadata (key value : String) :
    Within R (VM.setStringMetadata key value : Exec F S Unit)

theorem handles_local : Handles (Local : VM F S → VM F S → Prop) where
  onStack x := .of_within (onStack_memory x)
  emitEvent category message := .of_within (emitEvent_memory category message)
  store := store_local
  setStringMetadata := setStringMetadata_local

section within
variable {R : VM F S → VM F S → Prop} [Std.Refl R] [IsTrans (VM F S) R]

omit [IsTrans (VM F S) R] in
theorem refuse_within (failed : Bool) (text : String) :
    Within R (refuse failed text : Exec F S Unit) := .ite (raise_within _) (.pure _)

variable (hR : Speaks R)
include hR

theorem updateDelegations_within (delegations : HashMap String) (source target : String) :
    Within R (updateDelegations delegations source target : Exec F S _) :=
  .ite (.ite ((hR.emitEvent _ _).bind fun _ => .pure _)
      ((hR.emitEvent _ _).bind fun _ => .pure _))
    ((refuse_within _ _).bind fun _ => (hR.emitEvent _ _).bind fun _ => .pure _)

variable [Number F]

omit [Std.Refl R] in
theorem pushVerdict_within (met : Bool) (subject : String) :
    Within R (pushVerdict met subject : Exec F S Unit) :=
  .ite ((hR.onStack _).bind fun _ => hR.emitEvent _ _)
    ((hR.onStack _).bind fun _ => hR.emitEvent _ _)

theorem handleQuorumThreshold_within (threshold : F) :
    Within R (handleQuorumThreshold threshold : Exec F S Unit) :=
  (refuse_within _ _).bind fun _ => (hR.onStack _).bind fun _ =>
    (hR.onStack _).bind fun _ => (refuse_within _ _).bind fun _ =>
      (hR.emitEvent _ _).bind fun _ => pushVerdict_within hR _ _

theorem handleVoteThreshold_within (threshold : F) :
    Within R (handleVoteThreshold threshold : Exec F S Unit) :=
  (refuse_within _ _).bind fun _ => (hR.onStack _).bind fun _ =>
    (hR.emitEvent _ _).bind fun _ => pushVerdict_within hR _ _

theorem popMany_within (opName : String) (n : Nat) :
    Within R (popMany opName n : Exec F S (List F)) := by
  induction n with
  | zero => exact .pure _
  | succ n ih => exact (hR.onStack _).bind fun _ => ih.bind fun _ => .pure _

theorem popBallots_within (candidates n : Nat) :
    Within R (popBallots candidates n : Exec F S (List (List F))) := by
  induction n with
  | zero => exact .pure _
  | succ n ih => exact (popMany_within hR _ _).bind fun _ => ih.bind fun _ => .pure _

omit [IsTrans (VM F S) R] [Number F] hR in
theorem addUsize_within (a b : Nat) : Within R (addUsize a b : Exec F S Nat) := by
  unfold addUsize
  exact .ite (.pure _) (.fail _)

theorem eliminationRounds_within (candidates ballots : Nat) (allBallots : List (List F))
    (rounds : Nat) (eliminated : List Bool) :
    Within R (eliminationRounds candidates ballots allBallots rounds eliminated :
      Exec F S (List Bool)) := by
  induction rounds generalizing eliminated with
  | zero => exact .pure _
  | succ rounds ih =>
    exact (addUsize_within _ _).bind fun _ => (hR.emitEvent _ _).bind fun _ => ih _

theorem handleRankedVote_within (candidates ballots : Nat) :
    Within R (handleRankedVote candidates ballots : Exec F S Unit) :=
  (refuse_within _ _).bind fun _ => (refuse_within _ _).bind fun _ =>
    (popBallots_within hR _ _).bind fun _ => (hR.emitEvent _ _).bind fun _ =>
      (eliminationRounds_within hR _ _ _ _ _).bind fun _ =>
        (hR.emitEvent _ _).bind fun _ => hR.onStack _

/-- Only `LiquidDelegate` touches the memory. -/
theorem tryHandleGovernanceOp_speaks [SerdeJson] {op : Op F}
    (hop : ∀ source target, op ≠ .liquidDelegate source target) :
    Within R (tryHandleGovernanceOp op : Exec F S _) := by
  cases op with
  | rankedVote candidates ballots => exact (handleRankedVote_within hR _ _).map _
  | liquidDelegate source target => exact absurd rfl (hop source target)
  | quorumThreshold threshold => exact (handleQuorumThreshold_within hR _).map _
  | voteThreshold threshold => exact (handleVoteThreshold_within hR _).map _
  | _ => exact .pure none

omit hR in
theorem handleLiquidDelegate_within [SerdeJson] (hR : Handles R) (source target : String) :
    Within R (handleLiquidDelegate source target : Exec F S Unit) :=
  (refuse_within _ _).bind fun _ => Within.get.bind fun _ =>
    (updateDelegations_within hR.toSpeaks _ _ _).bind fun _ =>
      (hR.setStringMetadata _ _).bind fun _ => hR.store _ _

omit hR in
theorem tryHandleGovernanceOp_within [SerdeJson] (hR : Handles R) (op : Op F) :
    Within R (tryHandleGovernanceOp op : Exec F S _) := by
  by_cases hop : ∃ source target, op = .liquidDelegate source target
  · obtain ⟨source, target, rfl⟩ := hop
    exact (handleLiquidDelegate_within hR source target).map _
  · exact tryHandleGovernanceOp_speaks hR.toSpeaks fun source target heq =>
      hop ⟨source, target, heq⟩

end within

end Governance

/-- An operation without blocks stays within `R` if its arm does, or its governance handler. -/
theorem VM.executePlain_of_arms {F S : Type} [Number F] [StorageBackend S] [SerdeJson]
    {R : VM F S → VM F S → Prop} [Std.Refl R] [IsTrans (VM F S) R] {op : Op F}
    (hgov : Within R (Governance.tryHandleGovernanceOp op : Exec F S _))
    (hbasic : ∀ x, executeBasic op = some x → Within R (x : Exec F S Unit)) :
    Within R (executePlain op : Exec F S Flow) := by
  cases hb : (executeBasic op : Option (Exec F S Unit)) with
  | some x =>
    rw [executePlain_of_basic hb]
    exact (hbasic x hb).bind fun _ => .pure _
  | none =>
    rw [executePlain_of_none hb]
    refine hgov.bind fun handled => ?_
    cases handled with
    | some _ => exact .pure _
    | none => exact raise_within _

theorem VM.executePlain_within {F S : Type} [Number F] [StorageBackend S] [SerdeJson]
    {R : VM F S → VM F S → Prop} [Std.Refl R] [IsTrans (VM F S) R] (hR : Governance.Handles R)
    {op : Op F} (hbasic : ∀ x, executeBasic op = some x → Within R (x : Exec F S Unit)) :
    Within R (executePlain op : Exec F S Flow) :=
  executePlain_of_arms (Governance.tryHandleGovernanceOp_within hR op) hbasic

theorem VM.executePlain_local {F S : Type} [Number F] [StorageBackend S] [SerdeJson] (op : Op F) :
    Within Local (executePlain op : Exec F S Flow) :=
  executePlain_within Governance.handles_local fun _ hb => executeBasic_local hb

/-! ### A VM over doubles, without storage -/

namespace VM

def stackVm (stack : VMStack Binary64) : VM Binary64 NoStorage :=
  { VM.new fun _ => 0 with stack := stack }

theorem stackVm_quiet (stack : VMStack Binary64) : Quiet (stackVm stack) := ⟨rfl, rfl, rfl⟩

end VM

end Covm
