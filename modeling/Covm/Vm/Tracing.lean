import Covm.Vm.OpLog
import Covm.Vm.Simulation

/-!
# The execution trace

The tracer opens a frame before an operation; after the operation the stack is written into the
*last* frame. Where an operation has executed others, their last frame is the last one, so that the
operation's own frame stays open and the other is overwritten. An operation that is only simulated
or leaves its list writes nothing. So the trace is faithful only by coincidence of the stacks
(`trace_faithful_iff`).
-/

namespace Covm

open Partial Comp

/-! ## What the tracer holds -/

namespace OpLog

variable {F : Type}

/-- Writes a stack into the last frame. -/
def completeLast (stack : VMStack F) : List (TypedTraceFrame F) → List (TypedTraceFrame F)
  | [] => []
  | [frame] => [{ frame with stackAfter := stack }]
  | frame :: next :: frames => frame :: completeLast stack (next :: frames)

/-- Writes a stack, if there is one, into the last frame. -/
def overwrite : Option (VMStack F) → List (TypedTraceFrame F) → List (TypedTraceFrame F)
  | some stack => completeLast stack
  | none => id

theorem completeLast_concat (stack : VMStack F) (frames : List (TypedTraceFrame F))
    (frame : TypedTraceFrame F) : completeLast stack (frames ++ [frame]) =
      frames ++ [{ frame with stackAfter := stack }] := by
  induction frames with
  | nil => rfl
  | cons first frames ih =>
    cases frames with
    | nil => rfl
    | cons second frames =>
      show first :: completeLast stack (second :: frames ++ [frame]) = _
      rw [ih]
      rfl

theorem completeLast_append (stack : VMStack F) (frames : List (TypedTraceFrame F))
    {frames' : List (TypedTraceFrame F)} (h : frames' ≠ []) :
    completeLast stack (frames ++ frames') = frames ++ completeLast stack frames' := by
  obtain ⟨init, last, rfl⟩ := (List.eq_nil_or_concat' frames').resolve_left h
  rw [← List.append_assoc, completeLast_concat, completeLast_concat, List.append_assoc]

theorem completeLast_completeLast (stack stack' : VMStack F) (frames : List (TypedTraceFrame F)) :
    completeLast stack (completeLast stack' frames) = completeLast stack frames := by
  obtain rfl | ⟨init, last, rfl⟩ := List.eq_nil_or_concat' frames
  · rfl
  · rw [completeLast_concat, completeLast_concat, completeLast_concat]

theorem length_completeLast (stack : VMStack F) (frames : List (TypedTraceFrame F)) :
    (completeLast stack frames).length = frames.length := by
  obtain rfl | ⟨init, last, rfl⟩ := List.eq_nil_or_concat' frames
  · rfl
  · rw [completeLast_concat, List.length_append, List.length_append]
    rfl

theorem overwrite_append (stack : Option (VMStack F)) (frames : List (TypedTraceFrame F))
    {frames' : List (TypedTraceFrame F)} (h : frames' ≠ []) :
    overwrite stack (frames ++ frames') = frames ++ overwrite stack frames' := by
  cases stack with
  | none => rfl
  | some stack => exact completeLast_append stack frames h

theorem overwrite_overwrite (stack stack' : Option (VMStack F))
    (frames : List (TypedTraceFrame F)) :
    overwrite stack (overwrite stack' frames) = overwrite (stack.or stack') frames := by
  cases stack with
  | none => rfl
  | some stack =>
    cases stack' with
    | none => rfl
    | some stack' => exact completeLast_completeLast stack stack' frames

theorem length_overwrite (stack : Option (VMStack F)) (frames : List (TypedTraceFrame F)) :
    (overwrite stack frames).length = frames.length := by
  cases stack with
  | none => rfl
  | some stack => exact length_completeLast stack frames

/-- The stack that an operation writes when it is done. -/
def written (after : VMStack F) (completed : Bool) : Option (VMStack F) :=
  if completed then some after else none

/-- The frames the tracer has after what a log says was executed. -/
def traced : OpLog F → List (TypedTraceFrame F)
  | nil => []
  | entry op before after completed inner rest =>
    overwrite (written after completed) (⟨op, before, []⟩ :: inner.traced) ++ rest.traced

theorem traced_append (log log' : OpLog F) : (log ++ log').traced = log.traced ++ log'.traced := by
  induction log with
  | nil => rfl
  | entry op before after completed inner rest _ ih =>
    rw [entry_append, traced, traced, ih, List.append_assoc]

theorem length_traced (log : OpLog F) : log.traced.length = log.frames.length := by
  induction log with
  | nil => rfl
  | entry op before after completed inner rest ihinner ihrest =>
    rw [traced, frames, List.length_append, List.length_append, length_overwrite, List.length_cons,
      List.length_cons, ihinner, ihrest]

theorem traced_ne_nil {log : OpLog F} (h : log ≠ nil) : log.traced ≠ [] := by
  cases log with
  | nil => exact absurd rfl h
  | entry op before after completed inner rest =>
    intro hnil
    have hlength := congrArg List.length hnil
    rw [length_traced, frames, List.length_append, List.length_cons] at hlength
    exact absurd hlength (by simp)

def isNil : OpLog F → Bool
  | nil => true
  | entry .. => false

/-- When the trace is faithful, where the last frame is overwritten `later`: an operation that
executes others leaves an empty stack, and one that executes none leaves the stack that is written
into its frame last: by the outermost completed operation that ends with it. -/
def Legible : OpLog F → Option (VMStack F) → Prop
  | nil, _ => True
  | entry _ _ after completed inner rest, later =>
    let last := if rest.isNil then later.or (written after completed) else written after completed
    (if inner.isNil then last.getD [] = after else after = [] ∧ inner.Legible last) ∧
      rest.Legible later

/-- The frames of one operation and of those it executes. -/
theorem overwrite_entry_iff {op : Op F} {before after : VMStack F} {inner : OpLog F}
    (h : ∀ later, overwrite later inner.traced = inner.frames ↔ inner.Legible later)
    (last : Option (VMStack F)) :
    overwrite last (⟨op, before, []⟩ :: inner.traced) = ⟨op, before, after⟩ :: inner.frames ↔
      if inner.isNil then last.getD [] = after else after = [] ∧ inner.Legible last := by
  cases inner with
  | nil =>
    cases last with
    | none => simp [overwrite, traced, frames, isNil]
    | some stack => simp [overwrite, traced, frames, completeLast, isNil]
  | entry op' before' after' completed' inner' rest' =>
    rw [← h, show (⟨op, before, []⟩ : TypedTraceFrame F) :: traced _ = [⟨op, before, []⟩] ++ traced _
      from rfl, overwrite_append last _ (traced_ne_nil (by simp))]
    simp [eq_comm, isNil]

theorem overwrite_traced_iff (log : OpLog F) (later : Option (VMStack F)) :
    overwrite later log.traced = log.frames ↔ log.Legible later := by
  induction log generalizing later with
  | nil => cases later <;> exact iff_of_true rfl trivial
  | entry op before after completed inner rest ihinner ihrest =>
    rw [Legible, ← overwrite_entry_iff ihinner, traced, frames]
    cases rest with
    | nil =>
      show overwrite later (overwrite _ _ ++ []) = _ :: (inner.frames ++ []) ↔ _ ∧ True
      rw [List.append_nil, List.append_nil, overwrite_overwrite, and_true]
      rfl
    | entry op' before' after' completed' inner' rest' =>
      rw [← ihrest, overwrite_append later _ (traced_ne_nil (by simp))]
      constructor
      · intro h
        refine List.append_inj h ?_
        rw [length_overwrite, List.length_cons, List.length_cons, length_traced]
      · rintro ⟨h, h'⟩
        rw [← h, ← h']
        rfl

end OpLog

namespace VM

variable {F S α : Type}

/-- `set_tracing`. -/
def setTracing (enabled : Bool) (vm : VM F S) : VM F S :=
  if enabled && vm.tracer.isNone then
    { vm with traceEnabled := enabled, tracer := some ⟨true, []⟩ }
  else if !enabled && vm.tracer.isSome then { vm with traceEnabled := enabled, tracer := none }
  else { vm with traceEnabled := enabled }

/-! ## What the operations leave alone -/

/-- What the trace is made with. -/
def tracing (vm : VM F S) : Bool × Option (VMTracer F) := (vm.traceEnabled, vm.tracer)

theorem onStack_tracing (x : StackOp F α) : Within (Agree tracing) (onStack x : Exec F S α) := by
  refine .zoom (fun _ _ => ?_) x
  rfl

theorem onExecutor_tracing (x : ExecutorOp F S α) : Within (Agree tracing) (onExecutor x) := by
  refine .zoom (fun _ _ => ?_) x
  rfl

theorem modifyMemory_tracing (f : Memory F → Memory F) :
    Within (Agree tracing) (modifyMemory f : Exec F S Unit) := fun _ => rfl

theorem executeReturn_tracing : Within (Agree tracing) (executeReturn : Exec F S Unit) := by
  refine Within.get.bind fun _ => .ite (fun vm => ?_) (.pure _)
  unfold setReturnValue
  split <;> rfl

theorem handles_tracing : Governance.Handles (Agree (tracing : VM F S → _)) where
  onStack := onStack_tracing
  emitEvent _ _ := onExecutor_tracing _
  store _ _ := modifyMemory_tracing _
  setStringMetadata _ _ := modifyMemory_tracing _

theorem popArguments_tracing (names : List String) (values : HashMap (TypedValue F)) :
    Within (Agree tracing) (popArguments names values : Exec F S _) := by
  induction names generalizing values with
  | nil => exact .pure _
  | cons name names ih => exact (onStack_tracing _).bind fun _ => ih _

theorem enterCall_tracing (name : String) :
    Within (Agree tracing) (enterCall name : Exec F S _) :=
  (getFunction_within name).bind fun _ => (popArguments_tracing _ _).bind fun _ =>
    (modifyMemory_tracing _).bind fun _ => .pure _

theorem exitCall_tracing (name : String) :
    Within (Agree tracing) (exitCall name : Exec F S Unit) := by
  have hpop : Within (Agree tracing) (popCallFrame : Exec F S _) := fun _ => rfl
  refine hpop.bind fun frame => ?_
  cases frame with
  | none => exact raise_within _
  | some frame =>
    dsimp only
    cases frame.returnValue with
    | some value => exact onStack_tracing _
    | none => exact .pure _

variable [Number F]

theorem logExplanation_tracing (op : Op F) :
    Within (Agree tracing) (logExplanation op : Exec F S Unit) := by
  intro vm
  unfold logExplanation
  split <;> rfl

theorem simulate_tracing (op : Op F) : Within (Agree tracing) (simulate op : Exec F S Unit) :=
  (onExecutor_tracing _).bind fun _ => .ite (onStack_tracing _) (.pure _)

variable [StorageBackend S]

theorem executePlain_tracing [SerdeJson] (op : Op F) :
    Within (Agree tracing) (executePlain op : Exec F S Flow) :=
  executePlain_within handles_tracing fun _ h =>
    executeBasic_within (.of_onExecutor onStack_tracing onExecutor_tracing
      (fun _ _ => modifyMemory_tracing _) fun _ => modifyMemory_tracing _) h

/-! ## What is traced -/

omit [Number F] [StorageBackend S]

/-- `vm.tracer.external_frames`. -/
def externalFrames (vm : VM F S) : List (TypedTraceFrame F) :=
  vm.tracer.elim [] VMTracer.externalFrames

/-- Tracing is on, and so is the tracer. -/
def Recording (vm : VM F S) : Prop :=
  vm.traceEnabled = true ∧ ∃ t, vm.tracer = some t ∧ t.enabled = true

/-- There is a tracer, but it is off. -/
def Paused (vm : VM F S) : Prop := ∃ t, vm.tracer = some t ∧ t.enabled = false

theorem recording_of_agree {vm vm' : VM F S} (h : Agree tracing vm vm') (hvm : Recording vm) :
    Recording vm' := by
  obtain ⟨henabled, htracer⟩ := Prod.mk.inj h
  unfold Recording
  rwa [henabled, htracer]

theorem paused_of_agree {vm vm' : VM F S} (h : Agree tracing vm vm') (hvm : Paused vm) :
    Paused vm' := by
  unfold Paused
  rwa [show vm'.tracer = vm.tracer from (Prod.mk.inj h).2]

theorem externalFrames_of_agree {vm vm' : VM F S} (h : Agree tracing vm vm') :
    vm'.externalFrames = vm.externalFrames := by
  unfold externalFrames
  rw [show vm'.tracer = vm.tracer from (Prod.mk.inj h).2]

/-- A frame is opened. -/
theorem logTrace_recording (op : Op F) {vm : VM F S} (h : Recording vm) :
    ∃ vm', logTrace op vm = .ok () vm' ∧ Recording vm' ∧ untraced vm' = untraced vm ∧
      vm'.externalFrames = vm.externalFrames ++ [⟨op, vm.stack, []⟩] := by
  obtain ⟨htrace, t, ht, hon⟩ := h
  refine ⟨{ vm with tracer := some { t with externalFrames :=
    t.externalFrames ++ [⟨op, vm.stack, []⟩] } }, ?_, ⟨htrace, _, rfl, hon⟩, rfl, ?_⟩
  · simp [logTrace, htrace, ht, hon]
  · simp [externalFrames, ht]

/-- The last frame is overwritten. -/
theorem recordStackAfter_recording {vm : VM F S} (h : Recording vm) :
    ∃ vm', recordStackAfter vm = .ok () vm' ∧ Recording vm' ∧ untraced vm' = untraced vm ∧
      vm'.externalFrames = OpLog.completeLast vm.stack vm.externalFrames := by
  obtain ⟨htrace, t, ht, hon⟩ := h
  obtain hnil | ⟨init, last, hlast⟩ := List.eq_nil_or_concat' t.externalFrames
  · refine ⟨vm, ?_, ⟨htrace, t, ht, hon⟩, rfl, ?_⟩
    · simp [recordStackAfter, htrace, ht, hnil]
    · simp [externalFrames, ht, hnil, OpLog.completeLast]
  · refine ⟨{ vm with tracer := some { t with externalFrames :=
      init ++ [{ last with stackAfter := vm.stack }] } }, ?_, ⟨htrace, _, rfl, hon⟩, rfl, ?_⟩
    · simp [recordStackAfter, htrace, ht, hlast]
    · simp [externalFrames, ht, hlast, OpLog.completeLast_concat]

theorem recordStackAfter_paused {vm vm' : VM F S} (h : Paused vm)
    (hrecord : recordStackAfter vm = .ok () vm') :
    Paused vm' ∧ vm'.externalFrames.length = vm.externalFrames.length := by
  obtain ⟨t, ht, hoff⟩ := h
  unfold recordStackAfter at hrecord
  rw [ht] at hrecord
  dsimp only at hrecord
  split at hrecord
  · obtain hnil | ⟨init, last, hlast⟩ := List.eq_nil_or_concat' t.externalFrames
    · rw [hnil] at hrecord
      cases hrecord
      exact ⟨⟨t, ht, hoff⟩, rfl⟩
    · rw [hlast, List.getLast?_concat] at hrecord
      cases hrecord
      exact ⟨⟨_, rfl, hoff⟩, by simp [externalFrames, ht, hlast]⟩
  · cases hrecord
    exact ⟨⟨t, ht, hoff⟩, rfl⟩

/-- What is executed with the trace on shows in the log and in the trace. -/
def Grown (p p' : VM F S × OpLog F) : Prop :=
  Recording p.1 → Recording p'.1 ∧ ∃ new, p'.2 = p.2 ++ new ∧
    p'.1.externalFrames = p.1.externalFrames ++ new.traced

instance : Std.Refl (Grown : VM F S × OpLog F → VM F S × OpLog F → Prop) :=
  ⟨fun _ h => ⟨h, .nil, (OpLog.append_nil _).symm, (List.append_nil _).symm⟩⟩

instance : IsTrans (VM F S × OpLog F) Grown where
  trans := by
    rintro p p' p'' h h' hp
    obtain ⟨hp', new, hlog, hframes⟩ := h hp
    obtain ⟨hp'', new', hlog', hframes'⟩ := h' hp'
    refine ⟨hp'', new ++ new', ?_, ?_⟩
    · rw [hlog', hlog, OpLog.append_assoc]
    · rw [hframes', hframes, OpLog.traced_append, List.append_assoc]

/-- With the tracer off what is executed shows in the log only. -/
def Unrecorded (p p' : VM F S × OpLog F) : Prop :=
  Paused p.1 → Paused p'.1 ∧ p'.1.externalFrames.length = p.1.externalFrames.length ∧
    ∃ new, p'.2 = p.2 ++ new ∧ (new = .nil → p'.1.externalFrames = p.1.externalFrames)

instance : Std.Refl (Unrecorded : VM F S × OpLog F → VM F S × OpLog F → Prop) :=
  ⟨fun _ h => ⟨h, rfl, .nil, (OpLog.append_nil _).symm, fun _ => rfl⟩⟩

instance : IsTrans (VM F S × OpLog F) Unrecorded where
  trans := by
    rintro p p' p'' h h' hp
    obtain ⟨hp', hlength, new, hlog, hnil⟩ := h hp
    obtain ⟨hp'', hlength', new', hlog', hnil'⟩ := h' hp'
    refine ⟨hp'', hlength'.trans hlength, new ++ new', ?_, fun hboth => ?_⟩
    · rw [hlog', hlog, OpLog.append_assoc]
    · cases new with
      | nil => exact (hnil' hboth).trans (hnil rfl)
      | entry op before after completed inner rest => exact nomatch hboth

theorem grown_beside {x : Exec F S α} (h : Within (Agree tracing) x) :
    Leads Grown (beside x : Logged F S α) := by
  rintro ⟨vm, log⟩ a p hx hvm
  obtain ⟨vm', hok, rfl⟩ := beside_eq_ok.mp hx
  have hagree := h.ok hok
  refine ⟨recording_of_agree hagree hvm, .nil, (OpLog.append_nil _).symm, ?_⟩
  rw [externalFrames_of_agree hagree]
  exact (List.append_nil _).symm

theorem unrecorded_beside {x : Exec F S α} (h : Within (Agree tracing) x) :
    Leads Unrecorded (beside x : Logged F S α) := by
  rintro ⟨vm, log⟩ a p hx hvm
  obtain ⟨vm', hok, rfl⟩ := beside_eq_ok.mp hx
  have hagree := h.ok hok
  have hframes := externalFrames_of_agree hagree
  exact ⟨paused_of_agree hagree hvm, congrArg _ hframes, .nil, (OpLog.append_nil _).symm,
    fun _ => hframes⟩

section leads
variable [Number F] [StorageBackend S] [SerdeJson]
  {R : VM F S × OpLog F → VM F S × OpLog F → Prop} [Std.Refl R] [IsTrans (VM F S × OpLog F) R]
  (hbeside : ∀ {α : Type} {x : Exec F S α}, Within (Agree tracing) x → Leads R (beside x))
  {n : Nat} {block : List (Op F) → Logged F S Unit} (hblock : ∀ ops, Leads R (block ops))
include hbeside hblock

/-- Between its announcement and the recording of the stack an operation stays within what blocks
and the other parts of the VM stay within. -/
theorem logged_leads : Runner.Related (fun _ x _ => Leads R x)
    (loggedRunner n block : Runner F S _) (loggedRunner n block) where
  pure := .pure
  bind hx hf := hx.bind hf
  block := hblock
  loopWhile ht hb := ht.whileFuel hb n
  pop := hbeside (onStack_tracing _)
  enterCall name := hbeside (enterCall_tracing name)
  exitCall name := hbeside (exitCall_tracing name)
  executeReturn := hbeside executeReturn_tracing
  executePlain op := hbeside (executePlain_tracing op)

omit hbeside hblock in
theorem opsLogged_leads {runner : Runner F S (Comp (Fault F) (VM F S × OpLog F))}
    (hnext : ∀ op, Leads R (nextLogged runner op)) (ops : List (Op F)) :
    Leads R (opsLogged runner ops) := by
  induction ops with
  | nil => exact .pure ()
  | cons op ops ih =>
    refine (hnext op).bind fun flow => ?_
    cases flow with
    | next => exact ih
    | leave => exact .pure ()

end leads

section operations
variable [Number F] [StorageBackend S] [SerdeJson] {n : Nat}
  {block : List (Op F) → Logged F S Unit}

/-- What an operation does between opening its frame and closing it. -/
theorem next_eq_ok {op : Op F} {p p' : VM F S × OpLog F} {flow : Flow}
    (h : (loggedRunner n block).next op p = .ok flow p') :
    ∃ vm₁, logTrace op p.1 = .ok () vm₁ ∧ ∃ vm₂, Agree tracing vm₁ vm₂ ∧
      ((p.1.simulationMode && isSimulated op) = true ∧ flow = .next ∧ p' = (vm₂, p.2) ∨
        (p.1.simulationMode && isSimulated op) = false ∧ ∃ p₃,
          (loggedRunner n block).flow op (vm₂, p.2) = .ok flow p₃ ∧
          (flow = .leave ∧ p' = p₃ ∨
            flow = .next ∧ ∃ vm₄, recordStackAfter p₃.1 = .ok () vm₄ ∧ p' = (vm₄, p₃.2))) := by
  obtain ⟨vm, log⟩ := p
  obtain ⟨simulated, p₁, hannounce, hrest⟩ := bind_eq_ok_iff.mp h
  obtain ⟨vm₃, hannounced, rfl⟩ := beside_eq_ok.mp hannounce
  obtain ⟨vm₁, htrace⟩ := logTrace_ok op vm
  obtain ⟨vm₂, hexplain⟩ := logExplanation_ok op vm₁
  have hmode₁ := congrArg VM.simulationMode ((logTrace_untraced op).ok htrace)
  have hmode₂ := congrArg VM.simulationMode ((logExplanation_unannounced op).ok hexplain)
  have hmode : vm₂.simulationMode = vm.simulationMode := hmode₂.trans hmode₁
  have hagree : Agree tracing vm₁ vm₂ := (logExplanation_tracing op).ok hexplain
  rw [announce, bind_of_ok htrace, bind_of_ok hexplain,
    bind_of_ok (show (get : Exec F S _) vm₂ = .ok vm₂ vm₂ from rfl), hmode] at hannounced
  refine ⟨vm₁, htrace, vm₃, ?_⟩
  cases hsim : vm.simulationMode && isSimulated op with
  | true =>
    rw [hsim, if_pos rfl] at hannounced
    obtain ⟨_, vm₄, hsimulate, hpure⟩ := bind_eq_ok_iff.mp hannounced
    cases hpure
    cases hrest
    exact ⟨((simulate_tracing op).ok hsimulate).trans hagree, .inl ⟨rfl, rfl, rfl⟩⟩
  | false =>
    rw [hsim, if_neg Bool.false_ne_true] at hannounced
    cases hannounced
    obtain ⟨flow', p₃, hflow, hrecord⟩ := bind_eq_ok_iff.mp hrest
    refine ⟨hagree, .inr ⟨rfl, p₃, ?_⟩⟩
    cases flow' with
    | leave =>
      cases hrecord
      exact ⟨hflow, .inl ⟨rfl, rfl⟩⟩
    | next =>
      obtain ⟨_, p₄, hafter, hpure⟩ := bind_eq_ok_iff.mp hrecord
      obtain ⟨vm₄, hok, rfl⟩ := beside_eq_ok.mp hafter
      cases hpure
      exact ⟨hflow, .inr ⟨rfl, vm₄, hok, rfl⟩⟩

theorem nextLogged_eq_ok {runner : Runner F S (Comp (Fault F) (VM F S × OpLog F))} {op : Op F}
    {p p' : VM F S × OpLog F} {flow : Flow} (h : nextLogged runner op p = .ok flow p') :
    ∃ vm' inner, runner.next op (p.1, .nil) = .ok flow (vm', inner) ∧
      p' = (vm', p.2 ++ .entry op p.1.stack vm'.stack
        (decide (flow = .next) && !(p.1.simulationMode && isSimulated op)) inner .nil) := by
  obtain ⟨vm, log⟩ := p
  unfold nextLogged at h
  dsimp only at h ⊢
  cases hnext : runner.next op (vm, .nil) with
  | ok flow' p₁ =>
    rw [hnext] at h
    cases h
    exact ⟨p₁.1, p₁.2, rfl, rfl⟩
  | error e p₁ =>
    rw [hnext] at h
    cases h

theorem nextLogged_grown (hblock : ∀ ops, Leads Grown (block ops)) (op : Op F) :
    Leads Grown (nextLogged (loggedRunner n block) op) := by
  rintro ⟨vm, log⟩ flow p h hvm
  obtain ⟨vm', inner, hnext, rfl⟩ := nextLogged_eq_ok h
  obtain ⟨vm₁, htrace, vm₂, hagree, hcases⟩ := next_eq_ok hnext
  obtain ⟨vm₁', htrace', hvm₁, -, hframes₁⟩ := logTrace_recording op hvm
  cases htrace.symm.trans htrace'
  have hvm₂ := recording_of_agree hagree hvm₁
  have hframes₂ := (externalFrames_of_agree hagree).trans hframes₁
  suffices hnew : Recording vm' ∧ vm'.externalFrames = vm.externalFrames ++
      OpLog.overwrite (OpLog.written vm'.stack
        (decide (flow = .next) && !(vm.simulationMode && isSimulated op)))
        (⟨op, vm.stack, []⟩ :: inner.traced) by
    refine ⟨hnew.1, _, rfl, ?_⟩
    rw [OpLog.traced]
    exact hnew.2.trans (congrArg _ (List.append_nil _).symm)
  obtain ⟨hsim, rfl, heq⟩ | ⟨hsim, ⟨vm₃, inner₃⟩, hflow, hend⟩ := hcases
  · cases heq
    rw [hsim]
    exact ⟨hvm₂, hframes₂⟩
  · obtain ⟨hvm₃, new, hinner, hframes₃⟩ := (logged_leads grown_beside hblock).flow op hflow hvm₂
    obtain rfl : inner₃ = new := hinner
    have hopened : vm₃.externalFrames =
        vm.externalFrames ++ (⟨op, vm.stack, []⟩ :: inner₃.traced) := by
      rw [show vm₃.externalFrames = _ from hframes₃, hframes₂, List.append_assoc]
      rfl
    obtain ⟨rfl, heq⟩ | ⟨rfl, vm₄, hrecord, heq⟩ := hend
    · cases heq
      exact ⟨hvm₃, hopened⟩
    · cases heq
      obtain ⟨vm₄', hrecord', hvm₄, huntraced, hframes₄⟩ := recordStackAfter_recording hvm₃
      cases hrecord.symm.trans hrecord'
      have hsame := congrArg VM.stack huntraced
      have hstack : vm'.stack = vm₃.stack := hsame
      refine ⟨hvm₄, hframes₄.trans ?_⟩
      show OpLog.completeLast vm₃.stack vm₃.externalFrames = _
      rw [hsim, hstack, hopened, OpLog.completeLast_append _ _ (by simp)]
      rfl

theorem nextLogged_unrecorded (hblock : ∀ ops, Leads Unrecorded (block ops)) (op : Op F) :
    Leads Unrecorded (nextLogged (loggedRunner n block) op) := by
  rintro ⟨vm, log⟩ flow p h ⟨t, ht, hoff⟩
  obtain ⟨vm', inner, hnext, rfl⟩ := nextLogged_eq_ok h
  obtain ⟨vm₁, htrace, vm₂, hagree, hcases⟩ := next_eq_ok hnext
  obtain rfl : vm₁ = vm := by
    have hsilent : logTrace op vm = .ok () vm := by
      simp only [logTrace, show vm.tracer = some t from ht, hoff]
      split <;> rfl
    cases htrace.symm.trans hsilent
    rfl
  have hvm₂ := paused_of_agree hagree ⟨t, ht, hoff⟩
  have hlength₂ := congrArg List.length (externalFrames_of_agree hagree)
  suffices hnew : Paused vm' ∧ vm'.externalFrames.length = vm₁.externalFrames.length by
    refine ⟨hnew.1, hnew.2, _, rfl, fun hnil => ?_⟩
    cases hnil
  obtain ⟨-, -, heq⟩ | ⟨-, ⟨vm₃, inner₃⟩, hflow, hend⟩ := hcases
  · cases heq
    exact ⟨hvm₂, hlength₂⟩
  · obtain ⟨hvm₃, hlength₃, -⟩ := (logged_leads unrecorded_beside hblock).flow op hflow hvm₂
    obtain ⟨-, heq⟩ | ⟨-, vm₄, hrecord, heq⟩ := hend
    · cases heq
      exact ⟨hvm₃, hlength₃.trans hlength₂⟩
    · cases heq
      have hvm₄ := recordStackAfter_paused hvm₃ hrecord
      exact ⟨hvm₄.1, hvm₄.2.trans (hlength₃.trans hlength₂)⟩

theorem executeLogged_grown (n : Nat) (ops : List (Op F)) :
    Leads Grown (executeLogged n ops : Logged F S Unit) := by
  induction n generalizing ops with
  | zero => exact .outOfFuel
  | succ n ih => exact opsLogged_leads (nextLogged_grown ih) ops

theorem executeLogged_unrecorded (n : Nat) (ops : List (Op F)) :
    Leads Unrecorded (executeLogged n ops : Logged F S Unit) := by
  induction n generalizing ops with
  | zero => exact .outOfFuel
  | succ n ih => exact opsLogged_leads (nextLogged_unrecorded ih) ops

end operations

theorem recording_or_paused (vm : VM F S) :
    Recording (vm.setTracing true) ∨ Paused (vm.setTracing true) := by
  unfold setTracing
  cases ht : vm.tracer with
  | none => exact .inl ⟨rfl, _, rfl, rfl⟩
  | some t =>
    cases hon : t.enabled with
    | true => exact .inl ⟨rfl, t, rfl, hon⟩
    | false => exact .inr ⟨t, rfl, hon⟩

theorem externalFrames_setTracing (vm : VM F S) :
    (vm.setTracing true).externalFrames = vm.externalFrames := by
  unfold setTracing externalFrames
  cases ht : vm.tracer with
  | none => rfl
  | some t => rfl

/-- A run with the trace on is traced faithfully exactly if nothing was executed, or the tracer is
on and the stacks happen to be those that the tracer writes. -/
theorem trace_faithful_iff [Number F] [StorageBackend S] [SerdeJson] {ops : List (Op F)}
    {vm vm' : VM F S} (h : run ops (vm.setTracing true) (.ok () vm')) :
    ∃ log, Executed ops (vm.setTracing true) vm' log ∧
      (vm'.externalFrames = vm.externalFrames ++ log.frames ↔
        log = .nil ∨ Recording (vm.setTracing true) ∧ log.Legible none) := by
  obtain ⟨log, n, hlog⟩ := run_iff_executed.mp h
  refine ⟨log, ⟨n, hlog⟩, ?_⟩
  obtain hvm | hvm := recording_or_paused vm
  · obtain ⟨-, new, hnew, hframes⟩ := executeLogged_grown n ops hlog hvm
    obtain rfl : log = new := hnew
    rw [show vm'.externalFrames = _ from hframes, externalFrames_setTracing, List.append_right_inj,
      ← OpLog.overwrite_traced_iff, and_iff_right hvm]
    refine ⟨.inr, ?_⟩
    rintro (rfl | hsame)
    · rfl
    · exact hsame
  · obtain ⟨-, hlength, new, hnew, hnil⟩ := executeLogged_unrecorded n ops hlog hvm
    obtain rfl : log = new := hnew
    rw [externalFrames_setTracing] at hlength hnil
    constructor
    · intro hframes
      rw [show (vm', log).1.externalFrames = _ from hframes, List.length_append] at hlength
      refine .inl (of_not_not fun hne => OpLog.traced_ne_nil hne ?_)
      rw [← List.length_eq_zero_iff, OpLog.length_traced]
      omega
    · rintro (rfl | ⟨⟨-, t, ht, hon⟩, -⟩)
      · exact (hnil rfl).trans (List.append_nil _).symm
      · obtain ⟨t', ht', hoff⟩ := hvm
        cases ht.symm.trans ht'
        exact nomatch hon.symm.trans hoff

theorem trace_faithful_push : ∃ vm', run [.push (.boolean true)] ((stackVm []).setTracing true)
      (.ok () vm') ∧
    ∃ log, Executed [.push (.boolean true)] ((stackVm []).setTracing true) vm' log ∧
      (vm'.externalFrames = (stackVm []).externalFrames ++ log.frames ↔
        log = .nil ∨ Recording ((stackVm []).setTracing true) ∧ log.Legible none) := by
  obtain ⟨vm', hrun, -⟩ : ∃ vm', run [.push (.boolean true)] ((stackVm []).setTracing true)
      (.ok () vm') ∧ vm'.stack.length = 1 := lim_of_endsIn 2 (by decide)
  exact ⟨vm', hrun, trace_faithful_iff hrun⟩

/-- A loop that pushes a value leaves its own frame open. -/
theorem not_trace_faithful :
    ¬ ∀ (ops : List (Op Binary64)) (vm vm' : VM Binary64 NoStorage) (log : OpLog Binary64),
      run ops (vm.setTracing true) (.ok () vm') → Executed ops (vm.setTracing true) vm' log →
        vm'.externalFrames = vm.externalFrames ++ log.frames := by
  intro h
  obtain ⟨⟨vm', log⟩, ⟨n, hn⟩, hp⟩ : ∃ p : VM Binary64 NoStorage × OpLog Binary64,
      lim (fun n => executeLogged n [.loop 1 [.push (.boolean true)]])
        ((stackVm []).setTracing true, .nil) (.ok () p) ∧
      p.1.externalFrames.map (fun f => f.stackAfter.length) = [0, 1] ∧
      p.2.frames.map (fun f => f.stackAfter.length) = [1, 1] := lim_of_endsIn 3 (by decide)
  have hsame := h _ (stackVm []) vm' log (run_iff_executed.mpr ⟨log, n, hn⟩) ⟨n, hn⟩
  have hlengths := congrArg (List.map fun f => f.stackAfter.length) hsame
  rw [hp.1, List.map_append, hp.2] at hlengths
  exact absurd hlengths (by decide)

end VM

end Covm
