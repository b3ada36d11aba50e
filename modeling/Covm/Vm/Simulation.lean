import Covm.Governance.Json
import Covm.Storage.Calls
import Covm.Vm.Calls

/-!
# Simulation mode

In simulation mode the operations on a list of the source are only announced. What the rest of the
VM can do to the storage backend is followed through the points of execution: no step touches it,
except that `IncrementReputation` is not on the list.
-/

namespace Covm

open Partial Comp

namespace VM

variable {F S α : Type}

/-- The mode and the backend. -/
def guarded (vm : VM F S) : Bool × Option S := (vm.simulationMode, vm.executor.storageBackend)

/-! ### The parts of the VM -/

theorem onStack_guarded (x : StackOp F α) : Within (Agree guarded) (onStack x : Exec F S α) := by
  refine .zoom (fun _ _ => ?_) x
  rfl

theorem emit_guarded (message : String) :
    Within (Agree guarded) (emit message : Exec F S Unit) := fun _ => rfl

theorem emitEvent_guarded (category message : String) :
    Within (Agree guarded) (emitEvent category message : Exec F S Unit) := fun _ => rfl

theorem modifyMemory_guarded (f : Memory F → Memory F) :
    Within (Agree guarded) (modifyMemory f : Exec F S Unit) := fun _ => rfl

theorem setReturnValue_guarded (v : TypedValue F) :
    Within (Agree guarded) (setReturnValue v : Exec F S Unit) := by
  intro vm
  unfold setReturnValue
  split <;> rfl

theorem guarded_of_untraced {x : Exec F S α} (h : Within (Agree untraced) x) :
    Within (Agree guarded) x := h.mono fun _ _ h => congrArg guarded h

theorem guarded_of_unannounced {x : Exec F S α} (h : Within (Agree unannounced) x) :
    Within (Agree guarded) x := h.mono fun _ _ h => congrArg guarded h

theorem handles_guarded : Governance.Handles (Agree (guarded : VM F S → _)) where
  onStack := onStack_guarded
  emitEvent := emitEvent_guarded
  store _ _ := modifyMemory_guarded _
  setStringMetadata _ _ := modifyMemory_guarded _

theorem popArguments_guarded (names : List String) (values : HashMap (TypedValue F)) :
    Within (Agree guarded) (popArguments names values : Exec F S _) := by
  induction names generalizing values with
  | nil => exact .pure _
  | cons name names ih => exact (onStack_guarded _).bind fun _ => ih _

theorem enterCall_guarded (name : String) :
    Within (Agree guarded) (enterCall name : Exec F S _) :=
  (getFunction_within name).bind fun _ => (popArguments_guarded _ _).bind fun _ =>
    (modifyMemory_guarded _).bind fun _ => .pure _

theorem exitCall_guarded (name : String) :
    Within (Agree guarded) (exitCall name : Exec F S Unit) := by
  have hpop : Within (Agree guarded) (popCallFrame : Exec F S _) := fun _ => rfl
  refine hpop.bind fun frame => ?_
  cases frame with
  | none => exact raise_within _
  | some frame =>
    dsimp only
    cases frame.returnValue with
    | some value => exact onStack_guarded _
    | none => exact .pure _

theorem executeReturn_guarded : Within (Agree guarded) (executeReturn : Exec F S Unit) :=
  Within.get.bind fun _ => .ite (setReturnValue_guarded _) (.pure _)

variable [Number F]

theorem simulate_guarded (op : Op F) :
    Within (Agree guarded) (simulate op : Exec F S Unit) :=
  (emit_guarded _).bind fun _ => .ite (onStack_guarded _) (.pure _)

theorem announce_guarded (op : Op F) :
    Within (Agree guarded) (announce op : Exec F S Bool) := by
  refine (guarded_of_untraced (logTrace_untraced op)).bind fun _ =>
    (guarded_of_unannounced (logExplanation_unannounced op)).bind fun _ =>
      Within.get.bind fun vm => ?_
  exact .ite ((simulate_guarded op).bind fun _ => .pure _) (.pure _)

/-- In simulation mode exactly the operations of the list are skipped. -/
theorem announce_simulated {op : Op F} {vm vm' : VM F S} {skipped : Bool}
    (hsim : vm.simulationMode = true) (h : announce op vm = .ok skipped vm') :
    skipped = isSimulated op := by
  obtain ⟨vm₁, -, hannounce⟩ := announce_apply op vm
  rw [hannounce, hsim, Bool.true_and] at h
  cases hop : isSimulated op with
  | true =>
    rw [hop, if_pos rfl] at h
    obtain ⟨_, vm₂, -, h₂⟩ := Comp.bind_eq_ok_iff.mp h
    cases h₂
    rfl
  | false =>
    rw [hop, if_neg Bool.false_ne_true] at h
    cases h
    rfl

variable [StorageBackend S]

/-- The operations that are neither on the list nor `IncrementReputation` do not touch the
backend. -/
theorem executeBasic_guarded {op : Op F} {x : Exec F S Unit} (h : executeBasic op = some x)
    (hop : isSimulated op = false)
    (hrep : ∀ id amount reason, op ≠ .incrementReputation id amount reason) :
    Within (Agree guarded) x := by
  refine executeBasic_within ?_ h
  exact {
    onStack := onStack_guarded
    emit := emit_guarded
    emitEvent := emitEvent_guarded
    store := fun _ _ => modifyMemory_guarded _
    defineFunction := fun _ => modifyMemory_guarded _
    onExecutor := fun x htouches => by
      cases op with
      | incrementReputation id amount reason => exact absurd rfl (hrep id amount reason)
      | _ => exact nomatch hop.symm.trans htouches }

/-- Without a backend `IncrementReputation` has nothing to write to. -/
theorem executeIncrementReputation_none {x : VMExecution S} (h : x.storageBackend = none)
    (id : String) (amount : Option (TypedValue F)) :
    (final (VMExecution.executeIncrementReputation id amount x)).storageBackend = none := by
  have hamount : Within Eq (VMExecution.reputationAmount amount : ExecutorOp F S Nat) := by
    unfold VMExecution.reputationAmount
    split
    · exact .pure _
    · split
      · exact .fail _
      · exact .fail _
      · exact .ite (.fail _) (.ite (.fail _) (.pure _))
  obtain ⟨backend, auth, ns, output, events, clock, reads, active⟩ := x
  obtain rfl : backend = none := h
  unfold VMExecution.executeIncrementReputation
  rw [bind_apply]
  cases hx : (VMExecution.reputationAmount amount : ExecutorOp F S Nat)
      ⟨none, auth, ns, output, events, clock, reads, active⟩ with
  | error e x' =>
    obtain rfl := hamount.error hx
    rfl
  | ok n x' =>
    obtain rfl := hamount.ok hx
    rfl

omit [Number F] [StorageBackend S] in
theorem final_onExecutor (x : ExecutorOp F S α) (vm : VM F S) :
    final (onExecutor x vm) = { vm with executor := final (x vm.executor) } := by
  unfold onExecutor Comp.zoom
  cases x vm.executor <;> rfl

end VM

/-! ### Points of execution -/

section steps
variable {F S : Type} [Number F] [StorageBackend S] [SerdeJson]

open VM

/-- Started in simulation mode, the operation does not touch the backend. -/
structure Frame.Harmless (vm : VM F S) (frame : Frame F) : Prop where
  listed : ∀ op ops, frame = .exec op ops → isSimulated op = false
  reputation : ∀ id amount reason ops,
    frame = .exec (.incrementReputation id amount reason) ops →
      vm.executor.storageBackend = none

theorem start_guarded {op : Op F} (hop : isSimulated op = false)
    (hrep : ∀ id amount reason, op ≠ .incrementReputation id amount reason)
    (next out : List (Frame F)) :
    Within (Agree guarded) (Frame.start next out op : Exec F S _) := by
  have hplain : Within (Agree guarded) (executePlain op : Exec F S Flow) :=
    executePlain_within handles_guarded fun x hx => executeBasic_guarded hx hop hrep
  cases op with
  | ifOp condition thenOps elseOps => exact .pure _
  | loop count body => exact .pure _
  | whileOp condition body => exact .pure _
  | matchOp value cases default => exact .pure _
  | call name => exact (enterCall_guarded name).bind fun _ => .pure _
  | returnOp => exact executeReturn_guarded.bind fun _ => .pure _
  | breakOp => exact .pure _
  | continueOp => exact .pure _
  | _ => exact hplain.bind fun _ => .pure _

/-- One step leaves the mode and the backend as they were. -/
theorem step_guarded {frame : Frame F} {vm : VM F S} (h : frame.Harmless vm)
    (rest : List (Frame F)) : guarded (final (frame.step rest vm)) = guarded vm := by
  have hpop : Within (Agree guarded) (pop : Exec F S _) := onStack_guarded _
  cases frame with
  | seq ops =>
    cases ops with
    | nil => rfl
    | cons op ops => exact ((announce_guarded op).bind fun _ => .pure _) vm
  | exec op ops =>
    by_cases hrep : ∃ id amount reason, op = .incrementReputation id amount reason
    · obtain ⟨id, amount, reason, rfl⟩ := hrep
      have hnone := h.reputation id amount reason ops rfl
      have hafter := executeIncrementReputation_none hnone id (amount.map TypedValue.number)
      show guarded (final ((executePlain _ >>= fun flow => pure (Flow.select _ _ flow)) vm)) = _
      rw [final_bind_pure, executePlain_of_basic rfl, final_bind_pure, final_onExecutor]
      unfold guarded
      rw [hafter, hnone]
    · refine start_guarded (h.listed op ops rfl) ?_ _ _ vm
      intro id amount reason hop
      exact hrep ⟨id, amount, reason, hop⟩
  | after => exact ((guarded_of_untraced recordStackAfter_untraced).bind fun _ => .pure _) vm
  | ifTest thenOps elseOps => exact (hpop.bind fun _ => .pure _) vm
  | loop remaining body => cases remaining <;> rfl
  | whileLoop condition body => rfl
  | whileTest condition body => exact (hpop.bind fun _ => .pure _) vm
  | matchTest cases default => exact (hpop.bind fun _ => .pure _) vm
  | call name => exact ((exitCall_guarded name).bind fun _ => .pure _) vm

omit [Number F] [StorageBackend S] [SerdeJson] in
theorem mem_of_optional {op : Op F} {ops : List (Op F)} {block : Option (List (Op F))}
    {rest : List (Frame F)} (h : .exec op ops ∈ Frame.optional block ++ rest) :
    .exec op ops ∈ rest := by
  cases block with
  | none => exact h
  | some ops' => simpa [Frame.optional] using h

/-- An operation comes to be executed only after it has been announced. -/
theorem start_exec {op : Op F} {next out K : List (Frame F)} {vm vm' : VM F S}
    (h : Frame.start next out op vm = .ok K vm') {op' : Op F} {ops : List (Op F)}
    (hmem : .exec op' ops ∈ K) : .exec op' ops ∈ next ∨ .exec op' ops ∈ out := by
  cases op with
  | ifOp condition thenOps elseOps => cases h; exact .inl (by simpa using hmem)
  | loop count body => cases h; exact .inl (by simpa using hmem)
  | whileOp condition body => cases h; exact .inl (by simpa using hmem)
  | matchOp value cases default => cases h; exact .inl (by simpa using hmem)
  | call name =>
    obtain ⟨_, _, _, h⟩ := Comp.bind_eq_ok_iff.mp h
    cases h
    exact .inl (by simpa using hmem)
  | returnOp =>
    obtain ⟨_, _, _, h⟩ := Comp.bind_eq_ok_iff.mp h
    cases h
    exact .inr hmem
  | breakOp => cases h; exact .inr hmem
  | continueOp => cases h; exact .inr hmem
  | _ =>
    obtain ⟨flow, _, _, h⟩ := Comp.bind_eq_ok_iff.mp h
    cases h
    cases flow
    · exact .inl hmem
    · exact .inr hmem

theorem step_exec {frame : Frame F} {rest K : List (Frame F)} {vm vm' : VM F S}
    (h : frame.step rest vm = .ok K vm') {op : Op F} {ops : List (Op F)}
    (hmem : .exec op ops ∈ K) : .exec op ops ∈ rest ∨ announce op vm = .ok false vm' := by
  cases frame with
  | seq ops' =>
    cases ops' with
    | nil => cases h; exact .inl hmem
    | cons op' ops' =>
      obtain ⟨simulated, _, hannounce, h⟩ := Comp.bind_eq_ok_iff.mp h
      cases h
      cases simulated with
      | true => exact .inl (by simpa using hmem)
      | false =>
        rcases List.mem_cons.mp hmem with heq | hrest
        · obtain ⟨rfl, rfl⟩ := Frame.exec.inj heq
          exact .inr hannounce
        · exact .inl hrest
  | exec op' ops' =>
    rcases start_exec h hmem with hnext | hout
    · exact .inl (by simpa using hnext)
    · exact .inl hout
  | after =>
    obtain ⟨_, _, _, h⟩ := Comp.bind_eq_ok_iff.mp h
    cases h
    exact .inl hmem
  | ifTest thenOps elseOps =>
    obtain ⟨_, _, _, h⟩ := Comp.bind_eq_ok_iff.mp h
    cases h
    exact .inl (mem_of_optional hmem)
  | loop remaining body => cases remaining <;> cases h <;> exact .inl (by simpa using hmem)
  | whileLoop condition body => cases h; exact .inl (by simpa using hmem)
  | whileTest condition body =>
    obtain ⟨value, _, _, h⟩ := Comp.bind_eq_ok_iff.mp h
    cases h
    cases hv : value.isFalsey <;> rw [hv] at hmem <;> exact .inl (by simpa using hmem)
  | matchTest cases default =>
    obtain ⟨_, _, _, h⟩ := Comp.bind_eq_ok_iff.mp h
    cases h
    exact .inl (mem_of_optional hmem)
  | call name =>
    obtain ⟨_, _, _, h⟩ := Comp.bind_eq_ok_iff.mp h
    cases h
    exact .inl hmem

/-! ### Runs -/

/-- The next step is an `IncrementReputation` with a backend to write to. -/
def Config.IncrementsReputation (c : Config F S) : Prop :=
  ∃ id amount reason ops rest,
    c.frames = .exec (.incrementReputation id amount reason) ops :: rest ∧
    c.vm.executor.storageBackend ≠ none

/-- The frame on top executes an `IncrementReputation`. -/
def Config.executesReputation (c : Config F S) : Bool :=
  match c.frames with
  | .exec (.incrementReputation ..) _ :: _ => true
  | _ => false

omit [Number F] [StorageBackend S] [SerdeJson] in
theorem Config.IncrementsReputation.executes {c : Config F S} (h : c.IncrementsReputation) :
    c.executesReputation = true := by
  obtain ⟨id, amount, reason, ops, rest, hframes, -⟩ := h
  simp only [executesReputation, hframes]

/-- The mode and the backend are those of `vm`, and no operation of the list is to be executed. -/
structure Sealed (vm : VM F S) (c : Config F S) : Prop where
  guarded : VM.guarded c.vm = VM.guarded vm
  listed : ∀ op ops, .exec op ops ∈ c.frames → isSimulated op = false

omit [Number F] [StorageBackend S] [SerdeJson] in
theorem Sealed.harmless {vm : VM F S} {c : Config F S} (h : Sealed vm c)
    (hc : ¬ c.IncrementsReputation) {frame : Frame F} {rest : List (Frame F)}
    (hframes : c.frames = frame :: rest) : frame.Harmless c.vm where
  listed op ops heq := by
    apply h.listed op ops
    rw [hframes, heq]
    exact List.mem_cons_self
  reputation id amount reason ops heq := by
    by_contra hsome
    exact hc ⟨id, amount, reason, ops, rest, heq ▸ hframes, hsome⟩

theorem Sealed.step {vm : VM F S} (hsim : vm.simulationMode = true) {c c' : Config F S}
    (h : Sealed vm c) (hc : ¬ c.IncrementsReputation) (hstep : machine.Step c c') :
    Sealed vm c' := by
  obtain ⟨frame, rest, hframes, hok⟩ := machine_step_ok hstep
  have hguard := step_guarded (h.harmless hc hframes) rest
  rw [hok] at hguard
  refine ⟨hguard.trans h.guarded, ?_⟩
  intro op ops hmem
  rcases step_exec hok hmem with hrest | hannounce
  · apply h.listed op ops
    rw [hframes]
    exact List.mem_cons_of_mem frame hrest
  · -- in simulation mode what is not skipped is not on the list
    have hmode : c.vm.simulationMode = true := (congrArg Prod.fst h.guarded).trans hsim
    exact (announce_simulated hmode hannounce).symm

theorem Sealed.of_fault {vm : VM F S} {c c' : Config F S} {e : Fault F} (h : Sealed vm c)
    (hc : ¬ c.IncrementsReputation) (hf : machine.Faults c e c') :
    VM.guarded c'.vm = VM.guarded vm := by
  obtain ⟨frame, rest, hframes, -, herr⟩ := machine_faults hf
  have hguard := step_guarded (h.harmless hc hframes) rest
  rw [herr] at hguard
  exact hguard.trans h.guarded

theorem sealed_of_reaches {ops : List (Op F)} {vm : VM F S} (hsim : vm.simulationMode = true)
    (hno : ∀ c, machine.Reaches ⟨[.seq ops], vm⟩ c → ¬ c.IncrementsReputation) {c : Config F S}
    (hreach : machine.Reaches ⟨[.seq ops], vm⟩ c) : Sealed vm c := by
  induction hreach with
  | refl => exact ⟨rfl, fun op ops' hmem => by simp at hmem⟩
  | tail hreach hstep ih => exact ih.step hsim (hno _ hreach) hstep

/-- A run in simulation mode that executes no `IncrementReputation` leaves the backend exactly as it
was: at every point of the execution and however it ends. -/
theorem simulation_keeps_storage {ops : List (Op F)} {vm : VM F S}
    (hsim : vm.simulationMode = true)
    (hno : ∀ c, machine.Reaches ⟨[.seq ops], vm⟩ c → ¬ c.IncrementsReputation) :
    (∀ c, machine.Reaches ⟨[.seq ops], vm⟩ c →
      c.vm.executor.storageBackend = vm.executor.storageBackend) ∧
    ∀ r, VM.run ops vm r → (final r).executor.storageBackend = vm.executor.storageBackend := by
  have hsealed := fun c hreach => sealed_of_reaches (c := c) hsim hno hreach
  refine ⟨fun c hreach => congrArg Prod.snd (hsealed c hreach).guarded, ?_⟩
  intro r hr
  obtain ⟨r', hr', rfl⟩ := run_iff_outcome.mp hr
  obtain ⟨c, hreach, hend⟩ := Machine.outcome_iff_reaches.mp hr'
  rcases hend with ⟨-, rfl⟩ | ⟨e, c', hf, rfl⟩
  · exact congrArg Prod.snd (hsealed c hreach).guarded
  · exact congrArg Prod.snd ((hsealed c hreach).of_fault (hno c hreach) hf)

end steps

/-! ### In memory -/

open InMemoryStorage in
/-- An administrator's VM in simulation mode. -/
def simulating : VM Binary64 InMemoryStorage :=
  let vm : VM Binary64 InMemoryStorage := VM.new fun _ => 0
  { vm with
    simulationMode := true
    executor := { vm.executor with
      storageBackend := some adminStorage
      authContext := some admin
      ns := "ns" } }

theorem simulation_keeps_storage_storeP :
    (∃ vm', VM.run [.push (.boolean true), .storeP "k"] simulating (.ok () vm') ∧
      vm'.stack.length = 1) ∧
    ∀ r, VM.run [.push (.boolean true), .storeP "k"] simulating r →
      (final r).executor.storageBackend = simulating.executor.storageBackend := by
  refine ⟨lim_of_endsIn 2 (by decide), (simulation_keeps_storage rfl ?_).2⟩
  intro c hreach hincrements
  have hnext := Machine.Reaches.of_throughout (p := fun c : Config _ _ => !c.executesReputation) 8
    (by decide) hreach
  rw [hincrements.executes] at hnext
  cases hnext

/-- A reputation increment is carried out. -/
theorem not_simulation_keeps_storage :
    ¬ ∀ (ops : List (Op Binary64)) (vm : VM Binary64 InMemoryStorage) (r : Outcome _ _ Unit),
      vm.simulationMode = true → VM.run ops vm r →
        (final r).executor.storageBackend = vm.executor.storageBackend := by
  intro h
  have hrun : ∃ vm', VM.run [.incrementReputation "alice" none none] simulating (.ok () vm') ∧
      (vm'.executor.storageBackend.map fun s =>
        (s.get (some InMemoryStorage.admin) "ns" "identities/alice/reputation").toBool)
        ≠ some false := lim_of_endsIn 2 (by decide)
  obtain ⟨vm', hvm', hset⟩ := hrun
  have hbefore := h _ simulating _ rfl hvm'
  rw [show vm'.executor.storageBackend = _ from hbefore] at hset
  exact hset (by decide)

end Covm
