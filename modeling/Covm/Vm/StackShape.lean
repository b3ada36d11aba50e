import Covm.Vm.Simulation

/-!
# The stack in simulation mode

Each operation of a straight-line program takes a number of values off the stack and puts a number
of values on it (`Op.takes`, `Op.puts`). A simulated program can be compared with the real one by
these numbers alone: `LoadP` and `Balance` push a placeholder, and `StoreP` leaves the value on the
stack that it should take.
-/

namespace Covm

open Partial Comp

/-- The stack operations, `StoreP`, `LoadP` and `Balance`. -/
def Op.movesValues {F : Type} : Op F → Bool
  | .push _ | .pop | .dup | .swap | .overOp | .storeP _ | .loadP _ | .balance _ _ => true
  | _ => false

def Op.isStoreP {F : Type} : Op F → Bool
  | .storeP _ => true
  | _ => false

/-- How many values the operation takes off the stack. -/
def Op.takes {F : Type} (simulated : Bool) : Op F → Nat
  | .pop | .dup => 1
  | .swap | .overOp => 2
  | .storeP _ => if simulated then 0 else 1
  | _ => 0

/-- How many values the operation puts on the stack. -/
def Op.puts {F : Type} : Op F → Nat
  | .push _ | .loadP _ | .balance _ _ => 1
  | .dup | .swap => 2
  | .overOp => 3
  | _ => 0

namespace VM

variable {F S α : Type}

theorem storage_of_simulated {op : Op F} (hop : op.movesValues = true)
    (hop' : isSimulated op = true) :
    (∃ key, op = .storeP key) ∨ (∃ key, op = .loadP key) ∨
      ∃ resource account, op = .balance resource account := by
  cases op <;> simp_all [Op.movesValues, isSimulated]

/-- The mode and the length of the stack. -/
def shape (vm : VM F S) : Bool × Nat := (vm.simulationMode, vm.stack.length)

theorem onExecutor_shape (x : ExecutorOp F S α) : Within (Agree shape) (onExecutor x) := by
  refine .zoom (fun _ _ => ?_) x
  rfl

/-- The mode, the stack, and the storage with the caller and the namespace. -/
abbrev Kept (F S : Type) : Type := Bool × VMStack F × Option S × Option AuthContext × String

/-- What tracing and explaining leave alone. -/
def kept (vm : VM F S) : Kept F S :=
  (vm.simulationMode, vm.stack, vm.executor.storageBackend, vm.executor.authContext,
    vm.executor.ns)

theorem shape_of_kept {vm vm' : VM F S} (h : kept vm' = kept vm) : shape vm' = shape vm :=
  congrArg (fun k => (k.1, k.2.1.length)) h

theorem recordStackAfter_kept : Within (Agree kept) (recordStackAfter : Exec F S Unit) :=
  recordStackAfter_untraced.mono fun _ _ h => congrArg kept h

/-- From `vm` to `vm'` the stack loses `takes` values and then gets `puts` values. -/
structure Moves (takes puts : Nat) (vm vm' : VM F S) : Prop where
  mode : vm'.simulationMode = vm.simulationMode
  enough : takes ≤ vm.stack.length
  length : vm'.stack.length + takes = vm.stack.length + puts

theorem Moves.of_shape {takes puts : Nat} {vm₁ vm₂ vm₃ vm₄ : VM F S} (h : Moves takes puts vm₂ vm₃)
    (h₁ : shape vm₂ = shape vm₁) (h₂ : shape vm₄ = shape vm₃) : Moves takes puts vm₁ vm₄ := by
  obtain ⟨hmode₁, hlen₁⟩ := Prod.mk.inj h₁
  obtain ⟨hmode₂, hlen₂⟩ := Prod.mk.inj h₂
  have henough := h.enough
  have hlength := h.length
  refine ⟨hmode₂.trans (h.mode.trans hmode₁), ?_, ?_⟩
  · omega
  · omega

theorem push_moves (v : TypedValue F) (vm : VM F S) :
    Moves 0 1 vm { vm with stack := v :: vm.stack } := ⟨rfl, Nat.zero_le _, rfl⟩

theorem pop_moves {v : TypedValue F} {vm vm' : VM F S} (h : pop vm = .ok v vm') :
    Moves 1 0 vm vm' := by
  cases hs : vm.stack with
  | nil =>
    rw [pop_of_nil hs] at h
    cases h
  | cons w s =>
    rw [pop_of_cons hs] at h
    cases h
    refine ⟨rfl, ?_, ?_⟩ <;> simp [hs]

section real
variable [Number F]

theorem logStorageOperation_kept (operation key : String) (v : TypedValue F) :
    Within (Agree kept) (logStorageOperation operation key v : Exec F S Unit) := by
  intro vm
  unfold logStorageOperation
  split <;> rfl

theorem simulate_moves (op : Op F) (vm : VM F S) :
    ∃ vm', simulate op vm = .ok () vm' ∧
      Moves 0 (if pushesPlaceholder op then 1 else 0) vm vm' := by
  unfold simulate
  cases h : pushesPlaceholder op with
  | true => exact ⟨_, rfl, rfl, Nat.zero_le _, rfl⟩
  | false => exact ⟨_, rfl, rfl, Nat.zero_le _, rfl⟩

variable [StorageBackend S]

/-- A stack operation succeeds exactly if there are enough values. -/
theorem executeBasic_stack {op : Op F} (hop : op.movesValues = true)
    (hop' : isSimulated op = false) {x : Exec F S Unit} (hx : executeBasic op = some x)
    (vm : VM F S) :
    (∃ vm', x vm = .ok () vm' ∧ Moves (op.takes vm.simulationMode) op.puts vm vm') ∨
    (vm.stack.length < op.takes vm.simulationMode ∧ ∃ e vm', x vm = .error e vm') := by
  obtain ⟨stack, memory, executor, missing, dag, trace, explain, simulation, verbose, tracer⟩ := vm
  cases op with
  | push v =>
    cases hx
    exact .inl ⟨_, rfl, push_moves v _⟩
  | pop =>
    cases hx
    rcases stack with _ | ⟨v, s⟩
    · exact .inr ⟨by simp [Op.takes], _, _, rfl⟩
    · exact .inl ⟨_, rfl, rfl, by simp [Op.takes], by simp [Op.takes, Op.puts]⟩
  | dup =>
    cases hx
    rcases stack with _ | ⟨v, s⟩
    · exact .inr ⟨by simp [Op.takes], _, _, rfl⟩
    · exact .inl ⟨_, rfl, rfl, by simp [Op.takes], by simp [Op.takes, Op.puts]⟩
  | swap =>
    cases hx
    rcases stack with _ | ⟨v, _ | ⟨w, s⟩⟩
    · exact .inr ⟨by simp [Op.takes], _, _, rfl⟩
    · exact .inr ⟨by simp [Op.takes], _, _, rfl⟩
    · exact .inl ⟨_, rfl, rfl, by simp [Op.takes], by simp [Op.takes, Op.puts]⟩
  | overOp =>
    cases hx
    rcases stack with _ | ⟨v, _ | ⟨w, s⟩⟩
    · exact .inr ⟨by simp [Op.takes], _, _, rfl⟩
    · exact .inr ⟨by simp [Op.takes], _, _, rfl⟩
    · exact .inl ⟨_, rfl, rfl, by simp [Op.takes], by simp [Op.takes, Op.puts]⟩
  | storeP | loadP | balance => cases hop'
  | _ => cases hop

/-- What the arms of the operations do to the stack when they succeed. -/
theorem executeBasic_moves {op : Op F} (hop : op.movesValues = true) {x : Exec F S Unit}
    (hx : executeBasic op = some x) {vm vm' : VM F S} (h : x vm = .ok () vm')
    (hreal : vm.simulationMode = false) : Moves (op.takes false) op.puts vm vm' := by
  by_cases hop' : isSimulated op = true
  · obtain ⟨key, rfl⟩ | ⟨key, rfl⟩ | ⟨resource, account, rfl⟩ := storage_of_simulated hop hop'
    · cases hx
      obtain ⟨v, vm₁, hpop, h₁⟩ := Comp.bind_eq_ok_iff.mp h
      obtain ⟨_, vm₂, hlog, hstore⟩ := Comp.bind_eq_ok_iff.mp h₁
      have hlog' := shape_of_kept ((logStorageOperation_kept _ _ _).ok hlog)
      have hstore' := (onExecutor_shape _).ok hstore
      exact (pop_moves hpop).of_shape rfl (hstore'.trans hlog')
    · cases hx
      obtain ⟨_, _, hget, h₁⟩ := Comp.bind_eq_ok_iff.mp h
      cases hget
      obtain ⟨v, vm₁, hload, h₂⟩ := Comp.bind_eq_ok_iff.mp h₁
      obtain ⟨_, vm₂, hlog, hpush⟩ := Comp.bind_eq_ok_iff.mp h₂
      have hload' := (onExecutor_shape _).ok hload
      have hlog' := shape_of_kept ((logStorageOperation_kept _ _ _).ok hlog)
      cases hpush
      exact (push_moves v vm₂).of_shape (hlog'.trans hload') rfl
    · cases hx
      obtain ⟨v, vm₁, hbalance, hpush⟩ := Comp.bind_eq_ok_iff.mp h
      cases hpush
      exact (push_moves v vm₁).of_shape ((onExecutor_shape _).ok hbalance) rfl
  · rw [Bool.not_eq_true] at hop'
    rw [← hreal]
    rcases executeBasic_stack hop hop' hx vm with ⟨vm₁, h₁, hmoves⟩ | ⟨-, e, vm₁, h₁⟩
    · cases h.symm.trans h₁
      exact hmoves
    · cases h.symm.trans h₁

theorem executeBasic_movesValues {op : Op F} (hop : op.movesValues = true) :
    ∃ x : Exec F S Unit, executeBasic op = some x := by
  cases op <;> first | exact ⟨_, rfl⟩ | cases hop

variable [SerdeJson]

/-- An operation is executed in a state that tracing and explaining have not changed, and neither do
they change what it leaves. -/
theorem next_of_kept {op : Op F} {x : Exec F S Unit} (hx : executeBasic op = some x) {vm : VM F S}
    (hreal : vm.simulationMode = false) {k : Kept F S}
    (h : ∀ vm₁, kept vm₁ = kept vm → ∃ vm₂, x vm₁ = .ok () vm₂ ∧ kept vm₂ = k) :
    ∃ vm', limit.next op vm (.ok .next vm') ∧ kept vm' = k := by
  obtain ⟨vm₁, hrest, hannounce⟩ := announce_apply op vm
  rw [hreal, Bool.false_and, if_neg Bool.false_ne_true] at hannounce
  have hkept := congrArg kept hrest
  obtain ⟨vm₂, hok, hkept₂⟩ := h vm₁ hkept
  obtain ⟨vm₃, hrecord⟩ := recordStackAfter_ok vm₂
  refine ⟨vm₃, ?_, (recordStackAfter_kept.ok hrecord).trans hkept₂⟩
  rw [next_of_basic hx, ends_bind_of_ok hannounce, if_neg Bool.false_ne_true]
  exact Sem.bind_ok hok (Sem.bind_ok hrecord rfl)

/-- One operation of a real run. -/
theorem next_real {op : Op F} (hop : op.movesValues = true) {vm vm' : VM F S} {flow : Flow}
    (hreal : vm.simulationMode = false) (h : limit.next op vm (.ok flow vm')) :
    flow = .next ∧ Moves (op.takes false) op.puts vm vm' := by
  obtain ⟨x, hx⟩ := executeBasic_movesValues (S := S) hop
  obtain ⟨vm₁, hrest, hannounce⟩ := announce_apply op vm
  have hunannounced := congrArg shape hrest
  have hshape : shape vm₁ = shape vm := hunannounced
  rw [hreal, Bool.false_and, if_neg Bool.false_ne_true] at hannounce
  rw [next_of_basic hx, ends_bind_of_ok hannounce, if_neg Bool.false_ne_true, Sem.bind_ok_iff] at h
  obtain ⟨_, vm₂, hok, h₂⟩ := h
  obtain ⟨_, vm₃, hrecord, hend⟩ := Sem.bind_ok_iff.mp h₂
  cases hend
  have hreal₁ : vm₁.simulationMode = false := (congrArg Prod.fst hshape).trans hreal
  have hmoves := executeBasic_moves hop hx (ends_iff.mp hok) hreal₁
  have hrecord' := shape_of_kept (recordStackAfter_kept.ok (ends_iff.mp hrecord))
  exact ⟨rfl, hmoves.of_shape hshape hrecord'⟩

/-- One operation of a simulated run. -/
theorem next_simulated {op : Op F} (hop : op.movesValues = true) {vm : VM F S}
    (hsim : vm.simulationMode = true) (henough : op.takes true ≤ vm.stack.length) :
    ∃ vm', limit.next op vm (.ok .next vm') ∧ Moves (op.takes true) op.puts vm vm' := by
  obtain ⟨x, hx⟩ := executeBasic_movesValues (S := S) hop
  obtain ⟨vm₁, hrest, hannounce⟩ := announce_apply op vm
  have hunannounced := congrArg shape hrest
  have hshape : shape vm₁ = shape vm := hunannounced
  rw [hsim, Bool.true_and] at hannounce
  rw [next_of_basic hx]
  cases hop' : isSimulated op with
  | true =>
    obtain ⟨vm₂, hsimulate, hmoves⟩ := simulate_moves op vm₁
    rw [hop', if_pos rfl, bind_of_ok hsimulate] at hannounce
    refine ⟨vm₂, ?_, ?_⟩
    · rw [ends_bind_of_ok hannounce, if_pos rfl]
      rfl
    · refine Moves.of_shape ?_ hshape rfl
      obtain ⟨key, rfl⟩ | ⟨key, rfl⟩ | ⟨resource, account, rfl⟩ := storage_of_simulated hop hop'
      · exact hmoves
      · exact hmoves
      · exact hmoves
  | false =>
    rw [hop', if_neg Bool.false_ne_true] at hannounce
    obtain ⟨hmode, hlength⟩ := Prod.mk.inj hshape
    rcases executeBasic_stack hop hop' hx vm₁ with ⟨vm₂, hok, hmoves⟩ | ⟨hfew, -⟩
    · obtain ⟨vm₃, hrecord⟩ := recordStackAfter_ok vm₂
      have hrecord' := shape_of_kept (recordStackAfter_kept.ok hrecord)
      refine ⟨vm₃, ?_, ?_⟩
      · rw [ends_bind_of_ok hannounce, if_neg Bool.false_ne_true]
        exact Sem.bind_ok hok (Sem.bind_ok hrecord rfl)
      · rw [hmode, hsim] at hmoves
        exact hmoves.of_shape hshape hrecord'
    · rw [hmode, hsim] at hfew
      omega

/-- The simulated run keeps every value that the real run has stored. -/
theorem run_simulated {ops : List (Op F)} (hops : ∀ op ∈ ops, op.movesValues = true)
    {vm vm' sim : VM F S} (hreal : vm.simulationMode = false) (hsim : sim.simulationMode = true)
    (hlength : vm.stack.length ≤ sim.stack.length) (h : run ops vm (.ok () vm')) :
    ∃ sim', run ops sim (.ok () sim') ∧
      sim'.stack.length + vm.stack.length =
        vm'.stack.length + sim.stack.length + ops.countP Op.isStoreP := by
  induction ops generalizing vm sim with
  | nil =>
    rw [run_nil] at h
    cases h
    exact ⟨sim, by rw [run_nil]; rfl, by simp [Nat.add_comm]⟩
  | cons op ops ih =>
    have hop := hops op List.mem_cons_self
    rw [run_cons, Sem.bind_ok_iff] at h
    obtain ⟨flow, vm₁, hnext, hrest⟩ := h
    obtain ⟨rfl, hmoves⟩ := next_real hop hreal hnext
    have htakes : op.takes true + (if op.isStoreP then 1 else 0) = op.takes false := by
      cases op <;> rfl
    have henough := hmoves.enough
    obtain ⟨sim₁, hnext', hmoves'⟩ := next_simulated hop hsim (by omega)
    have hlen := hmoves.length
    have hlen' := hmoves'.length
    obtain ⟨sim', hrun, hcount⟩ := ih (fun op h => hops op (List.mem_cons_of_mem _ h))
      (hmoves.mode.trans hreal) (hmoves'.mode.trans hsim) (by omega) hrest
    refine ⟨sim', ?_, ?_⟩
    · rw [run_cons]
      exact Sem.bind_ok hnext' hrun
    · rw [List.countP_cons]
      omega

/-- Where a real run ends with `Ok`, the simulated run from the same stack, whatever the rest of its
VM, ends with `Ok` and a stack of the same length exactly if the program has no `StoreP`. -/
theorem simulation_keeps_length_iff {ops : List (Op F)}
    (hops : ∀ op ∈ ops, op.movesValues = true) {vm vm' sim : VM F S}
    (hreal : vm.simulationMode = false) (hsim : sim.simulationMode = true)
    (hstack : sim.stack = vm.stack) (h : run ops vm (.ok () vm')) :
    (∃ sim', run ops sim (.ok () sim') ∧ sim'.stack.length = vm'.stack.length) ↔
      ∀ op ∈ ops, op.isStoreP = false := by
  obtain ⟨sim', hrun, hcount⟩ := run_simulated hops hreal hsim (by rw [hstack]) h
  rw [hstack] at hcount
  have hiff : sim'.stack.length = vm'.stack.length ↔ ∀ op ∈ ops, op.isStoreP = false := by
    rw [show sim'.stack.length = vm'.stack.length ↔ ops.countP Op.isStoreP = 0 by omega,
      List.countP_eq_zero]
    simp
  rw [← hiff]
  constructor
  · rintro ⟨sim'', hrun', hlength⟩
    cases run_functional ops sim _ _ hrun hrun'
    exact hlength
  · intro hlength
    exact ⟨sim', hrun, hlength⟩

end real

/-! ### In memory -/

/-- The VM of `simulating`, with the simulation switched off. -/
def performing : VM Binary64 InMemoryStorage := { simulating with simulationMode := false }

theorem simulation_keeps_length_swap : ∃ vm',
    run [.push (.boolean true), .loadP "k", .swap] performing (.ok () vm') ∧
    ((∃ sim', run [.push (.boolean true), .loadP "k", .swap] simulating (.ok () sim') ∧
        sim'.stack.length = vm'.stack.length) ↔
      ∀ op ∈ ([.push (.boolean true), .loadP "k", .swap] : List (Op Binary64)),
        op.isStoreP = false) := by
  have hrun : ∃ vm', run [.push (.boolean true), .loadP "k", .swap] performing (.ok () vm') ∧
      vm'.stack.length = 2 := lim_of_endsIn 2 (by decide)
  obtain ⟨vm', hvm', -⟩ := hrun
  refine ⟨vm', hvm', simulation_keeps_length_iff ?_ (by rfl) (by rfl) (by rfl) hvm'⟩
  simp [Op.movesValues]

/-- The real run stores the value it pushed, the simulated one keeps it. -/
theorem not_simulation_keeps_length :
    ¬ ∀ (ops : List (Op Binary64)) (vm vm' sim : VM Binary64 InMemoryStorage),
      (∀ op ∈ ops, op.movesValues = true) → vm.simulationMode = false →
      sim.simulationMode = true → sim.stack = vm.stack → sim.memory = vm.memory →
      run ops vm (.ok () vm') →
        ∃ sim', run ops sim (.ok () sim') ∧ sim'.stack.length = vm'.stack.length := by
  intro h
  have hreal : ∃ vm', run [.push (.boolean true), .storeP "k"] performing (.ok () vm') ∧
      vm'.stack.length = 0 := lim_of_endsIn 2 (by decide)
  have hsim : ∃ sim', run [.push (.boolean true), .storeP "k"] simulating (.ok () sim') ∧
      sim'.stack.length = 1 := lim_of_endsIn 2 (by decide)
  obtain ⟨vm', hvm', hzero⟩ := hreal
  obtain ⟨sim', hsim', hone⟩ := hsim
  obtain ⟨sim'', hsim'', hlength⟩ := h _ performing vm' simulating (by simp [Op.movesValues])
    rfl rfl rfl rfl hvm'
  cases run_functional _ simulating _ _ hsim' hsim''
  omega

end VM

end Covm
