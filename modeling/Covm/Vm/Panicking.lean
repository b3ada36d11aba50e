import Covm.Storage.Overflow
import Covm.Vm.Indices
import Covm.Vm.Machine

/-!
# Which operations panic

On in-memory storage four operations can panic, in the states that `Harmless` rules out: an
`AssertEqualStack` of depth `0` on the empty stack, a mint, a transfer or a reputation increment
whose sum is too large for a `u64`, and a `RankedVote` of so many ballots that one more is not a
`usize`, provided the stack holds them all. A run panics exactly if it comes to such an operation
in such a state.
-/

namespace Covm

open Partial Comp

variable {F S α : Type}

/-! ## The parts of the VM -/

namespace VM

theorem raise_avoids (e : VMError F) : Avoids (.fault .panic) (raise e : Exec F S α) :=
  avoids_fail (by simp)

theorem ofExcept_avoids (r : Except (VMError F) α) :
    Avoids (.fault .panic) (ofExcept r : Exec F S α) := by
  cases r with
  | ok a => exact .pure a
  | error e => exact raise_avoids e

theorem stackPop_avoids : Avoids (.fault .panic) (VMStack.pop : StackOp F _) := by
  intro s
  cases s with
  | nil => exact not_raises_of_error rfl (by simp)
  | cons v s => exact not_raises_of_ok rfl

theorem push_avoids (v : TypedValue F) : Avoids (.fault .panic) (push v : Exec F S Unit) :=
  .of_ok fun vm => ⟨(), _, push_apply v vm⟩

theorem pop_avoids : Avoids (.fault .panic) (pop : Exec F S _) := avoids_zoom stackPop_avoids

theorem dup_avoids : Avoids (.fault .panic) (onStack VMStack.dup : Exec F S Unit) := by
  refine avoids_zoom fun s => ?_
  cases s with
  | nil => exact not_raises_of_error rfl (by simp)
  | cons v s => exact not_raises_of_ok rfl

theorem swap_avoids : Avoids (.fault .panic) (onStack VMStack.swap : Exec F S Unit) := by
  refine avoids_zoom fun s => ?_
  match s with
  | [] => exact not_raises_of_error rfl (by simp)
  | [_] => exact not_raises_of_error rfl (by simp)
  | _ :: _ :: _ => exact not_raises_of_ok rfl

theorem overOp_avoids : Avoids (.fault .panic) (onStack VMStack.overOp : Exec F S Unit) := by
  refine avoids_zoom fun s => ?_
  match s with
  | [] => exact not_raises_of_error rfl (by simp)
  | [_] => exact not_raises_of_error rfl (by simp)
  | _ :: _ :: _ => exact not_raises_of_ok rfl

theorem popTwo_avoids : Avoids (.fault .panic) (popTwo : Exec F S _) :=
  avoids_zoom (stackPop_avoids.bind fun _ => stackPop_avoids.bind fun _ => .pure _)

theorem emit_avoids (message : String) : Avoids (.fault .panic) (emit message : Exec F S Unit) :=
  .of_ok fun _ => ⟨(), _, rfl⟩

theorem emitEvent_avoids (category message : String) :
    Avoids (.fault .panic) (emitEvent category message : Exec F S Unit) :=
  .of_ok fun _ => ⟨(), _, rfl⟩

theorem modifyMemory_avoids (f : Memory F → Memory F) :
    Avoids (.fault .panic) (modifyMemory f : Exec F S Unit) := .of_ok fun _ => ⟨(), _, rfl⟩

theorem load_avoids (name : String) : Avoids (.fault .panic) (load name : Exec F S _) :=
  fun vm => ofExcept_avoids (vm.memory.1.load name) vm

theorem getFunction_avoids (name : String) :
    Avoids (.fault .panic) (getFunction name : Exec F S _) :=
  fun vm => ofExcept_avoids (vm.memory.1.getFunction name) vm

theorem executeReturn_avoids : Avoids (.fault .panic) (executeReturn : Exec F S Unit) :=
  .of_ok fun vm => by
    obtain ⟨vm', h⟩ := executeReturn_ok vm
    exact ⟨(), vm', h⟩

theorem recordStackAfter_avoids : Avoids (.fault .panic) (recordStackAfter : Exec F S Unit) :=
  .of_ok fun vm => by
    obtain ⟨vm', h⟩ := recordStackAfter_ok vm
    exact ⟨(), vm', h⟩

theorem popArguments_avoids (names : List String) (values : HashMap (TypedValue F)) :
    Avoids (.fault .panic) (popArguments names values : Exec F S _) := by
  induction names generalizing values with
  | nil => exact .pure _
  | cons name names ih => exact pop_avoids.bind fun _ => ih _

theorem enterCall_avoids (name : String) :
    Avoids (.fault .panic) (enterCall name : Exec F S _) :=
  (getFunction_avoids _).bind fun _ => (popArguments_avoids _ _).bind fun _ =>
    (modifyMemory_avoids _).bind fun _ => .pure _

theorem exitCall_avoids (name : String) :
    Avoids (.fault .panic) (exitCall name : Exec F S Unit) := by
  have hpop : Avoids (.fault .panic) (popCallFrame : Exec F S _) := .of_ok fun _ => ⟨_, _, rfl⟩
  refine hpop.bind fun frame => ?_
  cases frame with
  | none => exact raise_avoids _
  | some frame =>
    dsimp only
    cases frame.returnValue with
    | none => exact .pure _
    | some v => exact push_avoids v

theorem binary_avoids
    (f : TypedValue F → TypedValue F → Except (VMError F) (TypedValue F)) :
    Avoids (.fault .panic) (binary f : Exec F S Unit) :=
  popTwo_avoids.bind fun _ => (ofExcept_avoids _).bind fun _ => push_avoids _

theorem unary_avoids (f : TypedValue F → Except (VMError F) (TypedValue F)) :
    Avoids (.fault .panic) (unary f : Exec F S Unit) :=
  pop_avoids.bind fun _ => (ofExcept_avoids _).bind fun _ => push_avoids _

section values
variable [Number F]

theorem logStorageOperation_avoids (operation key : String) (value : TypedValue F) :
    Avoids (.fault .panic) (logStorageOperation operation key value : Exec F S Unit) := by
  intro vm ⟨vm', h⟩
  unfold logStorageOperation at h
  split at h
  · exact emitEvent_avoids _ _ vm ⟨vm', h⟩
  · cases h

theorem announce_avoids (op : Op F) : Avoids (.fault .panic) (announce op : Exec F S Bool) := by
  have htrace : Avoids (.fault .panic) (logTrace op : Exec F S Unit) := .of_ok fun vm => by
    obtain ⟨vm', h⟩ := logTrace_ok op vm
    exact ⟨(), vm', h⟩
  have hexplain : Avoids (.fault .panic) (logExplanation op : Exec F S Unit) := .of_ok fun vm => by
    obtain ⟨vm', h⟩ := logExplanation_ok op vm
    exact ⟨(), vm', h⟩
  have hsimulate : Avoids (.fault .panic) (simulate op : Exec F S Unit) :=
    (emit_avoids _).bind fun _ => .ite (push_avoids _) (.pure _)
  exact htrace.bind fun _ => hexplain.bind fun _ => Avoids.get.bind fun _ =>
    .ite (hsimulate.bind fun _ => .pure _) (.pure _)

end values

end VM

/-! ## The executor on in-memory storage -/

namespace VMExecution

variable {x : VMExecution S}

theorem raises_storageOperation {name : String}
    {f : Option AuthContext → String → StorageM S α} :
    Raises (.fault .panic) (storageOperation name f : ExecutorOp F S α) x ↔
      ∃ b, x.storageBackend = some b ∧ Raises .panic (f x.authContext x.ns) b := by
  cases hb : x.storageBackend with
  | none => simp [Raises, storageOperation, hb]
  | some b =>
    cases hf : f x.authContext x.ns b with
    | ok a b' => simp [Raises, storageOperation, hb, hf]
    | error e b' => cases e <;> simp [Raises, storageOperation, hb, hf]

theorem storageOperation_avoids {name : String} {f : Option AuthContext → String → StorageM S α}
    (h : ∀ auth ns, Avoids .panic (f auth ns)) :
    Avoids (.fault .panic) (storageOperation name f : ExecutorOp F S α) := by
  intro x hx
  obtain ⟨b, -, hf⟩ := raises_storageOperation.mp hx
  exact h _ _ b hf

theorem logStorageEvent_avoids (category label : String) (event : Option StorageEvent) :
    Avoids (.fault .panic) (logStorageEvent category label event : ExecutorOp F S Unit) := by
  cases event with
  | none => exact .pure _
  | some e => exact .of_ok fun _ => ⟨_, _, rfl⟩

theorem now_avoids : Avoids (.fault .panic) (now : ExecutorOp F S Nat) :=
  .of_ok fun _ => ⟨_, _, rfl⟩

/-- What follows an event goes on with the same storage, caller and namespace. -/
theorem raises_emitEvent_bind {category message : String} {f : Unit → ExecutorOp F S α} :
    Raises (.fault .panic) (emitEvent category message >>= f) x ↔
      Raises (.fault .panic) (f ()) { x with
        events := x.events ++ [⟨category, message, x.clock x.reads⟩]
        reads := x.reads + 1 } :=
  raises_bind_of_ok rfl

/-- What follows the reading of the clock. -/
theorem raises_now_bind {f : Nat → ExecutorOp F S α} :
    Raises (.fault .panic) (now >>= f) x ↔ Raises (.fault .panic) (f (x.clock x.reads)) x :=
  raises_bind_of_ok rfl

section storage
variable [Number F] {x : VMExecution InMemoryStorage}

open InMemoryStorage

theorem unwrapAmount_number (amount : F) :
    (unwrapAmount (.number amount) : StorageM S Nat) = pure (Number.toU64 amount) := rfl

theorem executeMint_raises_iff {resource account : String} {amount : F}
    {reason : Option String} :
    Raises (.fault .panic)
        (executeMint resource account (.number amount) reason : ExecutorOp F _ Unit) x ↔
      ∃ b, x.storageBackend = some b ∧
        ¬ b.MintFits x.authContext x.ns resource account (Number.toU64 amount) := by
  unfold executeMint
  rw [raises_now_bind, raises_bind_left fun _ => logStorageEvent_avoids _ _ _,
    raises_storageOperation]
  simp only [unwrapAmount_number, pure_bind, mint_raises_iff]

theorem executeTransfer_raises_iff {resource source target : String} {amount : F}
    {reason : Option String} :
    Raises (.fault .panic)
        (executeTransfer resource source target (.number amount) reason : ExecutorOp F _ Unit) x ↔
      ∃ b, x.storageBackend = some b ∧
        ¬ b.TransferFits x.authContext x.ns resource source target (Number.toU64 amount) := by
  unfold executeTransfer
  rw [raises_now_bind, raises_bind_left fun _ => logStorageEvent_avoids _ _ _,
    raises_storageOperation]
  simp only [unwrapAmount_number, pure_bind, transfer_raises_iff]

theorem executeBurn_avoids (resource account : String) (amount : F) (reason : Option String) :
    Avoids (.fault .panic) (executeBurn resource account (.number amount) reason :
      ExecutorOp F InMemoryStorage Unit) := by
  refine now_avoids.bind fun _ => .bind (storageOperation_avoids fun _ _ => ?_) fun _ =>
    logStorageEvent_avoids _ _ _
  rw [unwrapAmount_number, pure_bind]
  exact burn_avoids _ _ _ _ _ _ _

theorem executeBalance_avoids (resource account : String) :
    Avoids (.fault .panic) (executeBalance resource account :
      ExecutorOp F InMemoryStorage (TypedValue F)) :=
  now_avoids.bind fun _ =>
    .bind (storageOperation_avoids fun _ _ => getBalance_avoids _ _ _ _ _) fun _ =>
      (logStorageEvent_avoids _ _ _).bind fun _ => .pure _

omit [Number F] in
theorem executeCreateResource_avoids (resource : String) :
    Avoids (.fault .panic) (executeCreateResource resource :
      ExecutorOp F InMemoryStorage Unit) :=
  .bind (storageOperation_avoids fun _ _ => set_avoids _ _ _ _) fun _ =>
    .of_ok fun _ => ⟨(), _, rfl⟩

theorem executeStoreP_avoids (key : String) (value : TypedValue F) :
    Avoids (.fault .panic) (executeStoreP key value : ExecutorOp F InMemoryStorage Unit) :=
  now_avoids.bind fun _ =>
    .bind (storageOperation_avoids fun _ _ => store_avoids _ _ _ _ _) fun _ =>
      logStorageEvent_avoids _ _ _

theorem executeLoadP_avoids (key : String) (missing : MissingKeyBehavior) :
    Avoids (.fault .panic) (executeLoadP key missing :
      ExecutorOp F InMemoryStorage (TypedValue F)) := by
  refine now_avoids.bind fun t x ⟨x', h⟩ => ?_
  dsimp only at h
  split at h
  · refine Avoids.bind (logStorageEvent_avoids _ _ _) (fun _ => ?_) _ ⟨x', h⟩
    split
    · exact .pure _
    · exact avoids_fail (by simp)
  · split at h
    · cases missing <;> cases h
    · cases h
  · next e y hload =>
    cases h
    exact storageOperation_avoids (fun _ _ => load_avoids _ _ _ _) x ⟨x', hload⟩

/-- The increment of a reputation, if the amount is in range. -/
def increment : Option F → Option Nat
  | none => some 1
  | some amount =>
    let rounded := Number.round amount
    if Number.lt rounded (Number.ofNat 0) || Number.gt rounded (Number.ofNat (2 ^ 64 - 1)) then none
    else some (Number.toU64 rounded)

/-- What an increment of a reputation needs not to overflow. -/
def ReputationFits (x : VMExecution InMemoryStorage) (identityId : String)
    (amount : Option F) : Prop :=
  ∀ b, x.storageBackend = some b → ∀ n, increment amount = some n →
    b.SumFits x.authContext x.ns (EconomicOperations.reputationKey identityId) n

theorem reputationAmount_eq {S : Type} (amount : Option F) :
    ∃ e, (reputationAmount (amount.map .number) : ExecutorOp F S Nat) =
      (increment amount).elim (Comp.fail (.error e)) pure := by
  cases amount with
  | none => exact ⟨.stackUnderflow, rfl⟩
  | some amount =>
    refine ⟨.invalidAmount (Number.round amount), ?_⟩
    simp only [Option.map_some, reputationAmount, TypedValue.asNumber, increment]
    by_cases hlow : Number.lt (Number.round amount) (Number.ofNat 0) = true
    · simp only [hlow, if_true, Bool.true_or, Option.elim_none]
    · rw [if_neg hlow]
      simp only [hlow, Bool.false_or]
      split <;> rfl

theorem raises_reputationAmount_bind {amount : Option F}
    {f : Nat → ExecutorOp F InMemoryStorage α} :
    Raises (.fault .panic) (reputationAmount (amount.map .number) >>= f) x ↔
      ∃ n, increment amount = some n ∧ Raises (.fault .panic) (f n) x := by
  obtain ⟨e, hamount⟩ := @reputationAmount_eq F _ InMemoryStorage amount
  rw [hamount]
  cases increment amount with
  | none =>
    refine iff_of_false (not_raises_bind_of_error rfl (by simp)) ?_
    rintro ⟨n, heq, -⟩
    cases heq
  | some n => simp

omit [Number F] in
/-- A number is read from the storage without an event. -/
theorem raises_getReputation_bind {identityId : String} {b : InMemoryStorage}
    (hb : x.storageBackend = some b)
    {f : Nat × Option StorageEvent → ExecutorOp F InMemoryStorage α} :
    Raises (.fault .panic) (storageOperation "get_reputation" (fun auth ns =>
        EconomicOperations.getReputation auth ns identityId) >>= f) x ↔
      ∃ n, b.readU64 x.authContext x.ns (EconomicOperations.reputationKey identityId) = .ok n ∧
        Raises (.fault .panic) (f (n, none)) x := by
  have hread := storedU64_eq x.authContext x.ns (EconomicOperations.reputationKey identityId) b
  cases hn : b.readU64 x.authContext x.ns (EconomicOperations.reputationKey identityId) with
  | ok n =>
    rw [hn] at hread
    have hget : EconomicOperations.getReputation x.authContext x.ns identityId b =
        .ok (n, none) b := by
      rw [EconomicOperations.getReputation, StorageM.bind_of_ok hread]
      rfl
    have hop : (storageOperation "get_reputation" (fun auth ns =>
        EconomicOperations.getReputation auth ns identityId) : ExecutorOp F _ _) x =
          .ok (n, none) x := by
      simp only [storageOperation, hb, hget]
      rw [← hb]
    rw [raises_bind_of_ok hop]
    simp
  | error e =>
    rw [hn] at hread
    have hget : EconomicOperations.getReputation x.authContext x.ns identityId b =
        .error (.error e) b := by
      rw [EconomicOperations.getReputation, StorageM.bind_of_error hread]
    have hop : (storageOperation "get_reputation" (fun auth ns =>
        EconomicOperations.getReputation auth ns identityId) : ExecutorOp F _ _) x =
          .error (.fault (.error (storageErrorToVMError "get_reputation" e))) x := by
      simp only [storageOperation, hb, hget]
      rw [← hb]
    refine iff_of_false (not_raises_bind_of_error hop (by simp)) ?_
    rintro ⟨n, heq, -⟩
    cases heq

/-- The part of an increment that goes through the storage. -/
def addReputation (identityId : String) (n : Nat) : ExecutorOp F InMemoryStorage Unit := do
  let (current, event) ← storageOperation "get_reputation" fun auth ns =>
    EconomicOperations.getReputation auth ns identityId
  logStorageEvent "reputation" "get_reputation" event
  let t ← now
  let event ← storageOperation "set_reputation" fun auth ns => do
    let value ← StorageM.addU64 current n
    EconomicOperations.setReputation t auth ns identityId value
  logStorageEvent "reputation" "set_reputation" event

omit [Number F] in
theorem addReputation_raises_iff {identityId : String} {b : InMemoryStorage}
    (hb : x.storageBackend = some b) (n : Nat) :
    Raises (.fault .panic) (addReputation identityId n : ExecutorOp F _ Unit) x ↔
      ¬ b.SumFits x.authContext x.ns (EconomicOperations.reputationKey identityId) n := by
  unfold addReputation
  rw [raises_getReputation_bind hb, ← raises_addU64_bind fun value =>
    setReputation_avoids (x.clock x.reads) x.authContext x.ns identityId value]
  refine exists_congr fun current => and_congr_right fun _ => ?_
  have hsilent : (logStorageEvent "reputation" "get_reputation" none : ExecutorOp F _ Unit) =
      (pure () : ExecutorOp F InMemoryStorage Unit) := rfl
  dsimp only
  rw [hsilent, pure_bind, raises_now_bind, raises_bind_left fun _ => logStorageEvent_avoids _ _ _,
    raises_storageOperation]
  simp [hb]

/-- Without a backend an increment is only announced. -/
def persistReputation (identityId : String) (n : Nat) : ExecutorOp F InMemoryStorage Unit :=
  fun x =>
    match x.storageBackend with
    | none => .ok () x
    | some _ => addReputation identityId n x

theorem executeIncrementReputation_eq (identityId : String) (amount : Option (TypedValue F)) :
    executeIncrementReputation identityId amount = (do
      let n ← reputationAmount amount
      emitEvent "reputation"
        ("\x7b\"identity_id\": \"" ++ identityId ++ "\", \"amount\": " ++ toString n ++ "\x7d")
      persistReputation identityId n) := by
  unfold executeIncrementReputation
  refine congrArg _ (funext fun n => congrArg _ (funext fun _ => funext fun x => ?_))
  simp only [persistReputation]
  cases x.storageBackend <;> rfl

omit [Number F] in
theorem persistReputation_raises_iff {identityId : String} {n : Nat} :
    Raises (.fault .panic) (persistReputation identityId n : ExecutorOp F _ Unit) x ↔
      ∃ b, x.storageBackend = some b ∧
        ¬ b.SumFits x.authContext x.ns (EconomicOperations.reputationKey identityId) n := by
  cases hb : x.storageBackend with
  | none =>
    refine iff_of_false (not_raises_of_ok (t := x) (a := ()) ?_) (by simp)
    simp only [persistReputation, hb]
  | some b =>
    simp only [Option.some.injEq, exists_eq_left']
    rw [← addReputation_raises_iff (F := F) hb]
    simp only [Raises, persistReputation, hb]

theorem executeIncrementReputation_raises_iff {identityId : String} {amount : Option F} :
    Raises (.fault .panic)
        (executeIncrementReputation identityId (amount.map .number) : ExecutorOp F _ Unit) x ↔
      ¬ x.ReputationFits identityId amount := by
  rw [executeIncrementReputation_eq, raises_reputationAmount_bind]
  unfold ReputationFits
  simp only [raises_emitEvent_bind, persistReputation_raises_iff, not_forall, exists_prop]
  grind

end storage

end VMExecution

/-! ## Voting -/

section voting
variable [Number F]

/-- The top `n` values are there, and they are numbers. -/
def VMStack.HoldsNumbers (n : Nat) (s : VMStack F) : Prop :=
  n ≤ s.length ∧ ∀ v ∈ s.take n, ∃ x, v.asNumber = .ok x

theorem VMStack.holdsNumbers_zero (s : VMStack F) : HoldsNumbers 0 s :=
  ⟨Nat.zero_le _, by simp⟩

theorem VMStack.holdsNumbers_add {m n : Nat} {s : VMStack F} :
    HoldsNumbers (m + n) s ↔ HoldsNumbers m s ∧ HoldsNumbers n (s.drop m) := by
  unfold HoldsNumbers
  rw [List.take_add, List.length_drop]
  simp only [List.mem_append, or_imp, forall_and]
  constructor
  · rintro ⟨hlen, hm, hn⟩
    exact ⟨⟨by omega, hm⟩, by omega, hn⟩
  · rintro ⟨⟨hlen, hm⟩, hlen', hn⟩
    exact ⟨by omega, hm, hn⟩

namespace Governance

open VM

/-- The computation takes `n` numbers off the stack, and succeeds if they are there. -/
structure Pops (n : Nat) (x : Exec F S α) : Prop where
  ok : ∀ vm, VMStack.HoldsNumbers n vm.stack →
    ∃ a, x vm = .ok a { vm with stack := vm.stack.drop n }
  holds : ∀ vm a vm', x vm = .ok a vm' →
    VMStack.HoldsNumbers n vm.stack ∧ vm'.stack = vm.stack.drop n

theorem Pops.pure (a : α) : Pops 0 (pure a : Exec F S α) where
  ok vm _ := ⟨a, rfl⟩
  holds vm a vm' h := by
    cases h
    exact ⟨VMStack.holdsNumbers_zero _, rfl⟩

theorem Pops.bind {β : Type} {m n : Nat} {x : Exec F S α} {f : α → Exec F S β} (hx : Pops m x)
    (hf : ∀ a, Pops n (f a)) : Pops (m + n) (x >>= f) where
  ok vm h := by
    obtain ⟨hm, hn⟩ := VMStack.holdsNumbers_add.mp h
    obtain ⟨a, ha⟩ := hx.ok vm hm
    obtain ⟨b, hb⟩ := (hf a).ok { vm with stack := vm.stack.drop m } hn
    refine ⟨b, ?_⟩
    rw [Comp.bind_of_ok ha, hb, List.drop_drop]
  holds vm b vm' h := by
    obtain ⟨a, vm₁, ha, hb⟩ := Comp.bind_eq_ok_iff.mp h
    obtain ⟨hm, hstack⟩ := hx.holds vm a vm₁ ha
    obtain ⟨hn, hstack'⟩ := (hf a).holds vm₁ b vm' hb
    rw [hstack] at hn hstack'
    exact ⟨VMStack.holdsNumbers_add.mpr ⟨hm, hn⟩, by rw [hstack', List.drop_drop]⟩

theorem popNumber_pops (opName : String) : Pops 1 (popNumber opName : Exec F S F) where
  ok vm h := by
    obtain ⟨hlen, hnum⟩ := h
    cases hs : vm.stack with
    | nil => simp [hs] at hlen
    | cons v s =>
      obtain ⟨x, hx⟩ := hnum v (by simp [hs])
      refine ⟨x, ?_⟩
      simp only [popNumber, onStack, Comp.zoom, hs, VMStack.popNumber, Comp.bind_apply,
        VMStack.pop_cons, hx, Comp.pure_apply, List.drop_succ_cons, List.drop_zero]
  holds vm x vm' h := by
    cases hs : vm.stack with
    | nil =>
      simp only [popNumber, onStack, Comp.zoom, hs, VMStack.popNumber, Comp.bind_apply,
        VMStack.pop_nil] at h
      cases h
    | cons v s =>
      simp only [popNumber, onStack, Comp.zoom, hs, VMStack.popNumber, Comp.bind_apply,
        VMStack.pop_cons] at h
      cases hx : v.asNumber with
      | error e =>
        rw [hx] at h
        cases h
      | ok y =>
        rw [hx] at h
        cases h
        exact ⟨⟨by simp, by simp [hx]⟩, rfl⟩

theorem popMany_pops (opName : String) (n : Nat) :
    Pops n (popMany opName n : Exec F S (List F)) := by
  induction n with
  | zero => exact .pure _
  | succ n ih =>
    have h : Pops (1 + (n + 0)) (popMany opName (n + 1) : Exec F S (List F)) :=
      (popNumber_pops opName).bind fun _ => ih.bind fun _ => .pure _
    rwa [Nat.add_zero, Nat.add_comm 1 n] at h

theorem popBallots_pops (candidates n : Nat) :
    Pops (candidates * n) (popBallots candidates n : Exec F S (List (List F))) := by
  induction n with
  | zero => exact .pure _
  | succ n ih =>
    have h : Pops (candidates + (candidates * n + 0))
        (popBallots candidates (n + 1) : Exec F S (List (List F))) :=
      (popMany_pops _ candidates).bind fun _ => ih.bind fun _ => .pure _
    rwa [Nat.add_zero, Nat.add_comm, ← Nat.mul_succ] at h

theorem popNumber_avoids (opName : String) :
    Avoids (.fault .panic) (popNumber opName : Exec F S F) := by
  refine avoids_zoom (stackPop_avoids.bind fun v => ?_)
  split
  · exact .pure _
  · exact avoids_fail (by simp)

theorem popMany_avoids (opName : String) (n : Nat) :
    Avoids (.fault .panic) (popMany opName n : Exec F S (List F)) := by
  induction n with
  | zero => exact .pure _
  | succ n ih => exact (popNumber_avoids _).bind fun _ => ih.bind fun _ => .pure _

theorem popBallots_avoids (candidates n : Nat) :
    Avoids (.fault .panic) (popBallots candidates n : Exec F S (List (List F))) := by
  induction n with
  | zero => exact .pure _
  | succ n ih => exact (popMany_avoids _ _).bind fun _ => ih.bind fun _ => .pure _

omit [Number F] in
theorem refuse_avoids (failed : Bool) (text : String) :
    Avoids (.fault .panic) (refuse failed text : Exec F S Unit) :=
  .ite (raise_avoids _) (.pure _)

theorem pushVerdict_avoids (met : Bool) (subject : String) :
    Avoids (.fault .panic) (pushVerdict met subject : Exec F S Unit) :=
  .ite ((push_avoids _).bind fun _ => emitEvent_avoids _ _)
    ((push_avoids _).bind fun _ => emitEvent_avoids _ _)

theorem handleQuorumThreshold_avoids (threshold : F) :
    Avoids (.fault .panic) (handleQuorumThreshold threshold : Exec F S Unit) :=
  (refuse_avoids _ _).bind fun _ => (popNumber_avoids _).bind fun _ =>
    (popNumber_avoids _).bind fun _ => (refuse_avoids _ _).bind fun _ =>
      (emitEvent_avoids _ _).bind fun _ => pushVerdict_avoids _ _

theorem handleVoteThreshold_avoids (threshold : F) :
    Avoids (.fault .panic) (handleVoteThreshold threshold : Exec F S Unit) :=
  (refuse_avoids _ _).bind fun _ => (popNumber_avoids _).bind fun _ =>
    (emitEvent_avoids _ _).bind fun _ => pushVerdict_avoids _ _

theorem handleLiquidDelegate_avoids [SerdeJson] (source target : String) :
    Avoids (.fault .panic) (handleLiquidDelegate source target : Exec F S Unit) := by
  refine (refuse_avoids _ _).bind fun _ => Avoids.get.bind fun vm => ?_
  have hupdate (delegations : HashMap String) : Avoids (.fault .panic)
      (updateDelegations delegations source target : Exec F S _) :=
    .ite (.ite ((emitEvent_avoids _ _).bind fun _ => .pure _)
        ((emitEvent_avoids _ _).bind fun _ => .pure _))
      ((refuse_avoids _ _).bind fun _ => (emitEvent_avoids _ _).bind fun _ => .pure _)
  exact (hupdate _).bind fun _ => (modifyMemory_avoids _).bind fun _ => modifyMemory_avoids _

theorem eliminationRounds_avoids {ballots : Nat} (h : ballots + 1 < 2 ^ 64) (candidates : Nat)
    (allBallots : List (List F)) (rounds : Nat) (eliminated : List Bool) :
    Avoids (.fault .panic) (eliminationRounds candidates ballots allBallots rounds eliminated :
      Exec F S _) := by
  induction rounds generalizing eliminated with
  | zero => exact .pure _
  | succ rounds ih =>
    unfold eliminationRounds
    rw [addUsize_of_lt h, pure_bind]
    exact (emitEvent_avoids _ _).bind fun _ => ih _

/-- The count for the comparison overflows in the first round or never. -/
theorem eliminationRounds_raises_iff {candidates ballots rounds : Nat}
    {allBallots : List (List F)} {eliminated : List Bool} {vm : VM F S} :
    Raises (.fault .panic)
        (eliminationRounds candidates ballots allBallots (rounds + 1) eliminated) vm ↔
      ¬ ballots + 1 < 2 ^ 64 := by
  by_cases h : ballots + 1 < 2 ^ 64
  · exact iff_of_false (eliminationRounds_avoids h _ _ _ _ vm) (not_not_intro h)
  · refine iff_of_true ?_ h
    unfold eliminationRounds
    rw [addUsize_of_le (Nat.not_lt.mp h)]
    exact ⟨vm, rfl⟩

theorem handleRankedVote_raises_iff {candidates ballots : Nat} {vm : VM F S} :
    Raises (.fault .panic) (handleRankedVote candidates ballots) vm ↔
      2 ≤ candidates ∧ 1 ≤ ballots ∧ VMStack.HoldsNumbers (candidates * ballots) vm.stack ∧
        ¬ ballots + 1 < 2 ^ 64 := by
  unfold handleRankedVote
  by_cases hcandidates : candidates < 2
  · refine iff_of_false ?_ (by omega)
    rw [decide_eq_true hcandidates]
    exact not_raises_bind_of_error rfl (by simp)
  rw [decide_eq_false hcandidates,
    raises_bind_of_ok (show (refuse false _ : Exec F S Unit) vm = .ok () vm from rfl)]
  by_cases hballots : ballots < 1
  · refine iff_of_false ?_ (by omega)
    rw [decide_eq_true hballots]
    exact not_raises_bind_of_error rfl (by simp)
  obtain ⟨rounds, rfl⟩ : ∃ rounds, candidates = rounds + 2 := ⟨candidates - 2, by omega⟩
  rw [decide_eq_false hballots,
    raises_bind_of_ok (show (refuse false _ : Exec F S Unit) vm = .ok () vm from rfl),
    raises_bind_right (popBallots_avoids _ _)]
  have htail (allBallots : List (List F)) (vm' : VM F S) : Raises (.fault .panic) (do
      governanceEvent
        s!"Running ranked-choice vote with {rounds + 2} candidates and {ballots} ballots"
      let eliminated ← eliminationRounds (rounds + 2) ballots allBallots (rounds + 2 - 1)
        (List.replicate (rounds + 2) false)
      let winner := if eliminated.contains false then eliminated.idxOf false else 0
      governanceEvent s!"Winner of ranked-choice vote: candidate {winner}"
      push (.number (Number.ofNat winner))) vm' ↔ ¬ ballots + 1 < 2 ^ 64 := by
    rw [raises_bind_of_ok (show governanceEvent _ vm' = .ok () _ from rfl)]
    refine Iff.trans (raises_bind_left fun _ => ?_) eliminationRounds_raises_iff
    exact (emitEvent_avoids _ _).bind fun _ => push_avoids _
  simp only [htail]
  constructor
  · rintro ⟨allBallots, vm', hpop, hover⟩
    exact ⟨by omega, by omega, ((popBallots_pops _ _).holds vm _ _ hpop).1, hover⟩
  · rintro ⟨-, -, hnumbers, hover⟩
    obtain ⟨allBallots, hpop⟩ := (popBallots_pops _ _).ok vm hnumbers
    exact ⟨allBallots, _, hpop, hover⟩

end Governance

end voting

end Covm
