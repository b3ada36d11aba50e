import Covm.Number.Text
import Covm.Storage.Tokens
import Covm.Vm.StackShape

/-!
# Values in persistent storage

`StoreP` keeps the text of a value and `LoadP` guesses the value from the text. Numbers, booleans
and null come back as they were. A string is kept with the quotes of its `Display` and comes back
with them, so that no string comes back as it was.
-/

namespace Covm

open Partial Comp

/-- After a successful write the same caller reads what was written. -/
class StorageBackend.ReadsBack (S : Type) [StorageBackend S] : Prop where
  get_set : ∀ {auth : Option AuthContext} {ns key : String} {bytes : ByteArray} {b b' : S},
    StorageBackend.set auth ns key bytes b = .ok () b' →
      StorageBackend.get b' auth ns key = .ok bytes

/-! ### In memory -/

namespace InMemoryStorage

instance : StorageBackend.ReadsBack InMemoryStorage where
  get_set := by
    intro auth ns key bytes s s' h
    obtain ⟨e, -, herr⟩ | ⟨e, -, herr⟩ | ⟨a, s₁, rfl, hok, hstored⟩ := set_cases auth ns key bytes s
    · cases h.symm.trans herr
    · cases h.symm.trans herr
    · cases h.symm.trans hok
      show InMemoryStorage.get s' (some a) ns key = .ok bytes
      rw [InMemoryStorage.get, checkPermission_read hstored.permitted, hstored.data,
        Function.update_self]
      rfl

end InMemoryStorage

/-! ### Text and values -/

def TypedValue.isString {F : Type} : TypedValue F → Bool
  | .string _ => true
  | _ => false

namespace VMExecution

variable {fmt : Format}

theorem parseStored_of_none {text : String} (h : (Ieee.parse text : Option (Ieee fmt)) = none) :
    (parseStored text : TypedValue (Ieee fmt)) =
      if text = "true" then .boolean true
      else if text = "false" then .boolean false
      else if text = "null" then .null
      else .string text := by
  rw [parseStored, show (Number.parse text : Option (Ieee fmt)) = none from h]

theorem parseStored_string (s : String) :
    (parseStored (TypedValue.string s : TypedValue (Ieee fmt)).display : TypedValue (Ieee fmt)) =
      .string ("\"" ++ s ++ "\"") := by
  have hlist : ("\"" ++ s ++ "\"").toList = '"' :: (s.toList ++ ['"']) := by simp
  have hne {word : String} {c : Char} {cs : List Char} (hword : word.toList = c :: cs)
      (hc : '"' ≠ c) : "\"" ++ s ++ "\"" ≠ word := by
    intro h
    have := congrArg String.toList h
    rw [hlist, hword] at this
    exact hc (List.cons.inj this).1
  rw [TypedValue.display, parseStored_of_none (Ieee.parse_quoted s),
    if_neg (hne (show "true".toList = _ from rfl) (by decide)),
    if_neg (hne (show "false".toList = _ from rfl) (by decide)),
    if_neg (hne (show "null".toList = _ from rfl) (by decide))]

theorem quoted_ne (s : String) : "\"" ++ s ++ "\"" ≠ s := by
  intro h
  have hlength := congrArg String.length h
  simp only [String.length_append] at hlength
  have hquote : "\"".length = 1 := rfl
  omega

/-- The values that come back from their text are those that are not strings. -/
theorem parseStored_display (v : TypedValue (Ieee fmt)) :
    parseStored v.display = v ↔ v.isString = false := by
  cases v with
  | number x =>
    have hparse : (Number.parse (Number.toStr x) : Option (Ieee fmt)) = some x :=
      Ieee.parse_toStr x
    simp [TypedValue.display, parseStored, hparse, TypedValue.isString]
  | boolean b =>
    cases b with
    | true => exact iff_of_true ((parseStored_of_none Ieee.parse_true).trans (if_pos rfl)) rfl
    | false =>
      refine iff_of_true ((parseStored_of_none Ieee.parse_false).trans ?_) rfl
      rw [if_neg (by decide), if_pos rfl]
  | string s =>
    rw [parseStored_string]
    simp [TypedValue.isString, quoted_ne]
  | null =>
    refine iff_of_true ((parseStored_of_none Ieee.parse_null).trans ?_) rfl
    rw [if_neg (by decide), if_neg (by decide), if_pos rfl]

/-! ### The executor -/

section executor
variable {F S : Type} [Number F] [StorageBackend S]

theorem store_ok {auth : Option AuthContext} {ns key : String} {bytes : ByteArray} {b b' : S}
    (h : StorageBackend.set auth ns key bytes b = .ok () b') (t : Nat) :
    ∃ event, EconomicOperations.store t auth ns key bytes b = .ok event b' := by
  unfold EconomicOperations.store
  simp only [bind, EStateM.bind, h]
  exact ⟨_, rfl⟩

theorem load_ok {auth : Option AuthContext} {ns key : String} {bytes : ByteArray} {b : S}
    (h : StorageBackend.get b auth ns key = .ok bytes) (t : Nat) :
    ∃ event, EconomicOperations.load t auth ns key b = .ok (bytes, event) b := by
  unfold EconomicOperations.load
  simp only [bind, EStateM.bind, StorageM.query, h]
  exact ⟨_, rfl⟩

omit [Number F] [StorageBackend S] in
theorem storageOperation_ok {α : Type} {operationName : String}
    {f : Option AuthContext → String → StorageM S α} {x : VMExecution S} {b b' : S} {a : α}
    (hb : x.storageBackend = some b) (h : f x.authContext x.ns b = .ok a b') :
    (storageOperation operationName f x : EStateM.Result (Stop (Fault F)) _ α) =
      .ok a { x with storageBackend := some b' } := by
  unfold storageOperation
  simp only [hb, h]

omit [Number F] [StorageBackend S] in
theorem now_apply (x : VMExecution S) : (now : ExecutorOp F S Nat) x = .ok (x.clock x.reads) x :=
  rfl

/-- The storage part of the executor. -/
def held (x : VMExecution S) : Option S × Option AuthContext × String :=
  (x.storageBackend, x.authContext, x.ns)

omit [Number F] [StorageBackend S] in
theorem logStorageEvent_ok (category label : String) (event : Option StorageEvent)
    (x : VMExecution S) :
    ∃ x', (logStorageEvent category label event : ExecutorOp F S Unit) x = .ok () x' ∧
      held x' = held x := by
  cases event with
  | none => exact ⟨x, rfl, rfl⟩
  | some e => exact ⟨_, rfl, rfl⟩

theorem executeStoreP_ok {key : String} {v : TypedValue F} {x : VMExecution S} {b b' : S}
    (hb : x.storageBackend = some b)
    (h : StorageBackend.set x.authContext x.ns key v.display.toUTF8 b = .ok () b') :
    ∃ x', executeStoreP key v x = .ok () x' ∧ held x' = (some b', x.authContext, x.ns) := by
  obtain ⟨event, hstore⟩ := store_ok h (x.clock x.reads)
  obtain ⟨x', hlog, hheld⟩ := logStorageEvent_ok (F := F) "storage" "store" event
    { x with storageBackend := some b' }
  refine ⟨x', ?_, hheld⟩
  rw [executeStoreP, bind_of_ok (now_apply x), bind_of_ok (storageOperation_ok hb hstore), hlog]

theorem executeLoadP_ok {key text : String} {x : VMExecution S} {b : S}
    (hb : x.storageBackend = some b)
    (h : StorageBackend.get b x.authContext x.ns key = .ok text.toUTF8)
    (missing : MissingKeyBehavior) :
    ∃ x', executeLoadP key missing x = .ok (parseStored text : TypedValue F) x' ∧
      held x' = held x := by
  obtain ⟨event, hload⟩ := load_ok h (x.clock x.reads)
  obtain ⟨x', hlog, hheld⟩ := logStorageEvent_ok (F := F) "storage" "load" event
    { x with storageBackend := some b }
  refine ⟨x', ?_, hheld.trans ?_⟩
  · refine (bind_of_ok (now_apply x)).trans ?_
    rw [storageOperation_ok hb hload]
    dsimp only
    rw [bind_of_ok hlog, fromUTF8_toUTF8]
    rfl
  · rw [held, held, hb]

end executor

end VMExecution

/-! ### The VM -/

namespace VM

section run
variable {F S : Type} [Number F] [StorageBackend S]

/-- `StoreP` is executed, and the backend accepts the value. -/
structure WritePermitted (vm : VM F S) (key : String) (v : TypedValue F) : Prop where
  real : vm.simulationMode = false
  accepted : ∃ b b', vm.executor.storageBackend = some b ∧
    StorageBackend.set vm.executor.authContext vm.executor.ns key v.display.toUTF8 b = .ok () b'

omit [StorageBackend S] in
theorem logStorageOperation_ok (operation key : String) (v : TypedValue F) (vm : VM F S) :
    ∃ vm', logStorageOperation operation key v vm = .ok () vm' := by
  unfold logStorageOperation
  split <;> exact ⟨_, rfl⟩

section kept
variable {vm : VM F S} {mode : Bool} {s : VMStack F}
  {storage : Option S × Option AuthContext × String}

omit [Number F] [StorageBackend S] in
theorem kept_withStack (h : kept vm = (mode, s, storage)) (s' : VMStack F) :
    kept { vm with stack := s' } = (mode, s', storage) :=
  congrArg (fun k : Kept F S => (k.1, s', k.2.2)) h

omit [Number F] [StorageBackend S] in
theorem kept_withExecutor (h : kept vm = (mode, s, storage)) (x : VMExecution S) :
    kept { vm with executor := x } = (mode, s, x.held) :=
  congrArg (fun k : Kept F S => (k.1, k.2.1, x.held)) h

omit [Number F] [StorageBackend S] in
theorem onExecutor_ok {α : Type} {x : ExecutorOp F S α} {a : α} {x' : VMExecution S}
    (h : x vm.executor = .ok a x') : onExecutor x vm = .ok a { vm with executor := x' } := by
  unfold onExecutor zoom
  rw [h]

end kept

variable [SerdeJson] {vm : VM F S} {s : VMStack F} {auth : Option AuthContext} {ns key : String}

theorem next_push {backend : Option S} (v : TypedValue F)
    (h : kept vm = (false, s, backend, auth, ns)) :
    ∃ vm', limit.next (.push v) vm (.ok .next vm') ∧
      kept vm' = (false, v :: s, backend, auth, ns) := by
  refine next_of_kept rfl (congrArg Prod.fst h) fun vm₁ hkept => ?_
  have hstack : vm₁.stack = s := congrArg (fun k => k.2.1) (hkept.trans h)
  rw [← hstack]
  exact ⟨_, push_apply v vm₁, kept_withStack (hkept.trans h) _⟩

theorem next_storeP {b b' : S} {v : TypedValue F}
    (h : kept vm = (false, v :: s, some b, auth, ns))
    (hset : StorageBackend.set auth ns key v.display.toUTF8 b = .ok () b') :
    ∃ vm', limit.next (.storeP key) vm (.ok .next vm') ∧
      kept vm' = (false, s, some b', auth, ns) := by
  refine next_of_kept rfl (congrArg Prod.fst h) fun vm₁ hkept => ?_
  have hstack : vm₁.stack = v :: s := congrArg (fun k => k.2.1) (hkept.trans h)
  obtain ⟨vm₂, hlog⟩ := logStorageOperation_ok "StoreP" key v { vm₁ with stack := s }
  have hkept₂ : kept vm₂ = (false, s, some b, auth, ns) :=
    ((logStorageOperation_kept "StoreP" key v).ok hlog).trans
      (kept_withStack (hkept.trans h) s)
  have hheld : vm₂.executor.held = (some b, auth, ns) := congrArg (fun k => k.2.2) hkept₂
  obtain ⟨hbackend, hauth, hns⟩ := by simpa [VMExecution.held] using hheld
  rw [← hauth, ← hns] at hset ⊢
  obtain ⟨x, hstore, hx⟩ := VMExecution.executeStoreP_ok hbackend hset
  refine ⟨{ vm₂ with executor := x }, ?_, ?_⟩
  · rw [bind_of_ok (pop_of_cons hstack), bind_of_ok hlog, onExecutor_ok hstore]
  · rw [kept_withExecutor hkept₂, hx]

theorem next_loadP {b : S} {text : String} (h : kept vm = (false, s, some b, auth, ns))
    (hget : StorageBackend.get b auth ns key = .ok text.toUTF8) :
    ∃ vm', limit.next (.loadP key) vm (.ok .next vm') ∧
      kept vm' = (false, VMExecution.parseStored text :: s, some b, auth, ns) := by
  refine next_of_kept rfl (congrArg Prod.fst h) fun vm₁ hkept => ?_
  have hheld : vm₁.executor.held = (some b, auth, ns) := congrArg (fun k => k.2.2) (hkept.trans h)
  obtain ⟨hbackend, hauth, hns⟩ := by simpa [VMExecution.held] using hheld
  rw [← hauth, ← hns] at hget
  obtain ⟨x, hload, hx⟩ :=
    VMExecution.executeLoadP_ok (F := F) hbackend hget vm₁.missingKeyBehavior
  have hkept₂ := kept_withExecutor (hkept.trans h) x
  rw [hx, hheld] at hkept₂
  obtain ⟨vm₂, hlog⟩ := logStorageOperation_ok "LoadP" key
    (VMExecution.parseStored text : TypedValue F) { vm₁ with executor := x }
  have hkept₃ := ((logStorageOperation_kept "LoadP" key _).ok hlog).trans hkept₂
  have hstack : vm₂.stack = s := congrArg (fun k => k.2.1) hkept₃
  refine ⟨{ vm₂ with stack := VMExecution.parseStored text :: s }, ?_, kept_withStack hkept₃ _⟩
  rw [bind_of_ok (show (get : Exec F S _) vm₁ = .ok vm₁ vm₁ from rfl),
    bind_of_ok (onExecutor_ok hload), bind_of_ok hlog, push_apply, hstack]

variable [StorageBackend.ReadsBack S]

/-- What is stored is read back as its text is parsed. -/
theorem run_storeP_loadP {v : TypedValue F} (h : WritePermitted vm key v) :
    ∃ vm', run [.push v, .storeP key, .loadP key] vm (.ok () vm') ∧
      vm'.stack = VMExecution.parseStored v.display :: vm.stack := by
  obtain ⟨b, b', hb, hset⟩ := h.accepted
  have hget := StorageBackend.ReadsBack.get_set hset
  have hkept : kept vm =
      (false, vm.stack, some b, vm.executor.authContext, vm.executor.ns) := by
    rw [kept, h.real, hb]
  obtain ⟨vm₁, hpush, hkept₁⟩ := next_push v hkept
  obtain ⟨vm₂, hstore, hkept₂⟩ := next_storeP hkept₁ hset
  obtain ⟨vm₃, hload, hkept₃⟩ := next_loadP hkept₂ hget
  refine ⟨vm₃, ?_, congrArg (fun k => k.2.1) hkept₃⟩
  simp only [run_cons, run_nil]
  exact Sem.bind_ok hpush (Sem.bind_ok hstore (Sem.bind_ok hload rfl))

end run

/-- A value whose write is permitted comes back from the storage as it was exactly if it is not a
string. -/
theorem storeP_loadP_iff {S : Type} [StorageBackend S] [StorageBackend.ReadsBack S] [SerdeJson]
    {vm : VM Binary64 S} {key : String} {v : TypedValue Binary64} (h : WritePermitted vm key v) :
    (∃ vm', run [.push v, .storeP key, .loadP key] vm (.ok () vm') ∧
      vm'.stack.head? = some v) ↔ v.isString = false := by
  rw [← VMExecution.parseStored_display]
  obtain ⟨vm', hrun, hstack⟩ := run_storeP_loadP h
  constructor
  · rintro ⟨vm'', hrun', htop⟩
    cases run_functional _ vm _ _ hrun hrun'
    rw [hstack] at htop
    exact Option.some.inj htop
  · intro hback
    refine ⟨vm', hrun, ?_⟩
    rw [hstack, hback]
    rfl

theorem performing_permitted {v : TypedValue Binary64}
    (h : (match InMemoryStorage.set (some InMemoryStorage.admin) "ns" "k" v.display.toUTF8
        InMemoryStorage.adminStorage with
      | .ok _ _ => true
      | .error _ _ => false) = true) : WritePermitted performing "k" v := by
  refine ⟨rfl, InMemoryStorage.adminStorage, ?_⟩
  split at h
  · next b' hset => exact ⟨b', rfl, hset⟩
  · cases h

theorem storeP_loadP_third :
    (∃ vm', run [.push (.number (Number.div (Number.ofNat 1) (Number.ofNat 3))), .storeP "k",
        .loadP "k"] performing (.ok () vm') ∧
      vm'.stack.head? = some (.number (Number.div (Number.ofNat 1) (Number.ofNat 3)))) ↔
      (TypedValue.number (Number.div (Number.ofNat 1) (Number.ofNat 3) : Binary64)).isString =
        false :=
  storeP_loadP_iff (performing_permitted (by decide +kernel))

/-- The string `yes` comes back in quotes. -/
theorem not_storeP_loadP :
    ¬ ∀ (vm : VM Binary64 InMemoryStorage) (key : String) (v : TypedValue Binary64),
      WritePermitted vm key v →
        ∃ vm', run [.push v, .storeP key, .loadP key] vm (.ok () vm') ∧
          vm'.stack.head? = some v := by
  intro h
  have hpermitted : WritePermitted performing "k" (.string "yes") :=
    performing_permitted (by decide)
  obtain ⟨vm', hrun, htop⟩ := h performing "k" (.string "yes") hpermitted
  obtain ⟨vm'', hrun', hstack⟩ := run_storeP_loadP hpermitted
  cases run_functional _ performing _ _ hrun hrun'
  rw [hstack, VMExecution.parseStored_string] at htop
  exact VMExecution.quoted_ne "yes" (TypedValue.string.inj (Option.some.inj htop))

end VM

end Covm
