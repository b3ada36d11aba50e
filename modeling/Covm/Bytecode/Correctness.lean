import Covm.Bytecode.Matching
import Covm.Governance.Json

/-!
# The compiled code does what the program does

`Implements hidden m code` says that relocated code computes `m`, wherever it stands in a program:
the machine goes from its first instruction to the one behind it, and what it computes on the way
simulates `m`, up to the hidden variables. There is one lemma for each construct of the language
and its code, and the correctness of the compiler for the structured fragment is their assembly.
-/

namespace Covm

open Partial BytecodeInterpreter
open BytecodeCompiler (loopCounter matchValue)

section code
variable {F S : Type}

/-- The code stands at position `pos` of the program. -/
def CodeAt (P : BytecodeProgram F) (pos : Nat) (code : List (BytecodeOp F)) : Prop :=
  code <+: P.instructions.drop pos

variable {P : BytecodeProgram F} {pos : Nat}

theorem CodeAt.whole {code : List (BytecodeOp F)} (h : P.instructions = code) : CodeAt P 0 code :=
  h ▸ List.prefix_rfl

theorem CodeAt.left {a b : List (BytecodeOp F)} (h : CodeAt P pos (a ++ b)) : CodeAt P pos a :=
  (List.prefix_append a b).trans h

theorem CodeAt.right {a b : List (BytecodeOp F)} (h : CodeAt P pos (a ++ b)) :
    CodeAt P (pos + a.length) b := by
  obtain ⟨rest, hrest⟩ := h
  have hdrop := congrArg (List.drop a.length) hrest
  rw [List.drop_drop, List.append_assoc, List.drop_left] at hdrop
  exact ⟨rest, hdrop⟩

theorem CodeAt.tail {i : BytecodeOp F} {code : List (BytecodeOp F)}
    (h : CodeAt P pos (i :: code)) : CodeAt P (pos + 1) code :=
  CodeAt.right (a := [i]) h

theorem CodeAt.fetch {i : BytecodeOp F} {code : List (BytecodeOp F)}
    (h : CodeAt P pos (i :: code)) : P.instructions[pos]? = some i := by
  obtain ⟨rest, h⟩ := h
  have := congrArg (·[0]?) h
  simpa using this.symm

end code

section implements
variable {F S : Type} [Number F] [StorageBackend S]

/-- The code computes `m`, up to the hidden variables. It writes only the temporaries that are
named after its own positions. -/
def Implements (hidden : Set String) (m : Sem (Fault F) (VM F S) Unit) (code : Code F) : Prop :=
  ∀ P pos, CodeAt P pos (code pos) → ∃ m',
    Machine.Segment (positions P) 0 pos m' (fun _ => pos + (code pos).length) ∧
    ∀ d : Difference F, d.hidden = hidden →
      Simulates d (temporaries pos (pos + (code pos).length)) m m'

variable {hidden : Set String} {m n : Sem (Fault F) (VM F S) Unit} {a b c : Code F}

theorem Implements.nil : Implements hidden (pure () : Sem (Fault F) (VM F S) Unit) .nil :=
  fun _ pos _ => ⟨pure (), .pure () fun _ => pos, fun _ _ => .pure ()⟩

theorem Implements.one {x : Exec F S Unit} {i : BytecodeOp F} (hx : executeOnVm i = some x)
    (hdef : x.Definite) (hsim : ∀ d : Difference F, d.hidden = hidden → ∀ N,
      Simulates d N (ends x) (ends x)) : Implements hidden (ends x) (.one i) :=
  fun _ _ h => ⟨ends x, (segment_onVm h.fetch hx hdef).weaken (Nat.zero_le _), fun d hd =>
    hsim d hd _⟩

/-- Code behind code, for any computation that is simulated by their sequence. -/
theorem Implements.combine {l : Sem (Fault F) (VM F S) Unit} (hm : Implements hidden m a)
    (hn : Implements hidden n b) (hl : ∀ (d : Difference F) (N : Set String) m' n',
      Simulates d N m m' → Simulates d N n n' → Simulates d N l (m' >>= fun _ => n')) :
    Implements hidden l (.seq a b) := by
  intro P pos h
  obtain ⟨m', hmseg, hmsim⟩ := hm P pos h.left
  obtain ⟨n', hnseg, hnsim⟩ := hn P _ h.right
  have hlen : (Code.seq a b pos).length =
      (a pos).length + (b (pos + (a pos).length)).length := List.length_append
  refine ⟨m' >>= fun _ => n', ?_, fun d hd => ?_⟩
  · rw [hlen, ← Nat.add_assoc]
    exact hmseg.bind fun _ => hnseg
  · rw [hlen]
    exact hl d _ m' n' ((hmsim d hd).mono (temporaries_mono (by omega) (by omega)))
      ((hnsim d hd).mono (temporaries_mono (by omega) (by omega)))

theorem Implements.seq (hm : Implements hidden m a) (hn : Implements hidden n b) :
    Implements hidden (m >>= fun _ => n) (.seq a b) :=
  hm.combine hn fun _ _ _ _ hm' hn' => hm'.bind fun _ => hn'

/-! ### Conditions -/

/-- A computation followed by popping a condition. -/
def testing (m : Sem (Fault F) (VM F S) Unit) : Sem (Fault F) (VM F S) Bool :=
  m >>= fun _ => ends popTest

theorem limit_test [SerdeJson] (ops : List (Op F)) :
    VM.limit.test ops = testing (VM.run ops : Sem (Fault F) (VM F S) Unit) := by
  simp [VM.Runner.test, testing, popTest]

omit [StorageBackend S] in
theorem popTest_simulates {d : Difference F} {N : Set String} :
    Simulates d N (ends (popTest : Exec F S Bool)) (ends popTest) := by
  simp only [popTest, ends_bind, ends_pure]
  exact (onStack_simulates framing_pop).bind fun _ => .pure _

/-- A condition and the jump that follows it. -/
theorem Implements.test (hm : Implements hidden m c) {P : BytecodeProgram F} {pos exit : Nat}
    {rest : List (BytecodeOp F)} (h : CodeAt P pos (c pos ++ .jumpIfZero exit :: rest)) :
    ∃ test', Machine.Segment (positions P) 1 pos test'
        (fun b => bif b then pos + (c pos).length + 1 else exit) ∧
      ∀ d : Difference F, d.hidden = hidden →
        Simulates d (temporaries pos (pos + (c pos).length)) (testing m) test' := by
  obtain ⟨m', hseg, hsim⟩ := hm P pos h.left
  refine ⟨testing m', hseg.bind fun _ => segment_jumpIfZero h.right.fetch, fun d hd => ?_⟩
  exact (hsim d hd).bind fun _ => popTest_simulates

theorem Implements.ifThen (hc : Implements hidden m c) (hn : Implements hidden n a) :
    Implements hidden (testing m >>= fun b => if b then n else pure ()) (.ifThen c a) := by
  intro P pos h
  obtain ⟨test', htseg, htsim⟩ := hc.test h
  obtain ⟨n', hnseg, hnsim⟩ := hn P _ h.right.tail
  have hlen : (Code.ifThen c a pos).length =
      (c pos).length + 1 + (a (pos + (c pos).length + 1)).length := by
    simp [Code.ifThen, Nat.add_assoc, Nat.add_comm]
  refine ⟨test' >>= fun b => if b then n' else pure (), ?_, fun d hd => ?_⟩
  · rw [hlen, ← Nat.add_assoc, ← Nat.add_assoc]
    refine htseg.andThen fun b => ?_
    cases b with
    | true => exact hnseg
    | false => exact .pure () fun _ => _
  · rw [hlen]
    refine ((htsim d hd).mono (temporaries_mono (by omega) (by omega))).bind fun b => ?_
    cases b with
    | true => exact (hnsim d hd).mono (temporaries_mono (by omega) (by omega))
    | false => exact .pure ()

theorem Implements.ifThenElse (hc : Implements hidden m c) (hn : Implements hidden n a)
    {e : Sem (Fault F) (VM F S) Unit} (he : Implements hidden e b) :
    Implements hidden (testing m >>= fun t => if t then n else e) (.ifThenElse c a b) := by
  intro P pos h
  obtain ⟨test', htseg, htsim⟩ := hc.test h
  have h₁ := h.right.tail
  obtain ⟨n', hnseg, hnsim⟩ := hn P _ h₁.left
  obtain ⟨e', heseg, hesim⟩ := he P _ h₁.right.tail
  have hjump := segment_jump (S := S) h₁.right.fetch
  have hlen : (Code.ifThenElse c a b pos).length =
      (c pos).length + 1 + (a (pos + (c pos).length + 1)).length + 1 +
        (b (pos + (c pos).length + 1 + (a (pos + (c pos).length + 1)).length + 1)).length := by
    simp [Code.ifThenElse, Nat.add_assoc, Nat.add_comm, Nat.add_left_comm]
  refine ⟨test' >>= fun t => if t then n' else e', ?_, fun d hd => ?_⟩
  · rw [hlen]
    simp only [← Nat.add_assoc]
    refine htseg.andThen fun t => ?_
    cases t with
    | true =>
      have hthen := hnseg.andThen fun _ => hjump.weaken (Nat.zero_le _)
      rw [bind_pure] at hthen
      exact hthen
    | false => exact heseg
  · rw [hlen]
    refine ((htsim d hd).mono (temporaries_mono (by omega) (by omega))).bind fun t => ?_
    cases t with
    | true => exact (hnsim d hd).mono (temporaries_mono (by omega) (by omega))
    | false => exact (hesim d hd).mono (temporaries_mono (by omega) (by omega))

theorem Implements.whileLoop (hc : Implements hidden m c) (hn : Implements hidden n b) :
    Implements hidden (Sem.whileDo (testing m) n) (.whileLoop c b) := by
  intro P pos h
  obtain ⟨test', htseg, htsim⟩ := hc.test h
  have h₁ := h.right.tail
  obtain ⟨n', hnseg, hnsim⟩ := hn P _ h₁.left
  have hjump := segment_jump (S := S) h₁.right.fetch
  have hlen : (Code.whileLoop c b pos).length =
      (c pos).length + 1 + (b (pos + (c pos).length + 1)).length + 1 := by
    simp [Code.whileLoop]
    omega
  refine ⟨Sem.whileDo test' n', ?_, fun d hd => ?_⟩
  · have hbody := hnseg.andThen fun _ => hjump.weaken (Nat.zero_le _)
    rw [bind_pure] at hbody
    rw [hlen]
    simp only [← Nat.add_assoc]
    exact .whileDo htseg hbody
  · rw [hlen]
    exact ((htsim d hd).mono (temporaries_mono (by omega) (by omega))).whileDo
      ((hnsim d hd).mono (temporaries_mono (by omega) (by omega)))

theorem Implements.unrolled (hm : Implements hidden m a) (count : Nat) :
    Implements hidden (repeatM m count) (.unrolled a count) := by
  induction count with
  | zero => exact .nil
  | succ count ih => exact hm.seq ih

/-! ### Straight-line code on known values -/

omit [Number F] [StorageBackend S] in
theorem binary_apply {f : TypedValue F → TypedValue F → Except (VMError F) (TypedValue F)}
    {v w u : TypedValue F} (hf : f v w = .ok u) (vm : VM F S) (s : VMStack F) :
    VM.binary f { vm with stack := w :: v :: s } = .ok () { vm with stack := u :: s } := by
  have hpop : VM.popTwo { vm with stack := w :: v :: s } = .ok (v, w) { vm with stack := s } := rfl
  have hresult : VM.ofExcept (f v w) { vm with stack := s } = .ok u { vm with stack := s } := by
    rw [hf]
    rfl
  rw [VM.binary, Comp.bind_of_ok hpop]
  exact Comp.bind_of_ok hresult

/-- `Load name` on the stack. -/
def loadVar (name : String) : Exec F S Unit := do
  let value ← VM.load name
  VM.push value

/-- `Store name` from the stack. -/
def storeVar (name : String) : Exec F S Unit := do
  let value ← VM.pop
  VM.store name value

omit [Number F] [StorageBackend S] in
theorem loadVar_definite (name : String) : (loadVar name : Exec F S Unit).Definite :=
  Comp.Definite.bind (fun vm => ofExcept_definite _ vm) fun v => onStack_definite (framing_push v)

omit [Number F] [StorageBackend S] in
theorem storeVar_definite (name : String) : (storeVar name : Exec F S Unit).Definite :=
  (onStack_definite framing_pop).bind fun _ _ _ hfuel => (by cases hfuel)

omit [Number F] [StorageBackend S] in
theorem loadVar_apply {vm : VM F S} {name : String} {v : TypedValue F}
    (h : vm.memory.1.scope.lookup name = some v) :
    loadVar name vm = .ok () { vm with stack := v :: vm.stack } := by
  have hload : VM.load name vm = .ok v vm := by
    simp [VM.load, VMMemory.load_eq_scope vm.memory.2, h, VM.ofExcept]
  rw [loadVar, Comp.bind_of_ok hload]
  rfl

/-- A variable gets its first value. -/
def initVar (name : String) (v : TypedValue F) : Exec F S Unit := do
  VM.push v
  storeVar name

/-- The value of a variable is compared with `w`. -/
def compareVar (name : String) (w : TypedValue F)
    (f : TypedValue F → TypedValue F → Except (VMError F) (TypedValue F)) : Exec F S Bool := do
  loadVar name
  VM.push w
  VM.binary f
  popTest

omit [StorageBackend S] in
theorem compareVar_apply {vm : VM F S} {name : String} {v w u : TypedValue F}
    {f : TypedValue F → TypedValue F → Except (VMError F) (TypedValue F)}
    (h : vm.memory.1.scope.lookup name = some v) (hf : f v w = .ok u) :
    compareVar name w f vm = .ok (!u.isFalsey) vm := by
  rw [compareVar, Comp.bind_of_ok (loadVar_apply h), Comp.bind_of_ok (VM.push_apply w _),
    Comp.bind_of_ok (binary_apply hf vm vm.stack)]
  rfl

/-- The counter of a loop is decremented. -/
def decrementVar (name : String) : Exec F S Unit := do
  loadVar name
  VM.push (.number (Number.ofNat 1))
  VM.binary (executeArithmetic .sub)
  storeVar name

omit [StorageBackend S] in
theorem decrementVar_number {vm : VM F S} {name : String} {x : F}
    (h : vm.memory.1.scope.lookup name = some (.number x)) :
    decrementVar name vm =
      .ok () (vm.stored name (.number (Number.sub x (Number.ofNat 1)))) := by
  have hsub : executeArithmetic .sub (.number x : TypedValue F) (.number (Number.ofNat 1)) =
      .ok (.number (Number.sub x (Number.ofNat 1))) := rfl
  rw [decrementVar, Comp.bind_of_ok (loadVar_apply h), Comp.bind_of_ok (VM.push_apply _ _),
    Comp.bind_of_ok (binary_apply hsub vm vm.stack)]
  rfl

omit [StorageBackend S] in
theorem decrementVar_apply [CountsDown F] {vm : VM F S} {name : String} {k : Nat}
    (h : vm.memory.1.scope.lookup name = some (.number (Number.ofNat (k + 1))))
    (hk : k + 1 < 2 ^ 53) :
    decrementVar name vm = .ok () (vm.stored name (.number (Number.ofNat k))) := by
  rw [decrementVar_number h, CountsDown.sub_one k hk]

section segments
variable {P : BytecodeProgram F} {pos : Nat} {name : String} {rest : List (BytecodeOp F)}

theorem initVar_segment {v : TypedValue F} (h : CodeAt P pos (.push v :: .store name :: rest)) :
    Machine.Segment (positions P) 2 pos (ends (initVar name v : Exec F S Unit))
      fun _ => pos + 2 := by
  have hpush : Machine.Segment (positions P) 1 pos (ends (VM.push v : Exec F S Unit))
      fun _ => pos + 1 := segment_onVm h.fetch rfl (onStack_definite (framing_push v))
  have hstore : Machine.Segment (positions P) 1 (pos + 1) (ends (storeVar name : Exec F S Unit))
      fun _ => pos + 2 := segment_onVm h.tail.fetch rfl (storeVar_definite name)
  exact hpush.endsBind fun _ => hstore

theorem compareVar_segment {w : TypedValue F} {i : BytecodeOp F} {exit : Nat}
    {f : TypedValue F → TypedValue F → Except (VMError F) (TypedValue F)}
    (hi : executeOnVm i = some (VM.binary f : Exec F S Unit))
    (h : CodeAt P pos (.load name :: .push w :: i :: .jumpIfZero exit :: rest)) :
    Machine.Segment (positions P) 1 pos (ends (compareVar name w f : Exec F S Bool))
      fun b => bif b then pos + 4 else exit := by
  have hload : Machine.Segment (positions P) 1 pos (ends (loadVar name : Exec F S Unit))
      fun _ => pos + 1 := segment_onVm h.fetch rfl (loadVar_definite name)
  have hpush : Machine.Segment (positions P) 1 (pos + 1) (ends (VM.push w : Exec F S Unit))
      fun _ => pos + 2 := segment_onVm h.tail.fetch rfl (onStack_definite (framing_push w))
  have hcompare := segment_onVm (S := S) h.tail.tail.fetch hi (binary_definite f)
  have hjump := segment_jumpIfZero (S := S) h.tail.tail.tail.fetch
  exact (hload.endsBind fun _ => hpush.endsBind fun _ => hcompare.endsBind fun _ => hjump).weaken
    (by omega)

theorem decrementVar_segment
    (h : CodeAt P pos (.load name :: .push (.number (Number.ofNat 1)) :: .sub :: .store name :: rest)) :
    Machine.Segment (positions P) 0 pos (ends (decrementVar name : Exec F S Unit))
      fun _ => pos + 4 := by
  have hload : Machine.Segment (positions P) 1 pos (ends (loadVar name : Exec F S Unit))
      fun _ => pos + 1 := segment_onVm h.fetch rfl (loadVar_definite name)
  have hpush := segment_onVm (S := S) h.tail.fetch rfl (onStack_definite (framing_push _))
  have hsub := segment_onVm (S := S) h.tail.tail.fetch rfl (binary_definite _)
  have hstore : Machine.Segment (positions P) 1 (pos + 3) (ends (storeVar name : Exec F S Unit))
      fun _ => pos + 4 := segment_onVm h.tail.tail.tail.fetch rfl (storeVar_definite name)
  exact (hload.endsBind fun _ => hpush.endsBind fun _ => hsub.endsBind fun _ => hstore).weaken
    (by omega)

end segments

/-! ### Variables of the compiler -/

section keeping
variable {d : Difference F} {N Nbody : Set String} {held : String → Option (TypedValue F)}
  {name : String} {v : TypedValue F} {vm vm' : VM F S} {α : Type}

/-- The second VM keeps `v` in the hidden variable `name`. -/
def Keeping (d : Difference F) (N : Set String) (held : String → Option (TypedValue F))
    (name : String) (v : TypedValue F) (vm vm' : VM F S) : Prop :=
  Matches d vm vm' ∧ Holds d N held vm' ∧ vm'.memory.1.scope.lookup name = some v

omit [Number F] [StorageBackend S] in
theorem keeping_stored (hm : Matches d vm vm') (hh : Holds d N held vm') (hvar : name ∈ d.hidden)
    (hin : name ∈ N) (v : TypedValue F) : Keeping d N held name v vm (vm'.stored name v) := by
  refine ⟨hm.storedRight hvar v, fun other hother hout => ?_, ?_⟩
  · have hne : other ≠ name := fun h => hout (h ▸ hin)
    rw [VM.scope_stored, Finmap.lookup_insert_of_ne _ hne]
    exact hh other hother hout
  · rw [VM.scope_stored, Finmap.lookup_insert]

omit [Number F] [StorageBackend S] in
/-- A body that does not write the variable keeps it. -/
theorem Simulates.keeping {m m' : Sem (Fault F) (VM F S) α} (hm : Simulates d Nbody m m')
    (hsub : Nbody ⊆ N) (hvar : name ∈ d.hidden) (hout : name ∉ Nbody) :
    Sim d.escape (Matches d) (Keeping d N held name v) (fun _ => Keeping d N held name v) m m' := by
  refine hm.conseq fun vm vm' ⟨hmatch, hheld, hlookup⟩ => ⟨hmatch, fun _ w w' hmatch' hheld' => ?_⟩
  refine ⟨hmatch', fun other hother hnot => ?_, ?_⟩
  · exact (hheld' other hother fun h => hnot (hsub h)).trans (hheld other hother hnot)
  · exact (hheld' name hvar hout).trans hlookup

end keeping

/-! ### Counted loops -/

section counted
variable [CountsDown F] {d : Difference F} {N Nbody : Set String} {counterVar : String}

omit [StorageBackend S] in
/-- The counter of a loop is a hidden variable with the number of rounds to go. -/
theorem countdown_simulates {m m' : Sem (Fault F) (VM F S) Unit} {count : Nat}
    (hm : Simulates d Nbody m m') (hsub : Nbody ⊆ N) (hvar : counterVar ∈ d.hidden)
    (hin : counterVar ∈ N) (hout : counterVar ∉ Nbody) (hcount : count < 2 ^ 53) :
    Simulates d N (repeatM m count) (ends (initVar counterVar (.number (Number.ofNat count))) >>=
      fun _ => Sem.whileDo
        (ends (compareVar counterVar (.number (Number.ofNat 0)) (executeComparison .gt)))
        (m' >>= fun _ => ends (decrementVar counterVar))) := by
  intro held
  let C (k : Nat) : VM F S → VM F S → Prop :=
    Keeping d N held counterVar (.number (Number.ofNat k))
  have htest (k : Nat) (hk : k ≤ count) (vm vm' : VM F S) (h : C k vm vm') :
      ∃ vm₁, (∀ r, ends (compareVar counterVar (.number (Number.ofNat 0))
        (executeComparison .gt)) vm' r ↔ r = .ok (decide (0 < k)) vm₁) ∧ C k vm vm₁ := by
    have hgt : executeComparison .gt (.number (Number.ofNat k) : TypedValue F)
        (.number (Number.ofNat 0)) = .ok (.boolean (decide (0 < k))) := by
      rw [← CountsDown.gt_zero (F := F) k (by omega)]
      rfl
    have happly := compareVar_apply h.2.2 hgt
    simp only [TypedValue.isFalsey, Bool.not_not] at happly
    exact ⟨vm', ends_iff_of_ok happly, h⟩
  have hbody (k : Nat) (hk : k < count) : Sim d.escape (Matches d) (C (k + 1)) (fun _ => C k)
      m (m' >>= fun _ => ends (decrementVar counterVar)) := by
    rw [← bind_pure m]
    refine (hm.keeping hsub hvar hout).bind fun _ => ?_
    rw [← bind_pure (ends (decrementVar counterVar))]
    refine .right (b := ()) (R := C k) (fun vm vm' h => ?_) (.pure fun _ _ h => h)
    exact ⟨_, ends_iff_of_ok (decrementVar_apply h.2.2 (by omega)),
      keeping_stored h.1 h.2.1 hvar hin _⟩
  refine .right (b := ()) (R := C count) (fun vm vm' ⟨hmatch, hheld⟩ => ?_) ?_
  · exact ⟨_, ends_iff_of_ok rfl, keeping_stored hmatch hheld hvar hin _⟩
  · exact (Sim.countdown htest hbody).mono (fun _ _ h => h) fun _ _ _ h => ⟨h.1, h.2.1⟩

theorem Implements.countedLoop (hm : Implements allTemporaries m b) {count : Nat}
    (hcount : count < 2 ^ 53) :
    Implements allTemporaries (repeatM m count) (.countedLoop count b) := by
  intro P pos h
  have hbody : CodeAt P (pos + 6) _ := h.tail.tail.tail.tail.tail.tail
  obtain ⟨m', hseg, hsim⟩ := hm P (pos + 6) hbody.left
  have hlen : (Code.countedLoop count b pos).length = 6 + (b (pos + 6)).length + 5 := by
    simp [Code.countedLoop]
    omega
  have htest := compareVar_segment (S := S) rfl h.tail.tail
  have hstep := decrementVar_segment (S := S) hbody.right
  have hjump := segment_jump (S := S) hbody.right.tail.tail.tail.tail.fetch
  have hround := (hseg.andThen fun _ => hstep).andThen fun _ => hjump.weaken (Nat.zero_le _)
  rw [bind_pure] at hround
  have hloop := (initVar_segment (S := S) h).andThen fun _ => Machine.Segment.whileDo htest hround
  rw [show pos + (b (pos + 6)).length + 11 = pos + (Code.countedLoop count b pos).length by omega]
    at hloop
  refine ⟨_, hloop, fun d hd => ?_⟩
  have hvar : loopCounter (pos + 1) ∈ d.hidden := by
    rw [hd]
    exact ⟨pos + 1, .inl rfl⟩
  refine countdown_simulates (hsim d hd) ?_ hvar ?_ ?_ hcount
  · exact temporaries_mono (by omega) (by omega)
  · exact loopCounter_mem_temporaries.mpr ⟨by omega, by omega⟩
  · rw [loopCounter_mem_temporaries]
    omega

end counted

/-! ### Matches -/

/-- The compiled comparison decides whether a case matches. -/
theorem executeComparison_eq (v w : TypedValue F) :
    executeComparison .eq v w = .ok (.boolean (VM.matchesCase v w)) := by
  obtain ⟨b, hb⟩ := v.equals_ok w
  simp only [executeComparison, VM.matchesCase, hb]
  cases b <;> rfl

section matching
variable [SerdeJson] {P : BytecodeProgram F} {N : Set String} {name : String} {target : Nat}
  {default : Option (List (Op F))} {cases : List (TypedValue F × List (Op F))}
  {arms : List (TypedValue F × Code F)}

/-- `m'` simulates `m` while the variable `name` keeps `v`. -/
def SimulatesKeeping (N : Set String) (name : String) (v : TypedValue F)
    (m m' : Sem (Fault F) (VM F S) Unit) : Prop :=
  ∀ d : Difference F, d.hidden = allTemporaries → ∀ held, Sim d.escape (Matches d)
    (Keeping d N held name v) (fun _ => Keeping d N held name v) m m'

/-- The cases of a match, given what follows them. -/
theorem cases_segment {lo pos after n : Nat} {e' : Sem (Fault F) (VM F S) Unit}
    (h : CodeAt P pos (Code.cases (matchValue n) target arms pos))
    (hafter : after = pos + (Code.cases (matchValue n) 0 arms pos).length)
    (hlo : lo ≤ pos) (hn : n < pos) (hN : temporaries lo after ⊆ N)
    (hcases : List.Forall₂ (fun x y => x.1 = y.1 ∧
      Implements allTemporaries (VM.run x.2 : Sem (Fault F) (VM F S) Unit) y.2) cases arms)
    (heseg : Machine.Segment (positions P) 0 after e' fun _ => target)
    (hesim : ∀ v, SimulatesKeeping N (matchValue n) v
      (VM.limit.optional default) e') :
    ∃ m' : Sem (Fault F) (VM F S) Unit,
      Machine.Segment (positions P) 0 pos m' (fun _ => target) ∧
      ∀ v, SimulatesKeeping N (matchValue n) v
        (VM.limit.optional (VM.selectCase v cases default)) m' := by
  induction hcases generalizing pos with
  | nil =>
    obtain rfl : after = pos := hafter
    exact ⟨e', heseg, hesim⟩
  | @cons x y cases arms hxy _ ih =>
    obtain ⟨w, ops⟩ := x
    obtain ⟨w', b⟩ := y
    obtain ⟨rfl, hbody⟩ : w = w' ∧ Implements allTemporaries (VM.run ops) b := hxy
    have hlen : (Code.cases (matchValue n) 0 ((w, b) :: arms) pos).length =
        (b (pos + 4)).length + 5 + (Code.cases (matchValue n) 0 arms
          (pos + (b (pos + 4)).length + 5)).length := by
      simp [Code.cases]
      omega
    have h₄ : CodeAt P (pos + 4) _ := h.tail.tail.tail.tail
    obtain ⟨body', hbseg, hbsim⟩ := hbody P (pos + 4) h₄.left
    have hrest := h₄.right.tail
    rw [show pos + 4 + (b (pos + 4)).length + 1 = pos + (b (pos + 4)).length + 5 by omega] at hrest
    obtain ⟨rest', hrseg, hrsim⟩ := ih hrest (by omega) (by omega) (by omega)
    have htest := compareVar_segment (S := S) rfl h
    have hjump := segment_jump (S := S) h₄.right.fetch
    have hcase := hbseg.andThen fun _ => hjump.weaken (Nat.zero_le _)
    rw [bind_pure] at hcase
    refine ⟨ends (compareVar (matchValue n) w (executeComparison .eq)) >>=
      fun t => if t then body' else rest', htest.andThen fun t => ?_, fun v d hd held => ?_⟩
    · cases t with
      | true => exact hcase
      | false => exact hrseg
    · refine .right (b := VM.matchesCase v w) (R := Keeping d N held (matchValue n) v)
        (fun vm vm' hkeep => ?_) ?_
      · have happly := compareVar_apply hkeep.2.2 (executeComparison_eq v w)
        simp only [TypedValue.isFalsey, Bool.not_not] at happly
        exact ⟨vm', ends_iff_of_ok happly, hkeep⟩
      · cases hmatch : VM.matchesCase v w with
        | true =>
          simp only [VM.selectCase, hmatch, if_true]
          refine (hbsim d hd).keeping ?_ ?_ ?_
          · exact (temporaries_mono (by omega) (by omega)).trans hN
          · rw [hd]
            exact ⟨n, .inr rfl⟩
          · rw [matchValue_mem_temporaries]
            omega
        | false =>
          simp only [VM.selectCase, hmatch, Bool.false_eq_true, if_false]
          exact hrsim v d hd held

theorem Implements.matchOn {value : Sem (Fault F) (VM F S) Unit} {defaultCode : Option (Code F)}
    (hvalue : Implements allTemporaries value c)
    (hcases : List.Forall₂ (fun x y => x.1 = y.1 ∧
      Implements allTemporaries (VM.run x.2 : Sem (Fault F) (VM F S) Unit) y.2) cases arms)
    (hdefault : Implements allTemporaries (VM.limit.optional default : Sem (Fault F) (VM F S) Unit)
      (Code.orNil defaultCode)) :
    Implements allTemporaries (value >>= fun _ => ends VM.pop >>= fun v =>
      VM.limit.optional (VM.selectCase v cases default)) (.matchOn c arms defaultCode) := by
  intro P pos h
  obtain ⟨value', hvseg, hvsim⟩ := hvalue P pos h.left
  have hstore : Machine.Segment (positions P) 1 _ (ends (storeVar _ : Exec F S Unit)) fun _ => _ :=
    segment_onVm h.right.fetch rfl (storeVar_definite _)
  have hrest := h.right.tail
  have hdefaultCode := hrest.right
  rw [Code.cases_length] at hdefaultCode
  obtain ⟨default', hdseg, hdsim⟩ := hdefault P _ hdefaultCode
  have hlen : (Code.matchOn c arms defaultCode pos).length = (c pos).length + 1 +
      (Code.cases (matchValue (pos + (c pos).length)) 0 arms
        (pos + (c pos).length + 1)).length +
      (Code.orNil defaultCode (pos + (c pos).length + 1 +
        (Code.cases (matchValue (pos + (c pos).length)) 0 arms
          (pos + (c pos).length + 1)).length)).length := by
    simp [Code.matchOn]
    omega
  generalize hN : temporaries pos (pos + (Code.matchOn c arms defaultCode pos).length) = N
  obtain ⟨cases', hcseg, hcsim⟩ := cases_segment (N := N) hrest.left rfl (Nat.le_refl _)
    (Nat.lt_succ_self _) (hN ▸ temporaries_mono (by omega) (by omega)) hcases hdseg
    fun v d hd held => (hdsim d hd).keeping (hN ▸ temporaries_mono (by omega) (by omega))
      (hd ▸ ⟨_, .inr rfl⟩) (by rw [matchValue_mem_temporaries]; omega)
  refine ⟨value' >>= fun _ => ends (storeVar (matchValue (pos + (c pos).length))) >>=
    fun _ => cases', ?_, fun d hd => ?_⟩
  · rw [hlen]
    simp only [← Nat.add_assoc]
    exact hvseg.andThen fun _ => hstore.andThen fun _ => hcseg
  · refine ((hvsim d hd).mono (hN ▸ temporaries_mono (by omega) (by omega))).bind fun _ => ?_
    simp only [storeVar, ends_bind, bind_assoc]
    refine fun held => ((onStack_simulates framing_pop) held).bind fun v => ?_
    refine .right (b := ()) (R := Keeping d N held (matchValue (pos + (c pos).length)) v)
      (fun vm vm' h => ⟨_, ends_iff_of_ok rfl, ?_⟩) ?_
    · refine keeping_stored h.1 h.2 (hd ▸ ⟨_, .inr rfl⟩) ?_ v
      rw [← hN, matchValue_mem_temporaries]
      omega
    · exact (hcsim v d hd held).mono (fun _ _ h => h) fun _ _ _ h => ⟨h.1, h.2.1⟩

end matching

/-! ### Blocks -/

section blocks
variable [SerdeJson] (table : HashMap Nat)

/-- The code of an operation does what the operation does, and falls through. -/
def OpImplements (S : Type) [StorageBackend S] (hidden : Set String) (op : Op F) : Prop :=
  ∃ m : Sem (Fault F) (VM F S) Unit, VM.limit.flow op = m >>= (fun _ => pure .next) ∧
    VM.isSimulated op = false ∧ Implements hidden m (codeOp table op)

variable {table}

theorem block_implements {ops : List (Op F)} (h : ∀ op ∈ ops, OpImplements table S hidden op) :
    Implements hidden (VM.run ops : Sem (Fault F) (VM F S) Unit) (codeOps table ops) := by
  induction ops with
  | nil =>
    rw [VM.run_nil]
    exact .nil
  | cons op ops ih =>
    obtain ⟨m, hflow, hsimulated, hm⟩ := h op List.mem_cons_self
    have hops := ih fun op' hop' => h op' (List.mem_cons_of_mem _ hop')
    rw [VM.run_cons]
    exact hm.combine hops fun d N m' n' => next_simulates hflow hsimulated

theorem simple_implements {op : Op F} (h : op.Simple hidden) : OpImplements table S hidden op := by
  obtain ⟨x, i, hbasic, hinstr, honVm, hdef, hsim⟩ := simple_lowered (S := S) h
  refine ⟨ends x, VM.flow_of_basic hbasic, isSimulated_of_simple h, ?_⟩
  rw [codeOp_of_instruction hinstr]
  exact .one honVm hdef hsim

end blocks

end implements

/-! ### The structured fragment -/

/-- The operations built from simple ones and those in `extra`: no loop is lowered to a counter on
the stack, counts are exact as numbers, and no variable has the name of a temporary. -/
inductive Op.StructuredWith {F : Type} (extra : Op F → Prop) : Op F → Prop
  | extra {op : Op F} : extra op → StructuredWith extra op
  | simple {op : Op F} : op.Simple allTemporaries → StructuredWith extra op
  | ifOp {condition thenOps : List (Op F)} {elseOps : Option (List (Op F))} :
      (∀ op ∈ condition, StructuredWith extra op) → (∀ op ∈ thenOps, StructuredWith extra op) →
      (∀ ops ∈ elseOps, ∀ op ∈ ops, StructuredWith extra op) →
      StructuredWith extra (.ifOp condition thenOps elseOps)
  | whileOp {condition body : List (Op F)} :
      (∀ op ∈ condition, StructuredWith extra op) → (∀ op ∈ body, StructuredWith extra op) →
      StructuredWith extra (.whileOp condition body)
  | loop {count : Nat} {body : List (Op F)} :
      ¬ (count = 1000 ∧ body.length ≤ 5) → count < 2 ^ 53 →
      (∀ op ∈ body, StructuredWith extra op) → StructuredWith extra (.loop count body)
  | matchOp {value : List (Op F)} {cases : List (TypedValue F × List (Op F))}
      {default : Option (List (Op F))} :
      (∀ op ∈ value, StructuredWith extra op) →
      (∀ arm ∈ cases, ∀ op ∈ arm.2, StructuredWith extra op) →
      (∀ ops ∈ default, ∀ op ∈ ops, StructuredWith extra op) →
      StructuredWith extra (.matchOp value cases default)

/-- The operations the compiler is correct for. -/
abbrev Op.Structured {F : Type} : Op F → Prop := Op.StructuredWith fun _ => False

section correctness
variable {F S : Type} [Number F] [StorageBackend S] [SerdeJson]

/-- The code of the cases of a match implements them. -/
theorem arms_implement {table : HashMap Nat} {cases : List (TypedValue F × List (Op F))}
    (h : ∀ arm ∈ cases, ∀ op ∈ arm.2, OpImplements table S allTemporaries op) :
    List.Forall₂ (fun x y => x.1 = y.1 ∧
      Implements allTemporaries (VM.run x.2 : Sem (Fault F) (VM F S) Unit) y.2)
      cases (codeArms table cases) := by
  induction cases with
  | nil => exact .nil
  | cons arm cases ih =>
    refine .cons ⟨rfl, block_implements (h arm List.mem_cons_self)⟩ ?_
    exact ih fun arm' harm' => h arm' (List.mem_cons_of_mem _ harm')

/-- So does the code of a block that may be missing. -/
theorem optional_implements {table : HashMap Nat} {block : Option (List (Op F))}
    (h : ∀ ops ∈ block, ∀ op ∈ ops, OpImplements table S allTemporaries op) :
    Implements allTemporaries (VM.limit.optional block : Sem (Fault F) (VM F S) Unit)
      (Code.orNil (codeOptional table block)) := by
  cases block with
  | none => exact .nil
  | some ops => exact block_implements (h ops rfl)

/-- An `If`, in terms of the test of its condition. -/
theorem flow_ifOp (condition thenOps : List (Op F)) (elseOps : Option (List (Op F))) :
    VM.limit.flow (.ifOp condition thenOps elseOps) =
      (testing (VM.run condition) >>= fun b =>
        if b then VM.run thenOps else VM.limit.optional elseOps :
          Sem (Fault F) (VM F S) Unit) >>= fun _ => pure .next := by
  rw [bind_assoc]
  simp only [VM.Runner.flow, limit_test]
  congr
  funext b
  cases b <;> rfl

variable [CountsDown F]

theorem structured_implements {table : HashMap Nat} {op : Op F} (h : op.Structured) :
    OpImplements table S allTemporaries op := by
  induction h with
  | extra h => exact h.elim
  | simple h => exact simple_implements h
  | @ifOp condition thenOps elseOps _ _ _ ihc iht ihe =>
    have hc := block_implements ihc
    have ht := block_implements iht
    cases elseOps with
    | none => exact ⟨_, flow_ifOp condition thenOps none, rfl, hc.ifThen ht⟩
    | some elseOps =>
      have he := block_implements (ihe elseOps rfl)
      exact ⟨_, flow_ifOp condition thenOps (some elseOps), rfl, hc.ifThenElse ht he⟩
  | @whileOp condition body _ _ ihc ihb =>
    refine ⟨_, ?_, rfl, (block_implements ihc).whileLoop (block_implements ihb)⟩
    simp [VM.Runner.flow, limit_test]
  | @loop count body hcount hlt _ ih =>
    have hb := block_implements ih
    refine ⟨repeatM (VM.run body) count, by simp [VM.Runner.flow], rfl, ?_⟩
    show Implements _ _ (Code.loop count body.length (codeOps table body))
    unfold Code.loop
    split
    · exact hb.unrolled count
    · exact hb.countedLoop hlt
  | @matchOp value cases default _ _ _ ihv iha ihd =>
    refine ⟨_, ?_, rfl, (block_implements ihv).matchOn (arms_implement iha)
      (optional_implements ihd)⟩
    simp [VM.Runner.flow]

/-! ### Programs -/

/-- The same stack, output, events, storage and memory, up to the hidden variables of the current
scope. -/
structure SameResult (hidden : Set String) (vm vm' : VM F S) : Prop where
  stack : vm'.stack = vm.stack
  executor : vm'.executor = vm.executor
  memory : vm'.memory.1 = vm.memory.1.setScope vm'.memory.1.scope
  vars : ∀ name ∉ hidden, vm'.memory.1.scope.lookup name = vm.memory.1.scope.lookup name

/-- One run ends with a result exactly if the other one ends with the same result, and with an
error exactly if the other one ends with the same error. -/
structure SameOutcomes (hidden : Set String) (r r' : Outcome (Fault F) (VM F S) Unit → Prop) :
    Prop where
  forth : ∀ vm₁, r (.ok () vm₁) → ∃ vm₂, r' (.ok () vm₂) ∧ SameResult hidden vm₁ vm₂
  back : ∀ vm₂, r' (.ok () vm₂) → ∃ vm₁, r (.ok () vm₁) ∧ SameResult hidden vm₁ vm₂
  error : ∀ e, (∃ vm₁, r (.error e vm₁)) ↔ ∃ vm₂, r' (.error e vm₂)

/-- Nothing but variables differs. -/
def Difference.variables (hidden : Set String) : Difference F where
  hidden := hidden
  base := []
  escape _ := False
  guarded := .inl rfl

omit [Number F] [StorageBackend S] [SerdeJson] [CountsDown F] in
theorem Matches.refl {vm : VM F S} (hidden : Set String) (h : vm.explainEnabled = false) :
    Matches (.variables hidden) vm vm where
  silent := h
  stack := (List.append_nil _).symm
  executor := rfl
  memory := (VMMemory.setScope_scope vm.memory.1).symm
  vars _ _ := rfl

omit [Number F] [StorageBackend S] [SerdeJson] [CountsDown F] in
theorem Matches.sameResult {hidden : Set String} {vm vm' : VM F S}
    (h : Matches (.variables hidden) vm vm') : SameResult hidden vm vm' :=
  ⟨h.stack.trans (List.append_nil _), h.executor, h.memory, h.vars⟩

omit [Number F] [StorageBackend S] [SerdeJson] [CountsDown F] in
/-- A simulation without escapes, from one state. -/
theorem sameOutcomes_of_sim {hidden : Set String} {E P : VM F S → VM F S → Prop}
    {m m' : Sem (Fault F) (VM F S) Unit} {vm vm' : VM F S}
    (h : Sim (fun _ => False) E P (fun _ => SameResult hidden) m m') (hp : P vm vm') :
    SameOutcomes hidden (m vm) (m' vm') where
  forth vm₁ h₁ := by
    obtain ⟨r', h₂, hcor⟩ := h.exact_forth hp h₁
    cases hcor with | ok hq => exact ⟨_, h₂, hq⟩
  back vm₂ h₂ := by
    obtain ⟨r, h₁, hcor⟩ := h.exact_back hp h₂
    cases hcor with | ok hq => exact ⟨_, h₁, hq⟩
  error e := by
    constructor
    · rintro ⟨vm₁, h₁⟩
      obtain ⟨r', h₂, hcor⟩ := h.exact_forth hp h₁
      cases hcor with | error => exact ⟨_, h₂⟩
    · rintro ⟨vm₂, h₂⟩
      obtain ⟨r, h₁, hcor⟩ := h.exact_back hp h₂
      cases hcor with | error => exact ⟨_, h₁⟩

omit [SerdeJson] [CountsDown F] in
/-- Code that is a whole program is what the bytecode interpreter runs. -/
theorem run_of_segment {P : BytecodeProgram F} {m : Sem (Fault F) (VM F S) Unit}
    (h : Machine.Segment (positions P) 0 0 m fun _ => P.instructions.length) :
    BytecodeInterpreter.run P = m := by
  funext vm r
  refine propext (run_iff.trans (h.outcome_iff (fun vm => ?_)).symm)
  simp [machine, positions]

omit [CountsDown F] in
theorem run_compile_simulates {hidden : Set String} {ops : List (Op F)}
    (h : ∀ op ∈ ops, OpImplements (BytecodeCompiler.functionTable ops) S hidden op)
    (d : Difference F) (hd : d.hidden = hidden) : ∃ N, Simulates d N
      (VM.run ops : Sem (Fault F) (VM F S) Unit)
      (BytecodeInterpreter.run (BytecodeCompiler.compile ops)) := by
  have hcode := BytecodeCompiler.compile_instructions ops
  obtain ⟨m', hseg, hsim⟩ := block_implements h _ 0 (.whole hcode)
  rw [← hcode, Nat.zero_add] at hseg
  rw [run_of_segment hseg]
  exact ⟨_, hsim d hd⟩

omit [CountsDown F] in
theorem sameOutcomes_of_implements {hidden : Set String} {ops : List (Op F)}
    (h : ∀ op ∈ ops, OpImplements (BytecodeCompiler.functionTable ops) S hidden op)
    {vm : VM F S} (hvm : vm.explainEnabled = false) :
    SameOutcomes hidden (VM.run ops vm)
      (BytecodeInterpreter.run (BytecodeCompiler.compile ops) vm) := by
  obtain ⟨N, hsim⟩ := run_compile_simulates h (.variables hidden) rfl
  refine sameOutcomes_of_sim (P := fun v v' => v = vm ∧ v' = vm) (hsim.conseq ?_) ⟨rfl, rfl⟩
  rintro _ _ ⟨rfl, rfl⟩
  exact ⟨.refl hidden hvm, fun _ _ _ hm _ => hm.sameResult⟩

/-- The compiler is correct on the structured fragment. -/
theorem compile_correct {ops : List (Op F)} (hops : ∀ op ∈ ops, op.Structured) {vm : VM F S}
    (hvm : vm.explainEnabled = false) :
    SameOutcomes allTemporaries (VM.run ops vm)
      (BytecodeInterpreter.run (BytecodeCompiler.compile ops) vm) :=
  sameOutcomes_of_implements (fun op hop => structured_implements (hops op hop)) hvm

end correctness

/-- A program with a counted loop, a match and a conditional. -/
def tickingProgram : List (Op Binary64) :=
  [.loop 6 [.emit "tick"],
    .matchOp [.push (.string "a")] [(.string "a", [.push (.boolean true)])] none,
    .ifOp [.dup] [.emit "tock"] none]

theorem tickingProgram_structured : ∀ op ∈ tickingProgram, op.Structured := by
  intro op hop
  simp only [tickingProgram, List.mem_cons, List.not_mem_nil, or_false] at hop
  rcases hop with rfl | rfl | rfl
  · exact .loop (by decide) (by decide) (by simpa using .simple trivial)
  · exact .matchOp (by simpa using .simple trivial) (by simpa using .simple trivial) (by simp)
  · exact .ifOp (by simpa using .simple trivial) (by simpa using .simple trivial) (by simp)

/-- The compiled program ends as the program does. -/
theorem tickingProgram_compiled : ∃ vm',
    BytecodeInterpreter.run (BytecodeCompiler.compile tickingProgram) (VM.stackVm []) (.ok () vm') ∧
      vm'.stack = [.boolean true] ∧
      vm'.executor.output = "tick\ntick\ntick\ntick\ntick\ntick\ntock\n" := by
  have hrun : ∃ vm', VM.run tickingProgram (VM.stackVm []) (.ok () vm') ∧
      vm'.stack = [.boolean true] ∧
      vm'.executor.output = "tick\ntick\ntick\ntick\ntick\ntick\ntock\n" :=
    lim_of_endsIn 5 (by decide +kernel)
  obtain ⟨vm₁, h₁, hstack, houtput⟩ := hrun
  obtain ⟨vm₂, h₂, hsame⟩ := (compile_correct tickingProgram_structured rfl).forth vm₁ h₁
  exact ⟨vm₂, h₂, hsame.stack.trans hstack, by rw [hsame.executor, houtput]⟩

end Covm
