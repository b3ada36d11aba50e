import Covm.Bytecode.Correctness

/-!
# Loops with their counter on the stack

`Loop` with the count 1000 and a body of at most five operations is compiled to a loop that keeps its
counter on the operand stack, below whatever the body pushes. A body that takes more values than it
has pushed takes the counter, and one that leaves a value behind has it decremented in the counter's
place. The loop does what it should for a body that stays within a stack of its own
(`fastLoop_correct`).

The proof compares three runs: the plain loop on the given stack, the plain loop on an empty stack,
and the compiled loop, whose body runs on the second one's stack with the counter and the given stack
below it.
-/

namespace Covm

open Partial BytecodeInterpreter

section fast
variable {F S : Type} [Number F] [StorageBackend S]

/-! ### The compiled loop -/

/-- `counter > 0`, with the counter on top of the stack. -/
def counterTest : Exec F S Bool := do
  VM.onStack VMStack.dup
  VM.push (.number (Number.ofNat 0))
  VM.binary (executeComparison .gt)
  popTest

def decrementTop : Exec F S Unit := do
  VM.push (.number (Number.ofNat 1))
  VM.binary (executeArithmetic .sub)

def dropTop : Exec F S Unit := do
  let _ ← VM.pop

/-- What the code of the loop computes, given what the code of its body computes. -/
def stackLoop (count : Nat) (body : Sem (Fault F) (VM F S) Unit) : Sem (Fault F) (VM F S) Unit := do
  ends (VM.push (.number (Number.ofNat count)))
  Sem.whileDo (ends counterTest) (body >>= fun _ => ends decrementTop)
  ends dropTop

omit [StorageBackend S] in
theorem counterTest_number {vm : VM F S} {x : F} {s : VMStack F} (h : vm.stack = .number x :: s) :
    counterTest vm = .ok (Number.gt x (Number.ofNat 0)) vm := by
  have hgt : executeComparison .gt (.number x : TypedValue F) (.number (Number.ofNat 0)) =
      .ok (.boolean (Number.gt x (Number.ofNat 0))) := rfl
  have hdup : VM.onStack VMStack.dup vm = .ok () { vm with stack := .number x :: vm.stack } := by
    simp [VM.onStack, Comp.zoom, h, VMStack.dup]
  rw [counterTest, Comp.bind_of_ok hdup, Comp.bind_of_ok (VM.push_apply _ _),
    Comp.bind_of_ok (binary_apply hgt vm vm.stack)]
  simp [popTest, VM.pop, VM.onStack, VMStack.pop, Comp.zoom, Comp.bind_apply, TypedValue.isFalsey]

omit [StorageBackend S] in
theorem counterTest_apply [CountsDown F] {vm : VM F S} {k : Nat} {s : VMStack F}
    (h : vm.stack = .number (Number.ofNat k) :: s) (hk : k < 2 ^ 53) :
    counterTest vm = .ok (decide (0 < k)) vm := by
  rw [counterTest_number h, CountsDown.gt_zero k hk]

omit [StorageBackend S] in
theorem decrementTop_number {vm : VM F S} {x : F} {s : VMStack F} (h : vm.stack = .number x :: s) :
    decrementTop vm =
      .ok () { vm with stack := .number (Number.sub x (Number.ofNat 1)) :: s } := by
  have hsub : executeArithmetic .sub (.number x : TypedValue F) (.number (Number.ofNat 1)) =
      .ok (.number (Number.sub x (Number.ofNat 1))) := rfl
  have hpush : VM.push (.number (Number.ofNat 1)) vm = .ok () { vm with
      stack := .number (Number.ofNat 1) :: .number x :: s } := by
    rw [VM.push_apply, h]
  rw [decrementTop, Comp.bind_of_ok hpush, binary_apply hsub vm s]

omit [StorageBackend S] in
theorem decrementTop_apply [CountsDown F] {vm : VM F S} {k : Nat} {s : VMStack F}
    (h : vm.stack = .number (Number.ofNat (k + 1)) :: s) (hk : k + 1 < 2 ^ 53) :
    decrementTop vm = .ok () { vm with stack := .number (Number.ofNat k) :: s } := by
  rw [decrementTop_number h, CountsDown.sub_one k hk]

theorem fastLoop_segment {hidden : Set String} {m : Sem (Fault F) (VM F S) Unit} {b : Code F}
    {P : BytecodeProgram F} {pos count : Nat} (hm : Implements hidden m b)
    (h : CodeAt P pos (Code.fastLoop count b pos)) :
    ∃ m', Machine.Segment (positions P) 0 pos (stackLoop count m')
        (fun _ => pos + (Code.fastLoop count b pos).length) ∧
      ∃ N, ∀ d : Difference F, d.hidden = hidden → Simulates d N m m' := by
  have hbody : CodeAt P (pos + 5) _ := h.tail.tail.tail.tail.tail
  obtain ⟨m', hseg, hsim⟩ := hm P (pos + 5) hbody.left
  have hend := hbody.right
  have hlen : (Code.fastLoop count b pos).length = (b (pos + 5)).length + 9 := by
    simp [Code.fastLoop]
  have hpush := segment_onVm (S := S) h.fetch rfl (onStack_definite (framing_push _))
  have hdup := segment_onVm (S := S) h.tail.fetch rfl (onStack_definite framing_dup)
  have hzero := segment_onVm (S := S) h.tail.tail.fetch rfl (onStack_definite (framing_push _))
  have hgt := segment_onVm (S := S) h.tail.tail.tail.fetch rfl (binary_definite _)
  have hexit := segment_jumpIfZero (S := S) h.tail.tail.tail.tail.fetch
  have htest : Machine.Segment (positions P) 1 (pos + 1) (ends (counterTest : Exec F S Bool))
      fun t => bif t then pos + 5 else pos + (b (pos + 5)).length + 8 :=
    (hdup.endsBind fun _ => hzero.endsBind fun _ => hgt.endsBind fun _ => hexit).weaken (by omega)
  have hone := segment_onVm (S := S) hend.fetch rfl (onStack_definite (framing_push _))
  have hsub := segment_onVm (S := S) hend.tail.fetch rfl (binary_definite _)
  have hdecrement : Machine.Segment (positions P) 0 (pos + 5 + (b (pos + 5)).length)
      (ends (decrementTop : Exec F S Unit)) fun _ => pos + 5 + (b (pos + 5)).length + 2 :=
    (hone.endsBind fun _ => hsub).weaken (by omega)
  have hjump := segment_jump (S := S) hend.tail.tail.fetch
  have hround := (hseg.andThen fun _ => hdecrement).andThen fun _ => hjump.weaken (Nat.zero_le _)
  rw [bind_pure] at hround
  have hdrop : Machine.Segment (positions P) 1 (pos + (b (pos + 5)).length + 8)
      (ends (dropTop : Exec F S Unit)) fun _ => pos + (b (pos + 5)).length + 8 + 1 := by
    refine segment_onVm (i := .pop) ?_ rfl ((onStack_definite framing_pop).bind fun _ => .pure _)
    rw [show pos + (b (pos + 5)).length + 8 = pos + 5 + (b (pos + 5)).length + 1 + 1 + 1 by omega]
    exact hend.tail.tail.tail.fetch
  refine ⟨m', ?_, _, hsim⟩
  rw [hlen, show pos + ((b (pos + 5)).length + 9) = pos + (b (pos + 5)).length + 8 + 1 by omega]
  exact hpush.andThen fun _ => (Machine.Segment.whileDo htest hround).andThen fun _ =>
    hdrop.weaken (Nat.zero_le _)

/-! ### Bodies with a stack of their own -/

section contained
variable [SerdeJson]

/-- Run on an empty stack, none of the first `count` rounds of the body needs a value that it has not
pushed, and none leaves a value behind. -/
def SelfContained (body : List (Op F)) (count : Nat) (vm : VM F S) : Prop :=
  ∀ k < count, ∀ vm', repeatM (VM.run body) k { vm with stack := [] } (.ok () vm') →
    (∀ vm₁, ¬ VM.run body vm' (.error (.error .stackUnderflow) vm₁)) ∧
    ∀ vm₁, VM.run body vm' (.ok () vm₁) → vm₁.stack = []

/-- The stack of the second VM has the values `base` below the first one's. -/
def Difference.below (base : VMStack F) : Difference F where
  hidden := allTemporaries
  base := base
  escape e := e = .error .stackUnderflow
  guarded := .inr rfl

omit [Number F] [StorageBackend S] [SerdeJson] in
theorem Matches.below {vm : VM F S} (h : vm.explainEnabled = false) :
    Matches (.below vm.stack) { vm with stack := [] } vm where
  silent := h
  stack := rfl
  executor := rfl
  memory := (VMMemory.setScope_scope vm.memory.1).symm
  vars _ _ := rfl

omit [Number F] [StorageBackend S] [SerdeJson] in
/-- The values below may change with the stack. -/
theorem Matches.rebase {vm vm' : VM F S} {base base' : VMStack F} (h : Matches (.below base) vm vm')
    {s : VMStack F} (hs : s = vm.stack ++ base') :
    Matches (.below base') vm { vm' with stack := s } where
  silent := h.silent
  stack := hs
  executor := h.executor
  memory := h.memory
  vars := h.vars

variable {body : List (Op F)} {count : Nat} {vm : VM F S}

theorem SelfContained.no_underflow (h : SelfContained body count vm) {e : Fault F} {vm' : VM F S}
    (herr : repeatM (VM.run body) count { vm with stack := [] } (.error e vm')) :
    e ≠ .error .stackUnderflow := by
  rintro rfl
  obtain ⟨k, hk, vm₁, hk₁, herr⟩ := repeatM_error herr
  exact (h k hk vm₁ hk₁).1 vm' herr

/-- The state of the loops when `k` rounds are left: the body's own stack is empty. -/
structure Round (body : List (Op F)) (count : Nat) (vm : VM F S) (k : Nat) (v v' : VM F S) :
    Prop where
  reached : repeatM (VM.run body) (count - k) { vm with stack := [] } (.ok () v)
  stack : v.stack = []
  related : Matches (.below (.number (Number.ofNat k) :: vm.stack)) v v'

theorem Round.counter {k : Nat} {v v' : VM F S} (h : Round body count vm k v v') :
    v'.stack = .number (Number.ofNat k) :: vm.stack := by
  rw [h.related.stack, h.stack]
  rfl

variable [CountsDown F]

/-- One round: the body leaves the counter alone, and the counter is decremented. -/
theorem round_simulates {N : Set String} {m' : Sem (Fault F) (VM F S) Unit}
    (hself : SelfContained body count vm) (hcount : count < 2 ^ 53)
    (hsim : ∀ d : Difference F, d.hidden = allTemporaries → Simulates d N (VM.run body) m')
    {k : Nat} (hk : k < count) :
    Sim (fun _ => False) (fun _ _ => True) (Round body count vm (k + 1))
      (fun _ => Round body count vm k) (VM.run body) (m' >>= fun _ => ends decrementTop) := by
  have hbody : Sim (fun _ => False) (fun _ _ => True) (Round body count vm (k + 1))
      (fun _ v v' => (repeatM (VM.run body) (count - k) { vm with stack := [] } (.ok () v) ∧
          v.stack = []) ∧
        Matches (.below (.number (Number.ofNat (k + 1)) :: vm.stack)) v v') (VM.run body) m' := by
    refine Sim.and_left (Sim.mono_error (Sim.exact (Simulates.conseq
      (hsim (.below (.number (Number.ofNat (k + 1)) :: vm.stack)) rfl)
      fun v v' hround => ⟨hround.related, fun _ _ _ h _ => h⟩) ?_) fun _ _ _ => trivial) ?_
    · rintro v v' hround e v₁ herr rfl
      exact (hself (count - (k + 1)) (by omega) v hround.reached).1 v₁ herr
    · intro v v' hround _ v₁ hok
      refine ⟨?_, (hself (count - (k + 1)) (by omega) v hround.reached).2 v₁ hok⟩
      rw [show count - k = count - (k + 1) + 1 by omega, repeatM_succ_right]
      exact Sem.bind_ok hround.reached hok
  rw [← bind_pure (VM.run body)]
  refine hbody.bind fun _ => ?_
  rw [← bind_pure (ends decrementTop)]
  refine .right (b := ()) (R := Round body count vm k) ?_ (.pure fun _ _ h => h)
  rintro v v' ⟨⟨hreached, hstack⟩, hmatch⟩
  have hcounter : v'.stack = .number (Number.ofNat (k + 1)) :: vm.stack := by
    rw [hmatch.stack, hstack]
    rfl
  refine ⟨_, ends_iff_of_ok (decrementTop_apply hcounter (by omega)), hreached, hstack, ?_⟩
  exact hmatch.rebase (by rw [hstack]; rfl)

/-- The loop with the counter on the stack, compared with the plain loop on an empty stack. -/
theorem stackLoop_simulates {N : Set String} {m' : Sem (Fault F) (VM F S) Unit}
    (hself : SelfContained body count vm) (hcount : count < 2 ^ 53)
    (hsilent : vm.explainEnabled = false)
    (hsim : ∀ d : Difference F, d.hidden = allTemporaries → Simulates d N (VM.run body) m') :
    Sim (fun _ => False) (fun _ _ => True) (fun v v' => v = { vm with stack := [] } ∧ v' = vm)
      (fun _ => Matches (.below vm.stack)) (repeatM (VM.run body) count) (stackLoop count m') := by
  have htest (k : Nat) (hk : k ≤ count) (v v' : VM F S) (h : Round body count vm k v v') :
      ∃ t', (∀ r, ends counterTest v' r ↔ r = .ok (decide (0 < k)) t') ∧
        Round body count vm k v t' :=
    ⟨v', ends_iff_of_ok (counterTest_apply h.counter (by omega)), h⟩
  have hloop := Sim.countdown htest fun k hk => round_simulates hself hcount hsim hk
  refine .right (b := ()) (R := Round body count vm count) ?_ ?_
  · rintro _ _ ⟨rfl, rfl⟩
    refine ⟨_, ends_iff_of_ok (VM.push_apply _ _), ?_, rfl, (Matches.below hsilent).rebase rfl⟩
    rw [Nat.sub_self]
    rfl
  · rw [← bind_pure (Partial.repeatM (VM.run body) count)]
    refine hloop.bind fun _ => ?_
    rw [← bind_pure (ends dropTop)]
    refine .right (b := ()) (R := Matches (.below vm.stack)) (fun v v' h => ?_)
      (.pure fun _ _ h => h)
    have hdrop : dropTop v' = .ok () { v' with stack := vm.stack } := by
      simp [dropTop, VM.pop, VM.onStack, VMStack.pop, Comp.zoom, Comp.bind_apply, h.counter]
    exact ⟨_, ends_iff_of_ok hdrop, h.related.rebase (by rw [h.stack]; rfl)⟩

/-! ### The special case of the compiler -/

omit [Number F] [StorageBackend S] [SerdeJson] [CountsDown F] in
theorem sameResult_of_below {w w₀ w' w'' : VM F S} {base : VMStack F}
    (h₁ : Matches (.variables allTemporaries) w w') (h₂ : Matches (.below base) w₀ w')
    (h₃ : Matches (.below base) w₀ w'') : SameResult allTemporaries w w'' where
  stack := by rw [h₃.stack, ← h₂.stack, h₁.sameResult.stack]
  executor := by rw [h₃.executor, ← h₂.executor, h₁.executor]
  memory := by
    have h := congrArg (VMMemory.setScope · w''.memory.1.scope) (h₂.memory.symm.trans h₁.memory)
    simp only [VMMemory.setScope_setScope] at h
    exact h₃.memory.trans h
  vars name hname := by rw [h₃.vars name hname, ← h₂.vars name hname, h₁.vars name hname]

omit [SerdeJson] [CountsDown F] in
/-- Code does not have to stand in a program to be a simulation. -/
theorem Implements.simulates {hidden : Set String} {m : Sem (Fault F) (VM F S) Unit} {b : Code F}
    (h : Implements hidden m b) :
    ∃ m' N, ∀ d : Difference F, d.hidden = hidden → Simulates d N m m' := by
  obtain ⟨m', -, hsim⟩ := h { BytecodeProgram.new with instructions := b 0 } 0 List.prefix_rfl
  exact ⟨m', _, hsim⟩

omit [StorageBackend S] [SerdeJson] [CountsDown F] in
theorem compile_fastLoop (hlen : body.length ≤ 5) :
    (BytecodeCompiler.compile [Op.loop 1000 body]).instructions =
      Code.fastLoop 1000 (codeOps (BytecodeCompiler.functionTable [Op.loop 1000 body]) body) 0 := by
  rw [BytecodeCompiler.compile_instructions]
  simp [codeOps, codeOp, Code.seq, Code.nil, Code.loop, hlen]

/-- The special case for 1000 rounds agrees with the plain loop for a body that stays within a stack
of its own. -/
theorem fastLoop_correct (hbody : ∀ op ∈ body, op.Structured) (hlen : body.length ≤ 5)
    (hsilent : vm.explainEnabled = false) (hself : SelfContained body 1000 vm) :
    SameOutcomes allTemporaries (VM.run [.loop 1000 body] vm)
      (BytecodeInterpreter.run (BytecodeCompiler.compile [.loop 1000 body]) vm) := by
  have himpl : Implements allTemporaries (VM.run body : Sem (Fault F) (VM F S) Unit)
      (codeOps (BytecodeCompiler.functionTable [.loop 1000 body]) body) :=
    block_implements fun op hop => structured_implements (hbody op hop)
  -- the code of the fast loop
  have hcode := compile_fastLoop hlen
  obtain ⟨body', hseg, N, hbody'⟩ := fastLoop_segment himpl (.whole hcode)
  rw [← hcode, Nat.zero_add] at hseg
  rw [run_of_segment hseg]
  have hfast := stackLoop_simulates hself (by decide) hsilent hbody'
  -- some code for the plain loop, to get from the given stack to an empty one
  obtain ⟨plain', N', hplain'⟩ := (himpl.unrolled 1000).simulates
  have hempty := Sim.exact (Simulates.conseq
    (P := fun v v' => v = { vm with stack := [] } ∧ v' = vm)
    (Q := fun _ => Matches (.below vm.stack)) (hplain' (.below vm.stack) rfl)
    (by
      rintro _ _ ⟨rfl, rfl⟩
      exact ⟨.below hsilent, fun _ _ _ h _ => h⟩))
    (by
      rintro _ _ ⟨rfl, rfl⟩ e v₁ herr
      exact hself.no_underflow herr)
  have hrun : Simulates (.variables allTemporaries) N' (VM.run [.loop 1000 body]) plain' := by
    rw [VM.run_cons, VM.run_nil, ← bind_pure plain']
    exact next_simulates (by simp [VM.Runner.flow]) rfl (hplain' _ rfl) (.pure ())
  have hplain := hrun.conseq (P := fun v v' => v = vm ∧ v' = vm)
    (Q := fun _ => Matches (.variables allTemporaries)) (by
      rintro _ _ ⟨rfl, rfl⟩
      exact ⟨.refl _ hsilent, fun _ _ _ h _ => h⟩)
  refine sameOutcomes_of_sim (((hplain.trans hempty.symm).trans hfast).mono (fun _ _ h => h) ?_)
    ⟨_, ⟨vm, ⟨rfl, rfl⟩, rfl, rfl⟩, rfl, rfl⟩
  rintro _ w w'' ⟨w₀, ⟨w', h₁, h₂⟩, h₃⟩
  exact sameResult_of_below h₁ h₂ h₃

end contained

end fast

/-! ### A body that stays within its stack, and one that does not -/

open VM (stackVm)

def tidyBody : List (Op Binary64) := [.push (.boolean true), .pop]

theorem tidyBody_selfContained : SelfContained tidyBody 1000 (stackVm []) := by
  have hround : VM.run tidyBody (stackVm []) (.ok () (stackVm [])) := ⟨2, rfl⟩
  intro k _ vm' hk
  obtain rfl := repeatM_eq_of_fixed (VM.run_functional tidyBody) hround hk
  constructor
  · intro vm₁ herr
    cases VM.run_functional _ _ _ _ herr hround
  · intro vm₁ hok
    cases VM.run_functional _ _ _ _ hok hround
    rfl

theorem tidyBody_fastLoop : SelfContained tidyBody 1000 (stackVm []) ∧
    SameOutcomes allTemporaries (VM.run [.loop 1000 tidyBody] (stackVm []))
      (BytecodeInterpreter.run (BytecodeCompiler.compile [.loop 1000 tidyBody]) (stackVm [])) := by
  refine ⟨tidyBody_selfContained, fastLoop_correct ?_ (by decide) rfl tidyBody_selfContained⟩
  intro op hop
  simp only [tidyBody, List.mem_cons, List.not_mem_nil, or_false] at hop
  rcases hop with rfl | rfl <;> exact .simple trivial

/-- A body that takes a value it has not pushed. -/
def greedyBody : List (Op Binary64) := [.pop, .push (.number (Number.ofNat 0))]

/-- On an empty stack the program fails, but the compiled program pops its counter and ends. -/
theorem greedyBody_fastLoop :
    (∃ vm₁, VM.run [.loop 1000 greedyBody] (stackVm []) (.error (.error .stackUnderflow) vm₁)) ∧
    (∃ vm₂, BytecodeInterpreter.run (BytecodeCompiler.compile [.loop 1000 greedyBody]) (stackVm [])
      (.ok () vm₂)) ∧
    ¬ SameOutcomes allTemporaries (VM.run [.loop 1000 greedyBody] (stackVm []))
      (BytecodeInterpreter.run (BytecodeCompiler.compile [.loop 1000 greedyBody]) (stackVm [])) := by
  have hrun : VM.run [.loop 1000 greedyBody] (stackVm [])
      (.error (.error .stackUnderflow) (stackVm [])) := ⟨3, rfl⟩
  have hcompiled : ∃ vm₂, BytecodeInterpreter.run
      (BytecodeCompiler.compile [.loop 1000 greedyBody]) (stackVm []) (.ok () vm₂) ∧ True :=
    run_of_endsIn 20 (by decide +kernel)
  obtain ⟨vm₂, h₂, -⟩ := hcompiled
  refine ⟨⟨_, hrun⟩, ⟨vm₂, h₂⟩, fun hsame => ?_⟩
  obtain ⟨vm₁, h₁, -⟩ := hsame.back vm₂ h₂
  cases VM.run_functional _ _ _ _ h₁ hrun

end Covm
