import Covm.Bytecode.FastLoop
import Covm.Number.Countdown
import Covm.Partial.Progress
import Mathlib.Tactic.IntervalCases

/-!
# Compiled programs without `While` come to an end

A compiled loop counts down a number which it keeps on the operand stack or in a variable, next to
what the program keeps there. So a run comes to an end if no round of a loop leaves another counter
than the one it found, and if no `IncrementReputation` is executed: it appends itself to the program
that is being run (`compile_halts`).
-/

namespace Covm

open Partial BytecodeInterpreter
open BytecodeCompiler (loopCounter matchValue)

section instructions
variable {F S : Type} [Number F] [StorageBackend S]

/-! ### Instructions -/

namespace VMExecution

omit [Number F] [StorageBackend S] in
theorem storageOperation_definite {α : Type} (name : String)
    (f : Option AuthContext → String → StorageM S α) :
    (storageOperation name f : ExecutorOp F S α).Definite := by
  intro x x' h
  unfold storageOperation at h
  split at h
  · cases h
  · split at h <;> cases h

omit [Number F] [StorageBackend S] in
theorem logStorageEvent_definite (category label : String) (event : Option StorageEvent) :
    (logStorageEvent category label event : ExecutorOp F S Unit).Definite := by
  intro x x' h
  cases event <;> cases h

omit [Number F] [StorageBackend S] in
theorem now_definite : (now : ExecutorOp F S Nat).Definite := fun _ _ h => nomatch h

theorem executeLoadP_definite (key : String) (missing : MissingKeyBehavior) :
    (executeLoadP key missing : ExecutorOp F S (TypedValue F)).Definite := by
  refine now_definite.bind fun t x x' h => ?_
  split at h
  · refine Comp.Definite.bind (logStorageEvent_definite _ _ _) (fun _ => ?_) _ _ h
    split
    · exact .pure _
    · exact .fail _
  · split_ifs at h
    · cases missing <;> cases h
    · cases h
  · rename_i e y _ hload
    cases h
    exact storageOperation_definite _ _ _ _ hload

end VMExecution

omit [Number F] [StorageBackend S] in
theorem requireRole_definite (role : String) : (requireRole role : Exec F S Unit).Definite := by
  refine Comp.Definite.bind (fun _ _ h => nomatch h) fun vm => ?_
  split
  · split_ifs
    · exact .fail _
    · exact .pure ()
  · exact .fail _

/-- An instruction that acts on the VM ends. -/
theorem executeOnVm_definite {i : BytecodeOp F} {x : Exec F S Unit}
    (h : executeOnVm i = some x) : x.Definite := by
  have hstorage {α : Type} (name : String) (f : Option AuthContext → String → StorageM S α) :
      (VMExecution.storageOperation name f : ExecutorOp F S α).Definite :=
    VMExecution.storageOperation_definite name f
  have hlog (category label : String) (event : Option StorageEvent) :
      (VMExecution.logStorageEvent category label event : ExecutorOp F S Unit).Definite :=
    VMExecution.logStorageEvent_definite category label event
  have hnow : (VMExecution.now : ExecutorOp F S Nat).Definite := VMExecution.now_definite
  have hevent (category message : String) :
      (VM.emitEvent category message : Exec F S Unit).Definite := fun _ _ h => nomatch h
  cases i with
  | push v =>
    cases h
    exact onStack_definite (framing_push v)
  | store name =>
    cases h
    exact storeVar_definite name
  | load name =>
    cases h
    exact loadVar_definite name
  | add | sub | mul | div | mod | eq | gt | lt | and | or =>
    cases h
    exact binary_definite _
  | negate | not =>
    cases h
    exact unary_definite _
  | emit message =>
    cases h
    exact fun _ _ h => nomatch h
  | emitEvent category message =>
    cases h
    exact hevent category message
  | minDeliberation duration =>
    cases h
    exact hevent _ _
  | expiresIn duration =>
    cases h
    exact hevent _ _
  | call | returnOp | functionEntry | verifySignature =>
    cases h
    exact .fail _
  | dup =>
    cases h
    exact onStack_definite framing_dup
  | swap =>
    cases h
    exact onStack_definite framing_swap
  | pop =>
    cases h
    exact (onStack_definite framing_pop).bind fun _ => .pure _
  | nop =>
    cases h
    exact .pure _
  | requireRole role =>
    cases h
    exact requireRole_definite role
  | createResource resource =>
    cases h
    exact .zoom ((hstorage _ _).bind fun _ _ _ h => nomatch h)
  | mint | transfer | burn =>
    cases h
    exact .zoom (hnow.bind fun _ => (hstorage _ _).bind fun _ => hlog _ _ _)
  | balance resource account =>
    cases h
    refine Comp.Definite.bind (.zoom (hnow.bind fun _ => (hstorage _ _).bind fun _ =>
      (hlog _ _ _).bind fun _ => .pure _)) fun v => onStack_definite (framing_push v)
  | storeStorage key =>
    cases h
    exact (onStack_definite framing_pop).bind fun _ =>
      .zoom (hnow.bind fun _ => (hstorage _ _).bind fun _ => hlog _ _ _)
  | loadStorage key =>
    cases h
    exact Comp.Definite.bind (fun _ _ h => nomatch h) fun _ =>
      Comp.Definite.bind (.zoom (VMExecution.executeLoadP_definite _ _)) fun v =>
        onStack_definite (framing_push v)
  | _ => cases h

end instructions

/-! ### Instructions in a program -/

section code
variable {F S : Type} [Number F] [StorageBackend S]

/-- At an instruction from `lo` on and before `hi`. -/
def Between (lo hi : Nat) (s : BytecodeInterpreter F S) : Prop := lo ≤ s.pc ∧ s.pc < hi

/-- At the position `pos` of the program `P`. -/
def Stands (P : BytecodeProgram F) (pos : Nat) (s : BytecodeInterpreter F S) : Prop :=
  ∃ vm, s = (positions P).loc pos vm

variable {P : BytecodeProgram F} {s₀ : BytecodeInterpreter F S} {pos lo hi : Nat}
  {Q : BytecodeInterpreter F S → Prop}

omit [Number F] [StorageBackend S] in
theorem Between.mono {lo' hi' : Nat} {s : BytecodeInterpreter F S} (h : Between lo hi s)
    (hlo : lo' ≤ lo) (hhi : hi ≤ hi') : Between lo' hi' s :=
  ⟨hlo.trans h.1, h.2.trans_le hhi⟩

theorem carries_onVm {i : BytecodeOp F} {x : Exec F S Unit} (hi' : P.instructions[pos]? = some i)
    (hx : executeOnVm i = some x) (hlo : lo ≤ pos) (hhi : pos < hi) :
    Machine.Carries (positions P) (Between lo hi) pos x fun _ => pos + 1 := by
  refine .step (fun _ => ⟨hlo, hhi⟩) (running_of_fetch hi') (executeOnVm_definite hx)
    (fun vm a vm' h => ?_) fun vm e vm' h => ⟨⟨pos, P, vm'⟩, ?_⟩
  · rw [step_of_fetch hi', executeInstruction_of_onVm hx]
    simp [Comp.bind_apply, onVm, Comp.zoom, h, nextPc, positions]
  · rw [step_of_fetch hi', executeInstruction_of_onVm hx]
    simp [Comp.bind_apply, onVm, Comp.zoom, h]

theorem carries_jump {addr : Nat} (hi' : P.instructions[pos]? = some (.jump addr)) (hlo : lo ≤ pos)
    (hhi : pos < hi) : Machine.Carries (positions P : Machine.Located _ Nat (VM F S))
      (Between lo hi) pos (pure ()) fun _ => addr := by
  refine .step (fun _ => ⟨hlo, hhi⟩) (running_of_fetch hi') (.pure ()) (fun vm a vm' h => ?_)
    fun vm e vm' h => nomatch h
  cases h
  exact step_of_fetch hi' vm

theorem step_jumpIfZero {addr : Nat} (hi' : P.instructions[pos]? = some (.jumpIfZero addr))
    (vm : VM F S) : machine.step ((positions P).loc pos vm) =
      match (VM.pop vm : EStateM.Result _ _ _) with
      | .ok value vm' =>
        .ok () ((positions P).loc (bif !value.isFalsey then pos + 1 else addr) vm')
      | .error e vm' => .error e ⟨pos, P, vm'⟩ := by
  rw [step_of_fetch hi', executeInstruction]
  cases hpop : (VM.pop vm : EStateM.Result _ (VM F S) _) with
  | ok value vm' =>
    cases hf : value.isFalsey <;>
      simp [Comp.bind_apply, onVm, Comp.zoom, hpop, hf, nextPc, setPc, positions]
  | error e vm' => simp [Comp.bind_apply, onVm, Comp.zoom, hpop]

theorem carries_jumpIfZero {addr : Nat} (hi' : P.instructions[pos]? = some (.jumpIfZero addr))
    (hlo : lo ≤ pos) (hhi : pos < hi) :
    Machine.Carries (positions P : Machine.Located _ Nat (VM F S)) (Between lo hi) pos popTest
      fun b => bif b then pos + 1 else addr := by
  refine .step (fun _ => ⟨hlo, hhi⟩) (running_of_fetch hi')
    ((onStack_definite framing_pop).bind fun _ => .pure _) (fun vm b vm' h => ?_)
    fun vm e vm' h => ⟨⟨pos, P, vm'⟩, ?_⟩
  · rw [step_jumpIfZero hi']
    rw [popTest, Comp.bind_apply] at h
    cases hpop : (VM.pop vm : EStateM.Result _ (VM F S) _) with
    | ok value vm₁ =>
      rw [hpop] at h
      cases h
      rfl
    | error e vm₁ =>
      rw [hpop] at h
      cases h
  · rw [step_jumpIfZero hi']
    rw [popTest, Comp.bind_apply] at h
    cases hpop : (VM.pop vm : EStateM.Result _ (VM F S) _) with
    | ok value vm₁ =>
      rw [hpop] at h
      cases h
    | error e' vm₁ =>
      rw [hpop] at h
      cases h
      rfl

/-! ### Code that comes to its end -/

/-- No instruction that is executed appends to the program. -/
def NoIncrement (s₀ : BytecodeInterpreter F S) : Prop :=
  ∀ s, machine.Reaches s₀ s → ∀ identity amount reason,
    s.program.instructions[s.pc]? ≠ some (.incrementReputation identity amount reason)

/-- Wherever the code stands in the program, a run that comes to it comes to its end. -/
def Advances (P : BytecodeProgram F) (s₀ : BytecodeInterpreter F S) (code : Code F) : Prop :=
  ∀ pos, CodeAt P pos (code pos) → ∀ vm, machine.Reaches s₀ ((positions P).loc pos vm) →
    machine.Comes (Between pos (pos + (code pos).length)) (Stands P (pos + (code pos).length))
      ((positions P).loc pos vm)

variable {a b c : Code F} {vm : VM F S}

/-- The code, and then the rest of the way. -/
theorem Advances.comes (h : Advances P s₀ a) (hcode : CodeAt P pos (a pos))
    (hreach : machine.Reaches s₀ ((positions P).loc pos vm)) (hlo : lo ≤ pos)
    (hhi : pos + (a pos).length ≤ hi)
    (hrest : ∀ vm', machine.Reaches s₀ ((positions P).loc (pos + (a pos).length) vm') →
      machine.Comes (Between lo hi) Q ((positions P).loc (pos + (a pos).length) vm')) :
    machine.Comes (Between lo hi) Q ((positions P).loc pos vm) := by
  refine (h pos hcode vm hreach).bind (fun _ hs => hs.mono hlo hhi) fun t hpasses ht => ?_
  obtain ⟨vm', rfl⟩ := ht
  exact hrest vm' (hreach.trans hpasses.reaches)

/-- A computation on the VM, and then the rest of the way. -/
theorem comes_of_carries {α : Type} {x : Exec F S α} {k : α → Nat}
    (h : Machine.Carries (positions P) (Between lo hi) pos x k)
    (hreach : machine.Reaches s₀ ((positions P).loc pos vm))
    (hrest : ∀ a vm', x vm = .ok a vm' → machine.Reaches s₀ ((positions P).loc (k a) vm') →
      machine.Comes (Between lo hi) Q ((positions P).loc (k a) vm')) :
    machine.Comes (Between lo hi) Q ((positions P).loc pos vm) :=
  h.comes fun a vm' hx => hrest a vm' hx (hreach.trans (h.ok hx).reaches)

theorem comes_of_test {x : Exec F S Bool} {inside after : Nat}
    (h : Machine.Carries (positions P) (Between lo hi) pos x fun b => bif b then inside else after)
    (hreach : machine.Reaches s₀ ((positions P).loc pos vm))
    (htrue : ∀ vm', x vm = .ok true vm' → machine.Reaches s₀ ((positions P).loc inside vm') →
      machine.Comes (Between lo hi) Q ((positions P).loc inside vm'))
    (hfalse : ∀ vm', x vm = .ok false vm' → machine.Reaches s₀ ((positions P).loc after vm') →
      machine.Comes (Between lo hi) Q ((positions P).loc after vm')) :
    machine.Comes (Between lo hi) Q ((positions P).loc pos vm) := by
  refine comes_of_carries h hreach fun t vm' hx hreach' => ?_
  cases t with
  | false => exact hfalse vm' hx hreach'
  | true => exact htrue vm' hx hreach'

theorem Advances.nil : Advances P s₀ (.nil : Code F) := fun _ _ vm _ => .here ⟨vm, rfl⟩

theorem Advances.seq (ha : Advances P s₀ a) (hb : Advances P s₀ b) :
    Advances P s₀ (.seq a b) := by
  intro pos hcode vm hreach
  have hlen : (Code.seq a b pos).length =
      (a pos).length + (b (pos + (a pos).length)).length := List.length_append
  rw [hlen, ← Nat.add_assoc]
  refine ha.comes hcode.left hreach (le_refl _) (by omega) fun vm₁ hreach₁ => ?_
  exact hb.comes hcode.right hreach₁ (by omega) (le_refl _) fun vm₂ _ => .here ⟨vm₂, rfl⟩

theorem Advances.unrolled (ha : Advances P s₀ a) (count : Nat) :
    Advances P s₀ (.unrolled a count) := by
  induction count with
  | zero => exact .nil
  | succ count ih => exact ha.seq ih

def BytecodeOp.isJump : BytecodeOp F → Bool
  | .jump _ | .jumpIfZero _ => true
  | _ => false

theorem executeInstruction_of_none {i : BytecodeOp F} (h : executeOnVm (S := S) i = none)
    (hjump : i.isJump = false)
    (hinc : ∀ identity amount reason, i ≠ .incrementReputation identity amount reason)
    (s : BytecodeInterpreter F S) :
    executeInstruction i s = .error (.fault (.error (.notImplemented (.instruction i)))) s := by
  cases i with
  | jump | jumpIfZero => exact nomatch hjump
  | incrementReputation => exact absurd rfl (hinc _ _ _)
  | _ => first | rfl | cases h

theorem Advances.one (hno : NoIncrement s₀) {i : BytecodeOp F} (hjump : i.isJump = false) :
    Advances P s₀ (.one i) := by
  intro pos hcode vm hreach
  have hfetch : P.instructions[pos]? = some i := CodeAt.fetch hcode
  cases hx : executeOnVm (S := S) i with
  | some x =>
    refine comes_of_carries (carries_onVm hfetch hx (le_refl pos) (Nat.lt_succ_self pos)) hreach
      fun _ vm' _ _ => ?_
    exact .here ⟨vm', rfl⟩
  | none =>
    have hstep := executeInstruction_of_none hx hjump
      (fun identity amount reason h => hno _ hreach identity amount reason (h ▸ hfetch))
      ((positions P).loc pos vm)
    exact .fault ⟨running_of_fetch hfetch vm, (step_of_fetch hfetch vm).trans hstep⟩

/-! ### Branches -/

theorem Advances.conditional {e : Option (Code F)} (hc : Advances P s₀ c) (ha : Advances P s₀ a)
    (he : ∀ b ∈ e, Advances P s₀ b) : Advances P s₀ (.conditional c a e) := by
  intro pos hcode vm hreach
  cases e with
  | none =>
    have hlen : (Code.ifThen c a pos).length =
        (c pos).length + 1 + (a (pos + (c pos).length + 1)).length := by
      simp [Code.ifThen, Nat.add_assoc, Nat.add_comm]
    rw [Code.conditional, hlen, ← Nat.add_assoc, ← Nat.add_assoc]
    refine hc.comes (CodeAt.left hcode) hreach (le_refl _) (by omega) fun vm₁ hreach₁ => ?_
    refine comes_of_test (carries_jumpIfZero (CodeAt.right hcode).fetch (by omega) (by omega))
      hreach₁ (fun vm₂ _ hreach₂ => ?_) fun vm₂ _ _ => .here ⟨vm₂, rfl⟩
    exact ha.comes (CodeAt.right hcode).tail hreach₂ (by omega) (le_refl _) fun vm₃ _ =>
      .here ⟨vm₃, rfl⟩
  | some b =>
    have hlen : (Code.ifThenElse c a b pos).length =
        (c pos).length + 1 + (a (pos + (c pos).length + 1)).length + 1 +
          (b (pos + (c pos).length + 1 + (a (pos + (c pos).length + 1)).length + 1)).length := by
      simp [Code.ifThenElse]
      omega
    rw [Code.conditional, hlen]
    simp only [← Nat.add_assoc]
    have hthen := (CodeAt.right hcode).tail
    refine hc.comes (CodeAt.left hcode) hreach (le_refl _) (by omega) fun vm₁ hreach₁ => ?_
    refine comes_of_test (carries_jumpIfZero (CodeAt.right hcode).fetch (by omega) (by omega))
      hreach₁ (fun vm₂ _ hreach₂ => ?_) fun vm₂ _ hreach₂ => ?_
    · refine ha.comes hthen.left hreach₂ (by omega) (by omega) fun vm₃ hreach₃ => ?_
      refine comes_of_carries (carries_jump hthen.right.fetch (by omega) (by omega)) hreach₃
        fun _ vm₄ _ _ => ?_
      exact .here ⟨vm₄, rfl⟩
    · exact (he b rfl).comes hthen.right.tail hreach₂ (by omega) (le_refl _) fun vm₃ _ =>
        .here ⟨vm₃, rfl⟩

theorem Advances.function (hno : NoIncrement s₀) {table : HashMap Nat} (ha : Advances P s₀ a)
    (name : String) (params : List String) : Advances P s₀ (.function table name params a) := by
  unfold Code.function
  split
  · exact (Advances.one hno rfl).seq (ha.seq (.one hno rfl))
  · exact .nil

/-- A variable is compared with a value. -/
theorem carries_compareVar {name : String} {w : TypedValue F} {i : BytecodeOp F} {exit : Nat}
    {f : TypedValue F → TypedValue F → Except (VMError F) (TypedValue F)}
    {rest : List (BytecodeOp F)} (hi' : executeOnVm i = some (VM.binary f : Exec F S Unit))
    (h : CodeAt P pos (.load name :: .push w :: i :: .jumpIfZero exit :: rest)) (hlo : lo ≤ pos)
    (hhi : pos + 4 ≤ hi) :
    Machine.Carries (positions P) (Between lo hi) pos (compareVar name w f : Exec F S Bool)
      fun b => bif b then pos + 4 else exit := by
  have hload := carries_onVm (S := S) h.fetch rfl hlo (by omega : pos < hi)
  have hpush := carries_onVm (S := S) h.tail.fetch rfl (by omega : lo ≤ pos + 1)
    (by omega : pos + 1 < hi)
  have hcompare := carries_onVm h.tail.tail.fetch hi' (by omega : lo ≤ pos + 2)
    (by omega : pos + 2 < hi)
  have hjump := carries_jumpIfZero (S := S) h.tail.tail.tail.fetch (by omega : lo ≤ pos + 3)
    (by omega : pos + 3 < hi)
  exact hload.bind fun _ => hpush.bind fun _ => hcompare.bind fun _ => hjump

/-- The cases of a match jump to its end, or come to the default case. -/
theorem cases_comes {matchVar : String} {target after : Nat} {arms : List (TypedValue F × Code F)}
    (harms : ∀ arm ∈ arms, Advances P s₀ arm.2)
    (hcode : CodeAt P pos (Code.cases matchVar target arms pos))
    (hreach : machine.Reaches s₀ ((positions P).loc pos vm)) (hlo : lo ≤ pos)
    (hafter : pos + (Code.cases matchVar target arms pos).length = after) (hhi : after ≤ hi)
    (htarget : ∀ vm', Q ((positions P).loc target vm'))
    (hrest : ∀ vm', machine.Reaches s₀ ((positions P).loc after vm') →
      machine.Comes (Between lo hi) Q ((positions P).loc after vm')) :
    machine.Comes (Between lo hi) Q ((positions P).loc pos vm) := by
  induction arms generalizing pos vm with
  | nil =>
    have hpos : pos = after := hafter
    subst hpos
    exact hrest vm hreach
  | cons arm arms ih =>
    obtain ⟨value, body⟩ := arm
    have hlen : (Code.cases matchVar target ((value, body) :: arms) pos).length =
        (body (pos + 4)).length + 5 +
          (Code.cases matchVar target arms (pos + (body (pos + 4)).length + 5)).length := by
      simp [Code.cases]
      omega
    rw [hlen] at hafter
    have hbody : Advances P s₀ body := harms _ List.mem_cons_self
    have hinside : CodeAt P (pos + 4) (body (pos + 4) ++ .jump target ::
      Code.cases matchVar target arms (pos + (body (pos + 4)).length + 5)) :=
      hcode.tail.tail.tail.tail
    have hnext := hinside.right.tail
    rw [show pos + 4 + (body (pos + 4)).length + 1 = pos + (body (pos + 4)).length + 5 by
      omega] at hnext
    refine comes_of_test (carries_compareVar rfl hcode hlo (by omega)) hreach
      (fun vm₁ _ hreach₁ => ?_) fun vm₁ _ hreach₁ => ?_
    · refine hbody.comes hinside.left hreach₁ (by omega) (by omega)
        fun vm₂ hreach₂ => ?_
      refine comes_of_carries (carries_jump hinside.right.fetch (by omega) (by omega)) hreach₂
        fun _ vm₃ _ _ => ?_
      exact .here (htarget vm₃)
    · exact ih (fun arm harm => harms arm (List.mem_cons_of_mem _ harm)) hnext hreach₁ (by omega)
        (by omega)

theorem Advances.matchOn {value : Code F} {arms : List (TypedValue F × Code F)}
    {default : Option (Code F)} (hv : Advances P s₀ value)
    (harms : ∀ arm ∈ arms, Advances P s₀ arm.2) (hd : ∀ b ∈ default, Advances P s₀ b) :
    Advances P s₀ (.matchOn value arms default) := by
  intro pos hcode vm hreach
  have hdefault : Advances P s₀ (Code.orNil default) := by
    cases default with
    | none => exact .nil
    | some b => exact hd b rfl
  have hlen : (Code.matchOn value arms default pos).length = (value pos).length + 1 +
      (Code.cases (matchValue (pos + (value pos).length)) 0 arms
        (pos + (value pos).length + 1)).length +
      (Code.orNil default (pos + (value pos).length + 1 +
        (Code.cases (matchValue (pos + (value pos).length)) 0 arms
          (pos + (value pos).length + 1)).length)).length := by
    simp [Code.matchOn]
    omega
  have hrest := hcode.right.tail
  have hdefaultCode := hrest.right
  rw [Code.cases_length] at hdefaultCode
  rw [hlen]
  simp only [← Nat.add_assoc]
  refine hv.comes hcode.left hreach (le_refl _) (by omega) fun vm₁ hreach₁ => ?_
  refine comes_of_carries (carries_onVm hcode.right.fetch rfl (by omega) (by omega)) hreach₁
    fun _ vm₂ _ hreach₂ => ?_
  refine cases_comes harms hrest.left hreach₂ (by omega) (by rw [Code.cases_length]) (by omega)
    (fun vm₃ => ⟨vm₃, rfl⟩) fun vm₃ hreach₃ => ?_
  exact hdefault.comes hdefaultCode hreach₃ (by omega) (le_refl _) fun vm₄ _ => .here ⟨vm₄, rfl⟩

/-! ### Loops -/

/-- In a run from `s₀`, the body that stands from `lo` to `hi` makes `vm'` of `vm`. -/
def BodyRuns (P : BytecodeProgram F) (s₀ : BytecodeInterpreter F S) (lo hi : Nat)
    (vm vm' : VM F S) : Prop :=
  machine.Reaches s₀ ((positions P).loc lo vm) ∧
    machine.Passes (Between lo hi) ((positions P).loc lo vm) ((positions P).loc hi vm')

/-- A loop ends if its body comes to its end and leaves the counter as it was. -/
theorem loop_comes (counter : VM F S → Option (TypedValue F)) {head inside bodyEnd after : Nat}
    {test : Exec F S Bool} {decrement : Exec F S Unit} (hlo : lo ≤ inside) (hhi : bodyEnd ≤ hi)
    (htest : Machine.Carries (positions P) (Between lo hi) head test
      fun t => bif t then inside else after)
    (hpositive : ∀ {vm x}, counter vm = some (.number x) →
      test vm = .ok (Number.gt x (Number.ofNat 0)) vm)
    (hbody : ∀ vm, machine.Reaches s₀ ((positions P).loc inside vm) →
      machine.Comes (Between inside bodyEnd) (Stands P bodyEnd) ((positions P).loc inside vm))
    (hkept : ∀ vm vm', BodyRuns P s₀ inside bodyEnd vm vm' → counter vm' = counter vm)
    (hdecrement : Machine.Carries (positions P) (Between lo hi) bodyEnd decrement fun _ => head)
    (hless : ∀ {vm x}, counter vm = some (.number x) → ∃ vm', decrement vm = .ok () vm' ∧
      counter vm' = some (.number (Number.sub x (Number.ofNat 1))))
    {x : F} (hx : RunsOut x) (hcounter : counter vm = some (.number x))
    (hreach : machine.Reaches s₀ ((positions P).loc head vm)) :
    machine.Comes (Between lo hi) (Stands P after) ((positions P).loc head vm) := by
  refine Machine.comes_of_acc (fun s x => ∃ vm, s = (positions P).loc head vm ∧
    counter vm = some (.number x) ∧ machine.Reaches s₀ s) ?_ hx ⟨vm, rfl, hcounter, hreach⟩
  rintro _ x ⟨vm, rfl, hcounter, hreach⟩
  refine comes_of_test htest hreach (fun vm₁ htrue hreach₁ => ?_) fun vm₁ _ _ =>
    .here (.inl ⟨vm₁, rfl⟩)
  -- a round: the counter is positive, and the body leaves it alone
  rw [hpositive hcounter] at htrue
  obtain ⟨hgt, rfl⟩ := EStateM.Result.ok.inj htrue
  refine (hbody vm hreach₁).bind (fun _ hs => hs.mono hlo hhi) fun t hpasses ht => ?_
  obtain ⟨vm₂, rfl⟩ := ht
  have hcounter₂ : counter vm₂ = some (.number x) :=
    (hkept vm vm₂ ⟨hreach₁, hpasses⟩).trans hcounter
  obtain ⟨vm₃, hvm₃, hcounter₃⟩ := hless hcounter₂
  refine comes_of_carries hdecrement (hreach₁.trans hpasses.reaches) fun _ vm₄ hvm₄ hreach₄ => ?_
  rw [hvm₃] at hvm₄
  obtain ⟨-, rfl⟩ := EStateM.Result.ok.inj hvm₄
  exact .here (.inr ⟨_, ⟨hgt, rfl⟩, vm₃, rfl, hcounter₃, hreach₄⟩)

/-- A computation and a jump behind it. -/
theorem carries_then_jump {x : Exec F S Unit} {addr next : Nat}
    (h : Machine.Carries (positions P) (Between lo hi) pos x fun _ => next)
    (hi' : P.instructions[next]? = some (.jump addr)) (hlo : lo ≤ next) (hhi : next < hi) :
    Machine.Carries (positions P) (Between lo hi) pos x fun _ => addr := by
  have hjump := h.bind fun _ => carries_jump hi' hlo hhi
  rwa [bind_pure_unit] at hjump

/-- The rounds of the loops leave their counters alone. -/
structure KeepsCounters (P : BytecodeProgram F) (s₀ : BytecodeInterpreter F S) : Prop where
  onStack {pos count : Nat} {b : Code F} (h : CodeAt P pos (Code.fastLoop count b pos))
    {vm vm' : VM F S} : BodyRuns P s₀ (pos + 5) (pos + 5 + (b (pos + 5)).length) vm vm' →
      vm'.stack.head? = vm.stack.head?
  inMemory {pos count : Nat} {b : Code F} (h : CodeAt P pos (Code.countedLoop count b pos))
    {vm vm' : VM F S} : BodyRuns P s₀ (pos + 6) (pos + 6 + (b (pos + 6)).length) vm vm' →
      vm'.memory.1.scope.lookup (loopCounter (pos + 1)) =
        vm.memory.1.scope.lookup (loopCounter (pos + 1))

/-- A loop of this count is begun in the run, and not unrolled. -/
def Begun (P : BytecodeProgram F) (s₀ : BytecodeInterpreter F S) (count : Nat) : Prop :=
  ∃ pos b vm, machine.Reaches s₀ ((positions P).loc pos vm) ∧
    (CodeAt P pos (Code.fastLoop count b pos) ∨ CodeAt P pos (Code.countedLoop count b pos))

theorem Advances.fastLoop (hkept : KeepsCounters P s₀) {count : Nat}
    (hcount : Begun P s₀ count → RunsOut (Number.ofNat count : F)) (hb : Advances P s₀ b) :
    Advances P s₀ (.fastLoop count b) := by
  intro pos hcode vm hreach
  have hbegun : Begun P s₀ count := ⟨pos, b, vm, hreach, .inl hcode⟩
  have hlen : (Code.fastLoop count b pos).length = (b (pos + 5)).length + 9 := by
    simp [Code.fastLoop]
  rw [hlen]
  generalize hhi : pos + ((b (pos + 5)).length + 9) = hi
  have hinside : CodeAt P (pos + 5) _ := hcode.tail.tail.tail.tail.tail
  have hend := hinside.right
  have htest : Machine.Carries (positions P) (Between pos hi) (pos + 1)
      (counterTest : Exec F S Bool)
      fun t => bif t then pos + 5 else pos + (b (pos + 5)).length + 8 :=
    (carries_onVm hcode.tail.fetch rfl (by omega) (by omega)).bind fun _ =>
      (carries_onVm hcode.tail.tail.fetch rfl (by omega) (by omega)).bind fun _ =>
      (carries_onVm hcode.tail.tail.tail.fetch rfl (by omega) (by omega)).bind fun _ =>
      carries_jumpIfZero hcode.tail.tail.tail.tail.fetch (by omega) (by omega)
  have hdecrement : Machine.Carries (positions P) (Between pos hi)
      (pos + 5 + (b (pos + 5)).length) (decrementTop : Exec F S Unit) fun _ => pos + 1 :=
    carries_then_jump ((carries_onVm hend.fetch rfl (by omega) (by omega)).bind fun _ =>
      carries_onVm hend.tail.fetch rfl (by omega) (by omega)) hend.tail.tail.fetch (by omega)
      (by omega)
  have hpositive {v : VM F S} {x : F} (h : v.stack.head? = some (.number x)) :
      counterTest v = .ok (Number.gt x (Number.ofNat 0)) v := by
    obtain ⟨s, hs⟩ := List.head?_eq_some_iff.mp h
    exact counterTest_number hs
  have hless {v : VM F S} {x : F} (h : v.stack.head? = some (.number x)) :
      ∃ v', decrementTop v = .ok () v' ∧
        v'.stack.head? = some (.number (Number.sub x (Number.ofNat 1))) := by
    obtain ⟨s, hs⟩ := List.head?_eq_some_iff.mp h
    exact ⟨_, decrementTop_number hs, rfl⟩
  refine comes_of_carries (carries_onVm hcode.fetch rfl (le_refl _) (by omega)) hreach
    fun _ vm₁ hpush hreach₁ => ?_
  rw [VM.push_apply] at hpush
  obtain ⟨-, rfl⟩ := EStateM.Result.ok.inj hpush
  refine (loop_comes (fun v => v.stack.head?) (by omega) (by omega) htest hpositive
    (fun v hv => hb _ hinside.left v hv) (fun _ _ hruns => hkept.onStack hcode hruns) hdecrement
    hless (hcount hbegun) rfl hreach₁).passes.trans fun t ht => ?_
  obtain ⟨hpasses, v, rfl⟩ := ht
  have hpop : P.instructions[pos + (b (pos + 5)).length + 8]? = some .pop := by
    rw [show pos + (b (pos + 5)).length + 8 = pos + 5 + (b (pos + 5)).length + 1 + 1 + 1 by omega]
    exact hend.tail.tail.tail.fetch
  refine comes_of_carries (carries_onVm hpop rfl (by omega) (by omega))
    (hreach₁.trans hpasses.reaches) fun _ v' _ _ => .here ⟨v', ?_⟩
  rw [← hhi]
  rfl

theorem Advances.countedLoop (hkept : KeepsCounters P s₀) {count : Nat}
    (hcount : Begun P s₀ count → RunsOut (Number.ofNat count : F)) (hb : Advances P s₀ b) :
    Advances P s₀ (.countedLoop count b) := by
  intro pos hcode vm hreach
  have hbegun : Begun P s₀ count := ⟨pos, b, vm, hreach, .inr hcode⟩
  have hlen : (Code.countedLoop count b pos).length = (b (pos + 6)).length + 11 := by
    simp [Code.countedLoop]
  rw [hlen]
  generalize hhi : pos + ((b (pos + 6)).length + 11) = hi
  have hinside : CodeAt P (pos + 6) _ := hcode.tail.tail.tail.tail.tail.tail
  have hend := hinside.right
  have htest : Machine.Carries (positions P) (Between pos hi) (pos + 2)
      (compareVar (loopCounter (pos + 1)) (.number (Number.ofNat 0)) (executeComparison .gt) :
        Exec F S Bool) fun t => bif t then pos + 6 else hi := by
    rw [show hi = pos + (b (pos + 6)).length + 11 by omega]
    exact carries_compareVar rfl hcode.tail.tail (by omega) (by omega)
  have hdecrement : Machine.Carries (positions P) (Between pos hi)
      (pos + 6 + (b (pos + 6)).length) (decrementVar (loopCounter (pos + 1)) : Exec F S Unit)
      fun _ => pos + 2 :=
    carries_then_jump ((carries_onVm hend.fetch rfl (by omega) (by omega)).bind fun _ =>
      (carries_onVm hend.tail.fetch rfl (by omega) (by omega)).bind fun _ =>
      (carries_onVm hend.tail.tail.fetch rfl (by omega) (by omega)).bind fun _ =>
      carries_onVm hend.tail.tail.tail.fetch rfl (by omega) (by omega))
      hend.tail.tail.tail.tail.fetch (by omega) (by omega)
  have hpositive {v : VM F S} {x : F}
      (h : v.memory.1.scope.lookup (loopCounter (pos + 1)) = some (.number x)) :
      compareVar (loopCounter (pos + 1)) (.number (Number.ofNat 0)) (executeComparison .gt) v =
        .ok (Number.gt x (Number.ofNat 0)) v := by
    have hgt : executeComparison .gt (.number x : TypedValue F) (.number (Number.ofNat 0)) =
        .ok (.boolean (Number.gt x (Number.ofNat 0))) := rfl
    rw [compareVar_apply h hgt]
    simp [TypedValue.isFalsey]
  have hstored (v : VM F S) (x : TypedValue F) :
      (v.stored (loopCounter (pos + 1)) x).memory.1.scope.lookup (loopCounter (pos + 1)) =
        some x := by
    rw [VM.scope_stored, Finmap.lookup_insert]
  have hstart : Machine.Carries (positions P) (Between pos hi) pos
      (initVar (loopCounter (pos + 1)) (.number (Number.ofNat count)) : Exec F S Unit)
      fun _ => pos + 2 :=
    (carries_onVm hcode.fetch rfl (le_refl _) (by omega)).bind fun _ =>
      carries_onVm hcode.tail.fetch rfl (by omega) (by omega)
  refine comes_of_carries hstart hreach fun _ vm₁ hinit hreach₁ => ?_
  have hfirst : initVar (loopCounter (pos + 1)) (.number (Number.ofNat count)) vm =
      .ok () (vm.stored (loopCounter (pos + 1)) (.number (Number.ofNat count))) := rfl
  rw [hfirst] at hinit
  obtain ⟨-, rfl⟩ := EStateM.Result.ok.inj hinit
  exact loop_comes (fun v => v.memory.1.scope.lookup (loopCounter (pos + 1))) (by omega)
    (by omega) htest hpositive (fun v hv => hb _ hinside.left v hv)
    (fun _ _ hruns => hkept.inMemory hcode hruns) hdecrement
    (fun h => ⟨_, decrementVar_number h, hstored _ _⟩) (hcount hbegun) (hstored _ _) hreach₁

end code

/-! ### Programs -/

/-- The operations that contain no `While`, with loops that run `C` many times. -/
inductive Op.WhileFree {F : Type} (C : Nat → Prop) : Op F → Prop
  | basic {op : Op F} {i : BytecodeOp F} : BytecodeCompiler.instruction op = some i → WhileFree C op
  | ifOp {condition thenOps : List (Op F)} {elseOps : Option (List (Op F))} :
      (∀ op ∈ condition, WhileFree C op) → (∀ op ∈ thenOps, WhileFree C op) →
      (∀ ops ∈ elseOps, ∀ op ∈ ops, WhileFree C op) → WhileFree C (.ifOp condition thenOps elseOps)
  | loop {count : Nat} {body : List (Op F)} : C count → (∀ op ∈ body, WhileFree C op) →
      WhileFree C (.loop count body)
  | defOp {name : String} {params : List String} {body : List (Op F)} :
      (∀ op ∈ body, WhileFree C op) → WhileFree C (.defOp name params body)
  | matchOp {value : List (Op F)} {cases : List (TypedValue F × List (Op F))}
      {default : Option (List (Op F))} : (∀ op ∈ value, WhileFree C op) →
      (∀ arm ∈ cases, ∀ op ∈ arm.2, WhileFree C op) →
      (∀ ops ∈ default, ∀ op ∈ ops, WhileFree C op) → WhileFree C (.matchOp value cases default)

section programs
variable {F S : Type} [Number F] [StorageBackend S] {P : BytecodeProgram F}
  {s₀ : BytecodeInterpreter F S} {table : HashMap Nat} {C : Nat → Prop}

theorem block_advances {ops : List (Op F)} (h : ∀ op ∈ ops, Advances P s₀ (codeOp table op)) :
    Advances P s₀ (codeOps table ops) := by
  induction ops with
  | nil => exact .nil
  | cons op ops ih =>
    exact (h op List.mem_cons_self).seq (ih fun op' hop' => h op' (List.mem_cons_of_mem _ hop'))

theorem optional_advances {ops : Option (List (Op F))}
    (h : ∀ block ∈ ops, ∀ op ∈ block, Advances P s₀ (codeOp table op)) :
    ∀ b ∈ codeOptional table ops, Advances P s₀ b := by
  intro b hb
  cases ops with
  | none => cases hb
  | some block =>
    cases hb
    exact block_advances (h block rfl)

theorem arms_advance {cases : List (TypedValue F × List (Op F))}
    (h : ∀ arm ∈ cases, ∀ op ∈ arm.2, Advances P s₀ (codeOp table op)) :
    ∀ arm ∈ codeArms table cases, Advances P s₀ arm.2 := by
  induction cases with
  | nil => exact fun _ harm => nomatch harm
  | cons first cases ih =>
    intro arm harm
    rcases List.mem_cons.mp harm with rfl | harm
    · exact block_advances (h first List.mem_cons_self)
    · exact ih (fun arm' harm' => h arm' (List.mem_cons_of_mem _ harm')) arm harm

omit [Number F] [StorageBackend S] in
theorem isJump_of_instruction {op : Op F} {i : BytecodeOp F}
    (h : BytecodeCompiler.instruction op = some i) : i.isJump = false := by
  cases op <;> cases h <;> rfl

/-- The code of every construct comes to its end. -/
theorem op_advances (hno : NoIncrement s₀) (hkept : KeepsCounters P s₀)
    (hcounts : ∀ n, C n → Begun P s₀ n → RunsOut (Number.ofNat n : F)) {op : Op F}
    (h : op.WhileFree C) :
    Advances P s₀ (codeOp table op) := by
  induction h with
  | basic hi =>
    rw [codeOp_of_instruction hi]
    exact .one hno (isJump_of_instruction hi)
  | ifOp _ _ _ ihc iht ihe =>
    exact .conditional (block_advances ihc) (block_advances iht) (optional_advances ihe)
  | @loop count body hcount _ ih =>
    show Advances P s₀ (Code.loop count body.length (codeOps table body))
    have hbody := block_advances ih
    unfold Code.loop
    split_ifs
    · exact hbody.unrolled count
    · exact hbody.fastLoop hkept (hcounts count hcount)
    · exact hbody.countedLoop hkept (hcounts count hcount)
  | defOp _ ih => exact .function hno (block_advances ih) _ _
  | matchOp _ _ _ ihv iha ihd =>
    exact .matchOn (block_advances ihv) (arms_advance iha) (optional_advances ihd)

/-- The program ends with `Ok` or `Err`. -/
def Stops (P : BytecodeProgram F) (vm : VM F S) : Prop :=
  ∃ r, BytecodeInterpreter.run P vm r ∧ ∀ vm', r ≠ .error .panic vm'

/-- A run which appends no instruction, panics at none, and whose loops keep their counters. -/
structure Orderly (P : BytecodeProgram F) (vm : VM F S) : Prop where
  noIncrement : NoIncrement (new vm P)
  noPanic (s : BytecodeInterpreter F S) : machine.Reaches (new vm P) s →
    ∀ t, ¬ machine.Faults s .panic t
  keepsCounters : KeepsCounters P (new vm P)

theorem stops_of_orderly {ops : List (Op F)} {vm : VM F S} (hops : ∀ op ∈ ops, op.WhileFree C)
    (hcounts : ∀ n, C n → Begun (BytecodeCompiler.compile ops)
      (new vm (BytecodeCompiler.compile ops)) n → RunsOut (Number.ofNat n : F))
    (h : Orderly (BytecodeCompiler.compile ops) vm) :
    Stops (BytecodeCompiler.compile ops) vm := by
  have hcode := BytecodeCompiler.compile_instructions ops
  have hadvances : Advances (BytecodeCompiler.compile ops) (new vm (BytecodeCompiler.compile ops))
      (codeOps (BytecodeCompiler.functionTable ops) ops) := block_advances fun op hop =>
    op_advances h.noIncrement h.keepsCounters hcounts (hops op hop)
  have hcomes := hadvances 0 (.whole hcode) vm .refl
  rw [← hcode, Nat.zero_add] at hcomes
  obtain ⟨r, hr⟩ := hcomes.outcome (by
    rintro _ ⟨vm', rfl⟩
    simp [machine, positions])
  refine ⟨_, run_iff.mpr ⟨r, hr, rfl⟩, fun vm' hpanic => ?_⟩
  obtain ⟨t, ht, ⟨-, rfl⟩ | ⟨e, u, hfault, rfl⟩⟩ := Machine.outcome_iff_reaches.mp hr
  · cases hpanic
  · obtain ⟨rfl, -⟩ := EStateM.Result.error.inj hpanic
    exact h.noPanic t ht u hfault

end programs

section binary64
variable {S : Type} [StorageBackend S]

/-- An orderly run of a program without `While` ends, if the loops that are begun count down from
numbers that are not too large for that. -/
theorem compile_stops {ops : List (Op Binary64)} {vm : VM Binary64 S}
    (hops : ∀ op ∈ ops, op.WhileFree fun count =>
      Begun (BytecodeCompiler.compile ops) (new vm (BytecodeCompiler.compile ops)) count →
        count ≤ 2 ^ 53 + 2)
    (h : Orderly (BytecodeCompiler.compile ops) vm) : Stops (BytecodeCompiler.compile ops) vm :=
  stops_of_orderly hops (fun _ hn hbegun => runsOut_ofNat_iff.mpr (hn hbegun)) h

end binary64

open VM (stackVm)

/-! ### A loop that ends -/

def idling : List (Op Binary64) := [.loop 6 [.nop]]

theorem idling_instructions : (BytecodeCompiler.compile idling).instructions =
    [.push (.number (Number.ofNat 6)), .store (loopCounter 1), .load (loopCounter 1),
      .push (.number (Number.ofNat 0)), .gt, .jumpIfZero 12, .nop, .load (loopCounter 1),
      .push (.number (Number.ofNat 1)), .sub, .store (loopCounter 1), .jump 2] := by
  rw [BytecodeCompiler.compile_instructions]
  rfl

theorem idling_keepsCounters :
    KeepsCounters (BytecodeCompiler.compile idling)
      (new (stackVm [] : VM Binary64 NoStorage) (BytecodeCompiler.compile idling)) where
  onStack {pos count b} h := by
    have hdup := h.tail.fetch
    rw [idling_instructions] at hdup
    have hmem := List.mem_of_getElem? hdup
    simp at hmem
  inMemory {pos count b} h {vm vm'} hruns := by
    have hstore := h.tail.fetch
    have hload := h.tail.tail.fetch
    have hexit := h.tail.tail.tail.tail.tail.fetch
    rw [idling_instructions] at hstore hload hexit
    have hlt : pos + 2 < 12 := (List.getElem?_eq_some_iff.mp hload).1
    -- the only variable that is stored to and then loaded
    obtain rfl : pos = 0 := by
      have hbound : pos < 10 := by omega
      interval_cases pos <;> simp_all
    have hlen : (b 6).length = 1 := by
      simp at hexit
      omega
    obtain ⟨-, hpasses⟩ := hruns
    rw [Nat.zero_add, hlen] at hpasses
    obtain heq | ⟨s, ⟨-, hstep⟩, hrest⟩ := Relation.ReflTransGen.cases_head hpasses
    · exact absurd (congrArg BytecodeInterpreter.pc heq) (by decide : (6 : Nat) ≠ 7)
    · have hnop : (BytecodeCompiler.compile idling).instructions[6]? = some BytecodeOp.nop := by
        rw [idling_instructions]
        rfl
      obtain ⟨-, rfl⟩ := EStateM.Result.ok.inj (hstep.2.symm.trans (step_of_fetch hnop vm))
      obtain heq | ⟨s, ⟨hinside, -⟩, -⟩ := Relation.ReflTransGen.cases_head hrest
      · have hvm : vm = vm' := congrArg BytecodeInterpreter.vm heq
        rw [hvm]
      · exact absurd hinside.2 (Nat.lt_irrefl 7)

/-- The instruction at hand appends nothing and does not panic. -/
def steady (s : BytecodeInterpreter Binary64 NoStorage) : Bool :=
  match s.program.instructions[s.pc]? with
  | some (.incrementReputation ..) => false
  | some i =>
    match executeInstruction i s with
    | .error (.fault .panic) _ => false
    | _ => true
  | none => true

theorem idling_orderly : Orderly (BytecodeCompiler.compile idling)
    (stackVm [] : VM Binary64 NoStorage) := by
  have hsteady {s : BytecodeInterpreter Binary64 NoStorage}
      (hs : machine.Reaches (new (stackVm []) (BytecodeCompiler.compile idling)) s) :
      steady s = true := Machine.Reaches.of_throughout 100 (by decide +kernel) hs
  refine ⟨fun s hs identity amount reason hfetch => ?_, fun s hs t hfault => ?_,
    idling_keepsCounters⟩
  · have h := hsteady hs
    simp [steady, hfetch] at h
  · have h := hsteady hs
    have hstep := hfault.2
    have hrunning : s.pc < s.program.instructions.length := of_decide_eq_true hfault.1
    simp only [machine, List.getElem?_eq_getElem hrunning] at hstep
    rw [steady, List.getElem?_eq_getElem hrunning] at h
    split at h
    · cases h
    · rename_i i _ hi
      cases hi
      rw [hstep] at h
      cases h
    · rename_i hnone
      cases hnone

theorem idling_stops :
    Stops (BytecodeCompiler.compile idling) (stackVm [] : VM Binary64 NoStorage) := by
  refine compile_stops (fun op hop => ?_) idling_orderly
  rw [idling, List.mem_singleton] at hop
  subst hop
  exact .loop (fun _ => by decide) (by simpa using .basic rfl)

/-! ### A program that does not end -/

/-- The reputation of one identity is incremented. -/
def increment : Op Binary64 := .incrementReputation "alice" none none

def incrementCode : BytecodeOp Binary64 := .incrementReputation "alice" none none

/-- The interpreter comes to the instruction it has appended. -/
def Repeats (s : BytecodeInterpreter Binary64 NoStorage) : Prop :=
  s.program.instructions = List.replicate (s.pc + 1) incrementCode

theorem Repeats.step {s : BytecodeInterpreter Binary64 NoStorage} (h : Repeats s) :
    ∃ t, machine.Step s t ∧ Repeats t := by
  have hrunning : s.pc < s.program.instructions.length := by
    rw [h, List.length_replicate]
    omega
  have hfetch : s.program.instructions[s.pc]? = some incrementCode := by
    rw [h, List.getElem?_replicate, if_pos (by omega)]
  refine ⟨{ s with
    program := { s.program with instructions := s.program.instructions ++ [incrementCode] }
    pc := s.pc + 1 }, ⟨decide_eq_true hrunning, ?_⟩, ?_⟩
  · simp only [machine, hfetch]
    rfl
  · show s.program.instructions ++ [incrementCode] = _
    rw [h, ← List.replicate_succ']

theorem increment_never_stops :
    ¬ Stops (BytecodeCompiler.compile [increment]) (stackVm [] : VM Binary64 NoStorage) := by
  rintro ⟨r, hr, -⟩
  obtain ⟨r', hr', -⟩ := run_iff.mp hr
  obtain ⟨t, ht, hend⟩ := Machine.outcome_iff_reaches.mp hr'
  have hstart : Repeats (new (stackVm []) (BytecodeCompiler.compile [increment])) := rfl
  have hrepeats : Repeats t := by
    refine ht.invariant (fun s u hs hstep => ?_) hstart
    obtain ⟨u', hstep', hu'⟩ := hs.step
    exact hstep.deterministic hstep' ▸ hu'
  obtain ⟨u, hstep, -⟩ := hrepeats.step
  obtain ⟨hhalt, -⟩ | ⟨e, v, hfault, -⟩ := hend
  · rw [hstep.1] at hhalt
    exact nomatch hhalt
  · exact hstep.not_fault hfault

theorem not_compile_stops : ¬ ∀ (ops : List (Op Binary64)) (vm : VM Binary64 NoStorage),
    (∀ op ∈ ops, op.WhileFree fun _ => True) → Stops (BytecodeCompiler.compile ops) vm := by
  intro h
  refine increment_never_stops (h [increment] _ fun op hop => ?_)
  rw [List.mem_singleton] at hop
  subst hop
  exact .basic rfl

end Covm
