import Covm.Partial.Machine
import Covm.Vm.Semantics

/-!
# Points of execution

`run` says what a program ends with. To speak about the moments of a run (the instant a `Break` is
executed, the instant an error is raised inside a function), the interpreter is also given as a
machine whose configurations hold the activations of `execute_inner` as a stack of frames, the
innermost first: the rest of each op list, and the block operation that waits for it.

The machine takes the steps of the interpreter one at a time, and computes the same outcomes
(`run_iff_outcome`).
-/

namespace Covm

open Partial

inductive Frame (F : Type) where
  /-- The operations of a list that are still to come. -/
  | seq (ops : List (Op F))
  /-- An operation about to be executed, and the rest of its list. -/
  | exec (op : Op F) (ops : List (Op F))
  /-- The recording of the stack after an operation that fell through. -/
  | after
  | ifTest (thenOps : List (Op F)) (elseOps : Option (List (Op F)))
  /-- A `Loop` with the number of iterations still to come. -/
  | loop (remaining : Nat) (body : List (Op F))
  /-- A `While` about to evaluate its condition. -/
  | whileLoop (condition body : List (Op F))
  | whileTest (condition body : List (Op F))
  | matchTest (cases : List (TypedValue F × List (Op F))) (default : Option (List (Op F)))
  | call (name : String)

/-- What follows an operation that falls through, or that leaves its list. -/
def Flow.select {α : Type} (next out : α) : Flow → α
  | .next => next
  | .leave => out

structure Config (F S : Type) where
  frames : List (Frame F)
  vm : VM F S

namespace Frame

variable {F S : Type} [Number F]

/-- The frame of a chosen block, if there is one. -/
def optional : Option (List (Op F)) → List (Frame F)
  | some ops => [.seq ops]
  | none => []

variable [StorageBackend S] [SerdeJson]

/-- Starts an operation: `next` are the frames if it falls through, `out` if it leaves its list. -/
def start (next out : List (Frame F)) : Op F → Exec F S (List (Frame F))
  | .ifOp condition thenOps elseOps => pure (.seq condition :: .ifTest thenOps elseOps :: next)
  | .loop count body => pure (.loop count body :: next)
  | .whileOp condition body => pure (.whileLoop condition body :: next)
  | .matchOp value cases default => pure (.seq value :: .matchTest cases default :: next)
  | .call name => do
    let body ← VM.enterCall name
    return .seq body :: .call name :: next
  | .returnOp => do
    VM.executeReturn
    return out
  | .breakOp => return out
  | .continueOp => return out
  | op => do
    let flow ← VM.executePlain op
    return flow.select next out

/-- One step of the innermost frame; `rest` are the others. -/
def step (rest : List (Frame F)) : Frame F → Exec F S (List (Frame F))
  | .seq [] => return rest
  | .seq (op :: ops) => do
    let simulated ← VM.announce op
    return (bif simulated then .seq ops else .exec op ops) :: rest
  | .exec op ops => start (.after :: .seq ops :: rest) rest op
  | .after => do
    VM.recordStackAfter
    return rest
  | .ifTest thenOps elseOps => do
    let value ← VM.pop
    return optional (if !value.isFalsey then some thenOps else elseOps) ++ rest
  | .loop 0 _ => return rest
  | .loop (remaining + 1) body => return .seq body :: .loop remaining body :: rest
  | .whileLoop condition body => return .seq condition :: .whileTest condition body :: rest
  | .whileTest condition body => do
    let value ← VM.pop
    return bif value.isFalsey then rest else .seq body :: .whileLoop condition body :: rest
  | .matchTest cases default => do
    let value ← VM.pop
    return optional (VM.selectCase value cases default) ++ rest
  | .call name => do
    VM.exitCall name
    return rest

end Frame

section machine
variable {F S : Type} [Number F] [StorageBackend S] [SerdeJson]

/-- One step of a stack of frames. -/
def advance : List (Frame F) → Exec F S (List (Frame F))
  | [] => return []
  | frame :: rest => frame.step rest

/-- The interpreter as a machine. A fault leaves the frames as they were. -/
def machine : Machine (Fault F) (Config F S) where
  running c := !c.frames.isEmpty
  step c :=
    match advance c.frames c.vm with
    | .ok frames vm => .ok () ⟨frames, vm⟩
    | .error e vm => .error e ⟨c.frames, vm⟩

def frames : (machine : Machine _ (Config F S)).Located (List (Frame F)) (VM F S) where
  loc := Config.mk
  data := Config.vm
  data_loc _ _ := rfl

/-! ### What a stack of frames computes -/

open VM in
/-- What remains to be done in a frame. -/
def Frame.meaning : Frame F → Sem (Fault F) (VM F S) Unit
  | .seq ops => run ops
  | .exec op ops => limit.flow op >>= Flow.andThen (ends recordStackAfter >>= fun _ => run ops)
  | .after => ends recordStackAfter
  | .ifTest thenOps elseOps => do
    let value ← ends pop
    limit.optional (if !value.isFalsey then some thenOps else elseOps)
  | .loop remaining body => repeatM (run body) remaining
  | .whileLoop condition body => Sem.whileDo (limit.test condition) (run body)
  | .whileTest condition body => do
    let value ← ends pop
    if !value.isFalsey then
      run body >>= fun _ => Sem.whileDo (limit.test condition) (run body)
    else pure ()
  | .matchTest cases default => do
    let value ← ends pop
    limit.optional (selectCase value cases default)
  | .call name => ends (exitCall name)

/-- What remains to be done in a stack of frames. -/
def meaning : List (Frame F) → Sem (Fault F) (VM F S) Unit
  | [] => pure ()
  | frame :: rest => frame.meaning >>= fun _ => meaning rest

theorem meaning_nil : (meaning [] : Sem _ (VM F S) _) = pure () := rfl

theorem meaning_cons (frame : Frame F) (rest : List (Frame F)) :
    (meaning (frame :: rest) : Sem _ (VM F S) _) = frame.meaning >>= fun _ => meaning rest := rfl

theorem meaning_optional (ops : Option (List (Op F))) (rest : List (Frame F)) :
    (meaning (Frame.optional ops ++ rest) : Sem _ (VM F S) _) =
      VM.limit.optional ops >>= fun _ => meaning rest := by
  cases ops with
  | none => exact (pure_bind () fun _ => meaning rest).symm
  | some ops => rfl

theorem start_meaning (op : Op F) (next out : List (Frame F)) :
    ends (Frame.start next out op : Exec F S _) >>= meaning =
      VM.limit.flow op >>= fun flow => meaning (flow.select next out) := by
  cases op with
  | ifOp condition thenOps elseOps =>
    simp [VM.Runner.flow, VM.Runner.test, Frame.start, meaning_cons, Frame.meaning, Flow.select]
  | loop count body =>
    simp [VM.Runner.flow, Frame.start, meaning_cons, Frame.meaning, Flow.select]
  | whileOp condition body =>
    simp [VM.Runner.flow, Frame.start, meaning_cons, Frame.meaning, Flow.select]
  | matchOp value cases default =>
    simp [VM.Runner.flow, Frame.start, meaning_cons, Frame.meaning, Flow.select]
  | call name =>
    simp [VM.Runner.flow, Frame.start, meaning_cons, Frame.meaning, Flow.select]
  | returnOp => simp [VM.Runner.flow, Frame.start, Flow.select]
  | breakOp => simp [VM.Runner.flow, Frame.start, Flow.select]
  | continueOp => simp [VM.Runner.flow, Frame.start, Flow.select]
  | _ => simp [VM.Runner.flow, Frame.start]

/-- A step leaves what remains to be done. -/
theorem step_meaning (frame : Frame F) (rest : List (Frame F)) :
    ends (frame.step rest : Exec F S _) >>= meaning = meaning (frame :: rest) := by
  cases frame with
  | seq ops =>
    cases ops with
    | nil => simp [Frame.step, meaning_cons, Frame.meaning, VM.run_nil]
    | cons op ops =>
      simp only [Frame.step, meaning_cons, Frame.meaning, VM.run_cons, VM.Runner.next, ends_bind,
        bind_assoc, VM.limit_lift, ends_pure, pure_bind]
      refine congrArg _ (funext fun simulated => ?_)
      cases simulated with
      | true => simp [Flow.andThen]
      | false =>
        simp only [cond_false, Bool.false_eq_true, if_false, bind_assoc]
        refine congrArg _ (funext fun flow => ?_)
        cases flow <;> simp [Flow.andThen]
  | exec op ops =>
    rw [Frame.step, start_meaning, meaning_cons, Frame.meaning, bind_assoc]
    refine congrArg _ (funext fun flow => ?_)
    cases flow <;> simp [Flow.select, Flow.andThen, meaning_cons, Frame.meaning]
  | after => simp [Frame.step, meaning_cons, Frame.meaning]
  | ifTest thenOps elseOps =>
    simp [Frame.step, meaning_cons, Frame.meaning, meaning_optional]
  | loop remaining body =>
    cases remaining with
    | zero => simp [Frame.step, meaning_cons, Frame.meaning]
    | succ remaining => simp [Frame.step, meaning_cons, Frame.meaning, repeatM_succ]
  | whileLoop condition body =>
    rw [meaning_cons, Frame.meaning, Sem.whileDo_unfold]
    simp [Frame.step, meaning_cons, Frame.meaning, VM.Runner.test]
  | whileTest condition body =>
    simp only [Frame.step, meaning_cons, Frame.meaning, ends_bind, bind_assoc]
    refine congrArg _ (funext fun value => ?_)
    cases value.isFalsey <;> simp [meaning_cons, Frame.meaning]
  | matchTest cases default => simp [Frame.step, meaning_cons, Frame.meaning, meaning_optional]
  | call name => simp [Frame.step, meaning_cons, Frame.meaning]

/-! ### The machine computes what the interpreter computes -/

theorem machine_step_of_ok {frame : Frame F} {rest K : List (Frame F)} {vm vm' : VM F S}
    (h : frame.step rest vm = .ok K vm') : machine.Step ⟨frame :: rest, vm⟩ ⟨K, vm'⟩ :=
  ⟨rfl, by simp [machine, advance, h]⟩

theorem machine_step_ok {c c' : Config F S} (h : machine.Step c c') :
    ∃ frame rest, c.frames = frame :: rest ∧ frame.step rest c.vm = .ok c'.frames c'.vm := by
  obtain ⟨frames, vm⟩ := c
  obtain ⟨hrun, hstep⟩ := h
  cases frames with
  | nil => cases hrun
  | cons frame rest =>
    refine ⟨frame, rest, rfl, ?_⟩
    simp only [machine, advance] at hstep
    split at hstep
    · next h => cases hstep; exact h
    · cases hstep

theorem machine_faults {c c' : Config F S} {e : Fault F} (h : machine.Faults c e c') :
    ∃ frame rest, c.frames = frame :: rest ∧ c'.frames = frame :: rest ∧
      frame.step rest c.vm = .error (.fault e) c'.vm := by
  obtain ⟨frames, vm⟩ := c
  obtain ⟨hrun, hstep⟩ := h
  cases frames with
  | nil => cases hrun
  | cons frame rest =>
    simp only [machine, advance] at hstep
    split at hstep
    · cases hstep
    · next h =>
      cases hstep
      exact ⟨frame, rest, rfl, rfl, h⟩

theorem meaning_of_outcome {c : Config F S} {r : Outcome (Fault F) (Config F S) Unit}
    (h : machine.outcome c r) : meaning c.frames c.vm (frames.view r) := by
  obtain ⟨n, h⟩ := h
  induction h with
  | @halt c hh =>
    obtain ⟨frames, vm⟩ := c
    cases frames with
    | nil => rfl
    | cons frame rest => cases hh
  | fault hf =>
    obtain ⟨frame, rest, hc, hc', hs⟩ := machine_faults hf
    rw [hc, ← step_meaning]
    exact Sem.bind_error hs
  | step hst _ ih =>
    obtain ⟨frame, rest, hc, hs⟩ := machine_step_ok hst
    rw [hc, ← step_meaning]
    exact Sem.bind_ok hs ih

section computes
open Machine

/-- A frame whose step is `x` followed by a choice of frames. -/
theorem computes_lift {α : Type} {frame : Frame F} {rest : List (Frame F)} {x : Exec F S α}
    {k : α → List (Frame F)} (h : frame.step rest = x >>= fun a => pure (k a)) :
    Computes frames (frame :: rest) (ends x) k := by
  refine .step (fun _ => rfl) (fun vm a vm' hx => ?_) fun vm e vm' hx => ⟨⟨frame :: rest, vm'⟩, ?_⟩
  · have hs : frame.step rest vm = .ok (k a) vm' := by
      rw [h, Comp.bind_of_ok hx]
      rfl
    simp [machine, frames, advance, hs]
  · have hs : frame.step rest vm = .error (.fault e) vm' := by rw [h, Comp.bind_of_error hx]
    simp [machine, frames, advance, hs]

/-- A frame that only rearranges the stack. -/
theorem computes_rearrange {frame : Frame F} {rest K : List (Frame F)}
    (h : frame.step rest = (pure K : Exec F S _)) {α : Type} {m : Sem (Fault F) (VM F S) α}
    {k : α → List (Frame F)} (hm : Computes frames K m k) :
    Computes frames (frame :: rest) m k := by
  refine hm.head fun vm => ⟨rfl, ?_⟩
  have hs : frame.step rest vm = .ok K vm := by
    rw [h]
    rfl
  simp [machine, frames, advance, hs]

variable {n : Nat}
  (ih : ∀ (ops : List (Op F)) (K : List (Frame F)),
    Computes frames (.seq ops :: K) (ends (VM.executeInner n ops : Exec F S Unit)) fun _ => K)
include ih

theorem optional_computes (ops : Option (List (Op F))) (K : List (Frame F)) :
    Computes frames (Frame.optional ops ++ K)
      (ends ((VM.fuelled n : VM.Runner F S _).optional ops)) fun _ => K := by
  cases ops with
  | none => exact .endsPure () fun _ => K
  | some ops => exact ih ops K

theorem repeatM_computes (body : List (Op F)) (K : List (Frame F)) (k : Nat) :
    Computes frames (.loop k body :: K)
      (ends (repeatM (VM.executeInner n body : Exec F S Unit) k)) fun _ => K := by
  induction k with
  | zero => exact computes_rearrange rfl (.endsPure () fun _ => K)
  | succ k ihk =>
    rw [repeatM_succ, ends_bind]
    exact computes_rearrange rfl ((ih body _).bind fun _ => ihk)

theorem whileFuel_computes (condition body : List (Op F)) (K : List (Frame F)) (k : Nat) :
    Computes frames (.whileLoop condition body :: K)
      (ends (whileFuel ((VM.fuelled n : VM.Runner F S _).test condition)
        (VM.executeInner n body) k)) fun _ => K := by
  induction k with
  | zero => exact .outOfFuel _
  | succ k ihk =>
    simp only [whileFuel, VM.Runner.test, bind_assoc, ends_bind]
    refine computes_rearrange rfl ((ih condition _).bind fun _ => (computes_lift rfl).bind ?_)
    intro value
    rw [ends_pure, pure_bind]
    cases value.isFalsey with
    | true => exact .endsPure () fun _ => K
    | false =>
      rw [Bool.not_false, if_pos rfl, ends_bind]
      exact (ih body _).bind fun _ => ihk

theorem flow_computes (op : Op F) (ops : List (Op F)) (K : List (Frame F)) :
    Computes frames (.exec op ops :: K) (ends ((VM.fuelled n : VM.Runner F S _).flow op))
      fun flow => flow.select (.after :: .seq ops :: K) K := by
  have hnext : Computes frames (.after :: .seq ops :: K) (ends (pure Flow.next : Exec F S _))
      fun flow => flow.select (.after :: .seq ops :: K) K :=
    .endsPure Flow.next fun flow => flow.select (.after :: .seq ops :: K) K
  have hleave : Computes frames K (ends (pure Flow.leave : Exec F S _))
      fun flow => flow.select (.after :: .seq ops :: K) K :=
    .endsPure Flow.leave fun flow => flow.select (.after :: .seq ops :: K) K
  cases op with
  | ifOp condition thenOps elseOps =>
    simp only [VM.Runner.flow, VM.Runner.test, bind_assoc, pure_bind, ends_bind]
    refine computes_rearrange rfl ((ih condition _).bind fun _ => (computes_lift rfl).bind ?_)
    exact fun value => (optional_computes ih _ _).bind fun _ => hnext
  | loop count body =>
    simp only [VM.Runner.flow, ends_bind]
    exact computes_rearrange rfl ((repeatM_computes ih body _ count).bind fun _ => hnext)
  | whileOp condition body =>
    simp only [VM.Runner.flow, ends_bind]
    refine computes_rearrange rfl ((whileFuel_computes ih condition body _ n).bind ?_)
    exact fun _ => hnext
  | matchOp value cases default =>
    simp only [VM.Runner.flow, ends_bind]
    refine computes_rearrange rfl ((ih value _).bind fun _ => (computes_lift rfl).bind ?_)
    exact fun value => (optional_computes ih _ _).bind fun _ => hnext
  | call name =>
    simp only [VM.Runner.flow, ends_bind]
    refine (computes_lift rfl).bind fun body => (ih body _).bind fun _ => ?_
    exact (computes_lift rfl).bind fun _ => hnext
  | returnOp =>
    simp only [VM.Runner.flow, ends_bind]
    exact (computes_lift rfl).bind fun _ => hleave
  | breakOp => exact computes_rearrange rfl hleave
  | continueOp => exact computes_rearrange rfl hleave
  | _ => exact computes_lift rfl

theorem executeOps_computes (ops : List (Op F)) (K : List (Frame F)) :
    Computes frames (.seq ops :: K)
      (ends (VM.executeOps (VM.executeInner n) n .none ops : Exec F S Unit)) fun _ => K := by
  induction ops with
  | nil => exact computes_rearrange rfl (.endsPure () fun _ => K)
  | cons op ops ihops =>
    rw [VM.executeOps_cons]
    simp only [VM.Runner.next, bind_assoc, ends_bind]
    refine (computes_lift rfl).bind fun simulated => ?_
    cases simulated with
    | true =>
      simp only [if_true, ends_pure, pure_bind]
      exact ihops
    | false =>
      simp only [Bool.false_eq_true, if_false, bind_assoc, ends_bind]
      refine (flow_computes ih op ops K).bind fun flow => ?_
      cases flow with
      | leave =>
        simp only [reduceCtorEq, if_false, ends_pure, pure_bind]
        exact .endsPure () fun _ => K
      | next =>
        simp only [if_true, ends_bind, ends_pure, bind_assoc, pure_bind]
        exact (computes_lift rfl).bind fun _ => ihops

omit ih in
theorem executeInner_computes (n : Nat) (ops : List (Op F)) (K : List (Frame F)) :
    Computes frames (.seq ops :: K) (ends (VM.executeInner n ops : Exec F S Unit)) fun _ => K := by
  induction n generalizing ops K with
  | zero => exact .outOfFuel _
  | succ n ih => exact executeOps_computes ih ops K

omit ih in
/-- The machine runs a list and takes its frame off. -/
theorem run_computes (ops : List (Op F)) (K : List (Frame F)) :
    Computes frames (.seq ops :: K) (VM.run ops : Sem (Fault F) (VM F S) Unit) fun _ => K where
  ok := fun ⟨n, h⟩ => (executeInner_computes n ops K).ok h
  error := fun ⟨n, h⟩ => (executeInner_computes n ops K).error h

end computes

/-- The outcomes of `execute` are the outcomes of the machine. -/
theorem run_iff_outcome {ops : List (Op F)} {vm : VM F S} {r : Outcome (Fault F) (VM F S) Unit} :
    VM.run ops vm r ↔ ∃ r', machine.outcome ⟨[.seq ops], vm⟩ r' ∧ frames.view r' = r := by
  constructor
  · intro h
    cases r with
    | ok a vm' =>
      refine ⟨.ok () ⟨[], vm'⟩, ?_, rfl⟩
      exact ((run_computes ops []).ok h).outcome ⟨0, .halt rfl⟩
    | error e vm' =>
      obtain ⟨t, u, ht, hf, rfl⟩ := (run_computes ops []).error h
      exact ⟨.error e u, ht.outcome ⟨0, .fault hf⟩, rfl⟩
  · rintro ⟨r', h, rfl⟩
    have := meaning_of_outcome h
    rwa [meaning_cons, meaning_nil, bind_pure] at this

end machine

end Covm
