import Covm.Vm.Effects

/-!
# Vectors and lengths

Where the source indexes a vector, unwraps an option or computes with a length, the operations of
the stack, of the memory and of ranked voting are given once more, with everything that can panic
in place: `v[i]` out of range, `unwrap` of nothing, `usize` arithmetic out of range. Each of these
operations is the one of the model. Memory that is `Framed` has a frame for every index of its call
stack, and a ballot counts for a candidate of the race.

`VM.Indexed.execute` is the interpreter with these operations, and it is `execute`.
-/

namespace Covm

open Partial

section vectors
variable {F σ α : Type}

/-- `v[i]`. -/
def index (v : List α) (i : Nat) : Comp (Fault F) σ α :=
  match v[i]? with
  | some a => pure a
  | none => Comp.fail .panic

/-- `v[i] = a`. -/
def setIndex (v : List α) (i : Nat) (a : α) : Comp (Fault F) σ (List α) :=
  if i < v.length then pure (v.set i a) else Comp.fail .panic

/-- `Option::unwrap`. -/
def unwrap : Option α → Comp (Fault F) σ α
  | some a => pure a
  | none => Comp.fail .panic

/-- `a - b` on `usize`. -/
def subUsize (a b : Nat) : Comp (Fault F) σ Nat :=
  if b ≤ a then pure (a - b) else Comp.fail .panic

theorem index_of_getElem? {v : List α} {i : Nat} {a : α} (h : v[i]? = some a) :
    (index v i : Comp (Fault F) σ α) = pure a := by
  rw [index, h]

theorem setIndex_of_lt {v : List α} {i : Nat} (h : i < v.length) (a : α) :
    (setIndex v i a : Comp (Fault F) σ (List α)) = pure (v.set i a) := if_pos h

theorem subUsize_of_le {a b : Nat} (h : b ≤ a) :
    (subUsize a b : Comp (Fault F) σ Nat) = pure (a - b) := if_pos h

end vectors

/-! ## The stack

The vector of the source has the top of the stack at its end. -/

namespace VMStack.Indexed

variable {F : Type}

def swap : StackOp F Unit := do
  let stack := (← EStateM.get).reverse
  if stack.length < 2 then Comp.fail (.error .stackUnderflow)
  else
    let i ← subUsize stack.length 1
    let j ← subUsize stack.length 2
    let a ← index stack i
    let b ← index stack j
    EStateM.set ((stack.set i b).set j a).reverse

def overOp : StackOp F Unit := do
  let stack := (← EStateM.get).reverse
  if stack.length < 2 then Comp.fail (.error .stackUnderflow)
  else
    let i ← subUsize stack.length 2
    let value ← index stack i
    VMStack.push value

section
variable [Number F]

/-- Whether the values at the given distances from the top equal the top one. -/
def allEqual (stack : List (TypedValue F)) (topValue : TypedValue F) :
    List Nat → StackOp F Bool
  | [] => pure true
  | i :: rest => do
    let last ← subUsize stack.length 1
    let i ← subUsize last i
    let value ← index stack i
    if !value.peq topValue then return false
    allEqual stack topValue rest

def assertEqualStack (depth : Nat) : StackOp F Bool := do
  let stack := (← EStateM.get).reverse
  if stack.length < depth then Comp.fail (.error .stackUnderflow)
  else
    let topValue ← unwrap stack.getLast?
    allEqual stack topValue (List.range' 1 (depth - 1))

end

theorem swap_eq : (swap : StackOp F Unit) = VMStack.swap := by
  funext s
  unfold swap
  rw [Comp.get_bind]
  match s with
  | [] => rfl
  | [_] => rfl
  | b :: a :: s =>
    have hlen : (b :: a :: s).reverse.length = s.length + 2 := by simp
    have hlast : (b :: a :: s).reverse[s.length + 1]? = some b := by simp
    have hsecond : (b :: a :: s).reverse[s.length]? = some a := by simp
    rw [if_neg (by omega), hlen, subUsize_of_le (by omega), subUsize_of_le (by omega)]
    simp only [pure_bind, Nat.add_sub_cancel, show s.length + 2 - 1 = s.length + 1 from rfl,
      index_of_getElem? hlast, index_of_getElem? hsecond]
    simp [VMStack.swap]

theorem overOp_eq : (overOp : StackOp F Unit) = VMStack.overOp := by
  funext s
  unfold overOp
  rw [Comp.get_bind]
  match s with
  | [] => rfl
  | [_] => rfl
  | b :: a :: s =>
    have hlen : (b :: a :: s).reverse.length = s.length + 2 := by simp
    have hsecond : (b :: a :: s).reverse[s.length]? = some a := by simp
    rw [if_neg (by omega), hlen, subUsize_of_le (by omega)]
    simp only [pure_bind, Nat.add_sub_cancel, index_of_getElem? hsecond]
    rfl

section
variable [Number F]

/-- The `n` values below the first `i` ones. -/
theorem allEqual_range' (v : TypedValue F) (rest : VMStack F) (i n : Nat)
    (h : i + n ≤ rest.length) :
    allEqual (v :: rest).reverse v (List.range' (i + 1) n) =
      pure (((rest.drop i).take n).all fun w => w.peq v) := by
  induction n generalizing i with
  | zero => rfl
  | succ n ih =>
    have hlen : (v :: rest).reverse.length = rest.length + 1 := by simp
    have hi : i < rest.length := by omega
    have hget : (v :: rest).reverse[rest.length - (i + 1)]? = some rest[i] := by
      rw [List.getElem?_reverse' (j := i + 1) (by simp; omega), List.getElem?_cons_succ,
        List.getElem?_eq_getElem hi]
    rw [List.range'_succ, allEqual, hlen, subUsize_of_le (by omega), pure_bind,
      Nat.add_sub_cancel, subUsize_of_le (by omega), pure_bind, index_of_getElem? hget, pure_bind,
      List.drop_eq_getElem_cons hi, List.take_succ_cons, List.all_cons, ih (i + 1) (by omega)]
    cases rest[i].peq v <;> rfl

theorem assertEqualStack_eq (depth : Nat) :
    (assertEqualStack depth : StackOp F Bool) = VMStack.assertEqualStack depth := by
  funext s
  unfold assertEqualStack VMStack.assertEqualStack
  rw [Comp.get_bind]
  simp only [List.length_reverse]
  by_cases hlen : s.length < depth
  · rw [if_pos hlen, if_pos hlen]
    rfl
  · rw [if_neg hlen, if_neg hlen]
    cases s with
    | nil => rfl
    | cons v rest =>
      rw [List.getLast?_reverse, List.head?_cons, unwrap, pure_bind,
        allEqual_range' v rest 0 (depth - 1) (by simp at hlen; omega), List.drop_zero]
      rfl

end

end VMStack.Indexed

/-! ## The memory -/

/-- Computations on the memory alone. -/
abbrev MemoryOp (F α : Type) := Comp (Fault F) (Memory F) α

namespace VMMemory

variable {F : Type}

theorem Framed.setFrame {m : VMMemory F} (h : m.Framed) (idx : Nat) (frame : TypedCallFrame F) :
    Framed { m with callFrames := m.callFrames.set idx frame } := by
  unfold Framed at *
  simp [h]

/-- Every index of the call stack has its frame. -/
theorem Framed.getElem? {m : VMMemory F} (h : m.Framed) {idx : Nat} (hidx : idx ∈ m.callStack) :
    ∃ frame, m.callFrames[idx]? = some frame := by
  rw [show m.callStack = _ from h, List.mem_range] at hidx
  exact ⟨_, List.getElem?_eq_getElem hidx⟩

namespace Indexed

def store (name : String) (value : TypedValue F) : MemoryOp F Unit := do
  let m ← EStateM.get
  match m.1.callStack.getLast? with
  | some idx =>
    let frame ← index m.1.callFrames idx
    let frame := { frame with memory := frame.memory.insert name value }
    EStateM.set ⟨{ m.1 with callFrames := m.1.callFrames.set idx frame }, m.2.setFrame idx frame⟩
  | none => EStateM.set ⟨{ m.1 with memory := m.1.memory.insert name value }, m.2⟩

def load (name : String) : MemoryOp F (TypedValue F) := do
  let m ← EStateM.get
  let global : MemoryOp F (TypedValue F) :=
    match m.1.memory.lookup name with
    | some v => pure v
    | none => Comp.fail (.error (.undefinedVariable name))
  match m.1.callStack.getLast? with
  | some idx =>
    let frame ← index m.1.callFrames idx
    match frame.memory.lookup name with
    | some v => return v
    | none =>
      match frame.params.lookup name with
      | some v => return v
      | none => global
  | none => global

def getMemoryMap : MemoryOp F (HashMap (TypedValue F)) := do
  let m ← EStateM.get
  match m.1.callStack.getLast? with
  | some idx =>
    let frame ← index m.1.callFrames idx
    return frame.memory ∪ (frame.params ∪ m.1.memory)
  | none => return m.1.memory

def formatMemory [Number F] : MemoryOp F String := do
  let items := (sortedEntries (← getMemoryMap)).map fun (k, v) => s!"{k}: {v.display}"
  if items.isEmpty then return "Memory: \x7b\x7d"
  else return "Memory: \x7b\n  " ++ ",\n  ".intercalate (items.mergeSort (· ≤ ·)) ++ "\n\x7d"

/-- The functions that are being called, the outermost first. -/
def callNames (frames : List (TypedCallFrame F)) : List (Nat × Nat) → MemoryOp F (List String)
  | [] => pure []
  | (idx, i) :: rest => do
    let frame ← index frames idx
    let names ← callNames frames rest
    return s!"{i}. {frame.functionName}" :: names

def formatCallStack : MemoryOp F String := do
  let m ← EStateM.get
  if m.1.callFrames.isEmpty then return "Call Stack: []"
  else
    let items ← callNames m.1.callFrames m.1.callStack.zipIdx
    return "Call Stack: [" ++ ", ".intercalate items ++ "]"

def display [Number F] : MemoryOp F String := do
  let memory ← formatMemory
  let callStack ← formatCallStack
  let names := (sortedEntries (← EStateM.get).1.functions).map fun (name, _) => s!"  {name}\n"
  return memory ++ "\n" ++ callStack ++ "\n" ++
    if names.isEmpty then "" else "Functions: [\n" ++ String.join names ++ "]\n"

theorem store_apply (name : String) (value : TypedValue F) (m : Memory F) :
    store name value m = .ok () ⟨m.1.store name value, m.2.store name value⟩ := by
  unfold store
  rw [Comp.get_bind]
  cases hlast : m.1.callStack.getLast? with
  | none => simp [VMMemory.store, hlast]
  | some idx =>
    obtain ⟨frame, hframe⟩ := m.2.getElem? (List.mem_of_getLast? hlast)
    obtain ⟨hidx, rfl⟩ := List.getElem?_eq_some_iff.mp hframe
    simp [VMMemory.store, hlast, index_of_getElem? hframe,
      List.modify_eq_set_getElem?, hframe]

theorem load_apply (name : String) (m : Memory F) :
    load name m =
      match m.1.load name with
      | .ok v => .ok v m
      | .error e => .error (.fault (.error e)) m := by
  unfold load
  rw [Comp.get_bind]
  cases hlast : m.1.callStack.getLast? with
  | none =>
    simp only [VMMemory.load, hlast]
    cases m.1.memory.lookup name <;> rfl
  | some idx =>
    obtain ⟨frame, hframe⟩ := m.2.getElem? (List.mem_of_getLast? hlast)
    simp only [VMMemory.load, hlast, hframe, index_of_getElem? hframe, pure_bind]
    cases frame.memory.lookup name with
    | some v => rfl
    | none =>
      cases frame.params.lookup name with
      | some v => rfl
      | none => cases m.1.memory.lookup name <;> rfl

theorem getMemoryMap_apply (m : Memory F) : getMemoryMap m = .ok m.1.getMemoryMap m := by
  unfold getMemoryMap
  rw [Comp.get_bind]
  cases hlast : m.1.callStack.getLast? with
  | none => simp only [VMMemory.getMemoryMap, hlast, Comp.pure_apply]
  | some idx =>
    obtain ⟨frame, hframe⟩ := m.2.getElem? (List.mem_of_getLast? hlast)
    simp only [VMMemory.getMemoryMap, hlast, hframe, index_of_getElem? hframe, pure_bind,
      Comp.pure_apply]

theorem callNames_eq {frames : List (TypedCallFrame F)} {calls : List (Nat × Nat)}
    (h : ∀ call ∈ calls, ∃ frame, frames[call.1]? = some frame) :
    callNames frames calls = pure (calls.filterMap fun (idx, i) =>
      (frames[idx]?).map fun frame => s!"{i}. {frame.functionName}") := by
  induction calls with
  | nil => rfl
  | cons call calls ih =>
    obtain ⟨frame, hframe⟩ := h call List.mem_cons_self
    have ih := ih fun c hc => h c (List.mem_cons_of_mem _ hc)
    simp only [callNames, index_of_getElem? hframe, ih, pure_bind, List.filterMap_cons, hframe,
      Option.map_some]

theorem formatCallStack_apply (m : Memory F) : formatCallStack m = .ok m.1.formatCallStack m := by
  unfold formatCallStack VMMemory.formatCallStack
  rw [Comp.get_bind]
  have hcalls : ∀ call ∈ m.1.callStack.zipIdx, ∃ frame, m.1.callFrames[call.1]? = some frame :=
    fun call hcall => m.2.getElem? (List.fst_mem_of_mem_zipIdx hcall)
  rw [callNames_eq hcalls]
  split <;> rfl

theorem display_apply [Number F] (m : Memory F) : display m = .ok m.1.display m := by
  have hmemory : (formatMemory : MemoryOp F String) m = .ok m.1.formatMemory m := by
    unfold formatMemory VMMemory.formatMemory
    rw [Comp.bind_of_ok (getMemoryMap_apply m)]
    dsimp only
    split <;> rfl
  unfold display
  rw [Comp.bind_of_ok hmemory, Comp.bind_of_ok (formatCallStack_apply m)]
  rfl

end Indexed

end VMMemory

/-! ## Ranked voting -/

namespace Governance

variable {F S : Type} [Number F]

open VM

namespace Indexed

/-- One vote more for the first choice of a ballot that is still in the race. -/
def countBallot (candidates : Nat) (eliminated : List Bool) (votes : List Nat) :
    List F → Exec F S (List Nat)
  | [] => pure votes
  | choice :: rest => do
    let candidate := Number.toU64 choice
    if candidate < candidates then
      if ← index eliminated candidate then countBallot candidates eliminated votes rest
      else
        let count ← index votes candidate
        let count ← addUsize count 1
        setIndex votes candidate count
    else countBallot candidates eliminated votes rest

def countVotes (candidates : Nat) (eliminated : List Bool) :
    List (List F) → List Nat → Exec F S (List Nat)
  | [], votes => pure votes
  | ballot :: rest, votes => do
    let votes ← countBallot candidates eliminated votes ballot
    countVotes candidates eliminated rest votes

/-- The candidate with the fewest votes so far, and its votes. -/
def fewestVotes (eliminated : List Bool) :
    List (Nat × Nat) → Nat × Nat → Exec F S (Nat × Nat)
  | [], fewest => pure fewest
  | (votes, candidate) :: rest, fewest => do
    let out ← index eliminated candidate
    fewestVotes eliminated rest
      (if !out && decide (votes < fewest.2) && decide (0 < votes) then (candidate, votes)
      else fewest)

/-- The rounds while more than one candidate remains. -/
def eliminationRounds (candidates ballots : Nat) (allBallots : List (List F)) :
    Nat → List Bool → Exec F S (List Bool)
  | remaining + 2, eliminated => do
    let votes ← countVotes candidates eliminated allBallots (List.replicate candidates 0)
    let limit ← addUsize ballots 1
    let (minCandidate, minVotes) ← fewestVotes eliminated votes.zipIdx (0, limit)
    let eliminated ← setIndex eliminated minCandidate true
    governanceEvent s!"Eliminated candidate {minCandidate} with {minVotes} votes"
    eliminationRounds candidates ballots allBallots (remaining + 1) eliminated
  | _, eliminated => pure eliminated

def handleRankedVote (candidates ballots : Nat) : Exec F S Unit := do
  refuse (candidates < 2) "RankedVote requires at least 2 candidates"
  refuse (ballots < 1) "RankedVote requires at least 1 ballot"
  let allBallots ← popBallots candidates ballots
  governanceEvent
    s!"Running ranked-choice vote with {candidates} candidates and {ballots} ballots"
  let eliminated ← eliminationRounds candidates ballots allBallots candidates
    (List.replicate candidates false)
  let winner := if eliminated.contains false then eliminated.idxOf false else 0
  governanceEvent s!"Winner of ranked-choice vote: candidate {winner}"
  push (.number (Number.ofNat winner))

/-- The votes of the candidates after some first choices. -/
def tally (candidates : Nat) (choices : List Nat) : List Nat :=
  (List.range candidates).map fun c => choices.count c

theorem length_tally (candidates : Nat) (choices : List Nat) :
    (tally candidates choices).length = candidates := by
  simp [tally]

theorem getElem?_tally {candidates c : Nat} (h : c < candidates) (choices : List Nat) :
    (tally candidates choices)[c]? = some (choices.count c) := by
  simp [tally, h]

theorem tally_concat {candidates c : Nat} (choices : List Nat) :
    tally candidates (choices ++ [c]) =
      (tally candidates choices).set c (choices.count c + 1) := by
  apply List.ext_getElem?
  intro d
  by_cases hd : d < candidates
  · rw [getElem?_tally hd, List.getElem?_set, length_tally, getElem?_tally hd, List.count_append]
    by_cases hcd : c = d
    · subst hcd
      simp [hd]
    · simp [hcd]
  · rw [List.getElem?_eq_none (by rw [length_tally]; omega),
      List.getElem?_eq_none (by rw [List.length_set, length_tally]; omega)]

section
variable {candidates : Nat} {eliminated : List Bool} (hlen : eliminated.length = candidates)
include hlen

/-- A ballot counts for its first choice. Only the addition can go out of range. -/
theorem countBallot_eq (ballot : List F) (choices : List Nat) :
    (countBallot candidates eliminated (tally candidates choices) ballot : Exec F S _) =
      match firstChoice candidates eliminated ballot with
      | some c =>
        if choices.count c + 1 < 2 ^ 64 then pure (tally candidates (choices ++ [c]))
        else Comp.fail .panic
      | none => pure (tally candidates choices) := by
  induction ballot with
  | nil => rfl
  | cons choice rest ih =>
    unfold firstChoice at ih ⊢
    rw [List.map_cons, List.find?_cons, countBallot]
    by_cases hc : Number.toU64 choice < candidates
    · have helim : eliminated[Number.toU64 choice]? =
          some (eliminated.getD (Number.toU64 choice) true) := by
        rw [List.getD_eq_getElem?_getD, List.getElem?_eq_getElem (by omega)]
        rfl
      rw [if_pos hc, index_of_getElem? helim, pure_bind]
      cases hout : eliminated.getD (Number.toU64 choice) true with
      | true =>
        rw [if_pos rfl, ih]
        simp
      | false =>
        rw [if_neg Bool.false_ne_true, index_of_getElem? (getElem?_tally hc choices), pure_bind]
        simp only [hc, decide_true, Bool.not_false, Bool.and_self]
        by_cases hadd : choices.count (Number.toU64 choice) + 1 < 2 ^ 64
        · rw [addUsize_of_lt hadd, pure_bind,
            setIndex_of_lt (by rw [length_tally]; exact hc), if_pos hadd, tally_concat]
        · rw [addUsize_of_le (by omega), if_neg hadd]
          rfl
    · rw [if_neg hc, ih]
      simp [hc]

/-- The votes are those of the model, or there are more ballots than a `usize` can count. -/
theorem countVotes_cases (ballots : List (List F)) (choices : List Nat) :
    (countVotes candidates eliminated ballots (tally candidates choices) : Exec F S _) =
        pure (tally candidates
          (choices ++ ballots.filterMap (firstChoice candidates eliminated))) ∨
      (countVotes candidates eliminated ballots (tally candidates choices) : Exec F S _) =
        Comp.fail .panic ∧ 2 ^ 64 ≤ choices.length + ballots.length := by
  induction ballots generalizing choices with
  | nil => exact .inl (by simp [countVotes])
  | cons ballot rest ih =>
    rw [countVotes, countBallot_eq hlen]
    cases hfirst : firstChoice candidates eliminated ballot with
    | none =>
      dsimp only
      rw [pure_bind, List.filterMap_cons_none hfirst]
      refine (ih choices).imp id ?_
      rintro ⟨hpanic, hle⟩
      exact ⟨hpanic, by rw [List.length_cons]; omega⟩
    | some c =>
      dsimp only
      rw [List.filterMap_cons_some hfirst]
      by_cases hadd : choices.count c + 1 < 2 ^ 64
      · have happend : choices ++ c :: rest.filterMap (firstChoice candidates eliminated) =
            choices ++ [c] ++ rest.filterMap (firstChoice candidates eliminated) :=
          List.append_cons _ _ _
        rw [if_pos hadd, pure_bind, happend]
        refine (ih (choices ++ [c])).imp id ?_
        rintro ⟨hpanic, hle⟩
        rw [List.length_append, List.length_singleton] at hle
        exact ⟨hpanic, by rw [List.length_cons]; omega⟩
      · rw [if_neg hadd]
        have hcount := List.count_le_length (a := c) (l := choices)
        exact .inr ⟨rfl, by rw [List.length_cons]; omega⟩

omit [Number F] hlen in
theorem fewestVotes_eq {votes : List (Nat × Nat)} (h : ∀ v ∈ votes, v.2 < eliminated.length)
    (fewest : Nat × Nat) :
    (fewestVotes eliminated votes fewest : Exec F S _) =
      pure (votes.foldl (fun (acc : Nat × Nat) (v : Nat × Nat) =>
        if !(eliminated.getD v.2 true) && decide (v.1 < acc.2) && decide (0 < v.1) then (v.2, v.1)
        else acc) fewest) := by
  induction votes generalizing fewest with
  | nil => rfl
  | cons v votes ih =>
    have hv := h v List.mem_cons_self
    have helim : eliminated[v.2]? = some (eliminated.getD v.2 true) := by
      rw [List.getD_eq_getElem?_getD, List.getElem?_eq_getElem hv]
      rfl
    rw [fewestVotes, index_of_getElem? helim, pure_bind,
      ih fun w hw => h w (List.mem_cons_of_mem _ hw), List.foldl_cons]

omit hlen in
/-- The candidate with the fewest votes is one of the race, or candidate `0`. -/
theorem fewestVotes_lt (eliminated : List Bool) (h : 0 < candidates) (limit : Nat) (choices : List Nat) :
    (Governance.fewestVotes limit eliminated (tally candidates choices)).1 < candidates := by
  unfold Governance.fewestVotes
  have hmem : ∀ v ∈ (tally candidates choices).zipIdx, v.2 < candidates := by
    intro v hv
    have hlt := List.snd_lt_of_mem_zipIdx hv
    rwa [length_tally, Nat.add_zero] at hlt
  generalize (tally candidates choices).zipIdx = votes at hmem
  have hstart : ((0, limit) : Nat × Nat).1 < candidates := h
  generalize ((0, limit) : Nat × Nat) = fewest at hstart
  induction votes generalizing fewest with
  | nil => exact hstart
  | cons v votes ih =>
    rw [List.foldl_cons]
    apply ih (fun w hw => hmem w (List.mem_cons_of_mem _ hw))
    split
    · exact hmem v List.mem_cons_self
    · exact hstart

/-- As many rounds as there are candidates to eliminate. -/
theorem eliminationRounds_eq {ballots : Nat} {allBallots : List (List F)}
    (hballots : allBallots.length = ballots) (hpos : 0 < candidates) (rounds : Nat) :
    (eliminationRounds candidates ballots allBallots (rounds + 1) eliminated : Exec F S _) =
      Governance.eliminationRounds candidates ballots allBallots rounds eliminated := by
  induction rounds generalizing eliminated with
  | zero => rfl
  | succ rounds ih =>
    have hvotes : Governance.countVotes candidates eliminated allBallots =
        tally candidates (allBallots.filterMap (firstChoice candidates eliminated)) := rfl
    rw [eliminationRounds, Governance.eliminationRounds, hvotes]
    have hstart : List.replicate candidates 0 = tally candidates [] := by
      simp [tally]
    rw [hstart]
    rcases countVotes_cases (S := S) hlen allBallots [] with hcount | ⟨hcount, hle⟩
    · rw [hcount, pure_bind, List.nil_append]
      refine congrArg _ (funext fun limit => ?_)
      generalize allBallots.filterMap (firstChoice candidates eliminated) = choices
      have hmem : ∀ v ∈ (tally candidates choices).zipIdx, v.2 < eliminated.length := by
        intro v hv
        have hlt := List.snd_lt_of_mem_zipIdx hv
        rwa [length_tally, Nat.add_zero, ← hlen] at hlt
      have hmin := fewestVotes_lt eliminated hpos limit choices
      rw [fewestVotes_eq hmem, pure_bind]
      show (setIndex eliminated (Governance.fewestVotes limit eliminated _).1 true >>= _) = _
      rw [setIndex_of_lt (by omega), pure_bind]
      refine congrArg _ (funext fun _ => ?_)
      exact ih (by rw [List.length_set, hlen])
    · rw [hcount, addUsize_of_le (by simp at hle; omega)]
      rfl

end

end Indexed

theorem length_popBallots {candidates n : Nat} {vm vm' : VM F S} {ballots : List (List F)}
    (h : popBallots candidates n vm = .ok ballots vm') : ballots.length = n := by
  induction n generalizing vm ballots with
  | zero =>
    cases h
    rfl
  | succ n ih =>
    rw [popBallots, Comp.bind_eq_ok_iff] at h
    obtain ⟨ballot, vm₁, -, h⟩ := h
    rw [Comp.bind_eq_ok_iff] at h
    obtain ⟨rest, vm₂, hrest, h⟩ := h
    cases h
    rw [List.length_cons, ih hrest]

theorem Indexed.handleRankedVote_eq (candidates ballots : Nat) :
    (Indexed.handleRankedVote candidates ballots : Exec F S Unit) =
      Governance.handleRankedVote candidates ballots := by
  funext vm
  unfold Indexed.handleRankedVote Governance.handleRankedVote
  by_cases hcandidates : candidates < 2
  · simp only [hcandidates, decide_true, refuse, if_true]
    rfl
  · refine congrFun (congrArg _ (funext fun _ => congrArg _ (funext fun _ => ?_))) vm
    funext vm
    cases hpop : (popBallots candidates ballots : Exec F S _) vm with
    | error e vm' => rw [Comp.bind_of_error hpop, Comp.bind_of_error hpop]
    | ok allBallots vm' =>
      rw [Comp.bind_of_ok hpop, Comp.bind_of_ok hpop]
      obtain ⟨rounds, rfl⟩ : ∃ rounds, candidates = rounds + 1 := ⟨candidates - 1, by omega⟩
      rw [Indexed.eliminationRounds_eq List.length_replicate (length_popBallots hpop)
        (Nat.succ_pos rounds)]
      rfl

end Governance

/-! ## The interpreter -/

namespace VM

variable {F S : Type}

def onMemory {α : Type} (x : MemoryOp F α) : Exec F S α :=
  Comp.zoom VM.memory (fun m vm => { vm with memory := m }) x

namespace Indexed

section
variable [Number F]

def assertMemory (key : String) (expected : TypedValue F) : Exec F S Unit := do
  let actual ← onMemory (VMMemory.Indexed.load key)
  if !holdsEqual actual expected then
    raise (.assertionFailed
      s!"Memory '{key}': expected {expected.display}, got {actual.display}")

def assertEqualStack (depth : Nat) : Exec F S Unit := do
  if !(← onStack (VMStack.Indexed.assertEqualStack depth)) then
    raise (.assertionFailed s!"Stack depth {depth} values are not equal")

def dumpMemory : Exec F S Unit := do emit (← onMemory VMMemory.Indexed.display)

/-- The operations with an arm of their own that run no block and fall through. -/
def executeBasic [StorageBackend S] : Op F → Option (Exec F S Unit)
  | .store name => some do
    let value ← pop
    onMemory (VMMemory.Indexed.store name value)
  | .load name => some do
    let value ← onMemory (VMMemory.Indexed.load name)
    push value
  | .dumpMemory => some dumpMemory
  | .assertMemory key expected => some (assertMemory key expected)
  | .swap => some (onStack VMStack.Indexed.swap)
  | .overOp => some (onStack VMStack.Indexed.overOp)
  | .assertEqualStack depth => some (assertEqualStack depth)
  | .dumpState => some do
    dumpStack
    dumpMemory
  | op => VM.executeBasic op

def tryHandleGovernanceOp [SerdeJson] : Op F → Exec F S (Option Unit)
  | .rankedVote candidates ballots =>
    some <$> Governance.Indexed.handleRankedVote candidates ballots
  | op => Governance.tryHandleGovernanceOp op

/-- The operations that run a block or leave one: none of them has an index. -/
def isControl : Op F → Bool
  | .ifOp .. | .loop .. | .whileOp .. | .matchOp .. | .call _ | .returnOp | .breakOp
  | .continueOp => true
  | _ => false

variable [StorageBackend S] [SerdeJson]

def executePlain (op : Op F) : Exec F S Flow :=
  match executeBasic op with
  | some x => do
    x
    return .next
  | none => do
    match ← tryHandleGovernanceOp op with
    | some () => return .leave
    | none => raise (.notImplemented (.op op))

section block
variable (inner : List (Op F) → Exec F S Unit) (fuel : Nat)

/-- The `match op` of `execute_inner`. -/
def executeOp (control : LoopControl) (op : Op F) : Exec F S (Flow × LoopControl) :=
  if isControl op then VM.executeOp inner fuel control op
  else do
    let flow ← executePlain op
    return (flow, control)

/-- One iteration of the `for` loop of `execute_inner`. -/
def executeNext (control : LoopControl) (op : Op F) : Exec F S (Flow × LoopControl) := do
  logTrace op
  logExplanation op
  if (← get).simulationMode && isSimulated op then
    simulate op
    return (.next, control)
  else
    let (flow, control) ← executeOp inner fuel control op
    if flow = .next then recordStackAfter
    return (flow, control)

def executeOps (control : LoopControl) : List (Op F) → Exec F S Unit
  | [] => pure ()
  | op :: ops => do
    let (flow, control) ← executeNext inner fuel control op
    match flow with
    | .next => executeOps control ops
    | .leave => pure ()

end block

def executeInner : Nat → List (Op F) → Exec F S Unit
  | 0, _ => Comp.outOfFuel
  | fuel + 1, ops => executeOps (executeInner fuel) fuel .none ops

def execute (fuel : Nat) (ops : List (Op F)) : Exec F S Unit := executeInner fuel ops

end

theorem onMemory_store (name : String) (value : TypedValue F) :
    (onMemory (VMMemory.Indexed.store name value) : Exec F S Unit) = VM.store name value := by
  funext vm
  rw [onMemory, Comp.zoom, VMMemory.Indexed.store_apply]
  rfl

theorem onMemory_load (name : String) :
    (onMemory (VMMemory.Indexed.load name) : Exec F S _) = VM.load name := by
  funext vm
  rw [onMemory, Comp.zoom, VMMemory.Indexed.load_apply, VM.load]
  cases vm.memory.1.load name <;> rfl

variable [Number F]

theorem dumpMemory_eq : (dumpMemory : Exec F S Unit) = VM.dumpMemory := by
  funext vm
  have hdisplay : (onMemory VMMemory.Indexed.display : Exec F S _) vm =
      .ok vm.memory.1.display vm := by
    rw [onMemory, Comp.zoom, VMMemory.Indexed.display_apply]
  rw [dumpMemory, Comp.bind_of_ok hdisplay]
  rfl

theorem executeBasic_eq [StorageBackend S] (op : Op F) :
    (executeBasic op : Option (Exec F S Unit)) = VM.executeBasic op := by
  cases op with
  | store name => simp only [executeBasic, VM.executeBasic, onMemory_store]
  | load name => simp only [executeBasic, VM.executeBasic, onMemory_load]
  | dumpMemory => rw [executeBasic, VM.executeBasic, dumpMemory_eq]
  | assertMemory key expected =>
    simp only [executeBasic, VM.executeBasic, assertMemory, VM.assertMemory, onMemory_load]
  | swap => rw [executeBasic, VM.executeBasic, VMStack.Indexed.swap_eq]
  | overOp => rw [executeBasic, VM.executeBasic, VMStack.Indexed.overOp_eq]
  | assertEqualStack depth =>
    simp only [executeBasic, VM.executeBasic, assertEqualStack, VM.assertEqualStack,
      VMStack.Indexed.assertEqualStack_eq]
  | dumpState => simp only [executeBasic, VM.executeBasic, dumpMemory_eq]
  | _ => rfl

theorem tryHandleGovernanceOp_eq [SerdeJson] (op : Op F) :
    (tryHandleGovernanceOp op : Exec F S _) = Governance.tryHandleGovernanceOp op := by
  cases op with
  | rankedVote candidates ballots =>
    rw [tryHandleGovernanceOp, Governance.Indexed.handleRankedVote_eq]
    rfl
  | _ => rfl

variable [StorageBackend S] [SerdeJson]

theorem executePlain_eq (op : Op F) : (executePlain op : Exec F S _) = VM.executePlain op := by
  unfold executePlain VM.executePlain
  rw [executeBasic_eq]
  cases (VM.executeBasic op : Option (Exec F S Unit)) with
  | some x => rfl
  | none =>
    refine congrArg₂ (· >>= ·) (tryHandleGovernanceOp_eq op) (funext fun handled => ?_)
    cases handled <;> rfl

theorem executeOp_eq (inner : List (Op F) → Exec F S Unit) (fuel : Nat) (control : LoopControl)
    (op : Op F) : executeOp inner fuel control op = VM.executeOp inner fuel control op := by
  unfold executeOp
  split
  · rfl
  · next h =>
    rw [executePlain_eq]
    cases op with
    | ifOp | loop | whileOp | matchOp | call | returnOp | breakOp | continueOp => exact absurd rfl h
    | _ => rfl

theorem executeOps_eq (inner : List (Op F) → Exec F S Unit) (fuel : Nat) (control : LoopControl)
    (ops : List (Op F)) :
    executeOps inner fuel control ops = VM.executeOps inner fuel control ops := by
  induction ops generalizing control with
  | nil => rfl
  | cons op ops ih =>
    have hnext : executeNext inner fuel control op = VM.executeNext inner fuel control op := by
      simp only [executeNext, VM.executeNext, executeOp_eq]
    refine congrArg₂ (· >>= ·) hnext (funext fun next => ?_)
    obtain ⟨flow, control⟩ := next
    cases flow with
    | next => exact ih control
    | leave => rfl

/-- With every index in its place, the interpreter computes the same. -/
theorem execute_eq (fuel : Nat) (ops : List (Op F)) :
    (execute fuel ops : Exec F S Unit) = VM.execute fuel ops := by
  show executeInner fuel ops = VM.executeInner fuel ops
  induction fuel generalizing ops with
  | zero => rfl
  | succ fuel ih =>
    have hinner : (executeInner fuel : List (Op F) → Exec F S Unit) = VM.executeInner fuel :=
      funext ih
    rw [executeInner, VM.executeInner, hinner, executeOps_eq]

end Indexed

end VM

end Covm
