import Covm.Governance.Handlers
import Covm.Number.Binary64
import Covm.Voting.Runoff

/-!
# Ranked-choice voting (`governance/ranked_vote.rs`)

The state of the loop is a `Race`: who is eliminated, and how many remain. On ballots that rank all
candidates every round is a round of an election by elimination, in which candidates without votes
stay. So every round eliminates one candidate more, and one is left; but a candidate that most
ballots have first is the one that is left only if every other candidate is preferred to it on some
ballot.
-/

namespace Covm.Governance

open Partial VM
open Voting (Eliminable Complete Prefers)

section
variable {F : Type} [Number F]

/-- A ballot that ranks the candidates, the first choice first: it is a permutation of `0`, `1`, up
to `candidates - 1`, as numbers of the machine. -/
structure RankedBallot (F : Type) [Number F] (candidates : Nat) where
  choices : List F
  ranks : (choices.map Number.toU64).Perm (List.range candidates)
  exact : ∀ v ∈ choices, Number.ofNat (Number.toU64 v) = v

namespace RankedBallot

variable {candidates : Nat}

def order (ballot : RankedBallot F candidates) : List Nat := ballot.choices.map Number.toU64

theorem mem_order (ballot : RankedBallot F candidates) {c : Nat} :
    c ∈ ballot.order ↔ c < candidates :=
  (ballot.ranks.mem_iff).trans List.mem_range

theorem length_choices (ballot : RankedBallot F candidates) :
    ballot.choices.length = candidates := by
  simpa using ballot.ranks.length_eq

/-- Where there is a ballot, different candidates have different numbers. -/
theorem ofNat_inj (ballot : RankedBallot F candidates) {c d : Nat} (hc : c < candidates)
    (hd : d < candidates) (h : (Number.ofNat c : F) = Number.ofNat d) : c = d := by
  have hnumber : ∀ {e : Nat}, e < candidates → Number.toU64 (Number.ofNat e : F) = e := by
    intro e he
    obtain ⟨v, hv, rfl⟩ := List.mem_map.mp (ballot.mem_order.mpr he)
    rw [ballot.exact v hv]
  rw [← hnumber hc, h, hnumber hd]

end RankedBallot

/-- What the loop of the handler works on. -/
structure Race where
  eliminated : List Bool
  remaining : Nat

namespace Race

def start (candidates : Nat) : Race := ⟨List.replicate candidates false, candidates⟩

/-- The candidates that are not eliminated. -/
def inRace (r : Race) : Finset Nat :=
  (Finset.range r.eliminated.length).filter fun c => r.eliminated[c]? = some false

/-- The candidate the round eliminates, and its votes. -/
def loser (candidates ballots : Nat) (allBallots : List (List F)) (r : Race) : Nat × Nat :=
  fewestVotes (ballots + 1) r.eliminated (countVotes candidates r.eliminated allBallots)

/-- One pass of the loop, which goes on while more than one candidate remains. -/
def round (candidates ballots : Nat) (allBallots : List (List F)) (r : Race) : Race where
  eliminated := r.eliminated.set (r.loser candidates ballots allBallots).1 true
  remaining := r.remaining - 1

/-- The race after `n` rounds. -/
def after (candidates ballots : Nat) (allBallots : List (List F)) (n : Nat) : Race :=
  (round candidates ballots allBallots)^[n] (start candidates)

def winner (r : Race) : Nat := if r.eliminated.contains false then r.eliminated.idxOf false else 0

@[simp] theorem after_zero (candidates ballots : Nat) (allBallots : List (List F)) :
    after candidates ballots allBallots 0 = start candidates := rfl

theorem after_succ (candidates ballots : Nat) (allBallots : List (List F)) (n : Nat) :
    after candidates ballots allBallots (n + 1) =
      round candidates ballots allBallots (after candidates ballots allBallots n) :=
  Function.iterate_succ_apply' _ _ _

theorem length_after (candidates ballots : Nat) (allBallots : List (List F)) (n : Nat) :
    (after candidates ballots allBallots n).eliminated.length = candidates := by
  induction n with
  | zero => exact List.length_replicate
  | succ n ih => rw [after_succ, round, List.length_set, ih]

theorem remaining_after (candidates ballots : Nat) (allBallots : List (List F)) (n : Nat) :
    (after candidates ballots allBallots n).remaining = candidates - n := by
  induction n with
  | zero => rfl
  | succ n ih => rw [after_succ, round, ih, Nat.sub_add_eq]

theorem mem_inRace {r : Race} {c : Nat} : c ∈ r.inRace ↔ r.eliminated[c]? = some false := by
  rw [inRace, Finset.mem_filter, Finset.mem_range, and_iff_right_iff_imp]
  exact fun h => (List.getElem?_eq_some_iff.mp h).1

theorem mem_inRace_iff_getD {r : Race} {c : Nat} :
    c ∈ r.inRace ↔ r.eliminated.getD c true = false := by
  rw [mem_inRace, List.getD_eq_getElem?_getD]
  cases r.eliminated[c]? <;> simp

theorem inRace_start (candidates : Nat) : (start candidates).inRace = Finset.range candidates := by
  ext c
  simp [mem_inRace, start, List.getElem?_replicate]

/-- Who is eliminated leaves the race. -/
theorem inRace_set (r : Race) (c n : Nat) :
    (⟨r.eliminated.set c true, n⟩ : Race).inRace = r.inRace.erase c := by
  ext d
  simp only [mem_inRace, Finset.mem_erase]
  by_cases hdc : d = c
  · subst hdc
    by_cases hd : d < r.eliminated.length
    · simp [hd]
    · simp [hd]
  · rw [List.getElem?_set_ne (Ne.symm hdc)]
    simp [hdc]

end Race

/-! ### One round -/

section
variable {candidates : Nat} {r : Race}

/-- A ballot counts for the first of its candidates that is in the race. -/
theorem firstChoice_eq (hlen : r.eliminated.length = candidates) (choices : List F) :
    firstChoice candidates r.eliminated choices =
      Voting.top r.inRace (choices.map Number.toU64) := by
  refine congrArg (fun p => List.find? p _) (funext fun c => ?_)
  have hlt : c ∈ r.inRace → c < candidates := fun hc =>
    hlen ▸ (List.getElem?_eq_some_iff.mp (Race.mem_inRace.mp hc)).1
  by_cases hc : c ∈ r.inRace
  · rw [decide_eq_true hc, decide_eq_true (hlt hc), Race.mem_inRace_iff_getD.mp hc]
    rfl
  · have hout : r.eliminated.getD c true = true :=
      Bool.eq_true_of_not_eq_false fun h => hc (Race.mem_inRace_iff_getD.mpr h)
    rw [decide_eq_false hc, hout, Bool.not_true, Bool.and_false]

theorem countVotes_eq (hlen : r.eliminated.length = candidates) (allBallots : List (List F)) :
    countVotes candidates r.eliminated allBallots = (List.range candidates).map
      (Voting.votes (allBallots.map fun choices => choices.map Number.toU64) r.inRace) := by
  refine List.map_congr_left fun c _ => ?_
  simp only [Voting.votes, List.countP_map, List.count_eq_countP, List.countP_filterMap]
  refine List.countP_congr fun choices _ => ?_
  simp only [firstChoice_eq hlen, Function.comp_apply, decide_eq_true_eq]
  cases Voting.top r.inRace (choices.map Number.toU64) <;> simp

/-- The minimum search: what it has found so far is a minimum of what it has seen. -/
theorem fewestVotes_spec {votes : Nat → Nat} (n limit : Nat) {out : Nat → Bool}
    (hlimit : ∀ c < n, votes c < limit) :
    let found := ((List.range n).map fun c => (votes c, c)).foldl
      (fun (acc : Nat × Nat) (v : Nat × Nat) =>
        if !out v.2 && decide (v.1 < acc.2) && decide (0 < v.1) then (v.2, v.1) else acc) (0, limit)
    (found = (0, limit) ∧ ∀ c < n, out c = false → votes c = 0) ∨
      (found.1 < n ∧ out found.1 = false ∧ found.2 = votes found.1 ∧ 0 < found.2 ∧
        ∀ c < n, out c = false → 0 < votes c → found.2 ≤ votes c) := by
  induction n with
  | zero => exact .inl ⟨rfl, fun c hc => absurd hc (Nat.not_lt_zero c)⟩
  | succ n ih =>
    specialize ih fun c hc => hlimit c (Nat.lt_succ_of_lt hc)
    rw [List.range_succ, List.map_append, List.foldl_append]
    simp only [List.map_cons, List.map_nil, List.foldl_cons, List.foldl_nil]
    generalize ((List.range n).map fun c => (votes c, c)).foldl _ (0, limit) = found at ih ⊢
    by_cases hnew : out n = false ∧ votes n < found.2 ∧ 0 < votes n
    · obtain ⟨hout, hless, hpos⟩ := hnew
      rw [if_pos (by simp [hout, hless, hpos])]
      refine .inr ⟨Nat.lt_succ_self n, hout, rfl, hpos, fun c hc hcout hcpos => ?_⟩
      rcases Nat.lt_succ_iff_lt_or_eq.mp hc with hlt | rfl
      · rcases ih with ⟨-, hnone⟩ | ⟨-, -, -, -, hleast⟩
        · exact absurd (hnone c hlt hcout) (Nat.pos_iff_ne_zero.mp hcpos)
        · exact hless.le.trans (hleast c hlt hcout hcpos)
      · exact Nat.le_refl _
    · have hold : (if (!out n && decide (votes n < found.2) && decide (0 < votes n)) = true then
          (n, votes n) else found) = found := by
        refine if_neg fun hcond => hnew ?_
        simpa [and_assoc] using hcond
      rw [hold]
      rcases ih with ⟨rfl, hnone⟩ | ⟨hlt, hout, hvotes, hpos, hleast⟩
      · refine .inl ⟨rfl, fun c hc hcout => ?_⟩
        rcases Nat.lt_succ_iff_lt_or_eq.mp hc with hlt | rfl
        · exact hnone c hlt hcout
        · by_contra hcpos
          exact hnew ⟨hcout, hlimit c hc, Nat.pos_of_ne_zero hcpos⟩
      · refine .inr ⟨Nat.lt_succ_of_lt hlt, hout, hvotes, hpos, fun c hc hcout hcpos => ?_⟩
        rcases Nat.lt_succ_iff_lt_or_eq.mp hc with hlt' | rfl
        · exact hleast c hlt' hcout hcpos
        · by_contra hless
          exact hnew ⟨hcout, Nat.lt_of_not_le hless, hcpos⟩

/-- The ballots as rankings. -/
def orders (ballots : List (RankedBallot F candidates)) : List (List Nat) :=
  ballots.map RankedBallot.order

theorem complete_orders (ballots : List (RankedBallot F candidates)) {R : Finset Nat}
    (hR : ∀ c ∈ R, c < candidates) : Complete (orders ballots) R := by
  intro order horder c hc
  obtain ⟨ballot, -, rfl⟩ := List.mem_map.mp horder
  exact ballot.mem_order.mpr (hR c hc)

theorem orders_choices (ballots : List (RankedBallot F candidates)) :
    (ballots.map RankedBallot.choices).map (fun choices => choices.map Number.toU64) =
      orders ballots := by
  simp [orders, RankedBallot.order]

theorem inRace_lt (hlen : r.eliminated.length = candidates) {c : Nat} (hc : c ∈ r.inRace) :
    c < candidates :=
  hlen ▸ (List.getElem?_eq_some_iff.mp (Race.mem_inRace.mp hc)).1

/-- On ballots that rank all candidates a round eliminates one that may be eliminated. -/
theorem loser_eliminable (hlen : r.eliminated.length = candidates)
    (ballots : List (RankedBallot F candidates)) (hballots : ballots ≠ [])
    (hR : r.inRace.Nonempty) :
    let loser := r.loser candidates ballots.length (ballots.map RankedBallot.choices)
    Eliminable (orders ballots) r.inRace loser.1 ∧
      loser.2 = Voting.votes (orders ballots) r.inRace loser.1 := by
  have hcomplete := complete_orders ballots fun c hc => inRace_lt hlen hc
  have hpairs : (countVotes candidates r.eliminated (ballots.map RankedBallot.choices)).zipIdx =
      (List.range candidates).map fun c => (Voting.votes (orders ballots) r.inRace c, c) := by
    rw [countVotes_eq hlen, orders_choices]
    refine List.ext_getElem (by simp) fun c hc hc' => ?_
    simp
  have hspec := @fewestVotes_spec (Voting.votes (orders ballots) r.inRace) candidates
    (ballots.length + 1) (fun c => r.eliminated.getD c true) fun c _ =>
      Nat.lt_succ_of_le (Voting.votes_le_length.trans_eq (List.length_map _))
  dsimp only [Race.loser, fewestVotes] at hspec ⊢
  rw [hpairs]
  rcases hspec with ⟨-, hnone⟩ | ⟨hlt, hout, hvotes, hpos, hleast⟩
  · -- nobody would have a vote
    obtain ⟨c, hc, hcpos⟩ := Voting.exists_eliminable hcomplete hR (by simpa [orders] using hballots)
    have hzero := hnone c (inRace_lt hlen hc) (Race.mem_inRace_iff_getD.mp hc)
    omega
  · refine ⟨⟨hvotes ▸ hpos, fun c hc => hvotes ▸ hleast c ?_ ?_ hc⟩, hvotes⟩
    all_goals
      obtain ⟨order, -, htop⟩ := Voting.votes_pos.mp hc
      have hmem := Voting.mem_of_top htop
    · exact inRace_lt hlen hmem
    · exact Race.mem_inRace_iff_getD.mp hmem

end

/-! ### The race -/

section
variable {candidates : Nat} (ballots : List (RankedBallot F candidates))

/-- The race on these ballots. -/
def raceAfter (n : Nat) : Race :=
  Race.after candidates ballots.length (ballots.map RankedBallot.choices) n

def raceLoser (n : Nat) : Nat × Nat :=
  (raceAfter ballots n).loser candidates ballots.length (ballots.map RankedBallot.choices)

theorem length_raceAfter (n : Nat) : (raceAfter ballots n).eliminated.length = candidates :=
  Race.length_after _ _ _ n

theorem inRace_succ (n : Nat) : (raceAfter ballots (n + 1)).inRace =
    (raceAfter ballots n).inRace.erase (raceLoser ballots n).1 := by
  rw [raceAfter, Race.after_succ, Race.round]
  exact Race.inRace_set _ _ _

variable {ballots}

/-- As many candidates are in the race as the counter says. -/
theorem card_inRace (hballots : ballots ≠ []) {n : Nat} (hn : n < candidates) :
    (raceAfter ballots n).inRace.card = candidates - n := by
  induction n with
  | zero =>
    rw [raceAfter, Race.after_zero, Race.inRace_start, Finset.card_range, Nat.sub_zero]
  | succ n ih =>
    have hcard := ih (Nat.lt_of_succ_lt hn)
    have hR : (raceAfter ballots n).inRace.Nonempty := Finset.card_pos.mp (by omega)
    have hloser : (raceLoser ballots n).1 ∈ (raceAfter ballots n).inRace :=
      (loser_eliminable (length_raceAfter ballots n) ballots hballots hR).1.mem
    rw [inRace_succ, Finset.card_erase_of_mem hloser, hcard, Nat.sub_add_eq]

theorem eliminable_raceLoser (hballots : ballots ≠ []) {n : Nat} (hn : n < candidates) :
    Eliminable (orders ballots) (raceAfter ballots n).inRace (raceLoser ballots n).1 ∧
      (raceLoser ballots n).2 =
        Voting.votes (orders ballots) (raceAfter ballots n).inRace (raceLoser ballots n).1 :=
  loser_eliminable (length_raceAfter ballots n) ballots hballots
    (Finset.card_pos.mp (by rw [card_inRace hballots hn]; omega))

/-- From any round on the rest of the race is an election by elimination. -/
theorem run_raceAfter (hballots : ballots ≠ []) {n k : Nat} (h : n + k < candidates) :
    Voting.Run (orders ballots) (raceAfter ballots n).inRace (raceAfter ballots (n + k)).inRace := by
  induction k generalizing n with
  | zero => exact .done _
  | succ k ih =>
    refine .round (x := (raceLoser ballots n).1) ?_ ?_ ?_
    · rw [card_inRace hballots (by omega)]
      omega
    · exact (eliminable_raceLoser hballots (by omega)).1
    · have hrest := ih (n := n + 1) (by omega)
      rwa [inRace_succ, Nat.add_right_comm] at hrest

/-- The candidate the handler announces is the one that is left. -/
theorem inRace_winner {r : Race} (h : r.inRace.card = 1) : r.inRace = {r.winner} := by
  obtain ⟨w, hw⟩ := Finset.card_eq_one.mp h
  have hfalse : false ∈ r.eliminated :=
    List.mem_of_getElem? (Race.mem_inRace.mp (hw ▸ Finset.mem_singleton_self w))
  have hidx : r.eliminated.idxOf false < r.eliminated.length := List.idxOf_lt_length_iff.mpr hfalse
  have hwinner : r.winner = r.eliminated.idxOf false :=
    if_pos (List.contains_iff_mem.mpr hfalse)
  have hmem : r.winner ∈ r.inRace := by
    rw [Race.mem_inRace, hwinner, List.getElem?_eq_getElem hidx, List.getElem_idxOf hidx]
  rw [hw, Finset.mem_singleton] at hmem
  rw [hw, hmem]

end

end

/-! ### The handler -/

section
variable {F S : Type} [Number F]

theorem popMany_apply (opName : String) (choices : List F) {vm : VM F S} {rest : VMStack F}
    (h : vm.stack = choices.map .number ++ rest) :
    popMany opName choices.length vm = .ok choices { vm with stack := rest } := by
  induction choices generalizing vm with
  | nil =>
    obtain rfl : vm.stack = rest := h
    rfl
  | cons v choices ih =>
    have hpop : popNumber opName vm =
        .ok v { vm with stack := choices.map TypedValue.number ++ rest } := by
      simp only [popNumber, onStack, Comp.zoom, h, List.map_cons, List.cons_append]
      rfl
    rw [List.length_cons, popMany, Comp.bind_of_ok hpop, Comp.bind_of_ok (ih rfl)]
    rfl

theorem popBallots_flatten {candidates : Nat} {ballots : List (List F)}
    (hlen : ∀ ballot ∈ ballots, ballot.length = candidates) {vm : VM F S} {rest : VMStack F}
    (h : vm.stack = ballots.flatten.map .number ++ rest) :
    popBallots candidates ballots.length vm = .ok ballots { vm with stack := rest } := by
  induction ballots generalizing vm with
  | nil =>
    obtain rfl : vm.stack = rest := h
    rfl
  | cons ballot ballots ih =>
    have hpop := @popMany_apply F S _ "RankedVote" ballot vm (ballots.flatten.map .number ++ rest)
      (by rw [h, List.flatten_cons, List.map_append, List.append_assoc])
    rw [hlen ballot List.mem_cons_self] at hpop
    have hrest := @ih (fun b hb => hlen b (List.mem_cons_of_mem _ hb))
      { vm with stack := ballots.flatten.map .number ++ rest } rfl
    rw [List.length_cons, popBallots, Comp.bind_of_ok hpop, Comp.bind_of_ok hrest]
    rfl

theorem popBallots_apply {candidates : Nat} (ballots : List (RankedBallot F candidates))
    {vm : VM F S} {rest : VMStack F}
    (h : vm.stack = (ballots.flatMap RankedBallot.choices).map .number ++ rest) :
    popBallots candidates ballots.length vm =
      .ok (ballots.map RankedBallot.choices) { vm with stack := rest } := by
  have hpop := @popBallots_flatten F S _ candidates (ballots.map RankedBallot.choices)
    (by simp [RankedBallot.length_choices]) vm rest (by rw [h, List.flatMap_def])
  rwa [List.length_map] at hpop

/-- The VM after an event. -/
def withEvent (message : String) (vm : VM F S) : VM F S :=
  { vm with executor := { vm.executor with
      events := vm.executor.events ++
        [⟨"governance", message, vm.executor.clock vm.executor.reads⟩]
      reads := vm.executor.reads + 1 } }

/-- The texts of the events so far. -/
def messages (vm : VM F S) : List String := vm.executor.events.map (·.message)

omit [Number F] in
@[simp] theorem stack_withEvent (message : String) (vm : VM F S) :
    (withEvent message vm).stack = vm.stack := rfl

omit [Number F] in
@[simp] theorem messages_withEvent (message : String) (vm : VM F S) :
    messages (withEvent message vm) = messages vm ++ [message] :=
  List.map_append

omit [Number F] in
@[simp] theorem messages_withStack (s : VMStack F) (vm : VM F S) :
    messages { vm with stack := s } = messages vm := rfl

def startText (candidates ballots : Nat) : String :=
  s!"Running ranked-choice vote with {candidates} candidates and {ballots} ballots"

def roundText (loser : Nat × Nat) : String := s!"Eliminated candidate {loser.1} with {loser.2} votes"

def winnerText (winner : Nat) : String := s!"Winner of ranked-choice vote: candidate {winner}"

/-- The rounds, and what they announce. -/
theorem eliminationRounds_apply {candidates : Nat} (ballots : List (RankedBallot F candidates))
    (hballots : ballots.length + 1 < 2 ^ 64) (n k : Nat) (vm : VM F S) :
    ∃ vm', eliminationRounds candidates ballots.length (ballots.map RankedBallot.choices) k
        (raceAfter ballots n).eliminated vm = .ok (raceAfter ballots (n + k)).eliminated vm' ∧
      vm'.stack = vm.stack ∧
      messages vm' =
        messages vm ++ (List.range' n k).map fun i => roundText (raceLoser ballots i) := by
  induction k generalizing n vm with
  | zero => exact ⟨vm, rfl, rfl, by simp⟩
  | succ k ih =>
    obtain ⟨vm', hrounds, hstack, hmessages⟩ :=
      ih (n + 1) (withEvent (roundText (raceLoser ballots n)) vm)
    refine ⟨vm', ?_, hstack, ?_⟩
    · have hnext : (raceAfter ballots (n + 1)).eliminated =
          (raceAfter ballots n).eliminated.set (raceLoser ballots n).1 true := by
        rw [raceAfter, Race.after_succ]
        rfl
      rw [hnext, Nat.add_right_comm] at hrounds
      rw [eliminationRounds, addUsize_of_lt hballots, pure_bind]
      exact hrounds
    · rw [hmessages, messages_withEvent, List.range'_succ, List.map_cons, List.append_assoc]
      rfl

theorem length_flatMap_choices {candidates : Nat} (ballots : List (RankedBallot F candidates)) :
    (ballots.flatMap RankedBallot.choices).length = ballots.length * candidates := by
  simp [List.length_flatMap, RankedBallot.length_choices]

/-- On ballots that rank all candidates the handler runs the race to its end. -/
theorem handleRankedVote_apply {candidates : Nat} (hcandidates : 2 ≤ candidates)
    {ballots : List (RankedBallot F candidates)} (hballots : ballots ≠ []) {vm : VM F S}
    {rest : VMStack F}
    (hstack : vm.stack = (ballots.flatMap RankedBallot.choices).map .number ++ rest)
    (hvec : vm.stack.length < 2 ^ 63) :
    ∃ vm', handleRankedVote candidates ballots.length vm = .ok () vm' ∧
      vm'.stack = .number (Number.ofNat (raceAfter ballots (candidates - 1)).winner) :: rest ∧
      messages vm' = messages vm ++ startText candidates ballots.length ::
        ((List.range' 0 (candidates - 1)).map (fun i => roundText (raceLoser ballots i)) ++
          [winnerText (raceAfter ballots (candidates - 1)).winner]) := by
  have hpos : 0 < ballots.length := List.length_pos_iff.mpr hballots
  have hlimit : ballots.length + 1 < 2 ^ 64 := by
    have hlen : ballots.length * candidates ≤ vm.stack.length := by
      rw [hstack, List.length_append, List.length_map, length_flatMap_choices]
      exact Nat.le_add_right _ _
    have htwo := Nat.mul_le_mul_left ballots.length hcandidates
    omega
  obtain ⟨vm', hrounds, hstack', hmessages⟩ := eliminationRounds_apply ballots hlimit 0
    (candidates - 1) (withEvent (startText candidates ballots.length) { vm with stack := rest })
  rw [Nat.zero_add] at hrounds
  let last := withEvent (winnerText (raceAfter ballots (candidates - 1)).winner) vm'
  refine ⟨{ last with
    stack := .number (Number.ofNat (raceAfter ballots (candidates - 1)).winner) :: rest },
    ?_, rfl, ?_⟩
  · have hpop := popBallots_apply ballots hstack
    have hstart : governanceEvent (startText candidates ballots.length) { vm with stack := rest } =
        .ok () (withEvent (startText candidates ballots.length) { vm with stack := rest }) := rfl
    unfold handleRankedVote
    rw [decide_eq_false (Nat.not_lt.mpr hcandidates), decide_eq_false (Nat.not_lt.mpr hpos)]
    simp only [refuse, Bool.false_eq_true, if_false, pure_bind]
    refine (Comp.bind_of_ok hpop).trans ((Comp.bind_of_ok hstart).trans
      ((Comp.bind_of_ok hrounds).trans ?_))
    have hrest : vm'.stack = rest := hstack'
    rw [← hrest]
    rfl
  · rw [messages_withStack, messages_withEvent, hmessages]
    simp

/-! ### The order of the ballots -/

theorem countVotes_perm {ballots ballots' : List (List F)} (h : ballots.Perm ballots')
    (candidates : Nat) (eliminated : List Bool) :
    countVotes candidates eliminated ballots = countVotes candidates eliminated ballots' :=
  List.map_congr_left fun c _ => (h.filterMap _).count_eq c

theorem eliminationRounds_perm {ballots ballots' : List (List F)} (h : ballots.Perm ballots')
    (candidates count rounds : Nat) (eliminated : List Bool) :
    (eliminationRounds candidates count ballots rounds eliminated : Exec F S _) =
      eliminationRounds candidates count ballots' rounds eliminated := by
  induction rounds generalizing eliminated with
  | zero => rfl
  | succ rounds ih => simp only [eliminationRounds, countVotes_perm h, ih]

/-- Ranked-choice voting is anonymous. Whatever the ballots say, in whatever order they lie on the
stack, the handler ends in the same way: with the same winner, eliminations and announcements. -/
theorem rankedVote_anonymous {candidates : Nat} (hcandidates : 2 ≤ candidates)
    {ballots ballots' : List (List F)} (h : ballots.Perm ballots')
    (hlen : ∀ ballot ∈ ballots, ballot.length = candidates) (hballots : ballots ≠ [])
    (vm : VM F S) (rest : VMStack F) :
    handleRankedVote candidates ballots.length
        { vm with stack := ballots.flatten.map .number ++ rest } =
      handleRankedVote candidates ballots'.length
        { vm with stack := ballots'.flatten.map .number ++ rest } := by
  have hpop := @popBallots_flatten F S _ _ ballots hlen
    { vm with stack := ballots.flatten.map .number ++ rest } rest rfl
  have hpop' := @popBallots_flatten F S _ _ ballots' (fun b hb => hlen b (h.mem_iff.mpr hb))
    { vm with stack := ballots'.flatten.map .number ++ rest } rest rfl
  have hpos : 0 < ballots.length := List.length_pos_iff.mpr hballots
  unfold handleRankedVote
  rw [← h.length_eq, decide_eq_false (Nat.not_lt.mpr hcandidates),
    decide_eq_false (Nat.not_lt.mpr hpos)]
  rw [← h.length_eq] at hpop'
  simp only [refuse, Bool.false_eq_true, if_false, pure_bind]
  rw [Comp.bind_of_ok hpop, Comp.bind_of_ok hpop']
  simp only [eliminationRounds_perm h]

/-! ### Who wins -/

variable {candidates : Nat} {ballots : List (RankedBallot F candidates)}

theorem inRace_end (hcandidates : 2 ≤ candidates) (hballots : ballots ≠ []) :
    (raceAfter ballots (candidates - 1)).inRace =
      {(raceAfter ballots (candidates - 1)).winner} :=
  inRace_winner (by rw [card_inRace hballots (by omega)]; omega)

theorem winner_lt (hcandidates : 2 ≤ candidates) (hballots : ballots ≠ []) :
    (raceAfter ballots (candidates - 1)).winner < candidates :=
  inRace_lt (length_raceAfter ballots _)
    (inRace_end hcandidates hballots ▸ Finset.mem_singleton_self _)

/-- The books of the race, on any ballots that rank all candidates. At the start of each round as
many candidates are in the race as the counter says, more than one; the round eliminates one of
them, and each ballot counts for exactly one of them. After `candidates - 1` rounds the loop ends;
the one candidate left is pushed in the place of the ballots. -/
theorem rankedVote_bookkeeping (hcandidates : 2 ≤ candidates) (hballots : ballots ≠ [])
    {vm : VM F S} {rest : VMStack F}
    (hstack : vm.stack = (ballots.flatMap RankedBallot.choices).map .number ++ rest)
    (hvec : vm.stack.length < 2 ^ 63) :
    (∀ n < candidates - 1,
      1 < (raceAfter ballots n).remaining ∧
      (raceAfter ballots n).inRace.card = (raceAfter ballots n).remaining ∧
      (raceLoser ballots n).1 ∈ (raceAfter ballots n).inRace ∧
      (raceAfter ballots (n + 1)).inRace =
        (raceAfter ballots n).inRace.erase (raceLoser ballots n).1 ∧
      (∀ ballot ∈ ballots, ∃! c, c ∈ (raceAfter ballots n).inRace ∧
        firstChoice candidates (raceAfter ballots n).eliminated ballot.choices = some c) ∧
      (countVotes candidates (raceAfter ballots n).eliminated
        (ballots.map RankedBallot.choices)).sum = ballots.length) ∧
    (raceAfter ballots (candidates - 1)).remaining = 1 ∧
    ∃ winner vm', (raceAfter ballots (candidates - 1)).inRace = {winner} ∧
      handleRankedVote candidates ballots.length vm = .ok () vm' ∧
      messages vm' = messages vm ++ startText candidates ballots.length ::
        ((List.range' 0 (candidates - 1)).map (fun n => roundText (raceLoser ballots n)) ++
          [winnerText winner]) ∧
      vm'.stack = .number (Number.ofNat winner) :: rest ∧
      vm.stack.length = ballots.length * candidates + rest.length := by
  obtain ⟨vm', hrun, hstack', hmessages⟩ :=
    handleRankedVote_apply hcandidates hballots hstack hvec
  refine ⟨fun n hn => ?_, ?_, _, vm', inRace_end hcandidates hballots, hrun, hmessages, hstack', ?_⟩
  · have hlen := length_raceAfter ballots n
    have hcard := card_inRace hballots (n := n) (by omega)
    have hremaining : (raceAfter ballots n).remaining = candidates - n :=
      Race.remaining_after _ _ _ n
    have hlt : ∀ c ∈ (raceAfter ballots n).inRace, c < candidates := fun c hc => inRace_lt hlen hc
    have hR : (raceAfter ballots n).inRace.Nonempty := Finset.card_pos.mp (by omega)
    refine ⟨by omega, by rw [hcard, hremaining],
      (eliminable_raceLoser hballots (by omega)).1.mem, inRace_succ ballots n, ?_, ?_⟩
    · intro ballot hballot
      rw [firstChoice_eq hlen]
      obtain ⟨c₀, hc₀⟩ := hR
      obtain ⟨c, hc⟩ := Voting.top_ne_none (ballot.mem_order.mpr (hlt c₀ hc₀)) hc₀
      exact ⟨c, ⟨Voting.mem_of_top hc, hc⟩, fun d hd => Option.some.inj (hd.2.symm.trans hc)⟩
    · rw [countVotes_eq hlen, orders_choices]
      have hsum := Voting.sum_votes (complete_orders ballots hlt) hR
      have hall : ∑ c ∈ Finset.range candidates,
          Voting.votes (orders ballots) (raceAfter ballots n).inRace c = (orders ballots).length := by
        rw [← hsum]
        refine (Finset.sum_subset (fun c hc => Finset.mem_range.mpr (hlt c hc)) ?_).symm
        exact fun c _ hc => Voting.votes_of_notMem hc
      exact hall.trans (List.length_map _)
  · exact (Race.remaining_after _ _ _ _).trans (by omega)
  · rw [hstack, List.length_append, List.length_map, length_flatMap_choices]

/-- Most of the ballots have `w` first. -/
def Majority (ballots : List (RankedBallot F candidates)) (w : Nat) : Prop :=
  ballots.length < 2 * ballots.countP fun ballot => ballot.order.head? = some w

instance (w : Nat) : Decidable (Majority ballots w) := inferInstanceAs (Decidable (_ < _))

/-- The votes of the first round are the first choices. -/
theorem votes_range (w : Nat) :
    Voting.votes (orders ballots) (Finset.range candidates) w =
      ballots.countP fun ballot => ballot.order.head? = some w := by
  rw [Voting.votes, orders, List.countP_map]
  refine List.countP_congr fun ballot _ => ?_
  have htop : Voting.top (Finset.range candidates) ballot.order = ballot.order.head? := by
    cases horder : ballot.order with
    | nil => rfl
    | cons c order =>
      have hc : c < candidates := ballot.mem_order.mp (horder ▸ List.mem_cons_self)
      exact List.find?_cons_of_pos (by simpa using hc)
  rw [Function.comp_apply, htop]

theorem Majority.exists_first {w : Nat} (hw : Majority ballots w) :
    ∃ ballot ∈ ballots, ballot.order.head? = some w := by
  have hpos : 0 < ballots.countP fun ballot => ballot.order.head? = some w := by
    unfold Majority at hw
    omega
  obtain ⟨ballot, hmem, hhead⟩ := List.countP_pos_iff.mp hpos
  exact ⟨ballot, hmem, by simpa using hhead⟩

theorem Majority.lt {w : Nat} (hw : Majority ballots w) : w < candidates := by
  obtain ⟨ballot, -, hhead⟩ := hw.exists_first
  exact ballot.mem_order.mp (List.mem_of_mem_head? hhead)

/-- The winner of the race is the candidate with a majority iff somebody prefers every other one. -/
theorem winner_eq_iff (hcandidates : 2 ≤ candidates) {w : Nat} (hw : Majority ballots w) :
    (raceAfter ballots (candidates - 1)).winner = w ↔
      ∀ c < candidates, c ≠ w → ∃ ballot ∈ ballots, Prefers ballot.order c w := by
  obtain ⟨ballot, hballot, -⟩ := hw.exists_first
  have hballots : ballots ≠ [] := List.ne_nil_of_mem hballot
  have hstart : (raceAfter ballots 0).inRace = Finset.range candidates := Race.inRace_start _
  have hrun := run_raceAfter hballots (n := 0) (k := candidates - 1) (by omega)
  rw [Nat.zero_add, inRace_end hcandidates hballots, hstart] at hrun
  have hmajority : (orders ballots).length <
      2 * Voting.votes (orders ballots) (Finset.range candidates) w := by
    rw [votes_range, orders, List.length_map]
    exact hw
  have hcomplete : Complete (orders ballots) (Finset.range candidates) :=
    complete_orders ballots fun c hc => Finset.mem_range.mp hc
  rw [hrun.wins_iff hcomplete (Finset.mem_range.mpr hw.lt) hmajority]
  simp [orders]

/-- `RankedVote` puts the candidate in the place of the ballots. -/
def Elects (ballots : List (RankedBallot F candidates)) (rest : VMStack F) (vm : VM F S) (w : Nat) :
    Prop :=
  ∃ vm', handleRankedVote candidates ballots.length vm = .ok () vm' ∧
    vm'.stack = .number (Number.ofNat w) :: rest

theorem elects_iff (hcandidates : 2 ≤ candidates) (hballots : ballots ≠ []) {vm : VM F S}
    {rest : VMStack F}
    (hstack : vm.stack = (ballots.flatMap RankedBallot.choices).map .number ++ rest)
    (hvec : vm.stack.length < 2 ^ 63) {w : Nat} (hw : w < candidates) :
    Elects ballots rest vm w ↔ (raceAfter ballots (candidates - 1)).winner = w := by
  obtain ⟨vm', hrun, hstack', -⟩ := handleRankedVote_apply hcandidates hballots hstack hvec
  constructor
  · rintro ⟨vm₁, hrun₁, hstack₁⟩
    rw [hrun] at hrun₁
    cases hrun₁
    rw [hstack', List.cons.injEq, TypedValue.number.injEq] at hstack₁
    obtain ⟨ballot, -⟩ := List.exists_mem_of_ne_nil _ hballots
    exact ballot.ofNat_inj (winner_lt hcandidates hballots) hw hstack₁.1
  · rintro rfl
    exact ⟨vm', hrun, hstack'⟩

/-- A candidate that most ballots have first is elected iff every other candidate is preferred to it
on some ballot. -/
theorem elects_majority_iff (hcandidates : 2 ≤ candidates) {vm : VM F S} {rest : VMStack F}
    (hstack : vm.stack = (ballots.flatMap RankedBallot.choices).map .number ++ rest)
    (hvec : vm.stack.length < 2 ^ 63) {w : Nat} (hw : Majority ballots w) :
    Elects ballots rest vm w ↔
      ∀ c < candidates, c ≠ w → ∃ ballot ∈ ballots, Prefers ballot.order c w := by
  obtain ⟨ballot, hballot, -⟩ := hw.exists_first
  rw [elects_iff hcandidates (List.ne_nil_of_mem hballot) hstack hvec hw.lt]
  exact winner_eq_iff hcandidates hw

end

/-! ### Two elections -/

/-- A ballot of double precision numbers. -/
def RankedBallot.ofOrder {candidates : Nat} (order : List Nat)
    (h : order.Perm (List.range candidates)) (hcandidates : candidates ≤ 2 ^ 53) :
    RankedBallot Binary64 candidates :=
  have hnumber : ∀ c ∈ order, Number.toU64 (Number.ofNat c : Binary64) = c := fun c hc => by
    have hlt := List.mem_range.mp (h.mem_iff.mp hc)
    exact Ieee.toU64_ofNat (show c < 2 ^ 53 by omega) (by omega)
  { choices := order.map Number.ofNat
    ranks := by
      have hmap : (order.map Number.ofNat).map (Number.toU64 (F := Binary64)) = order := by
        rw [List.map_map]
        exact (List.map_congr_left hnumber).trans (List.map_id order)
      rwa [hmap]
    exact := fun v hv => by
      obtain ⟨c, hc, rfl⟩ := List.mem_map.mp hv
      rw [hnumber c hc] }

def zeroFirst : RankedBallot Binary64 2 := .ofOrder [0, 1] (by decide) (by decide)

def oneFirst : RankedBallot Binary64 2 := .ofOrder [1, 0] (by decide) (by decide)

def votingVm (ballots : List (RankedBallot Binary64 2)) : VM Binary64 NoStorage :=
  { VM.new fun _ => 0 with stack := (ballots.flatMap RankedBallot.choices).map .number ++ [] }

/-- Two candidates, and one round. -/
theorem rankedVote_bookkeeping_two : ∃ winner,
    (raceAfter [zeroFirst, zeroFirst, oneFirst] 1).inRace = {winner} ∧
      Elects [zeroFirst, zeroFirst, oneFirst] [] (votingVm [zeroFirst, zeroFirst, oneFirst])
        winner := by
  obtain ⟨-, -, winner, vm', hend, hrun, -, hstack, -⟩ :=
    @rankedVote_bookkeeping _ _ _ _ [zeroFirst, zeroFirst, oneFirst] (le_refl 2) (by simp)
      (votingVm [zeroFirst, zeroFirst, oneFirst]) [] rfl (by decide)
  exact ⟨winner, hend, vm', hrun, hstack⟩

/-- Two against one. -/
theorem elects_majority_iff_two :
    Elects [zeroFirst, zeroFirst, oneFirst] [] (votingVm [zeroFirst, zeroFirst, oneFirst]) 0 := by
  refine (elects_majority_iff (le_refl 2) rfl (by decide) (by decide +kernel)).mpr fun c hc hne => ?_
  obtain rfl : c = 1 := by omega
  exact ⟨oneFirst, by simp, by decide +kernel⟩

/-- The only ballot has `0` first, and `1` is elected. -/
theorem not_elects_unanimous :
    Majority [zeroFirst] 0 ∧ ¬ Elects [zeroFirst] [] (votingVm [zeroFirst]) 0 ∧
      Elects [zeroFirst] [] (votingVm [zeroFirst]) 1 := by
  have hwinner : (raceAfter [zeroFirst] (2 - 1)).winner = 1 := by decide +kernel
  refine ⟨by decide +kernel, fun h => ?_, ?_⟩
  · rw [elects_iff (le_refl 2) (by simp) rfl (by decide) (by decide), hwinner] at h
    exact absurd h (by decide)
  · exact (elects_iff (le_refl 2) (by simp) rfl (by decide) (by decide)).mpr hwinner

/-- One ballot each way. -/
theorem rankedVote_anonymous_two :
    handleRankedVote 2 2 { votingVm [] with
        stack := ([zeroFirst.choices, oneFirst.choices].flatten.map .number ++ []) } =
      handleRankedVote 2 2 { votingVm [] with
        stack := ([oneFirst.choices, zeroFirst.choices].flatten.map .number ++ []) } := by
  refine rankedVote_anonymous (le_refl 2) (List.Perm.swap _ _ []) ?_ (by simp) (votingVm []) []
  simp [RankedBallot.length_choices]

end Covm.Governance
