import Covm.Governance.VoteWeight
import Covm.Maps.Latest

/-!
# Counting the votes (`tally_votes` in `governance/proposal_lifecycle.rs`)

The weight of a vote is inserted under the name of its choice, in the place of what was there, and
it is the weight of the proposal's creator. So of all votes for a choice the last one that is listed
counts, and it counts as a vote of the creator.
-/

namespace Covm

open Maps

/-- `to_string` of a choice; it is not among the sources. -/
class VoteText where
  toString : VoteChoice → String
  toString_injective : Function.Injective toString

/-- `id_string` of an identity. -/
class IdString (I : Type) where
  idString : I → String

namespace Governance

/-- `VoteChoice::from_str` -/
def VoteChoice.fromStr (s : String) : Option VoteChoice :=
  let s := toLowercase s
  if s = "yes" then some .yes
  else if s = "no" then some .no
  else if s = "abstain" then some .abstain
  else none

def tallyPrefix (id : String) : String := s!"proposals/{id}/votes/"

section model
variable {F S I : Type} [Number F] [ListingBackend S] [SquareRoot F] [StoredValues F S]
  [VoteText] [IdString I]

/-- The choice under a key, if the key is that of a vote and the text under it is a choice. -/
def storedChoice (storage : S) (auth : Option AuthContext) (id key : String) :
    Option VoteChoice :=
  if (tallyPrefix id).toList <+: key.toList ∧ (key.toList.splitOn '/').length = 4 then
    match StorageBackend.get storage auth "governance" key with
    | .ok bytes => VoteChoice.fromStr ((String.fromUTF8? bytes).getD "")
    | .error _ => none
  else none

/-- The weight that is counted for a vote read at `now`. -/
def creatorWeight (now : DateTime) (p : ProposalLifecycle I) (vm : VM F S)
    (choice : VoteChoice) : Except String F :=
  calculateVoteWeight now p vm (IdString.idString p.creator) choice vm.executor.authContext

/-- `weight.round() as Vote` -/
def wholeVotes (weight : F) : Nat := Number.toU64 (Number.round weight)

def countVote (now : DateTime) (p : ProposalLifecycle I) (vm : VM F S) (votes : HashMap Nat) :
    Option VoteChoice → Except (GovernanceError F) (HashMap Nat)
  | none => return votes
  | some choice => do
    let weight ← (creatorWeight now p vm choice).mapError .message
    return votes.insert (VoteText.toString choice) (wholeVotes weight)

/-- `clock` tells when the vote under a key is weighed. The caller's `auth` is not used. -/
def tallyVotes (clock : String → DateTime) (p : ProposalLifecycle I) (vm : VM F S)
    (_auth : Option AuthContext) : Except (GovernanceError F) (HashMap Nat) := do
  if p.state ≠ .voting then
    throw (.message s!"Proposal {p.id} is not in Voting state")
  let storage ← backendOf "Storage backend not available" vm
  let auth := vm.executor.authContext
  let keys ← (ListingBackend.listKeys storage auth "governance"
    (some (tallyPrefix p.id))).mapError .storage
  keys.foldlM (fun votes key =>
    countVote (clock key) p vm votes (storedChoice storage auth p.id key)) ∅

end model

/-! ### The stored votes -/

structure StoredVote where
  voter : String
  bytes : ByteArray

def StoredVote.choice (v : StoredVote) : Option VoteChoice :=
  VoteChoice.fromStr ((String.fromUTF8? v.bytes).getD "")

def StoredVote.key (id : String) (v : StoredVote) : String := tallyPrefix id ++ v.voter

/-- These are the votes on a proposal the VM finds in its storage, in the order of the listing. -/
structure HoldsVotes {F S : Type} [ListingBackend S] (vm : VM F S) (id : String)
    (votes : List StoredVote) (storage : S) : Prop where
  backend : vm.executor.storageBackend = some storage
  listed : ListingBackend.listKeys storage vm.executor.authContext "governance"
    (some (tallyPrefix id)) = .ok (votes.map (·.key id))
  get : ∀ v ∈ votes, StorageBackend.get storage vm.executor.authContext "governance" (v.key id) =
    .ok v.bytes
  id_slash : '/' ∉ id.toList
  voter_slash : ∀ v ∈ votes, '/' ∉ v.voter.toList

theorem length_splitOn_key {id : String} {v : StoredVote} (hid : '/' ∉ id.toList)
    (hvoter : '/' ∉ v.voter.toList) : ((v.key id).toList.splitOn '/').length = 4 := by
  have hkey : (v.key id).toList = "proposals".toList ++ '/' :: (id.toList ++ '/' ::
      ("votes".toList ++ '/' :: v.voter.toList)) := by
    show (((("" ++ "proposals/") ++ toString id) ++ "/votes/") ++ v.voter).toList = _
    simp [toString]
  rw [hkey, List.splitOn_append_cons_self_of_not_mem (by decide),
    List.splitOn_append_cons_self_of_not_mem hid,
    List.splitOn_append_cons_self_of_not_mem (by decide), List.splitOn_eq_singleton hvoter]
  rfl

theorem foldlM_congr {m : Type → Type} [Monad m] [LawfulMonad m] {α β : Type}
    {f g : β → α → m β} {l : List α} (h : ∀ b, ∀ a ∈ l, f b a = g b a) (b : β) :
    l.foldlM f b = l.foldlM g b := by
  induction l generalizing b with
  | nil => rfl
  | cons a l ih =>
    rw [List.foldlM_cons, List.foldlM_cons, h b a List.mem_cons_self]
    refine bind_congr fun b' => ?_
    exact ih (fun b a ha => h b a (List.mem_cons_of_mem _ ha)) b'

section proofs
variable {F S I : Type} [Number F] [ListingBackend S] [SquareRoot F] [StoredValues F S]
  [IdString I] {p : ProposalLifecycle I} {vm : VM F S} {votes : List StoredVote} {storage : S}

omit [Number F] [SquareRoot F] [StoredValues F S] in
theorem HoldsVotes.storedChoice {id : String} (h : HoldsVotes vm id votes storage)
    {v : StoredVote} (hv : v ∈ votes) :
    storedChoice storage vm.executor.authContext id (v.key id) = v.choice := by
  have hbelow : (tallyPrefix id).toList <+: (v.key id).toList := by
    rw [StoredVote.key, String.toList_append]
    exact List.prefix_append _ _
  unfold Governance.storedChoice
  rw [if_pos ⟨hbelow, length_splitOn_key h.id_slash (h.voter_slash v hv)⟩, h.get v hv]
  rfl

variable [VoteText]

/-- The votes are counted one by one, as they were cast. -/
theorem HoldsVotes.tallyVotes_eq (clock : String → DateTime) (hstate : p.state = .voting)
    (h : HoldsVotes vm p.id votes storage) (auth : Option AuthContext) :
    tallyVotes clock p vm auth =
      votes.foldlM (fun counts v => countVote (clock (v.key p.id)) p vm counts v.choice) ∅ := by
  have hstate' : ¬ p.state ≠ .voting := not_not.mpr hstate
  have hbackend : backendOf "Storage backend not available" vm = .ok storage :=
    backendOf_eq_ok_iff.mpr h.backend
  unfold tallyVotes
  rw [if_neg hstate', hbackend]
  show (do
    let keys ← (ListingBackend.listKeys storage _ _ _).mapError GovernanceError.storage
    keys.foldlM _ _) = _
  rw [h.listed]
  show List.foldlM _ _ (votes.map _) = _
  rw [List.foldlM_map]
  refine foldlM_congr (fun counts v hv => ?_) ∅
  rw [h.storedChoice hv]

/-! ### The last vote for a choice -/

/-- What is counted for the last vote for a choice. -/
def lastCount (clock : String → DateTime) (p : ProposalLifecycle I) (vm : VM F S)
    (votes : List StoredVote) (c : VoteChoice) : Option Nat :=
  (latest StoredVote.choice votes (some c)).bind fun v =>
    (creatorWeight (clock (v.key p.id)) p vm c).toOption.map wholeVotes

omit [VoteText] [ListingBackend S] in
theorem lastCount_concat (clock : String → DateTime) (votes : List StoredVote) (v : StoredVote)
    (c : VoteChoice) : lastCount clock p vm (votes ++ [v]) c =
      if v.choice = some c then
        (creatorWeight (clock (v.key p.id)) p vm c).toOption.map wholeVotes
      else lastCount clock p vm votes c := by
  rw [lastCount, latest_concat]
  split_ifs with h
  · rfl
  · rfl

/-- The vote is no choice, or the creator's weight can be told. -/
def Weighed (clock : String → DateTime) (p : ProposalLifecycle I) (vm : VM F S)
    (v : StoredVote) : Prop :=
  ∀ c, v.choice = some c → ∃ w, creatorWeight (clock (v.key p.id)) p vm c = .ok w

omit [ListingBackend S] in
theorem weighed_of_countVote {clock : String → DateTime} {v : StoredVote}
    {counts counts' : HashMap Nat}
    (h : countVote (clock (v.key p.id)) p vm counts v.choice = .ok counts') :
    Weighed clock p vm v := by
  intro c hc
  rw [hc, countVote] at h
  cases hweight : creatorWeight (clock (v.key p.id)) p vm c with
  | ok w => exact ⟨w, rfl⟩
  | error e =>
    rw [hweight] at h
    cases h

omit [ListingBackend S] in
theorem countVote_of_weighed {clock : String → DateTime} {v : StoredVote}
    (h : Weighed clock p vm v) {votes : List StoredVote} {counts : HashMap Nat}
    (hlookup : ∀ c, counts.lookup (VoteText.toString c) = lastCount clock p vm votes c) :
    ∃ counts', countVote (clock (v.key p.id)) p vm counts v.choice = .ok counts' ∧
      ∀ c, counts'.lookup (VoteText.toString c) = lastCount clock p vm (votes ++ [v]) c := by
  simp only [lastCount_concat]
  cases hchoice : v.choice with
  | none => exact ⟨counts, rfl, fun c => by rw [if_neg (Option.some_ne_none c).symm, hlookup]⟩
  | some choice =>
    obtain ⟨w, hw⟩ := h choice hchoice
    refine ⟨counts.insert (VoteText.toString choice) (wholeVotes w), ?_, fun c => ?_⟩
    · rw [countVote, hw]
      rfl
    · by_cases hc : choice = c
      · rw [if_pos (congrArg some hc), ← hc, Finmap.lookup_insert, hw]
        rfl
      · have hname : VoteText.toString c ≠ VoteText.toString choice :=
          fun h => hc (VoteText.toString_injective h).symm
        rw [if_neg fun h => hc (Option.some.inj h), Finmap.lookup_insert_of_ne _ hname, hlookup]

omit [ListingBackend S] in
/-- The map has kept the last vote for every choice. -/
theorem counted_of_weighed {clock : String → DateTime} {votes : List StoredVote}
    (h : ∀ v ∈ votes, Weighed clock p vm v) :
    ∃ result, votes.foldlM
        (fun counts v => countVote (clock (v.key p.id)) p vm counts v.choice) ∅ = .ok result ∧
      ∀ c, result.lookup (VoteText.toString c) = lastCount clock p vm votes c := by
  induction votes using List.reverseRecOn with
  | nil => exact ⟨∅, rfl, fun c => Finmap.lookup_empty _⟩
  | append_singleton votes v ih =>
    obtain ⟨counts, hcounts, hlookup⟩ := ih fun v hv => h v (List.mem_append_left _ hv)
    obtain ⟨counts', hcounts', hlookup'⟩ :=
      countVote_of_weighed (h v (List.mem_append_right _ List.mem_cons_self)) hlookup
    refine ⟨counts', ?_, hlookup'⟩
    simp only [List.foldlM_append, hcounts, List.foldlM_cons, List.foldlM_nil, hcounts',
      bind, Except.bind, pure, Except.pure]

omit [ListingBackend S] in
theorem weighed_of_counted {clock : String → DateTime} {votes : List StoredVote}
    {counts result : HashMap Nat} (h : votes.foldlM
      (fun counts v => countVote (clock (v.key p.id)) p vm counts v.choice) counts = .ok result) :
    ∀ v ∈ votes, Weighed clock p vm v := by
  induction votes generalizing counts with
  | nil => exact fun v hv => absurd hv List.not_mem_nil
  | cons v votes ih =>
    rw [List.foldlM_cons] at h
    cases hcount : countVote (clock (v.key p.id)) p vm counts v.choice with
    | error e =>
      rw [hcount] at h
      cases h
    | ok counts' =>
      rw [hcount] at h
      intro v' hv'
      rcases List.mem_cons.mp hv' with rfl | hv'
      · exact weighed_of_countVote hcount
      · exact ih h v' hv'

/-! ### The sums over the voters -/

/-- The weight of a voter for a choice. -/
def voterWeight (clock : String → DateTime) (p : ProposalLifecycle I) (vm : VM F S)
    (c : VoteChoice) (v : StoredVote) : Except String F :=
  calculateVoteWeight (clock (v.key p.id)) p vm v.voter c vm.executor.authContext

/-- Those who made a choice. -/
def votersFor (votes : List StoredVote) (c : VoteChoice) : List StoredVote :=
  votes.filter (·.choice = some c)

/-- The weights of all who made a choice. -/
def totalWeight (clock : String → DateTime) (p : ProposalLifecycle I) (vm : VM F S)
    (votes : List StoredVote) (c : VoteChoice) : Except String F :=
  (votersFor votes c).foldlM
    (fun sum v => return Number.add sum (← voterWeight clock p vm c v)) (Number.ofNat 0)

/-- The tally of a choice is the rounded sum of the weights of all who made it. -/
def TalliesWeights (clock : String → DateTime) (p : ProposalLifecycle I) (vm : VM F S)
    (auth : Option AuthContext) (votes : List StoredVote) : Prop :=
  ∃ result, tallyVotes clock p vm auth = .ok result ∧
    ∀ c, ∃ sum, totalWeight clock p vm votes c = .ok sum ∧
      (result.lookup (VoteText.toString c)).getD 0 = wholeVotes sum

/-- The tally of yes and of no is the number of those who made the choice. -/
def TalliesVoters (clock : String → DateTime) (p : ProposalLifecycle I) (vm : VM F S)
    (auth : Option AuthContext) (votes : List StoredVote) : Prop :=
  ∃ result, tallyVotes clock p vm auth = .ok result ∧
    ∀ c, c ≠ .abstain →
      (result.lookup (VoteText.toString c)).getD 0 = (votersFor votes c).length

/-- For every choice somebody made, the creator weighs as much as all who made it. -/
def CreatorWeighsAll (clock : String → DateTime) (p : ProposalLifecycle I) (vm : VM F S)
    (votes : List StoredVote) : Prop :=
  ∀ c, ∃ sum, totalWeight clock p vm votes c = .ok sum ∧
    ∀ v, latest StoredVote.choice votes (some c) = some v →
      ∃ w, creatorWeight (clock (v.key p.id)) p vm c = .ok w ∧ wholeVotes w = wholeVotes sum

omit [Number F] [ListingBackend S] [SquareRoot F] [StoredValues F S] [IdString I] [VoteText] in
theorem votersFor_ne_nil_iff {c : VoteChoice} :
    votersFor votes c ≠ [] ↔ ∃ v, latest StoredVote.choice votes (some c) = some v := by
  constructor
  · intro h
    obtain ⟨v, hv⟩ := List.exists_mem_of_ne_nil _ h
    obtain ⟨hmem, hchoice⟩ := List.mem_filter.mp hv
    obtain ⟨v', hlatest⟩ := exists_latest StoredVote.choice hmem
    exact ⟨v', (of_decide_eq_true hchoice) ▸ hlatest⟩
  · rintro ⟨v, hlatest⟩ hnone
    obtain ⟨hmem, hchoice⟩ := mem_of_latest hlatest
    have hv : v ∈ votersFor votes c := List.mem_filter.mpr ⟨hmem, decide_eq_true hchoice⟩
    rw [hnone] at hv
    cases hv

omit [ListingBackend S] [IdString I] [VoteText] in
/-- Whether the weight can be told does not depend on the time. -/
theorem calculateVoteWeight_ok {now : DateTime} {voter : String} {c : VoteChoice}
    {auth : Option AuthContext} {w : F} (h : calculateVoteWeight now p vm voter c auth = .ok w)
    (now' : DateTime) : ∃ w', calculateVoteWeight now' p vm voter c auth = .ok w' := by
  unfold calculateVoteWeight at h ⊢
  cases hweighting : p.voteWeighting with
  | tenure =>
    rw [hweighting] at h
    dsimp only at h ⊢
    cases hread : StoredValues.getF64 vm (weightKey voter "join_date") auth with
    | error e =>
      rw [hread] at h
      cases h
    | ok joined =>
      cases joined with
      | none => exact ⟨_, rfl⟩
      | some t => exact ⟨_, rfl⟩
  | _ => exact ⟨w, by rw [hweighting] at h; exact h⟩

theorem HoldsVotes.talliesWeights_iff (h : HoldsVotes vm p.id votes storage)
    (hstate : p.state = .voting) (clock : String → DateTime) (auth : Option AuthContext)
    (hzero : wholeVotes (Number.ofNat 0 : F) = 0) :
    TalliesWeights clock p vm auth votes ↔ CreatorWeighsAll clock p vm votes := by
  unfold TalliesWeights
  rw [h.tallyVotes_eq clock hstate auth]
  constructor
  · rintro ⟨result, hresult, hsums⟩ c
    have hweighed := weighed_of_counted hresult
    obtain ⟨_, hresult', hlookup⟩ := counted_of_weighed hweighed
    obtain rfl := Except.ok.inj (hresult.symm.trans hresult')
    obtain ⟨sum, hsum, hcount⟩ := hsums c
    refine ⟨sum, hsum, fun v hv => ?_⟩
    obtain ⟨hmem, hchoice⟩ := mem_of_latest hv
    obtain ⟨w, hw⟩ := hweighed v hmem c hchoice
    refine ⟨w, hw, ?_⟩
    rw [hlookup, lastCount, hv, Option.bind_some, hw] at hcount
    exact hcount
  · intro hcreator
    have hweighed : ∀ v ∈ votes, Weighed clock p vm v := by
      intro v hv c hc
      obtain ⟨sum, -, hlast⟩ := hcreator c
      obtain ⟨v', hlatest⟩ := exists_latest StoredVote.choice hv
      obtain ⟨w, hw, -⟩ := hlast v' (hc ▸ hlatest)
      exact calculateVoteWeight_ok hw _
    obtain ⟨result, hresult, hlookup⟩ := counted_of_weighed hweighed
    refine ⟨result, hresult, fun c => ?_⟩
    obtain ⟨sum, hsum, hlast⟩ := hcreator c
    refine ⟨sum, hsum, ?_⟩
    rw [hlookup, lastCount]
    cases hlatest : latest StoredVote.choice votes (some c) with
    | some v =>
      obtain ⟨w, hw, hwhole⟩ := hlast v hlatest
      rw [Option.bind_some, hw]
      exact hwhole
    | none =>
      have hnobody : votersFor votes c = [] := by
        by_contra hsomebody
        obtain ⟨v, hv⟩ := votersFor_ne_nil_iff.mp hsomebody
        rw [hlatest] at hv
        cases hv
      rw [totalWeight, hnobody] at hsum
      obtain rfl := Except.ok.inj hsum
      exact hzero.symm

/-- With equal weights a yes and a no are counted once at most. -/
theorem HoldsVotes.talliesVoters_iff (h : HoldsVotes vm p.id votes storage)
    (hstate : p.state = .voting) (hequal : p.voteWeighting = .equal) (clock : String → DateTime)
    (auth : Option AuthContext) (hone : wholeVotes (Number.ofNat 1 : F) = 1) :
    TalliesVoters clock p vm auth votes ↔
      ∀ c, c ≠ .abstain → (votersFor votes c).length ≤ 1 := by
  have hweight : ∀ now c, creatorWeight now p vm c = .ok (VoteChoice.baseValue c : F) := by
    intro now c
    unfold creatorWeight calculateVoteWeight
    rw [hequal]
    rfl
  have hweighed : ∀ v ∈ votes, Weighed clock p vm v := fun v _ c _ => ⟨_, hweight _ c⟩
  obtain ⟨result, hresult, hlookup⟩ := counted_of_weighed hweighed
  have hcount : ∀ c, c ≠ .abstain → (result.lookup (VoteText.toString c)).getD 0 =
      if votersFor votes c = [] then 0 else 1 := by
    intro c hc
    have hbase : (VoteChoice.baseValue c : F) = Number.ofNat 1 := by
      cases c with
      | yes => rfl
      | no => rfl
      | abstain => exact absurd rfl hc
    rw [hlookup, lastCount]
    split_ifs with hnobody
    · cases hlatest : latest StoredVote.choice votes (some c) with
      | none => rfl
      | some v => exact absurd hnobody (votersFor_ne_nil_iff.mpr ⟨v, hlatest⟩)
    · obtain ⟨v, hv⟩ := votersFor_ne_nil_iff.mp hnobody
      rw [hv, Option.bind_some, hweight, hbase]
      exact hone
  unfold TalliesVoters
  rw [h.tallyVotes_eq clock hstate auth]
  constructor
  · rintro ⟨_, hresult', hvoters⟩ c hc
    obtain rfl := Except.ok.inj (hresult.symm.trans hresult')
    rw [← hvoters c hc, hcount c hc]
    split_ifs <;> omega
  · intro hfew
    refine ⟨result, hresult, fun c hc => ?_⟩
    rw [hcount c hc]
    have hle := hfew c hc
    split_ifs with hnobody
    · rw [hnobody]
      rfl
    · have hpos := List.length_pos_of_ne_nil hnobody
      omega

end proofs

/-- The tally is the rounded sum over the voters iff the creator weighs as much as all who made a
choice together; with equal weights it is the number of voters iff there is at most one yes and at
most one no. -/
theorem tally_iff {S I : Type} [ListingBackend S] [SquareRoot Binary64] [StoredValues Binary64 S]
    [VoteText] [IdString I] {p : ProposalLifecycle I} (hstate : p.state = .voting)
    {vm : VM Binary64 S} {votes : List StoredVote} {storage : S}
    (h : HoldsVotes vm p.id votes storage) (clock : String → DateTime)
    (auth : Option AuthContext) :
    (TalliesWeights clock p vm auth votes ↔ CreatorWeighsAll clock p vm votes) ∧
      (p.voteWeighting = .equal → (TalliesVoters clock p vm auth votes ↔
        ∀ c, c ≠ .abstain → (votersFor votes c).length ≤ 1)) :=
  ⟨h.talliesWeights_iff hstate clock auth (by decide +kernel),
    fun hequal => h.talliesVoters_iff hstate hequal clock auth (by decide +kernel)⟩

/-! ### A poll in a storage -/

theorem perm_order [HashOrder] {keys : List String} (h : keys.Nodup) :
    (HashOrder.order keys.toFinset).Perm keys :=
  (List.perm_ext_iff_of_nodup (HashOrder.nodup_order _) h).mpr fun key => by
    rw [HashOrder.mem_order, List.mem_toFinset]

def yesOf (voter : String) : StoredVote := ⟨voter, "yes".toUTF8⟩

def noOf (voter : String) : StoredVote := ⟨voter, "no".toUTF8⟩

def abstentionOf (voter : String) : StoredVote := ⟨voter, "abstain".toUTF8⟩

/-- The votes on alice's proposal. -/
def pollRow (votes : List StoredVote) : HashMap ByteArray :=
  votes.foldl (fun row v => row.insert (v.key "p1") v.bytes) ∅

def pollStorage (votes : List StoredVote) : InMemoryStorage :=
  { InMemoryStorage.adminStorage with
    data := (∅ : Table String String ByteArray).insert "governance" (pollRow votes) }

/-- The administrator's VM after the votes. -/
def pollVm (votes : List StoredVote) : VM Binary64 InMemoryStorage :=
  .setAuthContext InMemoryStorage.admin (.withStorageBackend (fun _ => 0) (pollStorage votes))

/-- What the administrator finds among the keys of a namespace. -/
theorem listKeys_admin [HashOrder] {s : InMemoryStorage} {ns start : String}
    {row : HashMap ByteArray} (hrow : s.data.lookup ns = some row) {keys : Finset String}
    (hkeys : (row.keys.filter fun key => start.toList <+: key.toList) = keys) :
    ListingBackend.listKeys s (some InMemoryStorage.admin) ns (some start) =
      .ok (HashOrder.order keys) := by
  have hlisted : s.listKeys (some InMemoryStorage.admin) ns (some start) = .ok keys := by
    rw [← hkeys]
    unfold InMemoryStorage.listKeys
    rw [InMemoryStorage.admin_permitted, hrow]
    rfl
  show (do return HashOrder.order (← s.listKeys (some InMemoryStorage.admin) ns (some start))) = _
  rw [hlisted]
  rfl

/-- The votes are listed in some order. -/
theorem holdsVotes_poll [HashOrder] {votes : List StoredVote}
    (hrow : ((pollRow votes).keys.filter fun key =>
      (tallyPrefix "p1").toList <+: key.toList) = (votes.map (·.key "p1")).toFinset)
    (hnodup : (votes.map (·.key "p1")).Nodup)
    (hget : ∀ v ∈ votes, StorageBackend.get (pollStorage votes) (some InMemoryStorage.admin)
      "governance" (v.key "p1") = .ok v.bytes)
    (hslash : ∀ v ∈ votes, '/' ∉ v.voter.toList) :
    ∃ listed, listed.Perm votes ∧ HoldsVotes (pollVm votes) "p1" listed (pollStorage votes) := by
  have hlisted : ListingBackend.listKeys (pollStorage votes) (some InMemoryStorage.admin)
      "governance" (some (tallyPrefix "p1")) =
        .ok (HashOrder.order (votes.map (·.key "p1")).toFinset) :=
    listKeys_admin (Finmap.lookup_insert _) hrow
  obtain ⟨listed, horder, hperm⟩ :
      Relation.Comp (· = List.map (·.key "p1") ·) List.Perm
        (HashOrder.order (votes.map (·.key "p1")).toFinset) votes := by
    rw [List.eq_map_comp_perm]
    exact perm_order hnodup
  rw [horder] at hlisted
  exact ⟨listed, hperm, rfl, hlisted, fun v hv => hget v (hperm.subset hv), by decide,
    fun v hv => hslash v (hperm.subset hv)⟩

@[reducible] def sortedKeys : HashOrder :=
  ⟨fun keys => keys.sort (· ≤ ·), fun keys => keys.sort_nodup _, Finset.mem_sort _⟩

@[reducible] def sortedListing : ListingBackend InMemoryStorage :=
  let _ := sortedKeys
  inferInstance

instance : VoteText where
  toString
    | .yes => "Yes"
    | .no => "No"
    | .abstain => "Abstain"
  toString_injective c c' h := by
    cases c <;> cases c' <;> first | rfl | exact absurd h (by decide)

instance : IdString String := ⟨id⟩

/-- A yes, a no and an abstention are counted, of two yes votes only one is. -/
theorem tally_iff_bob :
    (∃ listed, listed.Perm [yesOf "bob", noOf "carol", abstentionOf "dave"] ∧
      @TalliesVoters Binary64 InMemoryStorage String _ sortedListing ⟨id⟩ (readStored _ _) _ _
        (fun _ => 0) (roofRepair .voting)
        (pollVm [yesOf "bob", noOf "carol", abstentionOf "dave"]) none listed) ∧
    ∃ listed, listed.Perm [yesOf "bob", noOf "carol", yesOf "dave"] ∧
      ¬ @TalliesVoters Binary64 InMemoryStorage String _ sortedListing ⟨id⟩ (readStored _ _) _ _
        (fun _ => 0) (roofRepair .voting)
        (pollVm [yesOf "bob", noOf "carol", yesOf "dave"]) none listed := by
  constructor
  · obtain ⟨listed, hperm, hholds⟩ := @holdsVotes_poll sortedKeys
      [yesOf "bob", noOf "carol", abstentionOf "dave"] (by decide) (by decide)
      (by decide) (by decide)
    refine ⟨listed, hperm, ((@tally_iff InMemoryStorage String sortedListing ⟨id⟩ (readStored _ _)
      _ _ (roofRepair .voting) rfl _ _ _ hholds (fun _ => 0) none).2 rfl).mpr fun c hc => ?_⟩
    have hvoters := hperm.filter (·.choice = some c)
    rw [votersFor, hvoters.length_eq]
    revert hc
    cases c <;> decide +kernel
  · obtain ⟨listed, hperm, hholds⟩ := @holdsVotes_poll sortedKeys
      [yesOf "bob", noOf "carol", yesOf "dave"] (by decide) (by decide)
      (by decide) (by decide)
    refine ⟨listed, hperm, fun htallies => ?_⟩
    have hfew := ((@tally_iff InMemoryStorage String sortedListing ⟨id⟩ (readStored _ _) _ _
      (roofRepair .voting) rfl _ _ _ hholds (fun _ => 0) none).2 rfl).mp htallies .yes (by decide)
    have hvoters := hperm.filter (·.choice = some .yes)
    rw [votersFor, hvoters.length_eq] at hfew
    exact absurd hfew (by decide +kernel)

/-- Two yes votes are counted as one. -/
theorem not_talliesVoters : ¬ ∀ (S I : Type) [ListingBackend S] [SquareRoot Binary64]
    [StoredValues Binary64 S] [VoteText] [IdString I] (p : ProposalLifecycle I)
    (vm : VM Binary64 S) (votes : List StoredVote) (storage : S), p.state = .voting →
    HoldsVotes vm p.id votes storage → ∀ clock auth, TalliesWeights clock p vm auth votes ∧
      (p.voteWeighting = .equal → TalliesVoters clock p vm auth votes) := by
  intro h
  let order := sortedKeys
  let root : SquareRoot Binary64 := ⟨id⟩
  let values : StoredValues Binary64 InMemoryStorage := readStored _ _
  obtain ⟨listed, hperm, hholds⟩ := @holdsVotes_poll _ [yesOf "bob", yesOf "carol"]
    (by decide) (by decide) (by decide) (by decide)
  have hequal := (h InMemoryStorage String (roofRepair .voting) _ listed _ rfl hholds
    (fun _ => 0) none).2 rfl
  have hfew := (hholds.talliesVoters_iff (p := roofRepair .voting) rfl rfl (fun _ => 0) none
    (by decide +kernel)).mp hequal .yes (by decide)
  have hvoters := hperm.filter (·.choice = some .yes)
  rw [votersFor, hvoters.length_eq] at hfew
  exact absurd hfew (by decide +kernel)

end Governance

end Covm
