import Covm.Governance.Durability
import Covm.Storage.Room
import Mathlib.Algebra.Order.BigOperators.Group.Multiset

/-!
# Comments on proposals (`governance/comments.rs`)

A comment is read from the VM's backend and written to a clone of it. What the clone of an in-memory
storage is told does not reach the VM, so that no call takes effect, whatever it returns.

`CommentCall.effect` is what a call that succeeds is to do to the comments of a proposal. Each effect
makes the comments heavier or leaves them as they are.
-/

namespace Covm

open Partial

structure CommentVersion where
  content : String
  timestamp : DateTime

structure ProposalComment where
  id : String
  author : String
  timestamp : DateTime
  content : String
  replyTo : Option String
  tags : List String
  reactions : HashMap Nat
  hidden : Bool
  editHistory : List CommentVersion

namespace ProposalComment

/-- The identifier is a new UUID. -/
def new (now : DateTime) (id author content : String) (replyTo : Option String)
    (tags : List String) : ProposalComment :=
  ⟨id, author, now, content, replyTo, tags, ∅, false, [⟨content, now⟩]⟩

def addVersion (now : DateTime) (content : String) (c : ProposalComment) : ProposalComment :=
  { c with content := content, editHistory := c.editHistory ++ [⟨content, now⟩] }

def hide (c : ProposalComment) : ProposalComment := { c with hidden := true }

theorem hide_of_hidden {c : ProposalComment} (h : c.hidden = true) : c.hide = c := by
  unfold hide
  rw [← h]

end ProposalComment

namespace Governance

def proposalPath (proposalId : String) : String := s!"governance/proposals/{proposalId}"

def commentsPath (proposalId : String) : String := s!"governance/proposals/{proposalId}/comments"

def commentPath (proposalId commentId : String) : String :=
  s!"governance/proposals/{proposalId}/comments/{commentId}"

def versionPath (proposalId commentId : String) (versionId : Nat) : String :=
  s!"governance/proposals/{proposalId}/comments/versions/{commentId}/{versionId}"

section calls
variable {F S α : Type}

/-- The storage of a VM, in which the proposal has to be. -/
def proposalStorage [StorageBackend S] (vm : VM F S) (auth : Option AuthContext)
    (proposalId : String) : Except (GovernanceError F) S := do
  let storage ← backendOf "Storage backend not available" vm
  let _ ← (StorageBackend.get storage auth "governance" (proposalPath proposalId)).mapError fun _ =>
    .message s!"Proposal {proposalId} does not exist"
  return storage

/-- What is listed and is no comment is left out. -/
def fetchCommentsThreaded [ListingBackend S] [Serde ProposalComment] (vm : VM F S)
    (proposalId : String) (auth : Option AuthContext) (showHidden : Bool) :
    Except (GovernanceError F) (HashMap ProposalComment) := do
  let storage ← proposalStorage vm auth proposalId
  let refs ← (ListingBackend.listKeys storage auth "governance"
    (some (commentsPath proposalId))).mapError .storage
  return refs.foldl (fun comments ref =>
    match StorageExtensions.getJson ProposalComment storage auth "governance" ref with
    | .ok comment =>
      if !comment.hidden || showHidden then comments.insert comment.id comment else comments
    | .error _ => comments) ∅

/-- A storage call on a clone with `?`. -/
def keeping (x : StorageM S α) : OnClone F S α := fun s =>
  match x s with
  | .ok a s => .ok a s
  | .error (.error e) s => .error (.error (.storage e)) s
  | .error .panic s => .error .panic s

def saveComment [StorageBackend S] [Serde ProposalComment] (auth : AuthContext)
    (proposalId commentId : String) (comment : ProposalComment) : OnClone F S Unit :=
  keeping (StorageExtensions.setJson (some auth) "governance" (commentPath proposalId commentId)
    comment)

/-- The last version is also kept for itself. -/
def saveEdited [StorageBackend S] [Serde ProposalComment] [Serde CommentVersion]
    (auth : AuthContext) (proposalId commentId : String) (comment : ProposalComment) :
    OnClone F S Unit := do
  saveComment auth proposalId commentId comment
  let versionId := comment.editHistory.length - 1
  match comment.editHistory.getLast? with
  | none => throw (.error (.message "Comment edit history is empty"))
  | some version =>
    keeping (StorageExtensions.setJson (some auth) "governance"
      (versionPath proposalId commentId versionId) version)

variable [ForkableBackend S] [Serde ProposalComment] [Serde CommentVersion]

def createComment (now : DateTime) (uuid proposalId author content : String)
    (replyTo : Option String) (tags : List String) (auth : AuthContext) :
    Gov F S ProposalComment := do
  let storage ← ofResult (proposalStorage (← EStateM.get) (some auth) proposalId)
  let comment := ProposalComment.new now uuid author content replyTo tags
  onClone storage (saveComment auth proposalId comment.id comment)
  return comment

/-- The comment that is to be changed, which has to be the user's own. -/
def ownComment (proposalId commentId change : String) (auth : AuthContext) :
    Gov F S (S × ProposalComment) := do
  let storage ← ofResult (backendOf "Storage backend not available" (← EStateM.get))
  let comment ← ofResult ((StorageExtensions.getJson ProposalComment storage (some auth)
    "governance" (commentPath proposalId commentId)).mapError .storage)
  if comment.author ≠ auth.currentIdentityDid then
    raiseText s!"Only the original author can {change} a comment"
  return (storage, comment)

def editComment (now : DateTime) (proposalId commentId newContent : String) (auth : AuthContext) :
    Gov F S Unit := do
  let (storage, comment) ← ownComment proposalId commentId "edit" auth
  onClone storage (saveEdited auth proposalId commentId (comment.addVersion now newContent))

def hideComment (proposalId commentId : String) (auth : AuthContext) : Gov F S Unit := do
  let (storage, comment) ← ownComment proposalId commentId "hide" auth
  onClone storage (saveComment auth proposalId commentId comment.hide)

end calls

/-! ## What the calls are for -/

/-- A call, with the readings of the clock and the new UUID it takes. -/
inductive CommentCall where
  | create (now : DateTime) (uuid author content : String) (replyTo : Option String)
      (tags : List String)
  | edit (now : DateTime) (commentId newContent : String)
  | hide (commentId : String)

namespace CommentCall

def run {F S : Type} [ForkableBackend S] [Serde ProposalComment] [Serde CommentVersion]
    (proposalId : String) (auth : AuthContext) : CommentCall → Gov F S Unit
  | .create now uuid author content replyTo tags => do
    let _ ← createComment now uuid proposalId author content replyTo tags auth
  | .edit now commentId newContent => editComment now proposalId commentId newContent auth
  | .hide commentId => hideComment proposalId commentId auth

/-- The change to one comment. -/
def change (commentId : String) (f : ProposalComment → ProposalComment) (c : ProposalComment) :
    ProposalComment :=
  if c.id = commentId then f c else c

/-- What a call that succeeds does to the comments. -/
def effect : CommentCall → Multiset ProposalComment → Multiset ProposalComment
  | .create now uuid author content replyTo tags, comments =>
    .new now uuid author content replyTo tags ::ₘ comments
  | .edit now commentId newContent, comments =>
    comments.map (change commentId (.addVersion now newContent))
  | .hide commentId, comments => comments.map (change commentId .hide)

/-- The call, if it succeeds, has nothing to change. -/
def Idle (comments : Multiset ProposalComment) : CommentCall → Prop
  | .create .. => False
  | .edit _ commentId _ => ∀ c ∈ comments, c.id ≠ commentId
  | .hide commentId => ∀ c ∈ comments, c.id = commentId → c.hidden = true

end CommentCall

/-- Each version of each comment counts, and that it is hidden. -/
def commentWeight (c : ProposalComment) : Nat :=
  1 + c.editHistory.length + if c.hidden then 1 else 0

def weight (comments : Multiset ProposalComment) : Nat := (comments.map commentWeight).sum

section weight

theorem weight_addVersion (now : DateTime) (content : String) (c : ProposalComment) :
    commentWeight c < commentWeight (c.addVersion now content) := by
  unfold commentWeight ProposalComment.addVersion
  dsimp only
  rw [List.length_append, List.length_singleton]
  omega

theorem weight_hide {c : ProposalComment} (h : c.hidden ≠ true) :
    commentWeight c < commentWeight c.hide := by
  unfold commentWeight ProposalComment.hide
  rw [if_neg h, if_pos rfl]
  exact Nat.lt_succ_self _

theorem weight_hide_le (c : ProposalComment) : commentWeight c ≤ commentWeight c.hide := by
  by_cases h : c.hidden = true
  · rw [ProposalComment.hide_of_hidden h]
  · exact (weight_hide h).le

variable {f : ProposalComment → ProposalComment} {commentId : String}
  {comments : Multiset ProposalComment}

theorem weight_change_le (h : ∀ c, commentWeight c ≤ commentWeight (f c)) (c : ProposalComment) :
    commentWeight c ≤ commentWeight (CommentCall.change commentId f c) := by
  unfold CommentCall.change
  split_ifs
  · exact h c
  · exact le_refl _

theorem weight_map_le (h : ∀ c, commentWeight c ≤ commentWeight (f c)) :
    weight comments ≤ weight (comments.map (CommentCall.change commentId f)) := by
  unfold weight
  rw [Multiset.map_map]
  exact Multiset.sum_map_le_sum_map _ _ fun c _ => weight_change_le h c

theorem weight_map_lt (h : ∀ c, commentWeight c ≤ commentWeight (f c)) {c : ProposalComment}
    (hc : c ∈ comments) (hid : c.id = commentId) (hlt : commentWeight c < commentWeight (f c)) :
    weight comments < weight (comments.map (CommentCall.change commentId f)) := by
  unfold weight
  rw [Multiset.map_map]
  refine Multiset.sum_lt_sum (fun c _ => weight_change_le h c) ⟨c, hc, ?_⟩
  show commentWeight c < commentWeight (CommentCall.change commentId f c)
  rw [CommentCall.change, if_pos hid]
  exact hlt

theorem map_change_eq_self (h : ∀ c ∈ comments, c.id = commentId → f c = c) :
    comments.map (CommentCall.change commentId f) = comments := by
  refine (Multiset.map_congr rfl fun c hc => ?_).trans (Multiset.map_id comments)
  unfold CommentCall.change
  split_ifs with hid
  · exact h c hc hid
  · rfl

theorem CommentCall.effect_of_idle {call : CommentCall} (h : call.Idle comments) :
    call.effect comments = comments := by
  cases call with
  | create now uuid author content replyTo tags => exact h.elim
  | edit now commentId newContent => exact map_change_eq_self fun c hc hid => absurd hid (h c hc)
  | hide commentId =>
    exact map_change_eq_self fun c hc hid => ProposalComment.hide_of_hidden (h c hc hid)

theorem CommentCall.weight_le (call : CommentCall) (comments : Multiset ProposalComment) :
    weight comments ≤ weight (call.effect comments) := by
  cases call with
  | create now uuid author content replyTo tags =>
    unfold weight CommentCall.effect
    rw [Multiset.map_cons, Multiset.sum_cons]
    exact Nat.le_add_left _ _
  | edit now commentId newContent =>
    exact weight_map_le fun c => (weight_addVersion now newContent c).le
  | hide commentId => exact weight_map_le weight_hide_le

/-- What is not idle adds weight. -/
theorem CommentCall.weight_lt {call : CommentCall} (h : ¬ call.Idle comments) :
    weight comments < weight (call.effect comments) := by
  cases call with
  | create now uuid author content replyTo tags =>
    unfold weight CommentCall.effect
    rw [Multiset.map_cons, Multiset.sum_cons]
    have hpos : 0 < commentWeight (.new now uuid author content replyTo tags) := by
      unfold commentWeight
      omega
    omega
  | edit now commentId newContent =>
    unfold Idle at h
    push Not at h
    obtain ⟨c, hc, hid⟩ := h
    exact weight_map_lt (fun c => (weight_addVersion now newContent c).le) hc hid
      (weight_addVersion now newContent c)
  | hide commentId =>
    unfold Idle at h
    push Not at h
    obtain ⟨c, hc, hid, hshown⟩ := h
    exact weight_map_lt weight_hide_le hc hid (weight_hide hshown)

end weight

/-! ## Runs -/

/-- Some calls are made, each by a user; what is to become of the comments goes along. -/
def play {F S : Type} [ForkableBackend S] [Serde ProposalComment] [Serde CommentVersion]
    (proposalId : String) : List (AuthContext × CommentCall) →
      VM F S × Multiset ProposalComment → VM F S × Multiset ProposalComment
  | [], s => s
  | (auth, call) :: calls, (vm, comments) =>
    match call.run proposalId auth vm with
    | .ok _ vm => play proposalId calls (vm, call.effect comments)
    | .error _ vm => play proposalId calls (vm, comments)

/-- The values of a map. -/
def valuesOf {V : Type} (m : HashMap V) : Multiset V := m.entries.map Sigma.snd

/-- These comments are fetched, and those of them that are not hidden. -/
def Shown {F S : Type} [ListingBackend S] [Serde ProposalComment] (vm : VM F S)
    (proposalId : String) (reader : Option AuthContext) (comments : Multiset ProposalComment) :
    Prop :=
  (∃ all, fetchCommentsThreaded vm proposalId reader true = .ok all ∧ valuesOf all = comments) ∧
    ∃ visible, fetchCommentsThreaded vm proposalId reader false = .ok visible ∧
      valuesOf visible = comments.filter (·.hidden = false)

/-- After the calls the comments are fetched that were there, with what the successful calls are to
do to them. -/
def TakeEffect {F S : Type} [ListingBackend S] [Serde ProposalComment] [Serde CommentVersion]
    (vm : VM F S) (proposalId : String) (reader : Option AuthContext)
    (calls : List (AuthContext × CommentCall)) : Prop :=
  ∃ before, fetchCommentsThreaded vm proposalId reader true = .ok before ∧
    Shown (play proposalId calls (vm, valuesOf before)).1 proposalId reader
      (play proposalId calls (vm, valuesOf before)).2

/-- The proposal or the comment can be read, a comment that is changed is the user's own, and the
storage accepts what is written. -/
def CommentCall.Accepted {F S : Type} [ForkableBackend S] [Serde ProposalComment]
    [Serde CommentVersion] (vm : VM F S) (proposalId : String) (auth : AuthContext) :
    CommentCall → Prop
  | .create now uuid author content replyTo tags =>
    ∃ storage clone, proposalStorage vm (some auth) proposalId = .ok storage ∧
      (saveComment auth proposalId uuid (.new now uuid author content replyTo tags) :
        OnClone F S Unit) storage = .ok () clone
  | .edit now commentId newContent =>
    ∃ storage comment clone, vm.executor.storageBackend = some storage ∧
      StorageExtensions.getJson ProposalComment storage (some auth) "governance"
        (commentPath proposalId commentId) = .ok comment ∧
      comment.author = auth.currentIdentityDid ∧
      (saveEdited auth proposalId commentId (comment.addVersion now newContent) :
        OnClone F S Unit) storage = .ok () clone
  | .hide commentId =>
    ∃ storage comment clone, vm.executor.storageBackend = some storage ∧
      StorageExtensions.getJson ProposalComment storage (some auth) "governance"
        (commentPath proposalId commentId) = .ok comment ∧
      comment.author = auth.currentIdentityDid ∧
      (saveComment auth proposalId commentId comment.hide : OnClone F S Unit) storage = .ok () clone

section runs
variable {F S α : Type}

variable [ForkableBackend S] [Serde ProposalComment]

theorem ownComment_ok_iff {proposalId commentId change : String} {auth : AuthContext}
    {vm vm' : VM F S} {storage : S} {comment : ProposalComment} :
    ownComment proposalId commentId change auth vm = .ok (storage, comment) vm' ↔
      vm.executor.storageBackend = some storage ∧
        StorageExtensions.getJson ProposalComment storage (some auth) "governance"
          (commentPath proposalId commentId) = .ok comment ∧
        comment.author = auth.currentIdentityDid ∧ vm' = vm := by
  unfold ownComment
  simp only [Comp.bind_eq_ok_iff, get_eq_ok_iff, ofResult_eq_ok_iff, backendOf_eq_ok_iff,
    mapError_eq_ok_iff]
  constructor
  · rintro ⟨_, _, ⟨rfl, rfl⟩, storage', _, ⟨hbackend, rfl⟩, comment', _, ⟨hread, rfl⟩, h⟩
    split_ifs at h with hauthor
    · cases h
    · cases h
      exact ⟨hbackend, hread, not_not.mp hauthor, rfl⟩
  · rintro ⟨hbackend, hread, hauthor, rfl⟩
    refine ⟨_, _, ⟨rfl, rfl⟩, storage, _, ⟨hbackend, rfl⟩, comment, _, ⟨hread, rfl⟩, ?_⟩
    rw [if_neg (not_not.mpr hauthor)]
    rfl

variable [Serde CommentVersion]

/-- A call succeeds iff it is accepted. -/
theorem run_ok_iff {proposalId : String} {auth : AuthContext} {call : CommentCall} {vm : VM F S} :
    (∃ vm', call.run proposalId auth vm = .ok () vm') ↔ call.Accepted vm proposalId auth := by
  cases call with
  | create now uuid author content replyTo tags =>
    simp only [CommentCall.run, createComment, CommentCall.Accepted, Comp.bind_eq_ok_iff,
      get_eq_ok_iff, ofResult_eq_ok_iff, onClone_eq_ok_iff]
    constructor
    · rintro ⟨_, _, _, ⟨_, _, ⟨rfl, rfl⟩, storage, _, ⟨hstorage, rfl⟩, _, _,
        ⟨clone, hsave, rfl⟩, -⟩, -⟩
      exact ⟨storage, clone, hstorage, hsave⟩
    · rintro ⟨storage, clone, hstorage, hsave⟩
      exact ⟨_, _, _, ⟨_, _, ⟨rfl, rfl⟩, storage, _, ⟨hstorage, rfl⟩, _, _,
        ⟨clone, hsave, rfl⟩, rfl⟩, rfl⟩
  | edit now commentId newContent =>
    simp only [CommentCall.run, editComment, CommentCall.Accepted, Comp.bind_eq_ok_iff,
      Prod.exists, ownComment_ok_iff, onClone_eq_ok_iff]
    constructor
    · rintro ⟨_, storage, comment, _, ⟨hbackend, hread, hauthor, rfl⟩, clone, hsave, -⟩
      exact ⟨storage, comment, clone, hbackend, hread, hauthor, hsave⟩
    · rintro ⟨storage, comment, clone, hbackend, hread, hauthor, hsave⟩
      exact ⟨_, storage, comment, _, ⟨hbackend, hread, hauthor, rfl⟩, clone, hsave, rfl⟩
  | hide commentId =>
    simp only [CommentCall.run, hideComment, CommentCall.Accepted, Comp.bind_eq_ok_iff,
      Prod.exists, ownComment_ok_iff, onClone_eq_ok_iff]
    constructor
    · rintro ⟨_, storage, comment, _, ⟨hbackend, hread, hauthor, rfl⟩, clone, hsave, -⟩
      exact ⟨storage, comment, clone, hbackend, hread, hauthor, hsave⟩
    · rintro ⟨storage, comment, clone, hbackend, hread, hauthor, hsave⟩
      exact ⟨_, storage, comment, _, ⟨hbackend, hread, hauthor, rfl⟩, clone, hsave, rfl⟩

end runs

/-! ## On an in-memory storage -/

section inMemory
variable {F α : Type} {P : VM F InMemoryStorage → Prop}

theorem onClone_keeps (clone : InMemoryStorage) (x : OnClone F InMemoryStorage α) :
    Keeps P (onClone clone x) := by
  refine .of_final_eq fun vm => ?_
  unfold onClone
  cases x clone with
  | ok a clone' => exact vm.rejoined_inMemory clone'
  | error e clone' => exact vm.rejoined_inMemory clone'

theorem ofResult_keeps (r : Except (GovernanceError F) α) :
    Keeps P (ofResult r : Gov F InMemoryStorage α) := by
  refine .of_final_eq fun vm => ?_
  cases r <;> rfl

variable [Serde ProposalComment]

theorem ownComment_keeps (proposalId commentId change : String) (auth : AuthContext) :
    Keeps P (ownComment proposalId commentId change auth :
      Gov F InMemoryStorage (InMemoryStorage × ProposalComment)) := by
  refine .get_bind fun vm _ => (ofResult_keeps _).bind fun storage =>
    (ofResult_keeps _).bind fun comment => ?_
  split_ifs
  · exact .of_final_eq fun vm => rfl
  · exact .pure _

variable [Serde CommentVersion]

/-- No call changes anything. -/
theorem run_keeps (proposalId : String) (auth : AuthContext) (call : CommentCall) :
    Keeps P (call.run proposalId auth : Gov F InMemoryStorage Unit) := by
  cases call with
  | create now uuid author content replyTo tags =>
    refine Keeps.bind ?_ fun _ => .pure _
    exact .get_bind fun vm _ => (ofResult_keeps _).bind fun storage =>
      (onClone_keeps _ _).bind fun _ => .pure _
  | edit now commentId newContent =>
    exact (ownComment_keeps proposalId commentId "edit" auth).bind fun own => onClone_keeps _ _
  | hide commentId =>
    exact (ownComment_keeps proposalId commentId "hide" auth).bind fun own => onClone_keeps _ _

section steps
variable {vm : VM F InMemoryStorage} {proposalId : String} {auth : AuthContext} {call : CommentCall}

theorem play_cons_of_accepted (h : call.Accepted vm proposalId auth)
    (calls : List (AuthContext × CommentCall)) (comments : Multiset ProposalComment) :
    play proposalId ((auth, call) :: calls) (vm, comments) =
      play proposalId calls (vm, call.effect comments) := by
  obtain ⟨vm', hrun⟩ := run_ok_iff.mpr h
  have hsame := @run_keeps F (· = vm) _ _ proposalId auth call vm rfl
  rw [hrun] at hsame
  obtain rfl : vm' = vm := hsame
  rw [play, hrun]

theorem play_cons_of_not_accepted (h : ¬ call.Accepted vm proposalId auth)
    (calls : List (AuthContext × CommentCall)) (comments : Multiset ProposalComment) :
    play proposalId ((auth, call) :: calls) (vm, comments) =
      play proposalId calls (vm, comments) := by
  have hsame := @run_keeps F (· = vm) _ _ proposalId auth call vm rfl
  cases hrun : call.run proposalId auth vm with
  | ok u vm' => exact absurd (run_ok_iff.mp ⟨vm', hrun⟩) h
  | error e vm' =>
    rw [hrun] at hsame
    obtain rfl : vm' = vm := hsame
    rw [play, hrun]

end steps

section plays
variable (vm : VM F InMemoryStorage) (proposalId : String)

theorem play_vm (calls : List (AuthContext × CommentCall)) (comments : Multiset ProposalComment) :
    (play proposalId calls (vm, comments)).1 = vm := by
  induction calls generalizing comments with
  | nil => rfl
  | cons made calls ih =>
    obtain ⟨auth, call⟩ := made
    by_cases h : call.Accepted vm proposalId auth
    · rw [play_cons_of_accepted h, ih]
    · rw [play_cons_of_not_accepted h, ih]

theorem weight_le_play (calls : List (AuthContext × CommentCall))
    (comments : Multiset ProposalComment) :
    weight comments ≤ weight (play proposalId calls (vm, comments)).2 := by
  induction calls generalizing comments with
  | nil => exact le_refl _
  | cons made calls ih =>
    obtain ⟨auth, call⟩ := made
    by_cases h : call.Accepted vm proposalId auth
    · rw [play_cons_of_accepted h]
      exact (call.weight_le comments).trans (ih _)
    · rw [play_cons_of_not_accepted h]
      exact ih comments

/-- The comments are to be the same after the calls iff no accepted call has anything to change. -/
theorem play_comments_iff (calls : List (AuthContext × CommentCall))
    (comments : Multiset ProposalComment) :
    (play proposalId calls (vm, comments)).2 = comments ↔
      ∀ made ∈ calls, made.2.Accepted vm proposalId made.1 → made.2.Idle comments := by
  induction calls with
  | nil => simp [play]
  | cons made calls ih =>
    obtain ⟨auth, call⟩ := made
    rw [List.forall_mem_cons]
    by_cases haccepted : call.Accepted vm proposalId auth
    · rw [play_cons_of_accepted haccepted]
      by_cases hidle : call.Idle comments
      · rw [CommentCall.effect_of_idle hidle, ih]
        exact (and_iff_right fun _ => hidle).symm
      · refine iff_of_false (fun h => ?_) fun h => hidle (h.1 haccepted)
        have hle := weight_le_play vm proposalId calls (call.effect comments)
        rw [h] at hle
        exact absurd hle (CommentCall.weight_lt hidle).not_ge
    · rw [play_cons_of_not_accepted haccepted, ih]
      exact (and_iff_right fun h => absurd h haccepted).symm

variable [HashOrder]

/-- What the successful calls were to do is there. -/
theorem shown_of_takeEffect {vm : VM F InMemoryStorage} {proposalId : String}
    {reader : Option AuthContext} {calls : List (AuthContext × CommentCall)}
    (h : TakeEffect vm proposalId reader calls) :
    ∃ before, Shown vm proposalId reader before ∧
      ∀ made ∈ calls, made.2.Accepted vm proposalId made.1 → made.2.Idle before := by
  obtain ⟨before, hfetch, hshown⟩ := h
  rw [play_vm] at hshown
  obtain ⟨⟨all, hall, hvalues⟩, hvisible⟩ := hshown
  cases hfetch.symm.trans hall
  have hsame := hvalues.symm
  rw [hsame] at hvisible
  exact ⟨valuesOf before, ⟨⟨before, hfetch, rfl⟩, hvisible⟩,
    (play_comments_iff vm proposalId calls _).mp hsame⟩

/-- The calls take effect iff the comments that are there can be told from one another and no call
that is accepted has anything to change. -/
theorem takeEffect_iff (vm : VM F InMemoryStorage) (proposalId : String)
    (reader : Option AuthContext) (calls : List (AuthContext × CommentCall)) :
    TakeEffect vm proposalId reader calls ↔ ∃ before, Shown vm proposalId reader before ∧
      ∀ made ∈ calls, made.2.Accepted vm proposalId made.1 → made.2.Idle before := by
  refine ⟨shown_of_takeEffect, ?_⟩
  rintro ⟨_, ⟨⟨before, hfetch, rfl⟩, hvisible⟩, hidle⟩
  refine ⟨before, hfetch, ?_⟩
  rw [play_vm, (play_comments_iff vm proposalId calls _).mpr hidle]
  exact ⟨⟨before, hfetch, rfl⟩, hvisible⟩

end plays

/-! ### A user with room for comments -/

/-- The user may read and write where the proposal is, and has an account without a limit. -/
def Welcome (vm : VM F InMemoryStorage) (proposalId : String) (user : AuthContext) : Prop :=
  ∃ storage proposal, vm.executor.storageBackend = some storage ∧
    InMemoryStorage.checkPermission (some user) "read" "governance" = .ok () ∧
    InMemoryStorage.checkPermission (some user) "write" "governance" = .ok () ∧
    storage.data.get ("governance", proposalPath proposalId) = some proposal ∧
    storage.Roomy user.currentIdentityDid

theorem Welcome.accepted_create {vm : VM F InMemoryStorage} {proposalId : String}
    {user : AuthContext} (h : Welcome vm proposalId user) {now : DateTime}
    {uuid author content : String} {replyTo : Option String} {tags : List String}
    {bytes : ByteArray} (hbytes :
      Serde.toVec (ProposalComment.new now uuid author content replyTo tags) = .ok bytes) :
    (CommentCall.create now uuid author content replyTo tags).Accepted vm proposalId user := by
  obtain ⟨storage, proposal, hbackend, hread, hwrite, hproposal, hroomy⟩ := h
  have hget : storage.get (some user) "governance" (proposalPath proposalId) = .ok proposal := by
    simp only [InMemoryStorage.get, hread, bind, Except.bind, hproposal]
  obtain ⟨clone, hset⟩ := InMemoryStorage.set_ok_iff.mpr
    ⟨user, rfl, hwrite, hroomy.roomFor
      (storage.storedBytes "governance" (commentPath proposalId uuid)) bytes.size⟩
  refine ⟨storage, clone, ?_, ?_⟩
  · unfold proposalStorage backendOf
    rw [hbackend]
    show ((storage.get (some user) "governance" (proposalPath proposalId)).mapError _ >>= _) = _
    rw [hget]
    rfl
  · have hsave : StorageExtensions.setJson (some user) "governance" (commentPath proposalId uuid)
        (ProposalComment.new now uuid author content replyTo tags) storage = .ok () clone := by
      refine (StorageM.bind_of_ok (StorageM.query_of_ok ?_)).trans hset
      rw [StorageExtensions.encode, hbytes]
    rw [saveComment, keeping, hsave]

/-- Where a comment is created nothing takes effect. -/
theorem Welcome.not_takeEffect [HashOrder] {vm : VM F InMemoryStorage} {proposalId : String}
    {user : AuthContext} (h : Welcome vm proposalId user) {now : DateTime}
    {uuid author content : String} {replyTo : Option String} {tags : List String}
    {bytes : ByteArray} (hbytes :
      Serde.toVec (ProposalComment.new now uuid author content replyTo tags) = .ok bytes)
    {reader : Option AuthContext} {calls : List (AuthContext × CommentCall)}
    (hmem : (user, .create now uuid author content replyTo tags) ∈ calls) :
    ¬ TakeEffect vm proposalId reader calls := by
  intro heffect
  obtain ⟨before, -, hidle⟩ := shown_of_takeEffect heffect
  exact hidle _ hmem (h.accepted_create hbytes)

end inMemory

def welcomeStorage : InMemoryStorage :=
  { InMemoryStorage.new fun _ => 0 with
    data := (∅ : Maps.Table String String ByteArray).insert "governance"
      (Finmap.singleton (proposalPath "p1") "\x7b\x7d".toUTF8)
    accounts := Finmap.singleton "admin" ⟨"admin", 2 ^ 64 - 1, 0, 0⟩ }

def welcomeVm : VM Binary64 InMemoryStorage :=
  .setAuthContext InMemoryStorage.admin (.withStorageBackend (fun _ => 0) welcomeStorage)

theorem welcome_welcomeVm : Welcome welcomeVm "p1" InMemoryStorage.admin := by
  refine ⟨welcomeStorage, "\x7b\x7d".toUTF8, rfl, InMemoryStorage.admin_permitted _ _,
    InMemoryStorage.admin_permitted _ _, ?_, ⟨"admin", 2 ^ 64 - 1, 0, 0⟩, ?_, le_refl _⟩
  · decide
  · decide

/-- `serde_json` on the text of this one comment. -/
@[reducible] def writeGreeting : Serde ProposalComment where
  typeName := "icn_covm::governance::comments::ProposalComment"
  toVec _ := .ok ("\x7b\"id\":\"f47ac10b-58cc-4372-a567-0e02b2c3d479\",\"author\":\"admin\"," ++
    "\"timestamp\":\"1970-01-01T00:00:00Z\",\"content\":\"Hello\",\"reply_to\":null," ++
    "\"tags\":[],\"reactions\":\x7b\x7d,\"hidden\":false,\"edit_history\":[\x7b" ++
    "\"content\":\"Hello\",\"timestamp\":\"1970-01-01T00:00:00Z\"\x7d]\x7d").toUTF8
  fromSlice _ := .ok
    (.new 0 "f47ac10b-58cc-4372-a567-0e02b2c3d479" "admin" "Hello" none [])

@[reducible] def writeGreetingVersion : Serde CommentVersion where
  typeName := "icn_covm::governance::comments::CommentVersion"
  toVec _ :=
    .ok "\x7b\"content\":\"Hello\",\"timestamp\":\"1970-01-01T00:00:00Z\"\x7d".toUTF8
  fromSlice _ := .ok ⟨"Hello", 0⟩

/-- An administrator's comment is not fetched. -/
theorem comment_lost : ¬ ∀ (F : Type) [HashOrder] [Serde ProposalComment] [Serde CommentVersion]
    (vm : VM F InMemoryStorage) (proposalId : String) (user : AuthContext)
    (calls : List CommentCall), Welcome vm proposalId user →
      TakeEffect vm proposalId (some user) (calls.map fun call => (user, call)) := by
  intro h
  refine @Welcome.not_takeEffect Binary64 writeGreeting writeGreetingVersion _ welcomeVm "p1"
    InMemoryStorage.admin welcome_welcomeVm 0 "f47ac10b-58cc-4372-a567-0e02b2c3d479" "admin" "Hello"
    none [] _ rfl _ _ ?_
    (@h Binary64 _ writeGreeting writeGreetingVersion welcomeVm "p1" InMemoryStorage.admin
      [.create 0 "f47ac10b-58cc-4372-a567-0e02b2c3d479" "admin" "Hello" none []] welcome_welcomeVm)
  exact List.mem_singleton.mpr rfl

end Governance

end Covm
