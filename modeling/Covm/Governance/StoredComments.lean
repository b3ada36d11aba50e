import Covm.Governance.Comments
import Covm.Partial.Walk
import Mathlib.Data.List.FinRange

/-!
# Stored comments (`add_proposal_comment`, `display_threaded_comments` of `cli/proposal.rs`)

A comment is stored under a new UUID, which the caller gets and gives as the parent of a reply. The
comment does not keep it: where the replies to a comment are looked for, an identifier is made up
from the second of its timestamp and its author. No UUID looks like that, and two comments may have
the same one.
-/

namespace Covm

open Partial

structure StoredComment where
  author : String
  timestamp : String
  content : String
  parent : Option String

/-- The text of a UUID has lower-case hexadecimal digits and hyphens. -/
structure Uuid where
  text : String
  digits : ∀ c ∈ text.toList, c = '-' ∨ c.isDigit = true ∨ 'a' ≤ c ∧ c ≤ 'f'

theorem Uuid.no_underscore (uuid : Uuid) : '_' ∉ uuid.text.toList := by
  intro h
  exact absurd (uuid.digits _ h) (by decide)

/-- The second of a text that `DateTime::parse_from_rfc3339` reads. -/
class TimestampText where
  parse : String → Option Int

namespace Governance

section adding
variable {F S : Type} [ForkableBackend S] [DateText] [Serde StoredComment]

def proposalCommentsPrefix (proposalId : String) : String :=
  s!"{proposalKeyPrefix proposalId}/comments"

def addProposalComment (now : DateTime) (uuid : Uuid) (proposalId author content : String)
    (parentId : Option String) : Gov F S String := do
  let (forked, storage) ← forkStorage
  let auth := forked.executor.authContext
  let ns := forked.executor.ns
  if !(← ofResult ((StorageBackend.contains storage auth ns (proposalKeyPrefix proposalId)).mapError
      .storage)) then
    raiseText s!"Proposal with ID '{proposalId}' not found"
  let comment : StoredComment := ⟨author, DateText.toRfc3339 now, content, parentId⟩
  onClone storage (keeping (StorageExtensions.setJson auth ns
    s!"{proposalCommentsPrefix proposalId}/{uuid.text}" comment))
  ofVm VM.commitForkTransaction
  return uuid.text

variable (F S) in
/-- What calls that succeed have stored, under the identifiers they returned. Other commands may
have changed the VM between the calls. -/
inductive Added (proposalId : String) : List (String × StoredComment) → Prop
  | nil : Added proposalId []
  | add {made : List (String × StoredComment)} (hmade : Added proposalId made)
      {now : DateTime} {uuid : Uuid} {author content : String} {parentId : Option String}
      (hparent : ∀ p, parentId = some p → p ∈ made.map Prod.fst) {vm vm' : VM F S} {id : String}
      (hok : addProposalComment now uuid proposalId author content parentId vm = .ok id vm') :
      Added proposalId (made ++ [(id, ⟨author, DateText.toRfc3339 now, content, parentId⟩)])

end adding

section displaying

/-- Helper function to shorten DIDs for display. -/
def shortenDid (did : String) : String :=
  if "did:".toList <+: did.toList then ((did.splitOn ":").getLast?).getD did else did

/-- The comments with each parent. -/
def childrenMap (comments : List StoredComment) : Option String → List (Fin comments.length) :=
  (List.finRange comments.length).foldl
    (fun map i => Function.update map comments[i].parent (map comments[i].parent ++ [i]))
    fun _ => []

def commentId (second : Int) (author : String) : String := s!"{second}_{author}"

variable [TimestampText]

/-- For a timestamp that cannot be read the clock is. -/
def replyIndices (comments : List StoredComment) (i : Fin comments.length) :
    Children (Fin comments.length) Int :=
  match TimestampText.parse comments[i].timestamp with
  | some second => .fixed (childrenMap comments (some (commentId second comments[i].author)))
  | none => .reading fun now => childrenMap comments (some (commentId now comments[i].author))

def displayComment (comments : List StoredComment) : Nat → Nat → Fin comments.length →
    (Nat → Int) → Option (List (Fin comments.length × Nat) × (Nat → Int)) :=
  walk (replyIndices comments)

omit [TimestampText] in
/-- What is printed of a comment. -/
def displayLines (comment : StoredComment) (depth : Nat) : List String :=
  let indent := String.join (List.replicate depth "    ")
  let author := shortenDid comment.author
  [if depth = 0 then s!"{indent}🗣️  {author} at {comment.timestamp}"
    else s!"{indent}↳   {author} replied:",
    s!"{indent}    {comment.content}", ""]

/-- The comments that have been displayed, with their depths, and the text. -/
structure Display (comments : List StoredComment) where
  shown : List (Fin comments.length × Nat)
  lines : List String

omit [TimestampText] in
def displayOf {comments : List StoredComment} (shown : List (Fin comments.length × Nat)) :
    Display comments :=
  ⟨shown, shown.flatMap fun entry => displayLines comments[entry.1] entry.2⟩

/-- The clock gives the seconds it is read at. Nothing is returned where the fuel is used up. -/
def displayThreadedComments (fuel : Nat) (comments : List StoredComment) (clock : Nat → Int) :
    Option (Display comments) :=
  (walkAll (displayComment comments fuel 0) (childrenMap comments none) clock).map fun shown =>
    displayOf shown.1

def Terminates (comments : List StoredComment) (clock : Nat → Int) : Prop :=
  ∃ fuel display, displayThreadedComments fuel comments clock = some display

/-- Every comment is displayed once. -/
def DisplaysEach (comments : List StoredComment) (clock : Nat → Int) : Prop :=
  ∃ fuel display, displayThreadedComments fuel comments clock = some display ∧
    (display.shown.map Prod.fst).Perm (List.finRange comments.length)

end displaying

/-! ## Which comments are displayed -/

section displayed
variable {comments : List StoredComment} {parent : Option String}

theorem foldl_update {n : Nat} (parentAt : Fin n → Option String) (is : List (Fin n))
    (map : Option String → List (Fin n)) :
    is.foldl (fun map i => Function.update map (parentAt i) (map (parentAt i) ++ [i])) map parent =
      map parent ++ is.filter fun i => parentAt i = parent := by
  induction is generalizing map with
  | nil => rw [List.foldl_nil, List.filter_nil, List.append_nil]
  | cons i is ih =>
    rw [List.foldl_cons, ih]
    by_cases hi : parentAt i = parent
    · simp [hi]
    · simp [hi, Function.update_of_ne (Ne.symm hi)]

theorem childrenMap_eq (comments : List StoredComment) (parent : Option String) :
    childrenMap comments parent =
      (List.finRange comments.length).filter fun i => comments[i].parent = parent :=
  foldl_update (fun i => comments[i].parent) _ _

theorem mem_childrenMap {i : Fin comments.length} :
    i ∈ childrenMap comments parent ↔ comments[i].parent = parent := by
  rw [childrenMap_eq, List.mem_filter, decide_eq_true_eq]
  exact and_iff_right (List.mem_finRange i)

variable [TimestampText] {clock : Nat → Int}

/-- The second comment replies to what is made up for the first, whose second is the clock's if the
timestamp cannot be read. -/
def RepliesTo (comments : List StoredComment) (i j : Fin comments.length) : Prop :=
  ∃ second, (∀ t, TimestampText.parse comments[i].timestamp = some t → second = t) ∧
    comments[j].parent = some (commentId second comments[i].author)

theorem parentOf_replyIndices {i j : Fin comments.length} :
    ParentOf (replyIndices comments) i j ↔ RepliesTo comments i j := by
  unfold ParentOf replyIndices RepliesTo
  cases TimestampText.parse comments[i].timestamp with
  | some t =>
    constructor
    · rintro ⟨_, hj⟩
      exact ⟨t, fun _ h => Option.some.inj h, mem_childrenMap.mp hj⟩
    · rintro ⟨second, hsecond, hj⟩
      rw [hsecond t rfl] at hj
      exact ⟨fun _ => 0, mem_childrenMap.mpr hj⟩
  | none =>
    constructor
    · rintro ⟨inputs, hj⟩
      exact ⟨inputs 0, (fun _ h => by cases h), mem_childrenMap.mp hj⟩
    · rintro ⟨second, -, hj⟩
      exact ⟨fun _ => second, mem_childrenMap.mpr hj⟩

theorem display_eq_some_iff {fuel : Nat} {display : Display comments} :
    displayThreadedComments fuel comments clock = some display ↔ ∃ out inputs',
      walkAll (walk (replyIndices comments) fuel 0) (childrenMap comments none) clock =
        some (out, inputs') ∧ displayOf out = display := by
  unfold displayThreadedComments displayComment
  rw [Option.map_eq_some_iff, Prod.exists]

theorem terminates_iff : Terminates comments clock ↔
    Finishes (replyIndices comments) (childrenMap comments none) clock := by
  unfold Terminates
  simp only [display_eq_some_iff]
  constructor
  · rintro ⟨fuel, display, out, inputs', hwalk, -⟩
    exact ⟨out, inputs', walks_of_walkAll hwalk⟩
  · rintro ⟨out, inputs', hwalks⟩
    obtain ⟨fuel, hwalk⟩ := hwalks.walkAll
    exact ⟨fuel, displayOf out, out, inputs', hwalk, rfl⟩

/-- Displaying ends whatever the clock gives iff no comment that may be come to may lead back to
itself. -/
theorem terminates_forall_iff : (∀ clock, Terminates comments clock) ↔
    ∀ i j, comments[i].parent = none → Relation.ReflTransGen (RepliesTo comments) i j →
      ¬ Relation.TransGen (RepliesTo comments) j j := by
  have hsame : ParentOf (replyIndices comments) = RepliesTo comments :=
    funext₂ fun i j => propext parentOf_replyIndices
  simp only [terminates_iff]
  rw [finishes_iff, hsame]
  constructor
  · exact fun h i j hi => h i (mem_childrenMap.mpr hi) j
  · exact fun h i hi j => h i j (mem_childrenMap.mp hi)

theorem displaysEach_iff : DisplaysEach comments clock ↔ ∃ out inputs',
    Walks (replyIndices comments) 0 (childrenMap comments none) clock out inputs' ∧
      (out.map Prod.fst).Perm (List.finRange comments.length) := by
  unfold DisplaysEach
  simp only [display_eq_some_iff]
  constructor
  · rintro ⟨fuel, _, ⟨out, inputs', hwalk, rfl⟩, hperm⟩
    exact ⟨out, inputs', walks_of_walkAll hwalk, hperm⟩
  · rintro ⟨out, inputs', hwalks, hperm⟩
    obtain ⟨fuel, hwalk⟩ := hwalks.walkAll
    exact ⟨fuel, displayOf out, ⟨out, inputs', hwalk, rfl⟩, hperm⟩

/-- Where no comment replies to what is made up for another, the comments without a parent are
displayed. -/
theorem displaysEach_of_no_replies (h : ∀ i j, ¬ RepliesTo comments i j) :
    Terminates comments clock ∧
      (DisplaysEach comments clock ↔ ∀ c ∈ comments, c.parent = none) := by
  have hchildless : ∀ i ∈ childrenMap comments none, ∀ j,
      ¬ ParentOf (replyIndices comments) i j :=
    fun i _ j hij => h i j (parentOf_replyIndices.mp hij)
  obtain ⟨inputs', hwalks⟩ := walks_of_childless hchildless 0 clock
  refine ⟨terminates_iff.mpr hwalks.finishes, ?_⟩
  have hshown : ((childrenMap comments none).map fun i => (i, 0)).map Prod.fst =
      childrenMap comments none := by
    rw [List.map_map]
    exact List.map_id _
  rw [displaysEach_iff]
  constructor
  · rintro ⟨out, _, hout, hperm⟩ c hc
    obtain ⟨rfl, -⟩ := hout.functional hwalks
    obtain ⟨i, hi, rfl⟩ := List.mem_iff_getElem.mp hc
    rw [hshown] at hperm
    exact mem_childrenMap.mp (hperm.mem_iff.mpr (List.mem_finRange ⟨i, hi⟩))
  · intro hroots
    refine ⟨_, _, hwalks, ?_⟩
    rw [hshown, childrenMap_eq, List.filter_eq_self.mpr]
    intro i _
    exact decide_eq_true (hroots _ (List.getElem_mem i.isLt))

end displayed

/-! ## Comments that have been added -/

section added

theorem underscore_mem_commentId (second : Int) (author : String) :
    '_' ∈ (commentId second author).toList := by
  unfold commentId
  rw [String.toList_append, String.toList_append]
  exact List.mem_append_left _ (List.mem_append_right _ (by decide))

variable {F S : Type} [ForkableBackend S] [DateText] [Serde StoredComment]

/-- The identifier that is returned is the UUID. -/
theorem addProposalComment_eq_ok {now : DateTime} {uuid : Uuid}
    {proposalId author content id : String} {parentId : Option String} {vm vm' : VM F S}
    (h : addProposalComment now uuid proposalId author content parentId vm = .ok id vm') :
    id = uuid.text := by
  unfold addProposalComment at h
  obtain ⟨⟨forked, storage⟩, _, -, h⟩ := Comp.bind_eq_ok_iff.mp h
  obtain ⟨found, _, -, h⟩ := Comp.bind_eq_ok_iff.mp h
  cases found with
  | false => simp [raiseText, raiseError, Comp.bind_apply] at h
  | true =>
    obtain ⟨_, _, -, h⟩ := Comp.bind_eq_ok_iff.mp h
    obtain ⟨_, _, -, h⟩ := Comp.bind_eq_ok_iff.mp h
    cases h
    rfl

/-- No identifier that is returned, and so no parent, looks like one that is made up. -/
theorem Added.no_underscore {proposalId : String} {made : List (String × StoredComment)}
    (h : Added F S proposalId made) :
    (∀ id ∈ made.map Prod.fst, '_' ∉ id.toList) ∧
      ∀ c ∈ made.map Prod.snd, ∀ p, c.parent = some p → '_' ∉ p.toList := by
  induction h with
  | nil => simp
  | @add made _ now uuid author content parentId hparent vm vm' id hok ih =>
    obtain ⟨hids, hparents⟩ := ih
    rw [List.map_append, List.map_append]
    refine ⟨fun i hi => ?_, fun c hc p hp => ?_⟩
    · rcases List.mem_append.mp hi with hi | hi
      · exact hids i hi
      · rw [List.mem_singleton.mp hi, addProposalComment_eq_ok hok]
        exact uuid.no_underscore
    · rcases List.mem_append.mp hc with hc | hc
      · exact hparents c hc p hp
      · rw [List.mem_singleton.mp hc] at hp
        exact hids p (hparent p hp)

variable [TimestampText]

theorem Added.not_repliesTo {proposalId : String} {made : List (String × StoredComment)}
    (h : Added F S proposalId made) {comments : List StoredComment}
    (hcomments : comments.Perm (made.map Prod.snd)) (i j : Fin comments.length) :
    ¬ RepliesTo comments i j := by
  rintro ⟨second, -, hj⟩
  have hmem : comments[j] ∈ made.map Prod.snd := hcomments.mem_iff.mp (List.getElem_mem j.isLt)
  exact h.no_underscore.2 _ hmem _ hj (underscore_mem_commentId second comments[i].author)

end added

/-- The comments that have been added are all displayed iff none has a parent; displaying them ends.
With other comments displaying ends, whatever the clock gives, iff none that may be come to may lead
back to itself. -/
theorem display_iff [DateText] [TimestampText] :
    (∀ (F S : Type) [ForkableBackend S] [Serde StoredComment] (proposalId : String)
      (made : List (String × StoredComment)), Added F S proposalId made →
      ∀ comments, comments.Perm (made.map Prod.snd) → ∀ clock, Terminates comments clock ∧
        (DisplaysEach comments clock ↔ ∀ c ∈ comments, c.parent = none)) ∧
    ∀ comments, (∀ clock, Terminates comments clock) ↔
      ∀ i j, comments[i].parent = none → Relation.ReflTransGen (RepliesTo comments) i j →
        ¬ Relation.TransGen (RepliesTo comments) j j := by
  refine ⟨fun F S _ _ proposalId made hmade comments hcomments clock => ?_,
    fun comments => terminates_forall_iff⟩
  exact displaysEach_of_no_replies (hmade.not_repliesTo hcomments)

/-! ### A reply, and a comment under its own name -/

section replied

/-- `serde_json` on comments whose texts need no escapes. -/
@[reducible] def writeStored : Serde StoredComment where
  typeName := "icn_covm::cli::proposal::StoredComment"
  toVec comment :=
    let parent := comment.parent.elim "null" fun p => "\"" ++ p ++ "\""
    .ok ("\x7b\"author\":\"" ++ comment.author ++ "\",\"timestamp\":\"" ++ comment.timestamp ++
      "\",\"content\":\"" ++ comment.content ++ "\",\"parent\":" ++ parent ++ "\x7d").toUTF8
  fromSlice _ := .error "not read"

/-- The VM of an administrator without a limit, in whose transaction nothing has happened. -/
def commentingStorage : InMemoryStorage :=
  { welcomeStorage with
    data := (∅ : Maps.Table String String ByteArray).insert "default"
      (Finmap.singleton (proposalKeyPrefix "p1") "\x7b\x7d".toUTF8)
    transactionStack := [[]] }

def commentingVm : VM Binary64 InMemoryStorage := welcomeVm.forkedTo commentingStorage

theorem addProposalComment_inMemory {F : Type} [DateText] [Serde StoredComment] {now : DateTime}
    {uuid : Uuid} {proposalId author content : String} {parentId : Option String}
    {vm : VM F InMemoryStorage} {b clone clone' own : InMemoryStorage}
    (hbackend : vm.executor.storageBackend = some b)
    (hbegin : ForkableBackend.beginTransaction b = .ok () clone)
    (hfound : StorageBackend.contains clone vm.executor.authContext vm.executor.ns
      (proposalKeyPrefix proposalId) = .ok true)
    (hset : StorageExtensions.setJson vm.executor.authContext vm.executor.ns
      s!"{proposalCommentsPrefix proposalId}/{uuid.text}"
      (⟨author, DateText.toRfc3339 now, content, parentId⟩ : StoredComment) clone = .ok () clone')
    (hactive : vm.executor.transactionActive = true)
    (hcommit : ForkableBackend.commitTransaction b = .ok () own) :
    addProposalComment now uuid proposalId author content parentId vm =
      .ok uuid.text (vm.ended own) := by
  have hfork : (forkStorage : Gov F InMemoryStorage _) vm = .ok (vm.forkedTo clone, clone) vm :=
    forkStorage_eq_ok_iff.mpr ⟨b, hbackend, hbegin, rfl, (vm.rejoined_inMemory clone).symm⟩
  have hended : (ofVm VM.commitForkTransaction : Gov F InMemoryStorage Unit) vm =
      .ok () (vm.ended own) :=
    ofVm_eq_ok_iff.mpr ((VM.endTransaction_eq_ok_iff hbackend _ _).mpr
      ⟨hactive, own, hcommit, rfl⟩)
  have hkept : onClone clone (keeping (StorageExtensions.setJson vm.executor.authContext
      vm.executor.ns s!"{proposalCommentsPrefix proposalId}/{uuid.text}"
      (⟨author, DateText.toRfc3339 now, content, parentId⟩ : StoredComment))) vm = .ok () vm := by
    refine onClone_eq_ok_iff.mpr ⟨clone', ?_, (vm.rejoined_inMemory clone').symm⟩
    rw [keeping, hset]
  unfold addProposalComment
  refine (Comp.bind_of_ok hfork).trans ((Comp.bind_of_ok
    (ofResult_eq_ok_iff.mpr ⟨mapError_eq_ok_iff.mpr hfound, rfl⟩)).trans ?_)
  exact (Comp.bind_of_ok hkept).trans (Comp.bind_of_ok hended)

theorem exists_setJson {T : Type} [Serde T] {s : InMemoryStorage} (h : s.Roomy "admin") {value : T}
    {bytes : ByteArray} (hbytes : Serde.toVec value = .ok bytes) (key : String) :
    ∃ s', StorageExtensions.setJson (some InMemoryStorage.admin) "default" key value s =
      .ok () s' := by
  obtain ⟨s', hset⟩ := InMemoryStorage.set_ok_iff.mpr
    ⟨InMemoryStorage.admin, rfl, InMemoryStorage.admin_permitted "write" "default",
      h.roomFor (s.storedBytes "default" key) bytes.size⟩
  refine ⟨s', (StorageM.bind_of_ok (StorageM.query_of_ok ?_)).trans hset⟩
  rw [StorageExtensions.encode, hbytes]

theorem addProposalComment_commentingVm (now : DateTime) (uuid : Uuid) (author content : String)
    (parentId : Option String) : ∃ vm', @addProposalComment Binary64 InMemoryStorage _ _ writeStored
      now uuid "p1" author content parentId commentingVm = .ok uuid.text vm' := by
  let _ := writeStored
  have hfound : ({ commentingStorage with transactionStack := [[], []] } : InMemoryStorage).contains
      (some InMemoryStorage.admin) "default" (proposalKeyPrefix "p1") = .ok true := by
    decide
  have hroomy : ({ commentingStorage with transactionStack := [[], []] } : InMemoryStorage).Roomy
      "admin" := ⟨⟨"admin", 2 ^ 64 - 1, 0, 0⟩, rfl, le_refl _⟩
  obtain ⟨clone, hset⟩ := exists_setJson hroomy
    (T := StoredComment) rfl _
  exact ⟨_, addProposalComment_inMemory rfl rfl hfound hset rfl rfl⟩

@[reducible] def epochText : TimestampText :=
  ⟨fun text => if text = "1970-01-01T00:00:00+00:00" then some 0 else none⟩

def firstUuid : Uuid := ⟨"f47ac10b-58cc-4372-a567-0e02b2c3d479", by simp⟩

def secondUuid : Uuid := ⟨"6fa459ea-ee8a-4ca4-894e-db77e160355e", by simp⟩

def ownReply (parent : String) : StoredComment :=
  ⟨"ada", "1970-01-01T00:00:00+00:00", "Hello again", some parent⟩

/-- A comment and the reply to it. -/
theorem added_reply : @Added Binary64 InMemoryStorage _ _ writeStored "p1"
    [(firstUuid.text, ⟨"ada", "1970-01-01T00:00:00+00:00", "Hello", none⟩),
      (secondUuid.text, ownReply firstUuid.text)] := by
  let _ := writeStored
  obtain ⟨_, hfirst⟩ := addProposalComment_commentingVm 0 firstUuid "ada" "Hello" none
  obtain ⟨_, hsecond⟩ := addProposalComment_commentingVm 0 secondUuid "ada" "Hello again"
    (some firstUuid.text)
  have hmade := Added.add .nil (fun _ h => by cases h) hfirst
  refine Added.add hmade (fun p hp => ?_) hsecond
  rw [← Option.some.inj hp]
  exact .head _

/-- The reply to a comment is not displayed; a reply to what is made up for itself is displayed for
ever. -/
theorem display_fails :
    (¬ ∀ (F S : Type) [ForkableBackend S] [DateText] [TimestampText] [Serde StoredComment]
      (proposalId : String) (made : List (String × StoredComment)), Added F S proposalId made →
      ∀ comments, comments.Perm (made.map Prod.snd) → ∀ clock, DisplaysEach comments clock) ∧
    ¬ ∀ [TimestampText] (comments : List StoredComment) (clock : Nat → Int),
      Terminates comments clock := by
  constructor
  · intro h
    let _ := epochText
    let _ := writeStored
    have hdisplays := @h Binary64 InMemoryStorage _ _ _ writeStored "p1" _ added_reply _ (.refl _)
      fun _ => 0
    have hroots := (displaysEach_of_no_replies
      (added_reply.not_repliesTo (.refl _))).2.mp hdisplays
    cases hroots (ownReply firstUuid.text) (by simp)
  · intro h
    let _ := epochText
    let comments : List StoredComment :=
      [⟨"ada", "1970-01-01T00:00:00+00:00", "Hello", none⟩, ownReply "0_ada"]
    have hreplies : ∀ i : Fin 2, RepliesTo comments i 1 := by
      intro i
      refine ⟨0, fun t ht => ?_, ?_⟩
      · fin_cases i <;> exact Option.some.inj ht
      · fin_cases i <;> decide
    exact terminates_forall_iff.mp (h comments) 0 1 rfl (.single (hreplies 0))
      (.single (hreplies 1))

end replied


end Governance

end Covm
