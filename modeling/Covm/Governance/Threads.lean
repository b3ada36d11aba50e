import Covm.Governance.Comments
import Covm.Governance.Tally
import Covm.Partial.Walk
import Mathlib.Data.List.Sort

/-!
# Threads of comments (`print_thread`, `handle_thread_command` of `cli/proposal.rs`)

The comments of a proposal are printed as a forest: below a comment, one level deeper, the comments
that reply to it. Hidden comments are left out before the forest is looked for, and with them
everything below them is lost.
-/

namespace Covm

open Partial

/-- `format("%Y-%m-%d %H:%M:%S")` -/
class TimeFormat where
  format : DateTime → String

namespace Governance

section printing
variable [HashOrder]

/-- `values` of a hash map. -/
def values {V : Type} (m : HashMap V) : List V := (HashOrder.order m.keys).filterMap m.lookup

def sortByTime (comments : List ProposalComment) : List ProposalComment :=
  comments.mergeSort fun a b => a.timestamp ≤ b.timestamp

/-- What is printed of a comment. -/
def commentLines [TimeFormat] (comment : ProposalComment) (depth : Nat) : List String :=
  let indent := String.join (List.replicate depth "  ")
  let time := TimeFormat.format comment.timestamp
  if comment.hidden then
    [s!"{indent}└─ [{comment.id}] [HIDDEN] by {comment.author} at {time}"]
  else
    let tags := ", ".intercalate comment.tags
    let emojis := HashOrder.order comment.reactions.keys
    let reactions := ", ".intercalate (emojis.filterMap fun emoji =>
      (comment.reactions.lookup emoji).map fun count => s!"{emoji} ({count})")
    [s!"{indent}└─ [{comment.id}] by {comment.author} at {time}",
      s!"{indent}   {comment.content}"] ++
      (if comment.tags = [] then [] else [s!"{indent}   Tags: {tags}"]) ++
      (if comment.reactions.keys = ∅ then [] else [s!"{indent}   Reactions: {reactions}"])

def replies (comments : HashMap ProposalComment) (comment : ProposalComment) :
    List ProposalComment :=
  sortByTime ((values comments).filter fun c => c.replyTo = some comment.id)

/-- Comments without a parent. -/
def roots (comments : HashMap ProposalComment) : List ProposalComment :=
  sortByTime ((values comments).filter fun c => c.replyTo.isNone)

/-- The comments that are printed for one and its replies, with their depths. -/
def printThread (comments : HashMap ProposalComment) : Nat → Nat → ProposalComment →
    (Nat → Unit) → Option (List (ProposalComment × Nat) × (Nat → Unit)) :=
  walk fun comment => .fixed (replies comments comment)

/-- The texts of threads; there is an empty line after each of them. -/
def threadLines [TimeFormat] : List (ProposalComment × Nat) → List String
  | [] => []
  | (comment, depth) :: rest =>
    commentLines comment depth ++
      (if rest.head?.all fun next => next.2 = 0 then [""] else []) ++ threadLines rest

/-- What a command has printed: the comments with their depths, and its text. -/
structure ThreadView where
  shown : List (ProposalComment × Nat)
  lines : List String

def threadHeading (comments : HashMap ProposalComment) (proposalId : String) (showHidden : Bool) :
    List String :=
  let including := if showHidden then " (including hidden)" else ""
  [s!"Threaded comments for proposal {proposalId}:",
    s!"{comments.keys.card} total comments{including}"]

variable {F S : Type} [ListingBackend S] [Serde ProposalComment]

/-- Nothing is returned where the fuel is used up. -/
def handleThreadCommand [TimeFormat] (fuel : Nat) (vm : VM F S) (proposalId : String)
    (showHidden : Bool) (auth : AuthContext) : Except (GovernanceError F) (Option ThreadView) := do
  let comments ← fetchCommentsThreaded vm proposalId (some auth) showHidden
  if comments.keys = ∅ then
    return some ⟨[], [s!"No comments found for proposal {proposalId}"]⟩
  return (walkAll (printThread comments fuel 0) (roots comments) fun _ => ()).map fun shown =>
    ⟨shown.1, threadHeading comments proposalId showHidden ++ threadLines shown.1⟩

end printing

/-! ## What is fetched -/

section fetched
variable {F S : Type}

/-- The comments that are stored for a proposal, as they are listed. -/
def storedComments [ListingBackend S] [Serde ProposalComment] (vm : VM F S) (proposalId : String)
    (auth : Option AuthContext) : Except (GovernanceError F) (List ProposalComment) := do
  let storage ← proposalStorage vm auth proposalId
  let refs ← (ListingBackend.listKeys storage auth "governance"
    (some (commentsPath proposalId))).mapError .storage
  return refs.filterMap fun ref =>
    (StorageExtensions.getJson ProposalComment storage auth "governance" ref).toOption

/-- The comments that a reader looks at. -/
def visibleTo (showHidden : Bool) (stored : List ProposalComment) : List ProposalComment :=
  stored.filter fun c => !c.hidden || showHidden

theorem visibleTo_true (stored : List ProposalComment) : visibleTo true stored = stored := by
  unfold visibleTo
  simp

/-- Comments by their identifiers; of two with one identifier the later one is kept. -/
def byId (comments : List ProposalComment) : HashMap ProposalComment :=
  comments.foldl (fun m c => m.insert c.id c) ∅

variable {vm : VM F S} {proposalId : String} {auth : Option AuthContext} {showHidden : Bool}
  {stored : List ProposalComment}

theorem mem_visibleTo {c : ProposalComment} :
    c ∈ visibleTo showHidden stored ↔ c ∈ stored ∧ (c.hidden = true → showHidden = true) := by
  unfold visibleTo
  rw [List.mem_filter]
  cases c.hidden <;> simp

/-- What is looked at is fetched. -/
theorem fetch_of_stored [ListingBackend S] [Serde ProposalComment]
    (h : storedComments vm proposalId auth = .ok stored) :
    fetchCommentsThreaded vm proposalId auth showHidden =
      .ok (byId (visibleTo showHidden stored)) := by
  unfold storedComments at h
  unfold fetchCommentsThreaded
  cases hstorage : proposalStorage vm auth proposalId with
  | error e =>
    rw [hstorage] at h
    cases h
  | ok storage =>
    rw [hstorage] at h
    cases hrefs : ((ListingBackend.listKeys storage auth "governance"
        (some (commentsPath proposalId))).mapError .storage : Except (GovernanceError F) _) with
    | error e =>
      simp only [hrefs, bind, Except.bind] at h
      cases h
    | ok refs =>
      simp only [hrefs, bind, Except.bind, pure, Except.pure] at h ⊢
      cases h
      rw [byId, visibleTo, List.foldl_filter, List.foldl_filterMap]
      congr 2
      funext comments ref
      cases StorageExtensions.getJson ProposalComment storage auth "governance" ref <;> rfl

/-- An identifier leads to the last comment that has it. -/
theorem lookup_byId_snoc (comments : List ProposalComment) (last : ProposalComment) (i : String) :
    (byId (comments ++ [last])).lookup i =
      if i = last.id then some last else (byId comments).lookup i := by
  unfold byId
  rw [List.foldl_append, List.foldl_cons, List.foldl_nil]
  split_ifs with hi
  · rw [hi, Finmap.lookup_insert]
  · exact Finmap.lookup_insert_of_ne _ hi

theorem of_lookup_byId {comments : List ProposalComment} {i : String} {c : ProposalComment}
    (h : (byId comments).lookup i = some c) : c ∈ comments ∧ c.id = i := by
  induction comments using List.reverseRecOn with
  | nil => cases h
  | append_singleton comments last ih =>
    rw [lookup_byId_snoc] at h
    split_ifs at h with hi
    · cases h
      exact ⟨by simp, hi.symm⟩
    · exact ⟨List.mem_append_left _ (ih h).1, (ih h).2⟩

theorem exists_lookup_byId {comments : List ProposalComment} {c : ProposalComment}
    (h : c ∈ comments) : ∃ d, (byId comments).lookup c.id = some d := by
  induction comments using List.reverseRecOn with
  | nil => cases h
  | append_singleton comments last ih =>
    rw [lookup_byId_snoc]
    split_ifs with hi
    · exact ⟨last, rfl⟩
    · rcases List.mem_append.mp h with h | h
      · exact ih h
      · exact absurd (congrArg ProposalComment.id (List.mem_singleton.mp h)) hi

end fetched

/-! ## What is printed -/

section shown
variable {comments : HashMap ProposalComment} {c p : ProposalComment}

/-- A comment is found under its identifier. -/
def Held (comments : HashMap ProposalComment) (c : ProposalComment) : Prop :=
  comments.lookup c.id = some c

/-- Every comment is kept under its identifier. -/
def KeptById (comments : HashMap ProposalComment) : Prop :=
  ∀ i c, comments.lookup i = some c → c.id = i

theorem keptById_byId (comments : List ProposalComment) : KeptById (byId comments) :=
  fun _ _ h => (of_lookup_byId h).2

theorem mem_sortByTime {cs : List ProposalComment} : c ∈ sortByTime cs ↔ c ∈ cs :=
  (List.mergeSort_perm _ _).mem_iff

theorem nodup_sortByTime {cs : List ProposalComment} (h : cs.Nodup) : (sortByTime cs).Nodup :=
  (List.mergeSort_perm _ _).nodup_iff.mpr h

variable [HashOrder]

theorem mem_values (hkept : KeptById comments) : c ∈ values comments ↔ Held comments c := by
  unfold values Held
  rw [List.mem_filterMap]
  constructor
  · rintro ⟨i, -, hi⟩
    rw [hkept i c hi]
    exact hi
  · intro h
    exact ⟨c.id, HashOrder.mem_order.mpr (Finmap.mem_keys.mpr (Finmap.mem_of_lookup_eq_some h)), h⟩

theorem nodup_values (hkept : KeptById comments) : (values comments).Nodup := by
  refine List.Nodup.filterMap (fun i j c hi hj => ?_) (HashOrder.nodup_order _)
  exact (hkept i c hi).symm.trans (hkept j c hj)

theorem mem_replies (hkept : KeptById comments) :
    c ∈ replies comments p ↔ Held comments c ∧ c.replyTo = some p.id := by
  rw [replies, mem_sortByTime, List.mem_filter, mem_values hkept, decide_eq_true_eq]

theorem mem_roots (hkept : KeptById comments) :
    c ∈ roots comments ↔ Held comments c ∧ c.replyTo = none := by
  rw [roots, mem_sortByTime, List.mem_filter, mem_values hkept, Option.isNone_iff_eq_none]

end shown

/-! ## What a view leaves out -/

section views
variable [HashOrder]

/-- The comments that are looked at are all printed, once each, and a reply below the comment it
replies to, one level deeper. -/
structure ShowsAll [TimeFormat] (stored : List ProposalComment) (showHidden : Bool)
    (view : ThreadView) : Prop where
  mem_iff : ∀ c, c ∈ view.shown.map Prod.fst ↔ c ∈ visibleTo showHidden stored
  once : (view.shown.map Prod.fst).Nodup
  below : ∀ p e c, (p, e) ∈ view.shown → c ∈ visibleTo showHidden stored →
    c.replyTo = some p.id → ∃ before between after,
      view.shown = before ++ (p, e) :: (between ++ (c, e + 1) :: after) ∧ ∀ y ∈ between, e < y.2
  printed : ∃ heading, view.lines = heading ++ threadLines view.shown

variable {comments : HashMap ProposalComment} {c p : ProposalComment}
  {inputs inputs' : Nat → Unit} {out : List (ProposalComment × Nat)}

theorem held_root (hkept : KeptById comments) :
    ∀ k ∈ roots comments, Held comments k ∧ k.replyTo.bind comments.lookup = none := by
  intro k hk
  obtain ⟨hheld, hnone⟩ := (mem_roots hkept).mp hk
  rw [hnone]
  exact ⟨hheld, rfl⟩

theorem forest_replies (hkept : KeptById comments)
    (hacyclic : ∀ x, ¬ Relation.TransGen (fun a b => Held comments b ∧ a.replyTo = some b.id) x x) :
    Forest (replies comments) (fun c => c.replyTo.bind comments.lookup) (Held comments) where
  child a b ha hb := by
    obtain ⟨hheld, hreply⟩ := (mem_replies hkept).mp hb
    rw [hreply]
    exact ⟨hheld, ha⟩
  nodup k := nodup_sortByTime ((nodup_values hkept).filter _)
  acyclic x hcycle := by
    refine hacyclic x (Relation.TransGen.mono (fun a b hab => ?_) _ _ hcycle)
    obtain ⟨i, hi, hb⟩ := Option.bind_eq_some_iff.mp hab
    obtain rfl := hkept i b hb
    exact ⟨hb, hi⟩

theorem roots_eq_nil (hkept : KeptById comments) (hempty : comments.keys = ∅) :
    roots comments = [] := by
  refine List.eq_nil_iff_forall_not_mem.mpr fun c hc => ?_
  have hmem := Finmap.mem_of_lookup_eq_some ((mem_roots hkept).mp hc).1
  rw [← Finmap.mem_keys, hempty] at hmem
  exact Finset.notMem_empty _ hmem

/-- A comment that is printed begins a thread or replies to one that is printed. -/
theorem parent_shown (hkept : KeptById comments)
    (h : Walks (fun c => .fixed (replies comments c)) 0 (roots comments) inputs out inputs')
    (hc : c ∈ out.map Prod.fst) :
    Held comments c ∧ (c.replyTo = none ∨
      ∃ p ∈ out.map Prod.fst, c.replyTo = some p.id) := by
  obtain ⟨k, hk, hkc⟩ := h.mem_iff.mp hc
  rcases Relation.ReflTransGen.cases_tail hkc with heq | ⟨p, hkp, hpc⟩
  · obtain ⟨hheld, hnone⟩ := (mem_roots hkept).mp (heq ▸ hk)
    exact ⟨hheld, .inl hnone⟩
  · obtain ⟨hheld, hreply⟩ := (mem_replies hkept).mp hpc
    exact ⟨hheld, .inr ⟨p, h.mem_iff.mpr ⟨k, hk, hkp⟩, hreply⟩⟩

variable [TimeFormat] {F S : Type} [ListingBackend S] [Serde ProposalComment] {vm : VM F S}
  {proposalId : String} {showHidden : Bool} {auth : AuthContext} {stored : List ProposalComment}

theorem handleThreadCommand_eq (hstored : storedComments vm proposalId (some auth) = .ok stored)
    (fuel : Nat) : handleThreadCommand fuel vm proposalId showHidden auth =
      .ok (if (byId (visibleTo showHidden stored)).keys = ∅ then
        some ⟨[], [s!"No comments found for proposal {proposalId}"]⟩
      else
        (walkAll (printThread (byId (visibleTo showHidden stored)) fuel 0)
          (roots (byId (visibleTo showHidden stored))) fun _ => ()).map fun shown =>
            ⟨shown.1, threadHeading (byId (visibleTo showHidden stored)) proposalId showHidden ++
              threadLines shown.1⟩) := by
  unfold handleThreadCommand
  rw [fetch_of_stored hstored]
  simp only [bind, Except.bind]
  split_ifs <;> rfl

/-- A view is a walk through the comments that are looked at. -/
theorem walks_of_handleThreadCommand
    (hstored : storedComments vm proposalId (some auth) = .ok stored) {fuel : Nat}
    {view : ThreadView}
    (h : handleThreadCommand fuel vm proposalId showHidden auth = .ok (some view)) :
    ∃ inputs', Walks (fun c => .fixed (replies (byId (visibleTo showHidden stored)) c)) 0
      (roots (byId (visibleTo showHidden stored))) (fun _ => ()) view.shown inputs' := by
  rw [handleThreadCommand_eq hstored] at h
  have h := Except.ok.inj h
  split_ifs at h with hempty
  · cases h
    rw [roots_eq_nil (keptById_byId _) hempty]
    exact ⟨_, .nil⟩
  · obtain ⟨⟨out, inputs'⟩, hwalk, rfl⟩ := Option.map_eq_some_iff.mp h
    exact ⟨inputs', walks_of_walkAll hwalk⟩

/-- With enough fuel there is a view. -/
theorem exists_view (hstored : storedComments vm proposalId (some auth) = .ok stored)
    (hwalks : Walks (fun c => .fixed (replies (byId (visibleTo showHidden stored)) c)) 0
      (roots (byId (visibleTo showHidden stored))) (fun _ => ()) out inputs') :
    ∃ fuel view, handleThreadCommand fuel vm proposalId showHidden auth = .ok (some view) ∧
      view.shown = out ∧ ∃ heading, view.lines = heading ++ threadLines view.shown := by
  obtain ⟨fuel, hwalk⟩ := hwalks.walkAll
  refine ⟨fuel, ?_⟩
  rw [handleThreadCommand_eq hstored]
  by_cases hempty : (byId (visibleTo showHidden stored)).keys = ∅
  · rw [roots_eq_nil (keptById_byId _) hempty] at hwalks
    cases hwalks
    rw [if_pos hempty]
    exact ⟨_, rfl, rfl, _, (List.append_nil _).symm⟩
  · rw [if_neg hempty]
    unfold printThread
    rw [hwalk]
    exact ⟨_, rfl, rfl, _, rfl⟩

/-- A view shows all iff the comments that are looked at have different identifiers, and reply only
to comments that are looked at. Where hidden comments are not, this is where no comment replies to
one of them that is not hidden itself. -/
theorem showsAll_iff (hstored : storedComments vm proposalId (some auth) = .ok stored)
    (hacyclic : ∀ c, ¬ Relation.TransGen (fun a b => b ∈ stored ∧ a.replyTo = some b.id) c c) :
    (∃ fuel view, handleThreadCommand fuel vm proposalId showHidden auth = .ok (some view) ∧
        ShowsAll stored showHidden view) ↔
      (∀ a ∈ visibleTo showHidden stored, ∀ b ∈ visibleTo showHidden stored, a.id = b.id → a = b) ∧
        ∀ c ∈ visibleTo showHidden stored, ∀ i, c.replyTo = some i →
          ∃ p ∈ visibleTo showHidden stored, p.id = i := by
  have hkept := keptById_byId (visibleTo showHidden stored)
  constructor
  · rintro ⟨fuel, view, hview, hall⟩
    obtain ⟨_, hwalks⟩ := walks_of_handleThreadCommand hstored hview
    constructor
    · intro a ha b hb hid
      have hheld := (parent_shown hkept hwalks ((hall.mem_iff a).mpr ha)).1
      have hheld' := (parent_shown hkept hwalks ((hall.mem_iff b).mpr hb)).1
      unfold Held at hheld hheld'
      rw [hid] at hheld
      exact Option.some.inj (hheld.symm.trans hheld')
    · intro c hc i hi
      rcases (parent_shown hkept hwalks ((hall.mem_iff c).mpr hc)).2 with hnone | ⟨p, hp, hreply⟩
      · rw [hi] at hnone
        cases hnone
      · rw [hi] at hreply
        exact ⟨p, (hall.mem_iff p).mp hp, (Option.some.inj hreply).symm⟩
  · rintro ⟨hids, hlinks⟩
    have hheld : ∀ c, Held (byId (visibleTo showHidden stored)) c ↔
        c ∈ visibleTo showHidden stored := by
      intro c
      refine ⟨fun h => (of_lookup_byId h).1, fun hc => ?_⟩
      obtain ⟨d, hd⟩ := exists_lookup_byId hc
      obtain ⟨hmem, hid⟩ := of_lookup_byId hd
      rw [hids d hmem c hc hid] at hd
      exact hd
    have hstays : ∀ x, ¬ Relation.TransGen (fun a b =>
        Held (byId (visibleTo showHidden stored)) b ∧ a.replyTo = some b.id) x x := by
      intro x hcycle
      refine hacyclic x (Relation.TransGen.mono (fun a b hab => ⟨?_, hab.2⟩) _ _ hcycle)
      exact (mem_visibleTo.mp ((hheld b).mp hab.1)).1
    have hforest := forest_replies hkept hstays
    have hfinite : {c | Held (byId (visibleTo showHidden stored)) c}.Finite := by
      simp only [hheld]
      exact List.finite_toSet _
    obtain ⟨out, inputs', hwalks⟩ := hforest.finishes hfinite (fun k hk => (held_root hkept k hk).1)
      fun _ => ()
    obtain ⟨fuel, view, hview, rfl, hprinted⟩ := exists_view hstored hwalks
    refine ⟨fuel, view, hview, ⟨fun c => ⟨fun hc => ?_, ?_⟩, ?_, ?_, hprinted⟩⟩
    · exact (hheld c).mp (parent_shown hkept hwalks hc).1
    · -- from the ends of the links upwards
      have hreached : ∀ x ∈ {c | Held (byId (visibleTo showHidden stored)) c},
          x ∈ view.shown.map Prod.fst := by
        refine induction_of_acyclic (r := fun a b =>
          Held (byId (visibleTo showHidden stored)) b ∧ a.replyTo = some b.id) hfinite
          (fun x _ => hstays x) fun x hx ih => ?_
        cases hreply : x.replyTo with
        | none => exact hwalks.mem_iff.mpr ⟨x, (mem_roots hkept).mpr ⟨hx, hreply⟩, .refl⟩
        | some i =>
          obtain ⟨p, hp, rfl⟩ := hlinks x ((hheld x).mp hx) i hreply
          have hp := (hheld p).mpr hp
          obtain ⟨k, hk, hkp⟩ := hwalks.mem_iff.mp (ih p hp ⟨hp, hreply⟩)
          exact hwalks.mem_iff.mpr ⟨k, hk, hkp.tail ((mem_replies hkept).mpr ⟨hx, hreply⟩)⟩
      exact fun hc => hreached c ((hheld c).mpr hc)
    · exact hforest.nodup_of_walks hwalks
        (nodup_sortByTime ((nodup_values hkept).filter _)) (held_root hkept)
    · intro p e c hp hc hreply
      exact hwalks.nested hp ((mem_replies hkept).mpr ⟨(hheld c).mpr hc, hreply⟩)

end views

/-! ### A reply to a hidden comment -/

section hiddenParent

def hiddenComment : ProposalComment :=
  .hide (.new 0 "f47ac10b-58cc-4372-a567-0e02b2c3d479" "admin" "Hello" none [])

def replyToHidden : ProposalComment :=
  .new 1 "6fa459ea-ee8a-4ca4-894e-db77e160355e" "bob" "Hello too" (some hiddenComment.id) []

def hiddenText : String :=
  "\x7b\"id\":\"f47ac10b-58cc-4372-a567-0e02b2c3d479\",\"author\":\"admin\"," ++
    "\"timestamp\":\"1970-01-01T00:00:00Z\",\"content\":\"Hello\",\"reply_to\":null," ++
    "\"tags\":[],\"reactions\":\x7b\x7d,\"hidden\":true,\"edit_history\":[\x7b" ++
    "\"content\":\"Hello\",\"timestamp\":\"1970-01-01T00:00:00Z\"\x7d]\x7d"

def replyText : String :=
  "\x7b\"id\":\"6fa459ea-ee8a-4ca4-894e-db77e160355e\",\"author\":\"bob\"," ++
    "\"timestamp\":\"1970-01-01T00:00:01Z\",\"content\":\"Hello too\"," ++
    "\"reply_to\":\"f47ac10b-58cc-4372-a567-0e02b2c3d479\"," ++
    "\"tags\":[],\"reactions\":\x7b\x7d,\"hidden\":false,\"edit_history\":[\x7b" ++
    "\"content\":\"Hello too\",\"timestamp\":\"1970-01-01T00:00:01Z\"\x7d]\x7d"

/-- `serde_json` on the texts of these two comments. -/
@[reducible] def readThread : Serde ProposalComment where
  typeName := "icn_covm::governance::comments::ProposalComment"
  toVec _ := .error "not written"
  fromSlice bytes :=
    if bytes = hiddenText.toUTF8 then .ok hiddenComment
    else if bytes = replyText.toUTF8 then .ok replyToHidden
    else .error "not a comment"

def threadRow : HashMap ByteArray :=
  ((Finmap.insert (proposalPath "p1") "\x7b\x7d".toUTF8 ∅).insert
    (commentPath "p1" hiddenComment.id) hiddenText.toUTF8).insert
    (commentPath "p1" replyToHidden.id) replyText.toUTF8

def threadStorage : InMemoryStorage :=
  { InMemoryStorage.new fun _ => 0 with
    data := (∅ : Maps.Table String String ByteArray).insert "governance" threadRow }

def threadVm : VM Binary64 InMemoryStorage :=
  .setAuthContext InMemoryStorage.admin (.withStorageBackend (fun _ => 0) threadStorage)

instance : TimeFormat := ⟨fun _ => "1970-01-01 00:00:00"⟩

theorem filterMap_pair {A B : Type} {f : A → Option B} {a b : A} {x y : B} (ha : f a = some x)
    (hb : f b = some y) : [a, b].filterMap f = [x, y] := by
  rw [List.filterMap_cons_some ha, List.filterMap_cons_some hb, List.filterMap_nil]

theorem commentPath_ne : commentPath "p1" hiddenComment.id ≠ commentPath "p1" replyToHidden.id := by
  decide

theorem get_threadStorage {key : String} {bytes : ByteArray}
    (hrow : threadRow.lookup key = some bytes) :
    threadStorage.data.get ("governance", key) = some bytes := by
  have hgovernance : threadStorage.data.lookup "governance" = some threadRow :=
    Finmap.lookup_insert _
  unfold Maps.Table.get
  rw [hgovernance]
  exact hrow

theorem lookup_threadRow_reply :
    threadRow.lookup (commentPath "p1" replyToHidden.id) = some replyText.toUTF8 :=
  Finmap.lookup_insert _

theorem lookup_threadRow_hidden :
    threadRow.lookup (commentPath "p1" hiddenComment.id) = some hiddenText.toUTF8 := by
  rw [threadRow, Finmap.lookup_insert_of_ne _ commentPath_ne]
  exact Finmap.lookup_insert _

theorem getJson_hidden : letI := readThread
    StorageExtensions.getJson ProposalComment threadStorage (some InMemoryStorage.admin)
      "governance" (commentPath "p1" hiddenComment.id) = .ok hiddenComment := by
  let _ := readThread
  rw [getJson_of_data (InMemoryStorage.admin_permitted _ _)
    (get_threadStorage lookup_threadRow_hidden)]
  exact StorageExtensions.decode_of_ok (if_pos rfl)

theorem getJson_reply : letI := readThread
    StorageExtensions.getJson ProposalComment threadStorage (some InMemoryStorage.admin)
      "governance" (commentPath "p1" replyToHidden.id) = .ok replyToHidden := by
  let _ := readThread
  rw [getJson_of_data (InMemoryStorage.admin_permitted _ _)
    (get_threadStorage lookup_threadRow_reply)]
  exact StorageExtensions.decode_of_ok ((if_neg (by decide +kernel)).trans (if_pos rfl))

theorem keys_threadRow :
    (threadRow.keys.filter fun key => (commentsPath "p1").toList <+: key.toList) =
      [commentPath "p1" hiddenComment.id, commentPath "p1" replyToHidden.id].toFinset := by
  decide

theorem get_threadProposal : StorageBackend.get threadStorage (some InMemoryStorage.admin)
    "governance" (proposalPath "p1") = .ok "\x7b\x7d".toUTF8 := by decide

theorem storedComments_threadVm : letI := readThread
    ∃ stored, storedComments threadVm "p1" (some InMemoryStorage.admin) = .ok stored ∧
      stored.Perm [hiddenComment, replyToHidden] := by
  let _ := readThread
  have hlisted : ListingBackend.listKeys threadStorage (some InMemoryStorage.admin) "governance"
      (some (commentsPath "p1")) = .ok (HashOrder.order _) :=
    listKeys_admin (Finmap.lookup_insert _) keys_threadRow
  have hnodup : [commentPath "p1" hiddenComment.id, commentPath "p1" replyToHidden.id].Nodup :=
    List.nodup_cons.mpr ⟨by simpa using commentPath_ne, List.nodup_singleton _⟩
  refine ⟨(HashOrder.order [commentPath "p1" hiddenComment.id,
    commentPath "p1" replyToHidden.id].toFinset).filterMap fun ref =>
      (StorageExtensions.getJson ProposalComment threadStorage (some InMemoryStorage.admin)
        "governance" ref).toOption, ?_, ?_⟩
  · unfold storedComments proposalStorage
    rw [backendOf_eq_ok_iff.mpr
      (show threadVm.executor.storageBackend = some threadStorage from rfl)]
    simp only [bind, Except.bind, pure, Except.pure]
    rw [get_threadProposal]
    simp only [Except.mapError]
    rw [hlisted]
  · refine ((perm_order hnodup).filterMap _).trans (.of_eq ?_)
    exact filterMap_pair (congrArg Except.toOption getJson_hidden)
      (congrArg Except.toOption getJson_reply)

/-- The reply refers to the comment, the comment to nothing. -/
theorem acyclic_thread {stored : List ProposalComment}
    (hstored : stored.Perm [hiddenComment, replyToHidden]) (c : ProposalComment) :
    ¬ Relation.TransGen (fun a b => b ∈ stored ∧ a.replyTo = some b.id) c c := by
  have hends : ∀ b, ¬ Relation.TransGen (fun a b => b ∈ stored ∧ a.replyTo = some b.id)
      hiddenComment b := by
    intro b h
    obtain ⟨d, ⟨-, hd⟩, -⟩ := Relation.TransGen.head'_iff.mp h
    cases hd
  intro hcycle
  obtain ⟨e, -, hc, -⟩ := Relation.TransGen.tail'_iff.mp hcycle
  rcases List.mem_pair.mp (hstored.mem_iff.mp hc) with rfl | rfl
  · exact hends _ hcycle
  · obtain ⟨d, ⟨hd, hreply⟩, hrest⟩ := Relation.TransGen.head'_iff.mp hcycle
    rcases List.mem_pair.mp (hstored.mem_iff.mp hd) with rfl | rfl
    · rcases Relation.reflTransGen_iff_eq_or_transGen.mp hrest with heq | hrest
      · cases congrArg ProposalComment.replyTo heq
      · exact hends _ hrest
    · exact absurd hreply (by decide)

theorem ids_thread {stored : List ProposalComment}
    (hstored : stored.Perm [hiddenComment, replyToHidden]) :
    ∀ a ∈ stored, ∀ b ∈ stored, a.id = b.id → a = b := by
  intro a ha b hb hid
  rcases List.mem_pair.mp (hstored.mem_iff.mp ha) with rfl | rfl <;>
    rcases List.mem_pair.mp (hstored.mem_iff.mp hb) with rfl | rfl
  · rfl
  · exact absurd hid (by decide)
  · exact absurd hid (by decide)
  · rfl

theorem links_thread {stored : List ProposalComment}
    (hstored : stored.Perm [hiddenComment, replyToHidden]) :
    ∀ c ∈ stored, ∀ i, c.replyTo = some i → ∃ p ∈ stored, p.id = i := by
  intro c hc i hi
  rcases List.mem_pair.mp (hstored.mem_iff.mp hc) with rfl | rfl
  · cases hi
  · exact ⟨hiddenComment, hstored.mem_iff.mpr (.head _), Option.some.inj hi⟩

/-- With the hidden comments all are shown. -/
theorem showsAll_threadVm : letI := readThread
    ∃ stored fuel view, storedComments threadVm "p1" (some InMemoryStorage.admin) = .ok stored ∧
      handleThreadCommand fuel threadVm "p1" true InMemoryStorage.admin = .ok (some view) ∧
      ShowsAll stored true view := by
  let _ := readThread
  obtain ⟨stored, hread, hstored⟩ := storedComments_threadVm
  have hcond : (∀ a ∈ visibleTo true stored, ∀ b ∈ visibleTo true stored, a.id = b.id → a = b) ∧
      ∀ c ∈ visibleTo true stored, ∀ i, c.replyTo = some i →
        ∃ p ∈ visibleTo true stored, p.id = i := by
    rw [visibleTo_true]
    exact ⟨ids_thread hstored, links_thread hstored⟩
  obtain ⟨fuel, view, hview, hall⟩ := (showsAll_iff hread (acyclic_thread hstored)).mpr hcond
  exact ⟨stored, fuel, view, hread, hview, hall⟩

/-- A reply to a hidden comment is not shown, though it is not hidden itself. -/
theorem reply_lost : ¬ ∀ (F S : Type) [HashOrder] [TimeFormat] [ListingBackend S]
    [Serde ProposalComment] (vm : VM F S) (proposalId : String) (showHidden : Bool)
    (auth : AuthContext) (stored : List ProposalComment),
    storedComments vm proposalId (some auth) = .ok stored →
    (∀ a ∈ stored, ∀ b ∈ stored, a.id = b.id → a = b) →
    (∀ c ∈ stored, ∀ i, c.replyTo = some i → ∃ p ∈ stored, p.id = i) →
    (∀ c, ¬ Relation.TransGen (fun a b => b ∈ stored ∧ a.replyTo = some b.id) c c) →
    ∃ fuel view, handleThreadCommand fuel vm proposalId showHidden auth = .ok (some view) ∧
      ShowsAll stored showHidden view := by
  intro h
  let _ := readThread
  obtain ⟨stored, hread, hstored⟩ := storedComments_threadVm
  obtain ⟨fuel, view, hview, hall⟩ := h Binary64 InMemoryStorage threadVm "p1" false
    InMemoryStorage.admin stored hread (ids_thread hstored) (links_thread hstored)
    (acyclic_thread hstored)
  have hreply : replyToHidden ∈ visibleTo false stored :=
    mem_visibleTo.mpr ⟨hstored.mem_iff.mpr (by simp), fun hhidden => by cases hhidden⟩
  obtain ⟨_, hwalks⟩ := walks_of_handleThreadCommand hread hview
  have hshown := (hall.mem_iff _).mpr hreply
  rcases (parent_shown (keptById_byId _) hwalks hshown).2 with hnone | ⟨p, hp, hlink⟩
  · cases hnone
  · obtain ⟨hmem, hhidden⟩ := mem_visibleTo.mp ((hall.mem_iff p).mp hp)
    rcases List.mem_pair.mp (hstored.mem_iff.mp hmem) with rfl | rfl
    · cases hhidden rfl
    · exact absurd hlink (by decide)

end hiddenParent

end Governance

end Covm
