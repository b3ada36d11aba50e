import Covm.Ledger.Exchange

/-!
# Ledgers that pass on what they have

Any number of ledgers write diffs for each other. A diff that was written is read whenever its
reader gets to it: late, out of order, more than once or never. Whatever the order, a ledger has the
identifiers of the ledgers it has heard of, directly or through others, and no others.
-/

namespace Covm

open Files Maps

namespace DagLedger

/-- A diff for `reader`, and the ledgers its writer had heard of. -/
structure Letter (ι : Type) where
  reader : ι
  path : Path
  disk : Disk
  heard : Set ι

variable {ι F : Type} [DecidableEq ι] [NodeJson F]

/-- What the ledgers are after some diffs were written and read, whom each has heard of, and the
diffs that may still be read. -/
inductive Gossip (start : ι → DagLedger F) :
    (ι → DagLedger F) → (ι → Set ι) → List (Letter ι) → Prop
  | start : Gossip start start (fun i => {i}) []
  | send {ledgers : ι → DagLedger F} {heard : ι → Set ι} {letters : List (Letter ι)}
      (h : Gossip start ledgers heard letters) (writer reader : ι) {path : Path}
      {before disk : Disk}
      (hsent : exportDiffToFile ((ledgers writer).diffWith (ledgers reader)) path before =
        .ok () disk) :
      Gossip start ledgers heard (⟨reader, path, disk, heard writer⟩ :: letters)
  | receive {ledgers : ι → DagLedger F} {heard : ι → Set ι} {letters : List (Letter ι)}
      (h : Gossip start ledgers heard letters) {letter : Letter ι} (hletter : letter ∈ letters)
      {disk disk' : Disk} (hdisk : disk.read letter.path = letter.disk.read letter.path)
      {n : Nat} {ledger : DagLedger F}
      (hread : importFromFile letter.path (ledgers letter.reader, disk) = .ok n (ledger, disk')) :
      Gossip start (Function.update ledgers letter.reader ledger)
        (Function.update heard letter.reader (heard letter.reader ∪ letter.heard)) letters

/-- A letter brings its reader to what its writer had. -/
structure Letter.Brings (start ledgers : ι → DagLedger F) (letter : Letter ι)
    (nodes : List (DagNode F)) : Prop where
  reads : letter.disk.read letter.path = .ok (jsonLines nodes)
  origin : ∀ node ∈ nodes, ∃ i ∈ letter.heard, node ∈ (start i).nodes
  all : ∀ i ∈ letter.heard, ∀ id ∈ (start i).ids,
    id ∈ nodes.map (·.id) ∨ id ∈ (ledgers letter.reader).ids

/-- What the ledgers have is what they have heard of. -/
structure Spread (start ledgers : ι → DagLedger F) (heard : ι → Set ι)
    (letters : List (Letter ι)) : Prop where
  keeps : ∀ j, (start j).nodes <+: (ledgers j).nodes
  origin : ∀ j, ∀ node ∈ (ledgers j).nodes, ∃ i ∈ heard j, node ∈ (start i).nodes
  all : ∀ j, ∀ i ∈ heard j, (start i).ids ⊆ (ledgers j).ids
  nodup : ∀ j, ((start j).nodes.map (·.id)).Nodup → ((ledgers j).nodes.map (·.id)).Nodup
  brings : ∀ letter ∈ letters, ∃ nodes, letter.Brings start ledgers nodes

variable {start ledgers : ι → DagLedger F} {heard : ι → Set ι} {letters : List (Letter ι)}

omit [DecidableEq ι] in
/-- What a letter says is read as it was written. -/
theorem Letter.Brings.read (hstart : ∀ i, ∀ node ∈ (start i).nodes, NodeJson.Faithful node)
    {letter : Letter ι} {nodes : List (DagNode F)} (h : letter.Brings start ledgers nodes)
    {disk : Disk} (hdisk : disk.read letter.path = letter.disk.read letter.path)
    (ledger : DagLedger F) :
    importFromFile letter.path (ledger, disk) =
      .ok (missing DagNode.id (ledger.nodes.map DagNode.id) nodes).length
        ({ ledger with nodes := absorb DagNode.id ledger.nodes nodes }, disk) := by
  refine importFromFile_json (hdisk.trans h.reads) fun node hnode => ?_
  obtain ⟨i, -, hi⟩ := h.origin node hnode
  exact hstart i node hi

omit [DecidableEq ι] in
theorem Spread.send (h : Spread start ledgers heard letters) {writer reader : ι} {path : Path}
    {before disk : Disk}
    (hsent : exportDiffToFile ((ledgers writer).diffWith (ledgers reader)) path before =
      .ok () disk) :
    Spread start ledgers heard (⟨reader, path, disk, heard writer⟩ :: letters) where
  keeps := h.keeps
  origin := h.origin
  all := h.all
  nodup := h.nodup
  brings := by
    refine List.forall_mem_cons.mpr ⟨⟨_, read_of_export hsent, ?_, ?_⟩, h.brings⟩
    · exact fun node hnode => h.origin writer node (List.mem_of_mem_filter hnode)
    · intro i hi id hid
      have hwriter := h.all writer i hi hid
      by_cases hreader : id ∈ (ledgers reader).ids
      · exact .inr hreader
      · have hadded := mem_addedIds.mpr ⟨hwriter, hreader⟩
        exact .inl (List.mem_toFinset.mp hadded)

/-- A letter that is read adds the ledgers its writer had heard of. -/
theorem Spread.receive (h : Spread start ledgers heard letters) {letter : Letter ι}
    {nodes : List (DagNode F)} (hbrings : letter.Brings start ledgers nodes) :
    Spread start
      (Function.update ledgers letter.reader { ledgers letter.reader with
        nodes := absorb DagNode.id (ledgers letter.reader).nodes nodes })
      (Function.update heard letter.reader (heard letter.reader ∪ letter.heard)) letters := by
  set grown : DagLedger F := { ledgers letter.reader with
    nodes := absorb DagNode.id (ledgers letter.reader).nodes nodes }
  -- only the reader gets another ledger
  have hupdate {p : ι → DagLedger F → Prop} (hreader : p letter.reader grown)
      (hothers : ∀ j, p j (ledgers j)) (j : ι) :
      p j (Function.update ledgers letter.reader grown j) :=
    (Function.forall_update_iff ledgers p).mpr ⟨hreader, fun j _ => hothers j⟩ j
  have hgrows : ∀ j, (ledgers j).ids ⊆ (Function.update ledgers letter.reader grown j).ids :=
    hupdate (p := fun j ledger => (ledgers j).ids ⊆ ledger.ids)
      (fun _ hid => mem_ids.mpr (mem_map_absorb.mpr (.inl (mem_ids.mp hid)))) fun _ _ => id
  have hnodes : grown.nodes = (ledgers letter.reader).nodes ++
      missing DagNode.id ((ledgers letter.reader).nodes.map DagNode.id) nodes := absorb_eq ..
  refine ⟨?keeps, fun j => ?origin, fun j => ?all, ?nodup, fun other hother => ?brings⟩
  case keeps =>
    refine hupdate (p := fun j ledger => (start j).nodes <+: ledger.nodes) ?_ h.keeps
    rw [hnodes]
    exact (h.keeps _).trans (List.prefix_append _ _)
  case origin =>
    by_cases hj : j = letter.reader
    · subst hj
      rw [Function.update_self, Function.update_self]
      intro node hnode
      rw [hnodes, List.mem_append] at hnode
      rcases hnode with hnode | hnode
      · obtain ⟨i, hi, hstart⟩ := h.origin _ node hnode
        exact ⟨i, .inl hi, hstart⟩
      · obtain ⟨i, hi, hstart⟩ :=
          hbrings.origin node (List.mem_of_find?_eq_some (mem_missing.mp hnode).2)
        exact ⟨i, .inr hi, hstart⟩
    · rw [Function.update_of_ne hj, Function.update_of_ne hj]
      exact h.origin j
  case all =>
    by_cases hj : j = letter.reader
    · subst hj
      rw [Function.update_self]
      rintro i (hi | hi) id hid
      · exact hgrows _ (h.all _ i hi hid)
      · rcases hbrings.all i hi id hid with hnew | hold
        · rw [Function.update_self]
          exact mem_ids.mpr (mem_map_absorb.mpr (.inr hnew))
        · exact hgrows _ hold
    · rw [Function.update_of_ne hj, Function.update_of_ne hj]
      exact h.all j
  case nodup =>
    exact hupdate (p := fun j ledger =>
        ((start j).nodes.map (·.id)).Nodup → (ledger.nodes.map (·.id)).Nodup)
      (fun hnodup => nodup_absorb (h.nodup _ hnodup)) h.nodup
  case brings =>
    obtain ⟨others, hothers⟩ := h.brings other hother
    refine ⟨others, hothers.reads, hothers.origin, fun i hi id hid => ?_⟩
    exact (hothers.all i hi id hid).imp_right fun hold => hgrows _ hold

theorem Gossip.spread (hstart : ∀ i, ∀ node ∈ (start i).nodes, NodeJson.Faithful node)
    (h : Gossip start ledgers heard letters) : Spread start ledgers heard letters := by
  induction h with
  | start =>
    refine ⟨fun j => List.prefix_rfl, fun j node hnode => ⟨j, rfl, hnode⟩, ?_, fun _ => id, ?_⟩
    · rintro j _ rfl
      exact fun _ => id
    · exact List.forall_mem_nil _
  | send _ writer reader hsent ih => exact ih.send hsent
  | receive _ hletter hdisk hread ih =>
    obtain ⟨nodes, hbrings⟩ := ih.brings _ hletter
    rw [hbrings.read hstart hdisk] at hread
    cases hread
    exact ih.receive hbrings

/-- Whatever is written and read, in whatever order: a ledger has exactly the identifiers of the
ledgers it has heard of, each node as one of them had it; its own nodes stay where they were, and no
identifier comes in twice. Every letter can still be read. Ledgers that have heard of the same
ledgers have the same identifiers. -/
theorem gossip_converges (hstart : ∀ i, ∀ node ∈ (start i).nodes, NodeJson.Faithful node)
    (h : Gossip start ledgers heard letters) :
    (∀ j id, id ∈ (ledgers j).ids ↔ ∃ i ∈ heard j, id ∈ (start i).ids) ∧
    (∀ j, (start j).nodes <+: (ledgers j).nodes ∧
      (∀ node ∈ (ledgers j).nodes, ∃ i ∈ heard j, node ∈ (start i).nodes) ∧
      (((start j).nodes.map (·.id)).Nodup → ((ledgers j).nodes.map (·.id)).Nodup)) ∧
    (∀ letter ∈ letters, ∀ disk, disk.read letter.path = letter.disk.read letter.path →
      ∃ n ledger, importFromFile letter.path (ledgers letter.reader, disk) =
        .ok n (ledger, disk)) ∧
    ∀ j k, heard j = heard k → (ledgers j).ids = (ledgers k).ids := by
  have hspread := h.spread hstart
  have hids : ∀ j id, id ∈ (ledgers j).ids ↔ ∃ i ∈ heard j, id ∈ (start i).ids := by
    intro j id
    constructor
    · intro hid
      obtain ⟨node, hnode, rfl⟩ := List.mem_map.mp (mem_ids.mp hid)
      obtain ⟨i, hi, hmem⟩ := hspread.origin j node hnode
      exact ⟨i, hi, mem_ids.mpr (List.mem_map_of_mem hmem)⟩
    · rintro ⟨i, hi, hid⟩
      exact hspread.all j i hi hid
  refine ⟨hids, fun j => ⟨hspread.keeps j, hspread.origin j, hspread.nodup j⟩, ?_, ?_⟩
  · intro letter hletter disk hdisk
    obtain ⟨nodes, hbrings⟩ := hspread.brings letter hletter
    exact ⟨_, _, hbrings.read hstart hdisk _⟩
  · intro j k hheard
    ext id
    rw [hids, hids, hheard]

/-! ### Two ledgers and one letter -/

def roofs : Bool → DagLedger Binary64
  | false => ⟨[roofCreated], none⟩
  | true => ⟨[roofExecuted], none⟩

theorem faithful_roofs : ∀ i, ∀ node ∈ (roofs i).nodes, NodeJson.Faithful node := by
  rintro (_ | _) node hnode
  · rw [List.mem_singleton.mp hnode]
    exact faithful_roofCreated
  · rw [List.mem_singleton.mp hnode]
    exact faithful_roofExecuted

/-- The ledger that has read the letter has both nodes. -/
theorem gossip_converges_roofs : ∃ ledgers heard letters, Gossip roofs ledgers heard letters ∧
    ∀ id, id ∈ (ledgers true).ids ↔ id = "0aa1" ∨ id = "0bb2" := by
  obtain ⟨sent, hsent⟩ := export_empty ((roofs false).diffWith (roofs true))
  have hsend := (@Gossip.start Bool Binary64 _ _ roofs).send false true hsent
  have hread := import_diff (faithful_roofs false) (read_of_export hsent)
  have hrun := hsend.receive (List.mem_singleton_self _) rfl hread
  refine ⟨_, _, _, hrun, fun id => ?_⟩
  rw [(gossip_converges faithful_roofs hrun).1 true id, Function.update_self]
  simp [mem_ids, roofs, roofCreated, roofExecuted, @eq_comm _ id, or_comm]

end DagLedger

end Covm
