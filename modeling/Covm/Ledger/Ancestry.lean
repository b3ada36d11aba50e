import Covm.Ledger.Persistence
import Covm.Number.Binary64
import Covm.Partial.DepthFirst

/-!
# The ancestors of a node

A selective export collects nodes and their ancestors, a trace prints them. Both search depth-first
from parent to parent and leave alone what they have come to; a ledger may have cycles, and parents
that it does not have. The export skips these, the trace fails on them.
-/

namespace Covm

open Partial

/-- The text `{:?}` has for a node. -/
class NodeDebug (F : Type) where
  debug : DagNode F → String

/-- An export under way: the nodes selected, and the identifiers it has come to. -/
structure Export (F : Type) where
  result : List (DagNode F)
  visited : Finset String

/-- A trace under way. -/
structure Trace where
  result : String
  visited : Finset String

namespace DagLedger

variable {F : Type}

def findByIdNodes (ledger : DagLedger F) (id : String) : Option (DagNode F) :=
  ledger.nodes.find? fun node => node.id = id

def exportRecursive (ledger : DagLedger F) : Nat → String → Export F → Option (Export F)
  | 0, _, _ => none
  | fuel + 1, nodeId, ex =>
    if nodeId ∈ ex.visited then some ex
    else
      let visited := insert nodeId ex.visited
      match ledger.findByIdNodes nodeId with
      | none => some { ex with visited }
      | some node =>
        node.parentIds.foldlM (fun ex parentId => exportRecursive ledger fuel parentId ex)
          { ex with result := ex.result ++ [node], visited }

def exportSelected (ledger : DagLedger F) (fuel : Nat) (startIds : List String) :
    Option (List (DagNode F)) := do
  let ex ← startIds.foldlM (fun ex startId => ledger.exportRecursive fuel startId ex) ⟨[], ∅⟩
  return ex.result

section
variable [NodeDebug F]

def traceRecursive (ledger : DagLedger F) : Nat → DagNode F → Trace → ExceptT String Option Trace
  | 0, _, _ => none
  | fuel + 1, node, tr =>
    if node.id ∈ tr.visited then return tr
    else
      node.parentIds.foldlM
        (fun tr parentId =>
          match ledger.findById parentId with
          | some parentNode => traceRecursive ledger fuel parentNode tr
          | none => throw s!"Parent node {parentId} not found")
        ⟨tr.result ++ (NodeDebug.debug node ++ "\n"), insert node.id tr.visited⟩

def trace (ledger : DagLedger F) (fuel : Nat) (node : DagNode F) : ExceptT String Option String := do
  let tr ← ledger.traceRecursive fuel node ⟨"", ∅⟩
  return tr.result

/-- The traces of all nodes, each followed by an empty line. -/
def traceAll (ledger : DagLedger F) (fuel : Nat) : ExceptT String Option String :=
  ledger.nodes.foldlM (fun result node => do return result ++ ((← ledger.trace fuel node) ++ "\n")) ""

end

/-! ## Parents and ancestors -/

/-- The node found for `a` has `b` among its parents. -/
def ParentId (ledger : DagLedger F) (a b : String) : Prop :=
  ∃ node, ledger.findById a = some node ∧ b ∈ node.parentIds

/-- `node` is found for an identifier that is reachable from `startIds`. -/
def Ancestor (ledger : DagLedger F) (startIds : List String) (node : DagNode F) : Prop :=
  ∃ start ∈ startIds, ∃ id, Relation.ReflTransGen ledger.ParentId start id ∧
    ledger.findById id = some node

/-- The ancestors of `startIds` that the ledger has, each one once. -/
structure Selects (ledger : DagLedger F) (startIds : List String) (nodes : List (DagNode F)) :
    Prop where
  nodup : (nodes.map (·.id)).Nodup
  mem_iff : ∀ node, node ∈ nodes ↔ ledger.Ancestor startIds node
  parents : ∀ node ∈ nodes, ∀ id ∈ node.parentIds, ∀ parent,
    ledger.findById id = some parent → parent ∈ nodes

variable {ledger : DagLedger F}

theorem id_of_findById {id : String} {node : DagNode F} (h : ledger.findById id = some node) :
    node.id = id := by simpa using List.find?_some h

theorem mem_of_findById {id : String} {node : DagNode F} (h : ledger.findById id = some node) :
    node ∈ ledger.nodes := List.mem_of_find?_eq_some h

theorem mem_ids_of_findById {id : String} {node : DagNode F}
    (h : ledger.findById id = some node) : id ∈ ledger.ids := by
  rw [ids, List.mem_toFinset, ← id_of_findById h]
  exact List.mem_map_of_mem (mem_of_findById h)

theorem card_ids_le (ledger : DagLedger F) : ledger.ids.card ≤ ledger.nodes.length := by
  exact (List.toFinset_card_le _).trans_eq (List.length_map _)

/-- The nodes of different identifiers are different. -/
theorem nodup_found {order : List String} (h : order.Nodup) :
    ((order.filterMap ledger.findById).map (·.id)).Nodup := by
  have hsub : ((order.filterMap ledger.findById).map (·.id)).Sublist order := by
    induction order with
    | nil => exact List.Sublist.refl _
    | cons id order ih =>
      have ih := ih (List.nodup_cons.mp h).2
      rw [List.filterMap_cons]
      cases hfind : ledger.findById id with
      | none => exact ih.cons id
      | some node =>
        rw [List.map_cons, id_of_findById hfind]
        exact ih.cons_cons id
  exact h.sublist hsub

/-- A search from parent to parent reaches the ancestors. -/
theorem reachedFrom_iff {ε : Type} {next : String → Except ε (List String)}
    (h : ∀ a b, Edge next a b ↔ ledger.ParentId a b) {startIds : List String} {id : String} :
    ReachedFrom next startIds id ↔
      ∃ start ∈ startIds, Relation.ReflTransGen ledger.ParentId start id := by
  have hedge : Edge next = ledger.ParentId := funext fun a => funext fun b => propext (h a b)
  rw [ReachedFrom, hedge]

/-! ## The export -/

/-- The search that the export is. -/
def parentsOf (ledger : DagLedger F) (id : String) : Except Empty (List String) :=
  .ok (((ledger.findById id).map (·.parentIds)).getD [])

theorem edge_parentsOf (a b : String) : Edge ledger.parentsOf a b ↔ ledger.ParentId a b := by
  unfold Edge parentsOf ParentId
  cases ledger.findById a <;> simp

theorem spans_parentsOf (ledger : DagLedger F) : Spans ledger.parentsOf ledger.ids := by
  intro id ks hks hid
  unfold parentsOf at hks
  cases hfind : ledger.findById id with
  | none =>
    rw [hfind] at hks
    cases hks
    rfl
  | some node => exact absurd (mem_ids_of_findById hfind) hid

/-- The export that has come to the identifiers in `order`. -/
def exported (ledger : DagLedger F) (order : List String) : Export F where
  result := order.filterMap ledger.findById
  visited := order.toFinset

theorem mem_visited_exported {id : String} {order : List String} :
    id ∈ (ledger.exported order).visited ↔ id ∈ order := List.mem_toFinset

theorem insert_visited_exported (id : String) (order : List String) :
    insert id (ledger.exported order).visited = (ledger.exported (order ++ [id])).visited := by
  ext x
  simp [mem_visited_exported, or_comm]

theorem result_exported_concat (ledger : DagLedger F) (id : String) (order : List String) :
    (ledger.exported (order ++ [id])).result =
      (ledger.exported order).result ++ (ledger.findById id).toList := by
  simp only [exported, List.filterMap_append]
  cases hfind : ledger.findById id <;> simp [hfind]

theorem exportAll_visit {fuel : Nat}
    (h : ∀ id order order', visit ledger.parentsOf fuel id order = some (.ok order') →
      ledger.exportRecursive fuel id (ledger.exported order) = some (ledger.exported order'))
    (ids : List String) : ∀ order order',
      visitAll ledger.parentsOf fuel ids order = some (.ok order') →
        ids.foldlM (fun ex id => ledger.exportRecursive fuel id ex) (ledger.exported order) =
          some (ledger.exported order') := by
  induction ids with
  | nil =>
    intro order order' hall
    cases hall
    rfl
  | cons id ids ih =>
    intro order order' hall
    rcases foldlM_cons_cases hall with ⟨order₁, hid, hrest⟩ | ⟨e, -, -⟩
    · rw [List.foldlM_cons, h id order order₁ hid]
      exact ih order₁ order' hrest
    · exact e.elim

/-- The export does what the search does. -/
theorem exportRecursive_visit (fuel : Nat) : ∀ (id : String) (order order' : List String),
    visit ledger.parentsOf fuel id order = some (.ok order') →
      ledger.exportRecursive fuel id (ledger.exported order) = some (ledger.exported order') := by
  induction fuel with
  | zero => exact fun _ _ _ h => nomatch h
  | succ fuel ih =>
    intro id order order' h
    by_cases hid : id ∈ order
    · rw [visit_of_mem hid] at h
      cases h
      rw [exportRecursive, if_pos (mem_visited_exported.mpr hid)]
    · rw [visit_of_ok hid rfl] at h
      have hresult := ledger.result_exported_concat id order
      rw [exportRecursive, if_neg (mt mem_visited_exported.mp hid), insert_visited_exported]
      have hfind : ledger.findByIdNodes id = ledger.findById id := rfl
      cases hnode : ledger.findById id with
      | none =>
        rw [hnode] at h hresult
        cases h
        rw [Option.toList_none, List.append_nil] at hresult
        simp only [hfind, hnode]
        rw [← hresult]
      | some node =>
        rw [hnode] at h hresult
        simp only [hfind, hnode]
        rw [← exportAll_visit ih node.parentIds (order ++ [id]) order' h]
        rw [Option.toList_some] at hresult
        rw [← hresult]

/-- What a search over the parents has listed. -/
theorem mem_found_iff {startIds order : List String}
    (h : ∀ id, id ∈ order ↔ ∃ start ∈ startIds, Relation.ReflTransGen ledger.ParentId start id)
    (node : DagNode F) : node ∈ order.filterMap ledger.findById ↔ ledger.Ancestor startIds node := by
  rw [List.mem_filterMap]
  constructor
  · rintro ⟨id, hid, hfind⟩
    obtain ⟨start, hstart, hreach⟩ := (h id).mp hid
    exact ⟨start, hstart, id, hreach, hfind⟩
  · rintro ⟨start, hstart, id, hreach, hfind⟩
    exact ⟨id, (h id).mpr ⟨start, hstart, hreach⟩, hfind⟩

theorem Ancestor.parent {startIds : List String} {node parent : DagNode F} {id : String}
    (h : ledger.Ancestor startIds node) (hid : id ∈ node.parentIds)
    (hfind : ledger.findById id = some parent) : ledger.Ancestor startIds parent := by
  obtain ⟨start, hstart, a, hreach, ha⟩ := h
  exact ⟨start, hstart, id, hreach.tail ⟨node, ha, hid⟩, hfind⟩

theorem exportSelected_ancestors (ledger : DagLedger F) (startIds : List String) :
    ∃ nodes, (∀ fuel, ledger.nodes.length < fuel →
        ledger.exportSelected fuel startIds = some nodes) ∧ ledger.Selects startIds nodes := by
  rcases explore_cases ledger.spans_parentsOf startIds with
    ⟨order, hvisit, hexplores⟩ | ⟨e, -⟩
  · have hmem : ∀ node, node ∈ order.filterMap ledger.findById ↔ ledger.Ancestor startIds node :=
      mem_found_iff fun id => hexplores.mem_iff.trans (reachedFrom_iff edge_parentsOf)
    refine ⟨order.filterMap ledger.findById, ?_, ?_, hmem, ?_⟩
    · intro fuel hfuel
      have hall := hvisit fuel (ledger.card_ids_le.trans_lt hfuel)
      have hexport := exportAll_visit (exportRecursive_visit fuel) startIds [] order hall
      have hempty : ledger.exported [] = ⟨[], ∅⟩ := rfl
      rw [hempty] at hexport
      rw [exportSelected, hexport]
      rfl
    · exact nodup_found (hexplores.nodup List.nodup_nil)
    · intro node hnode id hid parent hfind
      exact (hmem parent).mpr (((hmem node).mp hnode).parent hid hfind)
  · exact e.elim

/-! ## The trace -/

/-- The search that a trace is. -/
def resolve (ledger : DagLedger F) (id : String) : Except String (List String) :=
  match ledger.findById id with
  | some node => .ok node.parentIds
  | none => .error s!"Parent node {id} not found"

/-- Every parent of an ancestor of `startIds` is in the ledger. -/
def Complete (ledger : DagLedger F) (startIds : List String) : Prop :=
  ∀ node, ledger.Ancestor startIds node →
    ∀ id ∈ node.parentIds, (ledger.findById id).isSome

theorem resolve_eq_ok {id : String} {ks : List String} :
    ledger.resolve id = .ok ks ↔ ∃ node, ledger.findById id = some node ∧ node.parentIds = ks := by
  unfold resolve
  cases ledger.findById id <;> simp

theorem edge_resolve (a b : String) : Edge ledger.resolve a b ↔ ledger.ParentId a b := by
  simp only [Edge, resolve_eq_ok, ParentId]
  constructor
  · rintro ⟨_, ⟨node, hnode, rfl⟩, hb⟩
    exact ⟨node, hnode, hb⟩
  · rintro ⟨node, hnode, hb⟩
    exact ⟨_, ⟨node, hnode, rfl⟩, hb⟩

theorem spans_resolve (ledger : DagLedger F) : Spans ledger.resolve ledger.ids := by
  intro id ks hks hid
  obtain ⟨node, hfind, -⟩ := resolve_eq_ok.mp hks
  exact absurd (mem_ids_of_findById hfind) hid

section
variable [NodeDebug F]

/-- The lines of a trace. -/
def debugLines (nodes : List (DagNode F)) : String :=
  String.join (nodes.map fun node => NodeDebug.debug node ++ "\n")

/-- The trace that has come to the identifiers in `order`. -/
def traced (ledger : DagLedger F) (order : List String) : Trace where
  result := debugLines (order.filterMap ledger.findById)
  visited := order.toFinset

theorem mem_visited_traced {id : String} {order : List String} :
    id ∈ (ledger.traced order).visited ↔ id ∈ order := List.mem_toFinset

theorem traced_concat {node : DagNode F} (h : ledger.findById node.id = some node)
    (order : List String) :
    ledger.traced (order ++ [node.id]) =
      ⟨(ledger.traced order).result ++ (NodeDebug.debug node ++ "\n"),
        insert node.id (ledger.traced order).visited⟩ := by
  unfold traced
  congr 1
  · simp [h, debugLines]
  · ext x
    simp

theorem trace_parents {fuel : Nat}
    (h : ∀ node order r, ledger.findById node.id = some node →
      (∀ x ∈ order, (ledger.findById x).isSome) →
      visit ledger.resolve fuel node.id order = some r →
      ledger.traceRecursive fuel node (ledger.traced order) = some (r.map ledger.traced))
    (ids : List String) : ∀ order r, (∀ x ∈ order, (ledger.findById x).isSome) →
      visitAll ledger.resolve fuel ids order = some r →
      ids.foldlM (m := ExceptT String Option)
        (fun tr parentId =>
          match ledger.findById parentId with
          | some parentNode => ledger.traceRecursive fuel parentNode tr
          | none => throw s!"Parent node {parentId} not found")
        (ledger.traced order) = some (r.map ledger.traced) := by
  induction ids with
  | nil =>
    intro order r _ hall
    cases hall
    rfl
  | cons id ids ih =>
    intro order r hfound hall
    cases hfind : ledger.findById id with
    | none =>
      have hnew : id ∉ order := fun hid => by simpa [hfind] using hfound id hid
      have hmissing : ledger.resolve id = .error s!"Parent node {id} not found" := by
        rw [resolve, hfind]
      have hr : r = .error s!"Parent node {id} not found" := by
        cases fuel with
        | zero => rcases foldlM_cons_cases hall with ⟨_, hid, -⟩ | ⟨_, hid, -⟩ <;> cases hid
        | succ fuel =>
          rw [visitAll, foldlM_cons_of_error (visit_of_error hnew hmissing)] at hall
          exact (Option.some.inj hall).symm
      rw [hr]
      refine foldlM_cons_of_error ?_
      simp only [hfind]
      rfl
    | some parent =>
      have hid := id_of_findById hfind
      rcases foldlM_cons_cases hall with ⟨order₁, hvisit, hrest⟩ | ⟨e, hvisit, rfl⟩
      · have hstep := h parent order (.ok order₁) (hid ▸ hfind) hfound (hid ▸ hvisit)
        have hexplores := visit_explores fuel id order order₁ hvisit
        have hfound₁ : ∀ x ∈ order₁, (ledger.findById x).isSome := by
          intro x hx
          rcases hexplores.closed x hx with hx | ⟨ys, hys, -⟩
          · exact hfound x hx
          · obtain ⟨node, hnode, -⟩ := resolve_eq_ok.mp hys
            rw [hnode]
            rfl
        refine Eq.trans (foldlM_cons_of_ok ?_) (ih order₁ r hfound₁ hrest)
        simp only [hfind]
        exact hstep
      · refine foldlM_cons_of_error ?_
        simp only [hfind]
        exact h parent order (.error e) (hid ▸ hfind) hfound (hid ▸ hvisit)

/-- A trace does what the search does. -/
theorem traceRecursive_visit (fuel : Nat) :
    ∀ (node : DagNode F) (order : List String) (r : Except String (List String)),
      ledger.findById node.id = some node → (∀ x ∈ order, (ledger.findById x).isSome) →
      visit ledger.resolve fuel node.id order = some r →
      ledger.traceRecursive fuel node (ledger.traced order) = some (r.map ledger.traced) := by
  induction fuel with
  | zero => exact fun _ _ _ _ _ h => nomatch h
  | succ fuel ih =>
    intro node order r hnode hfound h
    by_cases hid : node.id ∈ order
    · rw [visit_of_mem hid] at h
      cases h
      rw [traceRecursive, if_pos (mem_visited_traced.mpr hid)]
      rfl
    · rw [visit_of_ok hid (resolve_eq_ok.mpr ⟨node, hnode, rfl⟩)] at h
      rw [traceRecursive, if_neg (mt mem_visited_traced.mp hid), ← traced_concat hnode]
      refine trace_parents ih node.parentIds _ r ?_ h
      intro x hx
      rcases List.mem_append.mp hx with hx | hx
      · exact hfound x hx
      · rw [List.mem_singleton.mp hx, hnode]
        rfl

/-- The trace of a node: its text lists the node, and then its other ancestors. -/
def Lists (ledger : DagLedger F) (node : DagNode F) (text : String) : Prop :=
  ∃ rest, text = debugLines (node :: rest) ∧ ((node :: rest).map (·.id)).Nodup ∧
    ∀ other, other ∈ node :: rest ↔ ledger.Ancestor [node.id] other

theorem trace_cases {node : DagNode F} (h : ledger.findById node.id = some node) :
    (∃ text, (∀ fuel, ledger.nodes.length < fuel → ledger.trace fuel node = some (.ok text)) ∧
        ledger.Complete [node.id] ∧ ledger.Lists node text) ∨
      ∃ e, (∀ fuel, ledger.nodes.length < fuel → ledger.trace fuel node = some (.error e)) ∧
        ¬ ledger.Complete [node.id] := by
  have hsingle : ∀ {fuel : Nat} {r : Except String (List String)},
      visitAll ledger.resolve fuel [node.id] [] = some r →
      ledger.trace fuel node = some (r.map fun order => (ledger.traced order).result) := by
    intro fuel r hvisit
    rw [visitAll_singleton] at hvisit
    have htraced : ledger.traceRecursive fuel node ⟨"", ∅⟩ = some (r.map ledger.traced) :=
      traceRecursive_visit fuel node [] r h (List.forall_mem_nil _) hvisit
    show Option.bind (ledger.traceRecursive fuel node ⟨"", ∅⟩) _ = _
    rw [htraced]
    cases r <;> rfl
  rcases explore_cases ledger.spans_resolve [node.id] with
    ⟨order, hvisit, hexplores⟩ | ⟨e, x, hvisit, hreach, hx⟩
  · have hreached : ∀ id, id ∈ order ↔
        ∃ start ∈ [node.id], Relation.ReflTransGen ledger.ParentId start id :=
      fun id => hexplores.mem_iff.trans (reachedFrom_iff edge_resolve)
    refine .inl ⟨(ledger.traced order).result, fun fuel hfuel => ?_, ?_, ?_⟩
    · exact hsingle (hvisit fuel (ledger.card_ids_le.trans_lt hfuel))
    · rintro other ⟨start, hstart, id, hreach, hfind⟩ parentId hparent
      obtain ⟨ys, hys, hmem⟩ :=
        hexplores.next_ok ((hreached id).mpr ⟨start, hstart, hreach⟩)
      obtain ⟨_, hfind', rfl⟩ := resolve_eq_ok.mp hys
      rw [hfind] at hfind'
      cases hfind'
      obtain ⟨zs, hzs, -⟩ := hexplores.next_ok (hmem parentId hparent)
      obtain ⟨parent, hparent, -⟩ := resolve_eq_ok.mp hzs
      rw [hparent]
      rfl
    · have hfirst := hvisit (ledger.ids.card + 1) (Nat.lt_succ_self _)
      rw [visitAll_singleton] at hfirst
      obtain ⟨rest, rfl⟩ := visit_head List.not_mem_nil hfirst
      have hnodes : ([] ++ [node.id] ++ rest).filterMap ledger.findById =
          node :: rest.filterMap ledger.findById := by simp [h]
      refine ⟨rest.filterMap ledger.findById, ?_, ?_, ?_⟩
      · rw [← hnodes]
        rfl
      · rw [← hnodes]
        exact nodup_found (hexplores.nodup List.nodup_nil)
      · rw [← hnodes]
        exact mem_found_iff hreached
  · refine .inr ⟨e, fun fuel hfuel => ?_, fun hcomplete => ?_⟩
    · exact hsingle (hvisit fuel (ledger.card_ids_le.trans_lt hfuel))
    · have hmissing : ledger.findById x = none := by
        cases hfind : ledger.findById x with
        | none => rfl
        | some other =>
          rw [resolve_eq_ok.mpr ⟨other, hfind, rfl⟩] at hx
          cases hx
      obtain ⟨start, hstart, hreach⟩ := (reachedFrom_iff edge_resolve).mp hreach
      rcases Relation.ReflTransGen.cases_tail hreach with rfl | ⟨a, ha, other, hfind, hparent⟩
      · rw [List.mem_singleton.mp hstart, h] at hmissing
        cases hmissing
      · have hsome := hcomplete other ⟨start, hstart, a, ha, hfind⟩ x hparent
        rw [hmissing] at hsome
        cases hsome

/-- The traces of some nodes, one after the other. -/
theorem traceNodes_cases (nodes : List (DagNode F))
    (h : ∀ node ∈ nodes, ledger.findById node.id = some node) : ∀ result : String,
      (∃ text, (∀ fuel, ledger.nodes.length < fuel →
          nodes.foldlM (m := ExceptT String Option)
            (fun result node => do return result ++ ((← ledger.trace fuel node) ++ "\n")) result =
              some (.ok text)) ∧
        ∀ node ∈ nodes, ledger.Complete [node.id]) ∨
      ∃ e, (∀ fuel, ledger.nodes.length < fuel →
          nodes.foldlM (m := ExceptT String Option)
            (fun result node => do return result ++ ((← ledger.trace fuel node) ++ "\n")) result =
              some (.error e)) ∧
        ∃ node ∈ nodes, ¬ ledger.Complete [node.id] := by
  induction nodes with
  | nil => exact fun result => .inl ⟨result, fun _ _ => rfl, List.forall_mem_nil _⟩
  | cons node nodes ih =>
    intro result
    have ih := ih fun other hother => h other (List.mem_cons_of_mem node hother)
    rcases trace_cases (h node List.mem_cons_self) with
      ⟨text, htrace, hcomplete, -⟩ | ⟨e, htrace, hcomplete⟩
    · rcases ih (result ++ (text ++ "\n")) with ⟨all, hall, hrest⟩ | ⟨e, hall, other, hother, hrest⟩
      · refine .inl ⟨all, fun fuel hfuel => ?_, ?_⟩
        · refine Eq.trans (foldlM_cons_of_ok ?_) (hall fuel hfuel)
          rw [htrace fuel hfuel]
          rfl
        · exact List.forall_mem_cons.mpr ⟨hcomplete, hrest⟩
      · refine .inr ⟨e, fun fuel hfuel => ?_, other, List.mem_cons_of_mem node hother, hrest⟩
        refine Eq.trans (foldlM_cons_of_ok ?_) (hall fuel hfuel)
        rw [htrace fuel hfuel]
        rfl
    · refine .inr ⟨e, fun fuel hfuel => foldlM_cons_of_error ?_, node, List.mem_cons_self, hcomplete⟩
      rw [htrace fuel hfuel]
      rfl

omit [NodeDebug F] in
theorem complete_all_iff (h : ∀ node ∈ ledger.nodes, ledger.findById node.id = some node) :
    (∀ node ∈ ledger.nodes, ledger.Complete [node.id]) ↔
      ∀ node ∈ ledger.nodes, ∀ id ∈ node.parentIds, (ledger.findById id).isSome := by
  constructor
  · intro hall node hnode id hid
    exact hall node hnode node
      ⟨node.id, List.mem_singleton_self _, node.id, .refl, h node hnode⟩ id hid
  · rintro hall - - node ⟨-, -, id, -, hfind⟩
    exact hall node (mem_of_findById hfind)

theorem trace_validates (ledger : DagLedger F) :
    (∀ node, ledger.findById node.id = some node →
      ∃ r, (∀ fuel, ledger.nodes.length < fuel → ledger.trace fuel node = some r) ∧
        ((∃ text, r = .ok text) ↔ ledger.Complete [node.id]) ∧
        ∀ text, r = .ok text → ledger.Lists node text) ∧
    ((ledger.nodes.map (·.id)).Nodup →
      ∃ r, (∀ fuel, ledger.nodes.length < fuel → ledger.traceAll fuel = some r) ∧
        ((∃ text, r = .ok text) ↔
          ∀ node ∈ ledger.nodes, ∀ id ∈ node.parentIds, (ledger.findById id).isSome)) := by
  constructor
  · intro node hnode
    rcases trace_cases hnode with ⟨text, htrace, hcomplete, hlists⟩ | ⟨e, htrace, hcomplete⟩
    · refine ⟨.ok text, htrace, iff_of_true ⟨text, rfl⟩ hcomplete, ?_⟩
      intro other heq
      cases heq
      exact hlists
    · exact ⟨.error e, htrace, iff_of_false nofun hcomplete, nofun⟩
  · intro hnodup
    have hfinds : ∀ node ∈ ledger.nodes, ledger.findById node.id = some node :=
      fun node hnode => Maps.find_of_nodup hnodup hnode
    rw [← complete_all_iff hfinds]
    rcases traceNodes_cases ledger.nodes hfinds "" with
      ⟨text, htrace, hcomplete⟩ | ⟨e, htrace, node, hnode, hcomplete⟩
    · exact ⟨.ok text, htrace, iff_of_true ⟨text, rfl⟩ hcomplete⟩
    · exact ⟨.error e, htrace, iff_of_false nofun fun hall => hcomplete (hall node hnode)⟩

end

def quoted (text : String) : String := "\"" ++ text ++ "\""

/-- The texts of nodes about proposals, without anything to escape. -/
abbrev proposalDebug : NodeDebug Binary64 where
  debug node :=
    let data :=
      match node.data with
      | .proposalCreated proposalId title =>
        "ProposalCreated \x7b proposal_id: " ++ quoted proposalId ++ ", title: " ++ quoted title ++
          " \x7d"
      | .proposalExecuted proposalId success =>
        "ProposalExecuted \x7b proposal_id: " ++ quoted proposalId ++ ", success: " ++
          toString success ++ " \x7d"
      | _ => ""
    "DagNode \x7b id: " ++ quoted node.id ++ ", parent_ids: [" ++
      ", ".intercalate (node.parentIds.map quoted) ++ "], timestamp: " ++
      toString node.timestamp ++ ", namespace: " ++ quoted node.ns ++ ", data: " ++ data ++ " \x7d"

def first : DagNode Binary64 := ⟨"0aa1", ["0bb2"], 1, "default", .proposalCreated "roof" "Roof"⟩

/-- Two nodes that are each other's parents. -/
def cyclic : DagLedger Binary64 :=
  ⟨[first, ⟨"0bb2", ["0aa1"], 2, "default", .proposalExecuted "roof" true⟩], none⟩

theorem trace_validates_cyclic : ∃ _ : NodeDebug Binary64,
    (∃ r, (∀ fuel, 2 < fuel → cyclic.trace fuel first = some r) ∧
      ((∃ text, r = .ok text) ↔ cyclic.Complete [first.id]) ∧
      ∀ text, r = .ok text → cyclic.Lists first text) ∧
    ∃ r, (∀ fuel, 2 < fuel → cyclic.traceAll fuel = some r) ∧
      ((∃ text, r = .ok text) ↔
        ∀ node ∈ cyclic.nodes, ∀ id ∈ node.parentIds, (cyclic.findById id).isSome) :=
  letI : NodeDebug Binary64 := proposalDebug
  ⟨proposalDebug, (trace_validates cyclic).1 first rfl, (trace_validates cyclic).2 (by decide)⟩

end DagLedger

end Covm
