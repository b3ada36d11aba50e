import Covm.Maps.Pointers
import Covm.Partial.Runs
import Covm.Partial.Within
import Covm.Storage.Records

/-!
# The registry of namespaces (`storage/namespaces.rs`)

A namespace is registered once, under its path, below a namespace that is there already; afterwards
only its usage changes, between zero and the quota. What is registered therefore stays, and the
parents form a forest: a new namespace is nobody's parent yet (`acyclic_of_fresh`).
-/

namespace Covm

open Maps Partial Relation

structure NamespaceMetadata where
  path : String
  owner : String
  quotaBytes : Nat
  usedBytes : Nat
  parent : Option String
  attributes : HashMap String

structure NamespaceRegistry where
  namespaces : HashMap NamespaceMetadata

inductive RegistryFault where
  | error (details : String)
  | panic

abbrev RegistryM (α : Type) := EStateM RegistryFault NamespaceRegistry α

namespace NamespaceRegistry

def new : NamespaceRegistry := ⟨∅⟩

def registerNamespace (path owner : String) (quotaBytes : Nat) (parent : Option String) :
    RegistryM Unit := fun r =>
  if path ∈ r.namespaces then .error (.error s!"Namespace {path} already exists") r
  else
    match parent.filter (· ∉ r.namespaces) with
    | some missing => .error (.error s!"Parent namespace {missing} does not exist") r
    | none => .ok () ⟨r.namespaces.insert path ⟨path, owner, quotaBytes, 0, parent, ∅⟩⟩

/-- The change is an `i64`; the least one has no negation. -/
def updateResourceUsage (path : String) (bytesDelta : Int) : RegistryM Unit := fun r =>
  match r.namespaces.lookup path with
  | none => .error (.error s!"Namespace {path} does not exist") r
  | some metadata =>
    if 0 ≤ bytesDelta then
      let newUsage := saturatingAdd metadata.usedBytes bytesDelta.toNat
      if metadata.quotaBytes < newUsage then
        .error (.error (s!"Quota exceeded for namespace {path}: {newUsage} of " ++
          s!"{metadata.quotaBytes} bytes")) r
      else .ok () ⟨r.namespaces.insert path { metadata with usedBytes := newUsage }⟩
    else if bytesDelta = -2 ^ 63 then .error .panic r
    else .ok () ⟨r.namespaces.insert path
      { metadata with usedBytes := metadata.usedBytes - (-bytesDelta).toNat }⟩

/-- `a` was registered below `b`. -/
def ChildOf (r : NamespaceRegistry) (a b : String) : Prop :=
  ∃ metadata, r.namespaces.lookup a = some metadata ∧ metadata.parent = some b

structure WellFormed (r : NamespaceRegistry) : Prop where
  ownPath : ∀ path metadata, r.namespaces.lookup path = some metadata → metadata.path = path
  withinQuota : ∀ path metadata, r.namespaces.lookup path = some metadata →
    metadata.usedBytes ≤ metadata.quotaBytes
  parents : ∀ a b, r.ChildOf a b → b ∈ r.namespaces
  acyclic : ∀ a, ¬ TransGen r.ChildOf a a

/-- All but the usage of what was registered is kept. -/
def Extends (r r' : NamespaceRegistry) : Prop :=
  ∀ path metadata, r.namespaces.lookup path = some metadata →
    ∃ usedBytes, r'.namespaces.lookup path = some { metadata with usedBytes }

theorem Extends.refl (r : NamespaceRegistry) : Extends r r := fun _ _ h => ⟨_, h⟩

theorem Extends.trans {r r' r'' : NamespaceRegistry} (h : Extends r r') (h' : Extends r' r'') :
    Extends r r'' := by
  intro path metadata hlookup
  obtain ⟨used, hused⟩ := h path metadata hlookup
  obtain ⟨used', hused'⟩ := h' path _ hused
  exact ⟨used', hused'⟩

theorem wellFormed_new : new.WellFormed where
  ownPath path metadata h := by simp [new] at h
  withinQuota path metadata h := by simp [new] at h
  parents a b h := by simp [ChildOf, new] at h
  acyclic a h := by
    obtain ⟨b, hb, -⟩ := TransGen.head'_iff.mp h
    simp [ChildOf, new] at hb

/-! ### What a call does -/

theorem registerNamespace_cases (path owner : String) (quotaBytes : Nat) (parent : Option String)
    (r : NamespaceRegistry) :
    (∃ text, registerNamespace path owner quotaBytes parent r = .error (.error text) r) ∨
      path ∉ r.namespaces ∧ (∀ b, parent = some b → b ∈ r.namespaces) ∧
        registerNamespace path owner quotaBytes parent r =
          .ok () ⟨r.namespaces.insert path ⟨path, owner, quotaBytes, 0, parent, ∅⟩⟩ := by
  unfold registerNamespace
  split_ifs with hpath
  · exact .inl ⟨_, rfl⟩
  · cases hmissing : parent.filter (· ∉ r.namespaces) with
    | some missing => exact .inl ⟨_, rfl⟩
    | none =>
      refine .inr ⟨hpath, ?_, rfl⟩
      rintro b rfl
      by_contra hb
      simp [Option.filter, hb] at hmissing

theorem updateResourceUsage_cases (path : String) {bytesDelta : Int} (h : -2 ^ 63 < bytesDelta)
    (r : NamespaceRegistry) :
    (∃ text, updateResourceUsage path bytesDelta r = .error (.error text) r) ∨
      ∃ metadata usedBytes, r.namespaces.lookup path = some metadata ∧
        (metadata.usedBytes ≤ metadata.quotaBytes → usedBytes ≤ metadata.quotaBytes) ∧
        updateResourceUsage path bytesDelta r =
          .ok () ⟨r.namespaces.insert path { metadata with usedBytes }⟩ := by
  unfold updateResourceUsage
  cases hlookup : r.namespaces.lookup path with
  | none => exact .inl ⟨_, rfl⟩
  | some metadata =>
    dsimp only
    split_ifs with hsign hfull hmin
    · exact .inl ⟨_, rfl⟩
    · exact .inr ⟨metadata, _, rfl, fun _ => Nat.not_lt.mp hfull, rfl⟩
    · omega
    · exact .inr ⟨metadata, _, rfl, fun hused => by omega, rfl⟩

theorem childOf_insert {r : NamespaceRegistry} {path a b : String} {metadata : NamespaceMetadata} :
    ChildOf ⟨r.namespaces.insert path metadata⟩ a b ↔
      if a = path then metadata.parent = some b else r.ChildOf a b := by
  unfold ChildOf
  split_ifs with ha
  · rw [ha, Finmap.lookup_insert]
    simp
  · rw [Finmap.lookup_insert_of_ne _ ha]

theorem WellFormed.register {r : NamespaceRegistry} (h : r.WellFormed) {path owner : String}
    {quotaBytes : Nat} {parent : Option String} (hpath : path ∉ r.namespaces)
    (hparent : ∀ b, parent = some b → b ∈ r.namespaces) :
    WellFormed ⟨r.namespaces.insert path ⟨path, owner, quotaBytes, 0, parent, ∅⟩⟩ := by
  constructor
  · intro p metadata hlookup
    by_cases hp : p = path
    · rw [hp, Finmap.lookup_insert] at hlookup
      rw [← Option.some.inj hlookup, hp]
    · rw [Finmap.lookup_insert_of_ne _ hp] at hlookup
      exact h.ownPath p metadata hlookup
  · intro p metadata hlookup
    by_cases hp : p = path
    · rw [hp, Finmap.lookup_insert] at hlookup
      rw [← Option.some.inj hlookup]
      exact Nat.zero_le _
    · rw [Finmap.lookup_insert_of_ne _ hp] at hlookup
      exact h.withinQuota p metadata hlookup
  · intro a b hab
    rw [childOf_insert] at hab
    rw [Finmap.mem_insert]
    right
    split_ifs at hab with ha
    · exact hparent b hab
    · exact h.parents a b hab
  · refine acyclic_of_fresh (c := path) ?_ ?_ h.acyclic
    · intro a ha
      rw [childOf_insert] at ha
      split_ifs at ha with heq
      · exact hpath (hparent path ha)
      · exact hpath (h.parents a path ha)
    · intro a b hab ha
      rwa [childOf_insert, if_neg ha] at hab

theorem WellFormed.update {r : NamespaceRegistry} (h : r.WellFormed) {path : String}
    {metadata : NamespaceMetadata} {usedBytes : Nat}
    (hlookup : r.namespaces.lookup path = some metadata)
    (hused : metadata.usedBytes ≤ metadata.quotaBytes → usedBytes ≤ metadata.quotaBytes) :
    WellFormed ⟨r.namespaces.insert path { metadata with usedBytes }⟩ := by
  have hchild : ChildOf ⟨r.namespaces.insert path { metadata with usedBytes }⟩ = r.ChildOf := by
    funext a b
    rw [childOf_insert]
    split_ifs with ha
    · rw [ha]
      simp [ChildOf, hlookup]
    · rfl
  constructor
  · intro p m hm
    by_cases hp : p = path
    · rw [hp, Finmap.lookup_insert] at hm
      rw [← Option.some.inj hm, hp]
      exact h.ownPath path metadata hlookup
    · rw [Finmap.lookup_insert_of_ne _ hp] at hm
      exact h.ownPath p m hm
  · intro p m hm
    by_cases hp : p = path
    · rw [hp, Finmap.lookup_insert] at hm
      rw [← Option.some.inj hm]
      exact hused (h.withinQuota path metadata hlookup)
    · rw [Finmap.lookup_insert_of_ne _ hp] at hm
      exact h.withinQuota p m hm
  · intro a b hab
    rw [hchild] at hab
    exact Finmap.mem_insert.mpr (.inr (h.parents a b hab))
  · rw [hchild]
    exact h.acyclic

theorem extends_insert {r : NamespaceRegistry} {path : String} {metadata : NamespaceMetadata}
    (h : ∀ m, r.namespaces.lookup path = some m →
      metadata = { m with usedBytes := metadata.usedBytes }) :
    Extends r ⟨r.namespaces.insert path metadata⟩ := by
  intro p m hm
  by_cases hp : p = path
  · rw [hp] at hm ⊢
    exact ⟨metadata.usedBytes, by rw [Finmap.lookup_insert, ← h m hm]⟩
  · exact ⟨m.usedBytes, by rw [Finmap.lookup_insert_of_ne _ hp, hm]⟩

end NamespaceRegistry

/-! ### Runs -/

inductive RegistryCall where
  | registerNamespace (path owner : String) (quotaBytes : Nat) (parent : Option String)
  | updateResourceUsage (path : String) (bytesDelta : Int)

namespace RegistryCall

open NamespaceRegistry

def perform : RegistryCall → RegistryM Unit
  | registerNamespace path owner quotaBytes parent =>
    NamespaceRegistry.registerNamespace path owner quotaBytes parent
  | updateResourceUsage path bytesDelta => NamespaceRegistry.updateResourceUsage path bytesDelta

def after (call : RegistryCall) (r : NamespaceRegistry) : NamespaceRegistry :=
  final (call.perform r)

/-- The sizes are of type `u64`, the changes of type `i64` and not the least one. -/
def InRange : RegistryCall → Prop
  | registerNamespace _ _ quotaBytes _ => quotaBytes < 2 ^ 64
  | updateResourceUsage _ bytesDelta => -2 ^ 63 < bytesDelta ∧ bytesDelta < 2 ^ 63

/-- A call fails with a text and changes nothing, or it keeps what is registered. -/
theorem perform_cases {call : RegistryCall} (hcall : call.InRange) {r : NamespaceRegistry}
    (h : r.WellFormed) :
    (∃ text, call.perform r = .error (.error text) r) ∨
      ∃ r', call.perform r = .ok () r' ∧ r'.WellFormed ∧ Extends r r' := by
  cases call with
  | registerNamespace path owner quotaBytes parent =>
    obtain hfail | ⟨hpath, hparent, hok⟩ :=
      registerNamespace_cases path owner quotaBytes parent r
    · exact .inl hfail
    · refine .inr ⟨_, hok, h.register hpath hparent, extends_insert ?_⟩
      intro m hm
      exact absurd (Finmap.mem_of_lookup_eq_some hm) hpath
  | updateResourceUsage path bytesDelta =>
    obtain hfail | ⟨metadata, usedBytes, hlookup, hused, hok⟩ :=
      updateResourceUsage_cases path hcall.1 r
    · exact .inl hfail
    · refine .inr ⟨_, hok, h.update hlookup hused, extends_insert ?_⟩
      intro m hm
      rw [hlookup] at hm
      rw [← Option.some.inj hm]

theorem after_wellFormed {call : RegistryCall} (hcall : call.InRange) {r : NamespaceRegistry}
    (h : r.WellFormed) : (call.after r).WellFormed ∧ Extends r (call.after r) := by
  obtain ⟨text, hfail⟩ | ⟨r', hok, hwell, hext⟩ := perform_cases hcall h
  · rw [after, hfail, final_error]
    exact ⟨h, .refl r⟩
  · rw [after, hok, final_ok]
    exact ⟨hwell, hext⟩

end RegistryCall

namespace NamespaceRegistry

theorem run_extends {calls : List RegistryCall} (hcalls : ∀ call ∈ calls, call.InRange)
    {r : NamespaceRegistry} (h : r.WellFormed) :
    (runAll RegistryCall.after calls r).WellFormed ∧
      Extends r (runAll RegistryCall.after calls r) := by
  induction calls generalizing r with
  | nil => exact ⟨h, .refl r⟩
  | cons call calls ih =>
    obtain ⟨hwell, hext⟩ := RegistryCall.after_wellFormed (hcalls call List.mem_cons_self) h
    obtain ⟨hwell', hext'⟩ := ih (fun c hc => hcalls c (List.mem_cons_of_mem call hc)) hwell
    exact ⟨hwell', hext.trans hext'⟩

/-- A registry reached by any calls is well formed, has kept everything registered on the way, and
is not changed by a call that fails. -/
theorem wellFormed_of_run {calls : List RegistryCall} (hcalls : ∀ call ∈ calls, call.InRange) :
    (runAll RegistryCall.after calls new).WellFormed ∧
      (∀ calls', calls' <+: calls →
        Extends (runAll RegistryCall.after calls' new) (runAll RegistryCall.after calls new)) ∧
      ∀ call : RegistryCall, call.InRange → ∀ e r',
        call.perform (runAll RegistryCall.after calls new) = .error e r' →
          (∃ text, e = .error text) ∧ r' = runAll RegistryCall.after calls new := by
  have hwell := (run_extends hcalls wellFormed_new).1
  refine ⟨hwell, ?_, ?_⟩
  · rintro calls' ⟨rest, rfl⟩
    rw [runAll_append]
    have hstart := fun call hcall => hcalls call (List.mem_append_left rest hcall)
    have hrest := fun call hcall => hcalls call (List.mem_append_right calls' hcall)
    exact (run_extends hrest (run_extends hstart wellFormed_new).1).2
  · intro call hcall e r' herror
    obtain ⟨text, hfail⟩ | ⟨_, hok, -, -⟩ := RegistryCall.perform_cases hcall hwell
    · rw [hfail] at herror
      cases herror
      exact ⟨⟨text, rfl⟩, rfl⟩
    · rw [hok] at herror
      cases herror

/-- Two namespaces, one below the other, and its usage up and down. -/
def coopCalls : List RegistryCall :=
  [.registerNamespace "coop" "ada" 100 none, .registerNamespace "coop/votes" "bob" 10 (some "coop"),
    .updateResourceUsage "coop/votes" 8, .updateResourceUsage "coop/votes" 3,
    .updateResourceUsage "coop/votes" (-20)]

theorem wellFormed_of_run_coop :
    (∀ call ∈ coopCalls, call.InRange) ∧ (runAll RegistryCall.after coopCalls new).WellFormed ∧
      (runAll RegistryCall.after coopCalls new).ChildOf "coop/votes" "coop" := by
  have hcalls : ∀ call ∈ coopCalls, call.InRange := by
    simp [coopCalls, RegistryCall.InRange]
  refine ⟨hcalls, (wellFormed_of_run hcalls).1, ?_⟩
  exact ⟨⟨"coop/votes", "bob", 10, 0, some "coop", ∅⟩, by rfl, rfl⟩

end NamespaceRegistry

end Covm
