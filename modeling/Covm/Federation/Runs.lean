import Covm.Federation.Storage
import Covm.Partial.Runs

/-!
# Several instances over one backend

Instances of the federation storage share a backend and have a cache each; an instance that is
created during a run is one that was not called before. Beside the two backends of the source, which
refuse whoever is anonymous, there is one that refuses nobody.
-/

namespace Covm

open Partial

structure FederationWorld (F S : Type) where
  backend : S
  caches : Nat → FederationCache F

/-- Calls on the instances, by number; a vote is saved at some time. -/
inductive FederationCall (F : Type) where
  | saveProposal (instance_ : Nat) (proposal : FederatedProposal)
  | saveVote (instance_ : Nat) (now : Int) (vote : FederatedVote F)
      (voterIdentity : Option Identity)

namespace FederationWorld

variable {F S α : Type}

/-- No instance has been called yet. -/
def start (backend : S) : FederationWorld F S := ⟨backend, fun _ => FederationStorage.new⟩

/-- What a call on an instance does. -/
def through (i : Nat) (x : FederationM F S α) : EStateM StorageFault (FederationWorld F S) α :=
  fun w =>
    match x (w.caches i, w.backend) with
    | .ok a (cache, s) => .ok a ⟨s, Function.update w.caches i cache⟩
    | .error e (cache, s) => .error e ⟨s, Function.update w.caches i cache⟩

theorem final_through (i : Nat) (x : FederationM F S α) (w : FederationWorld F S) :
    final (through i x w) =
      ⟨(final (x (w.caches i, w.backend))).2,
        Function.update w.caches i (final (x (w.caches i, w.backend))).1⟩ := by
  unfold through
  cases x (w.caches i, w.backend) <;> rfl

theorem through_eq_ok {i : Nat} {x : FederationM F S α} {w w' : FederationWorld F S} {a : α} :
    through i x w = .ok a w' ↔ ∃ cache s, x (w.caches i, w.backend) = .ok a (cache, s) ∧
      w' = ⟨s, Function.update w.caches i cache⟩ := by
  unfold through
  cases x (w.caches i, w.backend) with
  | ok b st =>
    obtain ⟨cache, s⟩ := st
    simp only [EStateM.Result.ok.injEq, Prod.mk.injEq]
    constructor
    · rintro ⟨rfl, rfl⟩
      exact ⟨cache, s, ⟨rfl, rfl, rfl⟩, rfl⟩
    · rintro ⟨_, _, ⟨rfl, rfl, rfl⟩, rfl⟩
      exact ⟨rfl, rfl⟩
  | error e st => simp

end FederationWorld

namespace FederationCall

variable {F S : Type} [FederationBackend S] [Serde FederatedProposal]
  [Serde (List (FederatedVote F))] [Serde Identity]

def perform : FederationCall F → EStateM StorageFault (FederationWorld F S) Unit
  | saveProposal i proposal => FederationWorld.through i (FederationStorage.saveProposal proposal)
  | saveVote i _ vote voterIdentity =>
    FederationWorld.through i (FederationStorage.saveVote vote voterIdentity)

def after (call : FederationCall F) (w : FederationWorld F S) : FederationWorld F S :=
  final (call.perform w)

end FederationCall

/-- A vote that was saved through an instance, the time, and the records it was checked against. -/
structure RecordedVote (F : Type) where
  through : Nat
  now : Int
  vote : FederatedVote F
  proposal : FederatedProposal
  identity : Identity

namespace FederationCall

variable {F S : Type} [FederationBackend S] [Serde FederatedProposal]
  [Serde (List (FederatedVote F))] [Serde Identity]

open FederationStorage

/-- The vote a call records, if it records one. -/
def recorded (w : FederationWorld F S) : FederationCall F → Option (RecordedVote F)
  | saveProposal _ _ => none
  | saveVote i now vote voterIdentity =>
    match perform (saveVote i now vote voterIdentity) w,
      admission vote voterIdentity (w.caches i, w.backend) with
    | .ok () _, .ok (proposal, identity) _ => some ⟨i, now, vote, proposal, identity⟩
    | _, _ => none

/-- All votes recorded in a run. -/
def allRecorded : List (FederationCall F) → FederationWorld F S → List (RecordedVote F)
  | [], _ => []
  | call :: calls, w => (call.recorded w).toList ++ allRecorded calls (call.after w)

end FederationCall

/-! ### A backend that refuses nobody -/

structure OpenBackend where
  values : String × String → Option ByteArray

namespace OpenBackend

def empty : OpenBackend := ⟨fun _ => none⟩

def get (_ : Option AuthContext) (ns key : String) : StorageM OpenBackend ByteArray := fun s =>
  match s.values (ns, key) with
  | some bytes => .ok bytes s
  | none => .error (.error (.notFound s!"{ns}:{key}")) s

def set (_ : Option AuthContext) (ns key : String) (value : ByteArray) :
    StorageM OpenBackend Unit := fun s =>
  .ok () ⟨Function.update s.values (ns, key) (some value)⟩

instance : FederationBackend OpenBackend where
  get := get
  set := set

end OpenBackend

end Covm
