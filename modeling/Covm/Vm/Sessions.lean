import Covm.Vm.Machine

/-!
# Sessions

A VM executes one program after another and keeps its memory, whether a program ends or fails. A
session is such a sequence of programs up to some point of execution, with the operations executed
so far; an operation that fails is not among them. The steps of a session may be restricted to
configurations that meet a condition.
-/

namespace Covm

open Partial

section
variable {F S : Type} [Number F] [StorageBackend S] [SerdeJson]

/-- The operation the next step executes, if it executes one. -/
def Config.executing (c : Config F S) : List (Op F) :=
  match c.frames with
  | .exec op _ :: _ => [op]
  | _ => []

/-- The operations executed so far and the point of execution, starting from `vm`. -/
inductive Session (P : Config F S → Prop) (vm : VM F S) : List (Op F) → Config F S → Prop
  | start (ops : List (Op F)) : Session P vm [] ⟨[.seq ops], vm⟩
  | step {history : List (Op F)} {c c' : Config F S} :
    Session P vm history c → P c → machine.Step c c' → Session P vm (history ++ c.executing) c'
  | next {history : List (Op F)} {c : Config F S} (ops : List (Op F)) :
    Session P vm history c → machine.running c = false → Session P vm history ⟨[.seq ops], c.vm⟩
  | recover {history : List (Op F)} {c c' : Config F S} {e : Fault F} (ops : List (Op F)) :
    Session P vm history c → machine.Faults c e c' → Session P vm history ⟨[.seq ops], c'.vm⟩

variable {P : Config F S → Prop} {vm : VM F S} {history : List (Op F)} {c : Config F S}

/-- What the steps and the faults keep holds all along a session. -/
theorem Session.invariant {I : List (Op F) → VM F S → Prop} (h : Session P vm history c)
    (hstart : I [] vm)
    (step : ∀ history c c', P c → machine.Step c c' → I history c.vm →
      I (history ++ c.executing) c'.vm)
    (fault : ∀ history c c' e, machine.Faults c e c' → I history c.vm → I history c'.vm) :
    I history c.vm := by
  induction h with
  | start ops => exact hstart
  | step _ hP hstep ih => exact step _ _ _ hP hstep ih
  | next ops _ _ ih => exact ih
  | @recover history c c' e ops _ hfault ih => exact fault history c c' e hfault ih

/-- A number of steps, with the operations executed in them; nothing if one of them is not taken. -/
def Config.walk : Nat → List (Op F) × Config F S → Option (List (Op F) × Config F S)
  | 0, x => some x
  | n + 1, (history, c) =>
    match machine.running c, machine.step c with
    | true, .ok () c' => walk n (history ++ c.executing, c')
    | _, _ => none

theorem Session.walk {P : Config F S → Prop} (hP : ∀ c, P c) {vm : VM F S} {n : Nat}
    {x y : List (Op F) × Config F S} (h : Config.walk n x = some y) (hx : Session P vm x.1 x.2) :
    Session P vm y.1 y.2 := by
  induction n generalizing x with
  | zero => exact Option.some.inj h ▸ hx
  | succ n ih =>
    obtain ⟨history, c⟩ := x
    rw [Config.walk] at h
    split at h
    · next c' hrunning hstep => exact ih h (.step hx (hP c) ⟨hrunning, hstep⟩)
    · simp at h

end

end Covm
