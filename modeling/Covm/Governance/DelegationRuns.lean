import Covm.Governance.Delegation

/-!
# Sessions with delegations

Whatever programs a VM executes, the stored delegations form no cycle. They are all the delegations
that were made and not revoked as long as each operation finds the variable that marks them; one
that does not find it starts anew, and what was stored is lost.
-/

namespace Covm

open Maps Partial Comp

namespace Governance

open Pointers

/-! ### No cycles -/

/-- Delegations the handler can have made. -/
structure Fit (delegations : HashMap String) : Prop where
  acyclic : Acyclic delegations
  named : Named delegations

theorem fit_empty : Fit ∅ where
  acyclic := acyclic_empty
  named a b h := by simp [Points] at h

theorem refused_iff {delegations : HashMap String} (h : Fit delegations) {source target : String}
    (hsource : source ≠ "") :
    Refused delegations source target ↔ target ≠ "" ∧ Leads delegations target source := by
  refine and_congr_right fun _ => ?_
  refine reachesVisited_iff h.named h.acyclic hsource ?_ (Finset.mem_singleton_self source) ?_
  · exact Nat.add_le_add_right (Finset.card_le_card Finset.sdiff_subset) 2
  · exact fun a ha => .inl (Finset.mem_singleton.mp ha)

/-- A delegation is refused exactly if it closes a cycle. -/
theorem refused_iff_not_acyclic {delegations : HashMap String} (h : Fit delegations)
    {source target : String} (hsource : source ≠ "") (htarget : target ≠ "") :
    Refused delegations source target ↔ ¬ Acyclic (delegations.insert source target) := by
  rw [refused_iff h hsource, acyclic_insert_iff h.acyclic, not_not]
  exact and_iff_right htarget

theorem Fit.changed {delegations : HashMap String} (h : Fit delegations) {source target : String}
    (hsource : source ≠ "") (hpass : ¬ Refused delegations source target) :
    Fit (changed delegations source target) := by
  unfold Governance.changed
  split_ifs with htarget
  · refine ⟨h.acyclic.erase source, fun a b hpoints => ?_⟩
    exact h.named a b (points_erase.mp hpoints).2
  · constructor
    · rw [refused_iff_not_acyclic h hsource htarget, not_not] at hpass
      exact hpass
    · intro a b hpoints
      rw [points_insert] at hpoints
      split_ifs at hpoints with ha
      · exact ⟨ha ▸ hsource, hpoints ▸ htarget⟩
      · exact h.named a b hpoints

section
variable {F S : Type} [SerdeJson]

theorem storedDelegations_congr {m m' : VMMemory F} (h : m'.stringMetadata = m.stringMetadata) :
    storedDelegations m' = storedDelegations m := by
  rw [storedDelegations, storedDelegations, VMMemory.getStringMetadata, VMMemory.getStringMetadata,
    h]

theorem fit_loadDelegations {m : VMMemory F} (h : Fit (storedDelegations m)) :
    Fit (loadDelegations m) := by
  by_cases hmarked : Marked m
  · rw [loadDelegations_of_marked hmarked]
    exact h
  · rw [loadDelegations_of_not_marked hmarked]
    exact fit_empty

variable [Number F]

theorem storedDelegations_store (hjson : SerdeJson.Lossless) (delegations : HashMap String)
    (m : VMMemory F) : storedDelegations (storeDelegations delegations m) = delegations := by
  have htext : (storeDelegations delegations m).getStringMetadata delegationsKey =
      some (SerdeJson.toText delegations) := by
    rw [VMMemory.getStringMetadata, storeDelegations, stringMetadata_store]
    exact Finmap.lookup_insert _
  rw [storedDelegations, htext]
  simp [hjson delegations]

variable [StorageBackend S]

theorem fit_of_session (hjson : SerdeJson.Lossless) {P : Config F S → Prop} {vm : VM F S}
    (hstart : storedDelegations vm.memory.1 = ∅) {history : List (Op F)} {c : Config F S}
    (h : Session P vm history c) : Fit (storedDelegations c.vm.memory.1) := by
  refine h.invariant (I := fun _ vm => Fit (storedDelegations vm.memory.1)) ?_ ?_ ?_
  · rw [hstart]
    exact fit_empty
  · intro _ c c' _ hstep hfit
    rcases step_delegations hstep with ⟨source, target, -, hsource, hpass, hmemory⟩ | ⟨-, hnoted⟩
    · rw [hmemory, storedDelegations_store hjson]
      exact (fit_loadDelegations hfit).changed hsource hpass
    · rw [storedDelegations_congr hnoted]
      exact hfit
  · intro _ c c' e hfault hfit
    rw [storedDelegations_congr (fault_noted hfault)]
    exact hfit

/-- Wherever a session is, the stored delegations have no cycle, the check ends, and a delegation
would be refused exactly if it closed a cycle. -/
theorem delegations_acyclic (hjson : SerdeJson.Lossless) {vm : VM F S}
    (hstart : storedDelegations vm.memory.1 = ∅) {history : List (Op F)} {c : Config F S}
    (h : Session (fun _ => True) vm history c) :
    Acyclic (storedDelegations c.vm.memory.1) ∧
    (∀ a, (storedDelegations c.vm.memory.1).lookup a ≠ some a) ∧
    (∀ delegations source target,
      cycleLoop delegations (delegations.keys.card + 2) {source} target =
        some (reachesVisited delegations (delegations.keys.card + 2) {source} target)) ∧
    ∀ source target, source ≠ "" → target ≠ "" →
      (¬ Acyclic ((loadDelegations c.vm.memory.1).insert source target) →
        handleLiquidDelegate source target c.vm = VM.raise (.governanceError
          s!"Delegation from {source} to {target} would create a cycle") c.vm) ∧
      (Acyclic ((loadDelegations c.vm.memory.1).insert source target) →
        ∃ vm', handleLiquidDelegate source target c.vm = .ok () vm') := by
  have hfit := fit_of_session hjson hstart h
  refine ⟨hfit.acyclic, fun a ha => hfit.acyclic a (.single ha), cycleLoop_eq, ?_⟩
  intro source target hsource htarget
  have hrefused := refused_iff_not_acyclic (fit_loadDelegations hfit) hsource htarget
  rcases handleLiquidDelegate_cases source target c.vm with
    ⟨hempty, -⟩ | ⟨-, hcycle, herror⟩ | ⟨-, hpass, vm', hok, -⟩
  · exact absurd hempty hsource
  · exact ⟨fun _ => herror, fun hacyclic => absurd hacyclic (hrefused.mp hcycle)⟩
  · exact ⟨fun hcycle => absurd (hrefused.mpr hcycle) hpass, fun _ => ⟨vm', hok⟩⟩

end

theorem not_leads_of_lookup {delegations : HashMap String} {a b : String}
    (h : delegations.lookup a = none) (hne : a ≠ b) : ¬ Pointers.Leads delegations a b := by
  intro hleads
  rcases hleads.cases_head with rfl | ⟨c, hac, -⟩
  · exact hne rfl
  · cases h.symm.trans hac

/-- Alice delegates to bob. After that bob cannot delegate to alice, but to carol he can. -/
theorem delegations_acyclic_alice :
    ∃ history c, Session (fun _ => True) (VM.stackVm []) history c ∧
      loadDelegations c.vm.memory.1 = Finmap.insert "alice" "bob" ∅ ∧
      (∃ message, handleLiquidDelegate "bob" "alice" c.vm =
        VM.raise (.governanceError message) c.vm) ∧
      ∃ vm', handleLiquidDelegate "bob" "carol" c.vm = .ok () vm' := by
  have hstart : Session (fun _ => True) (VM.stackVm [])
      [] ⟨[.seq [.liquidDelegate "alice" "bob"]], VM.stackVm []⟩ := .start _
  obtain ⟨c, hstep⟩ : ∃ c, machine.Step
      ⟨[.exec (.liquidDelegate "alice" "bob") []], VM.stackVm []⟩ c := ⟨_, rfl, rfl⟩
  have hmade := (hstart.step trivial ⟨rfl, rfl⟩).step trivial hstep
  have hloaded : loadDelegations c.vm.memory.1 = Finmap.insert "alice" "bob" ∅ := by
    have hmarked : Marked c.vm.memory.1 := by
      cases hstep.2
      exact ⟨_, rfl⟩
    rw [loadDelegations_of_marked hmarked]
    rcases step_delegations hstep with ⟨source, target, hop, -, -, hmemory⟩ | ⟨hop, -⟩
    · cases hop
      rw [hmemory, storedDelegations_store lossless_json]
      rfl
    · exact absurd rfl (hop "alice" "bob")
  obtain ⟨-, -, -, hrefused⟩ := delegations_acyclic lossless_json rfl hmade
  rw [hloaded] at hrefused
  refine ⟨_, c, hmade, hloaded, ⟨_, (hrefused "bob" "alice" (by decide) (by decide)).1 ?_⟩,
    (hrefused "bob" "carol" (by decide) (by decide)).2 ?_⟩
  · intro hacyclic
    exact hacyclic "alice" (.tail (.single (b := "bob") rfl) rfl)
  · rw [Pointers.acyclic_insert_iff ((Pointers.acyclic_insert_iff Pointers.acyclic_empty).mpr
      (not_leads_of_lookup rfl (by decide)))]
    exact not_leads_of_lookup rfl (by decide)

/-! ### What is not lost -/

section
variable {F S : Type}

/-- A variable of the innermost call, or a global one. -/
def Visible (m : VMMemory F) (name : String) : Prop :=
  (∃ frame, m.callFrames.getLast? = some frame ∧ (name ∈ frame.memory ∨ name ∈ frame.params)) ∨
    name ∈ m.memory

theorem marked_iff {m : VMMemory F} (hm : m.Framed) : Marked m ↔ Visible m delegationsKey := by
  unfold Marked Visible
  simp only [← Finmap.lookup_isSome]
  rcases List.eq_nil_or_concat m.callFrames with hf | ⟨fs, frame, hf⟩
  · rw [VMMemory.load_of_nil hm hf, hf]
    cases m.memory.lookup delegationsKey <;> simp
  · rw [List.concat_eq_append] at hf
    rw [VMMemory.load_of_frame hm hf, hf, List.getLast?_concat]
    simp only [Option.some.injEq, exists_eq_left']
    cases frame.memory.lookup delegationsKey <;> cases frame.params.lookup delegationsKey <;>
      cases m.memory.lookup delegationsKey <;> simp

/-- The delegations made and not revoked. -/
def note (delegations : HashMap String) : Op F → HashMap String
  | .liquidDelegate source target => changed delegations source target
  | _ => delegations

def made (history : List (Op F)) : HashMap String := history.foldl note ∅

theorem note_of_ne {delegations : HashMap String} {op : Op F}
    (h : ∀ source target, op ≠ .liquidDelegate source target) :
    note delegations op = delegations := by
  unfold note
  split
  · exact absurd rfl (h _ _)
  · rfl

variable [SerdeJson]

/-- A delegation about to be made or revoked finds the variable, unless nothing is stored. -/
def Finds (c : Config F S) : Prop :=
  ∀ source target, c.executing = [.liquidDelegate source target] →
    Visible c.vm.memory.1 delegationsKey ∨ storedDelegations c.vm.memory.1 = ∅

theorem finds_of_idle {c : Config F S} (h : c.executing = []) : Finds c := by
  intro source target hop
  rw [h] at hop
  simp at hop

theorem loadDelegations_eq {m : VMMemory F} (hm : m.Framed)
    (h : Visible m delegationsKey ∨ storedDelegations m = ∅) :
    loadDelegations m = storedDelegations m := by
  by_cases hmarked : Marked m
  · exact loadDelegations_of_marked hmarked
  · rw [loadDelegations_of_not_marked hmarked]
    rcases h with hvisible | hnone
    · exact absurd ((marked_iff hm).mpr hvisible) hmarked
    · exact hnone.symm

variable [Number F] [StorageBackend S]

theorem stored_eq_made (hjson : SerdeJson.Lossless) {vm : VM F S}
    (hstart : storedDelegations vm.memory.1 = ∅) {history : List (Op F)} {c : Config F S}
    (h : Session Finds vm history c) : storedDelegations c.vm.memory.1 = made history := by
  refine h.invariant (I := fun history vm => storedDelegations vm.memory.1 = made history)
    hstart ?_ ?_
  · intro history c c' hfinds hstep hstored
    rcases step_delegations hstep with ⟨source, target, hop, -, -, hmemory⟩ | ⟨hop, hnoted⟩
    · rw [hmemory, storedDelegations_store hjson,
        loadDelegations_eq c.vm.memory.2 (hfinds source target hop), hstored, hop, made, made,
        List.foldl_append]
      rfl
    · rw [storedDelegations_congr hnoted, hstored, made, made, List.foldl_append]
      unfold Config.executing at hop ⊢
      split
      · next op ops rest hframes =>
        simp only [hframes] at hop
        exact (note_of_ne fun source target heq => hop source target (by rw [heq])).symm
      · rfl
  · intro history c c' e hfault hstored
    rw [storedDelegations_congr (fault_noted hfault)]
    exact hstored

/-- In a session whose delegations each found the variable, the next one starts from all that were
made iff it finds the variable, too. -/
theorem delegations_persist_iff (hjson : SerdeJson.Lossless) {vm : VM F S}
    (hstart : storedDelegations vm.memory.1 = ∅) {history : List (Op F)} {c : Config F S}
    (h : Session Finds vm history c) :
    (∀ source target, (made history).lookup source = some target →
      (loadDelegations c.vm.memory.1).lookup source = some target) ↔
    Visible c.vm.memory.1 delegationsKey ∨ made history = ∅ := by
  have hstored := stored_eq_made hjson hstart h
  rw [← hstored]
  constructor
  · intro hkept
    by_cases hmarked : Marked c.vm.memory.1
    · exact .inl ((marked_iff c.vm.memory.2).mp hmarked)
    · right
      apply Finmap.ext_lookup
      intro source
      cases hsource : (storedDelegations c.vm.memory.1).lookup source with
      | none => rfl
      | some target =>
        have hloaded := hkept source target hsource
        rw [loadDelegations_of_not_marked hmarked] at hloaded
        exact absurd hloaded (by simp)
  · intro hfinds source target hsource
    rw [loadDelegations_eq c.vm.memory.2 hfinds]
    exact hsource

end

section
open VM

theorem delegations_persist_next_program :
    ∃ history c, Session Finds (stackVm []) history c ∧
      c.executing = [.liquidDelegate "bob" "carol"] ∧
      ∀ source target, (made history).lookup source = some target →
        (loadDelegations c.vm.memory.1).lookup source = some target := by
  have hstart : Session Finds (stackVm []) [] ⟨[.seq [.liquidDelegate "alice" "bob"]], stackVm []⟩ :=
    .start _
  have hfetched := hstart.step (finds_of_idle rfl) ⟨rfl, rfl⟩
  have hmade := hfetched.step (fun _ _ _ => .inr rfl) ⟨rfl, rfl⟩
  have hagain := hmade.next [.liquidDelegate "bob" "carol"] rfl
  have hnext := hagain.step (finds_of_idle rfl) ⟨rfl, rfl⟩
  refine ⟨_, _, hnext, rfl, ?_⟩
  exact (delegations_persist_iff lossless_json rfl hnext).mpr (.inl (.inr (by decide)))

/-- The first delegation is made in a function, the next one after its return. -/
def forgetful : List (Op Binary64) :=
  [.defOp "delegate" [] [.liquidDelegate "alice" "bob"], .call "delegate",
    .liquidDelegate "carol" "dave"]

theorem delegation_lost : ∃ history c, Session (fun _ => True) (stackVm []) history c ∧
    c.executing = [.liquidDelegate "carol" "dave"] ∧
    (made history).lookup "alice" = some "bob" ∧
    (loadDelegations c.vm.memory.1).lookup "alice" = none := by
  have hstart : Session (fun _ => True) (stackVm []) [] ⟨[.seq forgetful], stackVm []⟩ :=
    .start forgetful
  obtain ⟨y, hy⟩ : ∃ y, Config.walk 10 ([], ⟨[.seq forgetful], stackVm []⟩) = some y := ⟨_, rfl⟩
  refine ⟨_, _, Session.walk (fun _ => trivial) hy hstart, ?_, ?_, ?_⟩
  · cases hy
    rfl
  · cases hy
    rfl
  · cases hy
    rfl

end

end Governance

end Covm
