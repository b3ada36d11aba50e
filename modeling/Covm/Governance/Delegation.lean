import Covm.Governance.Json
import Covm.Maps.Pointers
import Covm.Vm.Calls
import Covm.Vm.Sessions

/-!
# Liquid delegation (`governance/liquid_delegate.rs`)

The delegations are pointers from delegators to delegates. They are kept as text in the metadata of
the memory, which has no scopes; that there are any is marked by a variable, which has. An operation
starts from the stored delegations where the variable can be loaded, and from none where it cannot.
-/

namespace Covm

open Maps Partial Comp

/-- `serde_json` reads back what it wrote. -/
def SerdeJson.Lossless [SerdeJson] : Prop := ∀ m, SerdeJson.fromStr (SerdeJson.toText m) = some m

theorem lossless_json : SerdeJson.Lossless := Json.read_write

namespace Governance

/-! ### The cycle check -/

/-- The loop of the check; it has ended when it has an answer. -/
def cycleLoop (delegations : HashMap String) : Nat → Finset String → String → Option Bool
  | 0, _, _ => none
  | rounds + 1, visited, current =>
    if current.isEmpty then some false
    else if current ∈ visited then some true
    else cycleLoop delegations rounds (insert current visited)
      ((delegations.lookup current).getD "")

theorem reachesVisited_of_cycleLoop {delegations : HashMap String} {rounds : Nat}
    {visited : Finset String} {current : String} {b : Bool}
    (h : cycleLoop delegations rounds visited current = some b) :
    reachesVisited delegations rounds visited current = b := by
  induction rounds generalizing visited current with
  | zero => cases h
  | succ rounds ih =>
    rw [cycleLoop] at h
    rw [reachesVisited]
    split_ifs at h ⊢
    · exact Option.some.inj h
    · exact Option.some.inj h
    · exact ih h

theorem card_sdiff_insert_lt {members visited : Finset String} {a : String} (h : a ∈ members)
    (hnew : a ∉ visited) : (members \ insert a visited).card < (members \ visited).card := by
  apply Finset.card_lt_card
  rw [Finset.sdiff_insert]
  exact Finset.erase_ssubset (Finset.mem_sdiff.mpr ⟨h, hnew⟩)

/-- Every round but the last two visits one more member that delegates. -/
theorem cycleLoop_ends (delegations : HashMap String) {rounds : Nat} {visited : Finset String}
    (current : String) (h : (delegations.keys \ visited).card + 2 ≤ rounds) :
    (cycleLoop delegations rounds visited current).isSome := by
  induction rounds generalizing visited current with
  | zero => omega
  | succ rounds ih =>
    rw [cycleLoop]
    split_ifs with hempty hvisited
    · rfl
    · rfl
    · by_cases hkey : current ∈ delegations.keys
      · apply ih
        have hlt := card_sdiff_insert_lt hkey hvisited
        omega
      · -- without a delegation the next round is the last one
        have hnone : delegations.lookup current = none :=
          Finmap.lookup_eq_none.mpr fun hmem => hkey (Finmap.mem_keys.mpr hmem)
        rw [hnone]
        obtain ⟨n, rfl⟩ : ∃ n, rounds = n + 1 := ⟨rounds - 1, by omega⟩
        simp [cycleLoop]

/-- The loop ends on every map, with the answer the handler computes. -/
theorem cycleLoop_eq (delegations : HashMap String) (source target : String) :
    cycleLoop delegations (delegations.keys.card + 2) {source} target =
      some (reachesVisited delegations (delegations.keys.card + 2) {source} target) := by
  have hrounds : (delegations.keys \ {source}).card + 2 ≤ delegations.keys.card + 2 :=
    Nat.add_le_add_right (Finset.card_le_card Finset.sdiff_subset) 2
  obtain ⟨b, hb⟩ := Option.isSome_iff_exists.mp (cycleLoop_ends delegations target hrounds)
  rw [hb, reachesVisited_of_cycleLoop hb]

open Pointers

/-- No name is empty. -/
def Named (delegations : HashMap String) : Prop :=
  ∀ a b, Points delegations a b → a ≠ "" ∧ b ≠ ""

theorem Named.eq_of_leads {delegations : HashMap String} (h : Named delegations) {b : String}
    (hleads : Leads delegations "" b) : b = "" := by
  rcases Relation.ReflTransGen.cases_head hleads with heq | ⟨c, hpoints, -⟩
  · exact heq.symm
  · exact absurd rfl (h _ _ hpoints).1

/-- Along delegations without a cycle the check finds exactly the members that lead to the
delegator. -/
theorem reachesVisited_iff {delegations : HashMap String} (hnamed : Named delegations)
    (hacyclic : Acyclic delegations) {source : String} (hsource : source ≠ "") {rounds : Nat}
    {visited : Finset String} {current : String}
    (hrounds : (delegations.keys \ visited).card + 2 ≤ rounds) (hmem : source ∈ visited)
    (hvisited : ∀ a ∈ visited, a = source ∨ Relation.TransGen (Points delegations) a current) :
    reachesVisited delegations rounds visited current = true ↔ Leads delegations current source := by
  induction rounds generalizing visited current with
  | zero => omega
  | succ rounds ih =>
    have hhead : current ∉ visited → ∀ {next}, delegations.lookup current = next →
        (Leads delegations current source ↔ ∃ b, next = some b ∧ Leads delegations b source) := by
      rintro hnew next rfl
      constructor
      · intro hleads
        rcases Relation.ReflTransGen.cases_head hleads with rfl | ⟨b, hpoints, hrest⟩
        · exact absurd hmem hnew
        · exact ⟨b, hpoints, hrest⟩
      · rintro ⟨b, hpoints, hrest⟩
        exact .head hpoints hrest
    rw [reachesVisited]
    split_ifs with hempty hold
    · obtain rfl := String.isEmpty_iff.mp hempty
      simp only [false_iff]
      exact fun hleads => hsource (hnamed.eq_of_leads hleads)
    · simp only [true_iff]
      rcases hvisited current hold with rfl | hcycle
      · exact .refl
      · exact absurd hcycle (hacyclic current)
    · cases hnext : delegations.lookup current with
      | none =>
        obtain ⟨n, rfl⟩ : ∃ n, rounds = n + 1 := ⟨rounds - 1, by omega⟩
        simp [hhead hold hnext, reachesVisited]
      | some next =>
        have hkey : current ∈ delegations.keys :=
          Finmap.mem_keys.mpr (Finmap.mem_of_lookup_eq_some hnext)
        have hlt := card_sdiff_insert_lt hkey hold
        rw [Option.getD_some, hhead hold hnext, ih (by omega) (Finset.mem_insert_of_mem hmem)]
        · simp
        · intro a ha
          rcases Finset.mem_insert.mp ha with rfl | ha
          · exact .inr (.single hnext)
          · exact (hvisited a ha).imp_right fun hway => hway.tail hnext

/-! ### The operation -/

section
variable {F S : Type} [Number F] [SerdeJson]

/-- The delegations after one of them was made or revoked. -/
def changed (delegations : HashMap String) (source target : String) : HashMap String :=
  if target = "" then delegations.erase source else delegations.insert source target

/-- The delegation would lead back to the delegator. -/
def Refused (delegations : HashMap String) (source target : String) : Prop :=
  target ≠ "" ∧ reachesVisited delegations (delegations.keys.card + 2) {source} target = true

def storedDelegations (m : VMMemory F) : HashMap String :=
  match m.getStringMetadata delegationsKey with
  | some metadata => (SerdeJson.fromStr metadata).getD ∅
  | none => ∅

/-- The variable that marks delegations can be loaded. -/
def Marked (m : VMMemory F) : Prop := ∃ v, m.load delegationsKey = .ok v

omit [Number F] in
theorem loadDelegations_of_marked {m : VMMemory F} (h : Marked m) :
    loadDelegations m = storedDelegations m := by
  obtain ⟨v, hv⟩ := h
  rw [loadDelegations, hv]
  rfl

omit [Number F] in
theorem loadDelegations_of_not_marked {m : VMMemory F} (h : ¬ Marked m) : loadDelegations m = ∅ := by
  unfold loadDelegations
  split
  · next v hv => exact absurd ⟨v, hv⟩ h
  · rfl

/-- The memory after the delegations were stored. -/
def storeDelegations (delegations : HashMap String) (m : VMMemory F) : VMMemory F :=
  (m.setStringMetadata delegationsKey (SerdeJson.toText delegations)).store delegationsKey
    (.number (Number.ofNat delegations.keys.card))

omit [Number F] [SerdeJson] in
theorem updateDelegations_refused {delegations : HashMap String} {source target : String}
    (h : Refused delegations source target) (vm : VM F S) :
    updateDelegations delegations source target vm =
      VM.raise (.governanceError
        s!"Delegation from {source} to {target} would create a cycle") vm := by
  have htarget : ¬ target.isEmpty = true := fun hempty => h.1 (String.isEmpty_iff.mp hempty)
  rw [updateDelegations, if_neg htarget, h.2]
  rfl

omit [Number F] [SerdeJson] in
theorem updateDelegations_ok {delegations : HashMap String} {source target : String}
    (h : ¬ Refused delegations source target) (vm : VM F S) :
    ∃ vm', updateDelegations delegations source target vm =
        .ok (changed delegations source target) vm' ∧ vm'.memory = vm.memory := by
  by_cases htarget : target = ""
  · have hempty : target.isEmpty = true := String.isEmpty_iff.mpr htarget
    rw [updateDelegations, if_pos hempty, changed, if_pos htarget]
    cases hsource : delegations.lookup source with
    | none =>
      have herase : delegations.erase source = delegations := by
        apply Finmap.ext_lookup
        intro a
        by_cases ha : a = source
        · rw [ha, Finmap.lookup_erase, hsource]
        · rw [Finmap.lookup_erase_ne ha]
      rw [herase]
      exact ⟨_, rfl, rfl⟩
    | some b => exact ⟨_, rfl, rfl⟩
  · have hempty : ¬ target.isEmpty = true := fun h => htarget (String.isEmpty_iff.mp h)
    have hpass : reachesVisited delegations (delegations.keys.card + 2) {source} target = false := by
      simpa [Refused, htarget] using h
    rw [updateDelegations, if_neg hempty, hpass, changed, if_neg htarget]
    exact ⟨_, rfl, rfl⟩

/-- What the operation does: it fails and changes nothing, or it stores the changed delegations. -/
theorem handleLiquidDelegate_cases (source target : String) (vm : VM F S) :
    (source = "" ∧ handleLiquidDelegate source target vm =
      VM.raise (.governanceError "LiquidDelegate requires a non-empty 'from' parameter") vm) ∨
    (source ≠ "" ∧ Refused (loadDelegations vm.memory.1) source target ∧
      handleLiquidDelegate source target vm = VM.raise (.governanceError
        s!"Delegation from {source} to {target} would create a cycle") vm) ∨
    (source ≠ "" ∧ ¬ Refused (loadDelegations vm.memory.1) source target ∧
      ∃ vm', handleLiquidDelegate source target vm = .ok () vm' ∧
        vm'.memory.1 = storeDelegations (changed (loadDelegations vm.memory.1) source target)
          vm.memory.1) := by
  by_cases hsource : source = ""
  · subst hsource
    exact .inl ⟨rfl, rfl⟩
  · have hempty : source.isEmpty = false := by
      simpa [String.isEmpty_iff] using hsource
    have hstart : handleLiquidDelegate source target vm =
        (updateDelegations (loadDelegations vm.memory.1) source target >>= fun delegations =>
          VM.setStringMetadata delegationsKey (SerdeJson.toText delegations) >>= fun _ =>
            VM.store delegationsKey (.number (Number.ofNat delegations.keys.card))) vm := by
      rw [handleLiquidDelegate, hempty]
      rfl
    by_cases hrefused : Refused (loadDelegations vm.memory.1) source target
    · refine .inr (.inl ⟨hsource, hrefused, ?_⟩)
      rw [hstart]
      exact Comp.bind_of_error (updateDelegations_refused hrefused vm)
    · refine .inr (.inr ⟨hsource, hrefused, ?_⟩)
      obtain ⟨vm₁, hupdate, hmemory⟩ := updateDelegations_ok hrefused vm
      rw [hstart, Comp.bind_of_ok hupdate]
      refine ⟨_, rfl, ?_⟩
      rw [← hmemory]
      rfl

/-! ### Everything else -/

/-- The metadata of the memory. -/
def noted (vm : VM F S) : HashMap String := vm.memory.1.stringMetadata

omit [Number F] [SerdeJson] in
theorem noted_of_memory {α : Type} {x : Exec F S α} (h : Within (Agree VM.memory) x) :
    Within (Agree noted) x := h.mono fun _ _ h => congrArg (fun m => m.1.stringMetadata) h

omit [Number F] [SerdeJson] in
theorem speaks_noted : Speaks (Agree (noted : VM F S → _)) where
  onStack x := noted_of_memory (VM.onStack_memory x)
  emitEvent category message := noted_of_memory (VM.emitEvent_memory category message)

omit [Number F] [SerdeJson] in
theorem stringMetadata_store (m : VMMemory F) (name : String) (v : TypedValue F) :
    (m.store name v).stringMetadata = m.stringMetadata := by
  unfold VMMemory.store
  split <;> rfl

omit [Number F] [SerdeJson] in
theorem store_noted (name : String) (v : TypedValue F) :
    Within (Agree noted) (VM.store name v : Exec F S Unit) := fun vm =>
  stringMetadata_store vm.memory.1 name v

omit [Number F] [SerdeJson] in
theorem executeReturn_noted : Within (Agree noted) (VM.executeReturn : Exec F S Unit) := by
  have hset (v : TypedValue F) : Within (Agree noted) (VM.setReturnValue v : Exec F S Unit) := by
    intro vm
    unfold VM.setReturnValue
    split
    · next m h =>
      unfold VMMemory.setReturnValue at h
      split at h
      · obtain rfl := Except.ok.inj h
        rfl
      · simp at h
    · rfl
  exact Within.get.bind fun _ => .ite (hset _) (.pure _)

omit [Number F] [SerdeJson] in
theorem enterCall_noted (name : String) :
    Within (Agree noted) (VM.enterCall name : Exec F S _) := by
  refine (VM.getFunction_within name).bind fun _ =>
    (noted_of_memory (popArguments_memory _ _)).bind fun _ => ?_
  have hpush (params : HashMap (TypedValue F)) :
      Within (Agree noted) (VM.pushCallFrame name params : Exec F S Unit) := fun _ => rfl
  exact (hpush _).bind fun _ => .pure _

omit [Number F] [SerdeJson] in
theorem exitCall_noted (name : String) :
    Within (Agree noted) (VM.exitCall name : Exec F S Unit) := by
  have hpop : Within (Agree noted) (VM.popCallFrame : Exec F S _) := fun _ => rfl
  refine hpop.bind fun frame => ?_
  cases frame with
  | none => exact VM.raise_within _
  | some frame =>
    dsimp only
    cases frame.returnValue with
    | some value => exact speaks_noted.onStack _
    | none => exact .pure _

variable [StorageBackend S]

omit [SerdeJson] in
theorem executeBasic_noted {op : Op F} {x : Exec F S Unit} (h : VM.executeBasic op = some x) :
    Within (Agree noted) x := by
  by_cases hstore : ∃ name, op = .store name
  · obtain ⟨name, rfl⟩ := hstore
    cases h
    exact (speaks_noted.onStack _).bind fun v => store_noted name v
  · by_cases hdef : ∃ name params body, op = .defOp name params body
    · obtain ⟨name, params, body, rfl⟩ := hdef
      cases h
      exact fun _ => rfl
    · exact noted_of_memory
        (VM.executeBasic_memory h (by simpa using hstore) (by simpa using hdef))

theorem start_noted {op : Op F} (hop : ∀ source target, op ≠ .liquidDelegate source target)
    (next out : List (Frame F)) : Within (Agree noted) (Frame.start next out op : Exec F S _) := by
  have hplain : Within (Agree noted) (VM.executePlain op : Exec F S Flow) :=
    VM.executePlain_of_arms (tryHandleGovernanceOp_speaks speaks_noted hop)
      fun _ hx => executeBasic_noted hx
  cases op with
  | ifOp condition thenOps elseOps => exact .pure _
  | loop count body => exact .pure _
  | whileOp condition body => exact .pure _
  | matchOp value cases default => exact .pure _
  | call name => exact (enterCall_noted name).bind fun _ => .pure _
  | returnOp => exact executeReturn_noted.bind fun _ => .pure _
  | breakOp => exact .pure _
  | continueOp => exact .pure _
  | _ => exact hplain.bind fun _ => .pure _

/-- A step that executes no delegation leaves the metadata alone. -/
theorem step_noted {frame : Frame F}
    (hframe : ∀ source target ops, frame ≠ .exec (.liquidDelegate source target) ops)
    (rest : List (Frame F)) : Within (Agree noted) (frame.step rest : Exec F S _) := by
  have hpop : Within (Agree noted) (VM.pop : Exec F S _) := speaks_noted.onStack _
  cases frame with
  | seq ops =>
    cases ops with
    | nil => exact .pure _
    | cons op ops => exact (noted_of_memory (VM.announce_memory op)).bind fun _ => .pure _
  | exec op ops =>
    exact start_noted (fun source target heq => hframe source target ops (by rw [heq])) _ _
  | after =>
    exact (noted_of_memory (VM.memory_of_core VM.recordStackAfter_core)).bind fun _ => .pure _
  | ifTest thenOps elseOps => exact hpop.bind fun _ => .pure _
  | loop remaining body => cases remaining <;> exact .pure _
  | whileLoop condition body => exact .pure _
  | whileTest condition body => exact hpop.bind fun _ => .pure _
  | matchTest cases default => exact hpop.bind fun _ => .pure _
  | call name => exact (exitCall_noted name).bind fun _ => .pure _

/-- A step of the machine stores changed delegations, or it executes no delegation. -/
theorem step_delegations {c c' : Config F S} (h : machine.Step c c') :
    (∃ source target, c.executing = [.liquidDelegate source target] ∧ source ≠ "" ∧
      ¬ Refused (loadDelegations c.vm.memory.1) source target ∧
      c'.vm.memory.1 = storeDelegations (changed (loadDelegations c.vm.memory.1) source target)
        c.vm.memory.1) ∨
    (∀ source target, c.executing ≠ [.liquidDelegate source target]) ∧ noted c'.vm = noted c.vm := by
  obtain ⟨frame, rest, hframes, hstep⟩ := machine_step_ok h
  by_cases hop : ∃ source target ops, frame = .exec (.liquidDelegate source target) ops
  · obtain ⟨source, target, ops, rfl⟩ := hop
    left
    obtain ⟨flow, vm₁, hplain, hselect⟩ := Comp.bind_eq_ok_iff.mp hstep
    obtain ⟨handled, vm₂, htry, hflow⟩ := Comp.bind_eq_ok_iff.mp hplain
    obtain ⟨_, vm₃, hhandle, hsome⟩ := Comp.bind_eq_ok_iff.mp htry
    cases hsome
    cases hflow
    cases hselect
    rcases handleLiquidDelegate_cases source target c.vm with
      ⟨-, herror⟩ | ⟨-, -, herror⟩ | ⟨hsource, hpass, vm', hok, hmemory⟩
    · simp [herror, VM.raise, Comp.fail] at hhandle
    · simp [herror, VM.raise, Comp.fail] at hhandle
    · refine ⟨source, target, by rw [Config.executing, hframes], hsource, hpass, ?_⟩
      rw [hok] at hhandle
      cases hhandle
      exact hmemory
  · right
    have hframe : ∀ source target ops, frame ≠ .exec (.liquidDelegate source target) ops :=
      fun source target ops heq => hop ⟨source, target, ops, heq⟩
    refine ⟨fun source target heq => ?_, (step_noted hframe rest).ok hstep⟩
    unfold Config.executing at heq
    rw [hframes] at heq
    split at heq
    · next op ops _ hexec =>
      obtain ⟨hexec, -⟩ := List.cons.inj hexec
      exact hframe source target ops (by rw [hexec, (List.cons.inj heq).1])
    · cases heq

/-- A failing step leaves the metadata alone. -/
theorem fault_noted {c c' : Config F S} {e : Fault F} (h : machine.Faults c e c') :
    noted c'.vm = noted c.vm := by
  obtain ⟨frame, rest, hframes, -, hstep⟩ := machine_faults h
  by_cases hop : ∃ source target ops, frame = .exec (.liquidDelegate source target) ops
  · obtain ⟨source, target, ops, rfl⟩ := hop
    rcases Comp.bind_eq_error_iff.mp hstep with hplain | ⟨_, _, _, hselect⟩
    · rcases Comp.bind_eq_error_iff.mp hplain with htry | ⟨_, _, htry, hflow⟩
      · rcases Comp.bind_eq_error_iff.mp htry with hhandle | ⟨_, _, _, hsome⟩
        · rcases handleLiquidDelegate_cases source target c.vm with
            ⟨-, herror⟩ | ⟨-, -, herror⟩ | ⟨-, -, vm', hok, -⟩
          · rw [herror] at hhandle
            exact congrArg noted (EStateM.Result.error.inj hhandle).2.symm
          · rw [herror] at hhandle
            exact congrArg noted (EStateM.Result.error.inj hhandle).2.symm
          · rw [hok] at hhandle
            simp at hhandle
        · cases hsome
      · obtain ⟨_, _, _, hsome⟩ := Comp.bind_eq_ok_iff.mp htry
        cases hsome
        cases hflow
    · cases hselect
  · exact (step_noted (fun source target ops heq => hop ⟨source, target, ops, heq⟩) rest).error hstep

end

end Governance

end Covm
