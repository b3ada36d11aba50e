import Covm.Compiler.Parser
import Covm.Number.Text
import Covm.Vm.StackCode

/-!
# Runtime parameters (`set_parameters`)

`VMMemory::set_parameters` keeps the texts of the parameters and makes variables of their values.
`VM::set_parameters` converts the same texts, in another order of attempts, and hands the values to
`store_param`, which turns them back into texts and makes no variables. `Load` looks only at
variables: what it finds for a parameter is what was there before.
-/

namespace Covm

open Partial
open Compiler (eqIgnoreAsciiCase)

section model
variable {F S : Type} [Number F]

namespace VMMemory

def storeParam (m : VMMemory F) (key : String) (value : TypedValue F) : VMMemory F :=
  let stringValue :=
    match value with
    | .number n => Number.toStr n
    | .boolean b => toString b
    | .string s => s
    | .null => "null"
  { m with parameters := m.parameters.insert key stringValue }

/-- The value of a parameter in `VMMemory::set_parameters`. -/
def parameterValue (value : String) : TypedValue F :=
  match Number.parse value with
  | some num => .number num
  | none =>
    if value = "true" then .boolean true
    else if value = "false" then .boolean false
    else if value = "null" then .null
    else .string value

/-- The keys of a hash map are distinct, and the order in which it lists them is of no importance
here; so it is below. -/
def setParameters (m : VMMemory F) (parameters : HashMap String) : VMMemory F :=
  { m with
    parameters := parameters
    memory := ((sortedEntries parameters).map fun (key, value) =>
      (key, parameterValue value)).foldl (fun memory e => memory.insert e.1 e.2) m.memory }

theorem Framed.storeParam {m : VMMemory F} (h : m.Framed) (key : String) (value : TypedValue F) :
    (m.storeParam key value).Framed := h

theorem Framed.setParameters {m : VMMemory F} (h : m.Framed) (parameters : HashMap String) :
    (m.setParameters parameters).Framed := h

end VMMemory

namespace VM

/-- The value of a parameter in `VM::set_parameters`. -/
def parameterValue (value : String) : TypedValue F :=
  if eqIgnoreAsciiCase value.toList "true".toList then .boolean true
  else if eqIgnoreAsciiCase value.toList "false".toList then .boolean false
  else
    match Number.parse value with
    | some num => .number num
    | none => .string value

def storeParam (key : String) (value : TypedValue F) (m : Memory F) : Memory F :=
  ⟨m.1.storeParam key value, m.2.storeParam key value⟩

/-- It never fails. -/
def setParameters (parameters : HashMap String) (vm : VM F S) : VM F S :=
  { vm with
    memory := (VMMemory.sortedEntries parameters).foldl
      (fun m (key, value) => storeParam key (parameterValue value) m) vm.memory }

/-- What the text of a parameter stands for. -/
def denoted (text : String) : TypedValue F :=
  match Number.parse text with
  | some num => .number num
  | none =>
    if eqIgnoreAsciiCase text.toList "true".toList then .boolean true
    else if eqIgnoreAsciiCase text.toList "false".toList then .boolean false
    else .string text

/-- A text that both conversions read in the same way: not `null`, and no boolean with capitals. -/
structure Plain (text : String) : Prop where
  not_null : text ≠ "null"
  lower_true : eqIgnoreAsciiCase text.toList "true".toList = true → text = "true"
  lower_false : eqIgnoreAsciiCase text.toList "false".toList = true → text = "false"

/-- Each parameter is loaded as the value its text stands for, and `VMMemory::set_parameters` makes
the same value loadable. -/
structure ParametersReach [StorageBackend S] [SerdeJson] (vm : VM F S)
    (parameters : HashMap String) : Prop where
  loads : ∀ k text, parameters.lookup k = some text →
    ∃ vm', run [.load k] (vm.setParameters parameters) (.ok () vm') ∧
      vm'.stack = denoted text :: vm.stack
  agrees : ∀ k text, parameters.lookup k = some text → Plain text →
    (vm.memory.1.setParameters parameters).load k = .ok (denoted text)

end VM

end model

/-! ### The conversions agree -/

section conversions
variable {fmt : Format} {text : String}

/-- A boolean word is itself in lower case. -/
theorem VM.Plain.eq_word_iff (h : Plain text) {word : String}
    (hword : word = "true" ∨ word = "false") :
    text = word ↔ eqIgnoreAsciiCase text.toList word.toList = true := by
  constructor
  · rintro rfl
    simp [eqIgnoreAsciiCase]
  · rcases hword with rfl | rfl
    · exact h.lower_true
    · exact h.lower_false

theorem VM.Plain.parameterValue (h : Plain text) :
    (VMMemory.parameterValue text : TypedValue (Ieee fmt)) = denoted text := by
  unfold VMMemory.parameterValue denoted
  cases (Number.parse text : Option (Ieee fmt)) with
  | some num => rfl
  | none =>
    simp only [h.eq_word_iff (.inl rfl), h.eq_word_iff (.inr rfl), if_neg h.not_null]

end conversions

/-! ### What is loaded -/

section loads
variable {F S : Type} [Number F] {vm : VM F S} {parameters : HashMap String}

/-- `store_param` leaves the variables alone. -/
theorem VM.setParameters_keeps (parameters : HashMap String) (vm : VM F S) :
    (vm.setParameters parameters).memory.1.memory = vm.memory.1.memory ∧
      (vm.setParameters parameters).memory.1.callFrames = vm.memory.1.callFrames := by
  unfold VM.setParameters
  dsimp only
  induction VMMemory.sortedEntries parameters generalizing vm with
  | nil => exact ⟨rfl, rfl⟩
  | cons e entries ih => exact ih { vm with memory := storeParam e.1 (parameterValue e.2) vm.memory }

theorem VMMemory.lookup_setParameters {m : VMMemory F} {k text : String}
    (h : parameters.lookup k = some text) :
    (m.setParameters parameters).memory.lookup k = some (parameterValue text) := by
  have hentries : ∀ e ∈ (sortedEntries parameters).map fun (key, value) =>
      (key, (parameterValue value : TypedValue F)),
      (parameters.lookup e.1).map parameterValue = some e.2 := by
    intro e he
    obtain ⟨e', he', rfl⟩ := List.mem_map.mp he
    rw [mem_sortedEntries.mp he']
    rfl
  have hmem : k ∈ ((sortedEntries parameters).map fun (key, value) =>
      (key, (parameterValue value : TypedValue F))).map (·.1) := by
    rw [List.map_map]
    exact List.mem_map.mpr ⟨(k, text), mem_sortedEntries.mpr h, rfl⟩
  unfold setParameters
  rw [lookup_foldl_insert (fun k => (parameters.lookup k).map parameterValue) hentries, if_pos hmem, h]
  rfl

variable [StorageBackend S] [SerdeJson]

theorem VM.run_load_iff {k : String} {v : TypedValue F} :
    (∃ vm', run [.load k] vm (.ok () vm') ∧ vm'.stack = v :: vm.stack) ↔
      vm.memory.1.load k = .ok v := by
  constructor
  · rintro ⟨vm', hrun, hstack⟩
    obtain ⟨vm₁, vm₂, hcore, hop, hcore'⟩ := run_single rfl rfl hrun
    obtain ⟨hbefore, hmemory⟩ := Prod.mk.inj hcore
    obtain ⟨w, vm₃, hload, hpush⟩ := Comp.bind_eq_ok_iff.mp hop
    cases hpush
    rw [VM.load, hmemory] at hload
    cases hl : vm.memory.1.load k with
    | error e =>
      rw [hl] at hload
      cases hload
    | ok u =>
      rw [hl] at hload
      cases hload
      have hvalue : vm'.stack = w :: vm₁.stack := congrArg Prod.fst hcore'
      rw [hstack, hbefore] at hvalue
      rw [(List.cons.inj hvalue).1]
  · intro h
    have heffect : effects vm.memory.1 [.load k] vm.stack = some (v :: vm.stack) := by
      rw [effects_cons, effect_load h]
      rfl
    obtain ⟨vm', hrun, hcore⟩ := sends_run (sends_of_effects heffect) vm rfl
    exact ⟨vm', hrun, congrArg Prod.fst hcore⟩

/-- At top level `Load` finds what the variables held before. -/
theorem VM.loads_iff (htop : vm.memory.1.callFrames = []) {k : String} {v : TypedValue F} :
    (∃ vm', run [.load k] (vm.setParameters parameters) (.ok () vm') ∧
      vm'.stack = v :: vm.stack) ↔ vm.memory.1.memory.lookup k = some v := by
  obtain ⟨hmemory, hframes⟩ := setParameters_keeps parameters vm
  have hstack : (vm.setParameters parameters).stack = vm.stack := rfl
  rw [← hstack, run_load_iff,
    VMMemory.load_of_nil (vm.setParameters parameters).memory.2 (hframes.trans htop), hmemory]
  cases vm.memory.1.memory.lookup k with
  | none =>
    refine iff_of_false ?_ ?_
    · intro h
      cases h
    · intro h
      cases h
  | some w => simp

end loads

namespace VM

section program
variable {S : Type} [StorageBackend S] [SerdeJson]

/-- The parameters reach the program iff their values are already in variables of their names. -/
theorem parametersReach_iff {vm : VM Binary64 S} (htop : vm.memory.1.callFrames = [])
    (parameters : HashMap String) : ParametersReach vm parameters ↔
      ∀ k text, parameters.lookup k = some text →
        vm.memory.1.memory.lookup k = some (denoted text) := by
  constructor
  · intro h k text hk
    exact (loads_iff htop).mp (h.loads k text hk)
  · intro h
    refine ⟨fun k text hk => (loads_iff htop).mpr (h k text hk), fun k text hk hplain => ?_⟩
    rw [VMMemory.load_of_nil (vm.memory.2.setParameters parameters) htop,
      VMMemory.lookup_setParameters hk, hplain.parameterValue]

end program

theorem parametersReach_iff_fresh :
    ParametersReach (stackVm []) (Finmap.singleton "quorum" "50") ↔
      ∀ k text, (Finmap.singleton "quorum" "50" : HashMap String).lookup k = some text →
        (stackVm []).memory.1.memory.lookup k = some (denoted text) :=
  parametersReach_iff rfl _

/-- A fresh VM does not know the parameter it was given. -/
theorem not_parametersReach : ¬ ∀ (vm : VM Binary64 NoStorage) (parameters : HashMap String),
    vm.memory.1.callFrames = [] → ParametersReach vm parameters := by
  intro h
  have hloads := (h (stackVm []) (Finmap.singleton "quorum" "50") rfl).loads "quorum" "50" rfl
  cases (loads_iff rfl).mp hloads

end VM

end Covm
