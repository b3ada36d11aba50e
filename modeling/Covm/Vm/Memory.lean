import Covm.Vm.Stack
import Mathlib.Data.Finset.Sort
import Mathlib.Data.String.Basic

/-!
# Memory and call frames (`vm/memory.rs`)

Variables are global or local to a call frame. `store` and `load` find the current frame through
`callStack`, a stack of indices into `callFrames`; the frames themselves are pushed and popped
beside it. `VMMemory.Framed` says that the two agree: the indices are `0, …, n - 1` for `n` frames.
Every operation keeps it, so no index is ever out of range. The fields of the Rust struct are
private to its module, so `Framed` holds of every memory a VM can have: the VM's memory is the
subtype `Memory`.
-/

namespace Covm

open Partial

structure TypedCallFrame (F : Type) where
  memory : HashMap (TypedValue F)
  params : HashMap (TypedValue F)
  returnValue : Option (TypedValue F)
  functionName : String

structure VMMemory (F : Type) where
  memory : HashMap (TypedValue F)
  functions : HashMap (List String × List (Op F))
  /-- Indices into `callFrames`, the innermost call last. -/
  callStack : List Nat
  /-- The innermost call last. -/
  callFrames : List (TypedCallFrame F)
  parameters : HashMap String
  stringMetadata : HashMap String

namespace VMMemory

variable {F : Type}

def new : VMMemory F := ⟨∅, ∅, [], [], ∅, ∅⟩

def getStringMetadata (m : VMMemory F) (key : String) : Option String :=
  m.stringMetadata.lookup key

def setStringMetadata (m : VMMemory F) (key value : String) : VMMemory F :=
  { m with stringMetadata := m.stringMetadata.insert key value }

def store (m : VMMemory F) (name : String) (value : TypedValue F) : VMMemory F :=
  match m.callStack.getLast? with
  | some idx =>
    { m with
      callFrames := m.callFrames.modify idx fun frame =>
        { frame with memory := frame.memory.insert name value } }
  | none => { m with memory := m.memory.insert name value }

def load (m : VMMemory F) (name : String) : Except (VMError F) (TypedValue F) :=
  let global : Except (VMError F) (TypedValue F) :=
    match m.memory.lookup name with
    | some v => .ok v
    | none => .error (.undefinedVariable name)
  match m.callStack.getLast? with
  | some idx =>
    match m.callFrames[idx]? with
    | some frame =>
      match frame.memory.lookup name with
      | some v => .ok v
      | none =>
        match frame.params.lookup name with
        | some v => .ok v
        | none => global
    | none => global
  | none => global

def defineFunction (m : VMMemory F) (name : String) (params : List String)
    (body : List (Op F)) : VMMemory F :=
  { m with functions := m.functions.insert name (params, body) }

def getFunction (m : VMMemory F) (name : String) :
    Except (VMError F) (List String × List (Op F)) :=
  match m.functions.lookup name with
  | some f => .ok f
  | none => .error (.undefinedFunction name)

def pushCallFrame (m : VMMemory F) (functionName : String)
    (params : HashMap (TypedValue F)) : VMMemory F :=
  { m with
    callFrames := m.callFrames ++ [⟨∅, params, none, functionName⟩]
    callStack := m.callStack ++ [m.callFrames.length] }

def popCallFrame (m : VMMemory F) : Option (TypedCallFrame F) × VMMemory F :=
  (m.callFrames.getLast?,
    { m with callStack := m.callStack.dropLast, callFrames := m.callFrames.dropLast })

def currentCallFrame (m : VMMemory F) : Option (TypedCallFrame F) := m.callFrames.getLast?

def setReturnValue (m : VMMemory F) (value : TypedValue F) : Except (VMError F) (VMMemory F) :=
  match m.callFrames.getLast? with
  | some frame => .ok
      { m with callFrames := m.callFrames.dropLast ++ [{ frame with returnValue := some value }] }
  | none => .error (.notImplemented (.message "Cannot return outside a function"))

def inFunctionCall (m : VMMemory F) : Bool := !m.callStack.isEmpty

/-- Globals, overridden by the parameters and then the locals of the current frame. -/
def getMemoryMap (m : VMMemory F) : HashMap (TypedValue F) :=
  match m.callStack.getLast? with
  | some idx =>
    match m.callFrames[idx]? with
    | some frame => frame.memory ∪ (frame.params ∪ m.memory)
    | none => m.memory
  | none => m.memory

instance : IsTrans String (· ≤ ·) := inferInstance

instance : Std.Antisymm (α := String) (· ≤ ·) := inferInstance

/-- The entries of a map in the order of their keys. -/
def sortedEntries {V : Type} (m : HashMap V) : List (String × V) :=
  (m.keys.sort (· ≤ ·)).filterMap fun k => (m.lookup k).map fun v => (k, v)

theorem mem_sortedEntries {V : Type} {m : HashMap V} {e : String × V} :
    e ∈ sortedEntries m ↔ m.lookup e.1 = some e.2 := by
  obtain ⟨k, v⟩ := e
  simp only [sortedEntries, List.mem_filterMap, Finset.mem_sort, Finmap.mem_keys]
  constructor
  · rintro ⟨k', -, h⟩
    obtain ⟨v', hv', heq⟩ := Option.map_eq_some_iff.mp h
    obtain ⟨rfl, rfl⟩ := Prod.mk.inj heq
    exact hv'
  · intro h
    exact ⟨k, Finmap.mem_of_lookup_eq_some h, by rw [h]; rfl⟩

/-- Entries of one map, inserted one after the other. -/
theorem lookup_foldl_insert {V : Type} (target : String → Option V) {m : HashMap V}
    {entries : List (String × V)}
    (h : ∀ e ∈ entries, target e.1 = some e.2) (k : String) :
    (entries.foldl (fun m e => m.insert e.1 e.2) m).lookup k =
      if k ∈ entries.map (·.1) then target k else m.lookup k := by
  induction entries generalizing m with
  | nil => rfl
  | cons e entries ih =>
    rw [List.foldl_cons, ih fun e' he' => h e' (List.mem_cons_of_mem e he'), List.map_cons]
    by_cases hk : k ∈ entries.map (·.1)
    · rw [if_pos hk, if_pos (List.mem_cons_of_mem _ hk)]
    · rw [if_neg hk]
      by_cases hhead : k = e.1
      · subst hhead
        rw [if_pos List.mem_cons_self, Finmap.lookup_insert, h e List.mem_cons_self]
      · rw [if_neg (by simp [hhead, hk]), Finmap.lookup_insert_of_ne _ hhead]

def formatMemory [Number F] (m : VMMemory F) : String :=
  let items := (sortedEntries m.getMemoryMap).map fun (k, v) => s!"{k}: {v.display}"
  if items.isEmpty then "Memory: \x7b\x7d"
  else "Memory: \x7b\n  " ++ ",\n  ".intercalate (items.mergeSort (· ≤ ·)) ++ "\n\x7d"

def formatCallStack (m : VMMemory F) : String :=
  if m.callFrames.isEmpty then "Call Stack: []"
  else
    let items := m.callStack.zipIdx.filterMap fun (idx, i) =>
      (m.callFrames[idx]?).map fun frame => s!"{i}. {frame.functionName}"
    "Call Stack: [" ++ ", ".intercalate items ++ "]"

/-- `Display`. The source lists the function names in the order of its hash map. -/
def display [Number F] (m : VMMemory F) : String :=
  let names := (sortedEntries m.functions).map fun (name, _) => s!"  {name}\n"
  m.formatMemory ++ "\n" ++ m.formatCallStack ++ "\n" ++
    if names.isEmpty then "" else "Functions: [\n" ++ String.join names ++ "]\n"

/-! ### Frames and indices agree -/

/-- The call stack indexes the frames from the outermost to the innermost. -/
def Framed (m : VMMemory F) : Prop := m.callStack = List.range m.callFrames.length

theorem framed_new : (new : VMMemory F).Framed := rfl

theorem Framed.store {m : VMMemory F} (h : m.Framed) (name : String) (v : TypedValue F) :
    (m.store name v).Framed := by
  unfold VMMemory.store Framed at *
  split <;> simp [h]

theorem Framed.defineFunction {m : VMMemory F} (h : m.Framed) (name : String)
    (params : List String) (body : List (Op F)) : (m.defineFunction name params body).Framed := h

theorem Framed.setStringMetadata {m : VMMemory F} (h : m.Framed) (key value : String) :
    (m.setStringMetadata key value).Framed := h

theorem Framed.pushCallFrame {m : VMMemory F} (h : m.Framed) (name : String)
    (params : HashMap (TypedValue F)) : (m.pushCallFrame name params).Framed := by
  unfold VMMemory.pushCallFrame Framed at *
  simp [h, List.range_succ]

theorem Framed.popCallFrame {m : VMMemory F} (h : m.Framed) : m.popCallFrame.2.Framed := by
  unfold VMMemory.popCallFrame Framed at *
  simp only [h, List.length_dropLast]
  cases hn : m.callFrames.length with
  | zero => rfl
  | succ n => simp [List.range_succ]

theorem Framed.setReturnValue {m m' : VMMemory F} (h : m.Framed) {v : TypedValue F}
    (he : m.setReturnValue v = .ok m') : m'.Framed := by
  unfold VMMemory.setReturnValue at he
  split at he
  · next frame hf =>
    cases he
    have hne : m.callFrames ≠ [] := by
      intro hnil
      simp [hnil] at hf
    have : 0 < m.callFrames.length := List.length_pos_of_ne_nil hne
    unfold Framed at *
    simp [h, Nat.sub_add_cancel this]
  · cases he

/-! ### Storing and loading in the current scope -/

theorem Framed.getLast?_of_nil {m : VMMemory F} (h : m.Framed) (hf : m.callFrames = []) :
    m.callStack.getLast? = none := by
  simp [show m.callStack = _ from h, hf]

theorem Framed.getLast?_of_frame {m : VMMemory F} (h : m.Framed) {fs : List (TypedCallFrame F)}
    {frame : TypedCallFrame F} (hf : m.callFrames = fs ++ [frame]) :
    m.callStack.getLast? = some fs.length := by
  simp [show m.callStack = _ from h, hf, List.range_succ]

theorem store_of_nil {m : VMMemory F} (h : m.Framed) (hf : m.callFrames = []) (name : String)
    (v : TypedValue F) : m.store name v = { m with memory := m.memory.insert name v } := by
  rw [store, h.getLast?_of_nil hf]

theorem store_of_frame {m : VMMemory F} (h : m.Framed) {fs : List (TypedCallFrame F)}
    {frame : TypedCallFrame F} (hf : m.callFrames = fs ++ [frame]) (name : String)
    (v : TypedValue F) :
    m.store name v =
      { m with callFrames := fs ++ [{ frame with memory := frame.memory.insert name v }] } := by
  rw [store, h.getLast?_of_frame hf]
  simp [hf, List.modify_eq_take_drop]

theorem load_of_nil {m : VMMemory F} (h : m.Framed) (hf : m.callFrames = []) (name : String) :
    m.load name =
      match m.memory.lookup name with
      | some v => .ok v
      | none => .error (.undefinedVariable name) := by
  rw [load, h.getLast?_of_nil hf]

/-- The innermost frame's locals, then its parameters, then the globals. -/
theorem load_of_frame {m : VMMemory F} (h : m.Framed) {fs : List (TypedCallFrame F)}
    {frame : TypedCallFrame F} (hf : m.callFrames = fs ++ [frame]) (name : String) :
    m.load name =
      match frame.memory.lookup name, frame.params.lookup name, m.memory.lookup name with
      | some v, _, _ => .ok v
      | none, some v, _ => .ok v
      | none, none, some v => .ok v
      | none, none, none => .error (.undefinedVariable name) := by
  rw [load, h.getLast?_of_frame hf]
  simp only [hf, List.getElem?_concat_length]
  cases frame.memory.lookup name <;> cases frame.params.lookup name <;>
    cases m.memory.lookup name <;> rfl

/-- The variables `store` writes to: those of the innermost frame, or the globals. -/
def scope (m : VMMemory F) : HashMap (TypedValue F) :=
  match m.callFrames.getLast? with
  | some frame => frame.memory
  | none => m.memory

def setScope (m : VMMemory F) (vars : HashMap (TypedValue F)) : VMMemory F :=
  match m.callFrames.getLast? with
  | some frame =>
    { m with callFrames := m.callFrames.dropLast ++ [{ frame with memory := vars }] }
  | none => { m with memory := vars }

/-- What `load` finds for a name that is not in the scope. -/
def outside (m : VMMemory F) (name : String) : Except (VMError F) (TypedValue F) :=
  match m.callFrames.getLast? with
  | some frame =>
    match frame.params.lookup name, m.memory.lookup name with
    | some v, _ => .ok v
    | none, some v => .ok v
    | none, none => .error (.undefinedVariable name)
  | none => .error (.undefinedVariable name)

theorem frames_cases (m : VMMemory F) :
    m.callFrames = [] ∨ ∃ fs frame, m.callFrames = fs ++ [frame] := by
  rcases List.eq_nil_or_concat m.callFrames with h | ⟨fs, frame, h⟩
  · exact .inl h
  · exact .inr ⟨fs, frame, by rw [h, List.concat_eq_append]⟩

theorem store_eq_setScope {m : VMMemory F} (h : m.Framed) (name : String) (v : TypedValue F) :
    m.store name v = m.setScope (m.scope.insert name v) := by
  rcases m.frames_cases with hf | ⟨fs, frame, hf⟩
  · rw [store_of_nil h hf]
    simp [setScope, scope, hf]
  · rw [store_of_frame h hf]
    simp [setScope, scope, hf]

theorem load_eq_scope {m : VMMemory F} (h : m.Framed) (name : String) :
    m.load name =
      match m.scope.lookup name with
      | some v => .ok v
      | none => m.outside name := by
  rcases m.frames_cases with hf | ⟨fs, frame, hf⟩
  · rw [load_of_nil h hf]
    simp [scope, outside, hf]
  · rw [load_of_frame h hf]
    simp only [scope, outside, hf, List.getLast?_concat]
    cases frame.memory.lookup name <;> cases frame.params.lookup name <;>
      cases m.memory.lookup name <;> rfl

@[simp] theorem scope_setScope (m : VMMemory F) (vars : HashMap (TypedValue F)) :
    (m.setScope vars).scope = vars := by
  rcases m.frames_cases with hf | ⟨fs, frame, hf⟩ <;> simp [setScope, scope, hf]

theorem scope_store {m : VMMemory F} (h : m.Framed) (name : String) (v : TypedValue F) :
    (m.store name v).scope = m.scope.insert name v := by
  rw [store_eq_setScope h, scope_setScope]

@[simp] theorem setScope_setScope (m : VMMemory F) (vars vars' : HashMap (TypedValue F)) :
    (m.setScope vars).setScope vars' = m.setScope vars' := by
  rcases m.frames_cases with hf | ⟨fs, frame, hf⟩ <;> simp [setScope, hf]

@[simp] theorem setScope_scope (m : VMMemory F) : m.setScope m.scope = m := by
  obtain ⟨memory, functions, callStack, callFrames, parameters, stringMetadata⟩ := m
  rcases frames_cases ⟨memory, functions, callStack, callFrames, parameters, stringMetadata⟩ with
    hf | ⟨fs, frame, hf⟩
  · cases hf
    rfl
  · cases hf
    simp [setScope, scope]

@[simp] theorem outside_setScope (m : VMMemory F) (vars : HashMap (TypedValue F)) (name : String) :
    (m.setScope vars).outside name = m.outside name := by
  rcases m.frames_cases with hf | ⟨fs, frame, hf⟩ <;> simp [setScope, outside, hf]

theorem setReturnValue_of_frame {m : VMMemory F} {fs : List (TypedCallFrame F)}
    {frame : TypedCallFrame F} (hf : m.callFrames = fs ++ [frame]) (v : TypedValue F) :
    m.setReturnValue v =
      .ok { m with callFrames := fs ++ [{ frame with returnValue := some v }] } := by
  simp [setReturnValue, hf]

theorem Framed.inFunctionCall_iff {m : VMMemory F} (h : m.Framed) :
    m.inFunctionCall = true ↔ ∃ fs frame, m.callFrames = fs ++ [frame] := by
  rw [inFunctionCall, show m.callStack = _ from h]
  rcases List.eq_nil_or_concat m.callFrames with hf | ⟨fs, frame, hf⟩
  · simp [hf]
  · simp [hf]

end VMMemory

/-- A memory a VM can have. -/
abbrev Memory (F : Type) := { m : VMMemory F // m.Framed }

end Covm
