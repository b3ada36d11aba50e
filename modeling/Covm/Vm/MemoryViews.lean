import Covm.Vm.Indices
import Covm.Vm.Parameters

/-!
# Views of the memory

The memory of a VM changes by calls of its methods only. After any calls, in any order, the call
stack counts the call frames, so that both ways to the current frame, by `call_stack` and by
`current_call_frame`, lead to the same one, and `get_memory_map` has the values that `load` finds.
-/

namespace Covm

namespace VMMemory

variable {F : Type}

def clearMemory (m : VMMemory F) : VMMemory F := { m with memory := ∅ }

/-- A call of a method that changes the memory. -/
inductive Change (F : Type) where
  | store (name : String) (value : TypedValue F)
  | defineFunction (name : String) (params : List String) (body : List (Op F))
  | pushCallFrame (functionName : String) (params : HashMap (TypedValue F))
  | popCallFrame
  | setReturnValue (value : TypedValue F)
  | setParameters (parameters : HashMap String)
  | storeParam (key : String) (value : TypedValue F)
  | clearMemory

section changes
variable [Number F]

def Change.apply (m : VMMemory F) : Change F → VMMemory F
  | .store name value => m.store name value
  | .defineFunction name params body => m.defineFunction name params body
  | .pushCallFrame functionName params => m.pushCallFrame functionName params
  | .popCallFrame => m.popCallFrame.2
  | .setReturnValue value =>
    match m.setReturnValue value with
    | .ok m' => m'
    | .error _ => m
  | .setParameters parameters => m.setParameters parameters
  | .storeParam key value => m.storeParam key value
  | .clearMemory => m.clearMemory

def after (changes : List (Change F)) : VMMemory F := changes.foldl Change.apply new

theorem Framed.apply {m : VMMemory F} (h : m.Framed) (change : Change F) :
    (change.apply m).Framed := by
  cases change with
  | store name value => exact h.store name value
  | defineFunction name params body => exact h.defineFunction name params body
  | pushCallFrame functionName params => exact h.pushCallFrame functionName params
  | popCallFrame => exact h.popCallFrame
  | setReturnValue value =>
    simp only [Change.apply]
    cases hset : m.setReturnValue value with
    | ok m' => exact h.setReturnValue hset
    | error e => exact h
  | setParameters parameters => exact h.setParameters parameters
  | storeParam key value => exact h.storeParam key value
  | clearMemory => exact h

theorem framed_after (changes : List (Change F)) : (after changes).Framed := by
  induction changes using List.reverseRecOn with
  | nil => exact framed_new
  | append_singleton changes change ih =>
    rw [after, List.foldl_append]
    exact ih.apply change

end changes

/-- The call stack is `0, …, n - 1` for `n` frames, and what is read through one accessor is what is
read through the others. -/
structure ViewsAgree (m : VMMemory F) : Prop where
  indices : m.callStack = List.range m.callFrames.length
  inRange : ∀ idx ∈ m.callStack, idx < m.callFrames.length
  current : ∀ frame, m.currentCallFrame = some frame ↔
    ∃ idx, m.callStack.getLast? = some idx ∧ m.callFrames[idx]? = some frame
  stores : ∀ name value, m.store name value =
    match m.currentCallFrame with
    | some frame => { m with callFrames :=
        m.callFrames.dropLast ++ [{ frame with memory := frame.memory.insert name value }] }
    | none => { m with memory := m.memory.insert name value }
  loads : ∀ name, m.load name =
    match m.currentCallFrame.bind (·.memory.lookup name),
      m.currentCallFrame.bind (·.params.lookup name), m.memory.lookup name with
    | some value, _, _ => .ok value
    | none, some value, _ => .ok value
    | none, none, some value => .ok value
    | none, none, none => .error (.undefinedVariable name)
  maps : ∀ name value, m.getMemoryMap.lookup name = some value ↔ m.load name = .ok value

theorem getMemoryMap_of_frame {m : VMMemory F} (h : m.Framed) {fs : List (TypedCallFrame F)}
    {frame : TypedCallFrame F} (hf : m.callFrames = fs ++ [frame]) :
    m.getMemoryMap = frame.memory ∪ (frame.params ∪ m.memory) := by
  rw [getMemoryMap, h.getLast?_of_frame hf]
  simp [hf]

theorem lookup_union {V : Type} (a b : HashMap V) (name : String) :
    (a ∪ b).lookup name = (a.lookup name).or (b.lookup name) := by
  by_cases hmem : name ∈ a
  · obtain ⟨v, hv⟩ := Finmap.mem_iff.mp hmem
    rw [Finmap.lookup_union_left hmem, hv, Option.some_or]
  · rw [Finmap.lookup_union_right hmem, Finmap.lookup_eq_none.mpr hmem, Option.none_or]

theorem Framed.maps {m : VMMemory F} (h : m.Framed) (name : String) (value : TypedValue F) :
    m.getMemoryMap.lookup name = some value ↔ m.load name = .ok value := by
  rcases m.frames_cases with hf | ⟨fs, frame, hf⟩
  · rw [getMemoryMap, h.getLast?_of_nil hf, load_of_nil h hf]
    cases m.memory.lookup name <;> simp
  · rw [getMemoryMap_of_frame h hf, load_of_frame h hf, lookup_union, lookup_union]
    cases frame.memory.lookup name <;> cases frame.params.lookup name <;>
      cases m.memory.lookup name <;> simp

theorem Framed.current_iff {m : VMMemory F} (h : m.Framed) (frame : TypedCallFrame F) :
    m.currentCallFrame = some frame ↔
      ∃ idx, m.callStack.getLast? = some idx ∧ m.callFrames[idx]? = some frame := by
  rcases m.frames_cases with hf | ⟨fs, last, hf⟩
  · simp [currentCallFrame, h.getLast?_of_nil hf, hf]
  · rw [currentCallFrame, h.getLast?_of_frame hf, hf, List.getLast?_concat]
    simp

theorem Framed.viewsAgree {m : VMMemory F} (h : m.Framed) : m.ViewsAgree where
  indices := h
  inRange idx hidx := by
    rwa [show m.callStack = _ from h, List.mem_range] at hidx
  current := h.current_iff
  stores name value := by
    rcases m.frames_cases with hf | ⟨fs, frame, hf⟩
    · rw [store_of_nil h hf]
      simp [currentCallFrame, hf]
    · rw [store_of_frame h hf]
      simp [currentCallFrame, hf]
  loads name := by
    rcases m.frames_cases with hf | ⟨fs, frame, hf⟩
    · rw [load_of_nil h hf]
      simp only [currentCallFrame, hf, List.getLast?_nil, Option.bind_none]
      cases m.memory.lookup name <;> rfl
    · rw [load_of_frame h hf]
      have hcurrent : m.currentCallFrame = some frame := by
        rw [currentCallFrame, hf, List.getLast?_concat]
      cases hmemory : frame.memory.lookup name <;> cases hparams : frame.params.lookup name <;>
        cases m.memory.lookup name <;> simp [hcurrent, hmemory, hparams]
  maps := h.maps

/-- After any calls all views of the memory agree. -/
theorem viewsAgree_after [Number F] (changes : List (Change F)) : (after changes).ViewsAgree :=
  (framed_after changes).viewsAgree

end VMMemory

end Covm
