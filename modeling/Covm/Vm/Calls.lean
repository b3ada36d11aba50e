import Covm.Vm.Effects
import Covm.Vm.Machine
import Covm.Governance.Json

/-!
# Function calls

The machine's `call` frames and the memory's call frames go hand in hand: a step enters a call,
leaves one, or changes the memory in the current scope only (`step_ok_cases`). While a call is
active, the frames below its own and the globals are therefore out of reach (`Inside`), and a
program that ends with `Ok` leaves as many frames as it found. An error, however, ends the run
without leaving the calls it was raised in.
-/

namespace Covm

open Partial

/-- The number of calls in a stack of frames. -/
def calls {F : Type} : List (Frame F) → Nat
  | [] => 0
  | .call _ :: rest => calls rest + 1
  | _ :: rest => calls rest

section entering
variable {F S : Type}

@[simp] theorem calls_optional (ops : Option (List (Op F))) (rest : List (Frame F)) :
    calls (Frame.optional ops ++ rest) = calls rest := by
  cases ops <;> rfl

theorem calls_append (K K' : List (Frame F)) : calls (K ++ K') = calls K + calls K' := by
  induction K with
  | nil => simp [calls]
  | cons frame K ih =>
    cases frame <;> simp only [List.cons_append, calls, ih]
    omega

/-! ### Entering and leaving a call -/

theorem popArguments_memory (names : List String) (values : HashMap (TypedValue F)) :
    Comp.Within (Agree VM.memory) (VM.popArguments names values : Exec F S _) := by
  induction names generalizing values with
  | nil => exact .pure _
  | cons name names ih => exact VM.pop_memory.bind fun _ => ih _

/-- The arguments are taken off the stack. -/
theorem popArguments_ok (names : List String) (values : HashMap (TypedValue F)) (vm : VM F S)
    {args base : VMStack F} (hs : vm.stack = args ++ base) (hn : args.length = names.length) :
    ∃ values', VM.popArguments names values vm = .ok values' { vm with stack := base } := by
  induction names generalizing values vm args with
  | nil =>
    obtain rfl : args = [] := List.length_eq_zero_iff.mp hn
    refine ⟨values, ?_⟩
    rw [List.nil_append] at hs
    rw [← hs]
    rfl
  | cons name names ih =>
    obtain ⟨v, args, rfl⟩ := List.exists_cons_of_length_eq_add_one hn
    rw [VM.popArguments, Comp.bind_of_ok (VM.pop_of_cons hs)]
    exact ih _ { vm with stack := args ++ base } rfl (Nat.succ.inj hn)

theorem enterCall_ok {name : String} {vm : VM F S} {params : List String} {body : List (Op F)}
    {args base : VMStack F} (hf : vm.memory.1.functions.lookup name = some (params, body))
    (hs : vm.stack = args ++ base) (hn : args.length = params.length) :
    ∃ vm₁, VM.enterCall name vm = .ok body vm₁ ∧ vm₁.stack = base := by
  have hget : VM.getFunction name vm = .ok (params, body) vm := by
    simp only [VM.getFunction, VMMemory.getFunction, hf]
    rfl
  obtain ⟨values, hpop⟩ := popArguments_ok params.reverse ∅ vm hs (by simpa using hn)
  have henter : VM.enterCall name vm = .ok body { vm with
      stack := base
      memory := ⟨vm.memory.1.pushCallFrame name values, vm.memory.2.pushCallFrame name values⟩ } := by
    rw [VM.enterCall, Comp.bind_of_ok hget]
    show (VM.popArguments params.reverse ∅ >>= fun _ => _ : Exec F S _) vm = _
    rw [Comp.bind_of_ok hpop]
    rfl
  exact ⟨_, henter, rfl⟩

/-- Entering a call pushes a frame without locals. -/
theorem enterCall_memory {name : String} {vm vm' : VM F S} {body : List (Op F)}
    (h : VM.enterCall name vm = .ok body vm') :
    ∃ values, vm'.memory.1 = vm.memory.1.pushCallFrame name values := by
  obtain ⟨⟨params, body'⟩, vm₁, hget, h⟩ := Comp.bind_eq_ok_iff.mp h
  obtain ⟨values, vm₂, hpop, h⟩ := Comp.bind_eq_ok_iff.mp h
  have hmem₁ : vm₁.memory = vm.memory :=
    (VM.getFunction_within (R := Agree VM.memory) name).ok hget
  have hmem₂ : vm₂.memory = vm₁.memory := (popArguments_memory _ _).ok hpop
  cases h
  exact ⟨values, by rw [← hmem₁, ← hmem₂]⟩

/-- Failing to enter a call leaves the memory alone. -/
theorem enterCall_error {name : String} {vm vm' : VM F S} {e : Stop (Fault F)}
    (h : VM.enterCall name vm = .error e vm') : vm'.memory = vm.memory := by
  have hget := VM.getFunction_within (R := Agree (VM.memory : VM F S → _)) name
  rcases Comp.bind_eq_error_iff.mp h with h | ⟨⟨params, body⟩, vm₁, h₁, h⟩
  · exact hget.error h
  · have hmem₁ : vm₁.memory = vm.memory := hget.ok h₁
    rcases Comp.bind_eq_error_iff.mp h with h | ⟨values, vm₂, _, h⟩
    · exact ((popArguments_memory _ _).error h).trans hmem₁
    · cases h

theorem exitCall_memory {name : String} {vm vm' : VM F S} (h : VM.exitCall name vm = .ok () vm') :
    vm'.memory.1 = vm.memory.1.popCallFrame.2 := by
  obtain ⟨frame?, vm₁, hpop, h⟩ := Comp.bind_eq_ok_iff.mp h
  cases hpop
  cases hlast : vm.memory.1.popCallFrame.1 with
  | none =>
    rw [hlast] at h
    cases h
  | some frame =>
    rw [hlast] at h
    cases hret : frame.returnValue with
    | none =>
      simp only [hret] at h
      cases h
      rfl
    | some v =>
      simp only [hret] at h
      cases h
      rfl

/-- Leaving a call pops its frame and pushes the return value, if there is one. -/
theorem exitCall_ok {vm : VM F S} {fs : List (TypedCallFrame F)} {frame : TypedCallFrame F}
    (hf : vm.memory.1.callFrames = fs ++ [frame]) (name : String) :
    ∃ vm', VM.exitCall name vm = .ok () vm' ∧ vm'.stack = frame.returnValue.toList ++ vm.stack := by
  have hpop : VM.popCallFrame vm = .ok (some frame)
      { vm with memory := ⟨vm.memory.1.popCallFrame.2, vm.memory.2.popCallFrame⟩ } := by
    simp [VM.popCallFrame, VMMemory.popCallFrame, hf]
  rw [VM.exitCall, Comp.bind_of_ok hpop]
  cases h : frame.returnValue with
  | none =>
    simp only [h]
    exact ⟨_, rfl, rfl⟩
  | some v =>
    simp only [h]
    exact ⟨_, rfl, rfl⟩

/-- `Return` keeps a copy of the top of the stack in the innermost frame. -/
theorem executeReturn_of_frame {vm : VM F S} {fs : List (TypedCallFrame F)}
    {frame : TypedCallFrame F} (hf : vm.memory.1.callFrames = fs ++ [frame])
    {r : TypedValue F} {base : VMStack F} (hs : vm.stack = r :: base) :
    ∃ vm', VM.executeReturn vm = .ok () vm' ∧ vm'.stack = r :: base ∧
      vm'.memory.1.callFrames = fs ++ [{ frame with returnValue := some r }] := by
  have hin : vm.memory.1.inFunctionCall = true :=
    vm.memory.2.inFunctionCall_iff.mpr ⟨fs, frame, hf⟩
  have htop : vm.stack.top = some r := by rw [hs]; rfl
  obtain ⟨hm, hset⟩ := VM.setReturnValue_of_frame hf r
  have hret : VM.executeReturn vm = VM.setReturnValue r vm := by
    rw [VM.executeReturn, Comp.bind_of_ok (show (get : Exec F S _) vm = .ok vm vm from rfl)]
    simp [hin, htop]
  exact ⟨_, hret.trans hset, hs, rfl⟩

end entering

/-! ### What stays out of reach inside a call -/

section above
variable {F : Type}

/-- The memory has `k` frames above the frames `fs`, and the globals are `globals`. -/
def Above (fs : List (TypedCallFrame F)) (globals : HashMap (TypedValue F)) (k : Nat)
    (m : VMMemory F) : Prop :=
  ∃ top, m.callFrames = fs ++ top ∧ top.length = k ∧ m.memory = globals

variable {fs : List (TypedCallFrame F)} {globals : HashMap (TypedValue F)} {k : Nat}
  {m m' : VMMemory F}

theorem Above.length (h : Above fs globals k m) : m.callFrames.length = fs.length + k := by
  obtain ⟨top, hf, rfl, -⟩ := h
  simp [hf]

theorem Above.push (h : Above fs globals k m) (name : String)
    (values : HashMap (TypedValue F)) :
    Above fs globals (k + 1) (m.pushCallFrame name values) := by
  obtain ⟨top, hf, rfl, hm⟩ := h
  exact ⟨top ++ [⟨∅, values, none, name⟩], by simp [VMMemory.pushCallFrame, hf], by simp, hm⟩

theorem Above.pop (h : Above fs globals (k + 1) m) : Above fs globals k m.popCallFrame.2 := by
  obtain ⟨top, hf, hlen, hm⟩ := h
  have hne : top ≠ [] := List.ne_nil_of_length_eq_add_one hlen
  refine ⟨top.dropLast, ?_, by simp [hlen], hm⟩
  simp [VMMemory.popCallFrame, hf, List.dropLast_append_of_ne_nil hne]

theorem Above.local (h : Above fs globals (k + 1) m) (hl : m.Local m') :
    Above fs globals (k + 1) m' := by
  obtain ⟨top, hf, hlen, hm⟩ := h
  have hne : top ≠ [] := List.ne_nil_of_length_eq_add_one hlen
  have hne' : m.callFrames ≠ [] := by simp [hf, hne]
  obtain ⟨fs', last, hf'⟩ : ∃ fs' last, m'.callFrames = fs' ++ [last] := by
    rcases List.eq_nil_or_concat m'.callFrames with h | ⟨fs', last, h⟩
    · have := hl.frames.length
      rw [h] at this
      exact absurd (List.length_eq_zero_iff.mp this.symm) hne'
    · exact ⟨fs', last, by rwa [List.concat_eq_append] at h⟩
  refine ⟨top.dropLast ++ [last], ?_, by simp [hlen], (hl.global hne').trans hm⟩
  have houter := hl.frames.outer
  rw [hf, hf', List.dropLast_concat, List.dropLast_append_of_ne_nil hne] at houter
  rw [hf', houter, List.append_assoc]

end above

/-! ### Balance -/

section balance
variable {F S : Type}

/-- As many frames above the scope of `vm₀` as there are active calls. -/
def Balanced (vm₀ : VM F S) (c : Config F S) : Prop :=
  ∃ fs globals, SameFrames vm₀.memory.1.callFrames fs ∧
    Above fs globals (calls c.frames) c.vm.memory.1

theorem Balanced.local {vm₀ : VM F S} {c c' : Config F S} (h : Balanced vm₀ c)
    (hcalls : calls c.frames = calls c'.frames) (hlocal : VM.Local c.vm c'.vm) :
    Balanced vm₀ c' := by
  obtain ⟨fs, globals, hfs, habove⟩ := h
  cases hk : calls c.frames with
  | zero =>
    -- outside every call the scope itself may change
    rw [hk] at habove
    obtain ⟨top, hf, htop, -⟩ := habove
    rw [List.length_eq_zero_iff.mp htop, List.append_nil] at hf
    refine ⟨_, _, hfs.trans (hf ▸ hlocal.frames), [], (List.append_nil _).symm, ?_, rfl⟩
    rw [← hcalls, hk]
    rfl
  | succ k =>
    rw [hk] at habove
    exact ⟨fs, globals, hfs, hcalls ▸ hk ▸ habove.local hlocal⟩

end balance

section steps
variable {F S : Type} [Number F] [StorageBackend S] [SerdeJson]

/-- The frame neither enters nor leaves a call. -/
def Frame.staysInScope : Frame F → Bool
  | .exec (.call _) _ => false
  | .call _ => false
  | _ => true

theorem start_local {op : Op F} (hop : ∀ name, op ≠ .call name) (next out : List (Frame F)) :
    Comp.Within VM.Local (Frame.start next out op : Exec F S _) := by
  cases op with
  | call name => exact absurd rfl (hop name)
  | ifOp condition thenOps elseOps => exact .pure _
  | loop count body => exact .pure _
  | whileOp condition body => exact .pure _
  | matchOp value cases default => exact .pure _
  | returnOp => exact VM.executeReturn_local.bind fun _ => .pure _
  | breakOp => exact .pure _
  | continueOp => exact .pure _
  | _ => exact (VM.executePlain_local _).bind fun _ => .pure _

theorem step_local {frame : Frame F} (h : frame.staysInScope = true) (rest : List (Frame F)) :
    Comp.Within VM.Local (frame.step rest : Exec F S _) := by
  have hpop : Comp.Within VM.Local (VM.pop : Exec F S _) := .of_within VM.pop_memory
  cases frame with
  | seq ops =>
    cases ops with
    | nil => exact .pure _
    | cons op ops => exact (VM.Local.of_within (VM.announce_memory op)).bind fun _ => .pure _
  | exec op ops =>
    refine start_local (fun name hop => ?_) _ _
    subst hop
    cases h
  | after => exact (VM.Local.of_within (VM.memory_of_core VM.recordStackAfter_core)).bind fun _ => .pure _
  | ifTest thenOps elseOps => exact hpop.bind fun _ => .pure _
  | loop remaining body => cases remaining <;> exact .pure _
  | whileLoop condition body => exact .pure _
  | whileTest condition body => exact hpop.bind fun _ => .pure _
  | matchTest cases default => exact hpop.bind fun _ => .pure _
  | call name => cases h

theorem start_calls {op : Op F} (hop : ∀ name, op ≠ .call name) {next out K : List (Frame F)}
    {vm vm' : VM F S} (hnext : calls next = calls out)
    (h : Frame.start next out op vm = .ok K vm') : calls K = calls out := by
  cases op with
  | call name => exact absurd rfl (hop name)
  | ifOp condition thenOps elseOps => cases h; exact hnext
  | loop count body => cases h; exact hnext
  | whileOp condition body => cases h; exact hnext
  | matchOp value cases default => cases h; exact hnext
  | returnOp =>
    obtain ⟨_, _, _, h⟩ := Comp.bind_eq_ok_iff.mp h
    cases h
    rfl
  | breakOp => cases h; rfl
  | continueOp => cases h; rfl
  | _ =>
    obtain ⟨flow, _, _, h⟩ := Comp.bind_eq_ok_iff.mp h
    cases h
    cases flow
    · exact hnext
    · rfl

theorem step_calls {frame : Frame F} (hframe : frame.staysInScope = true)
    {rest K : List (Frame F)} {vm vm' : VM F S} (h : frame.step rest vm = .ok K vm') :
    calls K = calls rest := by
  cases frame with
  | seq ops =>
    cases ops with
    | nil => cases h; rfl
    | cons op ops =>
      obtain ⟨simulated, _, _, h⟩ := Comp.bind_eq_ok_iff.mp h
      cases h
      cases simulated <;> rfl
  | exec op ops =>
    have hnext : calls (.after :: .seq ops :: rest) = calls rest := rfl
    refine start_calls (fun name hop => ?_) hnext h
    subst hop
    cases hframe
  | after =>
    obtain ⟨_, _, _, h⟩ := Comp.bind_eq_ok_iff.mp h
    cases h
    rfl
  | ifTest thenOps elseOps =>
    obtain ⟨_, _, _, h⟩ := Comp.bind_eq_ok_iff.mp h
    cases h
    exact calls_optional _ _
  | loop remaining body => cases remaining <;> cases h <;> rfl
  | whileLoop condition body => cases h; rfl
  | whileTest condition body =>
    obtain ⟨value, _, _, h⟩ := Comp.bind_eq_ok_iff.mp h
    cases h
    cases value.isFalsey <;> rfl
  | matchTest cases default =>
    obtain ⟨_, _, _, h⟩ := Comp.bind_eq_ok_iff.mp h
    cases h
    exact calls_optional _ _
  | call name => cases hframe

/-- A step enters a call, leaves one, or stays in the current scope. -/
theorem step_ok_cases {frame : Frame F} {rest K : List (Frame F)} {vm vm' : VM F S}
    (h : frame.step rest vm = .ok K vm') :
    (∃ name values, calls (frame :: rest) + 1 = calls K ∧
      vm'.memory.1 = vm.memory.1.pushCallFrame name values) ∨
    (calls (frame :: rest) = calls K + 1 ∧ vm'.memory.1 = vm.memory.1.popCallFrame.2) ∨
    (calls (frame :: rest) = calls K ∧ VM.Local vm vm') := by
  cases hframe : frame.staysInScope with
  | true =>
    refine .inr (.inr ⟨?_, (step_local hframe rest).ok h⟩)
    rw [step_calls hframe h]
    cases frame <;> first | rfl | cases hframe
  | false =>
    cases frame with
    | exec op ops =>
      cases op with
      | call name =>
        obtain ⟨body, vm₁, henter, h⟩ := Comp.bind_eq_ok_iff.mp h
        cases h
        obtain ⟨values, hmem⟩ := enterCall_memory henter
        exact .inl ⟨name, values, rfl, hmem⟩
      | _ => cases hframe
    | call name =>
      obtain ⟨_, vm₁, hexit, h⟩ := Comp.bind_eq_ok_iff.mp h
      cases h
      exact .inr (.inl ⟨rfl, exitCall_memory hexit⟩)
    | _ => cases hframe

/-- A step that fails leaves the scope as it was, unless it was to leave a call that is not
there. -/
theorem step_error_cases {frame : Frame F} {rest : List (Frame F)} {vm vm' : VM F S}
    {e : Stop (Fault F)} (h : frame.step rest vm = .error e vm') :
    VM.Local vm vm' ∨ (∃ name, frame = .call name) ∧ vm.memory.1.callFrames = [] := by
  cases hframe : frame.staysInScope with
  | true => exact .inl ((step_local hframe rest).error h)
  | false =>
    cases frame with
    | exec op ops =>
      cases op with
      | call name =>
        rcases Comp.bind_eq_error_iff.mp h with h | ⟨_, _, _, h⟩
        · exact .inl (.of_memory (enterCall_error h))
        · cases h
      | _ => cases hframe
    | call name =>
      refine .inr ⟨⟨name, rfl⟩, ?_⟩
      rcases List.eq_nil_or_concat vm.memory.1.callFrames with hf | ⟨fs, last, hf⟩
      · exact hf
      · rw [List.concat_eq_append] at hf
        obtain ⟨vm₁, hexit, -⟩ := exitCall_ok hf name
        rw [Frame.step, Comp.bind_of_ok hexit] at h
        cases h
    | _ => cases hframe

/-! ### Runs -/

theorem Balanced.step {vm₀ : VM F S} {c c' : Config F S} (h : Balanced vm₀ c)
    (hstep : machine.Step c c') : Balanced vm₀ c' := by
  obtain ⟨frame, rest, hc, hok⟩ := machine_step_ok hstep
  rcases step_ok_cases hok with ⟨name, values, hcalls, hm⟩ | ⟨hcalls, hm⟩ | ⟨hcalls, hlocal⟩
  · obtain ⟨fs, globals, hfs, habove⟩ := h
    rw [hc] at habove
    refine ⟨fs, globals, hfs, ?_⟩
    rw [hm, ← hcalls]
    exact habove.push name values
  · obtain ⟨fs, globals, hfs, habove⟩ := h
    rw [hc, hcalls] at habove
    refine ⟨fs, globals, hfs, ?_⟩
    rw [hm]
    exact habove.pop
  · exact h.local (hc ▸ hcalls) hlocal

/-- Also after a failed step the memory has one frame for each active call. -/
theorem Balanced.of_fault {vm₀ : VM F S} {c c' : Config F S} {e : Fault F} (h : Balanced vm₀ c)
    (hf : machine.Faults c e c') : Balanced vm₀ c' := by
  obtain ⟨frame, rest, hc, hc', herr⟩ := machine_faults hf
  rcases step_error_cases herr with hlocal | ⟨⟨name, rfl⟩, hnil⟩
  · exact h.local (by rw [hc, hc']) hlocal
  · obtain ⟨fs, globals, -, habove⟩ := h
    have hlen := habove.length
    rw [hnil, hc] at hlen
    simp [calls] at hlen

theorem Balanced.of_reaches {vm₀ : VM F S} {c c' : Config F S} (h : Balanced vm₀ c)
    (hr : machine.Reaches c c') : Balanced vm₀ c' :=
  hr.invariant (fun _ _ hs hst => hs.step hst) h

omit [Number F] [StorageBackend S] [SerdeJson] in
theorem optional_suffix (ops : Option (List (Op F))) (rest : List (Frame F)) :
    rest <:+ Frame.optional ops ++ rest := List.suffix_append _ _

theorem start_suffix {op : Op F} {next out K : List (Frame F)} {vm vm' : VM F S}
    (hnext : out <:+ next) (h : Frame.start next out op vm = .ok K vm') : out <:+ K := by
  have hcons (frame : Frame F) {K : List (Frame F)} (hK : out <:+ K) : out <:+ frame :: K :=
    hK.trans (List.suffix_cons frame K)
  cases op with
  | ifOp condition thenOps elseOps => cases h; exact hcons _ (hcons _ hnext)
  | loop count body => cases h; exact hcons _ hnext
  | whileOp condition body => cases h; exact hcons _ hnext
  | matchOp value cases default => cases h; exact hcons _ (hcons _ hnext)
  | call name =>
    obtain ⟨_, _, _, h⟩ := Comp.bind_eq_ok_iff.mp h
    cases h
    exact hcons _ (hcons _ hnext)
  | returnOp =>
    obtain ⟨_, _, _, h⟩ := Comp.bind_eq_ok_iff.mp h
    cases h
    exact List.suffix_refl _
  | breakOp => cases h; exact List.suffix_refl _
  | continueOp => cases h; exact List.suffix_refl _
  | _ =>
    obtain ⟨flow, _, _, h⟩ := Comp.bind_eq_ok_iff.mp h
    cases h
    cases flow
    · exact hnext
    · exact List.suffix_refl _

/-- A step only touches the innermost frame. -/
theorem step_suffix {frame : Frame F} {rest K : List (Frame F)} {vm vm' : VM F S}
    (h : frame.step rest vm = .ok K vm') : rest <:+ K := by
  have hcons (frame : Frame F) {K : List (Frame F)} (hK : rest <:+ K) : rest <:+ frame :: K :=
    hK.trans (List.suffix_cons frame K)
  have hrefl : rest <:+ rest := List.suffix_refl rest
  cases frame with
  | seq ops =>
    cases ops with
    | nil => cases h; exact hrefl
    | cons op ops =>
      obtain ⟨_, _, _, h⟩ := Comp.bind_eq_ok_iff.mp h
      cases h
      exact hcons _ hrefl
  | exec op ops => exact start_suffix (hcons _ (hcons _ hrefl)) h
  | loop remaining body =>
    cases remaining with
    | zero => cases h; exact hrefl
    | succ remaining => cases h; exact hcons _ (hcons _ hrefl)
  | whileLoop condition body => cases h; exact hcons _ (hcons _ hrefl)
  | whileTest condition body =>
    obtain ⟨value, _, _, h⟩ := Comp.bind_eq_ok_iff.mp h
    cases h
    cases value.isFalsey
    · exact hcons _ (hcons _ hrefl)
    · exact hrefl
  | after | ifTest | matchTest | call =>
    obtain ⟨_, _, _, h⟩ := Comp.bind_eq_ok_iff.mp h
    cases h
    first | exact hrefl | exact optional_suffix _ _

/-- A call entered in `vm` is active, or has just been left. -/
def Inside (name : String) (vm : VM F S) (c : Config F S) : Prop :=
  Above vm.memory.1.callFrames vm.memory.1.memory (calls c.frames) c.vm.memory.1 ∧
    (c.frames = [] ∨ [.call name] <:+ c.frames)

theorem Inside.step {name : String} {vm : VM F S} {c c' : Config F S} (h : Inside name vm c)
    (hstep : machine.Step c c') : Inside name vm c' := by
  obtain ⟨frame, rest, hc, hok⟩ := machine_step_ok hstep
  obtain ⟨habove, hnil | hsuffix⟩ := h
  · cases hc.symm.trans hnil
  rw [hc] at habove hsuffix
  have hpos : 0 < calls (frame :: rest) := by
    obtain ⟨K, hK⟩ := hsuffix
    rw [← hK, calls_append]
    exact Nat.lt_add_left _ Nat.one_pos
  constructor
  · rcases step_ok_cases hok with ⟨f, values, hcalls, hm⟩ | ⟨hcalls, hm⟩ | ⟨hcalls, hlocal⟩
    · rw [hm, ← hcalls]
      exact habove.push f values
    · rw [hcalls] at habove
      rw [hm]
      exact habove.pop
    · obtain ⟨k, hk⟩ : ∃ k, calls (frame :: rest) = k + 1 := ⟨_, (Nat.sub_add_cancel hpos).symm⟩
      rw [hk] at habove
      rw [← hcalls, hk]
      exact habove.local hlocal
  · rcases List.suffix_cons_iff.mp hsuffix with heq | hsuffix
    · obtain ⟨rfl, rfl⟩ := List.cons.inj heq
      obtain ⟨_, vm₁, _, hret⟩ := Comp.bind_eq_ok_iff.mp hok
      exact .inl (EStateM.Result.ok.inj hret).1.symm
    · exact .inr (hsuffix.trans (step_suffix hok))

theorem inside_of_reaches {name : String} {vm vm₁ : VM F S} {body : List (Op F)}
    (henter : VM.enterCall name vm = .ok body vm₁) {c : Config F S}
    (h : machine.Reaches ⟨[.seq body, .call name], vm₁⟩ c) : Inside name vm c := by
  refine h.invariant (P := Inside name vm) (fun _ _ hs hst => hs.step hst) ⟨?_, .inr ⟨[_], rfl⟩⟩
  obtain ⟨values, hm⟩ := enterCall_memory henter
  have hstart : Above vm.memory.1.callFrames vm.memory.1.memory 0 vm.memory.1 :=
    ⟨[], (List.append_nil _).symm, rfl, rfl⟩
  rw [hm]
  exact hstart.push name values

/-- Where a name is looked up: the locals, then the parameters, then the globals. -/
def resolve (frame : TypedCallFrame F) (globals : HashMap (TypedValue F)) (name : String) :
    Except (VMError F) (TypedValue F) :=
  match frame.memory.lookup name, frame.params.lookup name, globals.lookup name with
  | some v, _, _ => .ok v
  | none, some v, _ => .ok v
  | none, none, some v => .ok v
  | none, none, none => .error (.undefinedVariable name)

omit [Number F] [StorageBackend S] [SerdeJson] in
/-- Inside a call, names are looked up in the innermost frame and in the caller's globals. -/
theorem Inside.load {name : String} {vm : VM F S} {c : Config F S} (h : Inside name vm c)
    (hne : c.frames ≠ []) :
    ∃ between frame,
      c.vm.memory.1.callFrames = vm.memory.1.callFrames ++ between ++ [frame] ∧
      ∀ x, c.vm.memory.1.load x = resolve frame vm.memory.1.memory x := by
  obtain ⟨⟨top, hf, htop, hglobals⟩, hnil | hsuffix⟩ := h
  · exact absurd hnil hne
  rcases List.eq_nil_or_concat top with rfl | ⟨between, frame, rfl⟩
  · obtain ⟨K, hK⟩ := hsuffix
    rw [← hK, calls_append] at htop
    simp [calls] at htop
  · rw [List.concat_eq_append, ← List.append_assoc] at hf
    refine ⟨between, frame, hf, fun x => ?_⟩
    rw [VMMemory.load_of_frame c.vm.memory.2 hf, hglobals]
    rfl

/-- A call that ends with `Ok` takes its frame off again. -/
theorem above_of_callFunction {name : String} {vm vm' : VM F S}
    (h : VM.callFunction name vm (.ok () vm')) :
    Above vm.memory.1.callFrames vm.memory.1.memory 0 vm'.memory.1 := by
  rw [VM.callFunction_eq] at h
  obtain ⟨body, vm₁, henter, h⟩ := Sem.bind_ok_iff.mp h
  obtain ⟨_, vm₂, hbody, hexit⟩ := Sem.bind_ok_iff.mp h
  obtain ⟨habove, -⟩ := inside_of_reaches henter ((run_computes body [.call name]).ok hbody)
  rw [exitCall_memory hexit]
  exact habove.pop

/-- A call leaves the globals and all frames as they were. While it is active, the frames below its
own are as they were, and a name is looked up in the innermost frame and in the globals of the
caller. -/
theorem call_scoping (name : String) (vm : VM F S) :
    (∀ vm', VM.callFunction name vm (.ok () vm') →
      vm'.memory.1.memory = vm.memory.1.memory ∧
        vm'.memory.1.callFrames = vm.memory.1.callFrames) ∧
    ∀ body vm₁, VM.enterCall name vm = .ok body vm₁ →
      ∀ c, machine.Reaches ⟨[.seq body, .call name], vm₁⟩ c → c.frames ≠ [] →
        ∃ between frame,
          c.vm.memory.1.callFrames = vm.memory.1.callFrames ++ between ++ [frame] ∧
          ∀ x, c.vm.memory.1.load x = resolve frame vm.memory.1.memory x := by
  refine ⟨fun vm' h => ?_, fun body vm₁ henter c hreach hne =>
    (inside_of_reaches henter hreach).load hne⟩
  obtain ⟨top, hf, htop, hglobals⟩ := above_of_callFunction h
  rw [List.length_eq_zero_iff.mp htop, List.append_nil] at hf
  exact ⟨hglobals, hf⟩

/-! ### The calling convention -/

/-- What a call leaves when its body ends with `Return` at its top level. -/
theorem callFunction_of_return {name : String} {vm vm₁ vm₂ : VM F S} {body post : List (Op F)}
    {r : TypedValue F} {base : VMStack F} (henter : VM.enterCall name vm = .ok body vm₁)
    (hreach : machine.Reaches ⟨[.seq body, .call name], vm₁⟩
      ⟨[.exec .returnOp post, .call name], vm₂⟩)
    (hs : vm₂.stack = r :: base) :
    ∃ vm', VM.callFunction name vm (.ok () vm') ∧ vm'.stack = r :: r :: base := by
  obtain ⟨⟨top, hf, htop, -⟩, -⟩ := inside_of_reaches henter hreach
  obtain ⟨frame, rfl⟩ := List.length_eq_one_iff.mp htop
  obtain ⟨vm₃, hret, hs₃, hf₃⟩ := executeReturn_of_frame hf hs
  obtain ⟨vm', hexit, hs'⟩ := exitCall_ok hf₃ name
  refine ⟨vm', ?_, by rw [hs', hs₃]; rfl⟩
  have hstep₂ : (Frame.exec .returnOp post).step [.call name] vm₂ = .ok [.call name] vm₃ := by
    rw [Frame.step, Frame.start, Comp.bind_of_ok hret]
    rfl
  have hstep₃ : (Frame.call name).step [] vm₃ = .ok [] vm' := by
    rw [Frame.step, Comp.bind_of_ok hexit]
    rfl
  have hend : machine.Reaches ⟨[.seq body, .call name], vm₁⟩ ⟨[], vm'⟩ :=
    (hreach.tail (machine_step_of_ok hstep₂)).tail (machine_step_of_ok hstep₃)
  have hmeaning := meaning_of_outcome (hend.outcome ⟨0, .halt rfl⟩)
  rw [VM.callFunction_eq]
  refine Sem.bind_ok henter ?_
  simpa [meaning_cons, meaning_nil, Frame.meaning, Machine.Located.view, frames] using hmeaning

/-- A call whose body ends with a top-level `Return` of `r` leaves `r` twice, never once. -/
theorem call_leaves_result_twice {name : String} {vm : VM F S} {params : List String}
    {body : List (Op F)} {args base : VMStack F} {r : TypedValue F}
    (hf : vm.memory.1.functions.lookup name = some (params, body))
    (hs : vm.stack = args ++ base) (hn : args.length = params.length)
    (hret : ∀ vm₁, VM.enterCall name vm = .ok body vm₁ → ∃ post vm₂,
      machine.Reaches ⟨[.seq body, .call name], vm₁⟩
        ⟨[.exec .returnOp post, .call name], vm₂⟩ ∧ vm₂.stack = r :: base) :
    (∃ vm', VM.callFunction name vm (.ok () vm') ∧ vm'.stack = r :: r :: base) ∧
      ¬ ∃ vm', VM.callFunction name vm (.ok () vm') ∧ vm'.stack = r :: base := by
  obtain ⟨vm₁, henter, -⟩ := enterCall_ok hf hs hn
  obtain ⟨post, vm₂, hreach, hs₂⟩ := hret vm₁ henter
  obtain ⟨vm', hcall, hs'⟩ := callFunction_of_return henter hreach hs₂
  refine ⟨⟨vm', hcall, hs'⟩, ?_⟩
  rintro ⟨vm'', hcall', hs''⟩
  cases VM.callFunction_functional name vm _ _ hcall hcall'
  rw [hs'] at hs''
  simpa using congrArg List.length hs''

end steps

/-! ### A call of the identity function, and one that fails -/

open VM

/-- `f(x) = x`, about to be called with `true`. -/
def identityVm : VM Binary64 NoStorage :=
  { stackVm [.boolean true] with
    memory := ⟨VMMemory.new.defineFunction "f" ["x"] [.load "x", .returnOp], rfl⟩ }

theorem identity_returns (vm₁ : VM Binary64 NoStorage)
    (h : enterCall "f" identityVm = .ok [.load "x", .returnOp] vm₁) :
    ∃ post vm₂, machine.Reaches ⟨[.seq [.load "x", .returnOp], .call "f"], vm₁⟩
      ⟨[.exec .returnOp post, .call "f"], vm₂⟩ ∧ vm₂.stack = [.boolean true] := by
  cases h
  refine ⟨[], _, .head ⟨rfl, rfl⟩ (.head ⟨rfl, rfl⟩ (.head ⟨rfl, rfl⟩ (.single ⟨rfl, rfl⟩))), rfl⟩

theorem identity_leaves_result_twice :
    (∃ vm', callFunction "f" identityVm (.ok () vm') ∧
      vm'.stack = [.boolean true, .boolean true]) ∧
    ¬ ∃ vm', callFunction "f" identityVm (.ok () vm') ∧ vm'.stack = [.boolean true] := by
  have hstack : identityVm.stack = [.boolean true] ++ [] := rfl
  exact call_leaves_result_twice rfl hstack rfl identity_returns

theorem identity_does_not_leave_one_result :
    ∃ vm', run [.defOp "f" ["x"] [.load "x", .returnOp], .push (.boolean true), .call "f"]
        (stackVm []) (.ok () vm') ∧
      vm'.stack = [.boolean true, .boolean true] :=
  ⟨_, ⟨5, rfl⟩, rfl⟩

/-- Inside `f` the parameter is found; behind the call there is no frame. -/
theorem identity_scoping :
    (∃ vm', callFunction "f" identityVm (.ok () vm') ∧ vm'.memory.1.callFrames = []) ∧
    ∃ body vm₁, enterCall "f" identityVm = .ok body vm₁ ∧ ∃ frame,
      ∀ x, vm₁.memory.1.load x = resolve frame identityVm.memory.1.memory x := by
  obtain ⟨hafter, hinside⟩ := call_scoping "f" identityVm
  have hcall : callFunction "f" identityVm (.ok () _) := ⟨4, rfl⟩
  obtain ⟨_, frame, _, hload⟩ := hinside _ _ rfl _ .refl (List.cons_ne_nil _ _)
  exact ⟨⟨_, hcall, (hafter _ hcall).2⟩, _, _, rfl, frame, hload⟩

end Covm
