import Covm.Vm.Effects
import Covm.Vm.Machine
import Covm.Governance.Json

/-!
# Break, Continue and Return

`Break`, `Continue` and `Return` leave the op list they stand in and nothing else: the machine goes
on with the frames below, and what is run next is what these still have to do. `onward` follows
control down through a stack of frames. Lists at their end, loops without further iterations and
tests that choose no operation are passed; the others run something or fail. So a loop is left, or
a call ended, exactly if control gets past the frames between (`takesControlTo_iff`).
-/

namespace Covm

open Partial

theorem Flow.select_append {α : Type} (next out R : List α) (flow : Flow) :
    flow.select (next ++ R) (out ++ R) = flow.select next out ++ R := by
  cases flow <;> rfl

section control
variable {F S : Type}

/-! ### What is run next -/

/-- The operation that a frame is about to run. -/
def Frame.op? : Frame F → Option (Op F)
  | .seq (op :: _) => some op
  | .exec op _ => some op
  | _ => none

namespace Config

def op? (c : Config F S) : Option (Op F) := c.frames.head?.bind Frame.op?

/-- The same with more frames below. -/
def onTop (R : List (Frame F)) (c : Config F S) : Config F S := ⟨c.frames ++ R, c.vm⟩

/-- Control has not come down to the frames. -/
def Above (R : List (Frame F)) (c : Config F S) : Prop := ∃ K, K ≠ [] ∧ c.frames = K ++ R

theorem not_above (R : List (Frame F)) (vm : VM F S) : ¬ Above R ⟨R, vm⟩ := by
  rintro ⟨K, hK, hframes⟩
  exact hK (List.append_left_eq_self.mp hframes.symm)

theorem op?_onTop {c : Config F S} (h : c.frames ≠ []) (R : List (Frame F)) :
    (c.onTop R).op? = c.op? := by
  obtain ⟨frame, rest, hframes⟩ := List.exists_cons_of_ne_nil h
  rw [op?, op?, onTop, hframes]
  rfl

theorem frames_ne_nil {c : Config F S} (h : c.op? ≠ none) : c.frames ≠ [] := by
  intro hnil
  rw [op?, hnil] at h
  exact h rfl

end Config

/-- A run over `R` stays above `R`, or it comes down to `R` and goes on there. -/
theorem reaches_of_onTop {r q : Config F S → Config F S → Prop} {R : List (Frame F)}
    (hr : ∀ d d', d.frames ≠ [] → r (d.onTop R) d' → ∃ t, d' = t.onTop R ∧ q d t)
    {c c' : Config F S} (h : Relation.ReflTransGen r (c.onTop R) c') :
    (∃ t, c' = t.onTop R ∧ Relation.ReflTransGen q c t) ∨
      ∃ vm, Relation.ReflTransGen q c ⟨[], vm⟩ ∧ Relation.ReflTransGen r ⟨R, vm⟩ c' := by
  induction h with
  | refl => exact .inl ⟨c, rfl, .refl⟩
  | tail _ hstep ih =>
    rcases ih with ⟨t, rfl, ht⟩ | ⟨vm, hout, hrest⟩
    · by_cases hne : t.frames = []
      · obtain ⟨frames, vm⟩ := t
        cases hne
        exact .inr ⟨vm, ht, .single hstep⟩
      · obtain ⟨t', rfl, hstep'⟩ := hr t _ hne hstep
        exact .inl ⟨t', rfl, ht.tail hstep'⟩
    · exact .inr ⟨vm, hout, hrest.tail hstep⟩

variable [Number F] [StorageBackend S] [SerdeJson]

/-- A step that runs no operation. -/
def SilentStep (c c' : Config F S) : Prop := c.op? = none ∧ machine.Step c c'

/-- Control goes from `c` to `c'`, and no operation is run on the way. -/
def Silently : Config F S → Config F S → Prop := Relation.ReflTransGen SilentStep

/-- The operation executed at `c` takes control to the frames `K`, and no other one is run on the
way. -/
def TakesControlTo (c : Config F S) (K : List (Frame F)) : Prop :=
  ∃ c₁ vm', machine.Step c c₁ ∧ Silently c₁ ⟨K, vm'⟩

/-- After the operation executed at `c` no other one is run before control is back at the
frames `K`. -/
def RunsNothingAbove (c : Config F S) (K : List (Frame F)) : Prop :=
  ∀ c₁ c', machine.Step c c₁ →
    Relation.ReflTransGen (fun d d' => d.Above K ∧ machine.Step d d') c₁ c' → c'.Above K →
      c'.op? = none

/-! ### Frames below -/

theorem Frame.start_append (next out R : List (Frame F)) (op : Op F) :
    (Frame.start (next ++ R) (out ++ R) op : Exec F S _) =
      (· ++ R) <$> Frame.start next out op := by
  cases op <;> simp [Frame.start, Flow.select_append]

/-- A step does not look at the frames below. -/
theorem Frame.step_append (frame : Frame F) (rest R : List (Frame F)) :
    (frame.step (rest ++ R) : Exec F S _) = (· ++ R) <$> frame.step rest := by
  cases frame with
  | seq ops => cases ops <;> simp [Frame.step]
  | exec op ops => exact Frame.start_append (.after :: .seq ops :: rest) rest R op
  | after => simp [Frame.step]
  | ifTest thenOps elseOps => simp [Frame.step]
  | loop remaining body => cases remaining <;> simp [Frame.step]
  | whileLoop condition body => simp [Frame.step]
  | whileTest condition body =>
    simp only [Frame.step, map_bind, map_pure]
    refine congrArg _ (funext fun value => ?_)
    cases value.isFalsey <;> rfl
  | matchTest cases default => simp [Frame.step]
  | call name => simp [Frame.step]

theorem step_onTop {c c' : Config F S} (h : machine.Step c c') (R : List (Frame F)) :
    machine.Step (c.onTop R) (c'.onTop R) := by
  obtain ⟨frame, rest, hframes, hok⟩ := machine_step_ok h
  have hstep : frame.step (rest ++ R) c.vm = .ok (c'.frames ++ R) c'.vm := by
    rw [Frame.step_append, ← bind_pure_comp, Comp.bind_of_ok hok]
    rfl
  rw [Config.onTop, hframes]
  exact machine_step_of_ok hstep

/-- While frames are left above `R`, these take the step. -/
theorem step_of_onTop {c c' : Config F S} {R : List (Frame F)} (hne : c.frames ≠ [])
    (h : machine.Step (c.onTop R) c') : ∃ d, c' = d.onTop R ∧ machine.Step c d := by
  obtain ⟨frame, rest, hframes⟩ := List.exists_cons_of_ne_nil hne
  obtain ⟨frame', rest', hframes', hok⟩ := machine_step_ok h
  have hsame : frame :: (rest ++ R) = frame' :: rest' := by rw [← hframes', Config.onTop, hframes]; rfl
  obtain ⟨rfl, rfl⟩ := List.cons.inj hsame
  rw [Frame.step_append, ← bind_pure_comp] at hok
  obtain ⟨K, vm', hstep, hK⟩ := Comp.bind_eq_ok_iff.mp hok
  obtain ⟨frames', vm₁⟩ := c'
  obtain ⟨frames, vm⟩ := c
  cases hframes
  cases hK
  exact ⟨⟨K, vm₁⟩, rfl, machine_step_of_ok hstep⟩

theorem frames_ne_nil_of_step {c c' : Config F S} (h : machine.Step c c') : c.frames ≠ [] := by
  obtain ⟨frame, rest, hframes, -⟩ := machine_step_ok h
  rw [hframes]
  exact List.cons_ne_nil _ _

theorem silentStep_onTop {c c' : Config F S} (h : SilentStep c c') (R : List (Frame F)) :
    SilentStep (c.onTop R) (c'.onTop R) :=
  ⟨(Config.op?_onTop (frames_ne_nil_of_step h.2) R).trans h.1, step_onTop h.2 R⟩

theorem Silently.onTop {c c' : Config F S} (h : Silently c c') (R : List (Frame F)) :
    Silently (c.onTop R) (c'.onTop R) :=
  Relation.ReflTransGen.lift (Config.onTop R) (fun _ _ hstep => silentStep_onTop hstep R) _ _ h

/-! ### The end of a silent run -/

def Stuck (c : Config F S) : Prop := ∀ c', ¬ machine.Step c c'

theorem stuck_nil (vm : VM F S) : Stuck (⟨[], vm⟩ : Config F S) := by
  intro c' h
  exact frames_ne_nil_of_step h rfl

/-- Whatever a silent run that gets stuck comes through, it goes on silently. -/
theorem Silently.of_reaches {c c' t : Config F S} (h : Silently c t) (ht : Stuck t)
    (hc : machine.Reaches c c') : Silently c' t := by
  induction hc with
  | refl => exact h
  | tail _ hstep ih =>
    rcases Relation.ReflTransGen.cases_head ih with rfl | ⟨d, hfirst, hrest⟩
    · exact absurd hstep (ht _)
    · cases hfirst.2.deterministic hstep
      exact hrest

theorem Silently.reaches {c c' : Config F S} (h : Silently c c') : machine.Reaches c c' :=
  Relation.ReflTransGen.mono (fun _ _ hstep => hstep.2) _ _ h

theorem Silently.eq_of_stuck {c c' : Config F S} (h : Silently c c') (hc : Stuck c) : c = c' := by
  rcases Relation.ReflTransGen.cases_head h with heq | ⟨d, hstep, -⟩
  · exact heq
  · exact absurd hstep.2 (hc d)

/-- On a silent run to where nothing is run, nothing is run. -/
theorem Silently.op?_eq_none {c t : Config F S} (h : Silently c t) (ht : t.op? = none) :
    c.op? = none := by
  rcases Relation.ReflTransGen.cases_head h with rfl | ⟨d, hstep, -⟩
  · exact ht
  · exact hstep.1

end control

/-! ### Down through the frames -/

/-- What becomes of control in frames. -/
inductive Onward (F S : Type) where
  /-- It gets past them. -/
  | past (vm : VM F S)
  /-- An operation is run. -/
  | runs
  /-- There is an error before that: a test finds no value. -/
  | fails

namespace Onward
variable {F S : Type}

def andThen (k : VM F S → Onward F S) : Onward F S → Onward F S
  | past vm => k vm
  | runs => runs
  | fails => fails

/-- A chosen block, if there is one. -/
def block (vm : VM F S) : Option (List (Op F)) → Onward F S
  | some (_ :: _) => runs
  | _ => past vm

/-- The value that a test takes off the stack chooses a block. -/
def test (choice : TypedValue F → Option (List (Op F))) (vm : VM F S) : Onward F S :=
  match vm.stack with
  | [] => fails
  | value :: rest => block { vm with stack := rest } (choice value)

/-- The test of a `While`. Without any operations it is tested again. -/
def whileTest [Number F] (condition body : List (Op F)) : VMStack F → VM F S → Onward F S
  | [], _ => fails
  | value :: rest, vm =>
    if value.isFalsey then past { vm with stack := rest }
    else if condition.isEmpty && body.isEmpty then
      whileTest condition body rest { vm with stack := rest }
    else runs

end Onward

variable {F S : Type} [Number F]

def Frame.onward (vm : VM F S) : Frame F → Onward F S
  | .seq ops => .block vm (some ops)
  | .exec _ _ => .runs
  | .after => .past (final (VM.recordStackAfter vm))
  | .ifTest thenOps elseOps =>
    .test (fun value => if !value.isFalsey then some thenOps else elseOps) vm
  | .loop 0 _ => .past vm
  | .loop (_ + 1) body => .block vm (some body)
  | .whileLoop [] body => .whileTest [] body vm.stack vm
  | .whileLoop (_ :: _) _ => .runs
  | .whileTest condition body => .whileTest condition body vm.stack vm
  | .matchTest cases default => .test (VM.selectCase · cases default) vm
  | .call name =>
    match VM.exitCall name vm with
    | .ok () vm' => .past vm'
    | .error _ _ => .fails

def onward : List (Frame F) → VM F S → Onward F S
  | [], vm => .past vm
  | frame :: rest, vm => (frame.onward vm).andThen (onward rest)

section onward
variable [StorageBackend S] [SerdeJson]

/-- What becomes of control at `c`, in terms of the machine. -/
def Onward.Describes (c : Config F S) : Onward F S → Prop
  | past vm => Silently c ⟨[], vm⟩
  | runs => ∃ c', Silently c c' ∧ c'.op? ≠ none
  | fails => ∃ c', Silently c c' ∧ c'.op? = none ∧ c'.frames ≠ [] ∧ Stuck c'

theorem Onward.Describes.of_silently {c c' : Config F S} {o : Onward F S} (h : o.Describes c')
    (hc : Silently c c') : o.Describes c := by
  cases o with
  | past vm => exact Relation.ReflTransGen.trans hc h
  | runs =>
    obtain ⟨t, ht, hop⟩ := h
    exact ⟨t, hc.trans ht, hop⟩
  | fails =>
    obtain ⟨t, ht, hstuck⟩ := h
    exact ⟨t, hc.trans ht, hstuck⟩

theorem Onward.Describes.head {c c' : Config F S} {o : Onward F S} (h : o.Describes c')
    (hstep : SilentStep c c') : o.Describes c := h.of_silently (.single hstep)

theorem silentStep_of_ok {frame : Frame F} {rest K : List (Frame F)} {vm vm' : VM F S}
    (hop : frame.op? = none) (h : frame.step rest vm = .ok K vm') :
    SilentStep ⟨frame :: rest, vm⟩ ⟨K, vm'⟩ := ⟨hop, machine_step_of_ok h⟩

theorem describes_runs {frame : Frame F} {op : Op F} (h : frame.op? = some op)
    (rest : List (Frame F)) (vm : VM F S) :
    Onward.runs.Describes (⟨frame :: rest, vm⟩ : Config F S) := by
  refine ⟨_, .refl, ?_⟩
  show frame.op? ≠ none
  rw [h]
  exact Option.some_ne_none op

theorem describes_fails {frame : Frame F} {vm vm' : VM F S} {e : Stop (Fault F)}
    (hop : frame.op? = none) (h : frame.step [] vm = .error e vm') :
    Onward.fails.Describes (⟨[frame], vm⟩ : Config F S) := by
  refine ⟨_, .refl, hop, List.cons_ne_nil _ _, fun c' hstep => ?_⟩
  obtain ⟨frame', rest', hframes, hok⟩ := machine_step_ok hstep
  cases hframes
  cases h.symm.trans hok

theorem describes_seq (ops : List (Op F)) (vm : VM F S) :
    (Onward.block vm (some ops)).Describes ⟨[.seq ops], vm⟩ := by
  cases ops with
  | nil => exact .single (silentStep_of_ok rfl rfl)
  | cons op ops => exact describes_runs rfl [] vm

theorem describes_optional (ops : Option (List (Op F))) (vm : VM F S) :
    (Onward.block vm ops).Describes ⟨Frame.optional ops ++ [], vm⟩ := by
  cases ops with
  | none => exact .refl
  | some ops => exact describes_seq ops vm

/-- The test of an `If` or a `Match`. -/
theorem describes_test {frame : Frame F} {choice : TypedValue F → Option (List (Op F))}
    (hop : frame.op? = none) (hframe : frame.step [] = (do
      let value ← VM.pop
      return Frame.optional (choice value) ++ [] : Exec F S _)) (vm : VM F S) :
    (Onward.test choice vm).Describes ⟨[frame], vm⟩ := by
  unfold Onward.test
  split
  · next hstack =>
    have herror : frame.step [] vm = .error (.fault (.error .stackUnderflow)) vm := by
      rw [hframe]
      exact Comp.bind_of_error (VM.pop_of_nil hstack)
    exact describes_fails hop herror
  · next value rest hstack =>
    refine (describes_optional (choice value) _).head (silentStep_of_ok hop ?_)
    rw [hframe]
    exact Comp.bind_of_ok (VM.pop_of_cons hstack)

theorem describes_loop (remaining : Nat) (body : List (Op F)) (vm : VM F S) :
    ((Frame.loop remaining body).onward vm).Describes ⟨[.loop remaining body], vm⟩ := by
  induction remaining with
  | zero => exact .single (silentStep_of_ok rfl rfl)
  | succ remaining ih =>
    refine Onward.Describes.head ?_ (silentStep_of_ok rfl rfl)
    cases body with
    | nil =>
      -- an iteration of an empty body
      refine Onward.Describes.head ?_ (silentStep_of_ok rfl rfl)
      cases remaining <;> exact ih
    | cons op body => exact describes_runs rfl _ vm

theorem describes_whileLoop {condition body : List (Op F)} {vm : VM F S} {o : Onward F S}
    (hruns : condition ≠ [] → o = .runs)
    (htest : condition = [] → o.Describes ⟨[.whileTest [] body], vm⟩) :
    o.Describes ⟨[.whileLoop condition body], vm⟩ := by
  refine Onward.Describes.head ?_ (silentStep_of_ok rfl rfl)
  cases condition with
  | nil => exact (htest rfl).head (silentStep_of_ok rfl rfl)
  | cons op condition =>
    rw [hruns (List.cons_ne_nil _ _)]
    exact describes_runs rfl _ vm

theorem describes_whileTest (condition body : List (Op F)) (vm : VM F S) :
    (Onward.whileTest condition body vm.stack vm).Describes ⟨[.whileTest condition body], vm⟩ := by
  generalize hstack : vm.stack = stack
  induction stack generalizing vm with
  | nil =>
    exact describes_fails rfl (Comp.bind_of_error (VM.pop_of_nil hstack))
  | cons value rest ih =>
    have hpop := VM.pop_of_cons hstack
    rw [Onward.whileTest]
    split_ifs with hfalsey hempty
    · refine .single (silentStep_of_ok rfl ((Comp.bind_of_ok hpop).trans ?_))
      rw [hfalsey]
      rfl
    all_goals
      have hstep : SilentStep (⟨[.whileTest condition body], vm⟩ : Config F S)
          ⟨[.seq body, .whileLoop condition body], { vm with stack := rest }⟩ := by
        refine silentStep_of_ok rfl ((Comp.bind_of_ok hpop).trans ?_)
        rw [Bool.not_eq_true] at hfalsey
        rw [hfalsey]
        rfl
      refine Onward.Describes.head ?_ hstep
    · obtain ⟨hcondition, hbody⟩ := Bool.and_eq_true_iff.mp hempty
      rw [List.isEmpty_iff] at hcondition hbody
      subst hcondition hbody
      refine Onward.Describes.head ?_ (silentStep_of_ok rfl rfl)
      exact describes_whileLoop (absurd rfl) fun _ => ih _ rfl
    · cases body with
      | nil =>
        refine Onward.Describes.head ?_ (silentStep_of_ok rfl rfl)
        refine describes_whileLoop (fun _ => rfl) fun hcondition => ?_
        rw [hcondition] at hempty
        exact absurd rfl hempty
      | cons op body => exact describes_runs rfl _ _

theorem Frame.onward_describes (frame : Frame F) (vm : VM F S) :
    (frame.onward vm).Describes ⟨[frame], vm⟩ := by
  cases frame with
  | seq ops => exact describes_seq ops vm
  | exec op ops => exact describes_runs rfl [] vm
  | after =>
    obtain ⟨vm', hrecord⟩ := VM.recordStackAfter_ok vm
    rw [Frame.onward, hrecord]
    exact .single (silentStep_of_ok rfl (Comp.bind_of_ok hrecord))
  | ifTest thenOps elseOps => exact describes_test rfl rfl vm
  | loop remaining body => exact describes_loop remaining body vm
  | whileLoop condition body =>
    cases condition with
    | nil => exact describes_whileLoop (absurd rfl) fun _ => describes_whileTest [] body vm
    | cons op condition => exact describes_whileLoop (fun _ => rfl) fun h => nomatch h
  | whileTest condition body => exact describes_whileTest condition body vm
  | matchTest cases default => exact describes_test rfl rfl vm
  | call name =>
    rw [Frame.onward]
    split
    · next hexit => exact .single (silentStep_of_ok rfl (Comp.bind_of_ok hexit))
    · next hexit => exact describes_fails rfl (Comp.bind_of_error hexit)

theorem Onward.Describes.onTop {c : Config F S} {o : Onward F S} (h : o.Describes c)
    {R : List (Frame F)} {k : VM F S → Onward F S} (hk : ∀ vm, (k vm).Describes ⟨R, vm⟩) :
    (o.andThen k).Describes (c.onTop R) := by
  cases o with
  | past vm => exact (hk vm).of_silently (Silently.onTop h R)
  | runs =>
    obtain ⟨t, ht, hop⟩ := h
    refine ⟨t.onTop R, ht.onTop R, ?_⟩
    rwa [Config.op?_onTop (Config.frames_ne_nil hop)]
  | fails =>
    obtain ⟨t, ht, hop, hne, hstuck⟩ := h
    refine ⟨t.onTop R, ht.onTop R, (Config.op?_onTop hne R).trans hop, ?_, fun c' hstep => ?_⟩
    · exact List.append_ne_nil_of_left_ne_nil hne R
    · obtain ⟨d, -, hd⟩ := step_of_onTop hne hstep
      exact hstuck d hd

theorem onward_describes (K : List (Frame F)) (vm : VM F S) :
    (onward K vm).Describes ⟨K, vm⟩ := by
  induction K generalizing vm with
  | nil => exact .refl
  | cons frame K ih => exact (frame.onward_describes vm).onTop ih

theorem onward_eq_past_iff {K : List (Frame F)} {vm vm' : VM F S} :
    onward K vm = .past vm' ↔ Silently ⟨K, vm⟩ ⟨[], vm'⟩ := by
  have hdescribes := onward_describes K vm
  constructor
  · intro h
    rwa [h] at hdescribes
  · intro h
    have hrest {t : Config F S} (ht : Silently ⟨K, vm⟩ t) : Silently t ⟨[], vm'⟩ :=
      h.of_reaches (stuck_nil vm') ht.reaches
    cases honward : onward K vm with
    | past vm₁ =>
      rw [honward] at hdescribes
      cases (hrest hdescribes).eq_of_stuck (stuck_nil vm₁)
      rfl
    | runs =>
      rw [honward] at hdescribes
      obtain ⟨t, ht, hop⟩ := hdescribes
      exact absurd ((hrest ht).op?_eq_none rfl) hop
    | fails =>
      rw [honward] at hdescribes
      obtain ⟨t, ht, -, hne, hstuck⟩ := hdescribes
      exact absurd (congrArg Config.frames ((hrest ht).eq_of_stuck hstuck)) hne

theorem onward_ne_runs_iff {K : List (Frame F)} {vm : VM F S} :
    onward K vm ≠ .runs ↔ ∀ c', machine.Reaches ⟨K, vm⟩ c' → c'.op? = none := by
  have hdescribes := onward_describes K vm
  cases honward : onward K vm with
  | past vm' =>
    rw [honward] at hdescribes
    refine iff_of_true (fun h => nomatch h) fun c' hc' => ?_
    exact (Silently.of_reaches hdescribes (stuck_nil vm') hc').op?_eq_none rfl
  | runs =>
    rw [honward] at hdescribes
    obtain ⟨t, ht, hop⟩ := hdescribes
    exact iff_of_false (absurd rfl) fun h => hop (h t ht.reaches)
  | fails =>
    rw [honward] at hdescribes
    obtain ⟨t, ht, hop, -, hstuck⟩ := hdescribes
    exact iff_of_true (fun h => nomatch h) fun c' hc' =>
      (ht.of_reaches hstuck hc').op?_eq_none hop

/-! ### Back to the caller, and to the loop -/

/-- An operation takes control to the frames below `K`. -/
theorem takesControlTo_iff {c : Config F S} {K rest : List (Frame F)} {vm : VM F S}
    (h : machine.Step c ⟨K ++ rest, vm⟩) :
    TakesControlTo c rest ↔ ∃ vm', onward K vm = .past vm' := by
  simp only [onward_eq_past_iff]
  constructor
  · rintro ⟨c₁, vm', hstep, hsilent⟩
    cases h.deterministic hstep
    have hlifted : Silently (Config.onTop rest ⟨K, vm⟩) ⟨rest, vm'⟩ := hsilent
    obtain ⟨t, ht, hrun⟩ | ⟨vm₁, hout, -⟩ := reaches_of_onTop (q := SilentStep) (fun d d' hne hd => by
      obtain ⟨t, ht, hstep⟩ := step_of_onTop hne hd.2
      exact ⟨t, ht, (Config.op?_onTop hne rest).symm.trans hd.1, hstep⟩) hlifted
    · obtain ⟨frames, vm₁⟩ := t
      have hnil : frames = [] := by
        have hframes : rest = frames ++ rest := congrArg Config.frames ht
        simpa using hframes
      exact ⟨vm₁, hnil ▸ hrun⟩
    · exact ⟨vm₁, hout⟩
  · rintro ⟨vm', hsilent⟩
    exact ⟨_, vm', h, hsilent.onTop rest⟩

/-- After an operation nothing is run above the frames below `K`. -/
theorem runsNothingAbove_iff {c : Config F S} {K rest : List (Frame F)} {vm : VM F S}
    (h : machine.Step c ⟨K ++ rest, vm⟩) : RunsNothingAbove c rest ↔ onward K vm ≠ .runs := by
  rw [onward_ne_runs_iff]
  constructor
  · intro hnothing c' hc'
    by_cases hne : c'.frames = []
    · rw [Config.op?, hne]
      rfl
    · rw [← Config.op?_onTop hne rest]
      refine hnothing _ (c'.onTop rest) h ?_ ⟨c'.frames, hne, rfl⟩
      exact Relation.ReflTransGen.lift (Config.onTop rest)
        (fun d d' hd => ⟨⟨d.frames, frames_ne_nil_of_step hd, rfl⟩, step_onTop hd rest⟩) _ _ hc'
  · rintro hnothing c₁ c' hstep hrun habove
    cases h.deterministic hstep
    have hlifted : Relation.ReflTransGen (fun d d' => d.Above rest ∧ machine.Step d d')
        (Config.onTop rest ⟨K, vm⟩) c' := hrun
    obtain ⟨t, rfl, ht⟩ | ⟨vm', -, hrest⟩ := reaches_of_onTop (q := machine.Step)
      (fun d d' hne hd => step_of_onTop hne hd.2) hlifted
    · have hne : t.frames ≠ [] := by
        obtain ⟨K', hK', hframes⟩ := habove
        rwa [List.append_cancel_right (show t.frames ++ rest = K' ++ rest from hframes)]
      exact (Config.op?_onTop hne rest).trans (hnothing t ht)
    · rcases Relation.ReflTransGen.cases_head hrest with rfl | ⟨d, hstep', -⟩
      · exact absurd habove (Config.not_above rest vm')
      · exact absurd hstep'.1 (Config.not_above rest vm')

/-! ### Out of a loop -/

def Frame.isLoop : Frame F → Bool
  | .loop _ _ => true
  | .whileLoop _ _ => true
  | _ => false

/-- The machine is in an iteration of the loop above the frames `rest`. -/
def Config.InIteration (rest : List (Frame F)) (c : Config F S) : Prop :=
  ∃ loop : Frame F, loop.isLoop = true ∧ c.Above (loop :: rest)

/-- A step of the machine after a `Break`: it runs no operation of the iteration and begins no
iteration. -/
structure StepOutside (rest : List (Frame F)) (c c' : Config F S) : Prop where
  step : machine.Step c c'
  runs : c.InIteration rest → c.op? = none
  begins : c'.InIteration rest → c.InIteration rest

/-- The operation executed at `c` leaves the loop above the frames `rest`: no further operation of
the iteration and no further iteration is run, and the machine goes on with `rest`. The condition
of a `While` may be tested once more. -/
def LeavesLoop (c : Config F S) (rest : List (Frame F)) : Prop :=
  ∃ c₁ vm', machine.Step c c₁ ∧ Relation.ReflTransGen (StepOutside rest) c₁ ⟨rest, vm'⟩

omit [Number F] [StorageBackend S] [SerdeJson] in
theorem ne_append_cons (K : List (Frame F)) (frame : Frame F) (rest : List (Frame F)) :
    rest ≠ K ++ frame :: rest := by
  intro h
  have hlength := congrArg List.length h
  simp only [List.length_append, List.length_cons] at hlength
  omega

omit [Number F] [StorageBackend S] [SerdeJson] in
theorem inIteration_onTop_iff {frame : Frame F} {rest : List (Frame F)} {c : Config F S} :
    (c.onTop (frame :: rest)).InIteration rest ↔ frame.isLoop = true ∧ c.frames ≠ [] := by
  constructor
  · rintro ⟨loop, hloop, K, hK, hframes⟩
    obtain ⟨hc, hrest⟩ := List.append_inj' hframes rfl
    obtain ⟨rfl, -⟩ := List.cons.inj hrest
    exact ⟨hloop, hc ▸ hK⟩
  · rintro ⟨hloop, hne⟩
    exact ⟨frame, hloop, c.frames, hne, rfl⟩

omit [Number F] [StorageBackend S] [SerdeJson] in
theorem not_inIteration (rest : List (Frame F)) (vm : VM F S) :
    ¬ Config.InIteration rest ⟨rest, vm⟩ := by
  rintro ⟨loop, -, K, -, hframes⟩
  exact ne_append_cons K loop rest hframes

omit [Number F] [StorageBackend S] [SerdeJson] in
theorem not_inIteration_cons (frame : Frame F) (rest : List (Frame F)) (vm : VM F S) :
    ¬ Config.InIteration rest ⟨frame :: rest, vm⟩ := fun h =>
  (inIteration_onTop_iff (c := ⟨[], vm⟩).mp h).2 rfl

/-- What runs above the test of a `While` is outside of the iterations. -/
theorem StepOutside.of_whileTest {c c' : Config F S} (h : machine.Step c c')
    (condition body : List (Op F)) (rest : List (Frame F)) :
    StepOutside rest (c.onTop (.whileTest condition body :: rest))
      (c'.onTop (.whileTest condition body :: rest)) :=
  ⟨step_onTop h _, fun hin => (nomatch (inIteration_onTop_iff.mp hin).1),
    fun hin => (nomatch (inIteration_onTop_iff.mp hin).1)⟩

theorem StepOutside.of_silentStep {c c' : Config F S} (h : SilentStep c c') {loop : Frame F}
    (hloop : loop.isLoop = true) (rest : List (Frame F)) :
    StepOutside rest (c.onTop (loop :: rest)) (c'.onTop (loop :: rest)) where
  step := step_onTop h.2 _
  runs _ := (silentStep_onTop h _).1
  begins _ := inIteration_onTop_iff.mpr ⟨hloop, frames_ne_nil_of_step h.2⟩

/-- `Break` comes to the loop through the frames between, and the loop ends then. -/
theorem leavesLoop_iff {c : Config F S} {inner rest : List (Frame F)} {loop : Frame F}
    {vm : VM F S} (hloop : loop.isLoop = true) (h : machine.Step c ⟨inner ++ loop :: rest, vm⟩) :
    LeavesLoop c rest ↔ ∃ vm', onward inner vm = .past vm' ∧
      ∃ vm'', Relation.ReflTransGen (StepOutside rest) ⟨loop :: rest, vm'⟩ ⟨rest, vm''⟩ := by
  simp only [onward_eq_past_iff]
  constructor
  · rintro ⟨c₁, vm'', hstep, hrun⟩
    cases h.deterministic hstep
    have hlifted : Relation.ReflTransGen (StepOutside rest)
      (Config.onTop (loop :: rest) ⟨inner, vm⟩) ⟨rest, vm''⟩ := hrun
    obtain ⟨t, ht, -⟩ | ⟨vm', hout, hend⟩ := reaches_of_onTop (q := SilentStep) (fun d d' hne hd => by
      obtain ⟨t, ht, hstep⟩ := step_of_onTop hne hd.step
      have hop := hd.runs (inIteration_onTop_iff.mpr ⟨hloop, hne⟩)
      exact ⟨t, ht, (Config.op?_onTop hne _).symm.trans hop, hstep⟩) hlifted
    · exact absurd (congrArg Config.frames ht) (ne_append_cons t.frames loop rest)
    · exact ⟨vm', hout, vm'', hend⟩
  · rintro ⟨vm', hout, vm'', hend⟩
    refine ⟨_, vm'', h, Relation.ReflTransGen.trans ?_ hend⟩
    exact Relation.ReflTransGen.lift (Config.onTop (loop :: rest))
      (fun _ _ hd => StepOutside.of_silentStep hd hloop rest) _ _ hout

/-- A `Loop` ends without a further iteration exactly if none is left. -/
theorem loop_ends_iff {remaining : Nat} {body : List (Op F)} {rest : List (Frame F)}
    {vm : VM F S} :
    (∃ vm', Relation.ReflTransGen (StepOutside rest) ⟨.loop remaining body :: rest, vm⟩
      ⟨rest, vm'⟩) ↔ remaining = 0 := by
  constructor
  · rintro ⟨vm', hrun⟩
    rcases Relation.ReflTransGen.cases_head hrun with heq | ⟨d, hd, -⟩
    · exact absurd (congrArg Config.frames heq) (List.cons_ne_self _ _)
    · cases remaining with
      | zero => rfl
      | succ remaining =>
        cases (machine_step_of_ok rfl : machine.Step _
          ⟨.seq body :: .loop remaining body :: rest, vm⟩).deterministic hd.step
        refine absurd (hd.begins ?_) (not_inIteration_cons _ rest vm)
        exact ⟨.loop remaining body, rfl, [.seq body], List.cons_ne_nil _ _, rfl⟩
  · rintro rfl
    refine ⟨vm, .single ⟨machine_step_of_ok rfl, fun hin => ?_, fun hin => ?_⟩⟩
    · exact absurd hin (not_inIteration_cons _ rest vm)
    · exact absurd hin (not_inIteration rest vm)

/-- The condition of a `While` ends with a falsey value. -/
theorem test_false_iff {condition : List (Op F)} {vm vm' : VM F S} :
    VM.limit.test condition vm (.ok false vm') ↔
      ∃ vm₁ value stack, VM.run condition vm (.ok () vm₁) ∧ vm₁.stack = value :: stack ∧
        value.isFalsey = true ∧ vm' = { vm₁ with stack := stack } := by
  simp only [VM.Runner.test, Sem.bind_ok_iff, VM.limit_block, VM.limit_lift]
  constructor
  · rintro ⟨⟨⟩, vm₁, hrun, value, vm₂, hpop, hvalue⟩
    rw [ends_iff, embed_ok] at hpop
    cases hstack : vm₁.stack with
    | nil => cases (VM.pop_of_nil hstack).symm.trans hpop
    | cons top stack =>
      obtain ⟨hfalsey, rfl⟩ := EStateM.Result.ok.inj (Sem.pure_iff.mp hvalue)
      cases (VM.pop_of_cons hstack).symm.trans hpop
      exact ⟨vm₁, value, stack, hrun, hstack, (Bool.not_eq_false' _).mp hfalsey.symm, rfl⟩
  · rintro ⟨vm₁, value, stack, hrun, hstack, hfalsey, rfl⟩
    refine ⟨(), vm₁, hrun, value, _, VM.pop_of_cons hstack, ?_⟩
    rw [hfalsey]
    rfl

/-- A `While` ends without a further iteration exactly if its condition is falsey. -/
theorem while_ends_iff {condition body : List (Op F)} {rest : List (Frame F)} {vm : VM F S} :
    (∃ vm', Relation.ReflTransGen (StepOutside rest) ⟨.whileLoop condition body :: rest, vm⟩
      ⟨rest, vm'⟩) ↔ ∃ vm', VM.limit.test condition vm (.ok false vm') := by
  have hfirst : machine.Step (⟨.whileLoop condition body :: rest, vm⟩ : Config F S)
      (Config.onTop (.whileTest condition body :: rest) ⟨[.seq condition], vm⟩) :=
    machine_step_of_ok rfl
  simp only [test_false_iff]
  constructor
  · rintro ⟨vm', hrun⟩
    rcases Relation.ReflTransGen.cases_head hrun with heq | ⟨d, hd, hrun⟩
    · exact absurd (congrArg Config.frames heq) (List.cons_ne_self _ _)
    cases hfirst.deterministic hd.step
    obtain ⟨t, ht, -⟩ | ⟨vm₁, hcondition, hend⟩ :=
      reaches_of_onTop (q := machine.Step) (fun d d' hne hd => step_of_onTop hne hd.step) hrun
    · exact absurd (congrArg Config.frames ht) (ne_append_cons t.frames _ rest)
    have hends : VM.run condition vm (.ok () vm₁) :=
      run_iff_outcome.mpr ⟨.ok () ⟨[], vm₁⟩,
        Machine.outcome_iff_reaches.mpr ⟨_, hcondition, .inl ⟨rfl, rfl⟩⟩, rfl⟩
    rcases Relation.ReflTransGen.cases_head hend with heq | ⟨d, hd, -⟩
    · exact absurd (congrArg Config.frames heq) (List.cons_ne_self _ _)
    obtain ⟨frames, vm₂⟩ := d
    obtain ⟨frame, rest', hframes, hok⟩ := machine_step_ok hd.step
    cases hframes
    obtain ⟨value, vm₂, hpop, hnext⟩ := Comp.bind_eq_ok_iff.mp hok
    cases hstack : vm₁.stack with
    | nil => cases (VM.pop_of_nil hstack).symm.trans hpop
    | cons top stack =>
      cases (VM.pop_of_cons hstack).symm.trans hpop
      cases hfalsey : value.isFalsey with
      | true => exact ⟨_, vm₁, value, stack, hends, hstack, hfalsey, rfl⟩
      | false =>
        rw [hfalsey] at hnext
        cases hnext
        refine absurd (hd.begins ?_) (not_inIteration_cons _ rest vm₁)
        exact ⟨.whileLoop condition body, rfl, [.seq body], List.cons_ne_nil _ _, rfl⟩
  · rintro ⟨vm', vm₁, value, stack, hcondition, hstack, hfalsey, rfl⟩
    have hruns : machine.Reaches (⟨[.seq condition], vm⟩ : Config F S) ⟨[], vm₁⟩ :=
      (run_computes condition []).ok hcondition
    have hlast : machine.Step (⟨.whileTest condition body :: rest, vm₁⟩ : Config F S)
        ⟨rest, { vm₁ with stack := stack }⟩ := by
      refine machine_step_of_ok ((Comp.bind_of_ok (VM.pop_of_cons hstack)).trans ?_)
      rw [hfalsey]
      rfl
    refine ⟨{ vm₁ with stack := stack }, .head ⟨hfirst, fun hin => ?_, fun hin => ?_⟩ ?_⟩
    · exact absurd hin (not_inIteration_cons _ rest vm)
    · exact nomatch (inIteration_onTop_iff.mp hin).1
    · refine Relation.ReflTransGen.tail ?_ ⟨hlast, fun hin => ?_, fun hin => ?_⟩
      · exact Relation.ReflTransGen.lift (Config.onTop (.whileTest condition body :: rest))
          (fun _ _ hd => StepOutside.of_whileTest hd condition body rest) _ _ hruns
      · exact absurd hin (not_inIteration_cons _ rest vm₁)
      · exact absurd hin (not_inIteration rest _)

/-- `Break` leaves a `Loop` around it exactly if control gets past the blocks between without
running anything and the loop is in its last iteration; it leaves a `While` exactly if control gets
past the blocks between and the condition is falsey then. `Continue` goes to the next round of a
loop exactly if control gets past the blocks between. -/
theorem break_continue_iff (ops : List (Op F)) (inner rest : List (Frame F)) (vm : VM F S) :
    (∀ remaining body,
      LeavesLoop ⟨.exec .breakOp ops :: (inner ++ .loop remaining body :: rest), vm⟩ rest ↔
        (∃ vm', onward inner vm = .past vm') ∧ remaining = 0) ∧
    (∀ condition body,
      LeavesLoop ⟨.exec .breakOp ops :: (inner ++ .whileLoop condition body :: rest), vm⟩ rest ↔
        ∃ vm' vm'', onward inner vm = .past vm' ∧
          VM.limit.test condition vm' (.ok false vm'')) ∧
    ∀ loop, TakesControlTo ⟨.exec .continueOp ops :: (inner ++ loop :: rest), vm⟩ (loop :: rest) ↔
      ∃ vm', onward inner vm = .past vm' := by
  refine ⟨fun remaining body => ?_, fun condition body => ?_, fun loop => ?_⟩
  · rw [leavesLoop_iff rfl (machine_step_of_ok rfl)]
    simp only [loop_ends_iff, exists_and_right]
  · rw [leavesLoop_iff rfl (machine_step_of_ok rfl)]
    simp only [while_ends_iff, exists_and_left]
  · exact takesControlTo_iff (machine_step_of_ok rfl)

/-- After a `Return` nothing more of the body is run exactly if its value comes past the lists,
blocks and loops between it and the call without running anything, or there is an error on the way;
in the first case control is back at the caller. -/
theorem return_iff (ops : List (Op F)) (inner rest : List (Frame F)) (name : String)
    (vm : VM F S) :
    (RunsNothingAbove ⟨.exec .returnOp ops :: (inner ++ .call name :: rest), vm⟩
        (.call name :: rest) ↔
      onward inner (final (VM.executeReturn vm)) ≠ .runs) ∧
    (TakesControlTo ⟨.exec .returnOp ops :: (inner ++ .call name :: rest), vm⟩
        (.call name :: rest) ↔
      ∃ vm', onward inner (final (VM.executeReturn vm)) = .past vm') := by
  obtain ⟨vm', hreturn⟩ := VM.executeReturn_ok vm
  have hstep : machine.Step ⟨.exec .returnOp ops :: (inner ++ .call name :: rest), vm⟩
      ⟨inner ++ .call name :: rest, final (VM.executeReturn vm)⟩ := by
    rw [hreturn]
    refine machine_step_of_ok ?_
    rw [Frame.step, Frame.start, Comp.bind_of_ok hreturn]
    rfl
  exact ⟨runsNothingAbove_iff hstep, takesControlTo_iff hstep⟩

end onward

/-! ### Loops that are not left -/

open VM

/-- `while true { break }` in a VM without storage. -/
theorem while_break_diverges (r : Outcome (Fault Binary64) (VM Binary64 NoStorage) Unit) :
    ¬ run [.whileOp [.push (.boolean true)] [.breakOp]] (stackVm []) r := by
  have htest : limit.test [.push (.boolean true)] (stackVm []) (.ok true (stackVm [])) := by
    rw [← (test_tends _).lim_eq]
    exact ⟨2, rfl⟩
  have hbody : run [.breakOp] (stackVm []) (.ok () (stackVm [])) := ⟨2, rfl⟩
  have hloop (r : Outcome (Fault Binary64) (VM Binary64 NoStorage) Unit) :
      ¬ Sem.whileDo (limit.test [.push (.boolean true)]) (run [.breakOp]) (stackVm []) r := by
    refine Sem.whileDo_diverges (I := (· = stackVm [])) ?_ ?_ rfl r
    · rintro _ r rfl h
      exact ⟨_, (test_tends _).functional _ _ _ h htest, rfl⟩
    · rintro _ r rfl h
      exact ⟨_, run_functional _ _ _ _ h hbody, rfl⟩
  intro h
  rw [run_cons] at h
  obtain ⟨r₁, h₁⟩ := Sem.exists_of_bind h
  rw [(stackVm_quiet []).next] at h₁
  obtain ⟨r₂, h₂⟩ := Sem.exists_of_bind h₁
  obtain ⟨r₃, h₃⟩ := Sem.exists_of_bind h₂
  exact hloop r₃ h₃

/-- The body of the `Loop` runs twice although its first round executes `Break`, and the `While`
does not end. -/
theorem break_does_not_leave :
    (∃ vm', run [.loop 2 [.emit "round", .breakOp]] (stackVm []) (.ok () vm') ∧
      vm'.executor.output = "round\nround\n") ∧
    ∀ r, ¬ run [.whileOp [.push (.boolean true)] [.breakOp]] (stackVm []) r :=
  ⟨lim_of_endsIn 4 (by decide +kernel), while_break_diverges⟩

/-- A function that announces what stands behind its `Return`. -/
def announcing : List (Op Binary64) :=
  [.ifOp [.push (.boolean true)] [.returnOp] none, .emit "after the return"]

theorem return_does_not_end_call :
    ∃ vm', run [.defOp "f" [] announcing, .call "f"] (stackVm []) (.ok () vm') ∧
      vm'.executor.output = "after the return\n" :=
  lim_of_endsIn 5 (by decide +kernel)

end Covm

