import Mathlib.Data.Fintype.Card
import Mathlib.Data.List.Nodup
import Mathlib.Data.Set.Finite.Basic
import Mathlib.Logic.Relation
import Mathlib.Tactic.Common

/-!
# Walks

A walk comes to a key and then walks through its children, one after the other and one level deeper,
without looking at where it has been. The children of a key may depend on an input (`Children`);
every input is read once.

A walk through finitely many keys ends, whatever the inputs are, iff no key it can come to can lead
back to itself (`finishes_iff`). If no key has two parents, it comes to every key below the first
ones once, and to the children of a key right below it (`Forest.nodup_of_walks`, `Walks.nested`).
-/

namespace Covm.Partial

variable {K I : Type}

/-- The children of a key. -/
inductive Children (K I : Type) where
  | fixed (ks : List K)
  | reading (ks : I → List K)

/-- The children, and the inputs that are left. -/
def Children.get : Children K I → (Nat → I) → List K × (Nat → I)
  | fixed ks, inputs => (ks, inputs)
  | reading ks, inputs => (ks (inputs 0), fun n => inputs (n + 1))

/-- Walks through keys, one after the other. -/
def walkAll (walk : K → (Nat → I) → Option (List (K × Nat) × (Nat → I))) :
    List K → (Nat → I) → Option (List (K × Nat) × (Nat → I))
  | [], inputs => some ([], inputs)
  | k :: ks, inputs =>
    match walk k inputs with
    | none => none
    | some (first, inputs) =>
      match walkAll walk ks inputs with
      | none => none
      | some (rest, inputs) => some (first ++ rest, inputs)

variable (children : K → Children K I)

/-- The keys a walk comes to, with their levels, and the inputs it leaves. -/
def walk : Nat → Nat → K → (Nat → I) → Option (List (K × Nat) × (Nat → I))
  | 0, _, _, _ => none
  | fuel + 1, level, k, inputs =>
    match walkAll (walk fuel (level + 1)) ((children k).get inputs).1
        ((children k).get inputs).2 with
    | none => none
    | some (below, inputs) => some ((k, level) :: below, inputs)

/-- A walk through keys, with any fuel. -/
inductive Walks : Nat → List K → (Nat → I) → List (K × Nat) → (Nat → I) → Prop
  | nil {level : Nat} {inputs : Nat → I} : Walks level [] inputs [] inputs
  | cons {level : Nat} {k : K} {ks : List K} {inputs inputs' inputs'' : Nat → I}
      {below rest : List (K × Nat)}
      (hbelow : Walks (level + 1) ((children k).get inputs).1 ((children k).get inputs).2 below
        inputs')
      (hrest : Walks level ks inputs' rest inputs'') :
      Walks level (k :: ks) inputs ((k, level) :: (below ++ rest)) inputs''

variable {children}

/-! ### Fuel -/

theorem walkAll_mono {f g : K → (Nat → I) → Option (List (K × Nat) × (Nat → I))}
    (h : ∀ k inputs r, f k inputs = some r → g k inputs = some r) {ks : List K}
    {inputs : Nat → I} {r : List (K × Nat) × (Nat → I)} (hr : walkAll f ks inputs = some r) :
    walkAll g ks inputs = some r := by
  induction ks generalizing inputs r with
  | nil => exact hr
  | cons k ks ih =>
    rw [walkAll] at hr ⊢
    cases hk : f k inputs with
    | none => simp [hk] at hr
    | some first =>
      rw [hk] at hr
      rw [h k inputs first hk]
      dsimp only at hr ⊢
      cases hks : walkAll f ks first.2 with
      | none => simp [hks] at hr
      | some rest =>
        rw [hks] at hr
        rw [ih hks]
        exact hr

theorem walk_succ {fuel level : Nat} {k : K} {inputs : Nat → I}
    {r : List (K × Nat) × (Nat → I)} (h : walk children fuel level k inputs = some r) :
    walk children (fuel + 1) level k inputs = some r := by
  induction fuel generalizing level k inputs r with
  | zero => cases h
  | succ fuel ih =>
    rw [walk] at h ⊢
    cases hall : walkAll (walk children fuel (level + 1)) ((children k).get inputs).1
        ((children k).get inputs).2 with
    | none => simp [hall] at h
    | some below =>
      rw [walkAll_mono (fun _ _ _ => ih) hall]
      rw [hall] at h
      exact h

theorem walk_mono {fuel fuel' level : Nat} (hle : fuel ≤ fuel') {k : K} {inputs : Nat → I}
    {r : List (K × Nat) × (Nat → I)} (h : walk children fuel level k inputs = some r) :
    walk children fuel' level k inputs = some r := by
  induction hle with
  | refl => exact h
  | step _ ih => exact walk_succ ih

theorem walks_of_walkAll {fuel level : Nat} {ks : List K} {inputs inputs' : Nat → I}
    {out : List (K × Nat)}
    (h : walkAll (walk children fuel level) ks inputs = some (out, inputs')) :
    Walks children level ks inputs out inputs' := by
  induction fuel generalizing level ks inputs inputs' out with
  | zero =>
    cases ks with
    | nil =>
      cases h
      exact .nil
    | cons k ks => cases h
  | succ fuel ih =>
    induction ks generalizing inputs inputs' out with
    | nil =>
      cases h
      exact .nil
    | cons k ks ihks =>
      rw [walkAll, walk] at h
      cases hall : walkAll (walk children fuel (level + 1)) ((children k).get inputs).1
          ((children k).get inputs).2 with
      | none => simp [hall] at h
      | some below =>
        rw [hall] at h
        dsimp only at h
        cases hks : walkAll (walk children (fuel + 1) level) ks below.2 with
        | none => simp [hks] at h
        | some rest =>
          rw [hks] at h
          cases h
          exact .cons (ih hall) (ihks hks)

theorem Walks.walkAll {level : Nat} {ks : List K} {inputs inputs' : Nat → I}
    {out : List (K × Nat)} (h : Walks children level ks inputs out inputs') :
    ∃ fuel, Partial.walkAll (walk children fuel level) ks inputs = some (out, inputs') := by
  induction h with
  | nil => exact ⟨0, rfl⟩
  | @cons level k ks inputs inputs' inputs'' below rest _ _ ihbelow ihrest =>
    obtain ⟨fuel, hbelow⟩ := ihbelow
    obtain ⟨fuel', hrest⟩ := ihrest
    refine ⟨max (fuel + 1) fuel', ?_⟩
    have hk : walk children (fuel + 1) level k inputs = some ((k, level) :: below, inputs') := by
      rw [walk, hbelow]
    have hks := walkAll_mono (fun _ _ _ => walk_mono (le_max_right (fuel + 1) fuel')) hrest
    rw [Partial.walkAll, walk_mono (le_max_left (fuel + 1) fuel') hk]
    dsimp only
    rw [hks]
    rfl

theorem Walks.functional {level : Nat} {ks : List K} {inputs inputs₁ inputs₂ : Nat → I}
    {out₁ out₂ : List (K × Nat)} (h₁ : Walks children level ks inputs out₁ inputs₁)
    (h₂ : Walks children level ks inputs out₂ inputs₂) : out₁ = out₂ ∧ inputs₁ = inputs₂ := by
  obtain ⟨fuel₁, h₁⟩ := h₁.walkAll
  obtain ⟨fuel₂, h₂⟩ := h₂.walkAll
  have h₁ := walkAll_mono (fun _ _ _ => walk_mono (le_max_left fuel₁ fuel₂)) h₁
  have h₂ := walkAll_mono (fun _ _ _ => walk_mono (le_max_right fuel₁ fuel₂)) h₂
  rw [h₁] at h₂
  cases h₂
  exact ⟨rfl, rfl⟩

/-! ### Walks that end -/

variable (children) in
/-- A walk through these keys ends. -/
def Finishes (ks : List K) (inputs : Nat → I) : Prop :=
  ∃ out inputs', Walks children 0 ks inputs out inputs'

variable (children) in
/-- With some input, the second key is a child of the first. -/
def ParentOf (a b : K) : Prop := ∃ inputs, b ∈ ((children a).get inputs).1

/-- Whether a walk ends does not depend on the level it begins at. -/
theorem Walks.exists_level {level : Nat} {ks : List K} {inputs inputs' : Nat → I}
    {out : List (K × Nat)} (h : Walks children level ks inputs out inputs') (level' : Nat) :
    ∃ out', Walks children level' ks inputs out' inputs' := by
  induction h generalizing level' with
  | nil => exact ⟨[], .nil⟩
  | cons _ _ ihbelow ihrest =>
    obtain ⟨below', hbelow⟩ := ihbelow (level' + 1)
    obtain ⟨rest', hrest⟩ := ihrest level'
    exact ⟨_, .cons hbelow hrest⟩

theorem Walks.finishes {level : Nat} {ks : List K} {inputs inputs' : Nat → I}
    {out : List (K × Nat)} (h : Walks children level ks inputs out inputs') :
    Finishes children ks inputs := by
  obtain ⟨out', h⟩ := h.exists_level 0
  exact ⟨out', inputs', h⟩

/-- Walks through keys of which each ends by itself. -/
theorem finishes_of_forall {ks : List K} (h : ∀ k ∈ ks, ∀ inputs, Finishes children [k] inputs)
    (inputs : Nat → I) : Finishes children ks inputs := by
  induction ks generalizing inputs with
  | nil => exact ⟨[], inputs, .nil⟩
  | cons k ks ih =>
    obtain ⟨out, inputs', hk⟩ := h k (.head _) inputs
    obtain ⟨rest, inputs'', hks⟩ := ih (fun k hk => h k (.tail _ hk)) inputs'
    cases hk with
    | cons hbelow hnil =>
      cases hnil
      exact ⟨_, _, .cons hbelow hks⟩

theorem finishes_of_children {k : K}
    (h : ∀ b, ParentOf children k b → ∀ inputs, Finishes children [b] inputs) (inputs : Nat → I) :
    Finishes children [k] inputs := by
  have hall : Finishes children ((children k).get inputs).1 ((children k).get inputs).2 :=
    finishes_of_forall (fun b hb => h b ⟨inputs, hb⟩) _
  obtain ⟨out, inputs', hwalk⟩ := hall
  obtain ⟨out', hwalk⟩ := hwalk.exists_level 1
  exact ⟨_, _, .cons hwalk .nil⟩

/-- A walk through keys without children. -/
theorem walks_of_childless {ks : List K} (h : ∀ k ∈ ks, ∀ b, ¬ ParentOf children k b) (level : Nat)
    (inputs : Nat → I) :
    ∃ inputs', Walks children level ks inputs (ks.map fun k => (k, level)) inputs' := by
  induction ks generalizing inputs with
  | nil => exact ⟨inputs, .nil⟩
  | cons k ks ih =>
    obtain ⟨inputs', hks⟩ := ih (fun k hk => h k (.tail _ hk)) ((children k).get inputs).2
    have hnone : ((children k).get inputs).1 = [] :=
      List.eq_nil_iff_forall_not_mem.mpr fun b hb => h k (.head _) b ⟨inputs, hb⟩
    have hbelow : Walks children (level + 1) ((children k).get inputs).1 ((children k).get inputs).2
        [] ((children k).get inputs).2 := by
      rw [hnone]
      exact .nil
    exact ⟨inputs', .cons hbelow hks⟩

/-- Where nothing leads back to itself, a finite set is gone through from the end. -/
theorem induction_of_acyclic {r : K → K → Prop} {S : Set K} (hS : S.Finite)
    (hacyclic : ∀ x ∈ S, ¬ Relation.TransGen r x x) {P : K → Prop}
    (h : ∀ x ∈ S, (∀ y ∈ S, r x y → P y) → P x) : ∀ x ∈ S, P x := by
  let After (x y : S) : Prop := Relation.TransGen r y.1 x.1
  have : Finite S := hS
  have : IsTrans _ After := ⟨fun _ _ _ hxy hyz => hyz.trans hxy⟩
  have : Std.Irrefl After := ⟨fun x => hacyclic x.1 x.2⟩
  have hall : ∀ x : S, P x.1 := by
    intro x
    induction x using (Finite.wellFounded_of_trans_of_irrefl After).induction with
    | _ x ih => exact h x.1 x.2 fun y hy hxy => ih ⟨y, hy⟩ (.single hxy)
  exact fun x hx => hall ⟨x, hx⟩

/-- A walk ends that comes to finitely many keys, none of which leads back to itself. -/
theorem finishes_of_acyclic {ks : List K}
    (hfinite : {x | ∃ k ∈ ks, Relation.ReflTransGen (ParentOf children) k x}.Finite)
    (hacyclic : ∀ k ∈ ks, ∀ x, Relation.ReflTransGen (ParentOf children) k x →
      ¬ Relation.TransGen (ParentOf children) x x) (inputs : Nat → I) :
    Finishes children ks inputs := by
  have hfinishes : ∀ x ∈ {x | ∃ k ∈ ks, Relation.ReflTransGen (ParentOf children) k x},
      ∀ inputs, Finishes children [x] inputs := by
    refine induction_of_acyclic hfinite (fun x ⟨k, hk, hx⟩ => hacyclic k hk x hx) ?_
    rintro x ⟨k, hk, hx⟩ ih
    exact finishes_of_children fun b hb => ih b ⟨k, hk, hx.tail hb⟩ hb
  exact finishes_of_forall (fun k hk => hfinishes k ⟨k, hk, .refl⟩) inputs

/-! ### Walks that go on for ever -/

/-- A word of inputs before others. -/
def prepend : List I → (Nat → I) → (Nat → I)
  | [], inputs => inputs
  | i :: word, inputs => fun n => n.casesOn i (prepend word inputs)

theorem prepend_append (word word' : List I) (inputs : Nat → I) :
    prepend (word ++ word') inputs = prepend word (prepend word' inputs) := by
  induction word with
  | nil => rfl
  | cons i word ih => rw [List.cons_append, prepend, ih, prepend]

theorem prepend_apply (word : List I) (inputs : Nat → I) (n : Nat) :
    prepend word inputs n = (word[n]?).getD (inputs (n - word.length)) := by
  induction word generalizing n with
  | nil => rfl
  | cons i word ih =>
    cases n with
    | zero => rfl
    | succ n => simp [prepend, ih]

/-- A word of inputs, over and over. -/
def repeated [Inhabited I] (word : List I) : Nat → I :=
  fun n => (word[n % word.length]?).getD default

theorem prepend_repeated [Inhabited I] (word : List I) :
    prepend word (repeated word) = repeated word := by
  funext n
  rw [prepend_apply]
  by_cases hn : n < word.length
  · simp [repeated, Nat.mod_eq_of_lt hn, hn]
  · have hmod : (n - word.length) % word.length = n % word.length :=
      (Nat.mod_eq_sub_mod (Nat.le_of_not_lt hn)).symm
    rw [List.getElem?_eq_none (Nat.le_of_not_lt hn), Option.getD_none, repeated, repeated, hmod]

theorem Children.exists_word (c : Children K I) (inputs : Nat → I) :
    ∃ word, inputs = prepend word (c.get inputs).2 ∧
      ∀ s, c.get (prepend word s) = ((c.get inputs).1, s) := by
  cases c with
  | fixed ks => exact ⟨[], rfl, fun _ => rfl⟩
  | reading ks =>
    refine ⟨[inputs 0], ?_, fun _ => rfl⟩
    funext n
    cases n <;> rfl

/-- A walk that ends has read a word. -/
theorem Walks.exists_word {level : Nat} {ks : List K} {inputs inputs' : Nat → I}
    {out : List (K × Nat)} (h : Walks children level ks inputs out inputs') :
    ∃ word, inputs = prepend word inputs' ∧
      ∀ level' s, ∃ out', Walks children level' ks (prepend word s) out' s := by
  induction h with
  | nil => exact ⟨[], rfl, fun _ _ => ⟨[], .nil⟩⟩
  | @cons level k ks inputs inputs' inputs'' below rest _ _ ihbelow ihrest =>
    obtain ⟨first, hfirst, hget⟩ := (children k).exists_word inputs
    obtain ⟨word, hword, hbelow⟩ := ihbelow
    obtain ⟨word', hword', hrest⟩ := ihrest
    refine ⟨first ++ (word ++ word'), ?_, fun level' s => ?_⟩
    · rw [prepend_append, prepend_append, ← hword', ← hword, ← hfirst]
    · obtain ⟨below', hbelow⟩ := hbelow (level' + 1) (prepend word' s)
      obtain ⟨rest', hrest⟩ := hrest level' s
      rw [prepend_append, prepend_append]
      refine ⟨(k, level') :: (below' ++ rest'), .cons ?_ hrest⟩
      rw [hget]
      exact hbelow

theorem Walks.of_append {level : Nat} {ks ls : List K} {inputs inputs' : Nat → I}
    {out : List (K × Nat)} (h : Walks children level (ks ++ ls) inputs out inputs') :
    ∃ first mid rest, Walks children level ks inputs first mid ∧
      Walks children level ls mid rest inputs' := by
  induction ks generalizing inputs out with
  | nil => exact ⟨[], inputs, out, .nil, h⟩
  | cons k ks ih =>
    cases h with
    | cons hbelow hrest =>
      obtain ⟨first, mid, rest, hks, hls⟩ := ih hrest
      exact ⟨_, mid, rest, .cons hbelow hks, hls⟩

theorem walkAll_of_append {f : K → (Nat → I) → Option (List (K × Nat) × (Nat → I))}
    {ks ls : List K} {inputs : Nat → I} {r : List (K × Nat) × (Nat → I)}
    (h : walkAll f (ks ++ ls) inputs = some r) :
    ∃ first rest, walkAll f ks inputs = some first ∧ walkAll f ls first.2 = some rest := by
  induction ks generalizing inputs r with
  | nil => exact ⟨([], inputs), r, rfl, h⟩
  | cons k ks ih =>
    rw [List.cons_append, walkAll] at h
    rw [walkAll]
    cases hk : f k inputs with
    | none => simp [hk] at h
    | some first =>
      rw [hk] at h
      dsimp only at h ⊢
      cases hks : walkAll f (ks ++ ls) first.2 with
      | none => simp [hks] at h
      | some rest =>
        obtain ⟨mid, rest', hmid, hrest⟩ := ih hks
        rw [hmid]
        exact ⟨_, rest', rfl, hrest⟩

variable (children) in
/-- A walk from this key ends with this much fuel. -/
def FinishesIn (fuel : Nat) (k : K) (inputs : Nat → I) : Prop :=
  ∃ level r, walk children fuel level k inputs = some r

theorem Finishes.finishesIn {k : K} {inputs : Nat → I} (h : Finishes children [k] inputs) :
    ∃ fuel, FinishesIn children fuel k inputs := by
  obtain ⟨out, inputs', h⟩ := h
  obtain ⟨fuel, h⟩ := h.walkAll
  rw [walkAll] at h
  cases hk : walk children fuel 0 k inputs with
  | none => simp [hk] at h
  | some r => exact ⟨fuel, 0, r, hk⟩

theorem FinishesIn.finishes {fuel : Nat} {k : K} {inputs : Nat → I}
    (h : FinishesIn children fuel k inputs) :
    Finishes children [k] inputs := by
  obtain ⟨level, ⟨out, inputs'⟩, h⟩ := h
  have hall : walkAll (walk children fuel level) [k] inputs = some (out ++ [], inputs') := by
    rw [walkAll, h]
    rfl
  exact (walks_of_walkAll hall).finishes

/-- The walk from a key comes to a child of it with any inputs left, and less fuel. -/
theorem exists_word_of_parentOf [Inhabited I] {a b : K}
    (ha : ∀ inputs, Finishes children [a] inputs) (hab : ParentOf children a b) :
    ∃ word, ∀ fuel inputs, FinishesIn children fuel a (prepend word inputs) →
      ∃ fuel' < fuel, FinishesIn children fuel' b inputs := by
  obtain ⟨start, hb⟩ := hab
  obtain ⟨first, -, hget⟩ := (children a).exists_word start
  obtain ⟨before, after, hks⟩ := List.append_of_mem hb
  rw [hks] at hget
  obtain ⟨out, inputs', hwalk⟩ := ha (prepend first fun _ => default)
  cases hwalk with
  | cons hbelow _ =>
    rw [hget] at hbelow
    obtain ⟨_, _, _, hbefore, -⟩ := hbelow.of_append
    obtain ⟨word, -, hword⟩ := hbefore.exists_word
    refine ⟨first ++ word, fun fuel inputs hfinishes => ?_⟩
    obtain ⟨level, r, hr⟩ := hfinishes
    rw [prepend_append] at hr
    cases fuel with
    | zero => cases hr
    | succ fuel =>
      rw [walk, hget] at hr
      cases hall : walkAll (walk children fuel (level + 1)) (before ++ b :: after)
          (prepend word inputs) with
      | none => simp [hall] at hr
      | some below =>
        obtain ⟨⟨skipped, mid⟩, rest, hskipped, hrest⟩ := walkAll_of_append hall
        obtain ⟨out', hout'⟩ := hword (level + 1) inputs
        obtain ⟨-, rfl⟩ := (walks_of_walkAll hskipped).functional hout'
        refine ⟨fuel, Nat.lt_succ_self fuel, level + 1, ?_⟩
        rw [walkAll] at hrest
        cases hwalk : walk children fuel (level + 1) b mid with
        | none => simp [hwalk] at hrest
        | some r => exact ⟨r, rfl⟩

theorem finishes_of_parentOf [Inhabited I] {a b : K} (ha : ∀ inputs, Finishes children [a] inputs)
    (hab : ParentOf children a b) (inputs : Nat → I) : Finishes children [b] inputs := by
  obtain ⟨word, hword⟩ := exists_word_of_parentOf ha hab
  obtain ⟨fuel, hfuel⟩ := (ha (prepend word inputs)).finishesIn
  obtain ⟨_, -, hb⟩ := hword fuel inputs hfuel
  exact hb.finishes

theorem finishes_of_reaches [Inhabited I] {a b : K} (ha : ∀ inputs, Finishes children [a] inputs)
    (hab : Relation.ReflTransGen (ParentOf children) a b) (inputs : Nat → I) :
    Finishes children [b] inputs := by
  induction hab generalizing inputs with
  | refl => exact ha inputs
  | tail _ hbc ih => exact finishes_of_parentOf ih hbc inputs

theorem exists_word_of_transGen [Inhabited I] {a b : K}
    (ha : ∀ inputs, Finishes children [a] inputs)
    (hab : Relation.TransGen (ParentOf children) a b) :
    ∃ word, ∀ fuel inputs, FinishesIn children fuel a (prepend word inputs) →
      ∃ fuel' < fuel, FinishesIn children fuel' b inputs := by
  induction hab with
  | single hab => exact exists_word_of_parentOf ha hab
  | tail hab hbc ih =>
    obtain ⟨word, hword⟩ := ih
    have hb := finishes_of_reaches ha hab.to_reflTransGen
    obtain ⟨word', hword'⟩ := exists_word_of_parentOf hb hbc
    refine ⟨word ++ word', fun fuel inputs hfinishes => ?_⟩
    rw [prepend_append] at hfinishes
    obtain ⟨fuel₁, hlt₁, hfinishes₁⟩ := hword fuel _ hfinishes
    obtain ⟨fuel₂, hlt₂, hfinishes₂⟩ := hword' fuel₁ inputs hfinishes₁
    exact ⟨fuel₂, hlt₂.trans hlt₁, hfinishes₂⟩

/-- A key that leads back to itself does so for ever if the inputs repeat. -/
theorem not_transGen_of_finishes [Inhabited I] {a : K}
    (ha : ∀ inputs, Finishes children [a] inputs) :
    ¬ Relation.TransGen (ParentOf children) a a := by
  intro hcycle
  obtain ⟨word, hword⟩ := exists_word_of_transGen ha hcycle
  have hnever : ∀ fuel, ¬ FinishesIn children fuel a (repeated word) := by
    intro fuel
    induction fuel using Nat.strongRecOn with
    | _ fuel ih =>
      intro hfinishes
      rw [← prepend_repeated] at hfinishes
      obtain ⟨fuel', hlt, hfinishes'⟩ := hword fuel _ hfinishes
      exact ih fuel' hlt hfinishes'
  obtain ⟨fuel, hfinishes⟩ := (ha (repeated word)).finishesIn
  exact hnever fuel hfinishes

theorem finishes_of_mem [Inhabited I] {ks : List K} {k : K}
    (hks : ∀ inputs, Finishes children ks inputs) (hk : k ∈ ks) (inputs : Nat → I) :
    Finishes children [k] inputs := by
  obtain ⟨before, after, rfl⟩ := List.append_of_mem hk
  obtain ⟨_, _, hwalk⟩ := hks fun _ => default
  obtain ⟨_, _, _, hbefore, -⟩ := hwalk.of_append
  obtain ⟨word, -, hword⟩ := hbefore.exists_word
  obtain ⟨_, _, hwalk'⟩ := hks (prepend word inputs)
  obtain ⟨_, mid, _, hbefore', hrest⟩ := hwalk'.of_append
  obtain ⟨_, hout⟩ := hword 0 inputs
  obtain ⟨-, rfl⟩ := hbefore'.functional hout
  cases hrest with
  | cons hbelow _ => exact ⟨_, _, .cons hbelow .nil⟩

/-- A walk ends whatever the inputs are iff it cannot come to a key that can lead back to itself. -/
theorem finishes_iff [Finite K] [Inhabited I] {ks : List K} :
    (∀ inputs, Finishes children ks inputs) ↔
      ∀ k ∈ ks, ∀ x, Relation.ReflTransGen (ParentOf children) k x →
        ¬ Relation.TransGen (ParentOf children) x x :=
  ⟨fun h _ hk _ hx => not_transGen_of_finishes (finishes_of_reaches (finishes_of_mem h hk) hx),
    fun h => finishes_of_acyclic (Set.toFinite _) h⟩

/-! ### Forests -/

section forest
variable {next : K → List K} {level : Nat} {ks : List K} {inputs inputs' : Nat → I}
  {out : List (K × Nat)}

theorem parentOf_fixed [Inhabited I] {a b : K} :
    ParentOf (fun k => (.fixed (next k) : Children K I)) a b ↔ b ∈ next a :=
  ⟨fun ⟨_, h⟩ => h, fun h => ⟨fun _ => default, h⟩⟩

/-- A walk comes to what is below the keys it begins with. -/
theorem Walks.mem_iff (h : Walks (fun k => .fixed (next k)) level ks inputs out inputs') {x : K} :
    x ∈ out.map Prod.fst ↔ ∃ k ∈ ks, Relation.ReflTransGen (fun a b => b ∈ next a) k x := by
  induction h with
  | nil => simp
  | @cons level k ks inputs inputs' inputs'' below rest _ _ ihbelow ihrest =>
    rw [List.map_cons, List.mem_cons, List.map_append, List.mem_append, ihbelow, ihrest]
    constructor
    · rintro (rfl | ⟨c, hc, hx⟩ | ⟨k', hk', hx⟩)
      · exact ⟨x, .head _, .refl⟩
      · exact ⟨k, .head _, .head hc hx⟩
      · exact ⟨k', .tail _ hk', hx⟩
    · rintro ⟨k', hk', hx⟩
      rcases List.mem_cons.mp hk' with rfl | hk'
      · rcases Relation.ReflTransGen.cases_head hx with rfl | ⟨c, hc, hx⟩
        · exact .inl rfl
        · exact .inr (.inl ⟨c, hc, hx⟩)
      · exact .inr (.inr ⟨k', hk', hx⟩)

theorem Walks.level_le (h : Walks children level ks inputs out inputs') :
    ∀ y ∈ out, level ≤ y.2 := by
  induction h with
  | nil => exact fun y hy => absurd hy List.not_mem_nil
  | cons _ _ ihbelow ihrest =>
    intro y hy
    rcases List.mem_cons.mp hy with rfl | hy
    · exact Nat.le_refl _
    · rcases List.mem_append.mp hy with hy | hy
      · exact Nat.le_of_succ_le (ihbelow y hy)
      · exact ihrest y hy

theorem Walks.mem_of_mem (h : Walks children level ks inputs out inputs') {k : K} (hk : k ∈ ks) :
    (k, level) ∈ out := by
  induction h with
  | nil => cases hk
  | cons _ _ _ ihrest =>
    rcases List.mem_cons.mp hk with rfl | hk
    · exact .head _
    · exact .tail _ (List.mem_append_right _ (ihrest hk))

/-- The children of a key come below it, one level deeper, before anything of its own level. -/
theorem Walks.nested (h : Walks (fun k => .fixed (next k)) level ks inputs out inputs')
    {p c : K} {e : Nat} (hp : (p, e) ∈ out) (hc : c ∈ next p) :
    ∃ before between after, out = before ++ (p, e) :: (between ++ (c, e + 1) :: after) ∧
      ∀ y ∈ between, e < y.2 := by
  induction h with
  | nil => cases hp
  | @cons level k ks inputs inputs' inputs'' below rest hbelow _ ihbelow ihrest =>
    rcases List.mem_cons.mp hp with heq | hp
    · cases heq
      obtain ⟨between, after, hsplit⟩ := List.append_of_mem (hbelow.mem_of_mem hc)
      refine ⟨[], between, after ++ rest, by simp [hsplit], fun y hy => ?_⟩
      exact hbelow.level_le y (hsplit ▸ List.mem_append_left _ hy)
    · rcases List.mem_append.mp hp with hp | hp
      · obtain ⟨before, between, after, rfl, hdeeper⟩ := ihbelow hp
        exact ⟨(k, level) :: before, between, after ++ rest, by simp, hdeeper⟩
      · obtain ⟨before, between, after, rfl, hdeeper⟩ := ihrest hp
        exact ⟨(k, level) :: (below ++ before), between, after, by simp, hdeeper⟩

/-- Every key of the forest has one parent at most, and is a child of that one only. -/
structure Forest (next : K → List K) (parent : K → Option K) (Inside : K → Prop) : Prop where
  child : ∀ a b, Inside a → b ∈ next a → Inside b ∧ parent b = some a
  nodup : ∀ k, (next k).Nodup
  acyclic : ∀ x, ¬ Relation.TransGen (fun a b => parent a = some b) x x

namespace Forest

variable {parent : K → Option K} {Inside : K → Prop}

theorem up_of_below (hforest : Forest next parent Inside) {k x : K} (hk : Inside k)
    (h : Relation.ReflTransGen (fun a b => b ∈ next a) k x) :
    Inside x ∧ Relation.ReflTransGen (fun a b => parent a = some b) x k := by
  induction h with
  | refl => exact ⟨hk, .refl⟩
  | tail _ hbc ih =>
    obtain ⟨hc, hup⟩ := hforest.child _ _ ih.1 hbc
    exact ⟨hc, .head hup ih.2⟩

theorem eq_of_siblings (hforest : Forest next parent Inside) {k k' : K}
    (hsame : parent k = parent k')
    (h : Relation.ReflTransGen (fun a b => parent a = some b) k k') : k = k' := by
  rcases Relation.ReflTransGen.cases_head h with heq | ⟨a, ha, hrest⟩
  · exact heq
  · exact absurd (Relation.TransGen.head' (hsame ▸ ha) hrest) (hforest.acyclic k')

/-- Nothing is below two siblings. -/
theorem siblings_disjoint (hforest : Forest next parent Inside) {k k' x : K} (hk : Inside k)
    (hk' : Inside k') (hsame : parent k = parent k')
    (hx : Relation.ReflTransGen (fun a b => b ∈ next a) k x)
    (hx' : Relation.ReflTransGen (fun a b => b ∈ next a) k' x) : k = k' := by
  have hunique : Relator.RightUnique fun a b => parent a = some b := fun a b c hb hc =>
    Option.some.inj (hb.symm.trans hc)
  rcases Relation.ReflTransGen.total_of_right_unique hunique (hforest.up_of_below hk hx).2
    (hforest.up_of_below hk' hx').2 with h | h
  · exact hforest.eq_of_siblings hsame h
  · exact (hforest.eq_of_siblings hsame.symm h).symm

/-- A walk through a finite forest ends. -/
theorem finishes [Inhabited I] (hforest : Forest next parent Inside)
    (hfinite : {k | Inside k}.Finite) (hks : ∀ k ∈ ks, Inside k) (inputs : Nat → I) :
    Finishes (fun k => .fixed (next k)) ks inputs := by
  have hfinishes : ∀ x ∈ {k | Inside k}, ∀ inputs : Nat → I,
      Finishes (fun k => .fixed (next k)) [x] inputs := by
    refine induction_of_acyclic (r := fun a b => b ∈ next a) hfinite ?_ ?_
    · intro x hx hcycle
      obtain ⟨c, hxc, hcx⟩ := Relation.TransGen.head'_iff.mp hcycle
      obtain ⟨hc, hup⟩ := hforest.child x c hx hxc
      exact hforest.acyclic c (.head' hup (hforest.up_of_below hc hcx).2)
    · intro x hx ih
      refine finishes_of_children fun b hb => ?_
      have hb := parentOf_fixed.mp hb
      exact ih b (hforest.child x b hx hb).1 hb
  exact finishes_of_forall (fun k hk => hfinishes k (hks k hk)) inputs

/-- A walk through a forest that begins with siblings comes to no key twice. -/
theorem nodup_of_walks (hforest : Forest next parent Inside)
    (h : Walks (fun k => .fixed (next k)) level ks inputs out inputs') (hks : ks.Nodup)
    {root : Option K} (hroot : ∀ k ∈ ks, Inside k ∧ parent k = root) :
    (out.map Prod.fst).Nodup := by
  induction h generalizing root with
  | nil => exact List.nodup_nil
  | @cons level k ks inputs inputs' inputs'' below rest hbelow hrest ihbelow ihrest =>
    obtain ⟨hk, hks⟩ := List.nodup_cons.mp hks
    obtain ⟨hinside, hparent⟩ := hroot k (.head _)
    rw [List.map_cons, List.map_append, List.nodup_cons, List.mem_append, List.nodup_append]
    refine ⟨?_, ihbelow (hforest.nodup k) fun c hc => hforest.child k c hinside hc,
      ihrest hks fun k' hk' => hroot k' (.tail _ hk'), ?_⟩
    · rintro (hmem | hmem)
      · obtain ⟨c, hc, hck⟩ := hbelow.mem_iff.mp hmem
        obtain ⟨hinsideC, hup⟩ := hforest.child k c hinside hc
        exact hforest.acyclic c (.head' hup (hforest.up_of_below hinsideC hck).2)
      · obtain ⟨k', hk', hkk'⟩ := hrest.mem_iff.mp hmem
        obtain ⟨hinside', hparent'⟩ := hroot k' (.tail _ hk')
        rw [hforest.siblings_disjoint hinside hinside' (hparent.trans hparent'.symm) .refl
          hkk'] at hk
        exact hk hk'
    · rintro x hx y hy rfl
      obtain ⟨c, hc, hcx⟩ := hbelow.mem_iff.mp hx
      obtain ⟨k', hk', hkx⟩ := hrest.mem_iff.mp hy
      obtain ⟨hinside', hparent'⟩ := hroot k' (.tail _ hk')
      rw [hforest.siblings_disjoint hinside hinside' (hparent.trans hparent'.symm) (.head hc hcx)
        hkx] at hk
      exact hk hk'

end Forest

end forest

end Covm.Partial
