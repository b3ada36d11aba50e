import Covm.Bytecode.Code
import Covm.Bytecode.Matching

/-!
# Compiled code can be moved

`Compiles` says which operations a block contains, at any depth, and where each of them is compiled.
The code of an operation is a piece of the code of the block, and its jumps stay within that piece:
they go forward, at most to its end, or back to the test of a loop. At another position the compiler
emits the same code, with the jumps and the temporaries moved along.
-/

namespace Covm

variable {F : Type}

/-! ### Pieces of code -/

/-- In the code of `whole` at `pos` the code `part` stands at `s`. -/
def StandsIn (whole : List (BytecodeOp F)) (pos : Nat) (part : List (BytecodeOp F)) (s : Nat) :
    Prop :=
  ∃ before after, whole = before ++ (part ++ after) ∧ s = pos + before.length

theorem StandsIn.refl (code : List (BytecodeOp F)) (pos : Nat) : StandsIn code pos code pos :=
  ⟨[], [], by simp, by simp⟩

theorem StandsIn.trans {a b c : List (BytecodeOp F)} {i j k : Nat} (h : StandsIn a i b j)
    (h' : StandsIn b j c k) : StandsIn a i c k := by
  obtain ⟨before, after, rfl, rfl⟩ := h
  obtain ⟨before', after', rfl, rfl⟩ := h'
  exact ⟨before ++ before', after' ++ after, by simp, by simp [Nat.add_assoc]⟩

theorem StandsIn.front {a b part : List (BytecodeOp F)} {pos s : Nat}
    (h : StandsIn a pos part s) : StandsIn (a ++ b) pos part s := by
  obtain ⟨before, after, rfl, rfl⟩ := h
  exact ⟨before, after ++ b, by simp, rfl⟩

theorem StandsIn.back {a b part : List (BytecodeOp F)} {pos s : Nat}
    (h : StandsIn b (pos + a.length) part s) : StandsIn (a ++ b) pos part s := by
  obtain ⟨before, after, rfl, rfl⟩ := h
  exact ⟨a ++ before, after, by simp, by simp [Nat.add_assoc]⟩

theorem StandsIn.next {i : BytecodeOp F} {a part : List (BytecodeOp F)} {pos s : Nat}
    (h : StandsIn a (pos + 1) part s) : StandsIn (i :: a) pos part s :=
  .back (a := [i]) h

theorem StandsIn.le {a b : List (BytecodeOp F)} {pos s : Nat} (h : StandsIn a pos b s) :
    pos ≤ s := by
  obtain ⟨before, _, _, rfl⟩ := h
  exact Nat.le_add_right _ _

theorem StandsIn.end_le {a b : List (BytecodeOp F)} {pos s : Nat} (h : StandsIn a pos b s) :
    s + b.length ≤ pos + a.length := by
  obtain ⟨before, after, rfl, rfl⟩ := h
  simp
  omega

/-! ### Where the blocks are compiled -/

section blocks
variable [Number F] (table : HashMap Nat)

/-- The copies of an unrolled body. -/
def copies (body : List (Op F)) : Nat → Nat → List (List (Op F) × Nat)
  | 0, _ => []
  | count + 1, pos => (body, pos) :: copies body count (pos + (codeOps table body pos).length)

/-- The bodies of the cases of a match. -/
def caseBlocks : List (TypedValue F × List (Op F)) → Nat → List (List (Op F) × Nat)
  | [], _ => []
  | (_, caseBody) :: cases, pos =>
    (caseBody, pos + 4) ::
      caseBlocks cases (pos + (codeOps table caseBody (pos + 4)).length + 5)

/-- The blocks of an operation compiled at `pos`, with the positions they are compiled at. -/
def blocks : Op F → Nat → List (List (Op F) × Nat)
  | .ifOp condition thenOps elseOps, pos =>
    let thenPos := pos + (codeOps table condition pos).length + 1
    let elsePos := thenPos + (codeOps table thenOps thenPos).length + 1
    (condition, pos) :: (thenOps, thenPos) :: (elseOps.map fun ops => (ops, elsePos)).toList
  | .whileOp condition body, pos =>
    [(condition, pos), (body, pos + (codeOps table condition pos).length + 1)]
  | .loop count body, pos =>
    if count ≤ 5 then copies table body count pos
    else if count = 1000 ∧ body.length ≤ 5 then [(body, pos + 5)]
    else [(body, pos + 6)]
  | .defOp name _ body, pos =>
    match table.lookup name with
    | some _ => [(body, pos + 1)]
    | none => []
  | .matchOp value cases default, pos =>
    let valueEnd := pos + (codeOps table value pos).length
    let defaultPos := valueEnd + 1 + (Code.cases (BytecodeCompiler.matchValue valueEnd) 0
      (codeArms table cases) (valueEnd + 1)).length
    (value, pos) :: (caseBlocks table cases (valueEnd + 1) ++
      (default.map fun ops => (ops, defaultPos)).toList)
  | _, _ => []

/-- Compiling `ops` at `pos` compiles `op` at `s`. -/
inductive Compiles : List (Op F) → Nat → Op F → Nat → Prop
  | head {op : Op F} {ops : List (Op F)} {pos : Nat} : Compiles (op :: ops) pos op pos
  | tail {op op' : Op F} {ops : List (Op F)} {pos s : Nat}
      (h : Compiles ops (pos + (codeOp table op pos).length) op' s) :
      Compiles (op :: ops) pos op' s
  | block {op op' : Op F} {ops block : List (Op F)} {pos start s : Nat}
      (hb : (block, start) ∈ blocks table op pos) (h : Compiles block start op' s) :
      Compiles (op :: ops) pos op' s

/-- The loop an operation compiled at `pos` makes: the first instruction of its test, and the jump
that ends its body. -/
def backJump : Op F → Nat → Option (Nat × Nat)
  | .whileOp condition body, pos =>
    let bodyPos := pos + (codeOps table condition pos).length + 1
    some (pos, bodyPos + (codeOps table body bodyPos).length)
  | .loop count body, pos =>
    if count ≤ 5 then none
    else if count = 1000 ∧ body.length ≤ 5 then
      some (pos + 1, pos + (codeOps table body (pos + 5)).length + 7)
    else some (pos + 2, pos + (codeOps table body (pos + 6)).length + 10)
  | _, _ => none

/-- A loop within `ops` has its test at `start` and its body ends at `last`. -/
def LoopIn (ops : List (Op F)) (pos start last : Nat) : Prop :=
  ∃ op s, Compiles table ops pos op s ∧ backJump table op s = some (start, last)

variable {table}

theorem copies_standsIn {body block : List (Op F)} {count pos s : Nat}
    (h : (block, s) ∈ copies table body count pos) :
    StandsIn (Code.unrolled (codeOps table body) count pos) pos (codeOps table block s) s := by
  induction count generalizing pos with
  | zero => cases h
  | succ count ih =>
    cases h with
    | head => exact .front (.refl _ _)
    | tail _ h => exact .back (ih h)

theorem caseBlocks_standsIn {cases : List (TypedValue F × List (Op F))} {block : List (Op F)}
    {matchVar : String} {target pos s : Nat} (h : (block, s) ∈ caseBlocks table cases pos) :
    StandsIn (Code.cases matchVar target (codeArms table cases) pos) pos
      (codeOps table block s) s := by
  induction cases generalizing pos with
  | nil => cases h
  | cons arm cases ih =>
    obtain ⟨v, caseBody⟩ := arm
    rw [codeArms, Code.cases]
    cases h with
    | head => exact .next (.next (.next (.next (.front (.refl _ _)))))
    | tail _ h =>
      have hpos : pos + (codeOps table caseBody (pos + 4)).length + 5 =
          pos + 1 + 1 + 1 + 1 + (codeOps table caseBody (pos + 4)).length + 1 := by omega
      refine .next (.next (.next (.next (.back (.next ?_)))))
      rw [← hpos]
      exact ih h

theorem mem_of_caseBlocks {cases : List (TypedValue F × List (Op F))} {block : List (Op F)}
    {pos s : Nat} (h : (block, s) ∈ caseBlocks table cases pos) :
    ∃ arm ∈ cases, arm.2 = block := by
  induction cases generalizing pos with
  | nil => cases h
  | cons arm cases ih =>
    cases h with
    | head => exact ⟨arm, .head _, rfl⟩
    | tail _ h =>
      obtain ⟨other, hmem, hbody⟩ := ih h
      exact ⟨other, .tail _ hmem, hbody⟩

/-- The code of a block is a piece of the code of its operation. -/
theorem blocks_standsIn {op : Op F} {block : List (Op F)} {pos s : Nat}
    (h : (block, s) ∈ blocks table op pos) :
    StandsIn (codeOp table op pos) pos (codeOps table block s) s := by
  cases op with
  | ifOp condition thenOps elseOps =>
    cases elseOps with
    | none =>
      rcases List.mem_pair.mp h with h | h
      · cases h
        exact .front (.refl _ _)
      · cases h
        exact .back (.next (.refl _ _))
    | some elseOps =>
      rcases List.mem_cons.mp h with h | h
      · cases h
        exact .front (.refl _ _)
      · rcases List.mem_pair.mp h with h | h
        · cases h
          exact .back (.next (.front (.refl _ _)))
        · cases h
          exact .back (.next (.back (.next (.refl _ _))))
  | whileOp condition body =>
    rcases List.mem_pair.mp h with h | h
    · cases h
      exact .front (.refl _ _)
    · cases h
      exact .back (.next (.front (.refl _ _)))
  | loop count body =>
    rw [codeOp, Code.loop]
    rw [blocks] at h
    split at h
    · rename_i hc
      rw [if_pos hc]
      exact copies_standsIn h
    · rename_i hc
      rw [if_neg hc]
      split at h
      · rename_i hfast
        rw [if_pos hfast]
        cases List.mem_singleton.mp h
        exact .next (.next (.next (.next (.next (.front (.refl _ _))))))
      · rename_i hslow
        rw [if_neg hslow]
        cases List.mem_singleton.mp h
        exact .next (.next (.next (.next (.next (.next (.front (.refl _ _)))))))
  | defOp name params body =>
    rw [codeOp, Code.function]
    rw [blocks] at h
    split at h
    · rename_i entry hentry
      cases List.mem_singleton.mp h
      rw [hentry]
      exact .back (.front (.refl _ _))
    · cases h
  | matchOp value cases default =>
    rcases List.mem_cons.mp h with h | h
    · cases h
      exact .front (.refl _ _)
    · refine .back (.next ?_)
      rcases List.mem_append.mp h with h | h
      · exact .front (caseBlocks_standsIn h)
      · cases default with
        | none => cases h
        | some ops =>
          cases List.mem_singleton.mp h
          refine .back ?_
          rw [Code.cases_length _ (_ + _)]
          exact .refl _ _
  | _ => cases h

/-- The code of an operation is a piece of the code it is compiled in. -/
theorem Compiles.standsIn {ops : List (Op F)} {op : Op F} {pos s : Nat}
    (h : Compiles table ops pos op s) :
    StandsIn (codeOps table ops pos) pos (codeOp table op s) s := by
  induction h with
  | head => exact .front (.refl _ _)
  | tail _ ih => exact .back ih
  | block hb _ ih => exact .front ((blocks_standsIn hb).trans ih)

theorem LoopIn.head {op : Op F} {ops : List (Op F)} {pos start last : Nat}
    (h : backJump table op pos = some (start, last)) : LoopIn table (op :: ops) pos start last :=
  ⟨op, pos, .head, h⟩

theorem LoopIn.block {op : Op F} {ops block : List (Op F)} {pos s start last : Nat}
    (hb : (block, s) ∈ blocks table op pos) (h : LoopIn table block s start last) :
    LoopIn table (op :: ops) pos start last := by
  obtain ⟨op', s', hc, hback⟩ := h
  exact ⟨op', s', .block hb hc, hback⟩

theorem LoopIn.tail {op : Op F} {ops : List (Op F)} {pos start last : Nat}
    (h : LoopIn table ops (pos + (codeOp table op pos).length) start last) :
    LoopIn table (op :: ops) pos start last := by
  obtain ⟨op', s', hc, hback⟩ := h
  exact ⟨op', s', .tail hc, hback⟩

theorem LoopIn.single {op : Op F} {ops : List (Op F)} {pos start last : Nat}
    (h : LoopIn table [op] pos start last) : LoopIn table (op :: ops) pos start last := by
  obtain ⟨op', s', hc, hback⟩ := h
  cases hc with
  | head => exact .head hback
  | tail hc => cases hc
  | block hb hc => exact ⟨op', s', .block hb hc, hback⟩

theorem le_of_backJump {op : Op F} {pos start last : Nat}
    (h : backJump table op pos = some (start, last)) : pos ≤ start ∧ start ≤ last := by
  cases op with
  | whileOp condition body =>
    cases h
    omega
  | loop count body =>
    rw [backJump] at h
    split at h
    · cases h
    · split at h
      · cases h
        omega
      · cases h
        omega
  | _ => cases h

theorem LoopIn.le {ops : List (Op F)} {pos start last : Nat}
    (h : LoopIn table ops pos start last) : pos ≤ start ∧ start ≤ last := by
  obtain ⟨op, s, hc, hback⟩ := h
  have hle := hc.standsIn.le
  have hback := le_of_backJump hback
  omega

/-! ### Jumps -/

/-- A jump at `i` goes forward, at most to `last`, or back as `Back` says. -/
def Aimed (Back : Nat → Nat → Prop) (last i : Nat) : BytecodeOp F → Prop
  | .jumpIfZero addr => i < addr ∧ addr ≤ last
  | .jump addr => i < addr ∧ addr ≤ last ∨ Back addr i
  | _ => True

/-- The jumps of the code at `pos` are aimed so. -/
def JumpsStay (Back : Nat → Nat → Prop) (last : Nat) : Nat → List (BytecodeOp F) → Prop
  | _, [] => True
  | pos, i :: code => Aimed Back last pos i ∧ JumpsStay Back last (pos + 1) code

section closed
variable {Back Back' : Nat → Nat → Prop} {last last' pos : Nat} {code : List (BytecodeOp F)}

omit [Number F] in
theorem Aimed.mono {i : BytecodeOp F} (hback : ∀ i j, Back i j → Back' i j)
    (hlast : last ≤ last') (h : Aimed Back last pos i) : Aimed Back' last' pos i := by
  cases i with
  | jumpIfZero addr => exact ⟨h.1, h.2.trans hlast⟩
  | jump addr => exact h.imp (fun h => ⟨h.1, h.2.trans hlast⟩) (hback _ _)
  | _ => trivial

omit [Number F] in
theorem JumpsStay.mono (hback : ∀ i j, Back i j → Back' i j) (hlast : last ≤ last')
    (h : JumpsStay Back last pos code) : JumpsStay Back' last' pos code := by
  induction code generalizing pos with
  | nil => trivial
  | cons i code ih => exact ⟨h.1.mono hback hlast, ih h.2⟩

omit [Number F] in
theorem jumpsStay_append {a b : List (BytecodeOp F)} :
    JumpsStay Back last pos (a ++ b) ↔
      JumpsStay Back last pos a ∧ JumpsStay Back last (pos + a.length) b := by
  induction a generalizing pos with
  | nil => simp [JumpsStay]
  | cons i a ih => simp [JumpsStay, ih, and_assoc, Nat.add_assoc, Nat.add_comm 1]

end closed

/-- The jumps of the code of `ops` at `pos` stay within it. -/
abbrev OpsClosed (table : HashMap Nat) (ops : List (Op F)) (pos : Nat) : Prop :=
  JumpsStay (LoopIn table ops pos) (pos + (codeOps table ops pos).length) pos
    (codeOps table ops pos)

/-- The jumps of the code of `op` at `pos` stay within it. -/
abbrev OpClosed (table : HashMap Nat) (op : Op F) (pos : Nat) : Prop :=
  JumpsStay (LoopIn table [op] pos) (pos + (codeOp table op pos).length) pos (codeOp table op pos)

/-- The jumps of a block stay within the code of its operation. -/
theorem OpsClosed.block {op : Op F} {block : List (Op F)} {pos s : Nat}
    (h : OpsClosed table block s) (hb : (block, s) ∈ blocks table op pos) :
    JumpsStay (LoopIn table [op] pos) (pos + (codeOp table op pos).length) s
      (codeOps table block s) :=
  h.mono (fun _ _ => .block hb) (blocks_standsIn hb).end_le

theorem closed_unrolled {body : List (Op F)} {count pos last : Nat} {Back : Nat → Nat → Prop}
    (h : ∀ s, (body, s) ∈ copies table body count pos →
      JumpsStay Back last s (codeOps table body s)) :
    JumpsStay Back last pos (Code.unrolled (codeOps table body) count pos) := by
  induction count generalizing pos with
  | zero => trivial
  | succ count ih =>
    refine jumpsStay_append.mpr ⟨h pos (.head _), ih fun s hs => h s (.tail _ hs)⟩

theorem closed_cases {cases : List (TypedValue F × List (Op F))} {matchVar : String}
    {target pos last : Nat} {Back : Nat → Nat → Prop}
    (h : ∀ block s, (block, s) ∈ caseBlocks table cases pos →
      JumpsStay Back last s (codeOps table block s))
    (hlast : pos + (Code.cases matchVar target (codeArms table cases) pos).length ≤ target)
    (htarget : target ≤ last) :
    JumpsStay Back last pos (Code.cases matchVar target (codeArms table cases) pos) := by
  induction cases generalizing pos with
  | nil => trivial
  | cons arm cases ih =>
    obtain ⟨v, caseBody⟩ := arm
    have hpos : pos + 1 + 1 + 1 + 1 + (codeOps table caseBody (pos + 4)).length + 1 =
        pos + (codeOps table caseBody (pos + 4)).length + 5 := by omega
    simp only [codeArms, Code.cases, List.length_cons, List.length_append] at hlast
    have hrest := ih (fun block s hs => h block s (.tail _ hs)) (by omega)
    refine ⟨trivial, trivial, trivial, ⟨by omega, by omega⟩, jumpsStay_append.mpr
      ⟨h _ _ (.head _), .inl ⟨by omega, htarget⟩, ?_⟩⟩
    rw [hpos]
    exact hrest

section loops
variable {count : Nat} {body : List (Op F)}

theorem codeOp_unrolled (h : count ≤ 5) :
    codeOp table (.loop count body) = .unrolled (codeOps table body) count := by
  rw [codeOp, Code.loop, if_pos h]

theorem codeOp_fast (h : ¬ count ≤ 5) (hfast : count = 1000 ∧ body.length ≤ 5) :
    codeOp table (.loop count body) = .fastLoop count (codeOps table body) := by
  rw [codeOp, Code.loop, if_neg h, if_pos hfast]

theorem codeOp_counted (h : ¬ count ≤ 5) (hslow : ¬ (count = 1000 ∧ body.length ≤ 5)) :
    codeOp table (.loop count body) = .countedLoop count (codeOps table body) := by
  rw [codeOp, Code.loop, if_neg h, if_neg hslow]

theorem mem_blocks_unrolled {pos s : Nat} (h : count ≤ 5)
    (hs : (body, s) ∈ copies table body count pos) :
    (body, s) ∈ blocks table (.loop count body) pos := by
  rwa [blocks, if_pos h]

theorem mem_blocks_fast (h : ¬ count ≤ 5) (hfast : count = 1000 ∧ body.length ≤ 5) (pos : Nat) :
    (body, pos + 5) ∈ blocks table (.loop count body) pos := by
  rw [blocks, if_neg h, if_pos hfast]
  exact .head _

theorem mem_blocks_counted (h : ¬ count ≤ 5) (hslow : ¬ (count = 1000 ∧ body.length ≤ 5))
    (pos : Nat) : (body, pos + 6) ∈ blocks table (.loop count body) pos := by
  rw [blocks, if_neg h, if_neg hslow]
  exact .head _

end loops

theorem ifOp_closed {condition thenOps : List (Op F)} {elseOps : Option (List (Op F))}
    (hc : ∀ pos, OpsClosed table condition pos) (ht : ∀ pos, OpsClosed table thenOps pos)
    (he : ∀ ops ∈ elseOps, ∀ pos, OpsClosed table ops pos) (pos : Nat) :
    OpClosed table (.ifOp condition thenOps elseOps) pos := by
  have hthen := ht (pos + (codeOps table condition pos).length + 1)
  cases elseOps with
  | none =>
    refine jumpsStay_append.mpr ⟨(hc pos).block (.head _), ⟨?_, ?_⟩,
      hthen.block (.tail _ (.head _))⟩
    · omega
    · simp [codeOp, codeOptional, Code.conditional, Code.ifThen]
      omega
  | some elseOps =>
    have helse := he elseOps rfl (pos + (codeOps table condition pos).length + 1 +
      (codeOps table thenOps (pos + (codeOps table condition pos).length + 1)).length + 1)
    refine jumpsStay_append.mpr ⟨(hc pos).block (.head _), ⟨?_, ?_⟩, jumpsStay_append.mpr
      ⟨hthen.block (.tail _ (.head _)), .inl ⟨?_, ?_⟩, helse.block (.tail _ (.tail _ (.head _)))⟩⟩
    · omega
    · simp [codeOp, codeOptional, Code.conditional, Code.ifThenElse]
      omega
    · omega
    · simp [codeOp, codeOptional, Code.conditional, Code.ifThenElse]
      omega

theorem whileOp_closed {condition body : List (Op F)} (hc : ∀ pos, OpsClosed table condition pos)
    (hb : ∀ pos, OpsClosed table body pos) (pos : Nat) :
    OpClosed table (.whileOp condition body) pos := by
  have hbody := hb (pos + (codeOps table condition pos).length + 1)
  refine jumpsStay_append.mpr ⟨(hc pos).block (.head _), ⟨?_, ?_⟩, jumpsStay_append.mpr
    ⟨hbody.block (.tail _ (.head _)), .inr (.head rfl), trivial⟩⟩
  · omega
  · simp [codeOp, Code.whileLoop]
    omega

theorem loop_closed {count : Nat} {body : List (Op F)} (hb : ∀ pos, OpsClosed table body pos)
    (pos : Nat) : OpClosed table (.loop count body) pos := by
  by_cases hc : count ≤ 5
  · have hclosed : JumpsStay (LoopIn table [.loop count body] pos)
        (pos + (codeOp table (.loop count body) pos).length) pos
        (Code.unrolled (codeOps table body) count pos) :=
      closed_unrolled fun s hs => (hb s).block (mem_blocks_unrolled hc hs)
    rwa [← codeOp_unrolled hc] at hclosed
  by_cases hfast : count = 1000 ∧ body.length ≤ 5
  · have hback : backJump table (.loop count body) pos =
        some (pos + 1, pos + (codeOps table body (pos + 5)).length + 7) := by
      rw [backJump, if_neg hc, if_pos hfast]
    have hbody := (hb (pos + 5)).block (mem_blocks_fast hc hfast pos)
    rw [OpClosed]
    rw [codeOp_fast hc hfast] at hbody ⊢
    refine ⟨trivial, trivial, trivial, trivial, ⟨?_, ?_⟩, jumpsStay_append.mpr
      ⟨hbody, trivial, trivial, .inr (.head ?_), trivial, trivial⟩⟩
    · omega
    · simp [Code.fastLoop]
      omega
    · rw [hback]
      simp
      omega
  · have hback : backJump table (.loop count body) pos =
        some (pos + 2, pos + (codeOps table body (pos + 6)).length + 10) := by
      rw [backJump, if_neg hc, if_neg hfast]
    have hbody := (hb (pos + 6)).block (mem_blocks_counted hc hfast pos)
    rw [OpClosed]
    rw [codeOp_counted hc hfast] at hbody ⊢
    refine ⟨trivial, trivial, trivial, trivial, trivial, ⟨?_, ?_⟩, jumpsStay_append.mpr
      ⟨hbody, trivial, trivial, trivial, trivial, .inr (.head ?_), trivial⟩⟩
    · omega
    · simp [Code.countedLoop]
      omega
    · rw [hback]
      simp
      omega

theorem defOp_closed {name : String} {params : List String} {body : List (Op F)}
    (hb : ∀ pos, OpsClosed table body pos) (pos : Nat) :
    OpClosed table (.defOp name params body) pos := by
  cases hentry : table.lookup name with
  | none =>
    have hcode : codeOp table (.defOp name params body) = .nil := by
      rw [codeOp, Code.function, hentry]
    rw [OpClosed, hcode]
    trivial
  | some entry =>
    have hcode : codeOp table (.defOp name params body) =
        .seq (.one (.functionEntry name params)) (.seq (codeOps table body) (.one .returnOp)) := by
      rw [codeOp, Code.function, hentry]
    have hblock : (body, pos + 1) ∈ blocks table (.defOp name params body) pos := by
      rw [blocks, hentry]
      exact .head _
    have hbody := (hb (pos + 1)).block hblock
    rw [OpClosed]
    rw [hcode] at hbody ⊢
    exact jumpsStay_append.mpr ⟨⟨trivial, trivial⟩, jumpsStay_append.mpr ⟨hbody, trivial, trivial⟩⟩

theorem matchOp_closed {value : List (Op F)} {cases : List (TypedValue F × List (Op F))}
    {default : Option (List (Op F))} (hv : ∀ pos, OpsClosed table value pos)
    (hcases : ∀ arm ∈ cases, ∀ pos, OpsClosed table arm.2 pos)
    (hdefault : ∀ ops ∈ default, ∀ pos, OpsClosed table ops pos) (pos : Nat) :
    OpClosed table (.matchOp value cases default) pos := by
  refine jumpsStay_append.mpr ⟨(hv pos).block (.head _), trivial, jumpsStay_append.mpr
    ⟨closed_cases ?_ ?_ ?_, ?_⟩⟩
  · intro block s hs
    obtain ⟨arm, harm, rfl⟩ := mem_of_caseBlocks hs
    exact (hcases arm harm s).block (.tail _ (List.mem_append_left _ hs))
  · rw [Code.cases_length]
    omega
  · simp [codeOp, Code.matchOn]
    omega
  · cases default with
    | none => trivial
    | some ops =>
      rw [Code.cases_length _ (_ + _)]
      exact (hdefault ops rfl _).block (.tail _ (List.mem_append_right _ (.head _)))

mutual

theorem codeOp_closed (op : Op F) (pos : Nat) : OpClosed table op pos := by
  cases op with
  | ifOp condition thenOps elseOps =>
    exact ifOp_closed (codeOps_closed condition) (codeOps_closed thenOps)
      (codeOptional_closed elseOps) pos
  | whileOp condition body =>
    exact whileOp_closed (codeOps_closed condition) (codeOps_closed body) pos
  | loop count body => exact loop_closed (codeOps_closed body) pos
  | defOp name params body => exact defOp_closed (codeOps_closed body) pos
  | matchOp value cases default =>
    exact matchOp_closed (codeOps_closed value) (codeArms_closed cases)
      (codeOptional_closed default) pos
  | _ => exact ⟨trivial, trivial⟩

theorem codeOps_closed (ops : List (Op F)) (pos : Nat) : OpsClosed table ops pos := by
  cases ops with
  | nil => trivial
  | cons op ops =>
    have hop := codeOp_closed op pos
    have hops := codeOps_closed ops (pos + (codeOp table op pos).length)
    refine jumpsStay_append.mpr ⟨hop.mono (fun _ _ => .single) ?_, hops.mono (fun _ _ => .tail) ?_⟩
    · simp [codeOps, Code.seq]
    · simp [codeOps, Code.seq, Nat.add_assoc]

theorem codeOptional_closed (block : Option (List (Op F))) :
    ∀ ops ∈ block, ∀ pos, OpsClosed table ops pos := by
  cases block with
  | none => exact fun _ h => absurd h (Option.not_mem_none _)
  | some ops =>
    intro _ h
    cases h
    exact codeOps_closed ops

theorem codeArms_closed (cases : List (TypedValue F × List (Op F))) :
    ∀ arm ∈ cases, ∀ pos, OpsClosed table arm.2 pos := by
  cases cases with
  | nil => exact fun _ h => absurd h List.not_mem_nil
  | cons arm cases =>
    obtain ⟨v, caseBody⟩ := arm
    intro other h
    cases h with
    | head => exact codeOps_closed caseBody
    | tail _ h => exact codeArms_closed cases other h

end

end blocks

/-! ### The same code elsewhere -/

namespace BytecodeOp

/-- The address of a jump. -/
def address : BytecodeOp F → Option Nat
  | .jumpIfZero addr | .jump addr => some addr
  | _ => none

/-- The variable of a `Store` or a `Load`. -/
def varName : BytecodeOp F → Option String
  | .store name | .load name => some name
  | _ => none

end BytecodeOp

/-- A temporary of code at `a`, and the same temporary of the code at `b`. -/
inductive Renamed (a b : Nat) : String → String → Prop
  | loopCounter {n m : Nat} (h : m + a = n + b) :
      Renamed a b (BytecodeCompiler.loopCounter n) (BytecodeCompiler.loopCounter m)
  | matchValue {n m : Nat} (h : m + a = n + b) :
      Renamed a b (BytecodeCompiler.matchValue n) (BytecodeCompiler.matchValue m)

/-- An instruction of code at `a`, and the same instruction of the code at `b`. Only the names of
`Written` stay as they are. -/
inductive Moved (Written : String → Prop) (a b : Nat) : BytecodeOp F → BytecodeOp F → Prop
  | same {i : BytecodeOp F} (hjump : i.address = none)
      (hname : ∀ name ∈ i.varName, Written name) : Moved Written a b i i
  | jumpIfZero {n m : Nat} (h : m + a = n + b) : Moved Written a b (.jumpIfZero n) (.jumpIfZero m)
  | jump {n m : Nat} (h : m + a = n + b) : Moved Written a b (.jump n) (.jump m)
  | store {name name' : String} (h : Renamed a b name name') :
      Moved Written a b (.store name) (.store name')
  | load {name name' : String} (h : Renamed a b name name') :
      Moved Written a b (.load name) (.load name')

/-- An instruction that neither jumps nor names a variable. -/
theorem Moved.plain {Written : String → Prop} {a b : Nat} {i : BytecodeOp F}
    (hjump : i.address = none) (hname : i.varName = none) : Moved Written a b i i :=
  .same hjump fun name h => absurd (hname ▸ h) (Option.not_mem_none name)

theorem Renamed.rebase {a b s t : Nat} {name name' : String} (h : Renamed s t name name')
    (hd : s + b = a + t) : Renamed a b name name' := by
  cases h with
  | loopCounter h => exact .loopCounter (by omega)
  | matchValue h => exact .matchValue (by omega)

/-- Code within other code moves as far as that does. -/
theorem Moved.rebase {Written Written' : String → Prop} {a b s t : Nat} {i i' : BytecodeOp F}
    (h : Moved Written s t i i') (hw : ∀ name, Written name → Written' name)
    (hd : s + b = a + t) : Moved Written' a b i i' := by
  cases h with
  | same hjump hname => exact .same hjump fun name hn => hw name (hname name hn)
  | jumpIfZero h => exact .jumpIfZero (by omega)
  | jump h => exact .jump (by omega)
  | store h => exact .store (h.rebase hd)
  | load h => exact .load (h.rebase hd)

section moves
variable [Number F] {table : HashMap Nat}

/-- The variables that the operations themselves name. -/
def Names (table : HashMap Nat) (ops : List (Op F)) (pos : Nat) (name : String) : Prop :=
  ∃ s, Compiles table ops pos (.store name) s ∨ Compiles table ops pos (.load name) s

theorem Names.block {op : Op F} {ops block : List (Op F)} {pos s : Nat} {name : String}
    (hb : (block, s) ∈ blocks table op pos) (h : Names table block s name) :
    Names table (op :: ops) pos name := by
  obtain ⟨t, h⟩ := h
  exact ⟨t, h.imp (.block hb) (.block hb)⟩

theorem Names.tail {op : Op F} {ops : List (Op F)} {pos : Nat} {name : String}
    (h : Names table ops (pos + (codeOp table op pos).length) name) :
    Names table (op :: ops) pos name := by
  obtain ⟨t, h⟩ := h
  exact ⟨t, h.imp .tail .tail⟩

theorem Compiles.of_single {op op' : Op F} {ops : List (Op F)} {pos s : Nat}
    (h : Compiles table [op] pos op' s) : Compiles table (op :: ops) pos op' s := by
  cases h with
  | head => exact .head
  | tail h => cases h
  | block hb h => exact .block hb h

/-- The code of `ops` at `b` is that at `a`, moved. -/
abbrev OpsMoved (table : HashMap Nat) (ops : List (Op F)) (a b : Nat) : Prop :=
  List.Forall₂ (Moved (Names table ops a) a b) (codeOps table ops a) (codeOps table ops b)

/-- The code of `op` at `b` is that at `a`, moved. -/
abbrev OpMoved (table : HashMap Nat) (op : Op F) (a b : Nat) : Prop :=
  List.Forall₂ (Moved (Names table [op] a) a b) (codeOp table op a) (codeOp table op b)

theorem OpsMoved.block {op : Op F} {block : List (Op F)} {a b s t : Nat}
    (h : OpsMoved table block s t) (hb : (block, s) ∈ blocks table op a) (hd : s + b = a + t) :
    List.Forall₂ (Moved (Names table [op] a) a b) (codeOps table block s) (codeOps table block t) :=
  h.imp fun _ _ h => h.rebase (fun _ => .block hb) hd

theorem ifOp_moved {condition thenOps : List (Op F)} {elseOps : Option (List (Op F))}
    (hc : ∀ a b, OpsMoved table condition a b) (ht : ∀ a b, OpsMoved table thenOps a b)
    (he : ∀ ops ∈ elseOps, ∀ a b, OpsMoved table ops a b) (a b : Nat) :
    OpMoved table (.ifOp condition thenOps elseOps) a b := by
  have hclen := (hc a b).length_eq
  have hthen := ht (a + (codeOps table condition a).length + 1)
    (b + (codeOps table condition b).length + 1)
  have htlen := hthen.length_eq
  cases elseOps with
  | none =>
    refine List.rel_append ((hc a b).block (.head _) (by omega)) (.cons (.jumpIfZero ?_) ?_)
    · omega
    · exact hthen.block (.tail _ (.head _)) (by omega)
  | some elseOps =>
    have helse := he elseOps rfl (a + (codeOps table condition a).length + 1 +
      (codeOps table thenOps (a + (codeOps table condition a).length + 1)).length + 1)
      (b + (codeOps table condition b).length + 1 +
      (codeOps table thenOps (b + (codeOps table condition b).length + 1)).length + 1)
    have helen := helse.length_eq
    refine List.rel_append ((hc a b).block (.head _) (by omega)) (.cons (.jumpIfZero ?_)
      (List.rel_append ?_ (.cons (.jump ?_) ?_)))
    · omega
    · exact hthen.block (.tail _ (.head _)) (by omega)
    · omega
    · exact helse.block (.tail _ (.tail _ (.head _))) (by omega)

theorem whileOp_moved {condition body : List (Op F)} (hc : ∀ a b, OpsMoved table condition a b)
    (hb : ∀ a b, OpsMoved table body a b) (a b : Nat) :
    OpMoved table (.whileOp condition body) a b := by
  have hclen := (hc a b).length_eq
  have hbody := hb (a + (codeOps table condition a).length + 1)
    (b + (codeOps table condition b).length + 1)
  have hblen := hbody.length_eq
  refine List.rel_append ((hc a b).block (.head _) (by omega)) (.cons (.jumpIfZero ?_)
    (List.rel_append ?_ (.cons (.jump ?_) .nil)))
  · omega
  · exact hbody.block (.tail _ (.head _)) (by omega)
  · omega

theorem unrolled_moved {Written : String → Prop} {body : List (Op F)} {count a b s t : Nat}
    (hb : ∀ a b, OpsMoved table body a b)
    (hw : ∀ r, (body, r) ∈ copies table body count s →
      ∀ name, Names table body r name → Written name)
    (hd : s + b = a + t) :
    List.Forall₂ (Moved Written a b) (Code.unrolled (codeOps table body) count s)
      (Code.unrolled (codeOps table body) count t) := by
  induction count generalizing s t with
  | zero => exact .nil
  | succ count ih =>
    have hlen := (hb s t).length_eq
    refine List.rel_append ?_ (ih ?_ ?_)
    · exact (hb s t).imp fun _ _ h => h.rebase (hw s (.head _)) hd
    · exact fun r hr => hw r (.tail _ hr)
    · omega

theorem loop_moved {count : Nat} {body : List (Op F)} (hb : ∀ a b, OpsMoved table body a b)
    (a b : Nat) : OpMoved table (.loop count body) a b := by
  by_cases hc : count ≤ 5
  · rw [OpMoved, codeOp_unrolled hc]
    refine unrolled_moved hb ?_ (by omega)
    intro r hr name hname
    exact hname.block (mem_blocks_unrolled hc hr)
  by_cases hfast : count = 1000 ∧ body.length ≤ 5
  · have hbody := (hb (a + 5) (b + 5)).block (b := b) (mem_blocks_fast hc hfast a) (by omega)
    have hlen := hbody.length_eq
    rw [OpMoved, codeOp_fast hc hfast]
    refine .cons (.plain rfl rfl) (.cons (.plain rfl rfl) (.cons (.plain rfl rfl)
      (.cons (.plain rfl rfl) (.cons (.jumpIfZero ?_) (List.rel_append hbody
        (.cons (.plain rfl rfl) (.cons (.plain rfl rfl) (.cons (.jump ?_)
          (.cons (.plain rfl rfl) .nil)))))))))
    · omega
    · omega
  · have hbody := (hb (a + 6) (b + 6)).block (b := b) (mem_blocks_counted hc hfast a)
      (by omega)
    have hlen := hbody.length_eq
    have hvar : Renamed a b (BytecodeCompiler.loopCounter (a + 1))
        (BytecodeCompiler.loopCounter (b + 1)) := .loopCounter (by omega)
    rw [OpMoved, codeOp_counted hc hfast]
    refine .cons (.plain rfl rfl) (.cons (.store hvar) (.cons (.load hvar) (.cons (.plain rfl rfl)
      (.cons (.plain rfl rfl) (.cons (.jumpIfZero ?_) (List.rel_append hbody
        (.cons (.load hvar) (.cons (.plain rfl rfl) (.cons (.plain rfl rfl) (.cons (.store hvar)
          (.cons (.jump ?_) .nil)))))))))))
    · omega
    · omega

theorem defOp_moved {name : String} {params : List String} {body : List (Op F)}
    (hb : ∀ a b, OpsMoved table body a b) (a b : Nat) :
    OpMoved table (.defOp name params body) a b := by
  cases hentry : table.lookup name with
  | none =>
    have hcode : codeOp table (.defOp name params body) = .nil := by
      rw [codeOp, Code.function, hentry]
    rw [OpMoved, hcode]
    exact .nil
  | some entry =>
    have hcode : codeOp table (.defOp name params body) =
        .seq (.one (.functionEntry name params)) (.seq (codeOps table body) (.one .returnOp)) := by
      rw [codeOp, Code.function, hentry]
    have hblock : (body, a + 1) ∈ blocks table (.defOp name params body) a := by
      rw [blocks, hentry]
      exact .head _
    have hbody := (hb (a + 1) (b + 1)).block (b := b) hblock (by omega)
    rw [OpMoved, hcode]
    exact .cons (.plain rfl rfl) (List.rel_append hbody (.cons (.plain rfl rfl) .nil))

theorem cases_moved {Written : String → Prop} {cases : List (TypedValue F × List (Op F))}
    {matchVar matchVar' : String} {target target' a b s t : Nat}
    (hcases : ∀ arm ∈ cases, ∀ a b, OpsMoved table arm.2 a b)
    (hw : ∀ block r, (block, r) ∈ caseBlocks table cases s →
      ∀ name, Names table block r name → Written name)
    (hvar : Renamed a b matchVar matchVar') (htarget : target' + a = target + b)
    (hd : s + b = a + t) :
    List.Forall₂ (Moved Written a b) (Code.cases matchVar target (codeArms table cases) s)
      (Code.cases matchVar' target' (codeArms table cases) t) := by
  induction cases generalizing s t with
  | nil => exact .nil
  | cons arm cases ih =>
    obtain ⟨v, caseBody⟩ := arm
    have hbody := hcases (v, caseBody) (.head _) (s + 4) (t + 4)
    have hlen := hbody.length_eq
    dsimp only at hbody hlen
    refine .cons (.load hvar) (.cons (.plain rfl rfl) (.cons (.plain rfl rfl)
      (.cons (.jumpIfZero ?_) (List.rel_append ?_ (.cons (.jump htarget) (ih ?_ ?_ ?_))))))
    · omega
    · exact hbody.imp fun _ _ h => h.rebase (hw caseBody (s + 4) (.head _)) (by omega)
    · exact fun arm harm => hcases arm (.tail _ harm)
    · exact fun block r hr => hw block r (.tail _ hr)
    · omega

theorem matchOp_moved {value : List (Op F)} {cases : List (TypedValue F × List (Op F))}
    {default : Option (List (Op F))} (hv : ∀ a b, OpsMoved table value a b)
    (hcases : ∀ arm ∈ cases, ∀ a b, OpsMoved table arm.2 a b)
    (hdefault : ∀ ops ∈ default, ∀ a b, OpsMoved table ops a b) (a b : Nat) :
    OpMoved table (.matchOp value cases default) a b := by
  have hvlen := (hv a b).length_eq
  have hvar : Renamed a b (BytecodeCompiler.matchValue (a + (codeOps table value a).length))
      (BytecodeCompiler.matchValue (b + (codeOps table value b).length)) :=
    .matchValue (by omega)
  have hmoved : ∀ target target', target' + a = target + b →
      List.Forall₂ (Moved (Names table [.matchOp value cases default] a) a b)
        (Code.cases (BytecodeCompiler.matchValue (a + (codeOps table value a).length)) target
          (codeArms table cases) (a + (codeOps table value a).length + 1))
        (Code.cases (BytecodeCompiler.matchValue (b + (codeOps table value b).length)) target'
          (codeArms table cases) (b + (codeOps table value b).length + 1)) := by
    intro target target' htarget
    refine cases_moved hcases ?_ hvar htarget (by omega)
    intro block r hr name hname
    exact hname.block (.tail _ (List.mem_append_left _ hr))
  have hlen := (hmoved a b (by omega)).length_eq
  rw [Code.cases_length, Code.cases_length _ b] at hlen
  cases default with
  | none =>
    refine List.rel_append ((hv a b).block (.head _) (by omega)) (.cons (.store hvar)
      (List.rel_append (hmoved _ _ ?_) .nil))
    simp only [codeOptional, Code.orNil, Code.nil, List.length_nil]
    omega
  | some ops =>
    have hops := hdefault ops rfl (a + (codeOps table value a).length + 1 + (Code.cases
        (BytecodeCompiler.matchValue (a + (codeOps table value a).length)) 0 (codeArms table cases)
        (a + (codeOps table value a).length + 1)).length)
      (b + (codeOps table value b).length + 1 + (Code.cases
        (BytecodeCompiler.matchValue (b + (codeOps table value b).length)) 0 (codeArms table cases)
        (b + (codeOps table value b).length + 1)).length)
    have holen := hops.length_eq
    refine List.rel_append ((hv a b).block (.head _) (by omega)) (.cons (.store hvar)
      (List.rel_append (hmoved _ _ ?_) ?_))
    · simp only [codeOptional, Code.orNil]
      omega
    · exact hops.block (.tail _ (List.mem_append_right _ (.head _))) (by omega)

mutual

theorem codeOp_moved (op : Op F) (a b : Nat) : OpMoved table op a b := by
  cases op with
  | ifOp condition thenOps elseOps =>
    exact ifOp_moved (codeOps_moved condition) (codeOps_moved thenOps)
      (codeOptional_moved elseOps) a b
  | whileOp condition body => exact whileOp_moved (codeOps_moved condition) (codeOps_moved body) a b
  | loop count body => exact loop_moved (codeOps_moved body) a b
  | defOp name params body => exact defOp_moved (codeOps_moved body) a b
  | matchOp value cases default =>
    exact matchOp_moved (codeOps_moved value) (codeArms_moved cases)
      (codeOptional_moved default) a b
  | store name => exact .cons (.same rfl fun _ h => ⟨a, .inl (by cases h; exact .head)⟩) .nil
  | load name => exact .cons (.same rfl fun _ h => ⟨a, .inr (by cases h; exact .head)⟩) .nil
  | _ => exact .cons (.plain rfl rfl) .nil

theorem codeOps_moved (ops : List (Op F)) (a b : Nat) : OpsMoved table ops a b := by
  cases ops with
  | nil => exact .nil
  | cons op ops =>
    have hop := codeOp_moved op a b
    have hlen := hop.length_eq
    have hops := codeOps_moved ops (a + (codeOp table op a).length) (b + (codeOp table op b).length)
    refine List.rel_append (hop.imp ?_) (hops.imp ?_)
    · rintro _ _ h
      refine h.rebase ?_ (by omega)
      rintro name ⟨s, hs⟩
      exact ⟨s, hs.imp .of_single .of_single⟩
    · exact fun _ _ h => h.rebase (fun _ => .tail) (by omega)

theorem codeOptional_moved (block : Option (List (Op F))) :
    ∀ ops ∈ block, ∀ a b, OpsMoved table ops a b := by
  cases block with
  | none => exact fun _ h => absurd h (Option.not_mem_none _)
  | some ops =>
    intro _ h
    cases h
    exact codeOps_moved ops

theorem codeArms_moved (cases : List (TypedValue F × List (Op F))) :
    ∀ arm ∈ cases, ∀ a b, OpsMoved table arm.2 a b := by
  cases cases with
  | nil => exact fun _ h => absurd h List.not_mem_nil
  | cons arm cases =>
    obtain ⟨v, caseBody⟩ := arm
    intro other h
    cases h with
    | head => exact codeOps_moved caseBody
    | tail _ h => exact codeArms_moved cases other h

end

end moves

/-- `compile_ops` appends a segment and changes nothing else. Each operation it compiles has its
piece of the segment, whose jumps stay within it: forward, or back to the test of the loop they end.
Behind other instructions the segment is the same, moved. -/
theorem compileOps_relocatable [Number F] (ops : List (Op F)) (p : BytecodeProgram F) :
    ∃ segment, BytecodeCompiler.compileOps ops p = ((), BytecodeCompiler.appended p segment) ∧
      (∀ op s, Compiles p.functionTable ops p.instructions.length op s →
        StandsIn segment p.instructions.length (codeOp p.functionTable op s) s ∧
          JumpsStay (fun start i => s ≤ start ∧ start ≤ i ∧ LoopIn p.functionTable [op] s start i)
            (s + (codeOp p.functionTable op s).length) s (codeOp p.functionTable op s)) ∧
      ∀ instructions, ∃ segment',
        BytecodeCompiler.compileOps ops { p with instructions := instructions } =
          ((), BytecodeCompiler.appended { p with instructions := instructions } segment') ∧
        List.Forall₂ (Moved (Names p.functionTable ops p.instructions.length)
          p.instructions.length instructions.length) segment segment' := by
  refine ⟨_, BytecodeCompiler.compileOps_emits ops p rfl, ?_, fun instructions => ?_⟩
  · intro op s h
    refine ⟨h.standsIn, (codeOp_closed op s).mono ?_ le_rfl⟩
    intro start i hloop
    exact ⟨hloop.le.1, hloop.le.2, hloop⟩
  · exact ⟨_, BytecodeCompiler.compileOps_emits ops { p with instructions := instructions } rfl,
      codeOps_moved ops _ _⟩

end Covm
