import Covm.Bytecode.Compiler

/-!
# The code the compiler emits

What the compiler appends for a block depends only on the position it is appended at. `codeOps`
says what it is: the same constructs, with every jump already aimed at its target. `compileOps`
emits exactly this code (`compileOps_emits`), so nothing of placeholders and patching is left in the
rest of the development.
-/

namespace Covm

variable {F : Type}

/-- Relocatable code: the instructions, given the position of the first one. -/
abbrev Code (F : Type) := Nat → List (BytecodeOp F)

namespace Code

def nil : Code F := fun _ => []

def one (i : BytecodeOp F) : Code F := fun _ => [i]

def seq (a b : Code F) : Code F := fun pos => a pos ++ b (pos + (a pos).length)

def orNil : Option (Code F) → Code F
  | some code => code
  | none => nil

def ifThen (condition thenBranch : Code F) : Code F := fun pos =>
  let c := condition pos
  let t := thenBranch (pos + c.length + 1)
  c ++ .jumpIfZero (pos + c.length + 1 + t.length) :: t

def ifThenElse (condition thenBranch elseBranch : Code F) : Code F := fun pos =>
  let c := condition pos
  let t := thenBranch (pos + c.length + 1)
  let elsePos := pos + c.length + 1 + t.length + 1
  let e := elseBranch elsePos
  c ++ .jumpIfZero elsePos :: (t ++ .jump (elsePos + e.length) :: e)

def conditional (condition thenBranch : Code F) : Option (Code F) → Code F
  | some elseBranch => ifThenElse condition thenBranch elseBranch
  | none => ifThen condition thenBranch

def whileLoop (condition body : Code F) : Code F := fun pos =>
  let c := condition pos
  let b := body (pos + c.length + 1)
  c ++ .jumpIfZero (pos + c.length + 1 + b.length + 1) :: (b ++ [.jump pos])

def unrolled (body : Code F) : Nat → Code F
  | 0 => nil
  | count + 1 => seq body (unrolled body count)

section counting
variable [Number F]

def fastLoop (count : Nat) (body : Code F) : Code F := fun pos =>
  let b := body (pos + 5)
  .push (.number (Number.ofNat count)) :: .dup :: .push (.number (Number.ofNat 0)) :: .gt ::
    .jumpIfZero (pos + b.length + 8) ::
    (b ++ [.push (.number (Number.ofNat 1)), .sub, .jump (pos + 1), .pop])

def countedLoop (count : Nat) (body : Code F) : Code F := fun pos =>
  let counterVar := BytecodeCompiler.loopCounter (pos + 1)
  let b := body (pos + 6)
  .push (.number (Number.ofNat count)) :: .store counterVar :: .load counterVar ::
    .push (.number (Number.ofNat 0)) :: .gt :: .jumpIfZero (pos + b.length + 11) ::
    (b ++ [.load counterVar, .push (.number (Number.ofNat 1)), .sub, .store counterVar,
      .jump (pos + 2)])

def loop (count bodyLen : Nat) (body : Code F) : Code F :=
  if count ≤ 5 then unrolled body count
  else if count = 1000 ∧ bodyLen ≤ 5 then fastLoop count body
  else countedLoop count body

end counting

def function (table : HashMap Nat) (name : String) (params : List String) (body : Code F) :
    Code F :=
  match table.lookup name with
  | some _ => seq (one (.functionEntry name params)) (seq body (one .returnOp))
  | none => nil

/-- The cases of a match that ends at `target`. -/
def cases (matchVar : String) (target : Nat) : List (TypedValue F × Code F) → Code F
  | [] => nil
  | (caseVal, caseBody) :: rest => fun pos =>
    let b := caseBody (pos + 4)
    let next := pos + b.length + 5
    .load matchVar :: .push caseVal :: .eq :: .jumpIfZero next ::
      (b ++ .jump target :: cases matchVar target rest next)

/-- The positions of the jumps to the end of a match. -/
def exits : List (TypedValue F × Code F) → Nat → List Nat
  | [], _ => []
  | (_, caseBody) :: rest, pos =>
    let exit := pos + (caseBody (pos + 4)).length + 4
    exit :: exits rest (exit + 1)

def matchOn (value : Code F) (arms : List (TypedValue F × Code F)) (default : Option (Code F)) :
    Code F := fun pos =>
  let v := value pos
  let matchVar := BytecodeCompiler.matchValue (pos + v.length)
  let start := pos + v.length + 1
  let defaultPos := start + (cases matchVar 0 arms start).length
  let d := orNil default defaultPos
  v ++ .store matchVar :: (cases matchVar (defaultPos + d.length) arms start ++ d)

@[simp] theorem cases_length (matchVar : String) (target : Nat)
    (arms : List (TypedValue F × Code F)) (pos : Nat) :
    (cases matchVar target arms pos).length = (cases matchVar 0 arms pos).length := by
  induction arms generalizing pos with
  | nil => rfl
  | cons arm arms ih => simp [cases, ih]

end Code

section blocks
variable [Number F] (table : HashMap Nat)

mutual

def codeOp : Op F → Code F
  | .ifOp condition thenOps elseOps =>
    .conditional (codeOps condition) (codeOps thenOps) (codeOptional elseOps)
  | .whileOp condition body => .whileLoop (codeOps condition) (codeOps body)
  | .loop count body => .loop count body.length (codeOps body)
  | .defOp name params body => .function table name params (codeOps body)
  | .matchOp value cases default =>
    .matchOn (codeOps value) (codeArms cases) (codeOptional default)
  | op =>
    match BytecodeCompiler.instruction op with
    | some i => .one i
    | none => .nil

def codeOps : List (Op F) → Code F
  | [] => .nil
  | op :: ops => .seq (codeOp op) (codeOps ops)

def codeOptional : Option (List (Op F)) → Option (Code F)
  | some ops => some (codeOps ops)
  | none => none

def codeArms : List (TypedValue F × List (Op F)) → List (TypedValue F × Code F)
  | [] => []
  | (caseVal, caseBody) :: cases => (caseVal, codeOps caseBody) :: codeArms cases

end

theorem codeOp_of_instruction {table : HashMap Nat} {op : Op F} {i : BytecodeOp F}
    (h : BytecodeCompiler.instruction op = some i) : codeOp table op = .one i := by
  cases op <;> first | (cases h; rfl) | cases h

end blocks

/-! ### The compiler emits this code -/

namespace BytecodeCompiler

/-- The program with code appended. -/
def appended (p : BytecodeProgram F) (code : List (BytecodeOp F)) : BytecodeProgram F :=
  { p with instructions := p.instructions ++ code }

/-- With the given function table, the compiler appends `code`. -/
def Emits (table : HashMap Nat) (c : BytecodeCompiler F Unit) (code : Code F) : Prop :=
  ∀ p, p.functionTable = table → c p = ((), appended p (code p.instructions.length))

theorem bind_apply {α β : Type} (x : BytecodeCompiler F α) (f : α → BytecodeCompiler F β)
    (p : BytecodeProgram F) : (x >>= f) p = f (x p).1 (x p).2 := rfl

@[simp] theorem appended_table (p : BytecodeProgram F) (code : List (BytecodeOp F)) :
    (appended p code).functionTable = p.functionTable := rfl

@[simp] theorem appended_instructions (p : BytecodeProgram F) (code : List (BytecodeOp F)) :
    (appended p code).instructions = p.instructions ++ code := rfl

@[simp] theorem appended_nil (p : BytecodeProgram F) : appended p [] = p := by
  simp [appended]

@[simp] theorem appended_appended (p : BytecodeProgram F) (a b : List (BytecodeOp F)) :
    appended (appended p a) b = appended p (a ++ b) := by
  simp [appended]

@[simp] theorem push_apply (i : BytecodeOp F) (p : BytecodeProgram F) :
    push i p = ((), appended p [i]) := rfl

@[simp] theorem len_apply (p : BytecodeProgram F) : len p = (p.instructions.length, p) := rfl

theorem len_bind {α : Type} (f : Nat → BytecodeCompiler F α) (p : BytecodeProgram F) :
    (len >>= f) p = f p.instructions.length p := rfl

theorem push_bind {α : Type} (i : BytecodeOp F) (f : Unit → BytecodeCompiler F α)
    (p : BytecodeProgram F) : (push i >>= f) p = f () (appended p [i]) := rfl

@[simp] theorem pure_apply {α : Type} (a : α) (p : BytecodeProgram F) :
    (pure a : BytecodeCompiler F α) p = (a, p) := rfl

theorem modify_append {α : Type} (l r : List α) (x : α) (f : α → α) :
    (l ++ x :: r).modify l.length f = l ++ f x :: r := by
  simp [List.modify_eq_take_drop]

/-- A conditional jump in the appended code is patched where it stands. -/
theorem patchJumpIfZero_appended (p : BytecodeProgram F) {l a b : List (BytecodeOp F)}
    {old addr pos : Nat} (hl : l = a ++ .jumpIfZero old :: b)
    (hpos : pos = p.instructions.length + a.length) :
    patchJumpIfZero pos addr (appended p l) = ((), appended p (a ++ .jumpIfZero addr :: b)) := by
  have h := modify_append (p.instructions ++ a) b (.jumpIfZero old) (setJumpIfZero addr)
  rw [List.length_append, ← hpos, List.append_assoc, List.append_assoc] at h
  simp [patchJumpIfZero, appended, hl, h, setJumpIfZero]

theorem patchJump_appended (p : BytecodeProgram F) {l a b : List (BytecodeOp F)}
    {old addr pos : Nat} (hl : l = a ++ .jump old :: b)
    (hpos : pos = p.instructions.length + a.length) :
    patchJump pos addr (appended p l) = ((), appended p (a ++ .jump addr :: b)) := by
  have h := modify_append (p.instructions ++ a) b (.jump old) (setJump addr)
  rw [List.length_append, ← hpos, List.append_assoc, List.append_assoc] at h
  simp [patchJump, appended, hl, h, setJump]

variable {table : HashMap Nat}

theorem Emits.nil : Emits table (pure () : BytecodeCompiler F Unit) Code.nil :=
  fun p _ => by simp [Code.nil]

theorem Emits.one (i : BytecodeOp F) : Emits table (push i) (Code.one i) := fun _ _ => rfl

theorem Emits.apply_appended {x : BytecodeCompiler F Unit} {a : Code F} (h : Emits table x a)
    {p : BytecodeProgram F} (hp : p.functionTable = table) (l : List (BytecodeOp F)) :
    x (appended p l) = ((), appended p (l ++ a (p.instructions.length + l.length))) := by
  rw [h (appended p l) hp]
  simp

theorem Emits.bind_appended {x : BytecodeCompiler F Unit} {a : Code F} (h : Emits table x a)
    {p : BytecodeProgram F} (hp : p.functionTable = table) {α : Type}
    (f : Unit → BytecodeCompiler F α) (l : List (BytecodeOp F)) :
    (x >>= f) (appended p l) =
      f () (appended p (l ++ a (p.instructions.length + l.length))) := by
  rw [bind_apply, h.apply_appended hp]

/-- To show what is emitted, start from a program with nothing appended. -/
theorem Emits.intro {x : BytecodeCompiler F Unit} {a : Code F}
    (h : ∀ p, p.functionTable = table → x (appended p []) =
      ((), appended p (a p.instructions.length))) : Emits table x a := by
  intro p hp
  rw [← h p hp, appended_nil]

theorem Emits.seq {x y : BytecodeCompiler F Unit} {a b : Code F} (hx : Emits table x a)
    (hy : Emits table y b) : Emits table (x >>= fun _ => y) (Code.seq a b) := by
  refine .intro fun p hp => ?_
  rw [hx.bind_appended hp, hy.apply_appended hp]
  simp [Code.seq]

theorem compileIf_emits {condition thenBranch : BytecodeCompiler F Unit}
    {elseBranch : Option (BytecodeCompiler F Unit)} {c t : Code F} {e : Option (Code F)}
    (hc : Emits table condition c) (ht : Emits table thenBranch t)
    (he : Option.Rel (Emits table) elseBranch e) :
    Emits table (compileIf condition thenBranch elseBranch) (Code.conditional c t e) := by
  refine .intro fun p hp => ?_
  rw [compileIf, hc.bind_appended hp]
  simp only [len_bind, push_bind, appended_appended]
  rw [ht.bind_appended hp]
  cases he with
  | none =>
    simp only [len_bind]
    rw [patchJumpIfZero_appended p (a := c p.instructions.length) (by simp; exact ⟨rfl, rfl⟩) (by simp)]
    simp [Code.conditional, Code.ifThen, Nat.add_assoc, Nat.add_comm]
  | some he =>
    simp only [len_bind, push_bind, appended_appended]
    rw [bind_apply, patchJumpIfZero_appended p (a := c p.instructions.length) (by simp; exact ⟨rfl, rfl⟩)
      (by simp), he.bind_appended hp]
    simp only [len_bind]
    rw [patchJump_appended p
      (a := c p.instructions.length ++ .jumpIfZero _ ::
        t (p.instructions.length + ((c p.instructions.length).length + 1)))
      (by simp; exact ⟨rfl, rfl, rfl⟩) (by simp)]
    simp [Code.conditional, Code.ifThenElse, Nat.add_assoc, Nat.add_comm, Nat.add_left_comm]

theorem compileWhile_emits {condition body : BytecodeCompiler F Unit} {c b : Code F}
    (hc : Emits table condition c) (hb : Emits table body b) :
    Emits table (compileWhile condition body) (Code.whileLoop c b) := by
  refine .intro fun p hp => ?_
  rw [compileWhile, len_bind, hc.bind_appended hp]
  simp only [len_bind, push_bind, appended_appended]
  rw [hb.bind_appended hp]
  simp only [len_bind, push_bind, appended_appended]
  rw [patchJumpIfZero_appended p (a := c p.instructions.length) (by simp; exact ⟨rfl, rfl⟩) (by simp)]
  simp [Code.whileLoop, Nat.add_assoc, Nat.add_comm, Nat.add_left_comm]

theorem unroll_emits {body : BytecodeCompiler F Unit} {b : Code F} (hb : Emits table body b)
    (count : Nat) : Emits table (unroll body count) (Code.unrolled b count) := by
  induction count with
  | zero => exact .nil
  | succ count ih => exact hb.seq ih

theorem compileDef_emits {body : BytecodeCompiler F Unit} {b : Code F} (hb : Emits table body b)
    (name : String) (params : List String) :
    Emits table (compileDef name params body) (Code.function table name params b) := by
  intro p hp
  have hget : compileDef name params body p = (match p.functionTable.lookup name with
      | some _ => push (.functionEntry name params) >>= fun _ => body >>= fun _ => push .returnOp
      | none => pure () : BytecodeCompiler F Unit) p := rfl
  rw [hget, hp, Code.function]
  cases table.lookup name with
  | none => exact Emits.nil p hp
  | some entry => exact ((Emits.one _).seq (hb.seq (.one _))) p hp

section loops
variable [Number F]

theorem compileFastLoop_emits {body : BytecodeCompiler F Unit} {b : Code F}
    (hb : Emits table body b) (count : Nat) :
    Emits table (compileFastLoop count body) (Code.fastLoop count b) := by
  refine .intro fun p hp => ?_
  simp only [compileFastLoop, len_bind, push_bind, appended_appended]
  rw [hb.bind_appended hp]
  simp only [len_bind, push_bind, appended_appended]
  rw [bind_apply, patchJumpIfZero_appended p
    (a := [.push (.number (Number.ofNat count)), .dup, .push (.number (Number.ofNat 0)), .gt])
    (by simp; exact ⟨rfl, rfl⟩) (by simp)]
  simp [Code.fastLoop, Nat.add_assoc]

theorem compileCountedLoop_emits {body : BytecodeCompiler F Unit} {b : Code F}
    (hb : Emits table body b) (count : Nat) :
    Emits table (compileCountedLoop count body) (Code.countedLoop count b) := by
  refine .intro fun p hp => ?_
  simp only [compileCountedLoop, len_bind, push_bind, appended_appended]
  rw [hb.bind_appended hp]
  simp only [len_bind, push_bind, appended_appended]
  rw [patchJumpIfZero_appended p
    (a := [.push (.number (Number.ofNat count)),
      .store (loopCounter (p.instructions.length + 1)),
      .load (loopCounter (p.instructions.length + 1)), .push (.number (Number.ofNat 0)), .gt])
    (by simp; exact ⟨rfl, rfl⟩) (by simp)]
  simp [Code.countedLoop, Nat.add_assoc]

theorem compileLoop_emits {body : BytecodeCompiler F Unit} {b : Code F}
    (hb : Emits table body b) (count bodyLen : Nat) :
    Emits table (compileLoop count bodyLen body) (Code.loop count bodyLen b) := by
  unfold compileLoop Code.loop
  split
  · exact unroll_emits hb count
  · split
    · exact compileFastLoop_emits hb count
    · exact compileCountedLoop_emits hb count

end loops

/-- The jumps to the end of a match are emitted with the address `0`. -/
theorem compileCases_apply {matchVar : String}
    {cases : List (TypedValue F × BytecodeCompiler F Unit)} {arms : List (TypedValue F × Code F)}
    (h : List.Forall₂ (fun x y => x.1 = y.1 ∧ Emits table x.2 y.2) cases arms)
    {p : BytecodeProgram F} (hp : p.functionTable = table) (l : List (BytecodeOp F)) :
    compileCases matchVar cases (appended p l) =
      (Code.exits arms (p.instructions.length + l.length),
        appended p (l ++ Code.cases matchVar 0 arms (p.instructions.length + l.length))) := by
  induction h generalizing l with
  | nil => simp [compileCases, Code.exits, Code.cases, Code.nil]
  | @cons x y cases arms hxy _ ih =>
    obtain ⟨v, body⟩ := x
    obtain ⟨w, b⟩ := y
    obtain ⟨rfl, hb⟩ := hxy
    simp only [compileCases, len_bind, push_bind, appended_appended]
    rw [hb.bind_appended hp]
    simp only [len_bind, push_bind, appended_appended]
    rw [bind_apply, patchJumpIfZero_appended p
      (a := l ++ [BytecodeOp.load matchVar, .push v, .eq]) (by simp; exact ⟨rfl, rfl⟩) (by simp),
      bind_apply, ih]
    simp [Code.exits, Code.cases, Nat.add_assoc]

/-- Patching the jumps to the end of a match. -/
theorem patchJumps_apply (matchVar : String) (target : Nat) (arms : List (TypedValue F × Code F))
    (p : BytecodeProgram F) (l d : List (BytecodeOp F)) :
    patchJumps target (Code.exits arms (p.instructions.length + l.length))
      (appended p (l ++ Code.cases matchVar 0 arms (p.instructions.length + l.length) ++ d)) =
      ((), appended p
        (l ++ Code.cases matchVar target arms (p.instructions.length + l.length) ++ d)) := by
  induction arms generalizing l with
  | nil => simp [patchJumps, Code.exits, Code.cases, Code.nil]
  | cons arm arms ih =>
    obtain ⟨v, b⟩ := arm
    simp only [Code.exits, Code.cases, patchJumps]
    rw [bind_apply, patchJump_appended p
      (a := l ++ BytecodeOp.load matchVar :: .push v :: .eq :: .jumpIfZero _ ::
        b (p.instructions.length + l.length + 4))
      (by simp; exact ⟨rfl, rfl, rfl⟩) (by simp [Nat.add_assoc])]
    have h := ih (l ++ BytecodeOp.load matchVar :: .push v :: .eq ::
      .jumpIfZero (p.instructions.length + l.length +
        (b (p.instructions.length + l.length + 4)).length + 5) ::
        (b (p.instructions.length + l.length + 4) ++ [BytecodeOp.jump target]))
    simpa [Nat.add_assoc] using h

theorem compileMatch_emits {value : BytecodeCompiler F Unit}
    {cases : List (TypedValue F × BytecodeCompiler F Unit)}
    {default : Option (BytecodeCompiler F Unit)} {v : Code F}
    {arms : List (TypedValue F × Code F)} {d : Option (Code F)} (hv : Emits table value v)
    (hcases : List.Forall₂ (fun x y => x.1 = y.1 ∧ Emits table x.2 y.2) cases arms)
    (hd : Option.Rel (Emits table) default d) :
    Emits table (compileMatch value cases default) (Code.matchOn v arms d) := by
  have hdefault : Emits table (compileDefault default) (Code.orNil d) := by
    cases hd with
    | none => exact .nil
    | some hd => exact hd
  refine .intro fun p hp => ?_
  rw [compileMatch, hv.bind_appended hp]
  simp only [len_bind, push_bind, appended_appended]
  rw [bind_apply, compileCases_apply hcases hp, hdefault.bind_appended hp]
  simp only [len_bind]
  rw [patchJumps_apply]
  simp [Code.matchOn, Nat.add_assoc, Nat.add_comm 1]

/-! ### Blocks -/

variable [Number F]

mutual

theorem compileOp_emits (op : Op F) : Emits table (compileOp op) (codeOp table op) := by
  cases op with
  | ifOp condition thenOps elseOps =>
    exact compileIf_emits (compileOps_emits _) (compileOps_emits _) (compileOptional_emits _)
  | whileOp condition body =>
    exact compileWhile_emits (compileOps_emits _) (compileOps_emits _)
  | loop count body => exact compileLoop_emits (compileOps_emits _) _ _
  | defOp name params body => exact compileDef_emits (compileOps_emits _) _ _
  | matchOp value cases default =>
    exact compileMatch_emits (compileOps_emits _) (compileArms_emits _) (compileOptional_emits _)
  | _ => exact .one _

theorem compileOps_emits (ops : List (Op F)) : Emits table (compileOps ops) (codeOps table ops) := by
  cases ops with
  | nil => exact .nil
  | cons op ops => exact (compileOp_emits op).seq (compileOps_emits ops)

theorem compileOptional_emits (ops : Option (List (Op F))) :
    Option.Rel (Emits table) (compileOptional ops) (codeOptional table ops) := by
  cases ops with
  | none => exact .none
  | some ops => exact .some (compileOps_emits ops)

theorem compileArms_emits (cases : List (TypedValue F × List (Op F))) :
    List.Forall₂ (fun x y => x.1 = y.1 ∧ Emits table x.2 y.2) (compileArms cases)
      (codeArms table cases) := by
  cases cases with
  | nil => exact .nil
  | cons arm cases =>
    obtain ⟨v, body⟩ := arm
    exact .cons ⟨rfl, compileOps_emits body⟩ (compileArms_emits cases)

end

/-! ### Programs -/

/-- The entry points recorded by the first pass. -/
def functionTable (ops : List (Op F)) : HashMap Nat :=
  (preProcessFunctions ops (BytecodeProgram.new.withOriginalOps ops)).2.functionTable

/-- Nothing of the first pass but its function table is left. -/
theorem compile_instructions (ops : List (Op F)) :
    (compile ops).instructions = codeOps (functionTable ops) ops 0 := by
  have hnil : (preProcessFunctions ops (BytecodeProgram.new.withOriginalOps ops)).2.instructions =
      [] := rfl
  have h := compileOps_emits ops _ (rfl : _ = functionTable ops)
  rw [hnil, List.length_nil] at h
  rw [compile, bind_apply, h, appended_instructions, hnil, List.nil_append]

theorem compile_single {op : Op F} {i : BytecodeOp F} (h : instruction op = some i) :
    (compile [op]).instructions = [i] := by
  simp [compile_instructions, codeOps, codeOp_of_instruction h, Code.seq, Code.one, Code.nil]

theorem compileOps_table (ops : List (Op F)) (p : BytecodeProgram F) :
    (compileOps ops p).2.functionTable = p.functionTable := by
  rw [compileOps_emits ops p rfl]
  rfl

theorem preProcessDefs_def (f : String) (params : List String) (body ops : List (Op F))
    (p : BytecodeProgram F) :
    ∃ q, preProcessDefs (.defOp f params body :: ops) p = preProcessDefs ops q ∧
      q.functionTable = p.functionTable.insert f p.instructions.length :=
  ⟨_, rfl, compileOps_table body _⟩

theorem preProcessDefs_skip {op : Op F} (h : ∀ f params body, op ≠ .defOp f params body)
    (ops : List (Op F)) : preProcessDefs (op :: ops) = preProcessDefs ops := by
  cases op with
  | defOp f params body => exact absurd rfl (h f params body)
  | _ => rfl

/-- The first pass records every definition, and forgets none. -/
theorem preProcessDefs_records {name : String} {ops : List (Op F)} {p : BytecodeProgram F}
    (h : (∃ params body, .defOp name params body ∈ ops) ∨ name ∈ p.functionTable) :
    name ∈ (preProcessDefs ops p).2.functionTable := by
  induction ops generalizing p with
  | nil =>
    rcases h with ⟨_, _, h⟩ | h
    · cases h
    · exact h
  | cons op ops ih =>
    by_cases hdef : ∃ f params body, op = .defOp f params body
    · obtain ⟨f, params, body, rfl⟩ := hdef
      obtain ⟨q, hq, htable⟩ := preProcessDefs_def f params body ops p
      rw [hq]
      refine ih ?_
      rw [htable, Finmap.mem_insert]
      rcases h with ⟨params', body', h⟩ | h
      · rcases List.mem_cons.mp h with heq | h
        · cases heq
          exact .inr (.inl rfl)
        · exact .inl ⟨params', body', h⟩
      · exact .inr (.inr h)
    · have hskip : ∀ f params body, op ≠ .defOp f params body := by simpa using hdef
      rw [preProcessDefs_skip hskip]
      refine ih (h.imp_left ?_)
      rintro ⟨params, body, h⟩
      exact ⟨params, body, (List.mem_cons.mp h).resolve_left fun heq => hskip _ _ _ heq.symm⟩

theorem mem_functionTable {name : String} {params : List String} {body ops : List (Op F)}
    (h : .defOp name params body ∈ ops) : name ∈ functionTable ops :=
  preProcessDefs_records (.inl ⟨params, body, h⟩)

end BytecodeCompiler

end Covm
