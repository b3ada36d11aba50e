import Covm.Compiler.ParseDsl
import Covm.Number.Binary64
import Covm.Vm.StackCode

/-!
# The standard library (`compiler/stdlib.rs`)

The library is a text of the language. Read by the parser, it is a list of definitions; executed in
any VM, it leaves the functions it defines in the memory and changes nothing else on the stack or
in the frames.
-/

namespace Covm.Compiler

open Partial

def stdlibLines : List String :=
  ["",
    "# Standard library functions for nano-cvm DSL",
    "# These functions are automatically included in every program", "",
    "# Math functions", "def abs(x):", "    load x", "    dup", "    push 0", "    lt", "    if:",
    "        negate", "    return", "",
    "def max(a, b):", "    load a", "    load b", "    dup", "    over", "    lt", "    if:",
    "        swap", "        pop", "    else:", "        pop", "    return", "",
    "def min(a, b):", "    load a", "    load b", "    dup", "    over", "    gt", "    if:",
    "        swap", "        pop", "    else:", "        pop", "    return", "",
    "# Stack manipulation utilities", "def swap3(a, b, c):",
    "    # Takes three values and returns them in reverse order (c, b, a)", "    load c",
    "    load b", "    load a", "    return", "",
    "def dup2():", "    # Duplicates the top two stack items", "    over", "    over", "    return",
    "",
    "def sum_n(n):", "    # Sum numbers 1 to n", "    push 0  # accumulator",
    "    push 1  # counter", "    while:", "        condition:",
    "            dup         # counter", "            load n", "            gt", "            not",
    "        dup             # counter", "        over            # accumulator",
    "        add             # acc + counter", "        swap", "        pop", "        swap",
    "        push 1", "        add             # counter + 1",
    "    pop                 # remove counter", "    return", "",
    "# Boolean logic utilities", "def xor(a, b):",
    "    # Exclusive or: true if exactly one input is true", "    load a", "    load b", "    eq",
    "    not", "    load a", "    load b", "    or", "    and", "    return"]

def getStdlibCode : String := String.ofList (Text.unlines '\n' (stdlibLines.map String.toList))

/-! ### What the parser makes of it -/

def literal (n : Nat) : TypedValue Binary64 := .number (Number.ofNat n)

def absCode : List (Op Binary64) :=
  [.load "x", .dup, .push (literal 0), .lt, .ifOp [] [.negate] none]

/-- `max` and `min` differ in the comparison. -/
def selectCode (comparison : Op Binary64) : List (Op Binary64) :=
  [.load "a", .load "b", .dup, .overOp, comparison, .ifOp [] [.swap, .pop] (some [.pop])]

def sumCondition : List (Op Binary64) := [.dup, .load "n", .gt, .not]

def sumBody : List (Op Binary64) :=
  [.dup, .overOp, .add, .swap, .pop, .swap, .push (literal 1), .add]

def sumCode : List (Op Binary64) :=
  [.push (literal 0), .push (literal 1), .whileOp sumCondition sumBody, .pop]

def xorCode : List (Op Binary64) :=
  [.load "a", .load "b", .eq, .not, .load "a", .load "b", .or, .and]

/-- The functions with their parameters and their code, up to the `return`. -/
def stdlibFunctions : List (String × List String × List (Op Binary64)) :=
  [("abs", ["x"], absCode),
    ("max", ["a", "b"], selectCode .lt),
    ("min", ["a", "b"], selectCode .gt),
    ("swap3", ["a", "b", "c"], [.load "c", .load "b", .load "a"]),
    ("dup2", [], [.overOp, .overOp]),
    ("sum_n", ["n"], sumCode),
    ("xor", ["a", "b"], xorCode)]

def stdlibOps : List (Op Binary64) :=
  stdlibFunctions.map fun (name, params, code) => .defOp name params (code ++ [.returnOp])

section
variable {F : Type} [DecidableEq F]
mutual

/-- Whether two operations are the same, for those the standard library is made of. -/
def sameOp : Op F → Op F → Bool
  | .push v, .push w => v = w
  | .load x, .load y => x = y
  | .ifOp c t e, .ifOp c' t' e' => sameOps c c' && sameOps t t' && sameElse e e'
  | .whileOp c b, .whileOp c' b' => sameOps c c' && sameOps b b'
  | .defOp f p b, .defOp f' p' b' => f = f' && p = p' && sameOps b b'
  | .add, .add | .eq, .eq | .gt, .gt | .lt, .lt | .not, .not | .and, .and | .or, .or
  | .negate, .negate | .dup, .dup | .swap, .swap | .overOp, .overOp | .pop, .pop
  | .returnOp, .returnOp => true
  | _, _ => false

def sameOps : List (Op F) → List (Op F) → Bool
  | [], [] => true
  | op :: ops, op' :: ops' => sameOp op op' && sameOps ops ops'
  | _, _ => false

def sameElse : Option (List (Op F)) → Option (List (Op F)) → Bool
  | none, none => true
  | some ops, some ops' => sameOps ops ops'
  | _, _ => false

end

mutual

theorem eq_of_sameOp {a b : Op F} (h : sameOp a b = true) : a = b := by
  unfold sameOp at h
  split at h
  all_goals first | rfl | cases h | skip
  all_goals simp only [Bool.and_eq_true, decide_eq_true_eq] at h
  · rw [h]
  · rw [h]
  · rw [eq_of_sameOps h.1.1, eq_of_sameOps h.1.2, eq_of_sameElse h.2]
  · rw [eq_of_sameOps h.1, eq_of_sameOps h.2]
  · rw [h.1.1, h.1.2, eq_of_sameOps h.2]

theorem eq_of_sameOps {a b : List (Op F)} (h : sameOps a b = true) : a = b := by
  unfold sameOps at h
  split at h
  · rfl
  · rw [Bool.and_eq_true] at h
    rw [eq_of_sameOp h.1, eq_of_sameOps h.2]
  · cases h

theorem eq_of_sameElse {a b : Option (List (Op F))} (h : sameElse a b = true) : a = b := by
  unfold sameElse at h
  split at h
  · rfl
  · rw [eq_of_sameOps h]
  · cases h

end
end

theorem exists_stdlibLines : ∃ ls : List Line, stdlibLines.map String.toList = ls ∧
    (ls.all fun line => decide ('\n' ∉ line) && decide (line.getLast? ≠ some '\r')) = true ∧
    (match solveDsl ⟨0, ls⟩ .start with
      | .ok (ops, config) => sameOps ops stdlibOps && decide (config = .default)
      | .error _ => false) = true := by
  apply Exists.intro
  refine ⟨?chars, ?ends, ?parsed⟩
  case chars =>
    simp only [stdlibLines]
    repeat apply Text.map_toList_cons
    exact List.map_nil
  case ends => decide
  case parsed => decide +kernel

theorem parseDsl_getStdlibCode : parseDsl getStdlibCode = .ok (stdlibOps, .default) := by
  obtain ⟨ls, hls, hends, hparsed⟩ := exists_stdlibLines
  have hline : ∀ line ∈ ls, Text.IsLine '\n' '\r' line := by
    intro line hmem
    obtain ⟨hfeed, hreturn⟩ := Bool.and_eq_true_iff.mp (List.all_eq_true.mp hends line hmem)
    exact ⟨of_decide_eq_true hfeed, of_decide_eq_true hreturn⟩
  show solveDsl ⟨0, Text.lines '\n' '\r' getStdlibCode.toList⟩ .start = _
  rw [getStdlibCode, String.toList_ofList, hls, Text.lines_unlines hline]
  split at hparsed
  · next ops config hsolve =>
    rw [Bool.and_eq_true, decide_eq_true_eq] at hparsed
    rw [hsolve, eq_of_sameOps hparsed.1, hparsed.2]
  · cases hparsed

/-! ### Executing it -/

section
variable {F : Type} {m : Memory F}

def define (m : Memory F) (name : String) (params : List String) (body : List (Op F)) : Memory F :=
  ⟨m.1.defineFunction name params body, m.2.defineFunction name params body⟩

/-- A memory with functions, all of which end with a `return`. -/
def defineAll (m : Memory F) (functions : List (String × List String × List (Op F))) : Memory F :=
  functions.foldl (fun m (name, params, code) => define m name params (code ++ [.returnOp])) m

theorem lookup_defineAll_of_notMem {functions : List (String × List String × List (Op F))}
    {name : String} (h : name ∉ functions.map Prod.fst) :
    (defineAll m functions).1.functions.lookup name = m.1.functions.lookup name := by
  induction functions generalizing m with
  | nil => rfl
  | cons f functions ih =>
    rw [List.map_cons, List.mem_cons, not_or] at h
    exact (ih h.2).trans (Finmap.lookup_insert_of_ne _ h.1)

theorem lookup_defineAll {functions : List (String × List String × List (Op F))}
    (hnodup : (functions.map Prod.fst).Nodup) {name : String} {params : List String}
    {code : List (Op F)} (h : (name, params, code) ∈ functions) :
    (defineAll m functions).1.functions.lookup name = some (params, code ++ [.returnOp]) := by
  induction functions generalizing m with
  | nil => cases h
  | cons f functions ih =>
    rw [List.map_cons, List.nodup_cons] at hnodup
    rcases List.mem_cons.mp h with rfl | h
    · exact (lookup_defineAll_of_notMem hnodup.1).trans (Finmap.lookup_insert _)
    · exact ih hnodup.2 h

variable {S : Type} [Number F] [StorageBackend S] [SerdeJson] {s : VMStack F}

theorem sends_defOp (name : String) (params : List String) (body : List (Op F)) :
    Sem.Sends VM.core (VM.limit.next (.defOp name params body) : Sem _ (VM F S) _) (s, m) .next
      (s, define m name params body) := by
  refine VM.sends_next rfl fun vm hvm => ?_
  obtain ⟨rfl, rfl⟩ := Prod.mk.inj hvm
  refine ⟨{ vm with memory := define vm.memory name params body }, ?_, rfl⟩
  rw [VM.flow_of_basic rfl]
  exact Sem.bind_ok (ends_iff.mpr rfl) rfl

theorem sends_defineAll (functions : List (String × List String × List (Op F))) :
    Sem.Sends VM.core (VM.runFlow (functions.map fun (name, params, code) =>
      .defOp name params (code ++ [.returnOp])) : Sem _ (VM F S) _) (s, m) .next
        (s, defineAll m functions) := by
  induction functions generalizing m with
  | nil => exact Sem.sends_pure
  | cons f functions ih => exact VM.sends_runFlow_cons (sends_defOp f.1 f.2.1 _) ih

end

/-- The memory in which the functions of the standard library are defined. -/
def withStdlib (m : Memory Binary64) : Memory Binary64 := defineAll m stdlibFunctions

theorem lookup_withStdlib (m : Memory Binary64) {name : String} {params : List String}
    {code : List (Op Binary64)} (h : (name, params, code) ∈ stdlibFunctions) :
    (withStdlib m).1.functions.lookup name = some (params, code ++ [.returnOp]) :=
  lookup_defineAll (by decide) h

section
variable {S : Type} [StorageBackend S] [SerdeJson]

/-- With the standard library read and executed first, `ops` ends with such a value on top. -/
def Leaves (ops : List (Op Binary64)) (vm : VM Binary64 S) (P : TypedValue Binary64 → Prop) :
    Prop :=
  ∃ library config vm₁ vm₂ v,
    parseDsl getStdlibCode = .ok (library, config) ∧ VM.run library vm (.ok () vm₁) ∧
      VM.run ops vm₁ (.ok () vm₂) ∧ vm₂.stack.top = some v ∧ P v

variable {ops : List (Op Binary64)} {vm : VM Binary64 S} {P : TypedValue Binary64 → Prop}

theorem sends_stdlib {s : VMStack Binary64} {m : Memory Binary64} :
    Sem.Sends VM.core (VM.run stdlibOps : Sem _ (VM Binary64 S) _) (s, m) () (s, withStdlib m) :=
  VM.sends_run (sends_defineAll stdlibFunctions)

theorem leaves_iff : Leaves ops vm P ↔ ∃ vm₁ vm₂ v, vm₁.core = (vm.stack, withStdlib vm.memory) ∧
    VM.run stdlibOps vm (.ok () vm₁) ∧ VM.run ops vm₁ (.ok () vm₂) ∧ vm₂.stack.top = some v ∧
      P v := by
  constructor
  · rintro ⟨library, config, vm₁, vm₂, v, hparse, hlibrary, hrest⟩
    rw [parseDsl_getStdlibCode] at hparse
    cases hparse
    obtain ⟨vm', heq, hcore⟩ := sends_stdlib.outcome (VM.run_functional _) rfl hlibrary
    cases heq
    exact ⟨vm₁, vm₂, v, hcore, hlibrary, hrest⟩
  · rintro ⟨vm₁, vm₂, v, -, hlibrary, hrest⟩
    exact ⟨stdlibOps, .default, vm₁, vm₂, v, parseDsl_getStdlibCode, hlibrary, hrest⟩

/-- Code that ends with `v` on top ends with nothing else there. -/
theorem leaves_iff_of_sends {v : TypedValue Binary64} {s : VMStack Binary64} {m : Memory Binary64}
    (h : Sem.Sends VM.core (VM.run ops : Sem _ (VM Binary64 S) _)
      (vm.stack, withStdlib vm.memory) () (v :: s, m)) : Leaves ops vm P ↔ P v := by
  rw [leaves_iff]
  constructor
  · rintro ⟨vm₁, vm₂, w, hcore, -, hrun, htop, hP⟩
    obtain ⟨vm', heq, hcore'⟩ := h.outcome (VM.run_functional _) hcore hrun
    cases heq
    rw [show vm₂.stack = v :: s from congrArg Prod.fst hcore'] at htop
    cases htop
    exact hP
  · intro hP
    obtain ⟨vm₁, hlibrary, hcore⟩ := sends_stdlib vm rfl
    obtain ⟨vm₂, hrun, hcore'⟩ := h vm₁ hcore
    have hstack : vm₂.stack = v :: s := congrArg Prod.fst hcore'
    exact ⟨vm₁, vm₂, v, hcore, hlibrary, hrun, by rw [hstack]; rfl, hP⟩

end

end Covm.Compiler
