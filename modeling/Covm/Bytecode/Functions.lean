import Covm.Bytecode.Correctness

/-!
# Programs that define functions

The compiler emits a definition where it stands, with a `FunctionEntry` in front of the body, and the
bytecode interpreter has no implementation of this instruction. Control runs into the first
definition of a program, so a program that starts with definitions never survives compilation
(`functions_survive_iff`).
-/

namespace Covm

open Partial BytecodeInterpreter

section functions
variable {F S : Type}

/-- Definitions with structured bodies that may return, followed by structured operations that may
call the functions defined. -/
structure IsFunctionProgram (defs ops : List (Op F)) : Prop where
  defining : ∀ op ∈ defs, ∃ name params body, op = .defOp name params body ∧
    ∀ inner ∈ body, inner.StructuredWith (· = .returnOp)
  calling : ∀ op ∈ ops, op.StructuredWith fun call =>
    ∃ name params body, Op.defOp name params body ∈ defs ∧ call = .call name

theorem Op.StructuredWith.mono {extra extra' : Op F → Prop} {op : Op F}
    (h : op.StructuredWith extra) (hextra : ∀ op, extra op → extra' op) :
    op.StructuredWith extra' := by
  induction h with
  | extra h => exact .extra (hextra _ h)
  | simple h => exact .simple h
  | ifOp _ _ _ ihc iht ihe => exact .ifOp ihc iht ihe
  | whileOp _ _ ihc ihb => exact .whileOp ihc ihb
  | loop hcount hlt _ ih => exact .loop hcount hlt ih
  | matchOp _ _ _ ihv iha ihd => exact .matchOp ihv iha ihd

/-- Without definitions there is nothing to call. -/
theorem IsFunctionProgram.structured {ops : List (Op F)} (h : IsFunctionProgram [] ops) :
    ∀ op ∈ ops, op.Structured := by
  intro op hop
  refine (h.calling op hop).mono fun call hcall => ?_
  obtain ⟨_, _, _, hmem, -⟩ := hcall
  cases hmem

variable [Number F]

/-- The first instruction of a program that starts with a definition. -/
theorem compile_functionEntry (name : String) (params : List String) (body ops : List (Op F)) :
    (BytecodeCompiler.compile (.defOp name params body :: ops)).instructions[0]? =
      some (.functionEntry name params) := by
  have hmem : name ∈ BytecodeCompiler.functionTable (.defOp name params body :: ops) :=
    BytecodeCompiler.mem_functionTable List.mem_cons_self
  obtain ⟨entry, hentry⟩ := Finmap.mem_iff.mp hmem
  rw [BytecodeCompiler.compile_instructions]
  simp [codeOps, codeOp, Code.seq, Code.function, hentry, Code.one]

variable [StorageBackend S] [SerdeJson] [CountsDown F]

/-- A program of this kind that ends well survives compilation exactly if it defines no function. -/
theorem functions_survive_iff {defs ops : List (Op F)} (h : IsFunctionProgram defs ops)
    {clock : Nat → Nat} {vm₁ : VM F S} (hrun : VM.run (defs ++ ops) (VM.new clock) (.ok () vm₁)) :
    (∃ vm₂ : VM F S, BytecodeInterpreter.run (BytecodeCompiler.compile (defs ++ ops))
        (VM.new clock) (.ok () vm₂) ∧
      vm₂.stack = vm₁.stack ∧ vm₂.executor.output = vm₁.executor.output) ↔ defs = [] := by
  constructor
  · rintro ⟨vm₂, h₂, -⟩
    cases defs with
    | nil => rfl
    | cons op defs =>
      obtain ⟨name, params, body, rfl, -⟩ := h.defining op List.mem_cons_self
      have hfirst := compile_functionEntry name params body (defs ++ ops)
      cases run_of_raises hfirst (fun _ => rfl) h₂
  · rintro rfl
    obtain ⟨vm₂, h₂, hsame⟩ := (sameOutcomes_of_implements (fun op hop =>
      structured_implements (h.structured op hop)) rfl).forth vm₁ hrun
    exact ⟨vm₂, h₂, hsame.stack, by rw [hsame.executor]⟩

end functions

/-! ### A program with one function -/

def constantDefs : List (Op Binary64) := [.defOp "f" [] [.push (.boolean true), .returnOp]]

theorem constant_isFunctionProgram : IsFunctionProgram constantDefs [.call "f"] where
  defining op hop := by
    obtain rfl := List.mem_singleton.mp hop
    refine ⟨_, _, _, rfl, fun inner hinner => ?_⟩
    simp only [List.mem_cons, List.not_mem_nil, or_false] at hinner
    rcases hinner with rfl | rfl
    · exact .simple trivial
    · exact .extra rfl
  calling op hop := by
    obtain rfl := List.mem_singleton.mp hop
    exact .extra ⟨"f", _, _, List.mem_singleton_self _, rfl⟩

theorem constant_runs : ∃ vm₁ : VM Binary64 NoStorage,
    VM.run (constantDefs ++ [.call "f"]) (VM.new fun _ => 0) (.ok () vm₁) ∧
      vm₁.stack = [.boolean true, .boolean true] :=
  lim_of_endsIn 5 (by decide)

theorem constant_survives_iff : ∃ vm₁ : VM Binary64 NoStorage,
    VM.run (constantDefs ++ [.call "f"]) (VM.new fun _ => 0) (.ok () vm₁) ∧
      ((∃ vm₂ : VM Binary64 NoStorage,
        BytecodeInterpreter.run (BytecodeCompiler.compile (constantDefs ++ [.call "f"]))
          (VM.new fun _ => 0) (.ok () vm₂) ∧
        vm₂.stack = vm₁.stack ∧ vm₂.executor.output = vm₁.executor.output) ↔
        constantDefs = []) := by
  obtain ⟨vm₁, hrun, -⟩ := constant_runs
  exact ⟨vm₁, hrun, functions_survive_iff constant_isFunctionProgram hrun⟩

/-- The program ends well and the compiled program does not. -/
theorem constant_does_not_survive :
    (∃ vm₁ : VM Binary64 NoStorage,
      VM.run (constantDefs ++ [.call "f"]) (VM.new fun _ => 0) (.ok () vm₁)) ∧
    ∀ vm₂ : VM Binary64 NoStorage,
      ¬ BytecodeInterpreter.run (BytecodeCompiler.compile (constantDefs ++ [.call "f"]))
        (VM.new fun _ => 0) (.ok () vm₂) := by
  obtain ⟨vm₁, hrun, -⟩ := constant_runs
  refine ⟨⟨vm₁, hrun⟩, fun vm₂ h₂ => ?_⟩
  cases run_of_raises (compile_functionEntry "f" [] _ _) (fun _ => rfl) h₂

end Covm
