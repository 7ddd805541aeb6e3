import Mathlib.Logic.Basic

/-!
# Syntax trees and the exceptions of the front end

`Instruction` is the enum of `instruction.py`, and `AstNode` the node of `astnode.py` with the two
fields that the front end reads, `instr` and `operands` (`bound_variables` and `text_indices` are
only read by the code generator `compile1`). A node's `operands` is a Python list holding nodes and
strings, except in the nodes that the parser's `-` case builds, `AstNode(Instruction.Negate, k)`,
whose `operands` field is the node `k` itself. The model keeps both shapes: `AstNode.node` for a
list, `AstNode.bare` for a single node, and `AstNode.str` for a string in an operand position.

Every failure of the front end is a Python exception that ends the compilation. `PyError` names
them by class, with the message where the code writes one.
-/

namespace LispCompiler

/-- The enum `Instruction` of `instruction.py`. -/
inductive Instruction where
  | add | negate | lambdaParams | defun | unknown | module | mult | string1 | setf | lambda
  | numberConstant
  deriving DecidableEq, Repr

/-- An `AstNode` of `astnode.py`, or a string where an `operands` list holds one. -/
inductive AstNode where
  /-- `AstNode(instr, operands)` with a list of operands. -/
  | node (instr : Instruction) (operands : List AstNode)
  /-- `AstNode(instr, k)` with a single node `k` in place of the operand list. -/
  | bare (instr : Instruction) (operand : AstNode)
  /-- A Python `str` in an operand position. -/
  | str (s : String)
  deriving Repr

mutual
/-- Structural equality of nodes, the dataclass `__eq__`. -/
def AstNode.beq : AstNode → AstNode → Bool
  | .node i os, .node i' os' => i == i' && AstNode.beqList os os'
  | .bare i o, .bare i' o' => i == i' && AstNode.beq o o'
  | .str s, .str s' => s == s'
  | _, _ => false
/-- Structural equality of operand lists. -/
def AstNode.beqList : List AstNode → List AstNode → Bool
  | [], [] => true
  | a :: as, a' :: as' => AstNode.beq a a' && AstNode.beqList as as'
  | _, _ => false
end

mutual
theorem AstNode.beq_iff : (a b : AstNode) → AstNode.beq a b = true ↔ a = b
  | .node i os, .node i' os' => by simp [AstNode.beq, AstNode.beqList_iff os os']
  | .bare i o, .bare i' o' => by simp [AstNode.beq, AstNode.beq_iff o o']
  | .str s, .str s' => by simp [AstNode.beq]
  | .node .., .bare .. | .node .., .str _ | .bare .., .node .. | .bare .., .str _
  | .str _, .node .. | .str _, .bare .. => by simp [AstNode.beq]
theorem AstNode.beqList_iff : (as bs : List AstNode) → AstNode.beqList as bs = true ↔ as = bs
  | [], [] => by simp [AstNode.beqList]
  | a :: as, b :: bs => by
    simp [AstNode.beqList, AstNode.beq_iff a b, AstNode.beqList_iff as bs]
  | [], _ :: _ | _ :: _, [] => by simp [AstNode.beqList]
end

instance : DecidableEq AstNode := fun a b => decidable_of_iff _ (AstNode.beq_iff a b)

/-- The `instr` attribute, which a string does not have. -/
def AstNode.instr? : AstNode → Option Instruction
  | .node i _ => some i
  | .bare i _ => some i
  | .str _ => none

/-- The Python exceptions that end a compilation, by class. -/
inductive PyError where
  /-- A failed `assert`, with its message (empty when the `assert` gives none). -/
  | assertionError (msg : String)
  /-- `raise RuntimeError(msg)`. -/
  | runtimeError (msg : String)
  /-- A dictionary lookup of a missing key. -/
  | keyError
  /-- `xs[i]` past the end of `xs`. -/
  | indexError
  /-- An operation on a value of the wrong type: iterating or unpacking a node or `None`,
  `reduce` of an empty list. -/
  | typeError
  /-- Unpacking a list of the wrong length. -/
  | valueError
  /-- An attribute that the value does not have, as `instr` of a string. -/
  | attributeError
  /-- `next` on an exhausted iterator. -/
  | stopIteration
  /-- Recursion past the bound of the model's fuel. -/
  | recursionError
  deriving DecidableEq, Repr

/-- Results compare by constructor and contents, so that `decide` checks a run's result. -/
instance decEqExcept {ε α : Type} [DecidableEq ε] [DecidableEq α] : DecidableEq (Except ε α)
  | .error a, .error b =>
    if h : a = b then isTrue (h ▸ rfl) else isFalse fun e => h (Except.error.inj e)
  | .ok a, .ok b => if h : a = b then isTrue (h ▸ rfl) else isFalse fun e => h (Except.ok.inj e)
  | .error _, .ok _ => isFalse nofun
  | .ok _, .error _ => isFalse nofun

/-! ## `Except` as Python's exceptions

The model's functions return `Except PyError`; a step that raises stops the computation. -/

section ExceptLemmas

variable {ε α β : Type}

@[simp] theorem ok_bind (a : α) (f : α → Except ε β) : (Except.ok a >>= f) = f a := rfl

@[simp] theorem error_bind (e : ε) (f : α → Except ε β) :
    (Except.error e >>= f : Except ε β) = .error e := rfl

@[simp] theorem pure_eq_ok (a : α) : (pure a : Except ε α) = .ok a := rfl

/-- A bound computation succeeds exactly when both of its steps do. -/
theorem bind_eq_ok {x : Except ε α} {f : α → Except ε β} {b : β} :
    x >>= f = .ok b ↔ ∃ a, x = .ok a ∧ f a = .ok b := by
  cases x <;> simp

/-- A bound computation raises when its first step does, or its second after the first succeeds. -/
theorem bind_eq_error {x : Except ε α} {f : α → Except ε β} {e : ε} :
    x >>= f = .error e ↔ x = .error e ∨ ∃ a, x = .ok a ∧ f a = .error e := by
  cases x <;> simp

/-- Two bound computations agree where the first does not raise `e`, when their first steps and
their continuations agree wherever the ones on the right do not raise `e`. -/
theorem bind_eq_of_ne_error {e : ε} {x x' : Except ε α} {f f' : α → Except ε β}
    (hx : x ≠ .error e → x' = x) (hf : ∀ a, f a ≠ .error e → f' a = f a)
    (h : (x >>= f) ≠ .error e) : (x' >>= f') = (x >>= f) := by
  cases x with
  | error e' =>
    rw [hx fun he => h (by rw [he]; rfl)]
    rfl
  | ok a =>
    rw [hx Except.noConfusion]
    exact hf a h

/-- A relation that every step of a fold relates its state before and after, and that composes,
relates the fold's first and last states. -/
theorem foldlM_rel {σ : Type} {f : σ → α → Except ε σ} (R : σ → σ → Prop)
    (hrefl : ∀ s, R s s) (htrans : ∀ s₁ s₂ s₃, R s₁ s₂ → R s₂ s₃ → R s₁ s₃) :
    ∀ {xs : List α} {s s' : σ}, (∀ x ∈ xs, ∀ s s', f s x = .ok s' → R s s') →
      xs.foldlM f s = .ok s' → R s s'
  | [], s, s', _, h => by simp only [List.foldlM_nil, pure_eq_ok, Except.ok.injEq] at h; exact h ▸ hrefl s
  | x :: xs, s, s', hf, h => by
    simp only [List.foldlM_cons, bind_eq_ok] at h
    obtain ⟨s₁, h₁, h₂⟩ := h
    exact htrans _ _ _ (hf x (List.mem_cons_self _ _) _ _ h₁)
      (foldlM_rel R hrefl htrans (fun y hy => hf y (List.mem_cons_of_mem _ hy)) h₂)

/-- An invariant that every step of a fold keeps holds of the fold's result. -/
theorem foldlM_invariant {σ : Type} {f : σ → α → Except ε σ} (P : σ → Prop) {xs : List α}
    {s s' : σ} (hf : ∀ x ∈ xs, ∀ s s', f s x = .ok s' → P s → P s') (h : xs.foldlM f s = .ok s') :
    P s → P s' :=
  foldlM_rel (fun s s' => P s → P s') (fun _ h => h) (fun _ _ _ h₁ h₂ h => h₂ (h₁ h)) hf h

/-- A computation that raises only exceptions `E` allows and returns only values with `P`: the
postcondition of a run that may fail in the allowed ways. It is an inductive predicate, so that
stating it of a closed computation does not evaluate the computation. -/
inductive Outcome (E : ε → Prop) (P : α → Prop) : Except ε α → Prop
  /-- The computation raises an allowed exception. -/
  | error {e : ε} : E e → Outcome E P (.error e)
  /-- The computation returns a value with `P`. -/
  | ok {a : α} : P a → Outcome E P (.ok a)

@[simp] theorem outcome_ok {E : ε → Prop} {P : α → Prop} {a : α} : Outcome E P (.ok a) ↔ P a :=
  ⟨fun | .ok h => h, .ok⟩

@[simp] theorem outcome_error {E : ε → Prop} {P : α → Prop} {e : ε} :
    Outcome E P (.error e : Except ε α) ↔ E e :=
  ⟨fun | .error h => h, .error⟩

/-- An outcome holds of more allowed exceptions and more values. -/
theorem Outcome.imp {E E' : ε → Prop} {P Q : α → Prop} {x : Except ε α} (h : Outcome E P x)
    (hE : ∀ e, E e → E' e) (hPQ : ∀ a, P a → Q a) : Outcome E' Q x := by
  cases h with
  | error he => exact .error (hE _ he)
  | ok ha => exact .ok (hPQ _ ha)

/-- An outcome holds of more values. -/
theorem Outcome.mono {E : ε → Prop} {P Q : α → Prop} {x : Except ε α} (h : Outcome E P x)
    (hPQ : ∀ a, P a → Q a) : Outcome E Q x :=
  h.imp (fun _ => id) hPQ

/-- A fact of every value that a computation returns joins its outcome. -/
theorem Outcome.and_ok {E : ε → Prop} {P Q : α → Prop} {x : Except ε α} (h : Outcome E P x)
    (hQ : ∀ a, x = .ok a → Q a) : Outcome E (fun a => P a ∧ Q a) x := by
  cases h with
  | error he => exact .error he
  | ok ha => exact .ok ⟨ha, hQ _ rfl⟩

/-- A computation that raises nothing returns. -/
theorem Outcome.exists_ok {P : α → Prop} {x : Except ε α} (h : Outcome (fun _ => False) P x) :
    ∃ a, x = .ok a ∧ P a := by
  cases h with
  | error he => exact he.elim
  | ok ha => exact ⟨_, rfl, ha⟩

/-- The outcome of a bound computation, from its first step's and its second's. -/
theorem Outcome.bind {E : ε → Prop} {P : α → Prop} {Q : β → Prop} {x : Except ε α}
    {f : α → Except ε β} (h : Outcome E P x) (hf : ∀ a, P a → Outcome E Q (f a)) :
    Outcome E Q (x >>= f) := by
  cases h with
  | error he => exact .error he
  | ok ha => exact hf _ ha

/-- An invariant that every step of a fold keeps, or raises an allowed exception from, holds of
the fold's result. -/
theorem foldlM_outcome {σ : Type} {f : σ → α → Except ε σ} {E : ε → Prop} (P : σ → Prop) :
    ∀ {xs : List α} {s : σ}, (∀ x ∈ xs, ∀ s, P s → Outcome E P (f s x)) → P s →
      Outcome E P (xs.foldlM f s)
  | [], _, _, hs => .ok hs
  | x :: _, _, hf, hs =>
    (hf x (List.mem_cons_self _ _) _ hs).bind fun _ h =>
      foldlM_outcome P (fun y hy => hf y (List.mem_cons_of_mem _ hy)) h

end ExceptLemmas

end LispCompiler
