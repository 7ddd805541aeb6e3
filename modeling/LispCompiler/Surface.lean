import LispCompiler.Annotable
import LispCompiler.Extract
import LispCompiler.Progress

/-!
# The front end on the programs it is written for

The programs are top-level `defun`s and lambdas (`Definition`) whose bodies are numeric literals,
identifiers, sums and products of two operands, and calls of a named function on at least one
argument (`Expr`). `extractFunctions_source` states what the front end of `compiler.py` does on
the text of such a program. Lexing, `parse_all`, `flatten_tree` from `name_counter = 1` and
`separate_defuns` return one stub per definition, in order. A `defun` keeps its name, and the
lambdas are named `Lambda-2`, `Lambda-3`, … in the order they appear (`stubsFrom`). Each stub has
the definition's parameters and the syntax tree of its body (`Expr.tree`).

The proof follows the stages. The lexer reads back every list of tokens written with a space after
each one (`lexer_lexSource`). `parser` reads an expression's tokens into a tree with a group around
each operator form and each call (`Expr.parser_tokens`), with the fuel that `parse_all` gives it.
`flatten_tree` unwraps the group around an operator form and leaves the counter alone in a body
(`Expr.flattenTree_parsed`). It turns each definition into a `Defun` node and names each lambda
from the counter, and `separate_defuns` takes each `Defun` node apart into a stub.

Every stub of such a program whose `defun` names and called names are functions' names is
annotable (`stubsFrom_annotable`), so the completeness of inference holds on the program's text:
inference and specialization raise no type error when a substitution solves its constraints
(`inference_complete_of_source`).

The grammar leaves out subtraction, calls of no argument and lambdas inside a body. On a
subtraction `flatten_tree` raises, a call of no argument it turns into a variable, and a lambda
inside a body is not extracted: it stays in its stub's body.
-/

namespace LispCompiler

/-! ## Programs and their tokens -/

/-- Whether a word is an identifier: a token of the lexer that is no number and none of the
five tokens the parser reads as syntax. -/
def isIdent (x : String) : Bool :=
  decide (IsLexToken x ∧ x ∉ ["(", ")", "+", "-", "*"]) && !isNumber x

/-- The expressions of a body. -/
inductive Expr where
  /-- A numeric literal. -/
  | num (s : String)
  /-- An identifier. -/
  | var (x : String)
  /-- `(+ a b)`. -/
  | add (a b : Expr)
  /-- `(* a b)`. -/
  | mul (a b : Expr)
  /-- `(f a1 … an)`. -/
  | call (f : String) (args : List Expr)
  deriving Repr

mutual
/-- Whether an expression is one the front end is written for: a literal is a nonempty number, an
identifier is an identifier, and a call names a function other than `lambda` and `defun` and has
at least one argument. -/
def Expr.wellFormed : Expr → Bool
  | .num s => isNumber s && s != ""
  | .var x => isIdent x
  | .add a b | .mul a b => a.wellFormed && b.wellFormed
  | .call f args =>
    isIdent f && f != "lambda" && f != "defun" && !args.isEmpty && Expr.wellFormedList args
/-- `Expr.wellFormed` of every expression of a list. -/
def Expr.wellFormedList : List Expr → Bool
  | [] => true
  | e :: es => e.wellFormed && Expr.wellFormedList es
end

mutual
/-- The tokens of an expression. -/
def Expr.tokens : Expr → List String
  | .num s | .var s => [s]
  | .add a b => "(" :: "+" :: a.tokens ++ b.tokens ++ [")"]
  | .mul a b => "(" :: "*" :: a.tokens ++ b.tokens ++ [")"]
  | .call f args => "(" :: f :: Expr.tokensList args ++ [")"]
/-- The tokens of expressions one after another. -/
def Expr.tokensList : List Expr → List String
  | [] => []
  | e :: es => e.tokens ++ Expr.tokensList es
end

mutual
/-- The tree `parser` reads from an expression's tokens: a group around an operator form and
around a call. -/
def Expr.parsed : Expr → AstNode
  | .num s => .node .numberConstant [.str s]
  | .var x => .node .string1 [.str x]
  | .add a b => .node .unknown [.node .add [a.parsed, b.parsed]]
  | .mul a b => .node .unknown [.node .mult [a.parsed, b.parsed]]
  | .call f args => .node .unknown (.node .string1 [.str f] :: Expr.parsedList args)
/-- `Expr.parsed` of each expression of a list. -/
def Expr.parsedList : List Expr → List AstNode
  | [] => []
  | e :: es => e.parsed :: Expr.parsedList es
end

mutual
/-- The syntax tree of an expression: a sum or a product is a node on its two operands, and a call
a group of the function's name and the arguments. -/
def Expr.tree : Expr → AstNode
  | .num s => .node .numberConstant [.str s]
  | .var x => .node .string1 [.str x]
  | .add a b => .node .add [a.tree, b.tree]
  | .mul a b => .node .mult [a.tree, b.tree]
  | .call f args => .node .unknown (.node .string1 [.str f] :: Expr.treeList args)
/-- `Expr.tree` of each expression of a list. -/
def Expr.treeList : List Expr → List AstNode
  | [] => []
  | e :: es => e.tree :: Expr.treeList es
end

/-- An identifier node. -/
def identNode (x : String) : AstNode := .node .string1 [.str x]

/-- A top-level definition: `(defun name (p1 … pn) body)` or `(lambda (p1 … pn) body)`. -/
inductive Definition where
  | defun (name : String) (params : List String) (body : Expr)
  | lambda (params : List String) (body : Expr)
  deriving Repr

/-- A definition's names are identifiers and its body is well formed. -/
def Definition.wellFormed : Definition → Bool
  | .defun name params body => isIdent name && params.all isIdent && body.wellFormed
  | .lambda params body => params.all isIdent && body.wellFormed

/-- The tokens of a definition. -/
def Definition.tokens : Definition → List String
  | .defun name params body =>
    "(" :: "defun" :: name :: "(" :: params ++ ")" :: body.tokens ++ [")"]
  | .lambda params body => "(" :: "lambda" :: "(" :: params ++ ")" :: body.tokens ++ [")"]

/-- The tree `parser` reads from a definition's tokens. -/
def Definition.parsed : Definition → AstNode
  | .defun name params body => .node .unknown
    [identNode "defun", identNode name, .node .unknown (params.map identNode), body.parsed]
  | .lambda params body => .node .unknown
    [identNode "lambda", .node .unknown (params.map identNode), body.parsed]

/-- Tokens written out for the lexer, each followed by a space. -/
def lexSource : List String → String
  | [] => ""
  | t :: ts => t ++ " " ++ lexSource ts

/-- The text of a program. -/
def programSource (p : List Definition) : String := lexSource (p.flatMap Definition.tokens)

/-- The stubs a program's definitions should become, with `name_counter` at `c` before them: a
`defun` under its name, and a lambda under the counter's next name, each with its parameters and
the syntax tree of its body. -/
def stubsFrom : Nat → List Definition → List FunctionStub
  | _, [] => []
  | c, .defun name params body :: ds =>
    { name, paramsList := params, body := body.tree } :: stubsFrom c ds
  | c, .lambda params body :: ds =>
    { name := "Lambda-" ++ toString (c + 1), paramsList := params, body := body.tree } ::
      stubsFrom (c + 1) ds

/-! ## The lexer reads the tokens back -/

/-- One token and its space: the words emitted are the token and empty words. -/
theorem foldl_lexerStep_token {t : String} (ht : IsLexToken t) (words : List String) :
    ∃ new, (t ++ " ").toList.foldl lexerStep (words, "") = (words ++ new, "") ∧
      new.filter (· != "") = [t] := by
  rcases ht with rfl | rfl | ⟨hne, hc⟩
  · refine ⟨["", "(", ""], ?_, rfl⟩
    simp [show ("(" ++ " ").toList = ['(', ' '] from rfl, lexerStep]
    rfl
  · refine ⟨["", ")", ""], ?_, rfl⟩
    simp [show (")" ++ " ").toList = [')', ' '] from rfl, lexerStep]
    rfl
  · refine ⟨[t], ?_, by simp [hne]⟩
    rw [show (t ++ " ").toList = t.toList ++ [' '] from String.data_append _ _, List.foldl_append,
      foldl_lexerStep_word hc]
    rfl

theorem foldl_lexSource {ts : List String} (hts : ∀ t ∈ ts, IsLexToken t) (words : List String) :
    ∃ new, (lexSource ts).toList.foldl lexerStep (words, "") = (words ++ new, "") ∧
      new.filter (· != "") = ts := by
  induction ts generalizing words with
  | nil => exact ⟨[], by simp [lexSource], rfl⟩
  | cons t ts ih =>
    obtain ⟨new₁, h₁, hf₁⟩ := foldl_lexerStep_token (hts t (List.mem_cons_self _ _)) words
    obtain ⟨new₂, h₂, hf₂⟩ := ih (fun t ht => hts t (List.mem_cons_of_mem _ ht)) (words ++ new₁)
    refine ⟨new₁ ++ new₂, ?_, by rw [List.filter_append, hf₁, hf₂]; rfl⟩
    rw [lexSource, show (t ++ " " ++ lexSource ts).toList =
      (t ++ " ").toList ++ (lexSource ts).toList from String.data_append _ _, List.foldl_append, h₁,
      h₂, List.append_assoc]

/-- The lexer reads back every list of tokens written with a space after each one. -/
theorem lexer_lexSource {ts : List String} (hts : ∀ t ∈ ts, IsLexToken t) :
    lexer (lexSource ts) = ts := by
  obtain ⟨new, h, hf⟩ := foldl_lexSource hts []
  rw [lexer, h, List.nil_append, hf]

/-- `["a", "(", "b", ")"]` written out and read back. -/
theorem lexer_lexSource_group :
    (∀ t ∈ ["a", "(", "b", ")"], IsLexToken t) ∧
      lexer (lexSource ["a", "(", "b", ")"]) = ["a", "(", "b", ")"] := by
  refine ⟨?h, lexer_lexSource ?h⟩
  decide

/-! ## The parser reads the tokens -/

/-- One step of `take_until` on a token other than its closer. -/
theorem takeUntil_cons {n : Nat} {t u : String} {ts next : List String} {e : AstNode} (h : t ≠ u)
    (hp : parser n (t :: ts) = .ok (e, next)) :
    takeUntil (n + 1) (t :: ts) u = (do let (es, r) ← takeUntil n next u; pure (e :: es, r)) := by
  rw [takeUntil, if_neg h, hp, ok_bind]

/-- A group: `(`, the nodes `take_until` reads, and the `)` it stops at. -/
theorem parser_group {n : Nat} {ts rest : List String} {es : List AstNode}
    (h : takeUntil n ts ")" = .ok (es, ")" :: rest)) :
    parser (n + 1) ("(" :: ts) = .ok (.node .unknown es, rest) := by
  rw [parser, h]
  rfl

/-- A word that is none of the parser's syntax tokens is a literal or an identifier. -/
theorem parser_word (n : Nat) {x : String} (rest : List String)
    (hx : x ∉ ["(", ")", "+", "-", "*"]) :
    parser (n + 1) (x :: rest) = .ok (if isNumber x then .node .numberConstant [.str x]
      else .node .string1 [.str x], rest) := by
  simp only [List.mem_cons, List.not_mem_nil, or_false, not_or] at hx
  exact parser_leaf n rest hx.1 hx.2.2.1 hx.2.2.2.1 hx.2.2.2.2

/-- A number is none of the parser's syntax tokens. -/
theorem notSyntax_of_isNumber {x : String} (h : isNumber x = true) :
    x ∉ ["(", ")", "+", "-", "*"] := by
  intro hx
  simp only [List.mem_cons, List.not_mem_nil, or_false] at hx
  rcases hx with rfl | rfl | rfl | rfl | rfl <;> exact absurd h (by decide)

/-- A word of a definition's syntax, or an identifier, read as an identifier. -/
theorem parser_ident (n : Nat) {x : String} (rest : List String)
    (hx : x ∉ ["(", ")", "+", "-", "*"]) (hn : isNumber x = false) :
    parser (n + 1) (x :: rest) = .ok (identNode x, rest) := by
  rw [parser_word n rest hx, if_neg (by simp [hn])]
  rfl

theorem isIdent_iff {x : String} :
    isIdent x = true ↔ (IsLexToken x ∧ x ∉ ["(", ")", "+", "-", "*"]) ∧ isNumber x = false := by
  simp [isIdent]

/-- An expression's tokens start with a token other than `)`. -/
theorem Expr.tokens_eq_cons {e : Expr} (he : e.wellFormed = true) :
    ∃ t ts, e.tokens = t :: ts ∧ t ≠ ")" := by
  cases e with
  | num s => exact ⟨s, [], rfl, by rintro rfl; exact absurd he (by decide)⟩
  | var x => exact ⟨x, [], rfl, by rintro rfl; exact absurd he (by decide)⟩
  | add a b | mul a b | call f args => exact ⟨"(", _, rfl, by decide⟩

/-- `take_until` reads an expression, then goes on after it. -/
theorem takeUntil_expr {e : Expr} (he : e.wellFormed = true) {n : Nat} {rest : List String}
    (hp : parser n (e.tokens ++ rest) = .ok (e.parsed, rest)) :
    takeUntil (n + 1) (e.tokens ++ rest) ")" =
      (do let (es, r) ← takeUntil n rest ")"; pure (e.parsed :: es, r)) := by
  obtain ⟨t, ts, heq, hne⟩ := Expr.tokens_eq_cons he
  rw [heq] at hp ⊢
  exact takeUntil_cons hne hp

/-- A sum or a product of two operands, from the readings of the operands. -/
theorem parser_binop {op : String} {instr : Instruction}
    (hop : op = "+" ∧ instr = .add ∨ op = "*" ∧ instr = .mult) {a b : Expr}
    (ha : a.wellFormed = true) (hb : b.wellFormed = true) {n : Nat} {rest : List String}
    (hpa : parser (n + 2) (a.tokens ++ (b.tokens ++ ")" :: rest)) =
      .ok (a.parsed, b.tokens ++ ")" :: rest))
    (hpb : parser (n + 1) (b.tokens ++ ")" :: rest) = .ok (b.parsed, ")" :: rest)) :
    parser (n + 6) ("(" :: op :: (a.tokens ++ (b.tokens ++ ")" :: rest))) =
      .ok (.node .unknown [.node instr [a.parsed, b.parsed]], rest) := by
  have hu : takeUntil (n + 3) (a.tokens ++ (b.tokens ++ ")" :: rest)) ")" =
      .ok ([a.parsed, b.parsed], ")" :: rest) := by
    rw [takeUntil_expr ha hpa, takeUntil_expr hb hpb]
    rfl
  have hform : parser (n + 4) (op :: (a.tokens ++ (b.tokens ++ ")" :: rest))) =
      .ok (.node instr [a.parsed, b.parsed], ")" :: rest) := by
    rcases hop with ⟨rfl, rfl⟩ | ⟨rfl, rfl⟩ <;> (rw [parser, hu]; rfl)
  have hop' : op ≠ ")" := by rcases hop with ⟨rfl, -⟩ | ⟨rfl, -⟩ <;> decide
  exact parser_group (by rw [takeUntil_cons hop' hform]; rfl)

mutual
/-- `parser` reads an expression's tokens into its parse tree, with fuel for twice its tokens. -/
theorem Expr.parser_tokens : ∀ (e : Expr), e.wellFormed = true → ∀ (n : Nat) (rest : List String),
    2 * e.tokens.length ≤ n → parser n (e.tokens ++ rest) = .ok (e.parsed, rest)
  | .num s, he, n, rest, hn => by
    obtain ⟨m, rfl⟩ : ∃ m, n = m + 1 :=
      ⟨n - 1, by simp only [Expr.tokens, List.length_singleton] at hn; omega⟩
    simp only [Expr.wellFormed, Bool.and_eq_true] at he
    rw [show (Expr.num s).tokens ++ rest = s :: rest from rfl,
      parser_word m rest (notSyntax_of_isNumber he.1), if_pos he.1]
    rfl
  | .var x, he, n, rest, hn => by
    obtain ⟨m, rfl⟩ : ∃ m, n = m + 1 :=
      ⟨n - 1, by simp only [Expr.tokens, List.length_singleton] at hn; omega⟩
    have hx := isIdent_iff.1 he
    exact parser_ident m rest hx.1.2 hx.2
  | .add a b, he, n, rest, hn | .mul a b, he, n, rest, hn => by
    simp only [Expr.wellFormed, Bool.and_eq_true] at he
    simp only [Expr.tokens, List.length_cons, List.length_append, List.length_singleton] at hn
    obtain ⟨i, rfl⟩ : ∃ i, n = i + 6 := ⟨n - 6, by omega⟩
    have hpa := Expr.parser_tokens a he.1 (i + 2) (b.tokens ++ ")" :: rest) (by omega)
    have hpb := Expr.parser_tokens b he.2 (i + 1) (")" :: rest) (by omega)
    simp only [Expr.tokens, Expr.parsed, List.cons_append, List.append_assoc, List.singleton_append]
    exact parser_binop (by decide) he.1 he.2 hpa hpb
  | .call f args, he, n, rest, hn => by
    simp only [Expr.wellFormed, Bool.and_eq_true] at he
    simp only [Expr.tokens, List.length_cons, List.length_append, List.length_singleton] at hn
    obtain ⟨j, rfl⟩ : ∃ j, n = j + 3 := ⟨n - 3, by omega⟩
    have hx := isIdent_iff.1 he.1.1.1.1
    have hu := Expr.takeUntil_tokensList args he.2 (j + 1) rest (by omega)
    have hne : f ≠ ")" := fun h => hx.1.2 (by simp [h])
    simpa [Expr.tokens, Expr.parsed, List.append_assoc] using
      parser_group (by rw [takeUntil_cons hne (parser_ident j _ hx.1.2 hx.2), hu]; rfl)
/-- `take_until` reads the tokens of expressions up to a `)` into their parse trees, with fuel for
more than twice their tokens. -/
theorem Expr.takeUntil_tokensList : ∀ (es : List Expr), Expr.wellFormedList es = true →
    ∀ (n : Nat) (rest : List String), 2 * (Expr.tokensList es).length < n →
      takeUntil n (Expr.tokensList es ++ ")" :: rest) ")" = .ok (Expr.parsedList es, ")" :: rest)
  | [], _, 0, _, h => absurd h (Nat.not_lt_zero _)
  | [], _, _ + 1, _, _ => rfl
  | e :: es, hes, n, rest, hn => by
    simp only [Expr.wellFormedList, Bool.and_eq_true] at hes
    simp only [Expr.tokensList, List.length_append] at hn
    obtain ⟨t, ts, heq, -⟩ := Expr.tokens_eq_cons hes.1
    have hpos : 0 < e.tokens.length := by simp [heq]
    obtain ⟨m, rfl⟩ : ∃ m, n = m + 1 := ⟨n - 1, by omega⟩
    have hp := Expr.parser_tokens e hes.1 m (Expr.tokensList es ++ ")" :: rest) (by omega)
    rw [Expr.tokensList, List.append_assoc, takeUntil_expr hes.1 hp,
      Expr.takeUntil_tokensList es hes.2 m rest (by omega)]
    rfl
end

/-- The tokens, parse trees and well-formedness of identifiers read as expressions. -/
theorem Expr.tokensList_vars (xs : List String) : Expr.tokensList (xs.map .var) = xs := by
  induction xs with
  | nil => rfl
  | cons x xs ih => simp only [List.map_cons, Expr.tokensList, ih]; rfl

theorem Expr.parsedList_vars (xs : List String) :
    Expr.parsedList (xs.map .var) = xs.map identNode := by
  induction xs with
  | nil => rfl
  | cons x xs ih => simp only [List.map_cons, Expr.parsedList, ih]; rfl

theorem Expr.wellFormedList_vars (xs : List String) :
    Expr.wellFormedList (xs.map .var) = xs.all isIdent := by
  induction xs with
  | nil => rfl
  | cons x xs ih => simp only [List.map_cons, Expr.wellFormedList, ih, List.all_cons]; rfl

/-- The parameter list of a definition: a group of identifiers. -/
theorem parser_params {xs : List String} (hxs : xs.all isIdent = true) {k : Nat}
    {rest : List String} (hk : 2 * xs.length < k + 1) :
    parser (k + 2) ("(" :: (xs ++ ")" :: rest)) =
      .ok (.node .unknown (xs.map identNode), rest) := by
  have hu := Expr.takeUntil_tokensList (xs.map .var) (by rwa [Expr.wellFormedList_vars]) (k + 1)
    rest (by rwa [Expr.tokensList_vars])
  rw [Expr.tokensList_vars, Expr.parsedList_vars] at hu
  exact parser_group hu

/-- `parser` reads a definition's tokens into its parse tree, with fuel for twice its tokens. -/
theorem Definition.parser_tokens {d : Definition} (hd : d.wellFormed = true) (n : Nat)
    (rest : List String) (hn : 2 * d.tokens.length ≤ n) :
    parser n (d.tokens ++ rest) = .ok (d.parsed, rest) := by
  cases d with
  | defun name params body =>
    simp only [Definition.wellFormed, Bool.and_eq_true] at hd
    simp only [Definition.tokens, List.length_cons, List.length_append, List.length_singleton] at hn
    obtain ⟨k, rfl⟩ : ∃ k, n = k + 6 := ⟨n - 6, by omega⟩
    have hname := isIdent_iff.1 hd.1.1
    have hbody := Expr.parser_tokens body hd.2 (k + 1) (")" :: rest) (by omega)
    have hu : takeUntil (k + 5) ("defun" :: name :: "(" :: (params ++ ")" :: (body.tokens ++
        ")" :: rest))) ")" = .ok ([identNode "defun", identNode name,
          .node .unknown (params.map identNode), body.parsed], ")" :: rest) := by
      rw [takeUntil_cons (by decide) (parser_ident (k + 3) _ (by decide) (by decide)),
        takeUntil_cons (fun h => hname.1.2 (by simp [h]))
          (parser_ident (k + 2) _ hname.1.2 hname.2),
        takeUntil_cons (by decide) (parser_params hd.1.2 (by omega)), takeUntil_expr hd.2 hbody]
      rfl
    simpa [Definition.tokens, Definition.parsed, List.append_assoc] using parser_group hu
  | lambda params body =>
    simp only [Definition.wellFormed, Bool.and_eq_true] at hd
    simp only [Definition.tokens, List.length_cons, List.length_append, List.length_singleton] at hn
    obtain ⟨k, rfl⟩ : ∃ k, n = k + 5 := ⟨n - 5, by omega⟩
    have hbody := Expr.parser_tokens body hd.2 (k + 1) (")" :: rest) (by omega)
    have hu : takeUntil (k + 4) ("lambda" :: "(" :: (params ++ ")" :: (body.tokens ++
        ")" :: rest))) ")" = .ok ([identNode "lambda", .node .unknown (params.map identNode),
          body.parsed], ")" :: rest) := by
      rw [takeUntil_cons (by decide) (parser_ident (k + 2) _ (by decide) (by decide)),
        takeUntil_cons (by decide) (parser_params hd.1 (by omega)), takeUntil_expr hd.2 hbody]
      rfl
    simpa [Definition.tokens, Definition.parsed, List.append_assoc] using parser_group hu

/-- `parse_all` reads a program's tokens into the parse trees of its definitions. -/
theorem parseAllAux_definitions : ∀ (p : List Definition), p.all Definition.wellFormed = true →
    ∀ fuel, (p.flatMap Definition.tokens).length < fuel →
      parseAllAux fuel (p.flatMap Definition.tokens) = .ok (p.map Definition.parsed)
  | [], _, 0, h => absurd h (Nat.not_lt_zero _)
  | [], _, _ + 1, _ => rfl
  | d :: ds, hp, fuel, h => by
    simp only [List.all_cons, Bool.and_eq_true] at hp
    obtain ⟨t, ts, heq⟩ : ∃ t ts, d.tokens = t :: ts := by cases d <;> exact ⟨_, _, rfl⟩
    simp only [List.flatMap_cons, List.length_append, heq, List.length_cons] at h
    obtain ⟨k, rfl⟩ : ∃ k, fuel = k + 1 := ⟨fuel - 1, by omega⟩
    rw [List.flatMap_cons, heq, List.cons_append, parseAllAux.eq_3 _ _ (List.cons_ne_nil _ _),
      ← List.cons_append, ← heq, Definition.parser_tokens hp.1 _ _ (by simp [heq]; omega), ok_bind]
    simp only [parseAllAux_definitions ds hp.2 k (by omega)]
    rfl

/-! ## `flatten_tree` and `separate_defuns` on the parse trees -/

/-- A group of an identifier other than `lambda` and `defun` and at least one more node is
flattened operand by operand. -/
theorem flattenTree_call {f : String} (hl : f ≠ "lambda") (hd : f ≠ "defun") (a : AstNode)
    (as : List AstNode) (c : Nat) :
    flattenTree (.node .unknown (.node .string1 [.str f] :: a :: as)) c =
      (do let (ops, c) ← flattenList (.node .string1 [.str f] :: a :: as) c
          pure (.node .unknown ops, c)) :=
  flattenTree.eq_9 c .unknown _ (fun h => nomatch h) (fun h => nomatch h)
    (fun _ _ _ h => by simp at h) (fun _ _ _ h => by simp at h)
    (fun _ _ _ h => hl (by simp at h; exact h.1)) (fun _ _ _ _ h => hd (by simp at h; exact h.1))

/-- An identifier is flattened to itself. -/
@[simp] theorem flattenTree_string1 (ops : List AstNode) (c : Nat) :
    flattenTree (.node .string1 ops) c = .ok (.node .string1 ops, c) := rfl

@[simp] theorem flattenTree_identNode (x : String) (c : Nat) :
    flattenTree (identNode x) c = .ok (identNode x, c) := rfl

mutual
/-- `flatten_tree` unwraps the group around each operator form of an expression's parse tree, keeps
each call's group, and leaves the counter alone. -/
theorem Expr.flattenTree_parsed : ∀ (e : Expr), e.wellFormed = true → ∀ c,
    flattenTree e.parsed c = .ok (e.tree, c)
  | .num _, _, _ => rfl
  | .var _, _, _ => rfl
  | .add a b, he, c | .mul a b, he, c => by
    simp only [Expr.wellFormed, Bool.and_eq_true] at he
    rw [Expr.parsed, flattenTree.eq_5,
      flattenTree_node_of_ne _ _ (by decide) (by decide) (by decide)]
    simp only [flattenList, Expr.flattenTree_parsed a he.1, Expr.flattenTree_parsed b he.2, ok_bind]
    rfl
  | .call _ [], he, _ => absurd he (by simp [Expr.wellFormed])
  | .call f (a :: as), he, c => by
    have hl : f ≠ "lambda" := by rintro rfl; simp [Expr.wellFormed] at he
    have hd : f ≠ "defun" := by rintro rfl; simp [Expr.wellFormed] at he
    have hes : a.wellFormed = true ∧ Expr.wellFormedList as = true := by
      simp only [Expr.wellFormed, Expr.wellFormedList, Bool.and_eq_true] at he
      exact he.2
    simp only [Expr.parsed, Expr.parsedList]
    rw [flattenTree_call hl hd]
    simp only [flattenList, flattenTree_string1, ok_bind, Expr.flattenTree_parsed a hes.1 c,
      Expr.flattenList_parsedList as hes.2 c]
    rfl
/-- `flatten_tree` of the parse trees of expressions, one after another. -/
theorem Expr.flattenList_parsedList : ∀ (es : List Expr), Expr.wellFormedList es = true → ∀ c,
    flattenList (Expr.parsedList es) c = .ok (Expr.treeList es, c)
  | [], _, _ => rfl
  | e :: es, hes, c => by
    simp only [Expr.wellFormedList, Bool.and_eq_true] at hes
    simp only [Expr.parsedList, flattenList, Expr.flattenTree_parsed e hes.1 c, ok_bind,
      Expr.flattenList_parsedList es hes.2 c]
    rfl
end

theorem flattenList_idents (xs : List String) (c : Nat) :
    flattenList (xs.map identNode) c = .ok (xs.map identNode, c) := by
  induction xs with
  | nil => rfl
  | cons x xs ih => simp only [List.map_cons, flattenList, flattenTree_identNode, ok_bind, ih]; rfl

theorem checkLambdaParams_idents (xs : List String) :
    checkLambdaParams (xs.map identNode) = .ok () := by
  induction xs with
  | nil => rfl
  | cons x xs ih => exact ih

theorem convertStringToStr_idents (xs : List String) :
    convertStringToStr (xs.map identNode) = .ok xs := by
  induction xs with
  | nil => rfl
  | cons x xs ih =>
    show convertStringToStr (.node .string1 [.str x] :: xs.map identNode) = _
    rw [convertStringToStr, ih]
    rfl

/-- A definition becomes one `Defun` node, which `separate_defuns` takes apart into the stub that
`stubsFrom` gives it; a lambda takes its name from the counter. -/
theorem Definition.flatten_separate {d : Definition} (hd : d.wellFormed = true) (c : Nat)
    (ds : List Definition) :
    ∃ node c' s, flattenTree d.parsed c = .ok (node, c') ∧
      separateDefuns node = .ok ([s], Option.none) ∧
      stubsFrom c (d :: ds) = s :: stubsFrom c' ds := by
  cases d with
  | defun name params body =>
    simp only [Definition.wellFormed, Bool.and_eq_true] at hd
    refine ⟨.node .defun [identNode name, .node .lambdaParams (params.map identNode), body.tree], c,
      _, ?_, ?_, rfl⟩
    · rw [Definition.parsed, identNode, identNode, flattenTree.eq_8]
      simp only [flattenList_idents, ok_bind, Expr.flattenTree_parsed body hd.2]
      rfl
    · rw [identNode, separateDefuns.eq_1, convertStringToStr_idents]
      rfl
  | lambda params body =>
    simp only [Definition.wellFormed, Bool.and_eq_true] at hd
    refine ⟨.node .defun [identNode ("Lambda-" ++ toString (c + 1)),
      .node .lambdaParams (params.map identNode), body.tree], c + 1, _, ?_, ?_, rfl⟩
    · rw [Definition.parsed, identNode, flattenTree.eq_7]
      simp only [checkLambdaParams_idents, ok_bind, genRandomName, flattenList_idents,
        Expr.flattenTree_parsed body hd.2]
      rfl
    · rw [identNode, separateDefuns.eq_1, convertStringToStr_idents]
      rfl

/-- The definitions of a program, flattened one after another and then separated. -/
theorem flatten_separate_definitions : ∀ (p : List Definition), p.all Definition.wellFormed = true →
    ∀ c, ∃ nodes c', flattenList (p.map Definition.parsed) c = .ok (nodes, c') ∧
      separateList nodes = .ok (stubsFrom c p, [])
  | [], _, c => ⟨[], c, rfl, rfl⟩
  | d :: ds, hp, c => by
    simp only [List.all_cons, Bool.and_eq_true] at hp
    obtain ⟨node, c₁, s, hf, hs, hst⟩ := Definition.flatten_separate hp.1 c ds
    obtain ⟨nodes, c', hfs, hss⟩ := flatten_separate_definitions ds hp.2 c₁
    refine ⟨node :: nodes, c', ?_, ?_⟩
    · simp only [List.map_cons, flattenList, hf, hfs, ok_bind]
      rfl
    · rw [separateList.eq_3 _ _ fun _ h => by subst h; simp [separateDefuns] at hs]
      simp only [hs, hss, ok_bind, hst]
      rfl

/-! ## The front end -/

/-- A nonempty number is a token of the lexer. -/
theorem isLexToken_of_isNumber {s : String} (h : isNumber s = true) (hne : s ≠ "") :
    IsLexToken s :=
  .inr (.inr ⟨hne, fun c hc => by
    have hc' := List.all_eq_true.1 h c hc
    refine ⟨?_, ?_, ?_⟩ <;> rintro rfl <;> exact absurd hc' (by decide)⟩)

mutual
/-- Every token of a well-formed expression is a token of the lexer. -/
theorem Expr.lexTokens : ∀ (e : Expr), e.wellFormed = true →
    e.tokens.all (fun t => decide (IsLexToken t)) = true
  | .num s, he => by
    simp only [Expr.wellFormed, Bool.and_eq_true, bne_iff_ne, ne_eq] at he
    simp [Expr.tokens, isLexToken_of_isNumber he.1 he.2]
  | .var x, he => by simp [Expr.tokens, (isIdent_iff.1 he).1.1]
  | .add a b, he | .mul a b, he => by
    simp only [Expr.wellFormed, Bool.and_eq_true] at he
    simp only [Expr.tokens, List.all_cons, List.all_append, Expr.lexTokens a he.1,
      Expr.lexTokens b he.2, List.all_nil]
    decide
  | .call f args, he => by
    simp only [Expr.wellFormed, Bool.and_eq_true] at he
    simp only [Expr.tokens, List.all_cons, List.all_append, Expr.lexTokensList args he.2,
      List.all_nil, decide_eq_true (isIdent_iff.1 he.1.1.1.1).1.1]
    decide
/-- Every token of well-formed expressions is a token of the lexer. -/
theorem Expr.lexTokensList : ∀ (es : List Expr), Expr.wellFormedList es = true →
    (Expr.tokensList es).all (fun t => decide (IsLexToken t)) = true
  | [], _ => rfl
  | e :: es, hes => by
    simp only [Expr.wellFormedList, Bool.and_eq_true] at hes
    simp only [Expr.tokensList, List.all_append, Expr.lexTokens e hes.1,
      Expr.lexTokensList es hes.2]
    rfl
end

/-- Every token of a well-formed program is a token of the lexer. -/
theorem program_lexTokens {p : List Definition} (hp : p.all Definition.wellFormed = true) :
    ∀ t ∈ p.flatMap Definition.tokens, IsLexToken t := by
  intro t ht
  obtain ⟨d, hd, ht⟩ := List.mem_flatMap.1 ht
  have hwf := List.all_eq_true.1 hp d hd
  have hparams : ∀ params : List String, params.all isIdent = true → ∀ t ∈ params, IsLexToken t :=
    fun params h t ht => (isIdent_iff.1 (List.all_eq_true.1 h t ht)).1.1
  have hbody : ∀ body : Expr, body.wellFormed = true → ∀ t ∈ body.tokens, IsLexToken t :=
    fun body h t ht => of_decide_eq_true (List.all_eq_true.1 (Expr.lexTokens body h) t ht)
  cases d with
  | defun name params body =>
    simp only [Definition.wellFormed, Bool.and_eq_true] at hwf
    simp only [Definition.tokens, List.mem_cons, List.mem_append, List.not_mem_nil, or_false] at ht
    rcases ht with ((rfl | rfl | rfl | rfl | ht) | rfl | ht) | rfl
    -- the parentheses and `defun`
    any_goals decide
    · exact (isIdent_iff.1 hwf.1.1).1.1
    · exact hparams _ hwf.1.2 _ ht
    · exact hbody _ hwf.2 _ ht
  | lambda params body =>
    simp only [Definition.wellFormed, Bool.and_eq_true] at hwf
    simp only [Definition.tokens, List.mem_cons, List.mem_append, List.not_mem_nil, or_false] at ht
    rcases ht with ((rfl | rfl | rfl | ht) | rfl | ht) | rfl
    any_goals decide
    · exact hparams _ hwf.1 _ ht
    · exact hbody _ hwf.2 _ ht

/-- The stages of the front end on the text of a well-formed program, one after another. -/
theorem extractFunctions_eq_stubsFrom {p : List Definition}
    (hp : p.all Definition.wellFormed = true) :
    extractFunctions (programSource p) = .ok (stubsFrom 1 p) := by
  obtain ⟨nodes, c', hf, hs⟩ := flatten_separate_definitions p hp 1
  rw [extractFunctions, programSource, lexer_lexSource (program_lexTokens hp), parseAll,
    parseAllAux_definitions p hp _ (Nat.lt_succ_self _), ok_bind,
    flattenTree_node_of_ne _ _ (by decide) (by decide) (by decide)]
  simp only [hf, ok_bind, pure_eq_ok]
  rw [separateDefuns.eq_2 .module nodes fun _ _ _ h => nomatch h]
  simp [walkedShape, hs]

/-- The front end on a well-formed program. Lexing its text, `parse_all`, `flatten_tree` from
`name_counter = 1` and `separate_defuns` return one stub per definition, in order: a `defun` under
its own name and the lambdas as `Lambda-2`, `Lambda-3`, …, each with its parameters and the syntax
tree of its body. Python's recursion limit is not modelled for `parser`, `parse_all` and
`flatten_tree`: a program of about 1000 definitions, or with parentheses nested about 500 deep,
raises `RecursionError` in Python. -/
theorem extractFunctions_source {p : List Definition} (hp : p.all Definition.wellFormed = true) :
    extractFunctions (programSource p) = .ok (stubsFrom 1 p) :=
  extractFunctions_eq_stubsFrom hp

/-- `(defun sq (x) (* x x)) (lambda (y) (sq (+ y 1)))`. -/
theorem extractFunctions_source_square :
    [Definition.defun "sq" ["x"] (.mul (.var "x") (.var "x")),
        .lambda ["y"] (.call "sq" [.add (.var "y") (.num "1")])].all Definition.wellFormed = true ∧
      extractFunctions (programSource [.defun "sq" ["x"] (.mul (.var "x") (.var "x")),
          .lambda ["y"] (.call "sq" [.add (.var "y") (.num "1")])]) =
        .ok (stubsFrom 1 [.defun "sq" ["x"] (.mul (.var "x") (.var "x")),
          .lambda ["y"] (.call "sq" [.add (.var "y") (.num "1")])]) := by
  refine ⟨?hp, extractFunctions_source ?hp⟩
  decide

/-- The stubs of that program: `sq`, and the lambda as `Lambda-2`. -/
example : stubsFrom 1 [.defun "sq" ["x"] (.mul (.var "x") (.var "x")),
      .lambda ["y"] (.call "sq" [.add (.var "y") (.num "1")])] =
    [{ name := "sq", paramsList := ["x"],
        body := .node .mult [.node .string1 [.str "x"], .node .string1 [.str "x"]] },
      { name := "Lambda-2", paramsList := ["y"],
        body := .node .unknown [.node .string1 [.str "sq"],
          .node .add [.node .string1 [.str "y"], .node .numberConstant [.str "1"]]] }] := by
  decide

/-! ## Inference on written programs -/

mutual
/-- Whether every name an expression calls is a function's name: neither a base type's nor a
variable's. -/
def Expr.callsFunctions : Expr → Bool
  | .num _ | .var _ => true
  | .add a b | .mul a b => a.callsFunctions && b.callsFunctions
  | .call f args => (Ty.atom f).isFnAtom && Expr.callsFunctionsList args
/-- `Expr.callsFunctions` of every expression of a list. -/
def Expr.callsFunctionsList : List Expr → Bool
  | [] => true
  | e :: es => e.callsFunctions && Expr.callsFunctionsList es
end

/-- A `defun`'s name and every name a definition's body calls are functions' names. -/
def Definition.namesFunctions : Definition → Bool
  | .defun name _ body => (Ty.atom name).isFnAtom && body.callsFunctions
  | .lambda _ body => body.callsFunctions

mutual
/-- The syntax tree of a well-formed expression that calls functions is one `type_annotator`
types. -/
theorem Expr.annotable_tree : ∀ (e : Expr), e.wellFormed = true → e.callsFunctions = true →
    e.tree.annotable = true
  | .num s, he, _ => by
    simp only [Expr.wellFormed, Bool.and_eq_true] at he
    simp [Expr.tree, AstNode.annotable, he.1]
  | .var x, _, _ => by simp [Expr.tree, AstNode.annotable]
  | .add a b, he, hc | .mul a b, he, hc => by
    simp only [Expr.wellFormed, Expr.callsFunctions, Bool.and_eq_true] at he hc
    simp [Expr.tree, AstNode.annotable, Expr.annotable_tree a he.1 hc.1,
      Expr.annotable_tree b he.2 hc.2]
  | .call f args, he, hc => by
    simp only [Expr.wellFormed, Expr.callsFunctions, Bool.and_eq_true] at he hc
    simp [Expr.tree, AstNode.annotable, hc.1, Expr.annotable_treeList args he.2 hc.2]
/-- The trees of well-formed expressions that call functions are annotable. -/
theorem Expr.annotable_treeList : ∀ (es : List Expr), Expr.wellFormedList es = true →
    Expr.callsFunctionsList es = true → AstNode.annotableList (Expr.treeList es) = true
  | [], _, _ => by simp [Expr.treeList, AstNode.annotableList]
  | e :: es, he, hc => by
    simp only [Expr.wellFormedList, Expr.callsFunctionsList, Bool.and_eq_true] at he hc
    simp [Expr.treeList, AstNode.annotableList, Expr.annotable_tree e he.1 hc.1,
      Expr.annotable_treeList es he.2 hc.2]
end

/-- `Lambda-...`, the name `gen_random_name` gives a lambda, is a function's name. -/
theorem isFnAtom_lambdaName (s : String) : (Ty.atom ("Lambda-" ++ s)).isFnAtom := by
  simp [Ty.isFnAtom, isBaseName, isVarName, String.ext_iff, String.toList]
  rfl

/-- The stubs of a well-formed program whose definitions name functions are annotable. -/
theorem stubsFrom_annotable : ∀ (c : Nat) (p : List Definition),
    p.all Definition.wellFormed = true → p.all Definition.namesFunctions = true →
      ∀ f ∈ stubsFrom c p, f.annotable = true
  | _, [], _, _, _, hf => nomatch hf
  | c, .defun name params body :: ds, hp, hn, f, hf => by
    simp only [List.all_cons, Definition.wellFormed, Definition.namesFunctions,
      Bool.and_eq_true] at hp hn
    rcases List.mem_cons.1 hf with rfl | hf
    · simp [FunctionStub.annotable, hn.1.1, Expr.annotable_tree body hp.1.2 hn.1.2]
    · exact stubsFrom_annotable c ds hp.2 hn.2 f hf
  | c, .lambda params body :: ds, hp, hn, f, hf => by
    simp only [List.all_cons, Definition.wellFormed, Definition.namesFunctions,
      Bool.and_eq_true] at hp hn
    rcases List.mem_cons.1 hf with rfl | hf
    · simp [FunctionStub.annotable, isFnAtom_lambdaName, Expr.annotable_tree body hp.1.2 hn.1]
    · exact stubsFrom_annotable (c + 1) ds hp.2 hn.2 f hf

/-- Inference and specialization raise no type error on the text of a written program that a
substitution solves. When the program is well formed, its `defun` names and called names are
functions' names, `θ` solves every constraint that annotation generates on its stubs and the
primitive table, and `θ` equates the entry with an invocation type without `None`, the stages of
`compiler.py` from the source text up to `apply_with_type` raise nothing but `RecursionError` and
the final assertion that every value of the merged map is resolved; when they return, they return
`θ`'s entry signature. No budget excludes `RecursionError`: a merge can bind two variables to each other, as on the
solvable `cycleProgram`, and `unify_vars` then follows them at every budget (`unifyVars_cycle`). -/
theorem inference_complete_of_source {fuel : Nat} {p : List Definition} {entry : String}
    {cs : List TypeConstraint} {θ : String → Ty} {types : List Ty}
    (hp : p.all Definition.wellFormed = true) (hn : p.all Definition.namesFunctions = true)
    (hentry : entry ∈ (stubsFrom 1 p).map (·.name))
    (hcs : generatedConstraints (stubsFrom 1 p) 0 = .ok cs) (hθ : Solves θ cs)
    (hstd : stdTypes.Satisfies θ) (happ : (Ty.tuple types).noneFree)
    (hinv : (Ty.atom entry).subst θ = (Ty.tuple types).subst θ) :
    Outcome (fun e => e = .recursionError ∨
        e = .assertionError "Type must be fully resolved at this point")
      (· = (Ty.tuple types).subst θ)
      (inferTypes fuel (programSource p) entry >>= fun r =>
        applyWithType fuel r.2.2.1 (.tuple types)) :=
  inference_keeps (extractFunctions_eq_stubsFrom hp) hentry hcs hθ
    (generatedConstraints_sorted (stubsFrom_annotable 1 p hp hn) hcs) hstd happ hinv

/-- `(defun sq (x) (* x x)) (lambda (y) (sq (+ y 1)))`. -/
def squareProgram : List Definition :=
  [.defun "sq" ["x"] (.mul (.var "x") (.var "x")),
    .lambda ["y"] (.call "sq" [.add (.var "y") (.num "1")])]

/-- The constraints that annotation generates on the stubs of `squareProgram`. -/
def squareConstraints : List TypeConstraint :=
  [⟨.atom "Operator+", .tuple [.atom "Unknown-x", .atom "Unknown-x", .atom "Unknown-1"]⟩,
    ⟨.atom "sq", .tuple [.atom "Unknown-x", .atom "Unknown-1"]⟩,
    ⟨.atom "Operator+", .tuple [.atom "Unknown-y", .atom "int", .atom "Unknown-3"]⟩,
    ⟨.atom "sq", .tuple [.atom "Unknown-3", .atom "Unknown-2"]⟩,
    ⟨.atom "Lambda-2", .tuple [.atom "Unknown-y", .atom "Unknown-2"]⟩]

/-- Every value of `squareProgram` an `int`. -/
def squareSolver : String → Ty
  | "Operator+" => .tuple [.atom "int", .atom "int", .atom "int"]
  | "sq" | "Lambda-2" => .tuple [.atom "int", .atom "int"]
  | s => (stdTypes.get? (.atom s)).getD (.atom "int")

/-- The lambda of `squareProgram` as the entry, invoked on `(int, int)`. -/
theorem inference_complete_of_source_square :
    squareProgram.all Definition.wellFormed = true ∧
    squareProgram.all Definition.namesFunctions = true ∧
    "Lambda-2" ∈ (stubsFrom 1 squareProgram).map (·.name) ∧
    generatedConstraints (stubsFrom 1 squareProgram) 0 = .ok squareConstraints ∧
    Solves squareSolver squareConstraints ∧ stdTypes.Satisfies squareSolver ∧
    (Ty.tuple [.atom "int", .atom "int"]).noneFree ∧
    (Ty.atom "Lambda-2").subst squareSolver =
      (Ty.tuple [.atom "int", .atom "int"]).subst squareSolver ∧
    Outcome (fun e => e = .recursionError ∨
        e = .assertionError "Type must be fully resolved at this point")
      (· = (Ty.tuple [.atom "int", .atom "int"]).subst squareSolver)
      (inferTypes recursionLimit (programSource squareProgram) "Lambda-2" >>= fun r =>
        applyWithType recursionLimit r.2.2.1 (.tuple [.atom "int", .atom "int"])) := by
  have hp : squareProgram.all Definition.wellFormed = true := by decide
  have hn : squareProgram.all Definition.namesFunctions = true := by decide
  have hcs : generatedConstraints (stubsFrom 1 squareProgram) 0 = .ok squareConstraints := by
    decide
  have hθ : Solves squareSolver squareConstraints := by decide
  have hstd : stdTypes.Satisfies squareSolver := by decide
  have hinv : (Ty.atom "Lambda-2").subst squareSolver =
      (Ty.tuple [.atom "int", .atom "int"]).subst squareSolver := by decide
  exact ⟨hp, hn, by decide, hcs, hθ, hstd, rfl, hinv,
    inference_complete_of_source hp hn (by decide) hcs hθ hstd rfl hinv⟩

end LispCompiler
