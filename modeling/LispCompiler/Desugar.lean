import LispCompiler.Parser

/-!
# Desugaring

`flatten_tree` of `parser.py`. It unwraps a group whose only child is a node, turns the groups
`(lambda (p1 ...) body)` and `(defun name (p1 ...) body)` into `Defun` nodes with a
`LambdaParams` node between the name and the body, and flattens every other node's operands in
place. A lambda's name comes from `gen_random_name`, whose counter `name_counter` is global and
starts at `1`; the model passes it along.

Python rewrites the group node in place and then flattens its new operands; the name is a leaf and
the `LambdaParams` node's operands are the parameter list, so the model flattens the parameters and
the body directly.
-/

namespace LispCompiler

/-- `gen_random_name`: the counter is incremented and names the lambda `Lambda-<counter>`. -/
def genRandomName (nameCounter : Nat) : AstNode × Nat :=
  (.node .string1 [.str ("Lambda-" ++ toString (nameCounter + 1))], nameCounter + 1)

/-- `assert all((param.instr == Instruction.String1 for param in lambda_params))`: a string
parameter has no `instr` and raises before the assertion is reached. -/
def checkLambdaParams : List AstNode → Except PyError Unit
  | [] => pure ()
  | p :: ps => match p.instr? with
    | none => .error .attributeError
    | some i => if i = .string1 then checkLambdaParams ps else .error (.assertionError "")

mutual
/-- `flatten_tree`, with the value of `name_counter` before and after. -/
def flattenTree : AstNode → Nat → Except PyError (AstNode × Nat)
  | .node .numberConstant ops, c => pure (.node .numberConstant ops, c)
  | .node .string1 ops, c => pure (.node .string1 ops, c)
  | .bare .numberConstant k, c => pure (.bare .numberConstant k, c)
  | .bare .string1 k, c => pure (.bare .string1 k, c)
  | .node .unknown [.node i ops], c => flattenTree (.node i ops) c
  | .node .unknown [.bare i k], c => flattenTree (.bare i k) c
  | .node .unknown [.node .string1 [.str "lambda"], .node .unknown lambdaParams, fnBody], c => do
    checkLambdaParams lambdaParams
    let (name, c) := genRandomName c
    let (ps, c) ← flattenList lambdaParams c
    let (body, c) ← flattenTree fnBody c
    pure (.node .defun [name, .node .lambdaParams ps, body], c)
  | .node .unknown [.node .string1 [.str "defun"], .node .string1 [n], .node .unknown lambdaParams,
      fnBody], c => do
    let (ps, c) ← flattenList lambdaParams c
    let (body, c) ← flattenTree fnBody c
    pure (.node .defun [.node .string1 [n], .node .lambdaParams ps, body], c)
  | .node instr ops, c => do
    let (ops, c) ← flattenList ops c
    pure (.node instr ops, c)
  | .bare _ _, _ => .error .typeError
  | .str _, _ => .error .attributeError
/-- `list(map(lambda k: flatten_tree(k), operands))`, left to right. -/
def flattenList : List AstNode → Nat → Except PyError (List AstNode × Nat)
  | [], c => pure ([], c)
  | a :: as, c => do
    let (a, c) ← flattenTree a c
    let (as, c) ← flattenList as c
    pure (a :: as, c)
end

/-- A node that is not a literal, an identifier or a group has its operands flattened in place. -/
theorem flattenTree_node_of_ne {i : Instruction} (ops : List AstNode) (c : Nat)
    (h1 : i ≠ .numberConstant) (h2 : i ≠ .string1) (h3 : i ≠ .unknown) :
    flattenTree (.node i ops) c = (do
      let (ops, c) ← flattenList ops c
      pure (.node i ops, c)) :=
  flattenTree.eq_9 c i ops h1 h2 (fun _ _ h _ => h3 h) (fun _ _ h _ => h3 h) (fun _ _ h _ => h3 h)
    (fun _ _ _ h _ => h3 h)

end LispCompiler
