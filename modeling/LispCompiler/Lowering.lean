import LispCompiler.Annotate

/-!
# Lowering and call resolution

The typed nodes of `astnode.py`, and `type_lookup`, `convert_to_baseast`, and
`resolve_all_function_calls` of `compiler.py`.

`convert_to_baseast` reads each parameter's type under the variable `type_annotator` gives the
parameter's name, and the return type under the function's own type, from the map it is given.
Its body conversion `iter_node` turns identifiers into variable loads, literals into constants of
type `int`, additions and multiplications into calls of `Operator+` and `Operator*`, a group headed
by an identifier into a call of that name, and a group of groups into a `ProgN`; anything else
raises.

`resolve_all_function_calls` replaces every call by name with a `FunctionApplication` of the
definition that `function_name_map` holds for the name, the last one of that name. A
`FunctionApplication` holds the `TypedFnDef` object itself; the model holds its position in the
list, which is the same list after resolution since Python rewrites each definition's body in
place. The classes `VariableLoad` and `UntypedFnDef` are never built and are left out.
-/

namespace LispCompiler

/-- A node of a lowered body. -/
inductive BaseAst where
  /-- `ProgN(programs)`. -/
  | progN (programs : List BaseAst)
  /-- `UnresolvedVariableLoad(variable)`, the identifier's operand as `var`. -/
  | unresolvedVariableLoad (var : AstNode)
  /-- `ConstantLoad(type, constant)`, the literal's operand. -/
  | constantLoad (type : Ty) (constant : AstNode)
  /-- `UnresolvedFnApp(fn, params)`, a call by name. -/
  | unresolvedFnApp (fn : String) (params : List BaseAst)
  /-- `FunctionApplication(fn, params)`, a call of the definition at position `fn`. -/
  | functionApplication (fn : Nat) (params : List BaseAst)
  deriving Repr

mutual
/-- Structural equality of lowered nodes. -/
def BaseAst.beq : BaseAst → BaseAst → Bool
  | .progN ps, .progN ps' => BaseAst.beqList ps ps'
  | .unresolvedVariableLoad v, .unresolvedVariableLoad v' => v == v'
  | .constantLoad t c, .constantLoad t' c' => t == t' && c == c'
  | .unresolvedFnApp f ps, .unresolvedFnApp f' ps' => f == f' && BaseAst.beqList ps ps'
  | .functionApplication f ps, .functionApplication f' ps' => f == f' && BaseAst.beqList ps ps'
  | _, _ => false
/-- Structural equality of lists of lowered nodes. -/
def BaseAst.beqList : List BaseAst → List BaseAst → Bool
  | [], [] => true
  | a :: as, a' :: as' => BaseAst.beq a a' && BaseAst.beqList as as'
  | _, _ => false
end

mutual
theorem BaseAst.beq_iff : (a b : BaseAst) → BaseAst.beq a b = true ↔ a = b
  | .progN ps, .progN ps' => by simp [BaseAst.beq, BaseAst.beqList_iff ps ps']
  | .unresolvedVariableLoad v, .unresolvedVariableLoad v' => by simp [BaseAst.beq]
  | .constantLoad t c, .constantLoad t' c' => by simp [BaseAst.beq]
  | .unresolvedFnApp f ps, .unresolvedFnApp f' ps' => by
    simp [BaseAst.beq, BaseAst.beqList_iff ps ps']
  | .functionApplication f ps, .functionApplication f' ps' => by
    simp [BaseAst.beq, BaseAst.beqList_iff ps ps']
  | .progN _, .unresolvedVariableLoad _ | .progN _, .constantLoad .. | .progN _, .unresolvedFnApp ..
  | .progN _, .functionApplication .. | .unresolvedVariableLoad _, .progN _
  | .unresolvedVariableLoad _, .constantLoad .. | .unresolvedVariableLoad _, .unresolvedFnApp ..
  | .unresolvedVariableLoad _, .functionApplication .. | .constantLoad .., .progN _
  | .constantLoad .., .unresolvedVariableLoad _ | .constantLoad .., .unresolvedFnApp ..
  | .constantLoad .., .functionApplication .. | .unresolvedFnApp .., .progN _
  | .unresolvedFnApp .., .unresolvedVariableLoad _ | .unresolvedFnApp .., .constantLoad ..
  | .unresolvedFnApp .., .functionApplication .. | .functionApplication .., .progN _
  | .functionApplication .., .unresolvedVariableLoad _ | .functionApplication .., .constantLoad ..
  | .functionApplication .., .unresolvedFnApp .. => by simp [BaseAst.beq]
theorem BaseAst.beqList_iff : (as bs : List BaseAst) → BaseAst.beqList as bs = true ↔ as = bs
  | [], [] => by simp [BaseAst.beqList]
  | a :: as, b :: bs => by
    simp [BaseAst.beqList, BaseAst.beq_iff a b, BaseAst.beqList_iff as bs]
  | [], _ :: _ | _ :: _, [] => by simp [BaseAst.beqList]
end

instance : DecidableEq BaseAst := fun a b => decidable_of_iff _ (BaseAst.beq_iff a b)

/-- A `VariableDef`: a parameter's name and type. -/
structure VariableDef where
  name : String
  type : Ty
  deriving DecidableEq, Repr

/-- A `TypedFnDef`: a function's name, typed parameters, lowered body, and return type. -/
structure TypedFnDef where
  name : String
  params : List VariableDef
  body : BaseAst
  returnType : Ty
  deriving DecidableEq, Repr

/-- `all(map(lambda k: k.instr == Instruction.Unknown, operands))`, which raises at a string met
before any other node. -/
def allUnknown : List AstNode → Except PyError Bool
  | [] => pure true
  | k :: ks => match k.instr? with
    | Option.none => .error .attributeError
    | some i => if i = .unknown then allUnknown ks else pure false

mutual
/-- `iter_node` of `convert_to_baseast`. -/
def iterNode : AstNode → Except PyError BaseAst
  | .node .string1 (x :: _) => pure (.unresolvedVariableLoad x)
  | .node .numberConstant (x :: _) => pure (.constantLoad (.atom "int") x)
  | .node .string1 [] | .node .numberConstant [] => .error .indexError
  | .node .add [lhs, rhs] => return .unresolvedFnApp "Operator+" [← iterNode lhs, ← iterNode rhs]
  | .node .mult [lhs, rhs] => return .unresolvedFnApp "Operator*" [← iterNode lhs, ← iterNode rhs]
  | .node .add _ | .node .mult _ => .error .valueError
  | .node .unknown [] => .error .indexError
  | .node .unknown (.node .string1 [.str name] :: args) =>
    return .unresolvedFnApp name (← iterList args)
  | .node .unknown (.node .string1 [_] :: _) => .error (.assertionError "")
  | .node .unknown (.node .string1 _ :: _) => .error .valueError
  | .node .unknown (.bare .string1 _ :: _) => .error .typeError
  | .node .unknown (first :: args) => match first.instr? with
    | Option.none => .error .attributeError
    | some _ => do
      if ← allUnknown (first :: args) then return .progN (← iterList (first :: args))
      else .error (.runtimeError "")
  | .node _ _ => .error (.runtimeError "")
  | .bare i _ =>
    if i = .string1 ∨ i = .numberConstant ∨ i = .add ∨ i = .mult ∨ i = .unknown then
      .error .typeError
    else .error (.runtimeError "")
  | .str _ => .error .attributeError
/-- `[iter_node(x) for x in xs]`. -/
def iterList : List AstNode → Except PyError (List BaseAst)
  | [] => pure []
  | x :: xs => return (← iterNode x) :: (← iterList xs)
end

/-- `(defun f (x y) (* x y))`: inference constrains the multiplication as `Operator+`, and lowering
calls `Operator*`. -/
theorem mult_constrained_as_add :
    extractFunctions "(defun f (x y) (* x y))" = .ok [⟨"f", ["x", "y"],
      .node .mult [.node .string1 [.str "x"], .node .string1 [.str "y"]], [], Option.none⟩] ∧
    typeAnnotator (.node .mult [.node .string1 [.str "x"], .node .string1 [.str "y"]]) 0 [] =
      .ok (.atom "Unknown-1", 1,
        [⟨.atom "Operator+", .tuple [.atom "Unknown-x", .atom "Unknown-y", .atom "Unknown-1"]⟩]) ∧
    iterNode (.node .mult [.node .string1 [.str "x"], .node .string1 [.str "y"]]) =
      .ok (.unresolvedFnApp "Operator*" [.unresolvedVariableLoad (.str "x"),
        .unresolvedVariableLoad (.str "y")]) := by
  decide

/-- `type_lookup(d, p)` for a parameter name `p`: the map's value at the variable that
`type_annotator(p, [])` gives, with the counter before and after. -/
def typeLookupName (d : Dict) (p : String) (c : Nat) : Except PyError (Ty × Nat) := do
  let (v, c) := getUnknownTypeVar p c
  return (← d.getItem (.atom v), c)

/-- `create_variable_defs`: each parameter with the type looked up for it. -/
def createVariableDefs (d : Dict) : List String → Nat → Except PyError (List VariableDef × Nat)
  | [], c => pure ([], c)
  | p :: ps, c => do
    let (pType, c) ← typeLookupName d p c
    let (defs, c) ← createVariableDefs d ps c
    pure (⟨p, pType⟩ :: defs, c)

/-- `convert_to_baseast(a, type_solutions)`: the parameters' types, the lowered body, and the
value at the function's own type as the return type. -/
def convertToBaseast (a : FunctionStub) (typeSolutions : Dict) (c : Nat) :
    Except PyError (TypedFnDef × Nat) := do
  let (params, c) ← createVariableDefs typeSolutions a.paramsList c
  let body ← iterNode a.body
  let returnType ← match a.myType with
    | some t => typeSolutions.getItem t
    | Option.none => .error (.runtimeError "")
  pure ({ name := a.name, params, body, returnType }, c)

/-- `function_name_map[name]`: the position of the last definition of that name, since the
comprehension `{x.name: x for x in functions}` keeps the last. -/
def functionNameMap (functions : List TypedFnDef) (name : String) : Option Nat :=
  functions.enum.foldl (fun acc e => if e.2.name = name then some e.1 else acc) Option.none

mutual
/-- `recursive_resolver` on a body node: calls are resolved after their arguments. -/
def recursiveResolver (nameMap : String → Option Nat) : BaseAst → Except PyError BaseAst
  | .unresolvedFnApp fn params => do
    let resolvedParams ← resolverList nameMap params
    match nameMap fn with
    | some i => pure (.functionApplication i resolvedParams)
    | Option.none => .error .keyError
  | .progN programs => return .progN (← resolverList nameMap programs)
  | a => pure a
/-- `[recursive_resolver(p) for p in params]`. -/
def resolverList (nameMap : String → Option Nat) : List BaseAst → Except PyError (List BaseAst)
  | [] => pure []
  | a :: as => return (← recursiveResolver nameMap a) :: (← resolverList nameMap as)
end

/-- `resolve_all_function_calls`: every definition's body resolved against the name map. -/
def resolveAllFunctionCalls (functions : List TypedFnDef) : Except PyError (List TypedFnDef) :=
  functions.mapM fun a => return { a with body := ← recursiveResolver (functionNameMap functions) a.body }

end LispCompiler
