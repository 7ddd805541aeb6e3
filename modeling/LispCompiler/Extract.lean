import LispCompiler.Desugar
import LispCompiler.Types

/-!
# Function extraction

`FunctionStub` of `function_stub.py` and `separate_defuns` of `compiler.py`. `separate_defuns`
walks the desugared tree; a `Defun` node becomes a stub and is dropped from its parent's operands,
and the walk does not enter the stub's body. Binary operators, identifiers, literals, parameter
lists, groups, and the module are walked; any other node shape raises.

A `String1` node always holds one string, since the parser and `gen_random_name` are the only
places that build one, and the model's stub takes that string as its name. The stub's `node`
field, the `Defun` node itself, is never read and is left out.
-/

namespace LispCompiler

/-- A `FunctionStub`: the declaration's name, parameter names, and body, and the type map and
type that `annotate_type` fills in. -/
structure FunctionStub where
  name : String
  paramsList : List String
  body : AstNode
  intermediateTypes : Dict := []
  myType : Option Ty := Option.none
  deriving DecidableEq, Repr

/-- `convert_string_to_str`: the string of each identifier; any other parameter raises. -/
def convertStringToStr : List AstNode → Except PyError (List String)
  | [] => pure []
  | .node .string1 [.str s] :: ps => return s :: (← convertStringToStr ps)
  | _ :: _ => .error (.runtimeError "")

/-- The node shapes that `separate_defuns` walks: `Mult` and `Add` with two operands, `Negate`,
`String1`, and `NumberConstant` with one, and any `LambdaParams`, `Unknown`, or `Module`. -/
def walkedShape (instr : Instruction) (arity : Nat) : Bool :=
  match instr with
  | .mult | .add => arity == 2
  | .negate | .string1 | .numberConstant => arity == 1
  | .lambdaParams | .unknown | .module => true
  | _ => false

mutual
/-- `separate_defuns`: the stubs of the declarations met by the walk, in document order, and the
node with them removed, or `None` for a declaration itself. -/
def separateDefuns : AstNode → Except PyError (List FunctionStub × Option AstNode)
  | .node .defun [.node .string1 [.str name], .node .lambdaParams params, fnBody] => do
    let params ← convertStringToStr params
    pure ([{ name, paramsList := params, body := fnBody }], Option.none)
  | .node instr operands =>
    if walkedShape instr operands.length then do
      let (functions, newOperands) ← separateList operands
      pure (functions, some (.node instr newOperands))
    else .error (.runtimeError "Compile error at node ")
  | .bare instr _ =>
    if instr = .lambdaParams ∨ instr = .unknown ∨ instr = .module then .error .typeError
    else .error (.runtimeError "Compile error at node ")
  | .str _ => .error (.runtimeError "Compile error at node ")
/-- The loop of `separate_defuns` over a node's operands: strings are kept, nodes are walked and
kept unless they were declarations. -/
def separateList : List AstNode → Except PyError (List FunctionStub × List AstNode)
  | [] => pure ([], [])
  | .str s :: js => do
    let (functions, newOperands) ← separateList js
    pure (functions, .str s :: newOperands)
  | j :: js => do
    let (functionsList, newNode) ← separateDefuns j
    let (functions, newOperands) ← separateList js
    pure (functionsList ++ functions, newNode.toList ++ newOperands)
end

/-- Lexing, parsing, `flatten_tree` with `name_counter = 1`, and `separate_defuns`: the stubs. -/
def extractFunctions (src : String) : Except PyError (List FunctionStub) := do
  let a ← parseAll (lexer src)
  let (a, _) ← flattenTree (.node .module a) 1
  let (functions, _) ← separateDefuns a
  pure functions

/-! ## What extraction returns

On every tree on which it returns, `separate_defuns` returns one stub per outermost `Defun` node,
in document order, and the tree with those nodes removed. A `Defun` inside a declaration's body,
such as a lambda, is not extracted and stays in that stub's body. Nodes with a single non-list
operand (`bare`), which the walk rejects, are leaves of the functions below.
-/

namespace AstNode

mutual
/-- The number of `Defun` nodes in a tree. -/
def defunCount : AstNode → Nat
  | .node i ops => (if i = .defun then 1 else 0) + defunCountList ops
  | .bare i k => (if i = .defun then 1 else 0) + defunCount k
  | .str _ => 0
/-- The number of `Defun` nodes in a list of trees. -/
def defunCountList : List AstNode → Nat
  | [] => 0
  | a :: as => defunCount a + defunCountList as
end

mutual
/-- The outermost `Defun` nodes of a tree, those inside no other, in document order. -/
def outerDefuns : AstNode → List AstNode
  | .node i ops => if i = .defun then [.node i ops] else outerDefunsList ops
  | _ => []
/-- The outermost `Defun` nodes of a list of trees, in order. -/
def outerDefunsList : List AstNode → List AstNode
  | [] => []
  | a :: as => outerDefuns a ++ outerDefunsList as
end

mutual
/-- The tree with its outermost `Defun` nodes removed, or `none` for a `Defun` itself. -/
def withoutDefuns : AstNode → Option AstNode
  | .node i ops => if i = .defun then Option.none else some (.node i (withoutDefunsList ops))
  | a => some a
/-- The trees of a list with their outermost `Defun` nodes removed, in order. -/
def withoutDefunsList : List AstNode → List AstNode
  | [] => []
  | a :: as => (withoutDefuns a).toList ++ withoutDefunsList as
end

end AstNode

/-- The `Defun` node a stub is extracted from. -/
def FunctionStub.defunNode (f : FunctionStub) : AstNode :=
  .node .defun [.node .string1 [.str f.name],
    .node .lambdaParams (f.paramsList.map fun p => .node .string1 [.str p]), f.body]

/-- The parameters that `convert_string_to_str` returns are the identifiers it was given. -/
theorem convertStringToStr_eq_ok {ps : List AstNode} :
    ∀ {names : List String}, convertStringToStr ps = .ok names →
      names.map (fun p => .node .string1 [.str p]) = ps := by
  induction ps using convertStringToStr.induct with
  | case1 => intro names h; simp only [convertStringToStr, pure_eq_ok, Except.ok.injEq] at h; simp [← h]
  | case2 s ps ih =>
    intro names h
    simp only [convertStringToStr, bind_eq_ok, pure_eq_ok, Except.ok.injEq] at h
    obtain ⟨names', h', rfl⟩ := h
    simp [ih h']
  | case3 p ps hp => intro names h; rw [convertStringToStr] at h <;> simp_all

theorem AstNode.defunCountList_append (as bs : List AstNode) :
    AstNode.defunCountList (as ++ bs) = AstNode.defunCountList as + AstNode.defunCountList bs := by
  induction as with
  | nil => simp [AstNode.defunCountList]
  | cons a as ih => simp [AstNode.defunCountList, ih]; omega

theorem defunCountList_identifiers (names : List String) :
    AstNode.defunCountList (names.map fun p => .node .string1 [.str p]) = 0 := by
  induction names with
  | nil => rfl
  | cons p ps ih => simpa [AstNode.defunCountList, AstNode.defunCount] using ih

/-- What `separate_defuns` returns on a tree: one stub per outermost `Defun` node, in document
order, holding that node's name, parameters, and body, and the tree without those nodes, which
holds no `Defun` node; every `Defun` node of the tree is a stub's own or lies in a stub's body. -/
theorem separateDefuns_eq_ok (t : AstNode) : ∀ {fs : List FunctionStub} {r : Option AstNode},
    separateDefuns t = .ok (fs, r) →
      fs.map FunctionStub.defunNode = t.outerDefuns ∧ r = t.withoutDefuns ∧
      t.defunCount = fs.length + AstNode.defunCountList (fs.map (·.body)) ∧
      ∀ r' ∈ r, r'.defunCount = 0 := by
  induction t using separateDefuns.induct
    (motive_2 := fun ts => ∀ {fs : List FunctionStub} {rs : List AstNode},
      separateList ts = .ok (fs, rs) →
      fs.map FunctionStub.defunNode = AstNode.outerDefunsList ts ∧
      rs = AstNode.withoutDefunsList ts ∧
      AstNode.defunCountList ts = fs.length + AstNode.defunCountList (fs.map (·.body)) ∧
      AstNode.defunCountList rs = 0) with
  | case1 name params fnBody =>
    intro fs r h
    simp only [separateDefuns, bind_eq_ok, pure_eq_ok, Except.ok.injEq, Prod.mk.injEq] at h
    obtain ⟨names, hn, rfl, rfl⟩ := h
    have hps := convertStringToStr_eq_ok hn
    refine ⟨?_, by simp [AstNode.withoutDefuns], ?_, by simp⟩
    · simp [FunctionStub.defunNode, AstNode.outerDefuns, hps]
    · simp [AstNode.defunCount, AstNode.defunCountList, ← hps, defunCountList_identifiers]
  | case2 instr operands hnd hw ih =>
    intro fs r h
    have hi : instr ≠ .defun := by rintro rfl; simp [walkedShape] at hw
    rw [separateDefuns] at h
    · simp only [hw, if_true, bind_eq_ok, pure_eq_ok, Except.ok.injEq, Prod.mk.injEq] at h
      obtain ⟨⟨fs', ops'⟩, hl, rfl, rfl⟩ := h
      obtain ⟨h1, rfl, h3, h4⟩ := ih hl
      simp [AstNode.outerDefuns, AstNode.withoutDefuns, AstNode.defunCount, hi, h1, h3, h4]
    · exact hnd
  | case3 instr operands hnd hw =>
    intro fs r h
    rw [separateDefuns] at h
    · simp [hw] at h
    · exact hnd
  | case4 instr operand hi => intro fs r h; simp [separateDefuns, hi] at h
  | case5 instr operand hi => intro fs r h; simp [separateDefuns, hi] at h
  | case6 s => intro fs r h; simp [separateDefuns] at h
  | case7 h =>
    simp only [separateList, pure_eq_ok, Except.ok.injEq, Prod.mk.injEq] at h
    obtain ⟨rfl, rfl⟩ := h
    simp [AstNode.outerDefunsList, AstNode.withoutDefunsList, AstNode.defunCountList]
  | case8 str js ih h =>
    simp only [separateList, bind_eq_ok, pure_eq_ok, Except.ok.injEq, Prod.mk.injEq] at h
    obtain ⟨⟨fs', rs'⟩, hl, rfl, rfl⟩ := h
    obtain ⟨h1, rfl, h3, h4⟩ := ih hl
    simp [AstNode.outerDefunsList, AstNode.outerDefuns, AstNode.withoutDefunsList,
      AstNode.withoutDefuns, AstNode.defunCountList, AstNode.defunCount, h1, h3, h4]
  | case9 j js hj ih ihs h =>
    rw [separateList.eq_3 j js hj] at h
    simp only [bind_eq_ok, pure_eq_ok, Except.ok.injEq, Prod.mk.injEq] at h
    obtain ⟨⟨fj, rj⟩, hjr, ⟨fs', rs'⟩, hl, rfl, rfl⟩ := h
    obtain ⟨h1, rfl, h3, h4⟩ := ih hjr
    obtain ⟨h1', rfl, h3', h4'⟩ := ihs hl
    refine ⟨by simp [AstNode.outerDefunsList, h1, h1'], by simp [AstNode.withoutDefunsList], ?_, ?_⟩
    · simp only [AstNode.defunCountList, h3, h3', List.map_append, AstNode.defunCountList_append,
        List.length_append]
      omega
    · rw [AstNode.defunCountList_append, h4']
      cases hr : j.withoutDefuns with
      | none => rfl
      | some r' => simpa [AstNode.defunCountList] using h4 r' hr

/-- `(defun f () (lambda (x) x))`: a lambda in a declaration's body. -/
def nestedLambdaProgram : String := "(defun f () (lambda (x) x))"

/-- The lambda of `nestedLambdaProgram`, desugared. -/
def nestedLambda : AstNode :=
  .node .defun [.node .string1 [.str "Lambda-2"], .node .lambdaParams [.node .string1 [.str "x"]],
    .node .string1 [.str "x"]]

/-- The desugared module of `nestedLambdaProgram`: two `Defun` nodes, one inside the other. -/
def nestedLambdaTree : AstNode :=
  .node .module [.node .defun [.node .string1 [.str "f"], .node .lambdaParams [], nestedLambda]]

theorem separateDefuns_eq_ok_nestedLambda :
    separateDefuns nestedLambdaTree = .ok ([⟨"f", [], nestedLambda, [], Option.none⟩],
      some (.node .module [])) ∧
    ([⟨"f", [], nestedLambda, [], Option.none⟩] : List FunctionStub).map FunctionStub.defunNode =
      nestedLambdaTree.outerDefuns ∧
    some (.node .module []) = nestedLambdaTree.withoutDefuns ∧
    nestedLambdaTree.defunCount = 1 + AstNode.defunCountList [nestedLambda] ∧
    ∀ r' ∈ some (AstNode.node .module []), r'.defunCount = 0 :=
  ⟨by decide, separateDefuns_eq_ok nestedLambdaTree (by decide)⟩

/-- The lambda inside `f` is not extracted: desugaring gives two `Defun` nodes, and extraction
returns one stub, whose body is the lambda. -/
theorem separateDefuns_skips_nested :
    (do let a ← parseAll (lexer nestedLambdaProgram); flattenTree (.node .module a) 1) =
      .ok (nestedLambdaTree, 2) ∧
    nestedLambdaTree.defunCount = 2 ∧
    separateDefuns nestedLambdaTree =
      .ok ([⟨"f", [], nestedLambda, [], Option.none⟩], some (.node .module [])) := by
  decide

end LispCompiler
