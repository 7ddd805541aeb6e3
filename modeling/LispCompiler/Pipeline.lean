import LispCompiler.Lowering
import LispCompiler.Solutions

/-!
# The compilation of `compiler.py`

The module-level code of `compiler.py`, with the source text, the entry's name, and the invocation
type as parameters where the file has `main` and `Type(["void"])`. It lexes, parses the forms into
a `Module` node, desugars it, extracts the stubs, and picks the first stub named as the entry. It
annotates every stub, merges every stub's map into the entry's in document order (the entry's own
map is equal to itself and is skipped), then the primitive table `std_types`, and specializes the
entry. Lowering then reads the entry's merged map, `main_fn.intermediate_types`, which
`apply_with_type` never writes: it works on a deep copy. Last, the calls are resolved.

A run of the file ends there. The next line, `u64 = ir.IntType(64)`, names `ir`, which
`compiler.py` never imports: it raises `NameError`, and `compile1` is never defined. The code
generator is modelled as written in `LispCompiler.Codegen`, on trees built by hand.

Three programs are run below. In `recursiveProgram` a function calls itself with one argument and
is called with two: unification truncates the longer tuple over `zip`, so no solution of the
specialized map solves the function's own constraint (`compile_solution_violates_constraint`), and
lowering keeps the unspecialized signatures (`compile_returnType_unspecialized`).
`unusedIdProgram` declares a function that nothing calls. In `sharedParamProgram` two functions
name their parameter `x`, and `get_unknown_type_var` gives both parameters one variable
(`inferTypes_shares_parameter_variable`).
-/

namespace LispCompiler

/-- `std_types`, the primitive signature table of `compiler.py`. -/
def stdTypes : Dict :=
  [(.atom "sqrt", .tuple [.atom "float", .atom "float"]),
   (.atom "pow", .tuple [.atom "float", .atom "float"]),
   (.atom "sqrti", .tuple [.atom "int", .atom "float"]),
   (.atom "normiEE", .tuple [.atom "int", .atom "int", .atom "int", .atom "float"])]

/-- `next(x for x in functions if x.name == entry)`: the position of the first stub of that name. -/
def entryIndex (functions : List FunctionStub) (entry : String) : Except PyError Nat :=
  match functions.findIdx? (·.name = entry) with
  | some i => pure i
  | Option.none => .error .stopIteration

/-- `[f.annotate_type() for f in functions]`, with `type_var_counter` before and after. -/
def annotateAll (fuel : Nat) : List FunctionStub → Nat → Except PyError (List FunctionStub × Nat)
  | [], c => pure ([], c)
  | f :: fs, c => do
    let (f, c) ← annotateType fuel f c
    let (fs, c) ← annotateAll fuel fs c
    pure (f :: fs, c)

/-- `[main_fn.unify_with_other(f.intermediate_types) for f in functions]`: the entry stub is at
position `mainIdx`, and its own map is read as it stands when its turn comes. -/
def mergeFunctions (fuel : Nat) (functions : List FunctionStub) (mainIdx : Nat)
    (mainFn : FunctionStub) : Except PyError FunctionStub :=
  functions.enum.foldlM (fun mainFn (i, f) =>
      unifyWithOther fuel mainFn (if i = mainIdx then mainFn.intermediateTypes
        else f.intermediateTypes))
    mainFn

/-- The lowered definitions, with the counter threaded through `type_lookup`. -/
def convertAll (typeSolutions : Dict) :
    List FunctionStub → Nat → Except PyError (List TypedFnDef × Nat)
  | [], c => pure ([], c)
  | f :: fs, c => do
    let (d, c) ← convertToBaseast f typeSolutions c
    let (ds, c) ← convertAll typeSolutions fs c
    pure (d :: ds, c)

/-- What the module-level code of `compiler.py` computes. -/
structure Compilation where
  /-- The annotated stubs, in document order. -/
  functions : List FunctionStub
  /-- The position of the entry stub, `main_fn`. -/
  mainIdx : Nat
  /-- `main_fn` after the merges: its map is `type_solutions`. -/
  mainFn : FunctionStub
  /-- The specialized map that `apply_with_type` checks. -/
  solution : Dict
  /-- `resulting_type`, the entry's specialized type. -/
  resultingType : Ty
  /-- `fn_defs` as lowering returns it, calls by name. -/
  loweredDefs : List TypedFnDef
  /-- `fn_defs` with its calls resolved. -/
  fnDefs : List TypedFnDef
  deriving DecidableEq, Repr

/-- The inference stages of `compiler.py` before specialization: the stubs annotated and the
entry's map merged, with the entry's position and the counter. -/
def inferTypes (fuel : Nat) (src entry : String) :
    Except PyError (List FunctionStub × Nat × FunctionStub × Nat) := do
  let functions ← extractFunctions src
  let mainIdx ← entryIndex functions entry
  let (functions, c) ← annotateAll fuel functions 0
  let mainFn ← match functions.get? mainIdx with
    | some f => mergeFunctions fuel functions mainIdx f
    | Option.none => .error .stopIteration
  let mainFn ← unifyWithOther fuel mainFn stdTypes
  pure (functions, mainIdx, mainFn, c)

/-- The module-level code of `compiler.py` on source `src`, entry `entry`, and invocation type
`application`, with `fuel` bounding the recursion of `unify_vars`. -/
def compile (fuel : Nat) (src entry : String) (application : Ty) : Except PyError Compilation := do
  let (functions, mainIdx, mainFn, c) ← inferTypes fuel src entry
  let resultingType ← applyWithType fuel mainFn application
  let solution ← specialize fuel mainFn application
  let (loweredDefs, _) ← convertAll mainFn.intermediateTypes functions c
  let fnDefs ← resolveAllFunctionCalls loweredDefs
  pure { functions, mainIdx, mainFn, solution, resultingType, loweredDefs, fnDefs }

/-! ## A run of the pipeline

In the program below `f` calls itself with one argument and `main` calls `f` with two. The run is
checked stage by stage, each stage on the previous one's value: the stubs' unifications need no
round of simplification, and the specialized map is resolved by one round.
-/

/-- `f` calls itself with one argument, and `main` calls `f` with two. -/
def recursiveProgram : String := "(defun f (x) (f x))(defun main () (f 1 2))"

/-- The stub extracted for `f`. -/
def recursiveF : FunctionStub :=
  { name := "f", paramsList := ["x"],
    body := .node .unknown [.node .string1 [.str "f"], .node .string1 [.str "x"]] }

/-- The stub extracted for `main`. -/
def recursiveMain : FunctionStub :=
  { name := "main", paramsList := [],
    body := .node .unknown [.node .string1 [.str "f"], .node .numberConstant [.str "1"],
      .node .numberConstant [.str "2"]] }

/-- The stubs after annotation. -/
def recursiveAnnotated : List FunctionStub :=
  [{ recursiveF with
      myType := some (.atom "f")
      intermediateTypes := [(.atom "f", .tuple [.atom "Unknown-x", .atom "Unknown-1"])] },
   { recursiveMain with
      myType := some (.atom "main")
      intermediateTypes := [(.atom "f", .tuple [.atom "int", .atom "int", .atom "Unknown-2"]),
        (.atom "main", .tuple [.atom "Unknown-2"])] }]

/-- `main_fn` after the merges: `f`'s map and the primitive table merged into `main`'s. -/
def recursiveEntry : FunctionStub :=
  { recursiveMain with
    myType := some (.atom "main")
    intermediateTypes := [(.atom "f", .tuple [.atom "int", .atom "int", .atom "Unknown-2"]),
      (.atom "main", .tuple [.atom "Unknown-2"]), (.atom "Unknown-x", .atom "int"),
      (.atom "Unknown-1", .atom "int")] ++ stdTypes }

/-- The specialized map for the invocation type `(void)`. -/
def recursiveSolution : Dict :=
  [(.atom "f", .tuple [.atom "int", .atom "int", .atom "void"]),
   (.atom "main", .tuple [.atom "void"]), (.atom "Unknown-x", .atom "int"),
   (.atom "Unknown-1", .atom "int")] ++ stdTypes ++ [(.atom "Unknown-2", .atom "void")]

/-- What `compile` computes for `recursiveProgram`, entry `main`, and the invocation type
`(void)`. -/
def recursiveRun : Compilation where
  functions := recursiveAnnotated
  mainIdx := 1
  mainFn := recursiveEntry
  solution := recursiveSolution
  resultingType := .tuple [.atom "void"]
  loweredDefs :=
    [⟨"f", [⟨"x", .atom "int"⟩], .unresolvedFnApp "f" [.unresolvedVariableLoad (.str "x")],
      .tuple [.atom "int", .atom "int", .atom "Unknown-2"]⟩,
     ⟨"main", [], .unresolvedFnApp "f" [.constantLoad (.atom "int") (.str "1"),
      .constantLoad (.atom "int") (.str "2")], .tuple [.atom "Unknown-2"]⟩]
  fnDefs :=
    [⟨"f", [⟨"x", .atom "int"⟩], .functionApplication 0 [.unresolvedVariableLoad (.str "x")],
      .tuple [.atom "int", .atom "int", .atom "Unknown-2"]⟩,
     ⟨"main", [], .functionApplication 0 [.constantLoad (.atom "int") (.str "1"),
      .constantLoad (.atom "int") (.str "2")], .tuple [.atom "Unknown-2"]⟩]

/-- `recursiveProgram` compiles. -/
theorem compile_recursiveProgram :
    compile recursionLimit recursiveProgram "main" (.tuple [.atom "void"]) = .ok recursiveRun := by
  have hS : extractFunctions recursiveProgram = .ok [recursiveF, recursiveMain] := by decide
  -- each stub's constraints unify into a map that no round of simplification changes
  have hcF : fnTypeAnnotator recursiveF 0 [] = .ok (.atom "f", 1,
      [⟨.atom "f", .tuple [.atom "Unknown-x", .atom "Unknown-1"]⟩,
       ⟨.atom "f", .tuple [.atom "Unknown-x", .atom "Unknown-1"]⟩]) := by decide
  have huF : unifyConstraints recursionLimit
      [⟨.atom "f", .tuple [.atom "Unknown-x", .atom "Unknown-1"]⟩,
       ⟨.atom "f", .tuple [.atom "Unknown-x", .atom "Unknown-1"]⟩] =
      .ok [(.atom "f", .tuple [.atom "Unknown-x", .atom "Unknown-1"])] :=
    bind_eq_ok.2 ⟨_, by decide, simplifyUnification_of_round_eq (Nat.zero_le _) rfl (by decide)⟩
  have hcM : fnTypeAnnotator recursiveMain 1 [] = .ok (.atom "main", 2,
      [⟨.atom "f", .tuple [.atom "int", .atom "int", .atom "Unknown-2"]⟩,
       ⟨.atom "main", .tuple [.atom "Unknown-2"]⟩]) := by decide
  have huM : unifyConstraints recursionLimit
      [⟨.atom "f", .tuple [.atom "int", .atom "int", .atom "Unknown-2"]⟩,
       ⟨.atom "main", .tuple [.atom "Unknown-2"]⟩] =
      .ok [(.atom "f", .tuple [.atom "int", .atom "int", .atom "Unknown-2"]),
        (.atom "main", .tuple [.atom "Unknown-2"])] :=
    bind_eq_ok.2 ⟨_, by decide, simplifyUnification_of_round_eq (Nat.zero_le _) rfl (by decide)⟩
  have hA : annotateAll recursionLimit [recursiveF, recursiveMain] 0 =
      .ok (recursiveAnnotated, 2) := by
    rw [annotateAll, annotateType_eq_ok hcF huF, ok_bind]
    dsimp only
    rw [annotateAll, annotateType_eq_ok hcM huM, ok_bind]
    rfl
  -- the merges need no simplification
  have hI : inferTypes recursionLimit recursiveProgram "main" =
      .ok (recursiveAnnotated, 1, recursiveEntry, 2) := by
    rw [inferTypes, hS, ok_bind, hA]
    decide
  -- specialization: one round resolves the map
  have hu : unifyVars recursionLimit (.atom "main") (.tuple [.atom "void"])
      recursiveEntry.intermediateTypes =
      .ok (recursiveEntry.intermediateTypes ++ [(.atom "Unknown-2", .atom "void")]) := by decide
  have hr : simplifyRounds 1 (recursiveEntry.intermediateTypes ++
      [(.atom "Unknown-2", .atom "void")]) = .ok recursiveSolution := by decide
  have hP : specialize recursionLimit recursiveEntry (.tuple [.atom "void"]) =
      .ok recursiveSolution :=
    specialize_eq_ok rfl (by decide) hu (simplifyUnification_of_round_eq (by decide) hr (by decide))
  rw [compile, hI, ok_bind]
  dsimp only
  rw [applyWithType, hP, ok_bind]
  decide

/-- In the run of `recursiveProgram`, each lowered definition's return type is its whole signature
from the merged map, which still holds the variable `Unknown-2`, where the specialized map resolves
the signatures to `(int, int, void)` and `(void)`. -/
theorem compile_returnType_unspecialized :
    ∃ comp, compile recursionLimit recursiveProgram "main" (.tuple [.atom "void"]) = .ok comp ∧
      comp.fnDefs.map (·.returnType) =
        [.tuple [.atom "int", .atom "int", .atom "Unknown-2"], .tuple [.atom "Unknown-2"]] ∧
      comp.solution.get? (.atom "f") = some (.tuple [.atom "int", .atom "int", .atom "void"]) ∧
      comp.solution.get? (.atom "main") = some (.tuple [.atom "void"]) :=
  ⟨_, compile_recursiveProgram, by decide⟩

/-- In the run of `recursiveProgram`, no solution of the specialized map solves `f`'s own
constraint `f = (Unknown-x, Unknown-1)`: the map gives `f` three slots, and both variables the type
`int`. -/
theorem compile_solution_violates_constraint :
    fnTypeAnnotator recursiveF 0 [] = .ok (.atom "f", 1,
      [⟨.atom "f", .tuple [.atom "Unknown-x", .atom "Unknown-1"]⟩,
       ⟨.atom "f", .tuple [.atom "Unknown-x", .atom "Unknown-1"]⟩]) ∧
    ∃ comp, compile recursionLimit recursiveProgram "main" (.tuple [.atom "void"]) = .ok comp ∧
      ∀ θ, comp.solution.Satisfies θ →
        (Ty.atom "f").subst θ ≠ (Ty.tuple [.atom "Unknown-x", .atom "Unknown-1"]).subst θ := by
  refine ⟨by decide, _, compile_recursiveProgram, fun θ hθ h => ?_⟩
  -- the map fixes `f` to three slots and both variables to `int`
  have hf : θ "f" = .tuple [.atom "int", .atom "int", .atom "void"] :=
    hθ (.atom "f", .tuple [.atom "int", .atom "int", .atom "void"]) (by decide)
  have hx : θ "Unknown-x" = .atom "int" := hθ (.atom "Unknown-x", .atom "int") (by decide)
  have h1 : θ "Unknown-1" = .atom "int" := hθ (.atom "Unknown-1", .atom "int") (by decide)
  change θ "f" = .tuple [θ "Unknown-x", θ "Unknown-1"] at h
  rw [hf, hx, h1] at h
  simp at h

/-! ## A function that no call reaches

`id` below is declared and never called. Its map binds `id` to `(Unknown-x, Unknown-x)`, which no
constraint resolves, and which the entry's merged map holds.
-/

/-- `id` is never called, and `main` returns `1`. -/
def unusedIdProgram : String := "(defun id (x) x)(defun main () 1)"

/-- The stub extracted for `id`. -/
def unusedId : FunctionStub := { name := "id", paramsList := ["x"], body := .node .string1 [.str "x"] }

/-- The stub extracted for `main`. -/
def unusedMain : FunctionStub :=
  { name := "main", paramsList := [], body := .node .numberConstant [.str "1"] }

/-- The stubs after annotation. -/
def unusedAnnotated : List FunctionStub :=
  [{ unusedId with
      myType := some (.atom "id")
      intermediateTypes := [(.atom "id", .tuple [.atom "Unknown-x", .atom "Unknown-x"])] },
   { unusedMain with
      myType := some (.atom "main")
      intermediateTypes := [(.atom "main", .tuple [.atom "int"])] }]

/-- `main_fn` after the merges. -/
def unusedEntry : FunctionStub :=
  { unusedMain with
    myType := some (.atom "main")
    intermediateTypes := [(.atom "main", .tuple [.atom "int"]),
      (.atom "id", .tuple [.atom "Unknown-x", .atom "Unknown-x"])] ++ stdTypes }

/-- A solution of the constraints of `unusedIdProgram`, of the primitive table, and of the
invocation `(int)`: the variable is `int`, and each name has its signature. -/
def unusedIdSolver : String → Ty
  | "id" => .tuple [.atom "int", .atom "int"]
  | "main" => .tuple [.atom "int"]
  | s => (stdTypes.get? (.atom s)).getD (.atom "int")

/-- The inference stages on `unusedIdProgram`: neither stub's map needs simplification, and the
merges only append. -/
theorem inferTypes_unusedIdProgram :
    inferTypes recursionLimit unusedIdProgram "main" = .ok (unusedAnnotated, 1, unusedEntry, 0) := by
  have hS : extractFunctions unusedIdProgram = .ok [unusedId, unusedMain] := by decide
  have hcI : fnTypeAnnotator unusedId 0 [] =
      .ok (.atom "id", 0, [⟨.atom "id", .tuple [.atom "Unknown-x", .atom "Unknown-x"]⟩]) := by decide
  have huI : unifyConstraints recursionLimit
      [⟨.atom "id", .tuple [.atom "Unknown-x", .atom "Unknown-x"]⟩] =
      .ok [(.atom "id", .tuple [.atom "Unknown-x", .atom "Unknown-x"])] :=
    bind_eq_ok.2 ⟨_, by decide, simplifyUnification_of_round_eq (Nat.zero_le _) rfl (by decide)⟩
  have hcM : fnTypeAnnotator unusedMain 0 [] =
      .ok (.atom "main", 0, [⟨.atom "main", .tuple [.atom "int"]⟩]) := by decide
  have huM : unifyConstraints recursionLimit [⟨.atom "main", .tuple [.atom "int"]⟩] =
      .ok [(.atom "main", .tuple [.atom "int"])] :=
    bind_eq_ok.2 ⟨_, by decide, simplifyUnification_of_round_eq (Nat.zero_le _) rfl (by decide)⟩
  have hA : annotateAll recursionLimit [unusedId, unusedMain] 0 = .ok (unusedAnnotated, 0) := by
    rw [annotateAll, annotateType_eq_ok hcI huI, ok_bind]
    dsimp only
    rw [annotateAll, annotateType_eq_ok hcM huM, ok_bind]
    rfl
  rw [inferTypes, hS, ok_bind, hA]
  decide

/-! ## Parameters of one name

`type_annotator` gives a parameter `x` the variable `Unknown-x` whatever function declares it, so
the merge equates the parameters of `f` and `g` below. Renaming `g`'s parameter to `z` makes the
program go through.
-/

/-- `f` and `g` both take a parameter `x`; `main` calls `f` on an integer and `g` on a float. -/
def sharedParamProgram : String := "(defun f (x) x) (defun g (x) x) (defun main () ((f 1) (g 2.0)))"

/-- `sharedParamProgram` with `g`'s parameter renamed to `z`. -/
def renamedParamProgram : String :=
  "(defun f (x) x) (defun g (z) z) (defun main () ((f 1) (g 2.0)))"

/-- The identity stub on parameter `p`. -/
def identityStub (name p : String) : FunctionStub :=
  { name, paramsList := [p], body := .node .string1 [.str p] }

/-- The identity stub on parameter `p`, annotated: its map binds its name to `(Unknown-p,
Unknown-p)`. -/
def identityAnnotated (name p : String) : FunctionStub :=
  { identityStub name p with
    myType := some (.atom name)
    intermediateTypes := [(.atom name, .tuple [.atom ("Unknown-" ++ p), .atom ("Unknown-" ++ p)])] }

/-- The stub extracted for `main` in both programs. -/
def callsMain : FunctionStub :=
  { name := "main", paramsList := [],
    body := .node .unknown
      [.node .unknown [.node .string1 [.str "f"], .node .numberConstant [.str "1"]],
       .node .unknown [.node .string1 [.str "g"], .node .numberConstant [.str "2.0"]]] }

/-- The map of `callsMain` after annotation from the counter `0`. -/
def callsMainTypes : Dict :=
  [(.atom "f", .tuple [.atom "int", .atom "Unknown-1"]),
   (.atom "g", .tuple [.atom "float", .atom "Unknown-2"]), (.atom "main", .tuple [.atom "Unknown-2"])]

/-- `callsMain` annotated. -/
def callsMainAnnotated : FunctionStub :=
  { callsMain with myType := some (.atom "main"), intermediateTypes := callsMainTypes }

/-- `main_fn` after the merges, in `renamedParamProgram`. -/
def renamedEntry : FunctionStub :=
  { callsMainAnnotated with
    intermediateTypes := callsMainTypes ++ [(.atom "Unknown-x", .atom "int"),
      (.atom "Unknown-1", .atom "int"), (.atom "Unknown-z", .atom "float"),
      (.atom "Unknown-2", .atom "float")] ++ stdTypes }

/-- The constraint of an identity stub: its name is bound to `(Unknown-p, Unknown-p)`. -/
theorem fnTypeAnnotator_identityStub (name : String) {p : String} (hp : p ≠ "") (c : Nat) :
    fnTypeAnnotator (identityStub name p) c [] = .ok (.atom name, c,
      [⟨.atom name, .tuple [.atom ("Unknown-" ++ p), .atom ("Unknown-" ++ p)]⟩]) := by
  simp only [fnTypeAnnotator, identityStub, List.map, typeAnnotatorList, typeAnnotator.eq_3,
    typeAnnotator.eq_4, getUnknownTypeVar, hp, if_false, pure_eq_ok, ok_bind, List.nil_append,
    List.singleton_append]

/-- Annotating the identity stubs on `x` and `z`, and `callsMain`. -/
theorem annotateAll_identity {q : String} (hq : q = "x" ∨ q = "z") :
    annotateAll recursionLimit [identityStub "f" "x", identityStub "g" q, callsMain] 0 =
      .ok ([identityAnnotated "f" "x", identityAnnotated "g" q, callsMainAnnotated], 2) := by
  have hId : ∀ name p, name = "f" ∧ p = "x" ∨ name = "g" ∧ (p = "x" ∨ p = "z") →
      annotateType recursionLimit (identityStub name p) 0 = .ok (identityAnnotated name p, 0) := by
    rintro name p (⟨rfl, rfl⟩ | ⟨rfl, rfl | rfl⟩) <;>
      exact annotateType_eq_ok (fnTypeAnnotator_identityStub _ (by decide) 0)
        (bind_eq_ok.2 ⟨_, by decide, simplifyUnification_of_round_eq (Nat.zero_le _) rfl (by decide)⟩)
  have hcM : fnTypeAnnotator callsMain 0 [] = .ok (.atom "main", 2,
      [⟨.atom "f", .tuple [.atom "int", .atom "Unknown-1"]⟩,
       ⟨.atom "g", .tuple [.atom "float", .atom "Unknown-2"]⟩,
       ⟨.atom "main", .tuple [.atom "Unknown-2"]⟩]) := by decide
  have hM : annotateType recursionLimit callsMain 0 = .ok (callsMainAnnotated, 2) :=
    annotateType_eq_ok hcM
      (bind_eq_ok.2 ⟨_, by decide, simplifyUnification_of_round_eq (Nat.zero_le _) rfl (by decide)⟩)
  rw [annotateAll, hId "f" "x" (.inl ⟨rfl, rfl⟩), ok_bind]
  dsimp only
  rw [annotateAll, hId "g" q (.inr ⟨rfl, hq⟩), ok_bind]
  dsimp only
  rw [annotateAll, hM, ok_bind]
  rfl

/-- The merge of `g`'s map fails on `sharedParamProgram`, where `f`'s has bound the shared
`Unknown-x` to `int`; after renaming, inference and specialization to `(float)` succeed. -/
theorem inferTypes_shares_parameter_variable :
    inferTypes recursionLimit sharedParamProgram "main" =
      .error (.assertionError "Primitive types don\x27t match float != int") ∧
    inferTypes recursionLimit renamedParamProgram "main" =
      .ok ([identityAnnotated "f" "x", identityAnnotated "g" "z", callsMainAnnotated], 2,
        renamedEntry, 2) ∧
    applyWithType recursionLimit renamedEntry (.tuple [.atom "float"]) = .ok (.tuple [.atom "float"]) := by
  have hS : extractFunctions sharedParamProgram =
      .ok [identityStub "f" "x", identityStub "g" "x", callsMain] := by decide
  have hR : extractFunctions renamedParamProgram =
      .ok [identityStub "f" "x", identityStub "g" "z", callsMain] := by decide
  refine ⟨?_, ?_, by decide⟩
  · rw [inferTypes, hS, ok_bind, annotateAll_identity (.inl rfl)]
    decide
  · rw [inferTypes, hR, ok_bind, annotateAll_identity (.inr rfl)]
    decide

end LispCompiler
