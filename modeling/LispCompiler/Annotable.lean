import LispCompiler.Sorts

/-!
# Bodies that `type_annotator` types

`type_annotator` types a literal as `int` or `float`, an identifier as a variable, and a sum, a
product or a call as a fresh variable, constrained with the operator's or the callee's name; a
negation keeps its operand's type and constrains it to `int`, and a group takes its last member's
type. On any other node shape, a `Negate` node built by the parser's `-` case among them, it returns
`None`, which no constraint relates to a signature. `AstNode.annotable` checks that every node of a
body has one of the typed shapes, at the arity that `type_annotator` matches, and that every called
name is a function's name. On an annotable body the annotator returns a base type or a variable and
adds only sorted constraints (`typeAnnotator_sorted`), so a program whose stubs are annotable meets
the hypothesis `constraintsSorted` of the completeness of inference (`generatedConstraints_sorted`).
-/

namespace LispCompiler

namespace AstNode

mutual
/-- The trees that `type_annotator` types, matched in its order: a literal that is a number, an
identifier, a sum or a product of two operands, a negation of one, a call of a function's name, and
a group of annotable trees. -/
def annotable : AstNode → Bool
  | .node .numberConstant [.str x] => isNumeric x || isNumber x
  | .node .string1 [.str _] | .str _ => true
  | .node .add [lhs, rhs] | .node .mult [lhs, rhs] => annotable lhs && annotable rhs
  | .node .negate [val] => annotable val
  | .node .unknown (.node .string1 [.str fnName] :: paramsList) =>
    (Ty.atom fnName).isFnAtom && annotableList paramsList
  | .node .unknown operands => annotableList operands
  | _ => false
/-- Every tree of a list is annotable. -/
def annotableList : List AstNode → Bool
  | [] => true
  | a :: as => annotable a && annotableList as
end

end AstNode

/-- A stub named by a function's name, with an annotable body. -/
def FunctionStub.annotable (f : FunctionStub) : Bool :=
  (Ty.atom f.name).isFnAtom && f.body.annotable

/-! ## Sorted constraints -/

section Constraints

variable {a b : Ty}

@[simp] theorem constraintsSorted_append (cs cs' : List TypeConstraint) :
    constraintsSorted (cs ++ cs') = (constraintsSorted cs && constraintsSorted cs') := by
  simp [constraintsSorted]

@[simp] theorem constraintsSorted_singleton (c : TypeConstraint) :
    constraintsSorted [c] = Compatible c.lhs c.rhs := by
  simp [constraintsSorted]

/-- `Unknown-...` is a variable. -/
theorem isVarName_unknown (s : String) : isVarName ("Unknown-" ++ s) :=
  List.isPrefixOf_iff_prefix.2 (List.prefix_append _ _)

/-- `get_unknown_type_var` names a variable. -/
theorem getUnknownTypeVar_isSimple (v : String) (c : Nat) :
    (Ty.atom (getUnknownTypeVar v c).1).isSimple := by
  unfold getUnknownTypeVar
  split <;> simp [Ty.isSimple, isVarName_unknown]

theorem compatible_of_isSimple (ha : a.isSimple) (hb : b.isSimple) : Compatible a b := by
  simp [Compatible, ha, hb]

theorem compatible_of_isFnAtom {ts : List Ty} (ha : a.isFnAtom) (hts : ts.all Ty.isSimple) :
    Compatible a (.tuple ts) := by
  simp [Compatible, Ty.isSignature, ha, hts]

end Constraints

/-! ## `type_annotator` on annotable trees -/

/-- From every counter and sorted constraints, `type_annotator` on `a` returns a base type or a
variable and keeps the constraints sorted. -/
def AnnotatesSorted (a : AstNode) : Prop :=
  ∀ {c c' : Nat} {cs cs' : List TypeConstraint} {t : Ty},
    typeAnnotator a c cs = .ok (t, c', cs') → constraintsSorted cs → t.isSimple ∧ constraintsSorted cs'

/-- `type_annotator` on a list keeps the constraints sorted when it does on each member. -/
theorem typeAnnotatorList_sorted : ∀ {as : List AstNode}, (∀ a ∈ as, AnnotatesSorted a) →
    ∀ {c c' : Nat} {cs cs' : List TypeConstraint} {ts : List Ty},
      typeAnnotatorList as c cs = .ok (ts, c', cs') → constraintsSorted cs →
        ts.all Ty.isSimple ∧ constraintsSorted cs'
  | [], _, _, _, _, _, _, h, hcs => by
    simp only [typeAnnotatorList, pure_eq_ok, Except.ok.injEq, Prod.mk.injEq] at h
    obtain ⟨rfl, -, rfl⟩ := h
    exact ⟨rfl, hcs⟩
  | a :: as, hmem, _, _, _, _, _, h, hcs => by
    rw [List.forall_mem_cons] at hmem
    simp only [typeAnnotatorList, bind_eq_ok, pure_eq_ok, Except.ok.injEq, Prod.mk.injEq] at h
    obtain ⟨⟨t, c₁, cs₁⟩, h₁, ⟨ts', c₂, cs₂⟩, h₂, rfl, -, rfl⟩ := h
    obtain ⟨ht, hcs₁⟩ := hmem.1 h₁ hcs
    obtain ⟨hts, hcs₂⟩ := typeAnnotatorList_sorted hmem.2 h₂ hcs₁
    exact ⟨by simp [ht, hts], hcs₂⟩

/-- On an annotable tree, `type_annotator` returns a base type or a variable and keeps the
constraints sorted. -/
theorem typeAnnotator_sorted (a : AstNode) : a.annotable → AnnotatesSorted a := by
  induction a using AstNode.annotable.induct
    (motive_2 := fun as => AstNode.annotableList as → ∀ a ∈ as, AnnotatesSorted a) with
  | case1 x =>
    intro ha c c' cs cs' t h hcs
    simp only [typeAnnotator] at h
    split at h
    · cases h
      exact ⟨by decide, hcs⟩
    · split at h
      · cases h
        exact ⟨by decide, hcs⟩
      · simp_all [AstNode.annotable]
  | case2 s | case3 s =>
    intro _ c c' cs cs' t h hcs
    simp only [typeAnnotator, pure_eq_ok, Except.ok.injEq, Prod.mk.injEq] at h
    obtain ⟨rfl, -, rfl⟩ := h
    exact ⟨getUnknownTypeVar_isSimple s c, hcs⟩
  | case4 lhs rhs ihl ihr | case5 lhs rhs ihl ihr =>
    -- both are constrained against `Operator+`
    intro ha c c' cs cs' t h hcs
    simp only [AstNode.annotable, Bool.and_eq_true] at ha
    simp only [typeAnnotator, bind_eq_ok, pure_eq_ok, Except.ok.injEq, Prod.mk.injEq] at h
    obtain ⟨⟨lt, c₁, cs₁⟩, h₁, ⟨rt, c₂, cs₂⟩, h₂, rfl, -, rfl⟩ := h
    obtain ⟨hl, hcs₁⟩ := ihl ha.1 h₁ hcs
    obtain ⟨hr, hcs₂⟩ := ihr ha.2 h₂ hcs₁
    have hc : Compatible (.atom "Operator+") (.tuple [lt, rt, .atom (getUnknownTypeVar "" c₂).1]) :=
      compatible_of_isFnAtom (by decide) (by simp [hl, hr, getUnknownTypeVar_isSimple])
    exact ⟨getUnknownTypeVar_isSimple "" c₂, by simp [hcs₂, hc]⟩
  | case6 val ih =>
    intro ha c c' cs cs' t h hcs
    simp only [typeAnnotator, bind_eq_ok, pure_eq_ok, Except.ok.injEq, Prod.mk.injEq] at h
    obtain ⟨⟨vt, c₁, cs₁⟩, h₁, rfl, -, rfl⟩ := h
    obtain ⟨hv, hcs₁⟩ := ih ha h₁ hcs
    exact ⟨hv, by simp [hcs₁, compatible_of_isSimple hv (by decide : (Ty.atom "int").isSimple)]⟩
  | case7 fnName ps ih =>
    intro ha c c' cs cs' t h hcs
    simp only [AstNode.annotable, Bool.and_eq_true] at ha
    simp only [typeAnnotator, bind_eq_ok, pure_eq_ok, Except.ok.injEq, Prod.mk.injEq] at h
    obtain ⟨⟨pts, c₁, cs₁⟩, h₁, rfl, -, rfl⟩ := h
    obtain ⟨hp, hcs₁⟩ := typeAnnotatorList_sorted (ih ha.2) h₁ hcs
    have hc : Compatible (.atom fnName) (.tuple (pts ++ [.atom (getUnknownTypeVar "" c).1])) :=
      compatible_of_isFnAtom ha.1 (by simp [hp, getUnknownTypeVar_isSimple])
    exact ⟨getUnknownTypeVar_isSimple "" c, by simp [hcs₁, hc]⟩
  | case8 operands hne ih =>
    -- a group: its last member's type, and no constraint of its own
    intro ha c c' cs cs' t h hcs
    rw [AstNode.annotable.eq_8 _ hne] at ha
    rw [typeAnnotator.eq_9 _ _ _ hne, bind_eq_ok] at h
    obtain ⟨⟨ts, c₁, cs₁⟩, h₁, h⟩ := h
    obtain ⟨hts, hcs₁⟩ := typeAnnotatorList_sorted (ih ha) h₁ hcs
    dsimp only at h
    revert h
    split
    · rename_i hlast
      intro h
      simp only [pure_eq_ok, Except.ok.injEq, Prod.mk.injEq] at h
      obtain ⟨rfl, -, rfl⟩ := h
      exact ⟨List.all_eq_true.1 hts _ (List.mem_of_mem_getLast? hlast), hcs₁⟩
    · intro h
      cases h
  | case9 t h1 h2 h3 h4 h5 h6 h7 h8 =>
    intro ha
    simp [AstNode.annotable.eq_9 t h1 h2 h3 h4 h5 h6 h7 h8] at ha
  | case10 _ b hb => exact absurd hb (List.not_mem_nil b)
  | case11 a as iha ihas ha b hb =>
    simp only [AstNode.annotableList, Bool.and_eq_true] at ha
    rcases List.mem_cons.1 hb with rfl | hb
    · exact iha ha.1
    · exact ihas ha.2 b hb

/-- `fn_type_annotator` on an annotable stub keeps the constraints sorted. -/
theorem fnTypeAnnotator_sorted {fn : FunctionStub} {c c' : Nat} {cs cs' : List TypeConstraint}
    {t : Ty} (hf : fn.annotable) (h : fnTypeAnnotator fn c cs = .ok (t, c', cs'))
    (hcs : constraintsSorted cs) : constraintsSorted cs' := by
  simp only [FunctionStub.annotable, Bool.and_eq_true] at hf
  simp only [fnTypeAnnotator, bind_eq_ok, pure_eq_ok, Except.ok.injEq, Prod.mk.injEq] at h
  obtain ⟨⟨pts, c₁, cs₁⟩, h₁, ⟨bt, c₂, cs₂⟩, h₂, -, -, rfl⟩ := h
  -- each parameter is typed as a variable
  have hps : ∀ a ∈ fn.paramsList.map AstNode.str, AnnotatesSorted a := fun a ha => by
    obtain ⟨p, -, rfl⟩ := List.mem_map.1 ha
    exact typeAnnotator_sorted (.str p) rfl
  obtain ⟨hp, hcs₁⟩ := typeAnnotatorList_sorted hps h₁ hcs
  obtain ⟨hb, hcs₂⟩ := typeAnnotator_sorted _ hf.2 h₂ hcs₁
  simp [hcs₂, compatible_of_isFnAtom hf.1 (by simp [hp, hb] : (pts ++ [bt]).all Ty.isSimple)]

/-- Annotating annotable stubs generates sorted constraints. -/
theorem generatedConstraints_sorted : ∀ {fs : List FunctionStub} {c : Nat}
    {cs : List TypeConstraint}, (∀ f ∈ fs, f.annotable) → generatedConstraints fs c = .ok cs →
      constraintsSorted cs
  | [], _, _, _, h => by
    simp only [generatedConstraints, pure_eq_ok, Except.ok.injEq] at h
    simp [← h, constraintsSorted]
  | f :: fs, _, _, hf, h => by
    simp only [generatedConstraints, bind_eq_ok, pure_eq_ok, Except.ok.injEq] at h
    obtain ⟨⟨t, c₁, cs₁⟩, h₁, cs₂, h₂, rfl⟩ := h
    simp only [constraintsSorted_append, Bool.and_eq_true]
    exact ⟨fnTypeAnnotator_sorted (hf f (List.mem_cons_self _ _)) h₁ rfl,
      generatedConstraints_sorted (fun g hg => hf g (List.mem_cons_of_mem _ hg)) h₂⟩

/-- Inference and specialization raise no type error on a program of annotable stubs that a
substitution solves. When every stub is named by a function's name and has an annotable body, `θ`
solves every constraint that annotation generates and the primitive table, and `θ` equates the
entry with an invocation type without `None`, the stages of `compiler.py` up to `apply_with_type`
raise nothing but `RecursionError` and the final assertion that every value of the merged map is
resolved; when they return, they return `θ`'s entry signature. No budget excludes `RecursionError`: a merge can bind two variables to each other, as on the
solvable `cycleProgram`, and `unify_vars` then follows them at every budget (`unifyVars_cycle`). -/
theorem inference_complete_of_annotable {fuel : Nat} {src entry : String}
    {fs : List FunctionStub} {cs : List TypeConstraint} {θ : String → Ty} {types : List Ty}
    (hfs : extractFunctions src = .ok fs) (hentry : entry ∈ fs.map (·.name))
    (hann : ∀ f ∈ fs, f.annotable) (hcs : generatedConstraints fs 0 = .ok cs)
    (hθ : Solves θ cs) (hstd : stdTypes.Satisfies θ) (happ : (Ty.tuple types).noneFree)
    (hinv : (Ty.atom entry).subst θ = (Ty.tuple types).subst θ) :
    Outcome (fun e => e = .recursionError ∨
        e = .assertionError "Type must be fully resolved at this point")
      (· = (Ty.tuple types).subst θ)
      (inferTypes fuel src entry >>= fun r => applyWithType fuel r.2.2.1 (.tuple types)) :=
  inference_keeps hfs hentry hcs hθ (generatedConstraints_sorted hann hcs) hstd happ hinv

/-- On `idCallProgram`, whose stubs are annotable. -/
theorem inference_complete_of_annotable_idCall :
    extractFunctions idCallProgram = .ok [unusedId, idCallMain] ∧
    "main" ∈ [unusedId, idCallMain].map (·.name) ∧
    (∀ f ∈ [unusedId, idCallMain], f.annotable) ∧
    generatedConstraints [unusedId, idCallMain] 0 = .ok idCallConstraints ∧
    Solves unusedIdSolver idCallConstraints ∧ stdTypes.Satisfies unusedIdSolver ∧
    (Ty.tuple [.atom "int"]).noneFree ∧
    (Ty.atom "main").subst unusedIdSolver = (Ty.tuple [.atom "int"]).subst unusedIdSolver ∧
    Outcome (fun e => e = .recursionError ∨
        e = .assertionError "Type must be fully resolved at this point")
      (· = (Ty.tuple [.atom "int"]).subst unusedIdSolver)
      (inferTypes recursionLimit idCallProgram "main" >>= fun r =>
        applyWithType recursionLimit r.2.2.1 (.tuple [.atom "int"])) := by
  have hfs : extractFunctions idCallProgram = .ok [unusedId, idCallMain] := by decide
  have hann : ∀ f ∈ [unusedId, idCallMain], f.annotable := by decide
  have hcs : generatedConstraints [unusedId, idCallMain] 0 = .ok idCallConstraints := by decide
  have hθ : Solves unusedIdSolver idCallConstraints := by decide
  have hstd : stdTypes.Satisfies unusedIdSolver := by decide
  have hinv : (Ty.atom "main").subst unusedIdSolver =
      (Ty.tuple [.atom "int"]).subst unusedIdSolver := by decide
  exact ⟨hfs, by decide, hann, hcs, hθ, hstd, rfl, hinv,
    inference_complete_of_annotable hfs (by decide) hann hcs hθ hstd rfl hinv⟩

end LispCompiler
