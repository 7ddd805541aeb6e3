import LispCompiler.Pipeline
import Mathlib.Data.List.Forall2

/-!
# Call resolution closes the call graph

`resolve_all_function_calls` walks every body through `ProgN` nodes and call arguments, resolving
each call after its arguments, and raises `KeyError` at a callee that no definition is named.
`resolveAllFunctionCalls_closes` characterizes it on bodies built from variable loads, constants,
calls by name, and `ProgN` nodes, the bodies lowering builds: it raises exactly when some call
names no definition, and otherwise each body is the original with every call replaced by an
application of the last definition of the callee's name (`CallsReplaced`, `IsLastDef`), so that
no call by name is left.

The proof has one lemma per direction for the recursive resolver (`recursiveResolver_replaces`,
`recursiveResolver_error`), and one for the dictionary comprehension that names the targets
(`functionNameMap_eq_some_iff`).
-/

namespace LispCompiler

namespace BaseAst

mutual
/-- The callees of the calls by name anywhere in a body, each call's arguments first. -/
def calls : BaseAst → List String
  | .unresolvedFnApp n ps => callsList ps ++ [n]
  | .progN ps => callsList ps
  | .functionApplication _ ps => callsList ps
  | .unresolvedVariableLoad _ | .constantLoad .. => []
/-- The callees of the calls by name in a list of bodies. -/
def callsList : List BaseAst → List String
  | [] => []
  | b :: bs => calls b ++ callsList bs
end

mutual
/-- The definitions applied anywhere in a body, each application's arguments first. -/
def targets : BaseAst → List Nat
  | .functionApplication i ps => targetsList ps ++ [i]
  | .progN ps => targetsList ps
  | .unresolvedFnApp _ ps => targetsList ps
  | .unresolvedVariableLoad _ | .constantLoad .. => []
/-- The definitions applied in a list of bodies. -/
def targetsList : List BaseAst → List Nat
  | [] => []
  | b :: bs => targets b ++ targetsList bs
end

mutual
/-- A body built from variable loads, constants, calls by name, and `ProgN` nodes only. -/
def isUnresolved : BaseAst → Bool
  | .unresolvedFnApp _ ps => isUnresolvedList ps
  | .progN ps => isUnresolvedList ps
  | .unresolvedVariableLoad _ | .constantLoad .. => true
  | .functionApplication .. => false
/-- Every body of a list is built from those four kinds of node. -/
def isUnresolvedList : List BaseAst → Bool
  | [] => true
  | b :: bs => isUnresolved b && isUnresolvedList bs
end

end BaseAst

mutual
/-- `b'` is `b` with every call of `n` replaced by an application of a definition `i` with
`target n i`, to the replaced arguments in the same order, and every other node kept. -/
def CallsReplaced (target : String → Nat → Prop) : BaseAst → BaseAst → Prop
  | .unresolvedFnApp n ps, .functionApplication i ps' => target n i ∧ CallsReplacedList target ps ps'
  | .progN ps, .progN ps' => CallsReplacedList target ps ps'
  | .unresolvedVariableLoad v, b' => b' = .unresolvedVariableLoad v
  | .constantLoad t c, b' => b' = .constantLoad t c
  | _, _ => False
/-- `CallsReplaced` elementwise on two lists of the same length. -/
def CallsReplacedList (target : String → Nat → Prop) : List BaseAst → List BaseAst → Prop
  | [], [] => True
  | b :: bs, b' :: bs' => CallsReplaced target b b' ∧ CallsReplacedList target bs bs'
  | _, _ => False
end

/-- Position `i` of `fs` holds a definition named `n`, and no later position does. -/
def IsLastDef (fs : List TypedFnDef) (n : String) (i : Nat) : Prop :=
  (∃ f, fs[i]? = some f ∧ f.name = n) ∧ ∀ f ∈ fs.drop (i + 1), f.name ≠ n

end LispCompiler

namespace LispCompiler

/-! ## The definition a name resolves to -/

private theorem nameFold_acc (n : String) : ∀ (fs : List TypedFnDef) (k : Nat) (acc : Option Nat),
    (fs.enumFrom k).foldl (fun acc e => if e.2.name = n then some e.1 else acc) acc =
      ((fs.enumFrom k).foldl (fun acc e => if e.2.name = n then some e.1 else acc) Option.none).or acc
  | [], _, _ => by simp
  | f :: fs, k, acc => by
    by_cases h : f.name = n
    · simp only [List.enumFrom_cons, List.foldl_cons, h, if_true]
      rw [nameFold_acc n fs (k + 1) (some k)]
      cases (fs.enumFrom (k + 1)).foldl (fun acc e => if e.2.name = n then some e.1 else acc) none <;> rfl
    · simp only [List.enumFrom_cons, List.foldl_cons, h, if_false]
      exact nameFold_acc n fs (k + 1) acc

private theorem nameFold_shift (n : String) : ∀ (fs : List TypedFnDef) (k : Nat),
    (fs.enumFrom (k + 1)).foldl (fun acc e => if e.2.name = n then some e.1 else acc) Option.none =
      ((fs.enumFrom k).foldl (fun acc e => if e.2.name = n then some e.1 else acc) Option.none).map
        (· + 1)
  | [], _ => by simp
  | f :: fs, k => by
    by_cases h : f.name = n
    · simp only [List.enumFrom_cons, List.foldl_cons, h, if_true]
      rw [nameFold_acc n fs (k + 1 + 1), nameFold_acc n fs (k + 1), nameFold_shift n fs (k + 1)]
      cases (fs.enumFrom (k + 1)).foldl (fun acc e => if e.2.name = n then some e.1 else acc) none <;> rfl
    · simp only [List.enumFrom_cons, List.foldl_cons, h, if_false]
      exact nameFold_shift n fs (k + 1)

/-- The comprehension over `f :: fs` keeps `fs`'s entry for a name, shifted, and `f` only for a
name that `fs` lacks. -/
theorem functionNameMap_cons (f : TypedFnDef) (fs : List TypedFnDef) (n : String) :
    functionNameMap (f :: fs) n =
      ((functionNameMap fs n).map (· + 1)).or (if f.name = n then some 0 else Option.none) := by
  simp only [functionNameMap, List.enum, List.enumFrom_cons, List.foldl_cons]
  rw [nameFold_acc, nameFold_shift]

@[simp] theorem IsLastDef_cons_zero (f : TypedFnDef) (fs : List TypedFnDef) (n : String) :
    IsLastDef (f :: fs) n 0 ↔ f.name = n ∧ ∀ g ∈ fs, g.name ≠ n := by
  simp [IsLastDef]

@[simp] theorem IsLastDef_cons_succ (f : TypedFnDef) (fs : List TypedFnDef) (n : String)
    (j : Nat) : IsLastDef (f :: fs) n (j + 1) ↔ IsLastDef fs n j := by
  simp [IsLastDef]

theorem IsLastDef.exists_mem {fs : List TypedFnDef} {n : String} {i : Nat}
    (h : IsLastDef fs n i) : ∃ f ∈ fs, f.name = n := by
  obtain ⟨⟨f, hf, rfl⟩, -⟩ := h
  exact ⟨f, List.getElem?_mem hf, rfl⟩

/-- A name has no entry exactly when no definition has it. -/
theorem functionNameMap_eq_none_iff (fs : List TypedFnDef) (n : String) :
    functionNameMap fs n = Option.none ↔ ∀ f ∈ fs, f.name ≠ n := by
  induction fs with
  | nil => simp [functionNameMap]
  | cons f fs ih => by_cases h : f.name = n <;> simp [functionNameMap_cons, ih, h]

/-- A name's entry is the position of its last definition. -/
theorem functionNameMap_eq_some_iff (fs : List TypedFnDef) (n : String) (i : Nat) :
    functionNameMap fs n = some i ↔ IsLastDef fs n i := by
  induction fs generalizing i with
  | nil => simp [functionNameMap, IsLastDef]
  | cons f fs ih =>
    rw [functionNameMap_cons]
    cases h : functionNameMap fs n with
    | none =>
      have hall := (functionNameMap_eq_none_iff fs n).1 h
      cases i with
      | zero =>
        by_cases hf : f.name = n
        · simpa [hf] using hall
        · simp [hf]
      | succ j => simp [← ih, h]
    | some j =>
      obtain ⟨g, hg, hgn⟩ := ((ih j).1 h).exists_mem
      cases i with
      | zero => simp only [IsLastDef_cons_zero]; simpa using fun _ => ⟨g, hg, hgn⟩
      | succ k => simp [← ih, h]

/-- The targets of `function_name_map` are the last definitions of their names. -/
theorem functionNameMap_target (fs : List TypedFnDef) :
    (fun n i => functionNameMap fs n = some i) = IsLastDef fs := by
  funext n i
  exact propext (functionNameMap_eq_some_iff fs n i)

/-! ## The recursive resolver -/

mutual
/-- What the resolver returns on an unresolved body is the body with its calls replaced. -/
theorem recursiveResolver_replaces (m : String → Option Nat) :
    ∀ (b b' : BaseAst), b.isUnresolved → recursiveResolver m b = .ok b' →
      CallsReplaced (fun n i => m n = some i) b b'
  | .unresolvedFnApp fn ps, b', hb, h => by
    simp only [recursiveResolver, bind_eq_ok] at h
    obtain ⟨ps', hps, h⟩ := h
    cases hm : m fn with
    | none => simp [hm] at h
    | some i =>
      simp only [hm, pure_eq_ok, Except.ok.injEq] at h
      subst h
      exact ⟨hm, resolverList_replaces m ps ps' (by simpa [BaseAst.isUnresolved] using hb) hps⟩
  | .progN ps, b', hb, h => by
    simp only [recursiveResolver, bind_eq_ok, pure_eq_ok, Except.ok.injEq] at h
    obtain ⟨ps', hps, rfl⟩ := h
    exact resolverList_replaces m ps ps' (by simpa [BaseAst.isUnresolved] using hb) hps
  | .unresolvedVariableLoad v, b', _, h => by
    simp only [recursiveResolver, pure_eq_ok, Except.ok.injEq] at h
    exact h.symm
  | .constantLoad t c, b', _, h => by
    simp only [recursiveResolver, pure_eq_ok, Except.ok.injEq] at h
    exact h.symm
  | .functionApplication .., _, hb, _ => by simp [BaseAst.isUnresolved] at hb
/-- `recursiveResolver_replaces` on each element of a list. -/
theorem resolverList_replaces (m : String → Option Nat) :
    ∀ (bs bs' : List BaseAst), BaseAst.isUnresolvedList bs → resolverList m bs = .ok bs' →
      CallsReplacedList (fun n i => m n = some i) bs bs'
  | [], bs', _, h => by
    simp only [resolverList, pure_eq_ok, Except.ok.injEq] at h
    subst h; trivial
  | b :: bs, bs', hb, h => by
    simp only [resolverList, bind_eq_ok, pure_eq_ok, Except.ok.injEq] at h
    obtain ⟨b', hb', bs'', hbs, rfl⟩ := h
    simp only [BaseAst.isUnresolvedList, Bool.and_eq_true] at hb
    exact ⟨recursiveResolver_replaces m b b' hb.1 hb', resolverList_replaces m bs bs'' hb.2 hbs⟩
end

mutual
/-- The resolver raises only at a call whose name has no entry. -/
theorem recursiveResolver_error (m : String → Option Nat) :
    ∀ (b : BaseAst) (e : PyError), recursiveResolver m b = .error e →
      ∃ n ∈ b.calls, m n = Option.none
  | .unresolvedFnApp fn ps, e, h => by
    simp only [recursiveResolver, bind_eq_error] at h
    rcases h with h | ⟨ps', _, h⟩
    · obtain ⟨n, hn, hm⟩ := resolverList_error m ps e h
      exact ⟨n, by simp [BaseAst.calls, hn], hm⟩
    · cases hm : m fn with
      | none => exact ⟨fn, by simp [BaseAst.calls], hm⟩
      | some i => simp [hm] at h
  | .progN ps, e, h => by
    simp only [recursiveResolver, bind_eq_error] at h
    rcases h with h | ⟨_, _, h⟩
    · obtain ⟨n, hn, hm⟩ := resolverList_error m ps e h
      exact ⟨n, by simpa [BaseAst.calls] using hn, hm⟩
    · simp at h
  | .unresolvedVariableLoad _, _, h | .constantLoad .., _, h | .functionApplication .., _, h => by
    simp [recursiveResolver] at h
/-- `recursiveResolver_error` on a list. -/
theorem resolverList_error (m : String → Option Nat) :
    ∀ (bs : List BaseAst) (e : PyError), resolverList m bs = .error e →
      ∃ n ∈ BaseAst.callsList bs, m n = Option.none
  | [], _, h => by simp [resolverList] at h
  | b :: bs, e, h => by
    simp only [resolverList, bind_eq_error] at h
    rcases h with h | ⟨_, _, h | ⟨_, h, h'⟩⟩
    · obtain ⟨n, hn, hm⟩ := recursiveResolver_error m b e h
      exact ⟨n, by simp [BaseAst.callsList, hn], hm⟩
    · obtain ⟨n, hn, hm⟩ := resolverList_error m bs e h
      exact ⟨n, by simp [BaseAst.callsList, hn], hm⟩
    · simp at h'
end

mutual
/-- After replacement every call of the original has a target and no call by name is left. -/
theorem CallsReplaced.calls {target : String → Nat → Prop} :
    ∀ {b b' : BaseAst}, CallsReplaced target b b' →
      (∀ n ∈ b.calls, ∃ i, target n i) ∧ b'.calls = []
  | .unresolvedFnApp n ps, .functionApplication i ps', h => by
    obtain ⟨hn, hps⟩ := CallsReplacedList.calls h.2
    refine ⟨fun n' hn' => ?_, by simpa [BaseAst.calls] using hps⟩
    simp only [BaseAst.calls, List.mem_append, List.mem_singleton] at hn'
    rcases hn' with hn' | rfl
    · exact hn n' hn'
    · exact ⟨i, h.1⟩
  | .progN ps, .progN ps', h => by
    obtain ⟨hn, hps⟩ := CallsReplacedList.calls h
    exact ⟨by simpa [BaseAst.calls] using hn, by simpa [BaseAst.calls] using hps⟩
  | .unresolvedVariableLoad _, _, h | .constantLoad .., _, h => by
    simp only [CallsReplaced] at h
    subst h
    simp [BaseAst.calls]
  | .unresolvedFnApp .., .progN _, h | .unresolvedFnApp .., .unresolvedVariableLoad _, h
  | .unresolvedFnApp .., .constantLoad .., h | .unresolvedFnApp .., .unresolvedFnApp .., h
  | .progN _, .unresolvedVariableLoad _, h | .progN _, .constantLoad .., h
  | .progN _, .unresolvedFnApp .., h | .progN _, .functionApplication .., h
  | .functionApplication .., _, h => by simp [CallsReplaced] at h
/-- `CallsReplaced.calls` on lists. -/
theorem CallsReplacedList.calls {target : String → Nat → Prop} :
    ∀ {bs bs' : List BaseAst}, CallsReplacedList target bs bs' →
      (∀ n ∈ BaseAst.callsList bs, ∃ i, target n i) ∧ BaseAst.callsList bs' = []
  | [], [], _ => by simp [BaseAst.callsList]
  | b :: bs, b' :: bs', h => by
    obtain ⟨hn, hb⟩ := CallsReplaced.calls h.1
    obtain ⟨hns, hbs⟩ := CallsReplacedList.calls h.2
    refine ⟨fun n hn' => ?_, by simp [BaseAst.callsList, hb, hbs]⟩
    simp only [BaseAst.callsList, List.mem_append] at hn'
    exact hn'.elim (hn n) (hns n)
  | [], _ :: _, h | _ :: _, [], h => by simp [CallsReplacedList] at h
end

/-! ## Resolution of a list of definitions -/

/-- Resolving a list of unresolved bodies replaces their calls. -/
private theorem resolveBodies_ok (m : String → Option Nat) : ∀ (l gs : List TypedFnDef),
    (∀ f ∈ l, f.body.isUnresolved) →
    l.mapM (fun a => return { a with body := ← recursiveResolver m a.body }) = .ok gs →
    List.Forall₂ (fun f g => g = { f with body := g.body } ∧
      CallsReplaced (fun n i => m n = some i) f.body g.body) l gs
  | [], gs, _, h => by
    simp only [List.mapM_nil, pure_eq_ok, Except.ok.injEq] at h
    subst h; exact .nil
  | f :: l, gs, hl, h => by
    simp only [List.mapM_cons, bind_eq_ok, pure_eq_ok, Except.ok.injEq] at h
    obtain ⟨g, ⟨b, hb, rfl⟩, gs', hgs, rfl⟩ := h
    exact .cons ⟨rfl, recursiveResolver_replaces m _ _ (hl f (by simp)) hb⟩
      (resolveBodies_ok m l gs' (fun f hf => hl f (by simp [hf])) hgs)

/-- Resolving a list of bodies raises only at a call whose name has no entry. -/
private theorem resolveBodies_error (m : String → Option Nat) : ∀ (l : List TypedFnDef) (e : PyError),
    l.mapM (fun a => return { a with body := ← recursiveResolver m a.body }) = .error e →
    ∃ f ∈ l, ∃ n ∈ f.body.calls, m n = Option.none
  | [], e, h => by simp only [List.mapM_nil, pure_eq_ok] at h; cases h
  | f :: l, e, h => by
    simp only [List.mapM_cons, bind_eq_error, bind_eq_ok] at h
    rcases h with h | ⟨g, _, h | ⟨_, _, h⟩⟩
    · rcases h with h | ⟨_, _, h⟩
      · obtain ⟨n, hn, hm⟩ := recursiveResolver_error m _ e h
        exact ⟨f, by simp, n, hn, hm⟩
      · cases h
    · obtain ⟨f', hf', n, hn, hm⟩ := resolveBodies_error m l e h
      exact ⟨f', by simp [hf'], n, hn, hm⟩
    · cases h


private theorem forall₂_exists_of_mem {α β : Type} {R : α → β → Prop} :
    ∀ {l₁ : List α} {l₂ : List β}, List.Forall₂ R l₁ l₂ → ∀ a ∈ l₁, ∃ b, R a b
  | _, _, .nil, a, h => absurd h (List.not_mem_nil a)
  | _, _, .cons hab h, a, ha => by
    rcases List.mem_cons.1 ha with rfl | ha
    · exact ⟨_, hab⟩
    · exact forall₂_exists_of_mem h a ha

/-- What resolution returns on unresolved bodies: each definition kept but for its body, whose
calls are replaced by applications of the last definition of their name. -/
theorem resolveAllFunctionCalls_replaces {fs gs : List TypedFnDef}
    (hfs : ∀ f ∈ fs, f.body.isUnresolved) (h : resolveAllFunctionCalls fs = .ok gs) :
    List.Forall₂ (fun f g => g = { f with body := g.body } ∧
      CallsReplaced (IsLastDef fs) f.body g.body ∧ g.body.calls = []) fs gs := by
  have h := resolveBodies_ok (functionNameMap fs) fs gs hfs h
  rw [functionNameMap_target] at h
  exact h.imp fun _ _ hfg => ⟨hfg.1, hfg.2, (CallsReplaced.calls hfg.2).2⟩

/-- Call resolution closes the call graph or fails. On definitions whose bodies hold only variable
loads, constants, calls by name, and `ProgN` nodes, `resolve_all_function_calls` raises exactly when
some call names no definition; otherwise each returned definition is the original one, its body
with every call replaced by an application of the last definition of the callee's name, arguments
and every other node kept, and no call by name left. -/
theorem resolveAllFunctionCalls_closes (fs : List TypedFnDef)
    (hfs : ∀ f ∈ fs, f.body.isUnresolved) :
    ((∃ e, resolveAllFunctionCalls fs = .error e) ↔
      ∃ f ∈ fs, ∃ n ∈ f.body.calls, ∀ g ∈ fs, g.name ≠ n) ∧
    ∀ gs, resolveAllFunctionCalls fs = .ok gs →
      List.Forall₂ (fun f g => g = { f with body := g.body } ∧
        CallsReplaced (IsLastDef fs) f.body g.body ∧ g.body.calls = []) fs gs := by
  refine ⟨⟨fun ⟨e, h⟩ => ?_, fun ⟨f, hf, n, hn, hnone⟩ => ?_⟩,
    fun _ h => resolveAllFunctionCalls_replaces hfs h⟩
  · obtain ⟨f, hf, n, hn, hm⟩ := resolveBodies_error _ fs e h
    exact ⟨f, hf, n, hn, (functionNameMap_eq_none_iff fs n).1 hm⟩
  · cases h : resolveAllFunctionCalls fs with
    | error e => exact ⟨e, rfl⟩
    | ok gs =>
      obtain ⟨g, -, hrep, -⟩ := forall₂_exists_of_mem (resolveAllFunctionCalls_replaces hfs h) f hf
      obtain ⟨i, hi⟩ := (CallsReplaced.calls hrep).1 n hn
      obtain ⟨g', hg', hname⟩ := hi.exists_mem
      exact absurd hname (hnone g' hg')


/-- Two lowered definitions: `f` calls `g` on a constant, and `g` loads its parameter. -/
def sampleDefs : List TypedFnDef :=
  [⟨"f", [], .unresolvedFnApp "g" [.constantLoad (.atom "int") (.str "1")], .atom "int"⟩,
   ⟨"g", [⟨"x", .atom "int"⟩], .unresolvedVariableLoad (.str "x"), .atom "int"⟩]

theorem resolveAllFunctionCalls_closes_sample :
    (∀ f ∈ sampleDefs, f.body.isUnresolved) ∧
    (((∃ e, resolveAllFunctionCalls sampleDefs = .error e) ↔
      ∃ f ∈ sampleDefs, ∃ n ∈ f.body.calls, ∀ g ∈ sampleDefs, g.name ≠ n) ∧
    ∀ gs, resolveAllFunctionCalls sampleDefs = .ok gs →
      List.Forall₂ (fun f g => g = { f with body := g.body } ∧
        CallsReplaced (IsLastDef sampleDefs) f.body g.body ∧ g.body.calls = []) sampleDefs gs) :=
  ⟨by decide, resolveAllFunctionCalls_closes sampleDefs (by decide)⟩

/-! ## The call graph of a compilation

Lowering builds bodies of the four kinds that resolution expects, so on every program that
compiles, the resolved call graph is the graph of calls by name, each call pointing to the last
definition of its callee's name. Nothing checks that graph for cycles.
-/

/-- An edge of the resolved call graph: the body of the `i`-th definition applies the `j`-th. -/
def CallEdge (gs : List TypedFnDef) (i j : Nat) : Prop :=
  ∃ g ∈ gs[i]?, j ∈ g.body.targets

instance (gs : List TypedFnDef) (i j : Nat) : Decidable (CallEdge gs i j) :=
  inferInstanceAs (Decidable (∃ g ∈ gs[i]?, j ∈ g.body.targets))

/-- `iter_node` builds only variable loads, constants, calls by name, and `ProgN` nodes. -/
theorem iterNode_isUnresolved (n : AstNode) : ∀ b, iterNode n = .ok b → b.isUnresolved := by
  induction n using iterNode.induct
    (motive_2 := fun ns => ∀ bs, iterList ns = .ok bs → BaseAst.isUnresolvedList bs) with
  | case5 lhs rhs ihl ihr | case6 lhs rhs ihl ihr =>
    intro b h
    simp only [iterNode, bind_eq_ok, pure_eq_ok, Except.ok.injEq] at h
    obtain ⟨l, hl, r, hr, rfl⟩ := h
    simp [BaseAst.isUnresolved, BaseAst.isUnresolvedList, ihl l hl, ihr r hr]
  | case10 name args ih =>
    intro b h
    simp only [iterNode, bind_eq_ok, pure_eq_ok, Except.ok.injEq] at h
    obtain ⟨bs, hbs, rfl⟩ := h
    simpa [BaseAst.isUnresolved] using ih bs hbs
  | case15 first args _ _ _ _ i hi ih =>
    intro b h
    simp only [iterNode, hi, bind_eq_ok, pure_eq_ok] at h
    obtain ⟨u, hu, h⟩ := h
    cases u
    · cases h
    · simp only [if_true, bind_eq_ok, pure_eq_ok, Except.ok.injEq] at h
      obtain ⟨bs, hbs, rfl⟩ := h
      simpa [BaseAst.isUnresolved] using ih bs hbs
  | case20 bs h => simp only [iterList, pure_eq_ok, Except.ok.injEq] at h; subst h; rfl
  | case21 k ks ihk ihks bs h =>
    simp only [iterList, bind_eq_ok, pure_eq_ok, Except.ok.injEq] at h
    obtain ⟨b, hb, bs', hbs, rfl⟩ := h
    simp [BaseAst.isUnresolvedList, ihk b hb, ihks bs' hbs]
  | _ => intro b h; simp [iterNode, *] at h; try (subst h; rfl)

theorem convertToBaseast_isUnresolved {a : FunctionStub} {d : Dict} {c c' : Nat}
    {f : TypedFnDef} (h : convertToBaseast a d c = .ok (f, c')) : f.body.isUnresolved := by
  simp only [convertToBaseast, bind_eq_ok] at h
  obtain ⟨⟨params, c₁⟩, -, body, hbody, h⟩ := h
  cases hm : a.myType with
  | none => simp [hm] at h
  | some t =>
    simp only [hm, bind_eq_ok, pure_eq_ok, Except.ok.injEq, Prod.mk.injEq] at h
    obtain ⟨rt, -, rfl, -⟩ := h
    exact iterNode_isUnresolved _ _ hbody

theorem convertAll_isUnresolved {d : Dict} : ∀ {fs : List FunctionStub} {c c' : Nat}
    {defs : List TypedFnDef}, convertAll d fs c = .ok (defs, c') → ∀ f ∈ defs, f.body.isUnresolved
  | [], _, _, _, h => by
    simp only [convertAll, pure_eq_ok, Except.ok.injEq, Prod.mk.injEq] at h
    simp [← h.1]
  | a :: fs, c, c', defs, h => by
    simp only [convertAll, bind_eq_ok, pure_eq_ok, Except.ok.injEq] at h
    obtain ⟨⟨f, c₁⟩, hf, ⟨fs', c₂⟩, hfs, h⟩ := h
    cases h
    intro g hg
    rcases List.mem_cons.1 hg with rfl | hg
    · exact convertToBaseast_isUnresolved hf
    · exact convertAll_isUnresolved hfs g hg

/-- A compilation resolves the lowered definitions, whose bodies are all unresolved. -/
theorem compile_resolves {fuel : Nat} {src entry : String} {application : Ty} {comp : Compilation}
    (h : compile fuel src entry application = .ok comp) :
    resolveAllFunctionCalls comp.loweredDefs = .ok comp.fnDefs ∧
      ∀ d ∈ comp.loweredDefs, d.body.isUnresolved := by
  simp only [compile, bind_eq_ok, pure_eq_ok, Except.ok.injEq] at h
  obtain ⟨⟨functions, mainIdx, mainFn, c⟩, -, rt, -, sol, -, ⟨defs, c'⟩, hconv, fnDefs, hres, rfl⟩ :=
    h
  exact ⟨hres, convertAll_isUnresolved hconv⟩

theorem IsLastDef.unique {fs : List TypedFnDef} {n : String} {i j : Nat} (hi : IsLastDef fs n i)
    (hj : IsLastDef fs n j) : i = j := by
  rw [← functionNameMap_eq_some_iff] at hi hj
  exact Option.some.inj (hi.symm.trans hj)

mutual
/-- With a functional target relation, the applications of a replaced body are the targets of the
original body's calls. -/
theorem CallsReplaced.mem_targets {target : String → Nat → Prop}
    (hfun : ∀ n i j, target n i → target n j → i = j) (j : Nat) :
    ∀ {b b' : BaseAst}, CallsReplaced target b b' →
      (j ∈ b'.targets ↔ ∃ n ∈ b.calls, target n j)
  | .unresolvedFnApp n ps, .functionApplication i ps', h => by
    simp only [BaseAst.targets, BaseAst.calls, List.mem_append, List.mem_singleton,
      CallsReplacedList.mem_targets hfun j h.2]
    constructor
    · rintro (⟨n', hn', ht⟩ | rfl)
      · exact ⟨n', Or.inl hn', ht⟩
      · exact ⟨n, Or.inr rfl, h.1⟩
    · rintro ⟨n', hn' | rfl, ht⟩
      · exact Or.inl ⟨n', hn', ht⟩
      · exact Or.inr (hfun _ _ _ ht h.1)
  | .progN ps, .progN ps', h => by
    simpa [BaseAst.targets, BaseAst.calls] using CallsReplacedList.mem_targets hfun j h
  | .unresolvedVariableLoad _, _, h | .constantLoad .., _, h => by
    simp only [CallsReplaced] at h
    subst h
    simp [BaseAst.targets, BaseAst.calls]
  | .unresolvedFnApp .., .progN _, h | .unresolvedFnApp .., .unresolvedVariableLoad _, h
  | .unresolvedFnApp .., .constantLoad .., h | .unresolvedFnApp .., .unresolvedFnApp .., h
  | .progN _, .unresolvedVariableLoad _, h | .progN _, .constantLoad .., h
  | .progN _, .unresolvedFnApp .., h | .progN _, .functionApplication .., h
  | .functionApplication .., _, h => by simp [CallsReplaced] at h
/-- `CallsReplaced.mem_targets` on lists. -/
theorem CallsReplacedList.mem_targets {target : String → Nat → Prop}
    (hfun : ∀ n i j, target n i → target n j → i = j) (j : Nat) :
    ∀ {bs bs' : List BaseAst}, CallsReplacedList target bs bs' →
      (j ∈ BaseAst.targetsList bs' ↔ ∃ n ∈ BaseAst.callsList bs, target n j)
  | [], [], _ => by simp [BaseAst.targetsList, BaseAst.callsList]
  | b :: bs, b' :: bs', h => by
    simp only [BaseAst.targetsList, BaseAst.callsList, List.mem_append,
      CallsReplaced.mem_targets hfun j h.1, CallsReplacedList.mem_targets hfun j h.2]
    constructor
    · rintro (⟨n, hn, ht⟩ | ⟨n, hn, ht⟩)
      · exact ⟨n, Or.inl hn, ht⟩
      · exact ⟨n, Or.inr hn, ht⟩
    · rintro ⟨n, hn | hn, ht⟩
      · exact Or.inl ⟨n, hn, ht⟩
      · exact Or.inr ⟨n, hn, ht⟩
  | [], _ :: _, h | _ :: _, [], h => by simp [CallsReplacedList] at h
end

private theorem forall₂_getElem?_left {α β : Type} {R : α → β → Prop} :
    ∀ {l₁ : List α} {l₂ : List β}, List.Forall₂ R l₁ l₂ → ∀ {i : Nat} {a : α}, l₁[i]? = some a →
      ∃ b, l₂[i]? = some b ∧ R a b
  | _, _, .nil, _, _, h => by simp at h
  | _, _, .cons hab _, 0, _, h => by
    simp only [List.getElem?_cons_zero, Option.some.injEq] at h
    subst h
    exact ⟨_, List.getElem?_cons_zero, hab⟩
  | _, _, .cons _ h, _ + 1, _, hi => by
    simpa only [List.getElem?_cons_succ] using
      forall₂_getElem?_left h (by simpa only [List.getElem?_cons_succ] using hi)

/-- The resolved call graph of every program that compiles: the `i`-th definition applies the
`j`-th exactly when its lowered body calls, by name, a function whose last definition is the
`j`-th. -/
theorem compile_callGraph {fuel : Nat} {src entry : String} {application : Ty}
    {comp : Compilation} (h : compile fuel src entry application = .ok comp) (i j : Nat) :
    CallEdge comp.fnDefs i j ↔
      ∃ d ∈ comp.loweredDefs[i]?, ∃ n ∈ d.body.calls, IsLastDef comp.loweredDefs n j := by
  obtain ⟨hres, hun⟩ := compile_resolves h
  have hrep := resolveAllFunctionCalls_replaces hun hres
  have hfun : ∀ n i j, IsLastDef comp.loweredDefs n i → IsLastDef comp.loweredDefs n j → i = j :=
    fun _ _ _ => IsLastDef.unique
  constructor
  · rintro ⟨g, hg, hj⟩
    obtain ⟨d, hd, -, hdg, -⟩ := forall₂_getElem?_left hrep.flip hg
    exact ⟨d, hd, (CallsReplaced.mem_targets hfun j hdg).1 hj⟩
  · rintro ⟨d, hd, hcall⟩
    obtain ⟨g, hg, -, hdg, -⟩ := forall₂_getElem?_left hrep hd
    exact ⟨g, hg, (CallsReplaced.mem_targets hfun j hdg).2 hcall⟩

theorem compile_callGraph_recursive :
    ∃ comp, compile recursionLimit recursiveProgram "main" (.tuple [.atom "void"]) = .ok comp ∧
      (CallEdge comp.fnDefs 1 0 ↔
        ∃ d ∈ comp.loweredDefs[1]?, ∃ n ∈ d.body.calls, IsLastDef comp.loweredDefs n 0) :=
  ⟨_, compile_recursiveProgram, compile_callGraph compile_recursiveProgram 1 0⟩

/-- `recursiveProgram` compiles, and its `f` applies itself. -/
theorem compile_accepts_recursion :
    ∃ comp, compile recursionLimit recursiveProgram "main" (.tuple [.atom "void"]) = .ok comp ∧
      CallEdge comp.fnDefs 0 0 :=
  ⟨_, compile_recursiveProgram, by decide⟩

end LispCompiler
