import LispCompiler.Lowering

/-!
# Inference and lowering agree on the calls of a body

`type_annotator` generates a constraint `f = (t1, ..., tn, r)` for every call group `(f a1 ... an)`
and every binary addition and multiplication, after the constraints of the operands, and
`iter_node` lowers the same nodes to calls by name. On a body without a multiplication, the
constraints that `type_annotator` adds record the calls of the lowered body: the same callees with
the same argument counts, in the same order (`callSites_agree`). A multiplication is constrained as
`Operator+` and lowered as `Operator*` (`mult_constrained_as_add`).
-/

namespace LispCompiler

namespace BaseAst

mutual
/-- The calls by name of a lowered body with their argument counts, each call after the calls in
its arguments. -/
def callSites : BaseAst → List (String × Nat)
  | .unresolvedFnApp fn params => callSitesList params ++ [(fn, params.length)]
  | .progN programs => callSitesList programs
  | .functionApplication _ params => callSitesList params
  | .unresolvedVariableLoad _ | .constantLoad .. => []
/-- The calls by name of a list of lowered bodies. -/
def callSitesList : List BaseAst → List (String × Nat)
  | [] => []
  | b :: bs => callSites b ++ callSitesList bs
end

end BaseAst

/-- The call that a constraint `f = (t1, ..., tn, r)` records: the callee `f` with `n` arguments.
Other constraints record none. -/
def TypeConstraint.callSite : TypeConstraint → Option (String × Nat)
  | ⟨.atom f, .tuple ts⟩ => some (f, ts.length - 1)
  | _ => none

namespace AstNode

mutual
/-- No node of the tree is a multiplication. -/
def multFree : AstNode → Bool
  | .node .mult _ => false
  | .node _ operands => multFreeList operands
  | .bare _ operand => multFree operand
  | .str _ => true
/-- No node of the trees of a list is a multiplication. -/
def multFreeList : List AstNode → Bool
  | [] => true
  | a :: as => multFree a && multFreeList as
end

end AstNode

/-- `iter_node` on a list lowers each node. -/
theorem iterList_length : ∀ {as : List AstNode} {bs : List BaseAst}, iterList as = .ok bs →
    bs.length = as.length
  | [], _, h => by simp only [iterList, pure_eq_ok, Except.ok.injEq] at h; simp [← h]
  | a :: as, _, h => by
    simp only [iterList, bind_eq_ok, pure_eq_ok, Except.ok.injEq] at h
    obtain ⟨_, -, _, h', rfl⟩ := h
    simp [iterList_length h']

/-- An identifier or a literal adds no constraint. -/
theorem typeAnnotator_leaf {i : Instruction} (hi : i = .string1 ∨ i = .numberConstant)
    (x : AstNode) (tail : List AstNode) {c c' : Nat} {cs cs' : List TypeConstraint} {t : Ty}
    (h : typeAnnotator (.node i (x :: tail)) c cs = .ok (t, c', cs')) : cs' = cs := by
  rcases hi with rfl | rfl <;> cases x <;> cases tail <;>
    simp [typeAnnotator] at h <;> (try split at h) <;> (try split at h) <;> simp_all

/-- On a body without multiplication on which both traversals return, the constraints that
`type_annotator` adds record the calls of the body that `iter_node` lowers, in order. -/
theorem callSites_agree (a : AstNode) : ∀ {b : BaseAst}, iterNode a = .ok b → a.multFree →
    ∀ {c c' : Nat} {cs cs' : List TypeConstraint} {t : Ty},
      typeAnnotator a c cs = .ok (t, c', cs') →
      cs'.filterMap TypeConstraint.callSite = cs.filterMap TypeConstraint.callSite ++ b.callSites := by
  induction a using iterNode.induct
    (motive_2 := fun as => ∀ {bs : List BaseAst}, iterList as = .ok bs → AstNode.multFreeList as →
      ∀ {c c' : Nat} {cs cs' : List TypeConstraint} {ts : List Ty},
        typeAnnotatorList as c cs = .ok (ts, c', cs') →
        cs'.filterMap TypeConstraint.callSite =
          cs.filterMap TypeConstraint.callSite ++ BaseAst.callSitesList bs ∧ ts.length = as.length) with
  | case1 x tail | case2 x tail =>
    intro b hb _ c c' cs cs' t ht
    simp only [iterNode, pure_eq_ok, Except.ok.injEq] at hb
    subst hb
    simp [typeAnnotator_leaf (by simp) x tail ht, BaseAst.callSites]
  | case5 lhs rhs ihl ihr =>
    intro b hb hm c c' cs cs' t ht
    simp only [iterNode, bind_eq_ok, pure_eq_ok, Except.ok.injEq] at hb
    obtain ⟨bl, hl, br, hr, rfl⟩ := hb
    simp only [AstNode.multFree, AstNode.multFreeList, Bool.and_true, Bool.and_eq_true] at hm
    simp only [typeAnnotator, bind_eq_ok, pure_eq_ok, Except.ok.injEq, Prod.mk.injEq] at ht
    obtain ⟨⟨_, c₁, cs₁⟩, h₁, ⟨_, c₂, cs₂⟩, h₂, -, -, rfl⟩ := ht
    simp [ihl hl hm.1 h₁, ihr hr hm.2 h₂, BaseAst.callSites, BaseAst.callSitesList,
      TypeConstraint.callSite]
  | case6 => intro b _ hm; simp [AstNode.multFree] at hm
  | case10 name args ih =>
    intro b hb hm c c' cs cs' t ht
    simp only [iterNode, bind_eq_ok, pure_eq_ok, Except.ok.injEq] at hb
    obtain ⟨bs, hbs, rfl⟩ := hb
    simp only [AstNode.multFree, AstNode.multFreeList, Bool.true_and] at hm
    simp only [typeAnnotator, bind_eq_ok, pure_eq_ok, Except.ok.injEq] at ht
    obtain ⟨⟨_, c₁, cs₁⟩, h₁, ht⟩ := ht
    obtain ⟨hcs, hlen⟩ := ih hbs hm h₁
    cases ht
    simp [hcs, hlen, iterList_length hbs, BaseAst.callSites, TypeConstraint.callSite]
  | case15 first args h1 _ _ _ i hi ih =>
    intro b hb hm c c' cs cs' t ht
    simp only [iterNode, hi, bind_eq_ok, pure_eq_ok] at hb
    obtain ⟨u, -, hb⟩ := hb
    cases u
    · cases hb
    · simp only [if_true, bind_eq_ok, pure_eq_ok, Except.ok.injEq] at hb
      obtain ⟨bs, hbs, rfl⟩ := hb
      rw [typeAnnotator.eq_9 _ _ _ (fun n ps h => h1 n (List.cons.inj h).1), bind_eq_ok] at ht
      obtain ⟨⟨ts, c₁, cs₁⟩, h₁, ht⟩ := ht
      -- the group's type is its last operand's, and it adds no constraint of its own
      have hcs : cs' = cs₁ := by
        dsimp only at ht
        split at ht
        · simp only [pure_eq_ok, Except.ok.injEq, Prod.mk.injEq] at ht
          exact ht.2.2.symm
        · cases ht
      subst hcs
      simp only [AstNode.multFree] at hm
      simpa [BaseAst.callSites] using (ih hbs hm h₁).1
  | case20 hbs _ ht =>
    simp only [iterList, pure_eq_ok, Except.ok.injEq] at hbs
    simp only [typeAnnotatorList, pure_eq_ok, Except.ok.injEq, Prod.mk.injEq] at ht
    obtain ⟨rfl, -, rfl⟩ := ht
    subst hbs
    simp [BaseAst.callSitesList]
  | case21 a as iha ihas hbs hm ht =>
    simp only [iterList, bind_eq_ok, pure_eq_ok, Except.ok.injEq] at hbs
    obtain ⟨b, hb, bs', hbs', rfl⟩ := hbs
    simp only [AstNode.multFreeList, Bool.and_eq_true] at hm
    simp only [typeAnnotatorList, bind_eq_ok, pure_eq_ok, Except.ok.injEq, Prod.mk.injEq] at ht
    obtain ⟨⟨t₁, c₁, cs₁⟩, h₁, ⟨ts₂, c₂, cs₂⟩, h₂, rfl, -, rfl⟩ := ht
    obtain ⟨hcs, hlen⟩ := ihas hbs' hm.2 h₂
    simp [iha hb hm.1 h₁, hcs, hlen, BaseAst.callSitesList]
  | _ => intro b h; simp [iterNode, *] at h

/-- The body of `(defun f (x y) (g (+ x y) (h x)))`. -/
def nestedCallsBody : AstNode :=
  .node .unknown [.node .string1 [.str "g"],
    .node .add [.node .string1 [.str "x"], .node .string1 [.str "y"]],
    .node .unknown [.node .string1 [.str "h"], .node .string1 [.str "x"]]]

/-- `nestedCallsBody` lowered. -/
def nestedCallsLowered : BaseAst :=
  .unresolvedFnApp "g"
    [.unresolvedFnApp "Operator+" [.unresolvedVariableLoad (.str "x"), .unresolvedVariableLoad (.str "y")],
     .unresolvedFnApp "h" [.unresolvedVariableLoad (.str "x")]]

/-- The constraints of `nestedCallsBody`, from the counter `0`. -/
def nestedCallsConstraints : List TypeConstraint :=
  [⟨.atom "Operator+", .tuple [.atom "Unknown-x", .atom "Unknown-y", .atom "Unknown-2"]⟩,
   ⟨.atom "h", .tuple [.atom "Unknown-x", .atom "Unknown-3"]⟩,
   ⟨.atom "g", .tuple [.atom "Unknown-2", .atom "Unknown-3", .atom "Unknown-1"]⟩]

/-- On `nestedCallsBody`: the sum, then `h`, then `g`. -/
theorem callSites_agree_nestedCalls :
    iterNode nestedCallsBody = .ok nestedCallsLowered ∧ nestedCallsBody.multFree ∧
    typeAnnotator nestedCallsBody 0 [] = .ok (.atom "Unknown-1", 3, nestedCallsConstraints) ∧
    nestedCallsConstraints.filterMap TypeConstraint.callSite =
      ([] : List TypeConstraint).filterMap TypeConstraint.callSite ++ nestedCallsLowered.callSites := by
  have hl : iterNode nestedCallsBody = .ok nestedCallsLowered := by decide
  have ht : typeAnnotator nestedCallsBody 0 [] =
      .ok (.atom "Unknown-1", 3, nestedCallsConstraints) := by decide
  exact ⟨hl, rfl, ht, callSites_agree nestedCallsBody hl rfl ht⟩

end LispCompiler
