import LispCompiler.Operands
import LispCompiler.Extract

/-!
# The shapes of parse trees

`parser` builds five kinds of node (`AstNode.parseShaped`): a group of any number of members, a
sum or a product of exactly two operands, a literal or an identifier holding one string, and a
negation. A negation is `AstNode(Instruction.Negate, k)`: the `-` form passes the operand itself
where every other node has a list of operands (`parseAll_parseShaped`). Every later stage walks
operands as a list, so `flatten_tree` raises `TypeError` on every subtraction of two operands or
more (`subtraction_not_flattened`), and no program with one compiles. `flatten_tree` also unwraps a
call without arguments into a variable (`zeroArgCall_becomes_variable`), and keeps a malformed
`defun` as a call (`malformedDefun_kept`).
-/

namespace LispCompiler

/-! ## The nodes `parser` builds -/

mutual
/-- The nodes `parser` builds: groups, binary sums and products, literals and identifiers of one
string, and negations of a single node. -/
def AstNode.parseShaped : AstNode → Bool
  | .node .unknown es => AstNode.parseShapedList es
  | .node .add ops | .node .mult ops => ops.length == 2 && AstNode.parseShapedList ops
  | .node .numberConstant [.str _] | .node .string1 [.str _] => true
  | .bare .negate k => k.parseShaped
  | _ => false
/-- Every tree of a list has a shape that `parser` builds. -/
def AstNode.parseShapedList : List AstNode → Bool
  | [] => true
  | e :: es => e.parseShaped && AstNode.parseShapedList es
end

@[simp] theorem parseShapedList_nil : AstNode.parseShapedList [] = true := by
  simp [AstNode.parseShapedList]

@[simp] theorem parseShapedList_cons (e : AstNode) (es : List AstNode) :
    AstNode.parseShapedList (e :: es) = (e.parseShaped && AstNode.parseShapedList es) := by
  simp [AstNode.parseShapedList]

/-- The binary nodes of an operator form have the parser's shapes when their operands do. -/
theorem parseShaped_foldl {i : Instruction} (hi : i = .add ∨ i = .mult) {e : AstNode}
    (he : e.parseShaped) {es : List AstNode} (hes : AstNode.parseShapedList es) :
    (es.foldl (fun k1 k2 => .node i [k1, k2]) e).parseShaped := by
  induction es generalizing e with
  | nil => exact he
  | cons e' es ih =>
    simp only [parseShapedList_cons, Bool.and_eq_true] at hes
    refine ih ?_ hes.2
    rcases hi with rfl | rfl <;> simp [AstNode.parseShaped, he, hes.1]

@[simp] theorem parseShapedList_map_negate (es : List AstNode) :
    AstNode.parseShapedList (es.map (.bare .negate)) = AstNode.parseShapedList es := by
  induction es with
  | nil => rfl
  | cons e es ih => simp [ih, AstNode.parseShaped]

theorem parseShapedList_negateTail {es : List AstNode} (h : AstNode.parseShapedList es) :
    AstNode.parseShapedList (negateTail es) := by
  cases es with
  | nil => rfl
  | cons e es => simpa [negateTail] using h

theorem parseShaped_reduceBinary {i : Instruction} (hi : i = .add ∨ i = .mult) {es : List AstNode}
    {t : AstNode} (hes : AstNode.parseShapedList es) (h : reduceBinary i es = .ok t) :
    t.parseShaped := by
  obtain ⟨e, es', rfl, rfl⟩ := reduceBinary_eq_ok h
  simp only [parseShapedList_cons, Bool.and_eq_true] at hes
  exact parseShaped_foldl hi hes.1 hes.2

/-- Every node that `parser` returns, and every list that `take_until` returns, has the parser's
shapes. -/
theorem parse_parseShaped (n : Nat) :
    (∀ {ts t rest}, parser n ts = .ok (t, rest) → t.parseShaped) ∧
    (∀ {ts u es rest}, takeUntil n ts u = .ok (es, rest) → AstNode.parseShapedList es) := by
  induction n with
  | zero => exact ⟨fun h => (nomatch h), fun h => (nomatch h)⟩
  | succ n ih =>
    refine ⟨fun h => ?_, fun h => ?_⟩
    · rcases parser_eq_ok h with ⟨_, _, -, hu, rfl⟩ | ⟨_, _, _, -, hu, -, hop⟩ |
          ⟨x, -, -, -, -, -, rfl⟩
      · simpa [AstNode.parseShaped] using ih.2 hu
      · rcases hop with ⟨-, hr⟩ | ⟨-, hr⟩ | ⟨-, hr⟩
        · exact parseShaped_reduceBinary (.inl rfl) (ih.2 hu) hr
        · exact parseShaped_reduceBinary (.inl rfl) (parseShapedList_negateTail (ih.2 hu)) hr
        · exact parseShaped_reduceBinary (.inr rfl) (ih.2 hu) hr
      · split <;> rfl
    · rcases takeUntil_eq_ok h with ⟨-, rfl, -⟩ | ⟨_, -, rfl, -⟩ |
          ⟨_, _, _, _, _, -, -, hp, hu, rfl⟩
      · rfl
      · rfl
      · simp [ih.1 hp, ih.2 hu]

/-- Every tree of `parse_all`'s recursion comes from one call of `parser`. -/
theorem parseAllAux_parseShaped :
    ∀ fuel {ts trees}, parseAllAux fuel ts = .ok trees → AstNode.parseShapedList trees
  | 0, _, _, h => nomatch h
  | fuel + 1, _, _, h => by
    rcases parseAllAux_eq_ok h with ⟨-, rfl⟩ | ⟨_, _, _, hp, hrest, rfl⟩
    · rfl
    · simp [(parse_parseShaped _).1 hp, parseAllAux_parseShaped fuel hrest]

/-- Every tree that `parse_all` returns has the parser's shapes: groups of any number of members,
binary sums and products, literals and identifiers of one string, and negations of one node. -/
theorem parseAll_parseShaped {ts : List String} {trees : List AstNode}
    (h : parseAll ts = .ok trees) : AstNode.parseShapedList trees :=
  parseAllAux_parseShaped _ h

/-- The tokens of `(- 5 2)`: a group of a sum whose right operand is a negation of one node. -/
theorem parseAll_parseShaped_difference :
    parseAll ["(", "-", "5", "2", ")"] = .ok [.node .unknown [.node .add
      [.node .numberConstant [.str "5"], .bare .negate (.node .numberConstant [.str "2"])]]] ∧
    AstNode.parseShapedList [.node .unknown [.node .add
      [.node .numberConstant [.str "5"], .bare .negate (.node .numberConstant [.str "2"])]]] :=
  ⟨by decide, @parseAll_parseShaped ["(", "-", "5", "2", ")"] _ (by decide)⟩

/-! ## Subtraction does not desugar -/

/-- A sum whose left operand does not flatten does not flatten. -/
theorem flattenTree_add_of_error {x : AstNode} {c : Nat} {e : PyError}
    (h : flattenTree x c = .error e) (y : AstNode) :
    flattenTree (.node .add [x, y]) c = .error e := by
  rw [flattenTree_node_of_ne _ _ (by decide) (by decide) (by decide), flattenList, h]
  rfl

theorem flattenTree_foldl_add_of_error {x : AstNode} {c : Nat} {e : PyError}
    (h : flattenTree x c = .error e) (ys : List AstNode) :
    flattenTree (ys.foldl (fun k1 k2 => .node .add [k1, k2]) x) c = .error e := by
  induction ys generalizing x with
  | nil => exact h
  | cons y ys ih => exact ih (flattenTree_add_of_error h y)

/-- A subtraction of two operands or more is the sum of the first and the negated others, each
negation holding its operand where the other nodes hold a list; `flatten_tree` raises `TypeError`
on it from every counter at which the first operand flattens. -/
theorem subtraction_not_flattened {fuel : Nat} {rest next : List String} {t e₁ e₂ : AstNode}
    {es : List AstNode} (h : parser (fuel + 1) ("-" :: rest) = .ok (t, next))
    (hu : takeUntil fuel rest ")" = .ok (e₁ :: e₂ :: es, next)) :
    t = (es.map (.bare .negate)).foldl (fun k1 k2 => .node .add [k1, k2])
      (.node .add [e₁, .bare .negate e₂]) ∧
    ∀ c r, flattenTree e₁ c = .ok r → flattenTree t c = .error .typeError := by
  obtain ⟨es', hu', ⟨h', -⟩ | ⟨-, hr⟩ | ⟨h', -⟩⟩ := parser_operator_eq_ok h (by decide)
  · exact absurd h' (by decide)
  · obtain rfl : es' = e₁ :: e₂ :: es := by
      rw [hu] at hu'
      cases hu'
      rfl
    cases hr
    refine ⟨rfl, fun c r he => ?_⟩
    rw [List.map_cons, List.foldl_cons]
    refine flattenTree_foldl_add_of_error ?_ _
    rw [flattenTree_node_of_ne _ _ (by decide) (by decide) (by decide), flattenList, he]
    rfl
  · exact absurd h' (by decide)

/-- The subtraction `(- x 1)`: its sum holds a negation of one node, and a function whose body
subtracts is not extracted, since `flatten_tree` raises `TypeError`. -/
theorem subtraction_not_flattened_x_minus_one :
    parser 12 ["-", "x", "1", ")"] = .ok (.node .add [.node .string1 [.str "x"],
      .bare .negate (.node .numberConstant [.str "1"])], [")"]) ∧
    takeUntil 11 ["x", "1", ")"] ")" = .ok ([.node .string1 [.str "x"],
      .node .numberConstant [.str "1"]], [")"]) ∧
    flattenTree (.node .add [.node .string1 [.str "x"],
      .bare .negate (.node .numberConstant [.str "1"])]) 1 = .error .typeError ∧
    extractFunctions "(defun f (x) (- x 1))" = .error .typeError := by
  refine ⟨?hp, ?hu, (subtraction_not_flattened ?hp ?hu).2 1 _ rfl, ?_⟩ <;> decide

/-! ## Groups of identifiers

A group of identifiers parses to the group of their `String1` nodes. `flatten_tree` unwraps a
group whose only child is any node, not only a group, so a call without arguments becomes a
variable reference (`zeroArgCall_becomes_variable`); and it desugars a `defun` only when its
parameters are a group, so a malformed one is kept as a call of `defun` and declares nothing
(`malformedDefun_kept`).
-/

/-- An identifier: no syntax token and no number. -/
abbrev IsIdentifier (x : String) : Prop := isSyntaxToken x = false ∧ isNumber x = false

/-- `take_until` reads identifiers one call of `parser` each, up to the `)`. -/
theorem takeUntil_identifiers {xs : List String} (hxs : ∀ x ∈ xs, IsIdentifier x)
    (rest : List String) : ∀ n, xs.length < n →
      takeUntil n (xs ++ ")" :: rest) ")" =
        .ok (xs.map fun x => .node .string1 [.str x], ")" :: rest) := by
  induction xs with
  | nil =>
    rintro (_ | n) hn
    · cases hn
    · simp [takeUntil]
  | cons x xs ih =>
    rintro (_ | _ | n) hn
    · cases hn
    · simp at hn
    · obtain ⟨⟨hsyn, hnum⟩, hxs⟩ := List.forall_mem_cons.1 hxs
      simp only [isSyntaxToken, Bool.or_eq_false_iff, beq_eq_false_iff_ne] at hsyn
      obtain ⟨⟨⟨⟨h1, h2⟩, h3⟩, h4⟩, h5⟩ := hsyn
      rw [List.cons_append, takeUntil, if_neg h2, parser_leaf _ _ h1 h3 h4 h5,
        if_neg (by simp [hnum])]
      simp only [ok_bind, ih hxs (n + 1) (by simp at hn; omega), List.map_cons]
      rfl

/-- A group of identifiers is one form: the group of their `String1` nodes. -/
theorem parseAll_identifierGroup {xs : List String} (hxs : ∀ x ∈ xs, IsIdentifier x) :
    parseAll ("(" :: (xs ++ [")"])) =
      .ok [.node .unknown (xs.map fun x => .node .string1 [.str x])] := by
  unfold parseAll
  rw [parseAllAux.eq_3 _ _ (List.cons_ne_nil _ _), parser,
    takeUntil_identifiers hxs [] _ (by simp; omega)]
  rfl

/-- A call without arguments is not kept as a call: the group `(f)` of an identifier parses to a
group of one identifier, which `flatten_tree` unwraps into the identifier itself, a variable
reference. -/
theorem zeroArgCall_becomes_variable {f : String} (hf : IsIdentifier f) (c : Nat) :
    parseAll ["(", f, ")"] = .ok [.node .unknown [.node .string1 [.str f]]] ∧
    flattenTree (.node .unknown [.node .string1 [.str f]]) c = .ok (.node .string1 [.str f], c) :=
  ⟨@parseAll_identifierGroup [f] (by simpa using hf), by simp [flattenTree]⟩

/-- The call `(g)` of a function without parameters. -/
theorem zeroArgCall_becomes_variable_g :
    IsIdentifier "g" ∧ parseAll ["(", "g", ")"] = .ok [.node .unknown [.node .string1 [.str "g"]]] ∧
    flattenTree (.node .unknown [.node .string1 [.str "g"]]) 1 =
      .ok (.node .string1 [.str "g"], 1) :=
  have hg : IsIdentifier "g" := by decide
  ⟨hg, zeroArgCall_becomes_variable hg 1⟩

/-- A `defun` whose parameters are not a group is kept as a call of a function named `defun`: the
group `(defun f x)` of identifiers parses to itself and `flatten_tree` returns it unchanged. -/
theorem malformedDefun_kept {f x : String} (hf : IsIdentifier f) (hx : IsIdentifier x) (c : Nat) :
    parseAll ["(", "defun", f, x, ")"] = .ok [.node .unknown
      [.node .string1 [.str "defun"], .node .string1 [.str f], .node .string1 [.str x]]] ∧
    flattenTree (.node .unknown
      [.node .string1 [.str "defun"], .node .string1 [.str f], .node .string1 [.str x]]) c =
      .ok (.node .unknown
        [.node .string1 [.str "defun"], .node .string1 [.str f], .node .string1 [.str x]], c) := by
  refine ⟨@parseAll_identifierGroup ["defun", f, x] ?_, ?_⟩
  · simp only [List.mem_cons, List.mem_singleton, List.not_mem_nil, or_false, forall_eq_or_imp,
      forall_eq]
    exact ⟨by decide, hf, hx⟩
  · rw [flattenTree] <;> intros <;> simp_all [flattenList, flattenTree]

/-- The declaration `(defun f x)`: it is kept as a call, and no function is extracted. -/
theorem malformedDefun_kept_f_x :
    IsIdentifier "f" ∧ IsIdentifier "x" ∧
    parseAll ["(", "defun", "f", "x", ")"] = .ok [.node .unknown
      [.node .string1 [.str "defun"], .node .string1 [.str "f"], .node .string1 [.str "x"]]] ∧
    flattenTree (.node .unknown
      [.node .string1 [.str "defun"], .node .string1 [.str "f"], .node .string1 [.str "x"]]) 1 =
      .ok (.node .unknown
        [.node .string1 [.str "defun"], .node .string1 [.str "f"], .node .string1 [.str "x"]], 1) ∧
    extractFunctions "(defun f x)" = .ok [] :=
  have hf : IsIdentifier "f" := by decide
  have hx : IsIdentifier "x" := by decide
  ⟨hf, hx, (malformedDefun_kept hf hx 1).1, (malformedDefun_kept hf hx 1).2, by decide⟩

end LispCompiler
