import LispCompiler.Progress

/-!
# The parser keeps every operand

The operands of a program are the strings of its literal and identifier nodes (`literalStrings`).
On balanced tokens (`Balanced`: no `)` closes a group that is not open, and every group is
closed), `parse_all` loses, duplicates and reorders none of them: read left to right they are the
tokens without the parentheses and the operator tokens (`parseAll_keeps_operands`). An operator form is the left fold of the operands it parsed, each
after the first negated for `-`.

The proof follows one call of `parser` and of `take_until` (`parser_eq_ok`, `takeUntil_eq_ok`):
every call that does not start at a `)` consumes a prefix that is balanced from any depth and
whose operand tokens are the operands of what it built (`parse_operands`). A `)` is only ever
consumed by the group it closes, and `take_until` never hands one to `parser`; only `parse_all`
does, at a stray `)` of unbalanced input (`parseAll_stray_closer`).
-/

namespace LispCompiler

/-! ## Operands and balance -/

/-- The tokens that are syntax and not operands: the parentheses and the three operators. -/
def isSyntaxToken (t : String) : Bool :=
  t == "(" || t == ")" || t == "+" || t == "-" || t == "*"

/-- The `str` operands of a list of operands, in order. -/
def strOperands : List AstNode → List String
  | [] => []
  | .str s :: ks => s :: strOperands ks
  | _ :: ks => strOperands ks

mutual
/-- The string operands of the `NumberConstant` and `String1` nodes of a tree, left to right. -/
def AstNode.literalStrings : AstNode → List String
  | .node i ops =>
    if i = .numberConstant ∨ i = .string1 then strOperands ops else AstNode.literalStringsList ops
  | .bare _ k => k.literalStrings
  | .str _ => []
/-- The string operands of the literal nodes of a list of trees, left to right. -/
def AstNode.literalStringsList : List AstNode → List String
  | [] => []
  | k :: ks => k.literalStrings ++ AstNode.literalStringsList ks
end

/-- The depth of open groups after the tokens, from depth `d`; none where a `)` closes no group. -/
def depthAfter : Nat → List String → Option Nat
  | d, [] => some d
  | d, t :: ts =>
    if t = "(" then depthAfter (d + 1) ts
    else if t = ")" then (match d with
      | 0 => none
      | d + 1 => depthAfter d ts)
    else depthAfter d ts

/-- Balanced parentheses: no prefix has more `)` than `(`, and the totals are equal. -/
def Balanced (ts : List String) : Prop := depthAfter 0 ts = some 0

instance (ts : List String) : Decidable (Balanced ts) := inferInstanceAs (Decidable (_ = _))

/-- A `)` that closes no group is parsed as an identifier named `)`: `parse_all` accepts a stray
closer in front of any tokens it parses, although the tokens are then unbalanced. -/
theorem parseAll_stray_closer {ts : List String} {trees : List AstNode}
    (h : parseAll ts = .ok trees) :
    parseAll (")" :: ts) = .ok (.node .string1 [.str ")"] :: trees) ∧ ¬ Balanced (")" :: ts) := by
  refine ⟨?_, by simp [Balanced, depthAfter]⟩
  unfold parseAll at h ⊢
  rw [parseAllAux.eq_3 _ _ (List.cons_ne_nil _ _), parser_leaf _ _ (by decide) (by decide)
    (by decide) (by decide)]
  simp only [show isNumber ")" = false by decide, Bool.false_eq_true, if_false, ok_bind,
    List.length_cons, h]
  rfl

/-- The single token `)`. -/
theorem parseAll_stray_closer_alone :
    parseAll [")"] = .ok [.node .string1 [.str ")"]] ∧ ¬ Balanced [")"] :=
  @parseAll_stray_closer [] _ rfl

/-! ## What one call consumes -/

@[simp] theorem depthAfter_append (d : Nat) (xs ys : List String) :
    depthAfter d (xs ++ ys) = (depthAfter d xs).bind (depthAfter · ys) := by
  induction xs generalizing d with
  | nil => rfl
  | cons x xs ih =>
    simp only [List.cons_append, depthAfter]
    split
    · exact ih _
    · split
      · split <;> simp [ih]
      · exact ih _

@[simp] theorem literalStrings_unknown (es : List AstNode) :
    (AstNode.node .unknown es).literalStrings = AstNode.literalStringsList es := by
  simp [AstNode.literalStrings]

@[simp] theorem literalStringsList_cons (e : AstNode) (es : List AstNode) :
    AstNode.literalStringsList (e :: es) = e.literalStrings ++ AstNode.literalStringsList es := by
  simp [AstNode.literalStringsList]

/-- The binary nodes of an operator form hold their operands' strings in order. -/
theorem literalStrings_foldl {i : Instruction} (hi : i ≠ .numberConstant ∧ i ≠ .string1)
    (e : AstNode) (es : List AstNode) :
    (es.foldl (fun k1 k2 => .node i [k1, k2]) e).literalStrings =
      e.literalStrings ++ AstNode.literalStringsList es := by
  induction es generalizing e with
  | nil => simp [AstNode.literalStringsList]
  | cons e' es ih =>
    rw [List.foldl_cons, ih, AstNode.literalStrings, if_neg (by simpa using hi)]
    simp [AstNode.literalStringsList]

theorem literalStrings_reduceBinary {i : Instruction} (hi : i ≠ .numberConstant ∧ i ≠ .string1)
    {es : List AstNode} {t : AstNode} (h : reduceBinary i es = .ok t) :
    t.literalStrings = AstNode.literalStringsList es := by
  obtain ⟨e, es', rfl, rfl⟩ := reduceBinary_eq_ok h
  rw [literalStrings_foldl hi, literalStringsList_cons]

/-- Negating the operands after the first keeps their strings. -/
theorem literalStringsList_negateTail (es : List AstNode) :
    AstNode.literalStringsList (negateTail es) = AstNode.literalStringsList es := by
  cases es with
  | nil => rfl
  | cons e es =>
    simp only [negateTail, literalStringsList_cons, List.append_cancel_left_eq]
    induction es with
    | nil => rfl
    | cons e' es ih => simp [ih, AstNode.literalStrings]

/-- A call of `parser` that does not start at a `)`, and a call of `take_until` that stops at a
`)`, consume a prefix that is balanced from every depth and whose operand tokens are the operands
of what they built. -/
theorem parse_operands (n : Nat) :
    (∀ {ts t rest}, parser n ts = .ok (t, rest) → ts.head? ≠ some ")" →
      ∃ pre, ts = pre ++ rest ∧ (∀ d, depthAfter d pre = some d) ∧
        t.literalStrings = pre.filter (!isSyntaxToken ·)) ∧
    (∀ {ts es rest}, takeUntil n ts ")" = .ok (es, rest) →
      ∃ pre, ts = pre ++ rest ∧ (∀ d, depthAfter d pre = some d) ∧
        AstNode.literalStringsList es = pre.filter (!isSyntaxToken ·)) := by
  induction n with
  | zero => exact ⟨fun h => (nomatch h), fun h => (nomatch h)⟩
  | succ n ih =>
    refine ⟨fun h hhead => ?_, fun h => ?_⟩
    · rcases parser_eq_ok h with ⟨next, es, rfl, hu, rfl⟩ | ⟨op, args, es, rfl, hu, -, hop⟩ |
          ⟨x, rfl, h1, h2, h3, h4, rfl⟩
      · -- a group, closed by the `)` after its members
        obtain ⟨pre, rfl, hd, hops⟩ := ih.2 hu
        refine ⟨"(" :: (pre ++ [")"]), by simp, fun d => ?_, ?_⟩
        · simp [depthAfter, hd]
        · simp [hops, List.filter_append, isSyntaxToken]
      · -- an operator form, whose `)` is left to the group
        obtain ⟨pre, rfl, hd, hops⟩ := ih.2 hu
        have hsyn : isSyntaxToken op = true ∧ op ≠ "(" ∧ op ≠ ")" := by
          rcases hop with ⟨rfl, -⟩ | ⟨rfl, -⟩ | ⟨rfl, -⟩ <;> decide
        refine ⟨op :: pre, rfl, fun d => by simp [depthAfter, hsyn.2, hd], ?_⟩
        rw [List.filter_cons_of_neg (by simp [hsyn.1]), ← hops]
        rcases hop with ⟨-, hr⟩ | ⟨-, hr⟩ | ⟨-, hr⟩
        · exact literalStrings_reduceBinary (by decide) hr
        · rw [literalStrings_reduceBinary (by decide) hr, literalStringsList_negateTail]
        · exact literalStrings_reduceBinary (by decide) hr
      · -- a literal or an identifier, which is not a `)`
        have h5 : x ≠ ")" := fun hx => hhead (by simp [hx])
        have hx : isSyntaxToken x = false := by simp [isSyntaxToken, h1, h2, h3, h4, h5]
        refine ⟨[x], rfl, fun d => by simp [depthAfter, h1, h5], ?_⟩
        split <;> simp [AstNode.literalStrings, strOperands, hx]
    · rcases takeUntil_eq_ok h with ⟨rfl, rfl, rfl⟩ | ⟨r, rfl, rfl, rfl⟩ |
          ⟨t, ts', e, es', next, rfl, ht, hp, hu, rfl⟩
      · exact ⟨[], rfl, fun _ => rfl, rfl⟩
      · exact ⟨[], rfl, fun _ => rfl, rfl⟩
      · obtain ⟨pre, hpre, hd, hops⟩ := ih.1 hp (by simpa using ht)
        obtain ⟨pre', rfl, hd', hops'⟩ := ih.2 hu
        refine ⟨pre ++ pre', by rw [hpre, List.append_assoc], fun d => by simp [hd, hd'], ?_⟩
        rw [literalStringsList_cons, hops, hops', List.filter_append]

/-- On balanced tokens no top-level form starts at a `)`, so each consumes a balanced prefix and
leaves balanced tokens, and the forms hold the operand tokens in order. -/
theorem parseAllAux_literalStrings :
    ∀ fuel {ts trees}, Balanced ts → parseAllAux fuel ts = .ok trees →
      AstNode.literalStringsList trees = ts.filter (!isSyntaxToken ·)
  | 0, _, _, _, h => nomatch h
  | fuel + 1, ts, _, hb, h => by
    rcases parseAllAux_eq_ok h with ⟨rfl, rfl⟩ | ⟨a, next, trees', hp, hrest, rfl⟩
    · rfl
    have hhead : ts.head? ≠ some ")" := by
      rcases ts with _ | ⟨_, _⟩ <;> rintro ⟨⟩
      simp [Balanced, depthAfter] at hb
    obtain ⟨pre, hpre, hd, hops⟩ := (parse_operands _).1 hp hhead
    have hnext : Balanced next := by
      simpa [Balanced, hpre, hd] using hb
    rw [literalStringsList_cons, hops, parseAllAux_literalStrings fuel hnext hrest, hpre,
      List.filter_append]

/-- The parser loses, duplicates and reorders no operand: on balanced tokens the strings of the
literal and identifier nodes of `parse_all`'s trees are the tokens without parentheses and
operators, and an operator form is the left fold of its parsed operands, with every operand after
the first negated for `-`. -/
theorem parseAll_keeps_operands :
    (∀ ts trees, Balanced ts → parseAll ts = .ok trees →
      AstNode.literalStringsList trees = ts.filter (fun t => !isSyntaxToken t)) ∧
    (∀ fuel rest t next, parser (fuel + 1) ("+" :: rest) = .ok (t, next) →
      ∃ e es, takeUntil fuel rest ")" = .ok (e :: es, next) ∧
        t = es.foldl (fun k1 k2 => .node .add [k1, k2]) e) ∧
    (∀ fuel rest t next, parser (fuel + 1) ("-" :: rest) = .ok (t, next) →
      ∃ e es, takeUntil fuel rest ")" = .ok (e :: es, next) ∧
        t = (es.map (.bare .negate)).foldl (fun k1 k2 => .node .add [k1, k2]) e) ∧
    (∀ fuel rest t next, parser (fuel + 1) ("*" :: rest) = .ok (t, next) →
      ∃ e es, takeUntil fuel rest ")" = .ok (e :: es, next) ∧
        t = es.foldl (fun k1 k2 => .node .mult [k1, k2]) e) := by
  refine ⟨fun ts _ hb h => parseAllAux_literalStrings _ hb h, fun _ _ _ _ h => ?_,
    fun _ _ _ _ h => ?_, fun _ _ _ _ h => ?_⟩
  · obtain ⟨es, hu, ⟨-, hr⟩ | ⟨h', -⟩ | ⟨h', -⟩⟩ := parser_operator_eq_ok h (by decide)
    · obtain ⟨e, es', rfl, rfl⟩ := reduceBinary_eq_ok hr
      exact ⟨e, es', hu, rfl⟩
    all_goals exact absurd h' (by decide)
  · obtain ⟨es, hu, ⟨h', -⟩ | ⟨-, hr⟩ | ⟨h', -⟩⟩ := parser_operator_eq_ok h (by decide)
    · exact absurd h' (by decide)
    · obtain ⟨e, es', hes, rfl⟩ := reduceBinary_eq_ok hr
      obtain ⟨es₀, rfl, rfl⟩ := negateTail_eq_cons hes
      exact ⟨e, es₀, hu, rfl⟩
    · exact absurd h' (by decide)
  · obtain ⟨es, hu, ⟨h', -⟩ | ⟨h', -⟩ | ⟨-, hr⟩⟩ := parser_operator_eq_ok h (by decide)
    · exact absurd h' (by decide)
    · exact absurd h' (by decide)
    · obtain ⟨e, es', rfl, rfl⟩ := reduceBinary_eq_ok hr
      exact ⟨e, es', hu, rfl⟩

/-- The tokens of `(- 5 2)`: the difference is the sum of `5` and the negated `2`, and its operands
are the two numbers. -/
theorem parseAll_keeps_operands_difference :
    Balanced ["(", "-", "5", "2", ")"] ∧
    parseAll ["(", "-", "5", "2", ")"] = .ok [.node .unknown [.node .add
      [.node .numberConstant [.str "5"], .bare .negate (.node .numberConstant [.str "2"])]]] ∧
    AstNode.literalStringsList [.node .unknown [.node .add
      [.node .numberConstant [.str "5"], .bare .negate (.node .numberConstant [.str "2"])]]] =
      ["(", "-", "5", "2", ")"].filter (fun t => !isSyntaxToken t) :=
  ⟨by decide, by decide, parseAll_keeps_operands.1 _ _ (by decide) (by decide)⟩

end LispCompiler
