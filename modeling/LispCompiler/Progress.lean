import LispCompiler.Parser

/-!
# The parser consumes its input

`parser` and `take_until` recurse on a fuel argument in the model (`Parser.lean`). What one call of
each does when it returns is stated once (`parser_eq_ok`, `takeUntil_eq_ok`), and every property of
parse trees below is derived from those two lemmas by induction on the fuel. Every run of `parser`
that returns has consumed at least one token, and every run of `take_until` a prefix of its tokens
(`parse_consumes`). So `2 n + 1` calls suffice for a parse of `n` tokens (`parse_enough_fuel`), and
`parse_all`, which gives that much, never runs out of fuel: the recursion of the source terminates
on every token list (`parser_progress`). More fuel than that changes nothing
(`parser_fuel_independent`), so the fuel is a device of the model and not a bound of the source.

Python's recursion limit of 1000 frames is not modelled for `parser` and `parse_all`, unlike for
`unify_vars`, whose fuel is that limit. `parse_all` recurses once per top-level form and `parser`
with `take_until` twice per level of nesting, so about 1000 top-level forms, or parentheses nested
about 500 deep, raise `RecursionError` in Python where the model parses.
-/

namespace LispCompiler

/-! ## One call of `parser` and of `take_until` -/

/-- `assert next[0] == ')'` passes exactly on a list that starts with `)`. -/
theorem expectCloser_eq_ok {ts : List String} {u : Unit} (h : expectCloser ts = .ok u) :
    ∃ r, ts = ")" :: r := by
  unfold expectCloser at h
  split at h
  · cases h
  · split at h
    · subst_vars
      exact ⟨_, rfl⟩
    · cases h

/-- The three operator forms of `parser`: the operands up to a `)` that is left for the enclosing
group, folded by `f`. -/
theorem operatorForm_eq_ok {n : Nat} {args : List String}
    (f : List AstNode → Except PyError AstNode) {t : AstNode} {rest : List String}
    (h : (do
      let (es, next) ← takeUntil n args ")"
      expectCloser next
      pure (← f es, next)) = Except.ok (t, rest)) :
    ∃ es, takeUntil n args ")" = .ok (es, rest) ∧ (∃ r, rest = ")" :: r) ∧ f es = .ok t := by
  obtain ⟨⟨es, next⟩, hu, h⟩ := bind_eq_ok.1 h
  obtain ⟨_, hc, h⟩ := bind_eq_ok.1 h
  obtain ⟨t', hf, h⟩ := bind_eq_ok.1 h
  cases h
  exact ⟨es, hu, expectCloser_eq_ok hc, hf⟩

/-- What a call of `parser` that returns did: a group closed by `)`, an operator form whose
operands end at a `)` that it leaves, or a literal or an identifier. -/
theorem parser_eq_ok {n : Nat} {ts : List String} {t : AstNode} {rest : List String}
    (h : parser (n + 1) ts = .ok (t, rest)) :
    (∃ next es, ts = "(" :: next ∧ takeUntil n next ")" = .ok (es, ")" :: rest) ∧
      t = .node .unknown es) ∨
    (∃ op args es, ts = op :: args ∧ takeUntil n args ")" = .ok (es, rest) ∧
      (∃ r, rest = ")" :: r) ∧
      (op = "+" ∧ reduceBinary .add es = .ok t ∨
        op = "-" ∧ reduceBinary .add (negateTail es) = .ok t ∨
        op = "*" ∧ reduceBinary .mult es = .ok t)) ∨
    (∃ x, ts = x :: rest ∧ x ≠ "(" ∧ x ≠ "+" ∧ x ≠ "-" ∧ x ≠ "*" ∧
      t = if isNumber x then .node .numberConstant [.str x] else .node .string1 [.str x]) := by
  unfold parser at h
  split at h
  · cases h
  all_goals obtain rfl := Nat.succ.inj ‹_ = _›
  case h_2 =>
    obtain ⟨⟨es, next⟩, hu, h⟩ := bind_eq_ok.1 h
    obtain ⟨_, hc, h⟩ := bind_eq_ok.1 h
    obtain ⟨r, rfl⟩ := expectCloser_eq_ok hc
    cases h
    exact .inl ⟨_, es, rfl, hu, rfl⟩
  case h_3 =>
    obtain ⟨es, hu, hr, hf⟩ := operatorForm_eq_ok _ h
    exact .inr (.inl ⟨_, _, es, rfl, hu, hr, .inl ⟨rfl, hf⟩⟩)
  case h_4 =>
    obtain ⟨es, hu, hr, hf⟩ := operatorForm_eq_ok (fun es => reduceBinary .add (negateTail es)) h
    exact .inr (.inl ⟨_, _, es, rfl, hu, hr, .inr (.inl ⟨rfl, hf⟩)⟩)
  case h_5 =>
    obtain ⟨es, hu, hr, hf⟩ := operatorForm_eq_ok _ h
    exact .inr (.inl ⟨_, _, es, rfl, hu, hr, .inr (.inr ⟨rfl, hf⟩)⟩)
  case h_6 x rest' h1 h2 h3 h4 _ =>
    refine .inr (.inr ⟨x, ?_⟩)
    split at h <;> cases h
    · exact ⟨rfl, h1, h2, h3, h4, (if_pos ‹_›).symm⟩
    · exact ⟨rfl, h1, h2, h3, h4, (if_neg ‹_›).symm⟩
  case h_7 => cases h

/-- Every other token is a literal or an identifier, a `)` included. -/
theorem parser_leaf (n : Nat) {x : String} (rest : List String) (h1 : x ≠ "(") (h2 : x ≠ "+")
    (h3 : x ≠ "-") (h4 : x ≠ "*") :
    parser (n + 1) (x :: rest) = .ok (if isNumber x then .node .numberConstant [.str x]
      else .node .string1 [.str x], rest) := by
  rw [parser.eq_6 n x rest h1 h2 h3 h4]
  split <;> rfl

/-- What a call of `take_until` that returns did: it stopped at the end of the tokens or at
`until`, or it parsed one node and went on. -/
theorem takeUntil_eq_ok {n : Nat} {ts : List String} {u : String} {es : List AstNode}
    {rest : List String} (h : takeUntil (n + 1) ts u = .ok (es, rest)) :
    (ts = [] ∧ es = [] ∧ rest = []) ∨
    (∃ r, ts = u :: r ∧ es = [] ∧ rest = ts) ∨
    (∃ t ts' e es' next, ts = t :: ts' ∧ t ≠ u ∧ parser n (t :: ts') = .ok (e, next) ∧
      takeUntil n next u = .ok (es', rest) ∧ es = e :: es') := by
  match ts with
  | [] =>
    cases h
    exact .inl ⟨rfl, rfl, rfl⟩
  | t :: ts' =>
    unfold takeUntil at h
    split at h
    · cases h
      exact .inr (.inl ⟨ts', by subst_vars; rfl, rfl, rfl⟩)
    · obtain ⟨⟨e, next⟩, hp, h⟩ := bind_eq_ok.1 h
      obtain ⟨⟨es', rest'⟩, hu, h⟩ := bind_eq_ok.1 h
      cases h
      exact .inr (.inr ⟨t, ts', e, es', next, rfl, ‹_›, hp, hu, rfl⟩)

/-- `reduce` over binary nodes returns exactly on a nonempty list, and returns the left fold. -/
theorem reduceBinary_eq_ok {i : Instruction} {es : List AstNode} {t : AstNode}
    (h : reduceBinary i es = .ok t) :
    ∃ e es', es = e :: es' ∧ t = es'.foldl (fun k1 k2 => .node i [k1, k2]) e := by
  cases es with
  | nil => cases h
  | cons e es' => cases h; exact ⟨e, es', rfl, rfl⟩

/-- An operator form's node is the fold of the operands it parsed up to the `)`. -/
theorem parser_operator_eq_ok {n : Nat} {op : String} {args next : List String} {t : AstNode}
    (h : parser (n + 1) (op :: args) = .ok (t, next)) (hop : op = "+" ∨ op = "-" ∨ op = "*") :
    ∃ es, takeUntil n args ")" = .ok (es, next) ∧
      (op = "+" ∧ reduceBinary .add es = .ok t ∨
        op = "-" ∧ reduceBinary .add (negateTail es) = .ok t ∨
        op = "*" ∧ reduceBinary .mult es = .ok t) := by
  rcases parser_eq_ok h with ⟨_, _, h1, -⟩ | ⟨_, _, es, h1, hu, -, hr⟩ | ⟨_, h1, -, h2, h3, h4, -⟩
  · obtain ⟨rfl, -⟩ := List.cons.inj h1
    rcases hop with h | h | h <;> exact absurd h (by decide)
  · obtain ⟨rfl, rfl⟩ := List.cons.inj h1
    exact ⟨es, hu, hr⟩
  · obtain ⟨rfl, -⟩ := List.cons.inj h1
    rcases hop with h | h | h <;> contradiction

theorem negateTail_eq_cons {es : List AstNode} {e : AstNode} {es' : List AstNode}
    (h : negateTail es = e :: es') : ∃ es₀, es = e :: es₀ ∧ es' = es₀.map (.bare .negate) := by
  cases es with
  | nil => cases h
  | cons e₀ es₀ =>
    obtain ⟨rfl, rfl⟩ := List.cons.inj h
    exact ⟨es₀, rfl, rfl⟩

/-- What a call of `parse_all` that returns did: nothing on no tokens, or one parse and the rest. -/
theorem parseAllAux_eq_ok {fuel : Nat} {ts : List String} {trees : List AstNode}
    (h : parseAllAux (fuel + 1) ts = .ok trees) :
    (ts = [] ∧ trees = []) ∨ ∃ t next trees', parser (2 * ts.length + 1) ts = .ok (t, next) ∧
      parseAllAux fuel next = .ok trees' ∧ trees = t :: trees' := by
  match ts with
  | [] =>
    cases h
    exact .inl ⟨rfl, rfl⟩
  | t :: ts =>
    rw [parseAllAux.eq_3 _ _ (List.cons_ne_nil _ _)] at h
    obtain ⟨⟨a, next⟩, hp, h⟩ := bind_eq_ok.1 h
    obtain ⟨trees', hrest, h⟩ := bind_eq_ok.1 h
    cases h
    exact .inr ⟨a, next, trees', hp, hrest, rfl⟩

/-! ## Progress -/

/-- Every call that returns consumed tokens: `parser` at least one, `take_until` a prefix. -/
theorem parse_consumes (n : Nat) :
    (∀ {ts t rest}, parser n ts = .ok (t, rest) → ∃ pre, pre ≠ [] ∧ ts = pre ++ rest) ∧
    (∀ {ts u es rest}, takeUntil n ts u = .ok (es, rest) → ∃ pre, ts = pre ++ rest) := by
  induction n with
  | zero => exact ⟨fun h => (nomatch h), fun h => (nomatch h)⟩
  | succ n ih =>
    refine ⟨fun h => ?_, fun h => ?_⟩
    · rcases parser_eq_ok h with ⟨next, es, rfl, hu, -⟩ | ⟨op, args, es, rfl, hu, -⟩ | ⟨x, rfl, -⟩
      · obtain ⟨pre, hpre⟩ := ih.2 hu
        exact ⟨"(" :: (pre ++ [")"]), List.cons_ne_nil _ _, by simp [hpre]⟩
      · obtain ⟨pre, hpre⟩ := ih.2 hu
        exact ⟨op :: pre, List.cons_ne_nil _ _, by rw [hpre]; rfl⟩
      · exact ⟨[x], List.cons_ne_nil _ _, rfl⟩
    · rcases takeUntil_eq_ok h with ⟨rfl, -, rfl⟩ | ⟨r, -, -, rfl⟩ |
          ⟨t, ts', e, es', next, rfl, -, hp, hu, -⟩
      · exact ⟨[], rfl⟩
      · exact ⟨[], rfl⟩
      · obtain ⟨pre, -, hpre⟩ := ih.1 hp
        obtain ⟨pre', hpre'⟩ := ih.2 hu
        exact ⟨pre ++ pre', by rw [hpre, hpre', List.append_assoc]⟩

/-- A call of `parser` that returns leaves fewer tokens than it was given. -/
theorem parser_length_lt {n : Nat} {ts : List String} {t : AstNode} {next : List String}
    (h : parser n ts = .ok (t, next)) : next.length < ts.length := by
  obtain ⟨pre, hpre, rfl⟩ := (parse_consumes n).1 h
  have := List.length_pos.2 hpre
  simp only [List.length_append]
  omega

/-! ## Enough fuel -/

/-- A computation that raises no `RecursionError`: the model's fuel did not run out. -/
abbrev NoRecursionError {α : Type} (x : Except PyError α) : Prop :=
  Outcome (· ≠ PyError.recursionError) (fun _ => True) x

theorem NoRecursionError.ne_error {α : Type} {x : Except PyError α} (h : NoRecursionError x) :
    x ≠ .error .recursionError := by
  rintro rfl
  exact outcome_error.1 h rfl

theorem expectCloser_noRecursionError (ts : List String) : NoRecursionError (expectCloser ts) := by
  unfold expectCloser
  split
  · exact .error PyError.noConfusion
  · split
    · exact .ok trivial
    · exact .error PyError.noConfusion

theorem reduceBinary_noRecursionError (i : Instruction) (es : List AstNode) :
    NoRecursionError (reduceBinary i es) := by
  cases es
  · exact .error PyError.noConfusion
  · exact .ok trivial

/-- The operator forms run out of fuel only where their `take_until` does. -/
theorem operatorForm_noRecursionError {n : Nat} {args : List String}
    (f : List AstNode → Except PyError AstNode) (hf : ∀ es, NoRecursionError (f es))
    (hu : NoRecursionError (takeUntil n args ")")) :
    NoRecursionError (do
      let (es, next) ← takeUntil n args ")"
      expectCloser next
      pure (← f es, next)) :=
  hu.bind fun _ _ => (expectCloser_noRecursionError _).bind fun _ _ =>
    (hf _).bind fun _ _ => .ok trivial

/-- With `2 n + 1` fuel for `n` tokens `parser` does not run out, and with `2 n + 2` neither does
`take_until`: each call consumes tokens, so the fuel never reaches zero. -/
theorem parse_enough_fuel (n : Nat) :
    (∀ ts, 2 * ts.length + 1 ≤ n → NoRecursionError (parser n ts)) ∧
    (∀ ts u, 2 * ts.length + 2 ≤ n → NoRecursionError (takeUntil n ts u)) := by
  induction n with
  | zero => exact ⟨fun _ h => absurd h (by omega), fun _ _ h => absurd h (by omega)⟩
  | succ n ih =>
    refine ⟨fun ts hn => ?_, fun ts u hn => ?_⟩
    · unfold parser
      split
      · cases ‹_ + 1 = 0›
      all_goals obtain rfl := Nat.succ.inj ‹_ = _›
      case h_2 =>
        exact (ih.2 _ ")" (by simp at hn; omega)).bind fun ⟨_, _⟩ _ =>
          (expectCloser_noRecursionError _).bind fun _ _ => .ok trivial
      case h_3 =>
        exact operatorForm_noRecursionError _ (reduceBinary_noRecursionError _)
          (ih.2 _ ")" (by simp at hn; omega))
      case h_4 =>
        exact operatorForm_noRecursionError (fun es => reduceBinary .add (negateTail es))
          (fun _ => reduceBinary_noRecursionError _ _) (ih.2 _ ")" (by simp at hn; omega))
      case h_5 =>
        exact operatorForm_noRecursionError _ (reduceBinary_noRecursionError _)
          (ih.2 _ ")" (by simp at hn; omega))
      case h_6 => split <;> exact .ok trivial
      case h_7 => exact .error PyError.noConfusion
    · match ts with
      | [] => exact .ok trivial
      | t :: ts =>
        unfold takeUntil
        split
        · exact .ok trivial
        · simp only [List.length_cons] at hn
          refine ((ih.1 (t :: ts) (by simp; omega)).and_ok fun _ h => parser_length_lt h).bind
            fun ⟨_, next⟩ ⟨_, hlt⟩ => ?_
          simp only [List.length_cons] at hlt
          exact (ih.2 next u (by omega)).bind fun _ _ => .ok trivial

/-- A call that does not run out of fuel returns the same with one more. -/
theorem parse_fuel_succ (n : Nat) :
    (∀ ts, parser n ts ≠ .error .recursionError → parser (n + 1) ts = parser n ts) ∧
    (∀ ts u, takeUntil n ts u ≠ .error .recursionError →
      takeUntil (n + 1) ts u = takeUntil n ts u) := by
  induction n with
  | zero => exact ⟨fun _ h => absurd rfl h, fun _ _ h => absurd rfl h⟩
  | succ n ih =>
    refine ⟨fun ts h => ?_, fun ts u h => ?_⟩
    · unfold parser
      split
      · cases ‹n + 1 + 1 = 0›
      all_goals obtain rfl := Nat.succ.inj ‹_ = _›
      case h_6 => rfl
      case h_7 => rfl
      -- a group or an operator form: its call of take_until has one more fuel
      all_goals rw [parser] at h; exact bind_eq_of_ne_error (ih.2 _ _) (fun _ _ => rfl) h
    · match ts with
      | [] => rfl
      | t :: ts =>
        unfold takeUntil at h ⊢
        split
        · rfl
        · rw [if_neg ‹_›] at h
          exact bind_eq_of_ne_error (ih.1 _)
            (fun _ h' => bind_eq_of_ne_error (ih.2 _ _) (fun _ _ => rfl) h') h

theorem parser_fuel_le {n m : Nat} {ts : List String} (hnm : n ≤ m)
    (h : parser n ts ≠ .error .recursionError) : parser m ts = parser n ts := by
  induction hnm with
  | refl => rfl
  | step _ ih => rw [(parse_fuel_succ _).1 _ (ih ▸ h), ih]

/-- The parse does not depend on the fuel once there is enough: with `2 n + 1` or more for `n`
tokens, `parser` returns what it returns with exactly that much. -/
theorem parser_fuel_independent {fuel : Nat} {ts : List String} (h : 2 * ts.length + 1 ≤ fuel) :
    parser fuel ts = parser (2 * ts.length + 1) ts :=
  parser_fuel_le h ((parse_enough_fuel _).1 ts (Nat.le_refl _)).ne_error

/-- `parse_all` gives `parser` and itself enough fuel: it never runs out. -/
theorem parseAllAux_noRecursionError :
    ∀ fuel ts, ts.length < fuel → NoRecursionError (parseAllAux fuel ts)
  | 0, _, h => absurd h (Nat.not_lt_zero _)
  | _ + 1, [], _ => .ok trivial
  | fuel + 1, t :: ts, h => by
    rw [parseAllAux.eq_3 _ _ (List.cons_ne_nil _ _)]
    refine (((parse_enough_fuel _).1 _ (Nat.le_refl _)).and_ok
      fun _ h => parser_length_lt h).bind fun ⟨_, next⟩ ⟨_, hlt⟩ => ?_
    simp only [List.length_cons] at h hlt
    exact (parseAllAux_noRecursionError fuel next (by omega)).bind fun _ _ => .ok trivial

/-- The parser always makes progress: a call of `parser` that returns leaves a strict suffix of its
tokens, a call of `take_until` a suffix, and so `parser` with `2 n + 1` fuel for `n` tokens, and
`parse_all` on any tokens, never run out of fuel. Python's recursion limit is not modelled here: on
about 1000 top-level forms, or nesting about 500 deep, Python raises `RecursionError`. -/
theorem parser_progress :
    (∀ fuel ts t rest, parser fuel ts = .ok (t, rest) → ∃ pre, pre ≠ [] ∧ ts = pre ++ rest) ∧
    (∀ fuel ts es rest, takeUntil fuel ts ")" = .ok (es, rest) → ∃ pre, ts = pre ++ rest) ∧
    (∀ fuel ts, 2 * ts.length + 1 ≤ fuel → parser fuel ts ≠ .error .recursionError) ∧
    (∀ ts, parseAll ts ≠ .error .recursionError) :=
  ⟨fun n _ _ _ h => (parse_consumes n).1 h, fun n _ _ _ h => (parse_consumes n).2 h,
    fun n ts h => ((parse_enough_fuel n).1 ts h).ne_error,
    fun ts => (parseAllAux_noRecursionError _ ts (Nat.lt_succ_self _)).ne_error⟩

/-- On the tokens of `(- 5 2) x` the group is one call, which consumes its five tokens. -/
theorem parser_progress_difference :
    parser 13 ["(", "-", "5", "2", ")", "x"] = .ok (.node .unknown [.node .add
      [.node .numberConstant [.str "5"], .bare .negate (.node .numberConstant [.str "2"])]],
      ["x"]) ∧
    ∃ pre, pre ≠ [] ∧ ["(", "-", "5", "2", ")", "x"] = pre ++ ["x"] := by
  refine ⟨?h, parser_progress.1 13 _ _ _ ?h⟩
  decide

end LispCompiler
