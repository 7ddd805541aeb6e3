import LispCompiler.Progress

/-!
# The token lists the parser accepts

Which token lists `parse_all` parses, and what it raises on the others, is decided by one pass
over the tokens with a stack of the forms still open (`scanForms`): a group, opened by `(`, or an
operator form, opened by `+`, `-` or `*`, with whether it has an operand yet. A `)` ends the
operator forms above the innermost group, each of which needs an operand, and then closes that
group; at the top level it is an identifier, as `parser` reads a stray `)`. No form may be open at
the end.

`parse_all` returns exactly where the scan does, and raises what the scan raises where it does not
(`parseAll_eq_scanForms`): `IndexError` where the tokens end inside a form, whose `take_until`
leaves nothing for `assert next[0] == ')'`, and `TypeError` where an operator form has no
operand, since `reduce` of an empty list raises. The proof relates one call of `parser` or
`take_until` from any stack of open forms to the scan of the tokens it consumes
(`scanForms_parse`), by induction on the fuel with the inversion of `Progress.lean`; the forms
below the call are never looked at.
-/

namespace LispCompiler

/-- A form that the parser has opened and not yet closed. -/
inductive OpenForm where
  /-- A group, opened by `(` and closed by its `)`. -/
  | group
  /-- An operator form, opened by `+`, `-` or `*`, with whether it has an operand yet. -/
  | operator (hasOperand : Bool)
  deriving DecidableEq, Repr

/-- A node ends: it is an operand of the innermost open form. -/
def addOperand : List OpenForm → List OpenForm
  | .operator _ :: st => .operator true :: st
  | st => st

/-- The forms after a `)` that ends an operator form with an operand: the operator forms above the
innermost group end, each an operand of the next, and that group closes. -/
def closeOperators : List OpenForm → List OpenForm
  | .operator _ :: st => closeOperators st
  | .group :: st => addOperand st
  | [] => []

/-- The forms after a `)`: an operator form with no operand raises, as `reduce` of no operands
does; at the top level the `)` is an identifier. -/
def closeForms : List OpenForm → Except PyError (List OpenForm)
  | [] => pure []
  | .group :: st => pure (addOperand st)
  | .operator false :: _ => .error .typeError
  | .operator true :: st => pure (closeOperators st)

/-- The forms after one token. -/
def scanToken (st : List OpenForm) : String → Except PyError (List OpenForm)
  | "(" => pure (.group :: st)
  | "+" | "-" | "*" => pure (.operator false :: st)
  | ")" => closeForms st
  | _ => pure (addOperand st)

/-- The scan of the tokens from the open forms `st`: no form may be open at the end, where
`take_until` leaves nothing for the assertion that reads its `)`. -/
def scanForms : List OpenForm → List String → Except PyError Unit
  | [], [] => pure ()
  | _ :: _, [] => .error .indexError
  | st, t :: ts => do scanForms (← scanToken st t) ts

/-! ## Steps of the scan -/

@[simp] theorem addOperand_addOperand (st : List OpenForm) :
    addOperand (addOperand st) = addOperand st := by
  rcases st with _ | ⟨_ | _, _⟩ <;> rfl

/-- A `)` after a node ends the innermost operator form with that node as an operand. -/
theorem closeForms_addOperand (st : List OpenForm) :
    closeForms (addOperand st) = pure (closeOperators st) := by
  rcases st with _ | ⟨_ | _, _⟩ <;> rfl

/-- Any token but the five of the syntax is a node. -/
theorem scanToken_other {st : List OpenForm} {t : String} (h1 : t ≠ "(") (h2 : t ≠ "+")
    (h3 : t ≠ "-") (h4 : t ≠ "*") (h5 : t ≠ ")") : scanToken st t = pure (addOperand st) := by
  unfold scanToken
  split <;> simp_all

/-- `take_until` stops at the end of the tokens or at `until`. -/
theorem takeUntil_stops {n : Nat} {ts : List String} {u : String} {es : List AstNode}
    {rest : List String} (h : takeUntil n ts u = .ok (es, rest)) : rest = [] ∨ ∃ r, rest = u :: r := by
  induction n generalizing ts es with
  | zero => cases h
  | succ n ih =>
    rcases takeUntil_eq_ok h with ⟨-, -, rfl⟩ | ⟨r, rfl, -, rfl⟩ | ⟨_, _, _, _, _, -, -, -, hu, -⟩
    · exact .inl rfl
    · exact .inr ⟨r, rfl⟩
    · exact ih hu

/-- A computation that raises no `RecursionError` has no first step that does. -/
theorem ne_error_of_bind {α β : Type} {x : Except PyError α} {g : α → Except PyError β}
    (h : (x >>= g) ≠ .error .recursionError) : x ≠ .error .recursionError :=
  fun hx => h (by rw [hx]; rfl)

/-- An operator form: the scan of its operands from the form, against the form's parse. -/
theorem scanForms_operatorForm {n : Nat} {op : String} {args : List String} {st : List OpenForm}
    (hop : scanToken st op = .ok (.operator false :: st))
    (g : List AstNode → Except PyError AstNode) (hnil : g [] = .error .typeError)
    (hcons : ∀ e es, ∃ t, g (e :: es) = .ok t)
    (ih : scanForms (.operator false :: st) args = takeUntil n args ")" >>= fun (es, rest) =>
      scanForms (if es = [] then .operator false :: st else .operator true :: st) rest) :
    scanForms st (op :: args) =
      (do
        let (es, next) ← takeUntil n args ")"
        expectCloser next
        pure (← g es, next)) >>= fun (_, rest) => scanForms (addOperand st) rest := by
  rw [scanForms.eq_3, hop, ok_bind, ih]
  cases hu : takeUntil n args ")" with
  | error e => rfl
  | ok r =>
    obtain ⟨es, rest⟩ := r
    rcases takeUntil_stops hu with rfl | ⟨r, rfl⟩
    · by_cases hes : es = [] <;> simp [hes, scanForms, expectCloser]
    · rcases es with _ | ⟨e, es⟩
      · simp [scanForms, scanToken, closeForms, expectCloser, hnil]
      · obtain ⟨t, ht⟩ := hcons e es
        simp [scanForms, scanToken, expectCloser, ht, closeForms_addOperand]
        rfl

/-! ## One call of the parser -/

/-- One call of `parser` (on a token other than `)`) or of `take_until` from the open forms `st`
scans the tokens it consumes: after a node, the scan goes on from `st` with that node an operand
of the innermost form, and an exception is the scan's. -/
theorem scanForms_parse (n : Nat) :
    (∀ t ts st, t ≠ ")" → parser n (t :: ts) ≠ .error .recursionError →
      scanForms st (t :: ts) =
        parser n (t :: ts) >>= fun (_, rest) => scanForms (addOperand st) rest) ∧
    (∀ ts st, takeUntil n ts ")" ≠ .error .recursionError →
      scanForms st ts = takeUntil n ts ")" >>= fun (es, rest) =>
        scanForms (if es = [] then st else addOperand st) rest) := by
  induction n with
  | zero => exact ⟨fun _ _ _ _ h => absurd rfl h, fun _ _ h => absurd rfl h⟩
  | succ n ih =>
    refine ⟨fun t ts st ht hne => ?_, fun ts st hne => ?_⟩
    · by_cases h1 : t = "("
      · -- a group: its `take_until`, then its `)`
        subst h1
        rw [parser] at hne ⊢
        have hu := ih.2 ts (.group :: st) (ne_error_of_bind hne)
        simp only [show addOperand (.group :: st) = .group :: st from rfl, ite_self] at hu
        rw [scanForms.eq_3, show scanToken st "(" = .ok (.group :: st) from rfl, ok_bind, hu]
        cases htu : takeUntil n ts ")" with
        | error e => rfl
        | ok r =>
          obtain ⟨es, rest⟩ := r
          rcases takeUntil_stops htu with rfl | ⟨r, rfl⟩ <;> rfl
      by_cases h24 : t = "+" ∨ t = "*"
      · -- a sum or a product: `reduce` of its operands
        rcases h24 with rfl | rfl <;> rw [parser] at hne ⊢ <;>
          exact scanForms_operatorForm (by rfl) _ rfl (fun _ _ => ⟨_, rfl⟩)
            (ih.2 ts _ (ne_error_of_bind hne))
      obtain ⟨h2, h4⟩ := not_or.1 h24
      by_cases h3 : t = "-"
      · subst h3
        rw [parser] at hne ⊢
        exact scanForms_operatorForm (by rfl) (fun es => reduceBinary .add (negateTail es)) rfl
          (fun _ _ => ⟨_, rfl⟩) (ih.2 ts _ (ne_error_of_bind hne))
      · -- a literal or an identifier
        rw [parser_leaf n ts h1 h2 h3 h4, scanForms, scanToken_other h1 h2 h3 h4 ht]
        rfl
    · match ts with
      | [] => rfl
      | t :: ts =>
        unfold takeUntil at hne ⊢
        split
        · subst_vars
          rfl
        · rw [if_neg ‹_›] at hne
          rw [(ih.1 t ts st ‹_› (ne_error_of_bind hne))]
          cases hp : parser n (t :: ts) with
          | error e => rfl
          | ok r =>
            obtain ⟨e, next⟩ := r
            rw [hp] at hne
            have hu := ih.2 next (addOperand st) (ne_error_of_bind hne)
            simp only [ok_bind, addOperand_addOperand, ite_self] at hu ⊢
            rw [hu]
            cases takeUntil n next ")" with
            | error e => rfl
            | ok r => simp

/-- The recursion of `parse_all` is the scan from no open form. -/
theorem scanForms_parseAllAux :
    ∀ fuel ts, ts.length < fuel → scanForms [] ts = parseAllAux fuel ts >>= fun _ => pure ()
  | 0, _, h => absurd h (Nat.not_lt_zero _)
  | _ + 1, [], _ => rfl
  | fuel + 1, t :: ts, h => by
    rw [parseAllAux.eq_3 _ _ (List.cons_ne_nil _ _)]
    have hne := ((parse_enough_fuel _).1 (t :: ts) (Nat.le_refl _)).ne_error
    have hrest : ∀ next, next.length < (t :: ts).length →
        scanForms [] next = parseAllAux fuel next >>= fun _ => pure () := fun next hn =>
      scanForms_parseAllAux fuel next (by simp only [List.length_cons] at h hn; omega)
    by_cases ht : t = ")"
    · -- a stray `)` at the top level is an identifier
      subst ht
      rw [@parser_leaf _ ")" ts (by decide) (by decide) (by decide) (by decide), ok_bind,
        scanForms.eq_3, show scanToken [] ")" = .ok [] from rfl, ok_bind, hrest ts (by simp)]
      cases hp : parseAllAux fuel ts <;> simp [hp]
    · rw [(scanForms_parse _).1 t ts [] ht hne]
      cases hp : parser (2 * (t :: ts).length + 1) (t :: ts) with
      | error e => rfl
      | ok r =>
        obtain ⟨a, next⟩ := r
        simp only [ok_bind, addOperand, hrest next (parser_length_lt hp)]
        cases parseAllAux fuel next <;> rfl

/-- `parse_all` accepts exactly the token lists that the scan of open forms accepts, and raises
what the scan raises on the others: `IndexError` where the tokens end inside a group or an
operator form, and `TypeError` where an operator form ends with no operand. Python's recursion limit
is not modelled for `parser` and `parse_all`: beyond about 1000 top-level forms, or nesting about
500 deep, Python raises `RecursionError` on token lists the scan accepts. -/
theorem parseAll_eq_scanForms (ts : List String) :
    (∀ e, parseAll ts = .error e ↔ scanForms [] ts = .error e) ∧
      ((∃ trees, parseAll ts = .ok trees) ↔ scanForms [] ts = .ok ()) := by
  rw [scanForms_parseAllAux _ ts (Nat.lt_succ_self _)]
  unfold parseAll
  cases parseAllAux (ts.length + 1) ts <;> simp

/-- `(+)` has an operator form with no operand, `(+` ends inside two forms, and `) (x)` starts with
an identifier. -/
example : scanForms [] ["(", "+", ")"] = .error .typeError ∧
    scanForms [] ["(", "+"] = .error .indexError ∧ scanForms [] [")", "(", "x", ")"] = .ok () := by
  decide

end LispCompiler
