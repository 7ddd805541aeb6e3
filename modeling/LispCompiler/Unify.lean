import LispCompiler.Types

/-!
# Unification, merging, and simplification

`unify_vars`, `unify_type_dicts`, `unify_constraints`, `convert_type`, and
`simplify_unification` of `type_inference.py`.

`unify_vars` unifies two tuples pairwise over `zip`, so a longer tuple's extra elements are never
looked at. Otherwise it follows a key to its value, on either side, and binds the non-base side of
two types that are not keys to the other; there is no occurs check, and on a map that binds a
variable to a type containing it the recursion need not end. The model counts the depth of the
recursion with `fuel` and raises `recursionError` when it runs out, where Python reaches its
recursion limit. `unify_vars` mutates its dictionary and returns it; the model returns the new
dictionary.

`simplify_unification` runs ten rounds over the keys in order. In each, every value that is not
base has its atoms that are keys replaced by their values, one level deep, by `Type.set` on the
atom's cell. Python's `set` copies the `type` field, so a cell set from a tuple binding shares that
tuple's list, and a later rewrite of an element through one cell is seen through the other. The
model rewrites each binding's value on its own, so a rewrite reaches another binding that shares
the list only in a later round, and ten rounds may end on other values than Python's. The sharing
matters only when an atom is bound to a tuple that still holds variables and occurs inside another
binding; the front end binds tuples to function names, so this takes a function named like a type
variable (`Unknown-…`), or an invocation type with variables in a nested tuple. `Sharing.lean`
models the objects: on acyclic maps Python's rounds keep every resolution, as these do; on a cyclic
map the shared lists can make a type hold itself, and `is_base_type` recurses until the limit.
-/

namespace LispCompiler

/-- The end of `unify_vars`, for two types that differ and are not keys: two base types raise,
and otherwise the side that is not base is bound to the other, the first when neither is base. -/
def bindVars (one two : Ty) (solutions : Dict) : Except PyError Dict :=
  match one.isBaseType, two.isBaseType with
  | true, true =>
    if one = two then pure solutions
    else .error (.assertionError ("Primitive types don\x27t match " ++ one.repr ++ " != " ++ two.repr))
  | true, false => pure (solutions.setItem two one)
  | false, true => pure (solutions.setItem one two)
  | false, false => pure (solutions.setItem one two)

/-- `unify_vars(one, two, solutions)`, with the recursion depth bounded by `fuel`. -/
def unifyVars : Nat → Ty → Ty → Dict → Except PyError Dict
  | 0, _, _, _ => .error .recursionError
  | fuel + 1, .tuple t1, .tuple t2, solutions =>
    (t1.zip t2).foldlM (fun s (x, y) => unifyVars fuel x y s) solutions
  | fuel + 1, one, two, solutions =>
    if one = .none ∨ two = .none then .error (.runtimeError "Invalid types")
    else if one = two then pure solutions
    else match solutions.get? one with
      | some v => unifyVars fuel v two solutions
      | Option.none => match solutions.get? two with
        | some v => unifyVars fuel one v solutions
        | Option.none => bindVars one two solutions

/-- Python's default recursion limit, the fuel of the runs of the model. -/
def recursionLimit : Nat := 1000

/-- `unify_type_dicts(one, two)`: the keys of `one` with their values, unified with `two`'s value
where `two` has the key; then every key that `one` does not have, with `two`'s value. -/
def unifyTypeDicts (fuel : Nat) (one two : Dict) : Except PyError Dict := do
  let retDict ← one.foldlM (fun retDict (k, _) => do
      let retDict := retDict.setItem k (← retDict.getItem k)
      match two.get? k with
      | some t => unifyVars fuel (← retDict.getItem k) t retDict
      | Option.none => pure (retDict.setItem k (← one.getItem k)))
    one
  two.foldlM (fun retDict (k, _) =>
      if (one.get? k).isSome then pure retDict
      else return retDict.setItem k (← two.getItem k))
    retDict

/-- Merging `{a: b}` with `{a: c, b: int}`: unifying the two values of `a` binds `b` to `c`, and
the loop over `two` then overwrites that binding with `two`'s own value for `b`, so that no binding
relates `c` to `a` any more. -/
theorem unifyTypeDicts_overwrites :
    unifyTypeDicts recursionLimit [(.atom "a", .atom "b")]
      [(.atom "a", .atom "c"), (.atom "b", .atom "int")] =
      .ok [(.atom "a", .atom "b"), (.atom "b", .atom "int")] := by
  decide

/-- `demote_constraint`: a key whose value differs from it becomes that value. -/
def demoteConstraint (unified : Dict) (t : Ty) : Ty :=
  match unified.get? t with
  | some v => if t ≠ v then v else t
  | Option.none => t

mutual
/-- `convert_type(base_t, t, demote_constraint)`: every atom of `t` other than `base_t` demoted;
`None` has no `type` to match on. -/
def convertType (unified : Dict) (baseT : Ty) : Ty → Except PyError Ty
  | .atom s => pure (if .atom s = baseT then .atom s else demoteConstraint unified (.atom s))
  | .tuple ts =>
    if .tuple ts = baseT then pure (.tuple ts) else .tuple <$> convertTypeList unified baseT ts
  | .none => .error .attributeError
/-- `convert_type` on each element of a tuple, left to right. -/
def convertTypeList (unified : Dict) (baseT : Ty) : List Ty → Except PyError (List Ty)
  | [] => pure []
  | t :: ts => return (← convertType unified baseT t) :: (← convertTypeList unified baseT ts)
end

/-- What `convert_type` returns on a tuple: the tuple itself when it is the base type, and otherwise
the tuple of its converted elements. -/
theorem convertType_tuple_eq_ok {d : Dict} {b : Ty} {ts : List Ty} {t' : Ty}
    (h : convertType d b (.tuple ts) = .ok t') :
    t' = .tuple ts ∨ ∃ ts', convertTypeList d b ts = .ok ts' ∧ t' = .tuple ts' := by
  rw [convertType] at h
  split at h
  · cases h
    exact .inl rfl
  · cases hc : convertTypeList d b ts <;> rw [hc] at h <;> cases h
    exact .inr ⟨_, rfl, rfl⟩

/-- One round of `simplify_unification`: each key in order, its value converted unless base. -/
def simplifyRound (unified : Dict) : Except PyError Dict :=
  unified.foldlM (fun d (u, _) => do
      let v ← d.getItem u
      if v.isBaseType then pure d else return d.setItem u (← convertType d u v))
    unified

/-- `rounds` rounds of simplification. -/
def simplifyRounds : Nat → Dict → Except PyError Dict
  | 0, d => pure d
  | n + 1, d => do simplifyRounds n (← simplifyRound d)

/-- `simplify_unification`: ten rounds. -/
def simplifyUnification (unified : Dict) : Except PyError Dict := simplifyRounds 10 unified

/-- `unify_constraints`: each constraint unified in order into an empty map, then simplified. -/
def unifyConstraints (fuel : Nat) (constraints : List TypeConstraint) : Except PyError Dict := do
  let solutions ← constraints.foldlM (fun s ⟨lhs, rhs⟩ => unifyVars fuel lhs rhs s) []
  simplifyUnification solutions

/-! ## Rounds of simplification

Ten rounds end where a round first leaves the map unchanged, which a run reaches in a few rounds.
-/

/-- `m + n` rounds are `m` rounds, then `n` more. -/
theorem simplifyRounds_add (m n : Nat) (d : Dict) :
    simplifyRounds (m + n) d = simplifyRounds m d >>= simplifyRounds n := by
  induction m generalizing d with
  | zero => simp [simplifyRounds]
  | succ m ih =>
    rw [Nat.succ_add]
    simp only [simplifyRounds]
    cases simplifyRound d <;> simp [ih]

/-- A map that one round leaves as it is stays so for any number of rounds. -/
theorem simplifyRounds_of_round_eq {d : Dict} (h : simplifyRound d = .ok d) :
    ∀ n, simplifyRounds n d = .ok d
  | 0 => rfl
  | n + 1 => by simp only [simplifyRounds, h, ok_bind]; exact simplifyRounds_of_round_eq h n

/-- `simplify_unification` ends at the map that `k ≤ 10` rounds reach, once a round leaves that
map unchanged. -/
theorem simplifyUnification_of_round_eq {d d' : Dict} {k : Nat} (hk : k ≤ 10)
    (h : simplifyRounds k d = .ok d') (h' : simplifyRound d' = .ok d') :
    simplifyUnification d = .ok d' := by
  rw [simplifyUnification, ← Nat.add_sub_cancel' hk, simplifyRounds_add, h, ok_bind,
    simplifyRounds_of_round_eq h']

end LispCompiler
