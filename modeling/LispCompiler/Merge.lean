import LispCompiler.Completeness
import Mathlib.Data.List.Perm.Subperm

/-!
# Merging a map with an equal one

`FunctionStub.unify_with_other` returns at once when the other map equals the stub's
(`dict.__eq__`), and merges the two with `unify_type_dicts` otherwise. The early return changes
nothing: on maps with distinct keys whose values hold no `None` and are shallower than the fuel,
the merge of a map with an equal one is the map itself (`unifyTypeDicts_of_get?`), so
`unify_with_other` is the merge (`unifyWithOther_eq_merge`). A `None` in a value makes them differ:
`unify_vars` of `None` with itself raises `RuntimeError("Invalid types")`, which the early return
skips.
-/

namespace LispCompiler

mutual
/-- The nesting depth of a type: how deep `unify_vars` recurses on a type and itself. -/
def Ty.depth : Ty → Nat
  | .tuple ts => Ty.depthList ts + 1
  | _ => 0
/-- The largest depth of the elements of a tuple. -/
def Ty.depthList : List Ty → Nat
  | [] => 0
  | t :: ts => max t.depth (Ty.depthList ts)
end

/-- An element of a tuple is no deeper than the deepest. -/
theorem Ty.depth_le_depthList {x : Ty} : ∀ {ts : List Ty}, x ∈ ts → x.depth ≤ Ty.depthList ts
  | t :: ts, h => by
    rw [Ty.depthList]
    rcases List.mem_cons.1 h with rfl | h
    · exact Nat.le_max_left _ _
    · exact Nat.le_trans (depth_le_depthList h) (Nat.le_max_right _ _)

/-- Unifying a type without `None` with itself changes nothing, given fuel for its depth. -/
theorem unifyVars_self : ∀ (fuel : Nat) (t : Ty) (S : Dict), t.noneFree → t.depth < fuel →
    unifyVars fuel t t S = .ok S
  | 0, _, _, _, h => absurd h (Nat.not_lt_zero _)
  | fuel + 1, .atom s, S, _, _ => by simp [unifyVars]
  | fuel + 1, .tuple ts, S, hn, hd => by
    rw [unifyVars]
    have hn' : ∀ x ∈ ts, x.noneFree := by simpa [Ty.noneFree] using hn
    have hd' : Ty.depthList ts < fuel := by simp only [Ty.depth] at hd; omega
    have hts : ∀ x ∈ ts, x.noneFree ∧ x.depth < fuel := fun x hx =>
      ⟨hn' x hx, lt_of_le_of_lt (Ty.depth_le_depthList hx) hd'⟩
    clear hn hd hn' hd'
    induction ts with
    | nil => rfl
    | cons t ts ih =>
      simp only [List.zip_cons_cons, List.foldlM_cons]
      rw [unifyVars_self fuel t S (hts t (List.mem_cons_self _ _)).1
        (hts t (List.mem_cons_self _ _)).2, ok_bind]
      exact ih fun x hx => hts x (List.mem_cons_of_mem _ hx)
  | _ + 1, .none, _, hn, _ => by simp [Ty.noneFree] at hn

/-- A fold whose every step leaves the state `s` as it is returns `s`. -/
theorem foldlM_of_fixed {α σ ε : Type} {f : σ → α → Except ε σ} {s : σ} :
    ∀ {xs : List α}, (∀ x ∈ xs, f s x = .ok s) → xs.foldlM f s = .ok s
  | [], _ => rfl
  | x :: _, h => by
    rw [List.foldlM_cons, h x (List.mem_cons_self _ _), ok_bind]
    exact foldlM_of_fixed fun y hy => h y (List.mem_cons_of_mem _ hy)

/-- The merge of `one` with a map that looks every key up as `one` does is `one`: each key's value
is unified with itself, and `two` has no key that `one` lacks. -/
theorem unifyTypeDicts_of_get? {fuel : Nat} {one two : Dict} (hget : ∀ k, two.get? k = one.get? k)
    (hv : ∀ k v, one.get? k = some v → v.noneFree ∧ v.depth < fuel) :
    unifyTypeDicts fuel one two = .ok one := by
  unfold unifyTypeDicts
  rw [foldlM_of_fixed, ok_bind, foldlM_of_fixed]
  · -- every key of `two` is one of `one`
    rintro ⟨k, w⟩ hk
    obtain ⟨v, hk'⟩ := Dict.get?_of_mem_keys (List.mem_map_of_mem Prod.fst hk)
    simp only [← hget, hk', Option.isSome_some, if_true, pure_eq_ok]
  · -- every key of `one` is unified with itself
    rintro ⟨k, w⟩ hk
    obtain ⟨v, hk'⟩ := Dict.get?_of_mem_keys (List.mem_map_of_mem Prod.fst hk)
    simp only [Dict.getItem, hk', pure_eq_ok, ok_bind, Dict.setItem_of_get? hk', hget]
    exact unifyVars_self fuel v one (hv k v hk').1 (hv k v hk').2

/-- A map with distinct keys that `dict.__eq__` finds equal to another looks every key up as the
other does: its keys are keys of the other, and there are as many. -/
theorem Dict.get?_of_pyEq {d d' : Dict} (hk : (d.map Prod.fst).Nodup) (h : d.pyEq d') (k : Ty) :
    d.get? k = d'.get? k := by
  simp only [Dict.pyEq, Bool.and_eq_true, beq_iff_eq, List.all_eq_true] at h
  obtain ⟨hlen, hall⟩ := h
  cases hd : d.get? k with
  | some v => exact (hall _ (Dict.mem_of_get? hd)).symm
  | none =>
    have hperm : (d.map Prod.fst).Perm (d'.map Prod.fst) :=
      (hk.subperm fun k' hk' => by
        obtain ⟨⟨_, v⟩, hm, rfl⟩ := List.mem_map.1 hk'
        exact List.mem_map_of_mem Prod.fst (Dict.mem_of_get? (hall _ hm))).perm_of_length_le
          (by simp [hlen])
    cases hd' : d'.get? k with
    | none => rfl
    | some w =>
      obtain ⟨v, hv⟩ := Dict.get?_of_mem_keys
        (hperm.mem_iff.2 (List.mem_map_of_mem Prod.fst (Dict.mem_of_get? hd')))
      rw [hd] at hv
      cases hv

/-- The early return of `unify_with_other` is an optimisation. On a stub whose map's values hold no
`None` and are shallower than the fuel, and another map with distinct keys, `unify_with_other`
returns what the merge of the stub's map with the other returns. -/
theorem unifyWithOther_eq_merge {fuel : Nat} {stub : FunctionStub} {other : Dict}
    (hk : (other.map Prod.fst).Nodup)
    (hv : ∀ k v, stub.intermediateTypes.get? k = some v → v.noneFree ∧ v.depth < fuel) :
    unifyWithOther fuel stub other = (unifyTypeDicts fuel stub.intermediateTypes other).map
      fun d => { stub with intermediateTypes := d } := by
  unfold unifyWithOther
  split
  · rw [unifyTypeDicts_of_get? (Dict.get?_of_pyEq hk ‹_›) hv]
    rfl
  · cases unifyTypeDicts fuel stub.intermediateTypes other <;> rfl

/-- The map of a stub of `f` that binds `f` to `(int, Unknown-1)` and `Unknown-1` to `int`. -/
def reorderedTypes : Dict :=
  [(.atom "f", .tuple [.atom "int", .atom "Unknown-1"]), (.atom "Unknown-1", .atom "int")]

/-- A stub with that map. -/
def reorderedStub : FunctionStub :=
  { name := "f", paramsList := [], body := .node .string1 [.str "Unknown-1"],
    intermediateTypes := reorderedTypes }

/-- The stub's map merged with the same map in the other order: `unify_with_other` returns at once,
and the merge returns the stub's map. -/
theorem unifyWithOther_eq_merge_reordered :
    (reorderedTypes.reverse.map Prod.fst).Nodup ∧
      (∀ k v, reorderedStub.intermediateTypes.get? k = some v →
        v.noneFree ∧ v.depth < recursionLimit) ∧
      unifyWithOther recursionLimit reorderedStub reorderedTypes.reverse =
        (unifyTypeDicts recursionLimit reorderedStub.intermediateTypes reorderedTypes.reverse).map
          fun d => { reorderedStub with intermediateTypes := d } := by
  refine ⟨?hk, ?hv, unifyWithOther_eq_merge ?hk ?hv⟩
  · decide
  · intro k v h
    simp only [reorderedStub, reorderedTypes, Dict.get?_cons, Dict.get?_nil] at h
    split_ifs at h <;> cases h <;> decide

end LispCompiler
