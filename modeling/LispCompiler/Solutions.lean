import LispCompiler.Unify

/-!
# Solutions of type maps

What the maps of type inference mean. A solution `θ` gives a type to every name that is not a base
type, and leaves the base types `int`, `float`, and `void` as they are. It satisfies a map when it
makes every key equal to its value, and it equates two types when their substitutions are equal.

`unify_vars` unifies two tuples over `zip`, so what its result guarantees is equality up to the
truncation of `zip` (`Ty.ZipEq`): two tuples agree at the positions they share. With that caveat it
is a unifier that keeps everything a solution could need: the map it returns is the given one with
bindings appended, every solution of it solves the given map and equates the two types up to `zip`,
and every solution of the given map that equates the two types solves it. When no `None` is
involved, it raises nothing but `RecursionError`. It binds the non-base side to the other without
an occurs check, so a new key may be a tuple, and a variable may be bound to a type that holds it.
-/

namespace LispCompiler

namespace Ty

mutual
/-- `t` with every atom that is not a base type replaced by its value under `θ`. -/
def subst (θ : String → Ty) : Ty → Ty
  | .atom s => if isBaseName s then .atom s else θ s
  | .tuple ts => .tuple (substList θ ts)
  | .none => .none
/-- `subst` on each type of a list. -/
def substList (θ : String → Ty) : List Ty → List Ty
  | [] => []
  | t :: ts => subst θ t :: substList θ ts
end

@[simp] theorem substList_eq_map (θ : String → Ty) (ts : List Ty) :
    substList θ ts = ts.map (subst θ) := by
  induction ts with
  | nil => rfl
  | cons t ts ih => simp [substList, ih]

@[simp] theorem subst_tuple (θ : String → Ty) (ts : List Ty) :
    (tuple ts).subst θ = .tuple (ts.map (subst θ)) := by
  simp [subst]

@[simp] theorem subst_none (θ : String → Ty) : Ty.none.subst θ = .none := rfl

mutual
/-- `t` holds no `None`. -/
def noneFree : Ty → Bool
  | .atom _ => true
  | .tuple ts => noneFreeList ts
  | .none => false
/-- No type of the list holds `None`. -/
def noneFreeList : List Ty → Bool
  | [] => true
  | t :: ts => noneFree t && noneFreeList ts
end

@[simp] theorem noneFreeList_eq_all (ts : List Ty) : noneFreeList ts = ts.all noneFree := by
  induction ts with
  | nil => rfl
  | cons t ts ih => simp [noneFreeList, ih]

mutual
/-- Equality up to `zip`: two tuples agree at the positions they share, and any other two types
are equal. -/
def ZipEq : Ty → Ty → Prop
  | .tuple ts, .tuple us => ZipEqList ts us
  | a, b => a = b
/-- `ZipEq` at the positions two lists share. -/
def ZipEqList : List Ty → List Ty → Prop
  | t :: ts, u :: us => ZipEq t u ∧ ZipEqList ts us
  | _, _ => True
end

mutual
theorem ZipEq.refl : (t : Ty) → ZipEq t t
  | .atom _ | .none => by simp [ZipEq]
  | .tuple ts => by simpa [ZipEq] using ZipEqList.refl ts
theorem ZipEqList.refl : (ts : List Ty) → ZipEqList ts ts
  | [] => by simp [ZipEqList]
  | t :: ts => ⟨ZipEq.refl t, ZipEqList.refl ts⟩
end

/-- Equal types are equal up to `zip`. -/
theorem ZipEq.of_eq {a b : Ty} (h : a = b) : ZipEq a b := h ▸ ZipEq.refl a

mutual
/-- A base type is its own substitution. -/
theorem subst_of_isBaseType (θ : String → Ty) : ∀ {t : Ty}, t.isBaseType → t.subst θ = t
  | .atom s, h => by simp_all [subst, isBaseType]
  | .tuple ts, h => by
    simpa [isBaseType] using substList_of_isBaseType θ (by simpa [isBaseType] using h)
  | .none, _ => rfl
/-- `subst_of_isBaseType` on lists. -/
theorem substList_of_isBaseType (θ : String → Ty) : ∀ {ts : List Ty},
    ts.all isBaseType → ts.map (subst θ) = ts
  | [], _ => rfl
  | t :: ts, h => by
    simp only [List.all_cons, Bool.and_eq_true] at h
    simp [subst_of_isBaseType θ h.1, substList_of_isBaseType θ (by simpa using h.2)]
end

end Ty

namespace Dict

/-- `θ` solves every binding of `d`: each key equals its value under `θ`. -/
def Satisfies (θ : String → Ty) (d : Dict) : Prop :=
  ∀ e ∈ d, e.1.subst θ = e.2.subst θ

instance (θ : String → Ty) (d : Dict) : Decidable (Satisfies θ d) :=
  inferInstanceAs (Decidable (∀ e ∈ d, _))

/-- The substitution that reads each name's value in `d` and leaves a name that is no key as it
is: for a map whose values are base types, the solution that the map states. -/
def lookupSubst (d : Dict) (s : String) : Ty := (d.get? (.atom s)).getD (.atom s)

/-- No value of `d` holds `None`. -/
def valuesNoneFree (d : Dict) : Bool := d.all fun (_, v) => v.noneFree

@[simp] theorem satisfies_nil (θ : String → Ty) : Satisfies θ [] := by simp [Satisfies]

@[simp] theorem satisfies_append (θ : String → Ty) (d d' : Dict) :
    Satisfies θ (d ++ d') ↔ Satisfies θ d ∧ Satisfies θ d' := by
  simp only [Satisfies, List.mem_append]
  exact ⟨fun h => ⟨fun e he => h e (.inl he), fun e he => h e (.inr he)⟩,
    fun h e he => he.elim (h.1 e) (h.2 e)⟩

@[simp] theorem satisfies_singleton (θ : String → Ty) (k v : Ty) :
    Satisfies θ [(k, v)] ↔ k.subst θ = v.subst θ := by
  simp [Satisfies]

/-- A value found for a key is equal to it under every solution. -/
theorem Satisfies.get? {θ : String → Ty} {d : Dict} (h : Satisfies θ d) {k v : Ty}
    (hk : d.get? k = some v) : k.subst θ = v.subst θ :=
  h _ (mem_of_get? hk)

/-- A value found in a map without `None` values holds no `None`. -/
theorem valuesNoneFree_get? {d : Dict} (hd : d.valuesNoneFree) {k v : Ty} (h : d.get? k = some v) :
    v.noneFree := by
  simp only [valuesNoneFree, List.all_eq_true] at hd
  exact hd _ (mem_of_get? h)

@[simp] theorem valuesNoneFree_append (d d' : Dict) :
    valuesNoneFree (d ++ d') = (valuesNoneFree d && valuesNoneFree d') := by
  simp [valuesNoneFree]

@[simp] theorem valuesNoneFree_singleton (k v : Ty) : valuesNoneFree [(k, v)] = v.noneFree := by
  simp [valuesNoneFree]

/-- A solution of `d` that equates `k` and `v` solves `d[k] = v`. -/
theorem Satisfies.setItem {θ : String → Ty} {d : Dict} (h : Satisfies θ d) {k v : Ty}
    (hkv : k.subst θ = v.subst θ) : Satisfies θ (d.setItem k v) := fun e he =>
  (mem_setItem he).elim (h e) (fun he => he ▸ hkv)

end Dict

/-! ## Unification -/

/-- What `bind_vars` does when it returns: keep the map for two equal base types, or bind the
non-base side to the other. -/
theorem bindVars_eq_ok {one two : Ty} {S S' : Dict} (h : bindVars one two S = .ok S') :
    (one = two ∧ S' = S) ∨ (two.isBaseType = false ∧ S' = S.setItem two one) ∨
      (one.isBaseType = false ∧ S' = S.setItem one two) := by
  unfold bindVars at h
  split at h
  · split at h
    · simp only [pure_eq_ok, Except.ok.injEq] at h
      exact .inl ⟨‹_›, h.symm⟩
    · cases h
  all_goals simp only [pure_eq_ok, Except.ok.injEq] at h
  · exact .inr (.inl ⟨‹_›, h.symm⟩)
  · exact .inr (.inr ⟨‹_›, h.symm⟩)
  · exact .inr (.inr ⟨‹_›, h.symm⟩)

/-- `unify_vars` only appends bindings, each of a type that is not base. -/
theorem unifyVars_extends {fuel : Nat} {a b : Ty} {S S' : Dict}
    (h : unifyVars fuel a b S = .ok S') :
    ∃ new, S' = S ++ new ∧ ∀ e ∈ new, e.1.isBaseType = false := by
  induction fuel, a, b, S using unifyVars.induct generalizing S' with
  | case1 => simp [unifyVars] at h
  | case2 fuel t1 t2 S ih =>
    rw [unifyVars] at h
    refine foldlM_rel (fun s s' => ∃ new, s' = s ++ new ∧ ∀ e ∈ new, e.1.isBaseType = false)
      (fun s => ⟨[], by simp, by simp⟩) ?_ (fun ⟨x, y⟩ _ s s' hx => ih s x y hx) h
    rintro s₁ s₂ s₃ ⟨n₁, rfl, h₁⟩ ⟨n₂, rfl, h₂⟩
    exact ⟨n₁ ++ n₂, by simp, fun e he => (List.mem_append.1 he).elim (h₁ e) (h₂ e)⟩
  | case3 fuel one two S hnt hn =>
    rw [unifyVars.eq_3 _ _ _ _ hnt] at h
    simp [hn] at h
  | case4 fuel two S hnt hn =>
    rw [unifyVars.eq_3 _ _ _ _ hnt] at h
    simp only [hn, if_false, if_true, pure_eq_ok, Except.ok.injEq] at h
    exact ⟨[], by simp [h], by simp⟩
  | case5 fuel one two S hnt hn hne v hv ih =>
    rw [unifyVars.eq_3 _ _ _ _ hnt] at h
    simp only [hn, hne, hv, if_false] at h
    exact ih h
  | case6 fuel one two S hnt hn hne h1 v hv ih =>
    rw [unifyVars.eq_3 _ _ _ _ hnt] at h
    simp only [hn, hne, h1, hv, if_false] at h
    exact ih h
  | case7 fuel one two S hnt hn hne h1 h2 =>
    rw [unifyVars.eq_3 _ _ _ _ hnt] at h
    simp only [hn, hne, h1, h2, if_false] at h
    rcases bindVars_eq_ok h with ⟨heq, -⟩ | ⟨hb, rfl⟩ | ⟨hb, rfl⟩
    · exact absurd heq hne
    · exact ⟨[(two, one)], Dict.setItem_of_get?_eq_none _ h2, by simpa using hb⟩
    · exact ⟨[(one, two)], Dict.setItem_of_get?_eq_none _ h1, by simpa using hb⟩

/-- A fold of unifications appends bindings. -/
theorem foldUnify_extends {f : Dict → Ty × Ty → Except PyError Dict} {fuel : Nat}
    (hf : ∀ s p s', f s p = .ok s' → unifyVars fuel p.1 p.2 s = .ok s') {ps : List (Ty × Ty)}
    {s s' : Dict} (h : ps.foldlM f s = .ok s') : ∃ new, s' = s ++ new :=
  foldlM_rel (fun s s' => ∃ new, s' = s ++ new) (fun s => ⟨[], by simp⟩)
    (fun _ _ _ ⟨n₁, h₁⟩ ⟨n₂, h₂⟩ => ⟨n₁ ++ n₂, by simp [h₁, h₂]⟩)
    (fun p _ s s' hp => (unifyVars_extends (hf s p s' hp)).imp fun _ h => h.1) h

section Soundness

variable {θ : String → Ty}

/-- The pairs that a fold of sound unifications over `zip` met are equal up to `zip` under every
solution of its result. -/
private theorem foldUnify_sound {f : Dict → Ty × Ty → Except PyError Dict} {fuel : Nat}
    (hf : ∀ s p s', f s p = .ok s' → unifyVars fuel p.1 p.2 s = .ok s')
    (ih : ∀ s x y {s'}, unifyVars fuel x y s = .ok s' → s'.Satisfies θ →
      (x.subst θ).ZipEq (y.subst θ)) :
    ∀ (t1 t2 : List Ty) {s s' : Dict}, (t1.zip t2).foldlM f s = .ok s' → s'.Satisfies θ →
      Ty.ZipEqList (t1.map (Ty.subst θ)) (t2.map (Ty.subst θ))
  | [], _, _, _, _, _ => by simp [Ty.ZipEqList]
  | _ :: _, [], _, _, _, _ => by simp [Ty.ZipEqList]
  | x :: t1, y :: t2, s, s', h, hθ => by
    simp only [List.zip_cons_cons, List.foldlM_cons, bind_eq_ok] at h
    obtain ⟨s₁, h₁, h₂⟩ := h
    obtain ⟨new, rfl⟩ := foldUnify_extends hf h₂
    exact ⟨ih s x y (hf _ _ _ h₁) ((Dict.satisfies_append θ _ _).1 hθ).1,
      foldUnify_sound hf ih t1 t2 h₂ hθ⟩

/-- Every solution of the map that `unify_vars` returns equates the two types up to `zip`. -/
theorem unifyVars_zipEq {fuel : Nat} {a b : Ty} {S S' : Dict} (h : unifyVars fuel a b S = .ok S')
    (hθ : S'.Satisfies θ) : (a.subst θ).ZipEq (b.subst θ) := by
  induction fuel, a, b, S using unifyVars.induct generalizing S' with
  | case1 => simp [unifyVars] at h
  | case2 fuel t1 t2 S ih =>
    rw [unifyVars] at h
    simpa [Ty.ZipEq] using foldUnify_sound (fun _ _ _ h => h) (fun s x y _ h hθ => ih s x y h hθ)
      t1 t2 h hθ
  | case3 fuel one two S hnt hn =>
    rw [unifyVars.eq_3 _ _ _ _ hnt] at h
    simp [hn] at h
  | case4 => exact Ty.ZipEq.refl _
  | case5 fuel one two S hnt hn hne v hv ih =>
    rw [unifyVars.eq_3 _ _ _ _ hnt] at h
    simp only [hn, hne, hv, if_false] at h
    obtain ⟨new, rfl, -⟩ := unifyVars_extends h
    rw [(((Dict.satisfies_append θ _ _).1 hθ).1).get? hv]
    exact ih h hθ
  | case6 fuel one two S hnt hn hne h1 v hv ih =>
    rw [unifyVars.eq_3 _ _ _ _ hnt] at h
    simp only [hn, hne, h1, hv, if_false] at h
    obtain ⟨new, rfl, -⟩ := unifyVars_extends h
    rw [(((Dict.satisfies_append θ _ _).1 hθ).1).get? hv]
    exact ih h hθ
  | case7 fuel one two S hnt hn hne h1 h2 =>
    rw [unifyVars.eq_3 _ _ _ _ hnt] at h
    simp only [hn, hne, h1, h2, if_false] at h
    rcases bindVars_eq_ok h with ⟨heq, -⟩ | ⟨-, rfl⟩ | ⟨-, rfl⟩
    · exact absurd heq hne
    · rw [Dict.setItem_of_get?_eq_none _ h2, Dict.satisfies_append, Dict.satisfies_singleton] at hθ
      exact Ty.ZipEq.of_eq hθ.2.symm
    · rw [Dict.setItem_of_get?_eq_none _ h1, Dict.satisfies_append, Dict.satisfies_singleton] at hθ
      exact Ty.ZipEq.of_eq hθ.2

/-- Every solution of the map that `unify_vars` returns solves the given map and equates the two
types up to `zip`. -/
theorem unifyVars_sound {fuel : Nat} {a b : Ty} {S S' : Dict} (h : unifyVars fuel a b S = .ok S')
    (hθ : S'.Satisfies θ) : S.Satisfies θ ∧ (a.subst θ).ZipEq (b.subst θ) := by
  obtain ⟨new, rfl, -⟩ := unifyVars_extends h
  exact ⟨((Dict.satisfies_append θ _ _).1 hθ).1, unifyVars_zipEq h hθ⟩

end Soundness

section Completeness

variable {θ : String → Ty}

/-- A fold over `zip` of unifications that raise nothing but `RecursionError` on types a solution
equates raises nothing else on two tuples that the solution equates, and that solution solves its
result. -/
private theorem foldUnify_complete {f : Dict → Ty × Ty → Except PyError Dict} {fuel : Nat}
    (hf : ∀ s p, f s p = unifyVars fuel p.1 p.2 s)
    (ih : ∀ s x y, s.Satisfies θ → x.subst θ = y.subst θ → x.noneFree → y.noneFree →
      s.valuesNoneFree → unifyVars fuel x y s = .error .recursionError ∨
        ∃ s', unifyVars fuel x y s = .ok s' ∧ s'.Satisfies θ ∧ s'.valuesNoneFree) :
    ∀ (t1 t2 : List Ty) {s : Dict}, s.Satisfies θ → t1.map (Ty.subst θ) = t2.map (Ty.subst θ) →
      t1.all Ty.noneFree → t2.all Ty.noneFree → s.valuesNoneFree →
      (t1.zip t2).foldlM f s = .error .recursionError ∨
        ∃ s', (t1.zip t2).foldlM f s = .ok s' ∧ s'.Satisfies θ ∧ s'.valuesNoneFree
  | [], _, s, hs, _, _, _, hv => .inr ⟨s, rfl, hs, hv⟩
  | _ :: _, [], _, _, heq, _, _, _ => by simp at heq
  | x :: t1, y :: t2, s, hs, heq, hn1, hn2, hv => by
    simp only [List.map_cons, List.cons.injEq] at heq
    simp only [List.all_cons, Bool.and_eq_true] at hn1 hn2
    rw [List.zip_cons_cons, List.foldlM_cons, hf]
    rcases ih s x y hs heq.1 hn1.1 hn2.1 hv with he | ⟨s₁, h₁, hs₁, hv₁⟩
    · exact .inl (by rw [he]; rfl)
    · rw [h₁, ok_bind]
      exact foldUnify_complete hf ih t1 t2 hs₁ heq.2 hn1.2 hn2.2 hv₁

/-- On two types without `None` that a solution of the map equates, `unify_vars` raises nothing
but `RecursionError`, and that solution solves the map it returns. -/
theorem unifyVars_complete {fuel : Nat} {a b : Ty} {S : Dict} (hS : S.Satisfies θ)
    (hab : a.subst θ = b.subst θ) (ha : a.noneFree) (hb : b.noneFree) (hv : S.valuesNoneFree) :
    unifyVars fuel a b S = .error .recursionError ∨
      ∃ S', unifyVars fuel a b S = .ok S' ∧ S'.Satisfies θ ∧ S'.valuesNoneFree := by
  induction fuel, a, b, S using unifyVars.induct with
  | case1 => exact .inl rfl
  | case2 fuel t1 t2 S ih =>
    rw [unifyVars]
    simp only [Ty.subst_tuple, Ty.tuple.injEq] at hab
    exact foldUnify_complete (fun _ _ => rfl) ih t1 t2 hS hab (by simpa [Ty.noneFree] using ha)
      (by simpa [Ty.noneFree] using hb) hv
  | case3 fuel one two S hnt hn => rcases hn with rfl | rfl <;> simp [Ty.noneFree] at ha hb
  | case4 fuel two S hnt hn =>
    rw [unifyVars.eq_3 _ _ _ _ hnt]
    simp only [hn, if_false, if_true, pure_eq_ok]
    exact .inr ⟨S, rfl, hS, hv⟩
  | case5 fuel one two S hnt hn hne v hv' ih =>
    rw [unifyVars.eq_3 _ _ _ _ hnt]
    simp only [hn, hne, hv', if_false]
    exact ih hS ((hS.get? hv').symm.trans hab) (Dict.valuesNoneFree_get? hv hv') hb hv
  | case6 fuel one two S hnt hn hne h1 v hv' ih =>
    rw [unifyVars.eq_3 _ _ _ _ hnt]
    simp only [hn, hne, h1, hv', if_false]
    exact ih hS (hab.trans (hS.get? hv')) ha (Dict.valuesNoneFree_get? hv hv') hv
  | case7 fuel one two S hnt hn hne h1 h2 =>
    rw [unifyVars.eq_3 _ _ _ _ hnt]
    simp only [hn, hne, h1, h2, if_false]
    -- the side that is not base is bound; two base types would be equal
    have bind₁ : S.setItem one two = S ++ [(one, two)] := Dict.setItem_of_get?_eq_none _ h1
    have bind₂ : S.setItem two one = S ++ [(two, one)] := Dict.setItem_of_get?_eq_none _ h2
    unfold bindVars
    cases h1b : one.isBaseType <;> cases h2b : two.isBaseType
    · exact .inr ⟨_, rfl, by simp [bind₁, hS, hab], by simp [bind₁, hv, hb]⟩
    · exact .inr ⟨_, rfl, by simp [bind₁, hS, hab], by simp [bind₁, hv, hb]⟩
    · exact .inr ⟨_, rfl, by simp [bind₂, hS, hab], by simp [bind₂, hv, ha]⟩
    · rw [Ty.subst_of_isBaseType θ h1b, Ty.subst_of_isBaseType θ h2b] at hab
      exact absurd hab hne

end Completeness

/-! ## Termination

`unify_vars` follows keys with no occurs check, so on a map with a cycle of keys it recurses until
Python's recursion limit. Under a solution `θ` of the map that equates the two types it returns
once the budget is large enough: a step from two tuples to a pair of their elements lowers the size
of `θ`'s image, and a step from a key to its value keeps that image and lowers a rank of the keys
(`Dict.Ranked`), which every binding it adds keeps (`Dict.Ranked.append`).
-/

mutual
/-- The atoms of a type, left to right. -/
def Ty.atoms : Ty → List String
  | .atom a => [a]
  | .tuple ts => Ty.atomsList ts
  | .none => []
/-- The atoms of a list of types, left to right. -/
def Ty.atomsList : List Ty → List String
  | [] => []
  | t :: ts => t.atoms ++ Ty.atomsList ts
end

/-- The bindings are acyclic: a rank of the atoms decreases from each key to every key among the
atoms of its value. -/
def Dict.Acyclic (S : Dict) : Prop :=
  ∃ rank : String → Nat, ∀ a v, S.get? (.atom a) = some v →
    ∀ b ∈ v.atoms, (S.get? (.atom b)).isSome → rank b < rank a


namespace Dict

/-- `r` ranks the chains of keys of `S`: a key bound to another key has the higher rank. -/
def Ranked (S : Dict) (r : Ty → Nat) : Prop :=
  ∀ k v, S.get? k = some v → (S.get? v).isSome → r v < r k

/-- How far a chain of keys may still go from `t`: one more than its rank for a key, and `0` for a
type that is no key. -/
def keyRank (S : Dict) (r : Ty → Nat) (t : Ty) : Nat :=
  if (S.get? t).isSome then r t + 1 else 0

/-- A key's value is lower in the chain than the key. -/
theorem Ranked.keyRank_lt {S : Dict} {r : Ty → Nat} (h : S.Ranked r) {k v : Ty}
    (hk : S.get? k = some v) : S.keyRank r v < S.keyRank r k := by
  unfold keyRank
  rw [hk]
  split
  · exact Nat.succ_lt_succ (h k v hk ‹_›)
  · exact Nat.succ_pos _

/-- A key of appended entries is found after the map's own. -/
theorem get?_append (S S' : Dict) (t : Ty) : (S ++ S').get? t = (S.get? t).or (S'.get? t) := by
  induction S with
  | nil => rfl
  | cons e S ih =>
    obtain ⟨k', v'⟩ := e
    simp only [List.cons_append, get?_cons]
    split
    · rfl
    · exact ih

/-- Binding a type that is no key to a different one that is no key keeps the chains ranked, under
the rank that puts the new key lowest. -/
theorem Ranked.append {S : Dict} {r : Ty → Nat} (h : S.Ranked r) {k v : Ty}
    (hk : S.get? k = Option.none) (hv : S.get? v = Option.none) (hne : k ≠ v) :
    (S ++ [(k, v)]).Ranked fun t => if t = k then 0 else r t + 1 := by
  intro k' v' h' hs
  rw [get?_append] at h' hs
  cases hk' : S.get? k' with
  | none =>
    -- the new key, whose value is no key
    rw [hk', Option.none_or, get?_cons] at h'
    split at h'
    · cases h'
      rw [hv, Option.none_or, get?_cons, if_neg hne] at hs
      cases hs
    · cases h'
  | some w =>
    rw [hk'] at h'
    cases h'
    have hk'k : k' ≠ k := fun e => by rw [e, hk] at hk'; cases hk'
    simp only [hk'k, if_false]
    split
    · exact Nat.succ_pos _
    · rename_i hv'k
      rw [get?_cons, if_neg (Ne.symm hv'k), get?_nil, Option.or_none] at hs
      exact Nat.succ_lt_succ (h k' v' hk' hs)

/-- An acyclic map whose keys are atoms ranks its chains of keys. -/
theorem Acyclic.ranked {S : Dict} (hkeys : ∀ e ∈ S, ∃ a, e.1 = .atom a) (h : S.Acyclic) :
    ∃ r, S.Ranked r := by
  obtain ⟨rank, hrank⟩ := h
  refine ⟨fun t => match t with | .atom a => rank a | _ => 0, fun k v hk hv => ?_⟩
  obtain ⟨a, rfl⟩ := hkeys _ (mem_of_get? hk)
  obtain ⟨w, hw⟩ := Option.isSome_iff_exists.1 hv
  obtain ⟨b, rfl⟩ := hkeys _ (mem_of_get? hw)
  exact hrank a _ hk b (by simp [Ty.atoms]) hv

/-- A map is acyclic when no atom of a value is a key. -/
theorem acyclic_of_values_free {S : Dict}
    (h : ∀ e ∈ S, ∀ b ∈ e.2.atoms, S.get? (.atom b) = none) : S.Acyclic :=
  ⟨fun _ => 0, fun _ v hv b hb hk => by
    rw [h _ (mem_of_get? hv) b hb] at hk
    cases hk⟩

/-- A map is acyclic when a rank of the atoms falls from the atoms of each key to every key among
the atoms of its value. -/
theorem acyclic_of_rank {S : Dict} (rank : String → Nat)
    (h : ∀ e ∈ S, ∀ a ∈ e.1.atoms, ∀ b ∈ e.2.atoms, (S.get? (.atom b)).isSome → rank b < rank a) :
    S.Acyclic :=
  ⟨rank, fun a _ hv b hb hk => h _ (mem_of_get? hv) a (List.mem_singleton_self a) b hb hk⟩

end Dict

section Termination

variable {θ : String → Ty}

/-- The image of an element of a tuple is smaller than the image of the tuple. -/
theorem sizeOf_subst_lt {ts : List Ty} {x : Ty} (hx : x ∈ ts) :
    sizeOf (x.subst θ) < sizeOf ((Ty.tuple ts).subst θ) := by
  have := List.sizeOf_lt_of_mem (List.mem_map_of_mem (Ty.subst θ) hx)
  simp only [Ty.subst_tuple, Ty.tuple.sizeOf_spec]
  omega

/-- What a run of `unify_vars` under `θ` keeps of its map. -/
def Dict.Solved (θ : String → Ty) (S : Dict) : Prop :=
  S.Satisfies θ ∧ S.valuesNoneFree ∧ ∃ r, S.Ranked r

/-- A fold over `zip` of unifications, each of which returns one map for every budget above a bound
on a pair of elements that `θ` equates, does so on two lists that `θ` equates. -/
private theorem foldUnify_returns {f : Nat → Dict → Ty × Ty → Except PyError Dict}
    (hf : ∀ m s p, f m s p = unifyVars m p.1 p.2 s) {Q : Ty → Prop}
    (ih : ∀ s x y, Q x → s.Solved θ → x.subst θ = y.subst θ → x.noneFree → y.noneFree →
      ∃ s', s'.Solved θ ∧ ∃ n, ∀ m ≥ n, unifyVars m x y s = .ok s') :
    ∀ (t1 t2 : List Ty) {s : Dict}, (∀ x ∈ t1, Q x) → s.Solved θ →
      t1.map (Ty.subst θ) = t2.map (Ty.subst θ) → t1.all Ty.noneFree → t2.all Ty.noneFree →
      ∃ s', s'.Solved θ ∧ ∃ n, ∀ m ≥ n, (t1.zip t2).foldlM (f m) s = .ok s'
  | [], _, s, _, hs, _, _, _ => ⟨s, hs, 0, fun _ _ => rfl⟩
  | _ :: _, [], _, _, _, heq, _, _ => by simp at heq
  | x :: t1, y :: t2, s, hQ, hs, heq, hn1, hn2 => by
    simp only [List.map_cons, List.cons.injEq] at heq
    simp only [List.all_cons, Bool.and_eq_true] at hn1 hn2
    obtain ⟨s₁, hs₁, n₁, h₁⟩ := ih s x y (hQ x (List.mem_cons_self _ _)) hs heq.1 hn1.1 hn2.1
    obtain ⟨s₂, hs₂, n₂, h₂⟩ := foldUnify_returns hf ih t1 t2
      (fun x hx => hQ x (List.mem_cons_of_mem _ hx)) hs₁ heq.2 hn1.2 hn2.2
    refine ⟨s₂, hs₂, max n₁ n₂, fun m hm => ?_⟩
    rw [List.zip_cons_cons, List.foldlM_cons, hf, h₁ m (Nat.le_trans (Nat.le_max_left _ _) hm),
      ok_bind]
    exact h₂ m (Nat.le_trans (Nat.le_max_right _ _) hm)

/-- `unify_vars` at a budget above `n`, on two types that are not both tuples, neither `None`, and
different: one step into `unify_vars` at a budget above `n - 1`. -/
private theorem unifyVars_succ_of_le {n fuel : Nat} {a b : Ty} (S : Dict)
    (hnt : ∀ t1 t2, a = .tuple t1 → b = .tuple t2 → False) (hf : n + 1 ≤ fuel) :
    ∃ m, n ≤ m ∧ unifyVars fuel a b S =
      if a = .none ∨ b = .none then .error (.runtimeError "Invalid types")
      else if a = b then pure S
      else match S.get? a with
        | some v => unifyVars m v b S
        | Option.none => match S.get? b with
          | some v => unifyVars m a v S
          | Option.none => bindVars a b S := by
  obtain ⟨m, rfl⟩ : ∃ m, fuel = m + 1 := ⟨fuel - 1, by omega⟩
  exact ⟨m, by omega, unifyVars.eq_3 _ _ _ _ hnt⟩

/-- On a map that `θ` solves, whose values hold no `None` and whose chains of keys are ranked, and
two types without `None` that `θ` equates, `unify_vars` returns one map for every budget above some
bound, and `θ` solves it. -/
theorem unifyVars_returns {S : Dict} {a b : Ty} (hS : S.Solved θ) (hab : a.subst θ = b.subst θ)
    (ha : a.noneFree) (hb : b.noneFree) :
    ∃ S', S'.Solved θ ∧ ∃ n, ∀ fuel ≥ n, unifyVars fuel a b S = .ok S' := by
  -- by the size of `θ`'s image, then by how far the two types are from leaving the chains of keys
  generalize hN : sizeOf (a.subst θ) = N
  induction N using Nat.strongRecOn generalizing a b S with
  | ind N ihN =>
  obtain ⟨hsat, hnf, r, hr⟩ := hS
  generalize hM : S.keyRank r a + S.keyRank r b = M
  induction M using Nat.strongRecOn generalizing a b with
  | ind M ihM =>
  by_cases htup : ∃ t1 t2, a = .tuple t1 ∧ b = .tuple t2
  · -- two tuples: their elements, pair by pair
    obtain ⟨t1, t2, rfl, rfl⟩ := htup
    simp only [Ty.subst_tuple, Ty.tuple.injEq] at hab
    obtain ⟨S', hS', n, h⟩ := foldUnify_returns (fun _ _ _ => rfl)
      (fun s x y hx hs hxy hx' hy' => ihN _ (hN ▸ hx) hs hxy hx' hy' rfl) t1 t2
      (fun x hx => sizeOf_subst_lt hx) ⟨hsat, hnf, r, hr⟩ hab (by simpa [Ty.noneFree] using ha)
      (by simpa [Ty.noneFree] using hb)
    refine ⟨S', hS', n + 1, fun fuel hf => ?_⟩
    obtain ⟨m, rfl⟩ : ∃ m, fuel = m + 1 := ⟨fuel - 1, by omega⟩
    exact h m (by omega)
  have hnt : ∀ t1 t2, a = .tuple t1 → b = .tuple t2 → False :=
    fun t1 t2 h1 h2 => htup ⟨t1, t2, h1, h2⟩
  have hn : ¬(a = .none ∨ b = .none) := by rintro (rfl | rfl) <;> simp [Ty.noneFree] at ha hb
  by_cases hab' : a = b
  · refine ⟨S, ⟨hsat, hnf, r, hr⟩, 1, fun fuel hf => ?_⟩
    obtain ⟨m, -, h⟩ := unifyVars_succ_of_le S hnt hf
    rw [h, if_neg hn, if_pos hab']
    rfl
  cases h1 : S.get? a with
  | some v =>
    -- the left side is a key: its value, lower in the chain
    have hlt := hr.keyRank_lt h1
    obtain ⟨S', hS', n, h⟩ := ihM _ (by omega) ((hsat.get? h1).symm.trans hab)
      (Dict.valuesNoneFree_get? hnf h1) hb (by rw [← hN, hsat.get? h1]) rfl
    refine ⟨S', hS', n + 1, fun fuel hf => ?_⟩
    obtain ⟨m, hm, h'⟩ := unifyVars_succ_of_le S hnt hf
    simp only [h', hn, hab', h1, if_false]
    exact h m hm
  | none =>
  cases h2 : S.get? b with
  | some v =>
    -- the right side is a key: its value, lower in the chain
    have hlt := hr.keyRank_lt h2
    obtain ⟨S', hS', n, h⟩ := ihM _ (by omega) (hab.trans (hsat.get? h2))
      ha (Dict.valuesNoneFree_get? hnf h2) hN rfl
    refine ⟨S', hS', n + 1, fun fuel hf => ?_⟩
    obtain ⟨m, hm, h'⟩ := unifyVars_succ_of_le S hnt hf
    simp only [h', hn, hab', h1, h2, if_false]
    exact h m hm
  | none =>
  -- neither is a key: the side that is not base is bound; two base types would be equal
  have bind : ∀ k v, S.get? k = Option.none → S.get? v = Option.none → k ≠ v →
      k.subst θ = v.subst θ → v.noneFree → ∃ S', S'.Solved θ ∧ S' = S.setItem k v :=
    fun k v hk hv hne hkv hvn => ⟨_, ⟨by simp [Dict.setItem_of_get?_eq_none _ hk, hsat, hkv],
      by simp [Dict.setItem_of_get?_eq_none _ hk, hnf, hvn], _,
      Dict.setItem_of_get?_eq_none v hk ▸ hr.append hk hv hne⟩, rfl⟩
  have hbind : ∃ S', S'.Solved θ ∧ bindVars a b S = .ok S' := by
    unfold bindVars
    cases h1b : a.isBaseType
    · obtain ⟨S', hS', rfl⟩ := bind a b h1 h2 hab' hab hb
      cases b.isBaseType <;> exact ⟨_, hS', rfl⟩
    cases h2b : b.isBaseType
    · obtain ⟨S', hS', rfl⟩ := bind b a h2 h1 (Ne.symm hab') hab.symm ha
      exact ⟨_, hS', rfl⟩
    · rw [Ty.subst_of_isBaseType θ h1b, Ty.subst_of_isBaseType θ h2b] at hab
      exact absurd hab hab'
  obtain ⟨S', hS', hb'⟩ := hbind
  refine ⟨S', hS', 1, fun fuel hf => ?_⟩
  obtain ⟨m, -, h'⟩ := unifyVars_succ_of_le S hnt hf
  simp only [h', hn, hab', h1, h2, if_false]
  exact hb'

end Termination

/-- What `unify_vars` computes, and where it falls short of a most general unifier. When it returns
a map, that map is the given one with bindings appended, each of a type that is not base, and
every solution of it solves the given map and equates the two types up to the truncation of `zip`.
On an acyclic map whose keys are atoms, with no `None` in the two types or the map's values, a
solution of the map that equates the two types makes `unify_vars` return one map for every
recursion budget above some bound, and solves that map. But it returns on types that no
substitution equates: `(a, b)` and `(c)` unify by binding `a` to `c`, over `zip`, and `a` and
`(a, int)` unify with no occurs check; and `(a)` meeting `b` binds the tuple `(a)` as a key. -/
theorem unifyVars_solutions :
    (∀ fuel a b S S', unifyVars fuel a b S = .ok S' →
      (∃ new, S' = S ++ new ∧ ∀ e ∈ new, e.1.isBaseType = false) ∧
      ∀ θ, S'.Satisfies θ → S.Satisfies θ ∧ (a.subst θ).ZipEq (b.subst θ)) ∧
    (∀ (a b : Ty) (S : Dict) (θ : String → Ty), (∀ e ∈ S, ∃ x, e.1 = .atom x) → S.Acyclic →
      a.noneFree → b.noneFree → S.valuesNoneFree → S.Satisfies θ → a.subst θ = b.subst θ →
      ∃ S', S'.Satisfies θ ∧ ∃ bound, ∀ fuel ≥ bound, unifyVars fuel a b S = .ok S') ∧
    (∀ θ, (Ty.tuple [.atom "a", .atom "b"]).subst θ ≠ (Ty.tuple [.atom "c"]).subst θ) ∧
    unifyVars recursionLimit (.tuple [.atom "a", .atom "b"]) (.tuple [.atom "c"]) [] =
      .ok [(.atom "a", .atom "c")] ∧
    (∀ θ, (Ty.atom "a").subst θ ≠ (Ty.tuple [.atom "a", .atom "int"]).subst θ) ∧
    unifyVars recursionLimit (.atom "a") (.tuple [.atom "a", .atom "int"]) [] =
      .ok [(.atom "a", .tuple [.atom "a", .atom "int"])] ∧
    unifyVars recursionLimit (.tuple [.atom "a"]) (.atom "b") [] =
      .ok [(.tuple [.atom "a"], .atom "b")] := by
  refine ⟨fun _ _ _ _ _ h => ⟨unifyVars_extends h, fun _ hθ => unifyVars_sound h hθ⟩,
    fun a b S θ hkeys hac ha hb hv hS hab => ?_, fun θ h => by simp at h, by decide,
    fun θ h => ?_, by decide, by decide⟩
  · obtain ⟨r, hr⟩ := hac.ranked hkeys
    obtain ⟨S', hS', h⟩ := unifyVars_returns ⟨hS, hv, r, hr⟩ hab ha hb
    exact ⟨S', hS'.1, h⟩
  · -- `a` would be a proper part of its own image
    have hsz := congrArg sizeOf h
    simp only [Ty.subst, isBaseName, Ty.substList] at hsz
    simp only [Ty.tuple.sizeOf_spec, List.cons.sizeOf_spec] at hsz
    omega

end LispCompiler
