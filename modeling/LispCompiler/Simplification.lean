import LispCompiler.Completeness

/-!
# Simplification keeps every resolution

The resolution of a type in a map (`Resolves`) replaces each atom that is a key by the resolution
of its value, until no atom is a key; a key on a cycle has none. `simplify_unification` rewrites one
binding at a time, each atom of a value replaced by the value of its key one level deep
(`convert_type`, `demote_constraint`), and each rewrite replaces a type by one with the same
resolutions (`convertType_resolves`). A binding rewritten so keeps the resolution of every type,
since the rewritten value resolves alike in the old map and in the new (`resolves_setItem`). So on
a map whose values hold no `None`, simplification returns a map with the same keys in which every
type resolves as it did (`simplifyUnification_keeps_resolutions`). When the bindings are acyclic
every type has a resolution (`resolves_of_acyclic`), so the one it keeps is not vacuous.

These rounds rewrite each value apart, as the pipeline of `Pipeline.lean` runs them. Python rewrites
`Type` objects in place, and `Type.set` makes values share lists; `LispCompiler.Sharing` models the
objects and proves the same of Python's rounds on acyclic maps, with a recursion budget above the
depth of the resolutions.
-/

namespace LispCompiler

mutual
/-- `t` resolves to `r` in the map `S`: every atom that is a key is replaced by the resolution of
its value, until no atom is a key. A key on a cycle resolves to nothing. -/
inductive Resolves (S : Dict) : Ty → Ty → Prop
  /-- A key resolves as its value does. -/
  | key {a : String} {v r : Ty} : S.get? (.atom a) = some v → Resolves S v r →
      Resolves S (.atom a) r
  /-- An atom that is not a key resolves to itself. -/
  | free {a : String} : S.get? (.atom a) = Option.none → Resolves S (.atom a) (.atom a)
  /-- A tuple resolves elementwise. -/
  | tuple {ts rs : List Ty} : ResolvesList S ts rs → Resolves S (.tuple ts) (.tuple rs)
  /-- `None` resolves to itself. -/
  | none : Resolves S .none .none
/-- `Resolves` elementwise on two lists. -/
inductive ResolvesList (S : Dict) : List Ty → List Ty → Prop
  | nil : ResolvesList S [] []
  | cons {t r : Ty} {ts rs : List Ty} : Resolves S t r → ResolvesList S ts rs →
      ResolvesList S (t :: ts) (r :: rs)
end

theorem resolves_atom_of_get? {S : Dict} {a : String} {v : Ty} (h : S.get? (.atom a) = some v)
    (r : Ty) : Resolves S (.atom a) r ↔ Resolves S v r := by
  refine ⟨fun h' => ?_, .key h⟩
  cases h' with
  | key h₁ h₂ => rw [h] at h₁; cases h₁; exact h₂
  | free h₁ => rw [h] at h₁; cases h₁

theorem resolves_tuple_iff {S : Dict} {ts : List Ty} {r : Ty} :
    Resolves S (.tuple ts) r ↔ ∃ rs, r = .tuple rs ∧ ResolvesList S ts rs := by
  refine ⟨fun h => ?_, fun ⟨rs, hr, h⟩ => hr ▸ .tuple h⟩
  cases h with
  | tuple h => exact ⟨_, rfl, h⟩

theorem resolvesList_cons_iff {S : Dict} {t : Ty} {ts rs : List Ty} :
    ResolvesList S (t :: ts) rs ↔
      ∃ r rs', rs = r :: rs' ∧ Resolves S t r ∧ ResolvesList S ts rs' := by
  refine ⟨fun h => ?_, fun ⟨r, rs', hrs, h₁, h₂⟩ => hrs ▸ .cons h₁ h₂⟩
  cases h with
  | cons h₁ h₂ => exact ⟨_, _, rfl, h₁, h₂⟩

/-! ## One rewrite -/

/-- A demoted atom resolves as the atom does. -/
theorem demoteConstraint_resolves (d : Dict) (a : String) (r : Ty) :
    Resolves d (demoteConstraint d (.atom a)) r ↔ Resolves d (.atom a) r := by
  unfold demoteConstraint
  split
  · rename_i v hv
    split
    · exact (resolves_atom_of_get? hv r).symm
    · rfl
  · rfl

mutual
/-- `convert_type` replaces a type by one with the same resolutions. -/
theorem convertType_resolves {d : Dict} {b : Ty} :
    ∀ {t t' : Ty}, convertType d b t = .ok t' → ∀ r, Resolves d t r ↔ Resolves d t' r
  | .atom a, _, h, r => by
    cases h
    split
    · rfl
    · exact (demoteConstraint_resolves d a r).symm
  | .tuple ts, t', h, r => by
    rcases convertType_tuple_eq_ok h with rfl | ⟨ts', hl, rfl⟩
    · rfl
    · simp only [resolves_tuple_iff, convertTypeList_resolves hl]
  | .none, _, h, _ => by cases h
/-- `convertType_resolves` on the elements of a tuple. -/
theorem convertTypeList_resolves {d : Dict} {b : Ty} :
    ∀ {ts ts' : List Ty}, convertTypeList d b ts = .ok ts' →
      ∀ rs, ResolvesList d ts rs ↔ ResolvesList d ts' rs
  | [], _, h, rs => by cases h; rfl
  | t :: ts, ts', h, rs => by
    obtain ⟨t', h₁, h⟩ := bind_eq_ok.1 h
    obtain ⟨ts'', h₂, h⟩ := bind_eq_ok.1 h
    cases h
    simp only [resolvesList_cons_iff, convertType_resolves h₁, convertTypeList_resolves h₂]
end

/-- A set key is found with its new value; every other key as before. -/
theorem Dict.get?_setItem : ∀ (d : Dict) (k v k' : Ty),
    (d.setItem k v).get? k' = if k = k' then some v else d.get? k'
  | [], k, v, k' => by simp [Dict.setItem, Dict.get?_cons]
  | (k'', v'') :: d, k, v, k' => by
    unfold Dict.setItem
    split
    · subst k''
      simp only [Dict.get?_cons]
      split <;> rfl
    · simp only [Dict.get?_cons, Dict.get?_setItem d]
      split <;> split <;> simp_all

mutual
/-- `convert_type` reads the map only at atoms other than its base type. -/
theorem convertType_congr {d d' : Dict} {b : Ty}
    (h : ∀ a, .atom a ≠ b → d'.get? (.atom a) = d.get? (.atom a)) :
    ∀ t, convertType d' b t = convertType d b t
  | .atom a => by
    simp only [convertType]
    split
    · rfl
    · rename_i hne
      simp only [demoteConstraint, h a hne]
  | .tuple ts => by simp only [convertType, convertTypeList_congr h ts]
  | .none => rfl
/-- `convertType_congr` on the elements of a tuple. -/
theorem convertTypeList_congr {d d' : Dict} {b : Ty}
    (h : ∀ a, .atom a ≠ b → d'.get? (.atom a) = d.get? (.atom a)) :
    ∀ ts, convertTypeList d' b ts = convertTypeList d b ts
  | [] => rfl
  | t :: ts => by simp only [convertTypeList, convertType_congr h t, convertTypeList_congr h ts]
end

/-- A resolution in `d` is one in `d'` when the two maps agree at every atom but the key `u`, and
`u`'s value in `d` resolves in `d'` only to what its value in `d'` does. -/
theorem Resolves.transfer {d d' : Dict} {u v v' : Ty} (hu : d.get? u = some v)
    (hu' : d'.get? u = some v') (hoff : ∀ a, .atom a ≠ u → d'.get? (.atom a) = d.get? (.atom a))
    (hv : ∀ r, Resolves d' v r → Resolves d' v' r) {t r : Ty} (h : Resolves d t r) :
    Resolves d' t r := by
  induction h using Resolves.rec (motive_2 := fun ts rs _ => ResolvesList d' ts rs) with
  | @key a _ _ ha _ ih =>
    by_cases hau : .atom a = u
    · subst hau
      rw [hu] at ha
      cases ha
      exact .key hu' (hv _ ih)
    · exact .key ((hoff a hau).trans ha) ih
  | @free a ha =>
    have hau : .atom a ≠ u := fun h => by rw [h, hu] at ha; cases ha
    exact .free ((hoff a hau).trans ha)
  | tuple _ ih => exact .tuple ih
  | none => exact .none
  | nil => exact .nil
  | cons _ _ ih₁ ih₂ => exact .cons ih₁ ih₂

/-- Rewriting the value of a key to one that `convert_type` returns for it keeps the resolution of
every type: the old value and the new resolve alike in the old map and in the new. -/
theorem resolves_setItem {d : Dict} {u v v' : Ty} (hu : d.get? u = some v)
    (hc : convertType d u v = .ok v') (t r : Ty) :
    Resolves d t r ↔ Resolves (d.setItem u v') t r := by
  have hoff : ∀ a, .atom a ≠ u → (d.setItem u v').get? (.atom a) = d.get? (.atom a) :=
    fun a hau => by rw [Dict.get?_setItem, if_neg (Ne.symm hau)]
  have hu' : (d.setItem u v').get? u = some v' := by rw [Dict.get?_setItem, if_pos rfl]
  have hc' : convertType (d.setItem u v') u v = .ok v' := (convertType_congr hoff v).trans hc
  refine ⟨Resolves.transfer hu hu' hoff fun r => (convertType_resolves hc' r).1,
    Resolves.transfer hu' hu (fun a hau => (hoff a hau).symm)
      fun r => (convertType_resolves hc r).2⟩

/-! ## Acyclic maps -/

mutual
/-- A type resolves when each of its atoms that is a key does. -/
theorem resolves_of_atoms {S : Dict} :
    ∀ (t : Ty), (∀ a ∈ t.atoms, (S.get? (.atom a)).isSome → ∃ r, Resolves S (.atom a) r) →
      ∃ r, Resolves S t r
  | .atom a, h => by
    cases hk : S.get? (.atom a) with
    | none => exact ⟨_, .free hk⟩
    | some _ => exact h a (by simp [Ty.atoms]) (by simp [hk])
  | .tuple ts, h => by
    obtain ⟨rs, hrs⟩ := resolvesList_of_atoms ts (by simpa [Ty.atoms] using h)
    exact ⟨_, .tuple hrs⟩
  | .none, _ => ⟨_, .none⟩
/-- `resolves_of_atoms` on the elements of a tuple. -/
theorem resolvesList_of_atoms {S : Dict} :
    ∀ (ts : List Ty), (∀ a ∈ Ty.atomsList ts, (S.get? (.atom a)).isSome →
      ∃ r, Resolves S (.atom a) r) → ∃ rs, ResolvesList S ts rs
  | [], _ => ⟨_, .nil⟩
  | t :: ts, h => by
    simp only [Ty.atomsList, List.mem_append] at h
    obtain ⟨r, hr⟩ := resolves_of_atoms t fun a ha => h a (.inl ha)
    obtain ⟨rs, hrs⟩ := resolvesList_of_atoms ts fun a ha => h a (.inr ha)
    exact ⟨_, .cons hr hrs⟩
end

/-- In an acyclic map every type has a resolution: a key resolves once the keys of lower rank in
its value do. -/
theorem resolves_of_acyclic {S : Dict} (h : S.Acyclic) (t : Ty) : ∃ r, Resolves S t r := by
  obtain ⟨rank, hrank⟩ := h
  have hkeys : ∀ n a, rank a < n → (S.get? (.atom a)).isSome → ∃ r, Resolves S (.atom a) r := by
    intro n
    induction n with
    | zero => exact fun _ h => absurd h (Nat.not_lt_zero _)
    | succ n ih =>
      intro a ha hk
      obtain ⟨v, hv⟩ := Option.isSome_iff_exists.1 hk
      obtain ⟨r, hr⟩ := resolves_of_atoms v fun b hb hkb =>
        ih b (Nat.lt_of_lt_of_le (hrank a v hv b hb hkb) (Nat.le_of_lt_succ ha)) hkb
      exact ⟨r, .key hv hr⟩
  exact resolves_of_atoms t fun a _ => hkeys _ a (Nat.lt_succ_self _)

/-! ## Simplification -/

/-- On a map whose values hold no `None`, `simplify_unification` returns a map with the same keys in
the same order, in which every type resolves exactly as it did; when the bindings are acyclic every
key has a resolution, and keeps it. -/
theorem simplifyUnification_keeps_resolutions {S : Dict} (hv : S.valuesNoneFree) :
    ∃ S', simplifyUnification S = .ok S' ∧ S'.map Prod.fst = S.map Prod.fst ∧
      (∀ t r, Resolves S t r ↔ Resolves S' t r) ∧
      (S.Acyclic → ∀ k ∈ S.map Prod.fst, ∃ r, Resolves S k r ∧ Resolves S' k r) := by
  obtain ⟨S', h, -⟩ := (simplifyRounds_noneFree 10 hv).exists_ok
  obtain ⟨hr, hk⟩ := simplifyRounds_invariant (fun d => ∀ t r, Resolves S t r ↔ Resolves d t r)
    (fun hu hc hd t r => (hd t r).trans (resolves_setItem hu hc t r)) 10 h fun _ _ => .rfl
  refine ⟨S', h, hk, hr, fun hac k _ => ?_⟩
  obtain ⟨r, hr'⟩ := resolves_of_acyclic hac k
  exact ⟨r, hr', (hr k r).1 hr'⟩

/-! ## The final assertion of `apply_with_type`

`apply_with_type` asserts that every value of the specialized map is base, whether the entry
reaches its key or not. Simplification keeps every resolution, and a base value resolves to itself
in a map that binds no base name, so a key whose resolution holds a variable keeps a value that is
not base, and the assertion fires.
-/

mutual
/-- The atoms of a base type are base names. -/
theorem Ty.isBaseName_of_mem_atoms : ∀ {t : Ty}, t.isBaseType → ∀ x ∈ t.atoms, isBaseName x
  | .atom s, h, x, hx => by
    simp only [Ty.atoms, List.mem_singleton] at hx
    exact hx ▸ h
  | .tuple _, h, x, hx => Ty.isBaseName_of_mem_atomsList (by simpa [Ty.isBaseType] using h) x hx
  | .none, _, x, hx => by simp [Ty.atoms] at hx
/-- `Ty.isBaseName_of_mem_atoms` on the elements of a tuple. -/
theorem Ty.isBaseName_of_mem_atomsList : ∀ {ts : List Ty}, ts.all Ty.isBaseType →
    ∀ x ∈ Ty.atomsList ts, isBaseName x
  | [], _, x, hx => by simp [Ty.atomsList] at hx
  | t :: ts, h, x, hx => by
    simp only [List.all_cons, Bool.and_eq_true] at h
    rcases List.mem_append.1 hx with hx | hx
    · exact Ty.isBaseName_of_mem_atoms h.1 x hx
    · exact Ty.isBaseName_of_mem_atomsList h.2 x hx
end

/-- In a map that binds no base name, a base type resolves only to itself. -/
theorem Resolves.eq_of_isBaseType {S : Dict}
    (hS : ∀ s, isBaseName s → S.get? (.atom s) = Option.none)
    {t r : Ty} (h : Resolves S t r) : t.isBaseType → r = t := by
  induction h using Resolves.rec
    (motive_2 := fun ts rs _ => ts.all Ty.isBaseType → rs = ts) with
  | @key a _ _ ha _ _ => intro hb; rw [hS a hb] at ha; cases ha
  | free _ | none => exact fun _ => rfl
  | tuple _ ih => exact fun hb => by rw [ih (by simpa [Ty.isBaseType] using hb)]
  | nil => rfl
  | cons _ _ ih₁ ih₂ hb =>
    simp only [List.all_cons, Bool.and_eq_true] at hb
    rw [ih₁ hb.1, ih₂ hb.2]

/-- `apply_with_type` fails on any key that the invocation leaves unresolved, whether the entry
reaches it or not. Let `S₁` be the deep copy of an entry's map with the entry's type unified with an
invocation of the right arity, a map with no `None` in its values and no base name among its keys.
If some key resolves in `S₁` to a type that holds a variable, `apply_with_type` raises the
assertion `Type must be fully resolved at this point`. The bindings are taken acyclic: on a cyclic
map Python's rewriting in place may build a type that holds itself and raise `RecursionError`
first (`LispCompiler.Sharing`), which the rounds of the model, rewriting values apart, never do. -/
theorem applyWithType_rejects_unresolved {fuel : Nat} {stub : FunctionStub} {name a x : String}
    {ts types : List Ty} {S₁ : Dict} {r : Ty} (hty : stub.myType = some (.atom name))
    (hbind : stub.intermediateTypes.get? (.atom name) = some (.tuple ts))
    (harity : types.length = ts.length)
    (hu : unifyVars fuel (.atom name) (.tuple types) stub.intermediateTypes = .ok S₁)
    (_hac : S₁.Acyclic) (hv : S₁.valuesNoneFree)
    (hbase : ∀ s, isBaseName s → S₁.get? (.atom s) = none)
    (hk : (S₁.get? (.atom a)).isSome) (hr : Resolves S₁ (.atom a) r) (hx : x ∈ r.atoms)
    (hxb : isBaseName x = false) :
    applyWithType fuel stub (.tuple types) =
      .error (.assertionError "Type must be fully resolved at this point") := by
  obtain ⟨S₂, hs, hkeys, hres, -⟩ := simplifyUnification_keeps_resolutions hv
  have hspec : specialize fuel stub (.tuple types) = .ok S₂ :=
    specialize_eq_ok hty (by simp [Dict.getItem, hbind, Ty.pyLen, harity]) hu hs
  -- the key keeps its place, with a value that is not base
  obtain ⟨v, hgv⟩ := Dict.get?_of_mem_keys (hkeys ▸ List.mem_map_of_mem Prod.fst
    (Dict.mem_of_get? (Option.get_mem hk)) : Ty.atom a ∈ S₂.map Prod.fst)
  have hbase₂ : ∀ s, isBaseName s → S₂.get? (.atom s) = none := fun s hs' => by
    cases h : S₂.get? (.atom s) with
    | none => rfl
    | some w =>
      have hmem : Ty.atom s ∈ S₁.map Prod.fst :=
        hkeys ▸ List.mem_map_of_mem Prod.fst (Dict.mem_of_get? h)
      obtain ⟨w', hw'⟩ := Dict.get?_of_mem_keys hmem
      rw [hbase s hs'] at hw'
      cases hw'
  have hnb : v.isBaseType = false := by
    refine Bool.eq_false_iff.2 fun hb => ?_
    have hrv := (resolves_atom_of_get? hgv r).1 ((hres _ r).1 hr)
    rw [Resolves.eq_of_isBaseType hbase₂ hrv hb] at hx
    rw [Ty.isBaseName_of_mem_atoms hb x hx] at hxb
    cases hxb
  have hall : (S₂.all fun (_, v) => v.isBaseType) = false :=
    List.all_eq_false.2 ⟨_, Dict.mem_of_get? hgv, by simp [hnb]⟩
  simp [applyWithType, hspec, hall]

/-- On the entry of `unusedIdProgram` and the invocation `(int)`, `id`'s binding resolves to
`(Unknown-x, Unknown-x)`. -/
theorem applyWithType_rejects_unresolved_unusedId :
    unusedEntry.myType = some (.atom "main") ∧
    unusedEntry.intermediateTypes.get? (.atom "main") = some (.tuple [.atom "int"]) ∧
    [Ty.atom "int"].length = [Ty.atom "int"].length ∧
    unifyVars recursionLimit (.atom "main") (.tuple [.atom "int"]) unusedEntry.intermediateTypes =
      .ok unusedEntry.intermediateTypes ∧
    unusedEntry.intermediateTypes.Acyclic ∧ unusedEntry.intermediateTypes.valuesNoneFree ∧
    (∀ s, isBaseName s → unusedEntry.intermediateTypes.get? (.atom s) = none) ∧
    (unusedEntry.intermediateTypes.get? (.atom "id")).isSome ∧
    Resolves unusedEntry.intermediateTypes (.atom "id")
      (.tuple [.atom "Unknown-x", .atom "Unknown-x"]) ∧
    "Unknown-x" ∈ (Ty.tuple [.atom "Unknown-x", .atom "Unknown-x"]).atoms ∧
    isBaseName "Unknown-x" = false ∧
    applyWithType recursionLimit unusedEntry (.tuple [.atom "int"]) =
      .error (.assertionError "Type must be fully resolved at this point") := by
  have hac : unusedEntry.intermediateTypes.Acyclic := Dict.acyclic_of_values_free (by decide)
  have hbase : ∀ s, isBaseName s → unusedEntry.intermediateTypes.get? (.atom s) = none := by
    intro s hs
    simp only [isBaseName, Bool.or_eq_true, beq_iff_eq] at hs
    rcases hs with (rfl | rfl) | rfl <;> decide
  have hfree : ∀ s, s = "Unknown-x" → unusedEntry.intermediateTypes.get? (.atom s) = none := by
    rintro s rfl
    decide
  have hr : Resolves unusedEntry.intermediateTypes (.atom "id")
      (.tuple [.atom "Unknown-x", .atom "Unknown-x"]) :=
    .key (by decide) (.tuple (.cons (.free (hfree _ rfl)) (.cons (.free (hfree _ rfl)) .nil)))
  have hx : "Unknown-x" ∈ (Ty.tuple [.atom "Unknown-x", .atom "Unknown-x"]).atoms := by decide
  have hxb : isBaseName "Unknown-x" = false := by decide
  exact ⟨rfl, by decide, rfl, by decide, hac, by decide, hbase, by decide, hr, hx, hxb,
    applyWithType_rejects_unresolved rfl (by decide) rfl (by decide) hac (by decide) hbase
      (by decide) hr hx hxb⟩

/-- On `unusedIdProgram` with the invocation `(int)`, `unusedIdSolver` solves every binding of the
merged map, which holds each stub's constraints and the primitive table, and the entry equation;
still `apply_with_type` fails, on the binding of `id`. -/
theorem applyWithType_rejects_unused :
    inferTypes recursionLimit unusedIdProgram "main" = .ok (unusedAnnotated, 1, unusedEntry, 0) ∧
    unusedEntry.intermediateTypes.Satisfies unusedIdSolver ∧
    (Ty.atom "main").subst unusedIdSolver = (Ty.tuple [.atom "int"]).subst unusedIdSolver ∧
    applyWithType recursionLimit unusedEntry (.tuple [.atom "int"]) =
      .error (.assertionError "Type must be fully resolved at this point") :=
  ⟨inferTypes_unusedIdProgram, by decide, by decide, by decide⟩


end LispCompiler
