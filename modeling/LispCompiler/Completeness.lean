import LispCompiler.Pipeline

/-!
# Inference raises no type error on a solvable program

The converse of `unifyVars_complete` for the stages around it. When a substitution `θ` solves
every constraint that annotation generates (`generatedConstraints`) and the primitive table, and
no constraint holds `None`, the stages of `compiler.py` up to the merged map raise nothing but
`RecursionError`, and `θ` solves the merged map of the entry (`inferTypes_complete`). Given that
the entry's own binding is a tuple, specialization then raises nothing but `RecursionError` and
the final assertion that the whole map is resolved, and returns `θ`'s entry signature
(`applyWithType_complete`).

The one failure that depends on the recursion budget is `RecursionError`. On an acyclic map with
atoms for keys, specialization raises none once the budget is large enough
(`applyWithType_returns`); but a merge can bind two variables to each other, and then no budget is
enough (`unifyVars_cycle`, on the solvable `cycleProgram`).

Every stage is shown to keep a property of its state, stated with `Outcome`: simplification keeps
every solution and the keys, each merge keeps every solution of both maps, and annotation yields
maps that `θ` solves. None of this says the merged map's solutions solve the constraints: the
merge overwrites bindings (`unifyTypeDicts_overwrites`) and unification truncates tuples.
-/

namespace LispCompiler

/-! ## Maps -/

namespace Dict

/-- Replacing the value of a key leaves the keys as they are. -/
theorem keys_setItem : ∀ {d : Dict} {k : Ty} (v : Ty), k ∈ d.map Prod.fst →
    (d.setItem k v).map Prod.fst = d.map Prod.fst
  | [], _, _, h => by simp at h
  | (k', v') :: d, k, v, h => by
    unfold setItem
    split
    · simp
    · rename_i hne
      simp [keys_setItem v (by simpa [Ne.symm hne] using h : k ∈ d.map Prod.fst)]

/-- Every key has a value. -/
theorem get?_of_mem_keys : ∀ {d : Dict} {k : Ty}, k ∈ d.map Prod.fst → ∃ v, d.get? k = some v
  | [], _, h => by simp at h
  | (k', v') :: d, k, h => by
    rw [get?_cons]
    split
    · exact ⟨v', rfl⟩
    · rename_i hne
      exact get?_of_mem_keys (by simpa [Ne.symm hne] using h)

/-- Setting a key to the value it has changes nothing. -/
theorem setItem_of_get? : ∀ {d : Dict} {k v : Ty}, d.get? k = some v → d.setItem k v = d
  | [], _, _, h => by simp at h
  | (k', v') :: d, k, v, h => by
    rw [get?_cons] at h
    unfold setItem
    split at h
    · cases h
      simp [*]
    · simp [*, setItem_of_get? h]

/-- A map with no `None` value keeps none when a value without `None` is set. -/
theorem valuesNoneFree_setItem {d : Dict} {k v : Ty} (hd : d.valuesNoneFree) (hv : v.noneFree) :
    (d.setItem k v).valuesNoneFree := by
  simp only [valuesNoneFree, List.all_eq_true] at hd ⊢
  intro e he
  rcases mem_setItem he with he | rfl
  · exact hd e he
  · exact hv

end Dict

/-! ## Simplification keeps every solution -/

section Simplification

variable {θ : String → Ty} {E : PyError → Prop}

/-- A demoted atom is equal to it under every solution of the map. -/
theorem demoteConstraint_subst {d : Dict} (hd : d.Satisfies θ) (t : Ty) :
    (demoteConstraint d t).subst θ = t.subst θ := by
  unfold demoteConstraint
  split
  · rename_i v hv
    split
    · exact (hd.get? hv).symm
    · rfl
  · rfl

/-- A demoted type without `None` holds none, in a map without `None` values. -/
theorem demoteConstraint_noneFree {d : Dict} (hv : d.valuesNoneFree) {t : Ty} (ht : t.noneFree) :
    (demoteConstraint d t).noneFree := by
  unfold demoteConstraint
  split
  · rename_i v hv'
    split
    · exact Dict.valuesNoneFree_get? hv hv'
    · exact ht
  · exact ht

mutual
/-- On a type without `None`, in a map without `None` values, `convert_type` returns a type without
`None`. -/
theorem convertType_noneFree {d : Dict} (hv : d.valuesNoneFree) (b : Ty) :
    ∀ {t : Ty}, t.noneFree → ∃ t', convertType d b t = .ok t' ∧ t'.noneFree
  | .atom s, _ => by
    refine ⟨_, rfl, ?_⟩
    split
    · rfl
    · exact demoteConstraint_noneFree hv rfl
  | .tuple ts, ht => by
    rw [convertType]
    split
    · exact ⟨_, rfl, ht⟩
    · obtain ⟨ts', h, hn⟩ := convertTypeList_noneFree hv b (by simpa [Ty.noneFree] using ht)
      exact ⟨.tuple ts', by rw [h]; rfl, by simpa [Ty.noneFree] using hn⟩
  | .none, ht => by simp [Ty.noneFree] at ht
/-- `convertType_noneFree` on the elements of a tuple. -/
theorem convertTypeList_noneFree {d : Dict} (hv : d.valuesNoneFree) (b : Ty) :
    ∀ {ts : List Ty}, ts.all Ty.noneFree →
      ∃ ts', convertTypeList d b ts = .ok ts' ∧ ts'.all Ty.noneFree
  | [], _ => ⟨[], rfl, rfl⟩
  | t :: ts, h => by
    simp only [List.all_cons, Bool.and_eq_true] at h
    obtain ⟨t', h1, n1⟩ := convertType_noneFree hv b h.1
    obtain ⟨ts', h2, n2⟩ := convertTypeList_noneFree hv b h.2
    exact ⟨t' :: ts', by simp [convertTypeList, h1, h2], by simp [n1, n2]⟩
end

mutual
/-- Every solution of the map equates what `convert_type` returns with the type it was given. -/
theorem convertType_subst {d : Dict} (hd : d.Satisfies θ) {b : Ty} :
    ∀ {t t' : Ty}, convertType d b t = .ok t' → t'.subst θ = t.subst θ
  | .atom s, _, h => by
    cases h
    split
    · rfl
    · exact demoteConstraint_subst hd _
  | .tuple ts, t', h => by
    rcases convertType_tuple_eq_ok h with rfl | ⟨ts', hl, rfl⟩
    · rfl
    · simp [convertTypeList_subst hd hl]
  | .none, _, h => by cases h
/-- `convertType_subst` on the elements of a tuple. -/
theorem convertTypeList_subst {d : Dict} (hd : d.Satisfies θ) {b : Ty} :
    ∀ {ts ts' : List Ty}, convertTypeList d b ts = .ok ts' →
      ts'.map (Ty.subst θ) = ts.map (Ty.subst θ)
  | [], _, h => by cases h; rfl
  | t :: ts, ts', h => by
    obtain ⟨t', h₁, h⟩ := bind_eq_ok.1 h
    obtain ⟨ts'', h₂, h⟩ := bind_eq_ok.1 h
    cases h
    simp [convertType_subst hd h₁, convertTypeList_subst hd h₂]
end

/-- A property that every rewrite of a key's value by `convert_type` keeps holds after any number of
rounds of simplification, which keep the keys. -/
theorem simplifyRounds_invariant (P : Dict → Prop)
    (hstep : ∀ {d : Dict} {u v v' : Ty}, d.get? u = some v → convertType d u v = .ok v' → P d →
      P (d.setItem u v')) :
    ∀ (n : Nat) {d d' : Dict}, simplifyRounds n d = .ok d' → P d →
      P d' ∧ d'.map Prod.fst = d.map Prod.fst
  | 0, _, _, h, hd => by
    simp only [simplifyRounds, pure_eq_ok, Except.ok.injEq] at h
    exact h ▸ ⟨hd, rfl⟩
  | n + 1, d, _, h, hd => by
    obtain ⟨d₁, h₁, h₂⟩ := bind_eq_ok.1 h
    have hround : P d₁ ∧ d₁.map Prod.fst = d.map Prod.fst := by
      refine foldlM_invariant (fun s : Dict => P s ∧ s.map Prod.fst = d.map Prod.fst)
        (fun ⟨u, _⟩ _ s s' hs ⟨hp, hk⟩ => ?_) h₁ ⟨hd, rfl⟩
      cases hv : s.get? u with
      | none => simp [Dict.getItem, hv] at hs
      | some v =>
        simp only [Dict.getItem, hv, pure_eq_ok, ok_bind] at hs
        split at hs
        · cases hs
          exact ⟨hp, hk⟩
        · obtain ⟨v', hc, hs⟩ := bind_eq_ok.1 hs
          cases hs
          exact ⟨hstep hv hc hp,
            (Dict.keys_setItem _ (List.mem_map_of_mem Prod.fst (Dict.mem_of_get? hv))).trans hk⟩
    obtain ⟨hp, hk⟩ := simplifyRounds_invariant P hstep n h₂ hround.1
    exact ⟨hp, hk.trans hround.2⟩

/-- A round of simplification of a map without `None` values raises nothing. -/
theorem simplifyRound_noneFree {d : Dict} (hv : d.valuesNoneFree) :
    Outcome (fun _ => False) (fun d' : Dict => d'.valuesNoneFree) (simplifyRound d) := by
  refine (foldlM_outcome (fun s : Dict => s.valuesNoneFree ∧ s.map Prod.fst = d.map Prod.fst)
    (fun ⟨u, _⟩ hu s ⟨hn, hk⟩ => ?_) ⟨hv, rfl⟩).mono fun _ h => h.1
  obtain ⟨v, hgv⟩ := Dict.get?_of_mem_keys (hk ▸ List.mem_map_of_mem Prod.fst hu)
  simp only [Dict.getItem, hgv, pure_eq_ok, ok_bind]
  split
  · exact .ok ⟨hn, hk⟩
  · obtain ⟨v', hc, hn'⟩ := convertType_noneFree hn u (Dict.valuesNoneFree_get? hn hgv)
    rw [hc]
    exact .ok ⟨Dict.valuesNoneFree_setItem hn hn',
      (Dict.keys_setItem _ (List.mem_map_of_mem Prod.fst (Dict.mem_of_get? hgv))).trans hk⟩

/-- `simplifyRound_noneFree` over any number of rounds. -/
theorem simplifyRounds_noneFree : ∀ (n : Nat) {d : Dict}, d.valuesNoneFree →
    Outcome (fun _ => False) (fun d' : Dict => d'.valuesNoneFree) (simplifyRounds n d)
  | 0, _, hv => .ok hv
  | n + 1, _, hv => (simplifyRound_noneFree hv).bind fun _ h => simplifyRounds_noneFree n h

/-- Simplification of a map without `None` values raises nothing, keeps the keys, and keeps every
solution. -/
theorem simplifyRounds_keeps (n : Nat) {d : Dict} (hd : d.Satisfies θ) (hv : d.valuesNoneFree) :
    Outcome E (fun d' => d'.Satisfies θ ∧ d'.valuesNoneFree ∧ d'.map Prod.fst = d.map Prod.fst)
      (simplifyRounds n d) := by
  obtain ⟨d', h, hn⟩ := (simplifyRounds_noneFree n hv).exists_ok
  obtain ⟨hs, hk⟩ := simplifyRounds_invariant (Dict.Satisfies θ)
    (fun hu hc hs => hs.setItem ((hs.get? hu).trans (convertType_subst hs hc).symm)) n h hd
  exact h ▸ .ok ⟨hs, hn, hk⟩

end Simplification

/-! ## Annotation -/

/-- `θ` solves every constraint of `cs`. -/
def Solves (θ : String → Ty) (cs : List TypeConstraint) : Prop :=
  ∀ c ∈ cs, c.lhs.subst θ = c.rhs.subst θ

instance (θ : String → Ty) (cs : List TypeConstraint) : Decidable (Solves θ cs) :=
  inferInstanceAs (Decidable (∀ c ∈ cs, _))

@[simp] theorem solves_append {θ : String → Ty} {cs cs' : List TypeConstraint} :
    Solves θ (cs ++ cs') ↔ Solves θ cs ∧ Solves θ cs' := by
  simp only [Solves, List.mem_append]
  exact ⟨fun h => ⟨fun c hc => h c (.inl hc), fun c hc => h c (.inr hc)⟩,
    fun h c hc => hc.elim (h.1 c) (h.2 c)⟩

/-- No constraint of `cs` holds `None`. -/
def constraintsNoneFree (cs : List TypeConstraint) : Bool :=
  cs.all fun c => c.lhs.noneFree && c.rhs.noneFree

/-- The constraints that annotation generates for each stub, with `type_var_counter` threaded as
`[f.annotate_type() for f in functions]` threads it: the constraint system of the program. -/
def generatedConstraints : List FunctionStub → Nat → Except PyError (List TypeConstraint)
  | [], _ => pure []
  | f :: fs, c => do
    let (_, c, cs) ← fnTypeAnnotator f c []
    return cs ++ (← generatedConstraints fs c)

/-- A stub after annotation under a solution `θ`: its type is its name, and `θ` solves its map,
which holds no `None`. -/
structure Annotated (θ : String → Ty) (f : FunctionStub) : Prop where
  /-- `my_type` is the stub's name, as `fn_type_annotator` sets it. -/
  myType_eq : f.myType = some (.atom f.name)
  /-- `θ` solves every binding of the stub's map. -/
  satisfies : f.intermediateTypes.Satisfies θ
  /-- No value of the stub's map holds `None`. -/
  noneFree : f.intermediateTypes.valuesNoneFree

section Annotation

variable {θ : String → Ty} {fuel : Nat}

/-- `unifyVars_complete` as an outcome, with the appended bindings. -/
theorem unifyVars_keeps {a b : Ty} {S : Dict} (hS : S.Satisfies θ) (hab : a.subst θ = b.subst θ)
    (ha : a.noneFree) (hb : b.noneFree) (hv : S.valuesNoneFree) :
    Outcome (· = .recursionError)
      (fun S' => S'.Satisfies θ ∧ S'.valuesNoneFree ∧ ∃ new, S' = S ++ new)
      (unifyVars fuel a b S) := by
  rcases unifyVars_complete hS hab ha hb hv with h | ⟨S', h, h1, h2⟩ <;> rw [h]
  · exact .error rfl
  · exact .ok ⟨h1, h2, (unifyVars_extends h).imp fun _ h => h.1⟩

/-- On constraints without `None` that `θ` solves, `unify_constraints` raises nothing but
`RecursionError`, and `θ` solves the map it returns. -/
theorem unifyConstraints_keeps {cs : List TypeConstraint} (hθ : Solves θ cs)
    (hn : constraintsNoneFree cs) :
    Outcome (· = .recursionError) (fun d => d.Satisfies θ ∧ d.valuesNoneFree)
      (unifyConstraints fuel cs) := by
  refine (foldlM_outcome (fun s : Dict => s.Satisfies θ ∧ s.valuesNoneFree)
    (fun ⟨l, r⟩ hc s ⟨hs, hv⟩ => ?_) ⟨Dict.satisfies_nil θ, rfl⟩).bind fun _ ⟨hs, hv⟩ =>
      (simplifyRounds_keeps 10 hs hv).mono fun _ h => ⟨h.1, h.2.1⟩
  have hlr := List.all_eq_true.1 hn _ hc
  simp only [Bool.and_eq_true] at hlr
  exact (unifyVars_keeps hs (hθ _ hc) hlr.1 hlr.2 hv).mono fun _ h => ⟨h.1, h.2.1⟩

/-- `fn_type_annotator` gives a stub its name as its type. -/
theorem fnTypeAnnotator_type {fn : FunctionStub} {c c' : Nat} {cs cs' : List TypeConstraint}
    {t : Ty} (h : fnTypeAnnotator fn c cs = .ok (t, c', cs')) : t = .atom fn.name := by
  simp only [fnTypeAnnotator, bind_eq_ok] at h
  obtain ⟨_, -, _, -, h⟩ := h
  cases h
  rfl

/-- Annotation under a solution of the stub's constraints raises nothing but `RecursionError`. -/
theorem annotateType_keeps {stub : FunctionStub} {c c' : Nat} {t : Ty} {cs : List TypeConstraint}
    (h : fnTypeAnnotator stub c [] = .ok (t, c', cs)) (hθ : Solves θ cs)
    (hn : constraintsNoneFree cs) :
    Outcome (· = .recursionError) (fun r => r.1.name = stub.name ∧ Annotated θ r.1 ∧ r.2 = c')
      (annotateType fuel stub c) := by
  rw [annotateType, h, ok_bind]
  obtain rfl := fnTypeAnnotator_type h
  exact (unifyConstraints_keeps hθ hn).bind fun _ ⟨hd, hv⟩ => .ok ⟨rfl, ⟨rfl, hd, hv⟩, rfl⟩

/-- Annotating every stub under a solution of the program's constraints raises nothing but
`RecursionError`, keeps the names, and annotates every stub. -/
theorem annotateAll_keeps : ∀ {fs : List FunctionStub} {c : Nat} {cs : List TypeConstraint},
    generatedConstraints fs c = .ok cs → Solves θ cs → constraintsNoneFree cs →
    Outcome (· = .recursionError)
      (fun r => r.1.map (·.name) = fs.map (·.name) ∧ ∀ f ∈ r.1, Annotated θ f)
      (annotateAll fuel fs c)
  | [], _, _, _, _, _ => .ok ⟨rfl, by simp⟩
  | f :: fs, c, cs, h, hθ, hn => by
    simp only [generatedConstraints, bind_eq_ok] at h
    obtain ⟨⟨t, c₁, cs₁⟩, h₁, cs₂, h₂, h⟩ := h
    cases h
    simp only [solves_append, constraintsNoneFree, List.all_append, Bool.and_eq_true] at hθ hn
    rw [annotateAll]
    refine (annotateType_keeps h₁ hθ.1 hn.1).bind ?_
    rintro ⟨f', _⟩ ⟨hname, hf', rfl⟩
    refine (annotateAll_keeps h₂ hθ.2 hn.2).bind ?_
    rintro ⟨fs', _⟩ ⟨hnames, hfs'⟩
    dsimp only at hname hf' hnames hfs' ⊢
    exact .ok ⟨by simp [hname, hnames], by simpa [hf'] using hfs'⟩

end Annotation

/-! ## Merging keeps every solution -/

section Merging

variable {θ : String → Ty} {fuel : Nat}

/-- Merging two maps without `None` values that `θ` solves raises nothing but `RecursionError`,
and `θ` solves the merged map. -/
theorem unifyTypeDicts_keeps {one two : Dict} (h1 : one.Satisfies θ) (h2 : two.Satisfies θ)
    (n1 : one.valuesNoneFree) (n2 : two.valuesNoneFree) :
    Outcome (· = .recursionError) (fun d => d.Satisfies θ ∧ d.valuesNoneFree)
      (unifyTypeDicts fuel one two) := by
  refine (foldlM_outcome (fun r : Dict => r.Satisfies θ ∧ r.valuesNoneFree ∧
    ∀ k ∈ one.map Prod.fst, k ∈ r.map Prod.fst) ?_ ⟨h1, n1, fun _ h => h⟩).bind
      fun _ ⟨hr, nr, _⟩ => foldlM_outcome _ ?_ ⟨hr, nr⟩
  · -- the keys of `one`: their values unified with `two`'s, or kept
    rintro ⟨k, w⟩ hk r ⟨hr, nr, hkeys⟩
    have hk' : k ∈ one.map Prod.fst := List.mem_map_of_mem Prod.fst hk
    obtain ⟨v, hv⟩ := Dict.get?_of_mem_keys (hkeys k hk')
    simp only [Dict.getItem, hv, pure_eq_ok, ok_bind, Dict.setItem_of_get? hv]
    split
    · rename_i t ht
      refine (unifyVars_keeps hr ((hr.get? hv).symm.trans (h2.get? ht))
        (Dict.valuesNoneFree_get? nr hv) (Dict.valuesNoneFree_get? n2 ht) nr).mono ?_
      rintro _ ⟨hs, hn, new, rfl⟩
      exact ⟨hs, hn, fun k hk => by simpa using Or.inl (hkeys k hk)⟩
    · obtain ⟨w', hw'⟩ := Dict.get?_of_mem_keys hk'
      simp only [hw', pure_eq_ok, ok_bind]
      refine .ok ⟨hr.setItem (h1.get? hw'), Dict.valuesNoneFree_setItem nr (Dict.valuesNoneFree_get? n1 hw'),
        fun k' hk'' => ?_⟩
      rw [Dict.keys_setItem _ (hkeys k hk')]
      exact hkeys k' hk''
  · -- the keys of `two` only: `two`'s values
    rintro ⟨k, w⟩ hk r ⟨hr, nr⟩
    by_cases hone : (one.get? k).isSome
    · simp only [hone, if_true, pure_eq_ok]
      exact .ok ⟨hr, nr⟩
    · obtain ⟨w', hw'⟩ := Dict.get?_of_mem_keys (List.mem_map_of_mem Prod.fst hk)
      simp only [hone, if_false, Dict.getItem, hw', pure_eq_ok, ok_bind]
      exact .ok ⟨hr.setItem (h2.get? hw'), Dict.valuesNoneFree_setItem nr (Dict.valuesNoneFree_get? n2 hw')⟩

/-- Merging a map that `θ` solves into an annotated stub keeps it annotated. -/
theorem unifyWithOther_keeps {stub : FunctionStub} {other : Dict} (hs : Annotated θ stub)
    (ho : other.Satisfies θ) (no : other.valuesNoneFree) :
    Outcome (· = .recursionError) (fun s => s.name = stub.name ∧ Annotated θ s)
      (unifyWithOther fuel stub other) := by
  unfold unifyWithOther
  split
  · exact .ok ⟨rfl, hs⟩
  · exact (unifyTypeDicts_keeps hs.satisfies ho hs.noneFree no).bind fun _ ⟨hd, nd⟩ =>
      .ok ⟨rfl, hs.myType_eq, hd, nd⟩

/-- Merging the maps of stubs that `θ` solves into an annotated stub keeps it annotated. -/
theorem mergeFunctions_keeps {functions : List FunctionStub} {mainIdx : Nat}
    {mainFn : FunctionStub} (hfs : ∀ f ∈ functions, Annotated θ f) (hm : Annotated θ mainFn) :
    Outcome (· = .recursionError) (fun m => m.name = mainFn.name ∧ Annotated θ m)
      (mergeFunctions fuel functions mainIdx mainFn) := by
  refine foldlM_outcome _ (fun ⟨i, f⟩ hf m ⟨hmn, hm⟩ => ?_) ⟨rfl, hm⟩
  have hf' := hfs f (List.snd_mem_of_mem_enum hf)
  refine (unifyWithOther_keeps hm ?_ ?_).mono fun _ ⟨h, h'⟩ => ⟨h.trans hmn, h'⟩ <;> split
  · exact hm.satisfies
  · exact hf'.satisfies
  · exact hm.noneFree
  · exact hf'.noneFree

end Merging

/-! ## The inference stages of `compiler.py` -/

/-- An entry that names a stub is found, at a stub of that name. -/
theorem entryIndex_of_mem {fs : List FunctionStub} {entry : String}
    (h : entry ∈ fs.map (·.name)) : ∃ i, entryIndex fs entry = .ok i ∧ ∃ f ∈ fs[i]?, f.name = entry := by
  obtain ⟨i, hi⟩ := Option.isSome_iff_exists.1
    (List.findIdx?_isSome.trans (List.any_eq_true.2 (by simpa using h)) :
      (fs.findIdx? (·.name = entry)).isSome)
  obtain ⟨hlt, hp, -⟩ := List.findIdx?_eq_some_iff_getElem.1 hi
  exact ⟨i, by simp [entryIndex, hi], fs[i], by simp [hlt], by simpa using hp⟩

/-- The stages of inference up to the merged map keep a solution of the program's constraints. -/
theorem inferTypes_keeps {fuel : Nat} {src entry : String} {fs : List FunctionStub}
    {cs : List TypeConstraint} {θ : String → Ty} (hfs : extractFunctions src = .ok fs)
    (hentry : entry ∈ fs.map (·.name)) (hcs : generatedConstraints fs 0 = .ok cs)
    (hθ : Solves θ cs) (hn : constraintsNoneFree cs) (hstd : stdTypes.Satisfies θ) :
    Outcome (· = .recursionError) (fun r => r.2.2.1.name = entry ∧ Annotated θ r.2.2.1)
      (inferTypes fuel src entry) := by
  obtain ⟨i, hi, f, hf, hfe⟩ := entryIndex_of_mem hentry
  rw [inferTypes, hfs, ok_bind, hi, ok_bind]
  refine (annotateAll_keeps hcs hθ hn).bind ?_
  rintro ⟨fs', c⟩ ⟨hnames, hann⟩
  -- the entry's stub keeps its place and its name through annotation
  obtain ⟨f', hf', hf'e⟩ : ∃ f' ∈ fs'[i]?, f'.name = entry := by
    have hi' := congrArg (·[i]?) hnames
    simp only [List.getElem?_map, Option.mem_def.1 hf, Option.map_some'] at hi'
    obtain ⟨f', hf', hname⟩ := Option.map_eq_some'.1 hi'
    exact ⟨f', hf', hname.trans hfe⟩
  simp only [List.get?_eq_getElem?, Option.mem_def.1 hf']
  refine (mergeFunctions_keeps hann (hann f' (List.getElem?_mem hf'))).bind fun _ ⟨hmn, hm⟩ => ?_
  exact (unifyWithOther_keeps hm hstd (by decide)).bind fun _ ⟨hmn', hm'⟩ =>
    .ok ⟨hmn'.trans (hmn.trans hf'e), hm'⟩

/-- Inference raises no type error on a program whose constraints a substitution solves. When `θ`
solves every constraint that annotation generates and the primitive table, and no constraint holds
`None`, annotating, merging every stub's map and the table into the entry's raise nothing but
`RecursionError`, and `θ` solves the entry's merged map. No budget excludes `RecursionError`: a merge can bind two variables to each other, as on the
solvable `cycleProgram`, and `unify_vars` then follows them at every budget (`unifyVars_cycle`). -/
theorem inferTypes_complete {fuel : Nat} {src entry : String} {fs : List FunctionStub}
    {cs : List TypeConstraint} {θ : String → Ty} (hfs : extractFunctions src = .ok fs)
    (hentry : entry ∈ fs.map (·.name)) (hcs : generatedConstraints fs 0 = .ok cs)
    (hθ : Solves θ cs) (hn : constraintsNoneFree cs) (hstd : stdTypes.Satisfies θ) :
    Outcome (· = .recursionError) (fun r => r.2.2.1.name = entry ∧ Annotated θ r.2.2.1)
      (inferTypes fuel src entry) :=
  inferTypes_keeps hfs hentry hcs hθ hn hstd

/-- On `unusedIdProgram`, whose constraints `unusedIdSolver` solves, with the primitive table. -/
theorem inferTypes_complete_unusedId :
    extractFunctions unusedIdProgram = .ok [unusedId, unusedMain] ∧
    "main" ∈ [unusedId, unusedMain].map (·.name) ∧
    generatedConstraints [unusedId, unusedMain] 0 =
      .ok [⟨.atom "id", .tuple [.atom "Unknown-x", .atom "Unknown-x"]⟩,
        ⟨.atom "main", .tuple [.atom "int"]⟩] ∧
    Solves unusedIdSolver [⟨.atom "id", .tuple [.atom "Unknown-x", .atom "Unknown-x"]⟩,
      ⟨.atom "main", .tuple [.atom "int"]⟩] ∧
    constraintsNoneFree [⟨.atom "id", .tuple [.atom "Unknown-x", .atom "Unknown-x"]⟩,
      ⟨.atom "main", .tuple [.atom "int"]⟩] ∧
    stdTypes.Satisfies unusedIdSolver ∧
    Outcome (· = .recursionError)
      (fun r => r.2.2.1.name = "main" ∧ Annotated unusedIdSolver r.2.2.1)
      (inferTypes recursionLimit unusedIdProgram "main") := by
  have hfs : extractFunctions unusedIdProgram = .ok [unusedId, unusedMain] := by decide
  have hcs : generatedConstraints [unusedId, unusedMain] 0 =
      .ok [⟨.atom "id", .tuple [.atom "Unknown-x", .atom "Unknown-x"]⟩,
        ⟨.atom "main", .tuple [.atom "int"]⟩] := by decide
  have hθ : Solves unusedIdSolver [⟨.atom "id", .tuple [.atom "Unknown-x", .atom "Unknown-x"]⟩,
      ⟨.atom "main", .tuple [.atom "int"]⟩] := by decide
  have hstd : stdTypes.Satisfies unusedIdSolver := by decide
  exact ⟨hfs, by decide, hcs, hθ, rfl, hstd,
    @inferTypes_complete recursionLimit unusedIdProgram "main" _ _ _ hfs (by decide) hcs hθ rfl hstd⟩

/-! ## Specialization -/

section Specialization

variable {θ : String → Ty} {fuel : Nat}

/-- The invocation of an annotated stub that `θ` equates with the stub's type has the arity of the
stub's binding. -/
theorem Annotated.arity {stub : FunctionStub} {ts types : List Ty} (hst : Annotated θ stub)
    (hbind : stub.intermediateTypes.get? (.atom stub.name) = some (.tuple ts))
    (hentry : (Ty.atom stub.name).subst θ = (Ty.tuple types).subst θ) :
    types.length = ts.length := by
  have h := (hst.satisfies.get? hbind).symm.trans hentry
  simp only [Ty.subst_tuple, Ty.tuple.injEq] at h
  simpa using (congrArg List.length h).symm

/-- Specializing an annotated stub whose own binding is a tuple, to an invocation type without
`None` that `θ` equates with the stub's type, raises nothing but `RecursionError`, and `θ` solves
the specialized map, which binds the stub's type. -/
theorem specialize_keeps {stub : FunctionStub} {ts types : List Ty} (hst : Annotated θ stub)
    (hbind : stub.intermediateTypes.get? (.atom stub.name) = some (.tuple ts))
    (happ : (Ty.tuple types).noneFree)
    (hentry : (Ty.atom stub.name).subst θ = (Ty.tuple types).subst θ) :
    Outcome (· = .recursionError)
      (fun sol => sol.Satisfies θ ∧ sol.valuesNoneFree ∧ .atom stub.name ∈ sol.map Prod.fst)
      (specialize fuel stub (.tuple types)) := by
  -- the arity check passes: `θ` equates the binding with the invocation
  have harity := hst.arity hbind hentry
  simp only [specialize, FunctionStub.myTypeKey, hst.myType_eq, Dict.getItem, hbind, Ty.pyLen,
    harity, ne_eq, not_true_eq_false, if_false, pure_eq_ok, ok_bind, simplifyUnification]
  refine (unifyVars_keeps hst.satisfies hentry rfl happ hst.noneFree).bind
    fun S ⟨hS, nS, new, hSe⟩ => (simplifyRounds_keeps 10 hS nS).mono fun _ ⟨h1, h2, h3⟩ =>
      ⟨h1, h2, ?_⟩
  rw [h3, hSe, List.map_append]
  exact List.mem_append_left _ (List.mem_map_of_mem Prod.fst (Dict.mem_of_get? hbind))

/-- `apply_with_type` after a specialization that `θ` solves and that keeps the stub's type as a key:
it fails only its final assertion, and otherwise returns `θ`'s image of the invocation. -/
theorem applyWithType_of_specialize {stub : FunctionStub} {args : Ty} {sol : Dict}
    (hspec : specialize fuel stub args = .ok sol) (hmy : stub.myType = some (.atom stub.name))
    (hs : sol.Satisfies θ) (hk : .atom stub.name ∈ sol.map Prod.fst)
    (hentry : (Ty.atom stub.name).subst θ = args.subst θ) :
    Outcome (· = .assertionError "Type must be fully resolved at this point") (· = args.subst θ)
      (applyWithType fuel stub args) := by
  obtain ⟨w, hw⟩ := Dict.get?_of_mem_keys hk
  rw [applyWithType, hspec, ok_bind]
  by_cases hall : (sol.all fun (_, v) => v.isBaseType) = true
  · simp only [hall, Bool.not_true, Bool.false_eq_true, if_false, pure_eq_ok, ok_bind,
      FunctionStub.myTypeKey, hmy, Dict.getItem, hw]
    -- the returned value is base, so it is its own image under `θ`
    have hwb : w.isBaseType := List.all_eq_true.1 hall _ (Dict.mem_of_get? hw)
    exact .ok ((Ty.subst_of_isBaseType θ hwb).symm.trans ((hs.get? hw).symm.trans hentry))
  · simp only [hall, Bool.not_false, if_true]
    exact .error rfl

/-- Specialization keeps a solution of the entry's map, and returns its image of the invocation. -/
theorem applyWithType_keeps {stub : FunctionStub} {ts types : List Ty}
    (hst : Annotated θ stub) (hbind : stub.intermediateTypes.get? (.atom stub.name) = some (.tuple ts))
    (happ : (Ty.tuple types).noneFree)
    (hentry : (Ty.atom stub.name).subst θ = (Ty.tuple types).subst θ) :
    Outcome (fun e => e = .recursionError ∨
        e = .assertionError "Type must be fully resolved at this point")
      (· = (Ty.tuple types).subst θ) (applyWithType fuel stub (.tuple types)) := by
  have hsp : Outcome (· = .recursionError)
      (fun sol => sol.Satisfies θ ∧ sol.valuesNoneFree ∧ .atom stub.name ∈ sol.map Prod.fst)
      (specialize fuel stub (.tuple types)) := specialize_keeps hst hbind happ hentry
  cases h : specialize fuel stub (.tuple types) with
  | error e =>
    rw [h, outcome_error] at hsp
    rw [applyWithType, h]
    exact .error (.inl hsp)
  | ok sol =>
    rw [h, outcome_ok] at hsp
    exact (applyWithType_of_specialize h hst.myType_eq hsp.1 hsp.2.2 hentry).imp
      (fun _ => .inr) fun _ => id

/-- Specialization raises no type error where a substitution solves the entry's map. When `θ`
solves the merged map of an annotated entry whose own binding is a tuple, and equates the entry's
type with an invocation type without `None`, `apply_with_type` raises nothing but `RecursionError`
and its final assertion that every value of the whole map is resolved; when it returns, it returns
`θ`'s entry signature. Whether `RecursionError` occurs depends on the map: on an acyclic one it
does not above some budget (`applyWithType_returns`), but a map that binds two variables to each
other raises it at every budget (`unifyVars_cycle`). -/
theorem applyWithType_complete {stub : FunctionStub} {ts types : List Ty}
    (hst : Annotated θ stub) (hbind : stub.intermediateTypes.get? (.atom stub.name) = some (.tuple ts))
    (happ : (Ty.tuple types).noneFree)
    (hentry : (Ty.atom stub.name).subst θ = (Ty.tuple types).subst θ) :
    Outcome (fun e => e = .recursionError ∨
        e = .assertionError "Type must be fully resolved at this point")
      (· = (Ty.tuple types).subst θ) (applyWithType fuel stub (.tuple types)) :=
  applyWithType_keeps hst hbind happ hentry

end Specialization

/-- On the entry of `recursiveProgram` specialized to `(void)`, with the solution that the
specialized map states. -/
theorem applyWithType_complete_recursive :
    Annotated recursiveSolution.lookupSubst recursiveEntry ∧
    recursiveEntry.intermediateTypes.get? (.atom recursiveEntry.name) =
      some (.tuple [.atom "Unknown-2"]) ∧
    (Ty.tuple [.atom "void"]).noneFree ∧
    (Ty.atom recursiveEntry.name).subst recursiveSolution.lookupSubst =
      (Ty.tuple [.atom "void"]).subst recursiveSolution.lookupSubst ∧
    Outcome (fun e => e = .recursionError ∨
        e = .assertionError "Type must be fully resolved at this point")
      (· = (Ty.tuple [.atom "void"]).subst recursiveSolution.lookupSubst)
      (applyWithType recursionLimit recursiveEntry (.tuple [.atom "void"])) := by
  have hst : Annotated recursiveSolution.lookupSubst recursiveEntry := ⟨rfl, by decide, rfl⟩
  have hentry : (Ty.atom recursiveEntry.name).subst recursiveSolution.lookupSubst =
      (Ty.tuple [.atom "void"]).subst recursiveSolution.lookupSubst := by decide
  exact ⟨hst, rfl, rfl, hentry, applyWithType_complete hst rfl rfl hentry⟩

/-! ## The recursion budget

`RecursionError` is the one failure of the inference stages on a solvable program that comes from
the budget. On an acyclic map whose keys are atoms, specialization needs only a large enough budget
(`applyWithType_returns`). Without acyclicity no budget is enough: a merge can bind two variables
to each other, one each way, and `unify_vars` then follows the pair until the budget runs out
(`unifyVars_cycle`), as on `cycleProgram` below, whose constraints have a solution.
-/

section Budget

variable {θ : String → Ty}

/-- Specialization raises no `RecursionError` once the budget is large enough, on an annotated entry
whose map is acyclic with atoms for keys and whose own binding is a tuple, and an invocation type
without `None` that `θ` equates with the entry's type: then `apply_with_type` fails only its final
assertion, and otherwise returns `θ`'s entry signature. -/
theorem applyWithType_returns {stub : FunctionStub} {ts types : List Ty}
    (hst : Annotated θ stub) (hbind : stub.intermediateTypes.get? (.atom stub.name) = some (.tuple ts))
    (happ : (Ty.tuple types).noneFree)
    (hentry : (Ty.atom stub.name).subst θ = (Ty.tuple types).subst θ)
    (hkeys : ∀ e ∈ stub.intermediateTypes, ∃ x, e.1 = .atom x)
    (hac : stub.intermediateTypes.Acyclic) :
    ∃ bound, ∀ fuel ≥ bound,
      Outcome (· = .assertionError "Type must be fully resolved at this point")
        (· = (Ty.tuple types).subst θ) (applyWithType fuel stub (.tuple types)) := by
  obtain ⟨r, hr⟩ := hac.ranked hkeys
  obtain ⟨S, ⟨hS, nS, -⟩, n, hu⟩ :=
    unifyVars_returns ⟨hst.satisfies, hst.noneFree, r, hr⟩ hentry rfl happ
  -- simplification raises nothing, and keeps the keys, among them the entry's type
  obtain ⟨sol, hsimp, hsol, -, hk⟩ :=
    (simplifyRounds_keeps 10 hS nS : Outcome (fun _ => False) _ _).exists_ok
  obtain ⟨new, rfl, -⟩ := unifyVars_extends (hu n (Nat.le_refl n))
  have hmem : Ty.atom stub.name ∈ sol.map Prod.fst := by
    rw [hk, List.map_append]
    exact List.mem_append_left _ (List.mem_map_of_mem Prod.fst (Dict.mem_of_get? hbind))
  refine ⟨n, fun fuel hf => applyWithType_of_specialize ?_ hst.myType_eq hsol hmem hentry⟩
  exact specialize_eq_ok hst.myType_eq
    (by simp [Dict.getItem, hbind, Ty.pyLen, hst.arity hbind hentry]) (hu fuel hf) hsimp

/-- On the entry of `recursiveProgram` specialized to `(void)`, whose map is acyclic. -/
theorem applyWithType_returns_recursive :
    Annotated recursiveSolution.lookupSubst recursiveEntry ∧
    recursiveEntry.intermediateTypes.get? (.atom recursiveEntry.name) =
      some (.tuple [.atom "Unknown-2"]) ∧
    (Ty.tuple [.atom "void"]).noneFree ∧
    (Ty.atom recursiveEntry.name).subst recursiveSolution.lookupSubst =
      (Ty.tuple [.atom "void"]).subst recursiveSolution.lookupSubst ∧
    (∀ e ∈ recursiveEntry.intermediateTypes, ∃ x, e.1 = .atom x) ∧
    recursiveEntry.intermediateTypes.Acyclic ∧
    ∃ bound, ∀ fuel ≥ bound,
      Outcome (· = .assertionError "Type must be fully resolved at this point")
        (· = (Ty.tuple [.atom "void"]).subst recursiveSolution.lookupSubst)
        (applyWithType fuel recursiveEntry (.tuple [.atom "void"])) := by
  have hst : Annotated recursiveSolution.lookupSubst recursiveEntry := ⟨rfl, by decide, rfl⟩
  have hentry : (Ty.atom recursiveEntry.name).subst recursiveSolution.lookupSubst =
      (Ty.tuple [.atom "void"]).subst recursiveSolution.lookupSubst := by decide
  have hkeys : ∀ e ∈ recursiveEntry.intermediateTypes, ∃ x, e.1 = .atom x := by
    simp only [recursiveEntry, stdTypes, List.cons_append, List.nil_append, List.mem_cons,
      List.not_mem_nil, or_false]
    rintro e (rfl | rfl | rfl | rfl | rfl | rfl | rfl | rfl) <;> exact ⟨_, rfl⟩
  have hac : recursiveEntry.intermediateTypes.Acyclic := Dict.acyclic_of_values_free (by decide)
  exact ⟨hst, rfl, rfl, hentry, hkeys, hac,
    applyWithType_returns hst rfl rfl hentry hkeys hac⟩

/-- Two keys bound to each other make `unify_vars` follow them until the budget runs out, against
any type that is neither of them nor `None`, whatever the budget. -/
theorem unifyVars_cycle {S : Dict} {x y : String} (hx : S.get? (.atom x) = some (.atom y))
    (hy : S.get? (.atom y) = some (.atom x)) {t : Ty} (htx : t ≠ .atom x) (hty : t ≠ .atom y)
    (htn : t ≠ .none) : ∀ fuel, unifyVars fuel (.atom x) t S = .error .recursionError ∧
      unifyVars fuel (.atom y) t S = .error .recursionError
  | 0 => ⟨rfl, rfl⟩
  | n + 1 => by
    have hnt : ∀ (z : String) t1 t2, Ty.atom z = .tuple t1 → t = .tuple t2 → False :=
      fun _ _ _ h => by cases h
    have hn : ∀ z : String, ¬(Ty.atom z = .none ∨ t = .none) := fun _ h => by
      rcases h with h | h
      · cases h
      · exact htn h
    rw [unifyVars.eq_3 _ _ _ _ (hnt x), unifyVars.eq_3 _ _ _ _ (hnt y)]
    simp only [hn, if_false, if_neg (Ne.symm htx), if_neg (Ne.symm hty), hx, hy]
    exact ⟨(unifyVars_cycle hx hy htx hty htn n).2, (unifyVars_cycle hx hy htx hty htn n).1⟩

/-- `f` and `h` both call `g` on their two parameters `a` and `b`, in the opposite orders, so that
`f`'s map binds `Unknown-a` to `Unknown-b` and `h`'s binds `Unknown-b` to `Unknown-a`; `main` takes
a parameter `a`. -/
def cycleProgram : String :=
  "(defun f (a b) ((g a) (g b)))(defun h (b a) ((g b) (g a)))(defun main (a) a)"

/-- A stub of `cycleProgram` that calls `g` on its parameters. -/
def cycleStub (name p q : String) : FunctionStub :=
  { name, paramsList := [p, q],
    body := .node .unknown [.node .unknown [.node .string1 [.str "g"], .node .string1 [.str p]],
      .node .unknown [.node .string1 [.str "g"], .node .string1 [.str q]]] }

/-- The stub extracted for `main`. -/
def cycleMain : FunctionStub :=
  { name := "main", paramsList := ["a"], body := .node .string1 [.str "a"] }

/-- The map of `f` after unification, before simplification. -/
def cycleFUnified : Dict :=
  [(.atom "g", .tuple [.atom "Unknown-a", .atom "Unknown-1"]), (.atom "Unknown-a", .atom "Unknown-b"),
   (.atom "Unknown-1", .atom "Unknown-2"),
   (.atom "f", .tuple [.atom "Unknown-a", .atom "Unknown-b", .atom "Unknown-2"])]

/-- The map of `f`: one round of simplification. -/
def cycleFTypes : Dict :=
  [(.atom "g", .tuple [.atom "Unknown-b", .atom "Unknown-2"]), (.atom "Unknown-a", .atom "Unknown-b"),
   (.atom "Unknown-1", .atom "Unknown-2"),
   (.atom "f", .tuple [.atom "Unknown-b", .atom "Unknown-b", .atom "Unknown-2"])]

/-- The map of `h` after unification, before simplification. -/
def cycleHUnified : Dict :=
  [(.atom "g", .tuple [.atom "Unknown-b", .atom "Unknown-3"]), (.atom "Unknown-b", .atom "Unknown-a"),
   (.atom "Unknown-3", .atom "Unknown-4"),
   (.atom "h", .tuple [.atom "Unknown-b", .atom "Unknown-a", .atom "Unknown-4"])]

/-- The map of `h`: one round of simplification. -/
def cycleHTypes : Dict :=
  [(.atom "g", .tuple [.atom "Unknown-a", .atom "Unknown-4"]), (.atom "Unknown-b", .atom "Unknown-a"),
   (.atom "Unknown-3", .atom "Unknown-4"),
   (.atom "h", .tuple [.atom "Unknown-a", .atom "Unknown-a", .atom "Unknown-4"])]

/-- The stubs after annotation. -/
def cycleAnnotated : List FunctionStub :=
  [{ cycleStub "f" "a" "b" with myType := some (.atom "f"), intermediateTypes := cycleFTypes },
   { cycleStub "h" "b" "a" with myType := some (.atom "h"), intermediateTypes := cycleHTypes },
   { cycleMain with
      myType := some (.atom "main")
      intermediateTypes := [(.atom "main", .tuple [.atom "Unknown-a", .atom "Unknown-a"])] }]

/-- `main_fn` after the merges: `f`'s map and `h`'s bindings of the keys that it lacks, among them
`Unknown-b` bound back to `Unknown-a`, then the primitive table. -/
def cycleEntry : FunctionStub :=
  { cycleMain with
    myType := some (.atom "main")
    intermediateTypes := [(.atom "main", .tuple [.atom "Unknown-a", .atom "Unknown-a"])] ++
      cycleFTypes ++ [(.atom "Unknown-2", .atom "Unknown-4"), (.atom "Unknown-b", .atom "Unknown-a"),
        (.atom "Unknown-3", .atom "Unknown-4"),
        (.atom "h", .tuple [.atom "Unknown-a", .atom "Unknown-a", .atom "Unknown-4"])] ++ stdTypes }

/-- Every variable is `int`, and each function has its signature over `int`. -/
def cycleSolver : String → Ty
  | "g" => .tuple [.atom "int", .atom "int"]
  | "f" | "h" => .tuple [.atom "int", .atom "int", .atom "int"]
  | "main" => .tuple [.atom "int", .atom "int"]
  | s => (stdTypes.get? (.atom s)).getD (.atom "int")

/-- On `cycleProgram`, whose constraints and the primitive table `cycleSolver` solves, the merge
binds `Unknown-a` and `Unknown-b` to each other, and `apply_with_type` with the invocation
`(int, int)` raises `RecursionError` at every budget. -/
theorem unifyVars_cycle_program :
    extractFunctions cycleProgram = .ok [cycleStub "f" "a" "b", cycleStub "h" "b" "a", cycleMain] ∧
    (∃ cs, generatedConstraints [cycleStub "f" "a" "b", cycleStub "h" "b" "a", cycleMain] 0 = .ok cs ∧
      Solves cycleSolver cs ∧ constraintsNoneFree cs) ∧ stdTypes.Satisfies cycleSolver ∧
    inferTypes recursionLimit cycleProgram "main" = .ok (cycleAnnotated, 2, cycleEntry, 4) ∧
    Annotated cycleSolver cycleEntry ∧
    (Ty.atom "main").subst cycleSolver = (Ty.tuple [.atom "int", .atom "int"]).subst cycleSolver ∧
    cycleEntry.intermediateTypes.get? (.atom "Unknown-a") = some (.atom "Unknown-b") ∧
    cycleEntry.intermediateTypes.get? (.atom "Unknown-b") = some (.atom "Unknown-a") ∧
    (∀ fuel, unifyVars fuel (.atom "Unknown-a") (.atom "int") cycleEntry.intermediateTypes =
      .error .recursionError) ∧
    ∀ fuel, applyWithType fuel cycleEntry (.tuple [.atom "int", .atom "int"]) =
      .error .recursionError := by
  have hS : extractFunctions cycleProgram =
      .ok [cycleStub "f" "a" "b", cycleStub "h" "b" "a", cycleMain] := by decide
  -- each stub's constraints, unified and simplified
  have hcF : fnTypeAnnotator (cycleStub "f" "a" "b") 0 [] = .ok (.atom "f", 2,
      [⟨.atom "g", .tuple [.atom "Unknown-a", .atom "Unknown-1"]⟩,
       ⟨.atom "g", .tuple [.atom "Unknown-b", .atom "Unknown-2"]⟩,
       ⟨.atom "f", .tuple [.atom "Unknown-a", .atom "Unknown-b", .atom "Unknown-2"]⟩]) := by decide
  have hcH : fnTypeAnnotator (cycleStub "h" "b" "a") 2 [] = .ok (.atom "h", 4,
      [⟨.atom "g", .tuple [.atom "Unknown-b", .atom "Unknown-3"]⟩,
       ⟨.atom "g", .tuple [.atom "Unknown-a", .atom "Unknown-4"]⟩,
       ⟨.atom "h", .tuple [.atom "Unknown-b", .atom "Unknown-a", .atom "Unknown-4"]⟩]) := by decide
  have hcM : fnTypeAnnotator cycleMain 4 [] =
      .ok (.atom "main", 4, [⟨.atom "main", .tuple [.atom "Unknown-a", .atom "Unknown-a"]⟩]) := by
    decide
  have huF : unifyConstraints recursionLimit
      [⟨.atom "g", .tuple [.atom "Unknown-a", .atom "Unknown-1"]⟩,
       ⟨.atom "g", .tuple [.atom "Unknown-b", .atom "Unknown-2"]⟩,
       ⟨.atom "f", .tuple [.atom "Unknown-a", .atom "Unknown-b", .atom "Unknown-2"]⟩] =
      .ok cycleFTypes :=
    bind_eq_ok.2 ⟨cycleFUnified, by decide,
      simplifyUnification_of_round_eq (by decide) (by decide : simplifyRounds 1 cycleFUnified = _)
        (by decide)⟩
  have huH : unifyConstraints recursionLimit
      [⟨.atom "g", .tuple [.atom "Unknown-b", .atom "Unknown-3"]⟩,
       ⟨.atom "g", .tuple [.atom "Unknown-a", .atom "Unknown-4"]⟩,
       ⟨.atom "h", .tuple [.atom "Unknown-b", .atom "Unknown-a", .atom "Unknown-4"]⟩] =
      .ok cycleHTypes :=
    bind_eq_ok.2 ⟨cycleHUnified, by decide,
      simplifyUnification_of_round_eq (by decide) (by decide : simplifyRounds 1 cycleHUnified = _)
        (by decide)⟩
  have huM : unifyConstraints recursionLimit
      [⟨.atom "main", .tuple [.atom "Unknown-a", .atom "Unknown-a"]⟩] =
      .ok [(.atom "main", .tuple [.atom "Unknown-a", .atom "Unknown-a"])] :=
    bind_eq_ok.2 ⟨_, by decide, simplifyUnification_of_round_eq (Nat.zero_le _) rfl (by decide)⟩
  have hA : annotateAll recursionLimit [cycleStub "f" "a" "b", cycleStub "h" "b" "a", cycleMain] 0 =
      .ok (cycleAnnotated, 4) := by
    rw [annotateAll, annotateType_eq_ok hcF huF, ok_bind]
    dsimp only
    rw [annotateAll, annotateType_eq_ok hcH huH, ok_bind]
    dsimp only
    rw [annotateAll, annotateType_eq_ok hcM huM, ok_bind]
    rfl
  have hI : inferTypes recursionLimit cycleProgram "main" = .ok (cycleAnnotated, 2, cycleEntry, 4) := by
    rw [inferTypes, hS, ok_bind, hA]
    decide
  -- the entry's unification follows the pair at every budget
  have ha : cycleEntry.intermediateTypes.get? (.atom "Unknown-a") = some (.atom "Unknown-b") := by
    decide
  have hb : cycleEntry.intermediateTypes.get? (.atom "Unknown-b") = some (.atom "Unknown-a") := by
    decide
  have hcyc := unifyVars_cycle ha hb (by decide : Ty.atom "int" ≠ .atom "Unknown-a") (by decide)
    (by decide)
  have hmain : cycleEntry.intermediateTypes.get? (.atom "main") =
      some (.tuple [.atom "Unknown-a", .atom "Unknown-a"]) := by decide
  have hu : ∀ fuel, unifyVars fuel (.atom "main") (.tuple [.atom "int", .atom "int"])
      cycleEntry.intermediateTypes = .error .recursionError
    | 0 | 1 => rfl
    | k + 2 => by
      rw [unifyVars.eq_3 _ _ _ _ fun _ _ h => by cases h]
      simp only [hmain, reduceCtorEq, or_self, if_false]
      rw [unifyVars]
      simp only [List.zip_cons_cons, List.zip_nil_left, List.foldlM_cons, (hcyc k).1, error_bind]
  refine ⟨hS, ⟨_, rfl, by decide, rfl⟩, by decide, hI, ⟨rfl, by decide, rfl⟩, by decide, ha, hb,
    fun fuel => (hcyc fuel).1, fun fuel => ?_⟩
  have hmy : cycleEntry.myType = some (.atom "main") := rfl
  simp only [applyWithType, specialize, FunctionStub.myTypeKey, hmy, Dict.getItem, hmain, Ty.pyLen,
    List.length_cons, List.length_nil, ne_eq, not_true_eq_false, if_false, pure_eq_ok, ok_bind,
    hu fuel, error_bind]

end Budget

end LispCompiler
