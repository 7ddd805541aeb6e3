import LispCompiler.Completeness

/-!
# Signatures stay tuples

`apply_with_type` compares the invocation's arity with `len` of the entry's binding, which is the
number of slots only when that binding is a tuple. `type_annotator` names every variable
`Unknown-...` and constrains every called name to a tuple. When every constraint pairs a function's
name with a signature, or two base types or variables (`constraintsSorted`, decidable on a
program's constraints), the maps that inference builds bind functions' names to signatures and
variables to base types or variables (`Dict.Sorted`). Every stage keeps that shape
(`unifyVars_sorted`, `simplifyRounds_sorted`, `unifyTypeDicts_sorted`) and keeps the entry's name
bound (`SortedStub`), so the entry is bound to a tuple. With the completeness of each stage
(`Completeness.lean`), the stages up to `apply_with_type` then raise no type error on a program
that a substitution solves (`inference_complete`).
-/

namespace LispCompiler

/-- A variable of `type_annotator`: its name starts with `Unknown-`. -/
def isVarName (s : String) : Bool := "Unknown-".toList.isPrefixOf s.toList

namespace Ty

/-- A type that stands for a value: a base type or a variable. -/
def isSimple : Ty → Bool
  | .atom s => isBaseName s || isVarName s
  | _ => false

/-- A function's name as a type: an atom that is neither a base type nor a variable. -/
def isFnAtom : Ty → Bool
  | .atom s => !isBaseName s && !isVarName s
  | _ => false

/-- A function's signature: a tuple of simple types. -/
def isSignature : Ty → Bool
  | .tuple ts => ts.all isSimple
  | _ => false

end Ty

/-- A binding of a sorted map: a function's name to a signature, or a variable to a simple
type. -/
def sortedBinding (k v : Ty) : Bool :=
  (k.isFnAtom && v.isSignature) || (k.isSimple && !k.isBaseType && v.isSimple)

/-- Two types that `unify_vars` meets in a run over sorted maps: two simple types, or a signature
against a signature or a function's name. -/
def Compatible (a b : Ty) : Bool :=
  (a.isSimple && b.isSimple) || ((a.isSignature || a.isFnAtom) && b.isSignature)

/-- Every binding of `d` is sorted. -/
def Dict.Sorted (d : Dict) : Prop := ∀ e ∈ d, sortedBinding e.1 e.2

instance (d : Dict) : Decidable d.Sorted := inferInstanceAs (Decidable (∀ e ∈ d, _))

/-- Every constraint of `cs` relates compatible types. -/
def constraintsSorted (cs : List TypeConstraint) : Bool := cs.all fun c => Compatible c.lhs c.rhs

/-! ## Sorted bindings -/

section Bindings

variable {a b k v : Ty}

/-- A simple type or a signature holds no `None`. -/
theorem Ty.noneFree_of_isSimple (h : a.isSimple) : a.noneFree := by
  cases a <;> simp_all [Ty.isSimple, Ty.noneFree]

theorem Ty.noneFree_of_isSignature (h : a.isSignature) : a.noneFree := by
  cases a with
  | tuple ts =>
    simp only [Ty.isSignature, List.all_eq_true] at h
    simpa [Ty.noneFree] using fun t ht => Ty.noneFree_of_isSimple (h t ht)
  | _ => simp [Ty.isSignature] at h

theorem Ty.isSimple_eq_false_of_isFnAtom (h : a.isFnAtom) : a.isSimple = false := by
  cases a <;> simp_all [Ty.isFnAtom, Ty.isSimple]

theorem Ty.isSignature_eq_false_of_isFnAtom (h : a.isFnAtom) : a.isSignature = false := by
  cases a <;> simp_all [Ty.isFnAtom, Ty.isSignature]

theorem Ty.isBaseType_eq_false_of_isFnAtom (h : a.isFnAtom) : a.isBaseType = false := by
  cases a <;> simp_all [Ty.isFnAtom, Ty.isBaseType]

theorem Ty.isSignature_eq_false_of_isSimple (h : a.isSimple) : a.isSignature = false := by
  cases a <;> simp_all [Ty.isSimple, Ty.isSignature]

theorem Ty.isFnAtom_eq_false_of_isSimple (h : a.isSimple) : a.isFnAtom = false := by
  cases a with
  | atom s =>
    revert h
    simp only [Ty.isSimple, Ty.isFnAtom]
    cases isBaseName s <;> cases isVarName s <;> decide
  | _ => rfl

theorem Ty.exists_tuple_of_isSignature (h : a.isSignature) : ∃ ts, a = .tuple ts := by
  cases a <;> simp_all [Ty.isSignature]

/-- A binding's value is compatible with what its key is compatible with. -/
theorem compatible_of_binding_left (hkv : sortedBinding k v) (hkb : Compatible k b) :
    Compatible v b := by
  simp only [sortedBinding, Compatible, Bool.or_eq_true, Bool.and_eq_true] at hkv hkb ⊢
  rcases hkv with ⟨hk, hv⟩ | ⟨⟨hk, -⟩, hv⟩
  · -- a function's name meets a signature
    rcases hkb with ⟨hk', -⟩ | ⟨-, hb⟩
    · simp [Ty.isSimple_eq_false_of_isFnAtom hk] at hk'
    · exact .inr ⟨.inl hv, hb⟩
  · -- a variable meets a simple type
    rcases hkb with ⟨-, hb⟩ | ⟨hk' | hk', -⟩
    · exact .inl ⟨hv, hb⟩
    · simp [Ty.isSignature_eq_false_of_isSimple hk] at hk'
    · simp [Ty.isFnAtom_eq_false_of_isSimple hk] at hk'

theorem compatible_of_binding_right (hkv : sortedBinding k v) (hak : Compatible a k) :
    Compatible a v := by
  simp only [sortedBinding, Compatible, Bool.or_eq_true, Bool.and_eq_true] at hkv hak ⊢
  rcases hkv with ⟨hk, -⟩ | ⟨⟨hk, -⟩, hv⟩
  · -- nothing is compatible with a function's name on the right
    rcases hak with ⟨-, hk'⟩ | ⟨-, hk'⟩
    · simp [Ty.isSimple_eq_false_of_isFnAtom hk] at hk'
    · simp [Ty.isSignature_eq_false_of_isFnAtom hk] at hk'
  · rcases hak with ⟨ha, -⟩ | ⟨-, hk'⟩
    · exact .inl ⟨ha, hv⟩
    · simp [Ty.isSignature_eq_false_of_isSimple hk] at hk'

/-- Compatible types that are not two tuples make a sorted binding of the one that is not base. -/
theorem sortedBinding_of_compatible (hab : Compatible a b) (ha : a.isBaseType = false)
    (hnt : ∀ t1 t2, a = .tuple t1 → b = .tuple t2 → False) : sortedBinding a b := by
  simp only [sortedBinding, Compatible, Bool.or_eq_true, Bool.and_eq_true] at hab ⊢
  rcases hab with ⟨ha', hb⟩ | ⟨ha' | ha', hb⟩
  · exact .inr ⟨⟨ha', by simp [ha]⟩, hb⟩
  · obtain ⟨t1, rfl⟩ := Ty.exists_tuple_of_isSignature ha'
    obtain ⟨t2, rfl⟩ := Ty.exists_tuple_of_isSignature hb
    exact (hnt t1 t2 rfl rfl).elim
  · exact .inl ⟨ha', hb⟩

theorem sortedBinding_of_compatible_base (hab : Compatible a b) (ha : a.isBaseType)
    (hb : b.isBaseType = false) (hnt : ∀ t1 t2, a = .tuple t1 → b = .tuple t2 → False) :
    sortedBinding b a := by
  simp only [sortedBinding, Compatible, Bool.or_eq_true, Bool.and_eq_true] at hab ⊢
  rcases hab with ⟨ha', hb'⟩ | ⟨ha' | ha', hb'⟩
  · exact .inr ⟨⟨hb', by simp [hb]⟩, ha'⟩
  · obtain ⟨t1, rfl⟩ := Ty.exists_tuple_of_isSignature ha'
    obtain ⟨t2, rfl⟩ := Ty.exists_tuple_of_isSignature hb'
    exact (hnt t1 t2 rfl rfl).elim
  · simp [Ty.isBaseType_eq_false_of_isFnAtom ha'] at ha

/-- Two values of one key are compatible. -/
theorem compatible_of_bindings (hv : sortedBinding k v) (hb : sortedBinding k b) :
    Compatible v b := by
  simp only [sortedBinding, Compatible, Bool.or_eq_true, Bool.and_eq_true] at hv hb ⊢
  rcases hv with ⟨hk, hv⟩ | ⟨⟨hk, -⟩, hv⟩ <;> rcases hb with ⟨hk', hb⟩ | ⟨⟨hk', -⟩, hb⟩
  · exact .inr ⟨.inl hv, hb⟩
  · simp [Ty.isSimple_eq_false_of_isFnAtom hk] at hk'
  · simp [Ty.isSimple_eq_false_of_isFnAtom hk'] at hk
  · exact .inl ⟨hv, hb⟩

/-- A variable is bound to a simple type. -/
theorem isSimple_of_binding (hkv : sortedBinding k v) (hk : k.isSimple) : v.isSimple := by
  simp only [sortedBinding, Bool.or_eq_true, Bool.and_eq_true] at hkv
  rcases hkv with ⟨hk', -⟩ | ⟨-, hv⟩
  · simp [Ty.isSimple_eq_false_of_isFnAtom hk'] at hk
  · exact hv

/-- A function's name is bound to a signature. -/
theorem isSignature_of_binding (hkv : sortedBinding k v) (hk : k.isFnAtom) : v.isSignature := by
  simp only [sortedBinding, Bool.or_eq_true, Bool.and_eq_true] at hkv
  rcases hkv with ⟨-, hv⟩ | ⟨⟨hk', -⟩, -⟩
  · exact hv
  · simp [Ty.isSimple_eq_false_of_isFnAtom hk] at hk'

/-- A name that is compatible with a tuple is a function's name. -/
theorem isFnAtom_of_compatible_tuple {s : String} {ts : List Ty}
    (h : Compatible (.atom s) (.tuple ts)) : (Ty.atom s).isFnAtom := by
  simp only [Compatible, Ty.isSimple, Ty.isSignature, Bool.and_false, Bool.false_or,
    Bool.and_eq_true] at h
  exact h.1

/-- Compatible types hold no `None`. -/
theorem noneFree_of_compatible (h : Compatible a b) : a.noneFree ∧ b.noneFree := by
  simp only [Compatible, Bool.or_eq_true, Bool.and_eq_true] at h
  rcases h with ⟨ha, hb⟩ | ⟨ha | ha, hb⟩
  · exact ⟨Ty.noneFree_of_isSimple ha, Ty.noneFree_of_isSimple hb⟩
  · exact ⟨Ty.noneFree_of_isSignature ha, Ty.noneFree_of_isSignature hb⟩
  · cases a <;> simp_all [Ty.isFnAtom, Ty.noneFree, Ty.noneFree_of_isSignature hb]

end Bindings

/-- Sorted constraints hold no `None`. -/
theorem constraintsNoneFree_of_sorted {cs : List TypeConstraint} (h : constraintsSorted cs) :
    constraintsNoneFree cs :=
  List.all_eq_true.2 fun c hc => by
    simpa using noneFree_of_compatible (List.all_eq_true.1 h c hc)

namespace Dict

variable {d : Dict} {k v : Ty}

theorem Sorted.get? (hd : d.Sorted) (h : d.get? k = some v) : sortedBinding k v :=
  hd _ (mem_of_get? h)

/-- A sorted map has no tuple as a key. -/
theorem Sorted.get?_tuple (hd : d.Sorted) (ts : List Ty) : d.get? (.tuple ts) = none := by
  cases h : d.get? (.tuple ts) with
  | none => rfl
  | some v => simpa [sortedBinding, Ty.isFnAtom, Ty.isSimple] using hd.get? h

theorem Sorted.setItem (hd : d.Sorted) (h : sortedBinding k v) : (d.setItem k v).Sorted :=
  fun e he => (mem_setItem he).elim (hd e) fun he => he ▸ h

@[simp] theorem sorted_append (d d' : Dict) : (d ++ d').Sorted ↔ d.Sorted ∧ d'.Sorted := by
  simp only [Sorted, List.mem_append]
  exact ⟨fun h => ⟨fun e he => h e (.inl he), fun e he => h e (.inr he)⟩,
    fun h e he => he.elim (h.1 e) (h.2 e)⟩

/-- The keys of `d[k] = v`: those of `d`, and `k`. -/
theorem mem_keys_setItem : ∀ {d : Dict} {k v x : Ty},
    x ∈ (d.setItem k v).map Prod.fst ↔ x ∈ d.map Prod.fst ∨ x = k
  | [], _, _, _ => by simp [setItem]
  | (k', v') :: d, k, v, x => by
    unfold setItem
    split
    · subst k'
      simp only [List.map_cons, List.mem_cons]
      exact ⟨.inl, fun h => h.elim id .inl⟩
    · simp only [List.map_cons, List.mem_cons, mem_keys_setItem, or_assoc]

/-- A function's name that is a key of a sorted map is bound to a tuple. -/
theorem Sorted.get?_fnAtom (hd : d.Sorted) (hk : k.isFnAtom) (hmem : k ∈ d.map Prod.fst) :
    ∃ ts, d.get? k = some (.tuple ts) := by
  obtain ⟨v, hv⟩ := get?_of_mem_keys hmem
  obtain ⟨ts, rfl⟩ := Ty.exists_tuple_of_isSignature (isSignature_of_binding (hd.get? hv) hk)
  exact ⟨ts, hv⟩

end Dict

/-- The primitive table binds names to signatures. -/
theorem stdTypes_sorted : stdTypes.Sorted := by decide

/-! ## Unification keeps maps sorted -/

/-- `bind_vars` on compatible types that are not two tuples keeps a map sorted. -/
theorem bindVars_sorted {a b : Ty} {S S' : Dict} (hS : S.Sorted) (hab : Compatible a b)
    (hnt : ∀ t1 t2, a = .tuple t1 → b = .tuple t2 → False) (h : bindVars a b S = .ok S') :
    S'.Sorted := by
  unfold bindVars at h
  cases ha : a.isBaseType <;> cases hb : b.isBaseType <;> simp only [ha, hb] at h
  · cases h
    exact hS.setItem (sortedBinding_of_compatible hab ha hnt)
  · cases h
    exact hS.setItem (sortedBinding_of_compatible hab ha hnt)
  · cases h
    exact hS.setItem (sortedBinding_of_compatible_base hab ha hb hnt)
  · split at h
    · cases h
      exact hS
    · cases h

/-- Unifying compatible types keeps a map sorted. -/
theorem unifyVars_sorted {fuel : Nat} {a b : Ty} {S S' : Dict} (hS : S.Sorted)
    (hab : Compatible a b) (h : unifyVars fuel a b S = .ok S') : S'.Sorted := by
  induction fuel, a, b, S using unifyVars.induct generalizing S' with
  | case1 => simp [unifyVars] at h
  | case2 fuel t1 t2 S ih =>
    rw [unifyVars] at h
    -- two signatures: their elements are simple
    have hsig : t1.all Ty.isSimple ∧ t2.all Ty.isSimple := by
      simpa [Compatible, Ty.isSimple, Ty.isSignature, Ty.isFnAtom] using hab
    refine foldlM_invariant Dict.Sorted (fun ⟨x, y⟩ hxy s _ hx hs => ih s x y hs ?_ hx) h hS
    have hx := List.all_eq_true.1 hsig.1 x (List.of_mem_zip hxy).1
    have hy := List.all_eq_true.1 hsig.2 y (List.of_mem_zip hxy).2
    simp [Compatible, hx, hy]
  | case3 fuel one two S hnt hn =>
    rw [unifyVars.eq_3 _ _ _ _ hnt] at h
    simp [hn] at h
  | case4 fuel two S hnt hn =>
    rw [unifyVars.eq_3 _ _ _ _ hnt] at h
    simp only [hn, if_false, if_true, pure_eq_ok, Except.ok.injEq] at h
    exact h ▸ hS
  | case5 fuel one two S hnt hn hne v hv ih =>
    rw [unifyVars.eq_3 _ _ _ _ hnt] at h
    simp only [hn, hne, hv, if_false] at h
    exact ih hS (compatible_of_binding_left (hS.get? hv) hab) h
  | case6 fuel one two S hnt hn hne h1 v hv ih =>
    rw [unifyVars.eq_3 _ _ _ _ hnt] at h
    simp only [hn, hne, h1, hv, if_false] at h
    exact ih hS (compatible_of_binding_right (hS.get? hv) hab) h
  | case7 fuel one two S hnt hn hne h1 h2 =>
    rw [unifyVars.eq_3 _ _ _ _ hnt] at h
    simp only [hn, hne, h1, h2, if_false] at h
    exact bindVars_sorted hS hab hnt h

/-- Unifying a function's name with a tuple over a sorted map binds the name. -/
theorem unifyVars_binds_fnAtom {fuel : Nat} {n : String} {ts : List Ty} {S S' : Dict}
    (hS : S.Sorted) (hn : (Ty.atom n).isFnAtom)
    (h : unifyVars fuel (.atom n) (.tuple ts) S = .ok S') : .atom n ∈ S'.map Prod.fst := by
  obtain ⟨new, rfl, -⟩ := unifyVars_extends h
  cases hv : S.get? (.atom n) with
  | some v =>
    -- already bound: unification only appends
    rw [List.map_append]
    exact List.mem_append_left _ (List.mem_map_of_mem Prod.fst (Dict.mem_of_get? hv))
  | none =>
    cases fuel with
    | zero => simp [unifyVars] at h
    | succ fuel =>
      rw [unifyVars.eq_3 _ _ _ _ fun _ _ h => by cases h] at h
      simp only [reduceCtorEq, or_self, if_false, hv, hS.get?_tuple] at h
      unfold bindVars at h
      rw [Ty.isBaseType_eq_false_of_isFnAtom hn] at h
      cases hb : (Ty.tuple ts).isBaseType <;> simp only [hb, pure_eq_ok, Except.ok.injEq] at h <;>
        exact h ▸ Dict.mem_keys_setItem.2 (.inr rfl)

/-! ## Simplification keeps maps sorted -/

section Simplification

variable {d : Dict} (hd : d.Sorted)
include hd

/-- Demoting a simple type gives a simple type. -/
theorem demoteConstraint_isSimple {t : Ty} (ht : t.isSimple) : (demoteConstraint d t).isSimple := by
  unfold demoteConstraint
  split
  · rename_i v hv
    split
    · exact isSimple_of_binding (hd.get? hv) ht
    · exact ht
  · exact ht

theorem convertType_isSimple {u t t' : Ty} (ht : t.isSimple) (h : convertType d u t = .ok t') :
    t'.isSimple := by
  cases t with
  | atom s =>
    simp only [convertType, pure_eq_ok, Except.ok.injEq] at h
    subst h
    split
    · exact ht
    · exact demoteConstraint_isSimple hd ht
  | _ => simp [Ty.isSimple] at ht

theorem convertTypeList_isSimple {u : Ty} : ∀ {ts ts' : List Ty}, ts.all Ty.isSimple →
    convertTypeList d u ts = .ok ts' → ts'.all Ty.isSimple
  | [], _, _, h => by simp only [convertTypeList, pure_eq_ok, Except.ok.injEq] at h; simp [← h]
  | _ :: _, _, hts, h => by
    simp only [List.all_cons, Bool.and_eq_true] at hts
    simp only [convertTypeList, bind_eq_ok, pure_eq_ok, Except.ok.injEq] at h
    obtain ⟨t', h₁, ts', h₂, rfl⟩ := h
    simp [convertType_isSimple hd hts.1 h₁, convertTypeList_isSimple hts.2 h₂]

/-- Converting the value of a key keeps the binding sorted. -/
theorem convertType_sortedBinding {u v v' : Ty} (huv : sortedBinding u v)
    (h : convertType d u v = .ok v') : sortedBinding u v' := by
  simp only [sortedBinding, Bool.or_eq_true, Bool.and_eq_true] at huv ⊢
  rcases huv with ⟨hu, hv⟩ | ⟨hu, hv⟩
  · -- a signature: each element is converted
    obtain ⟨ts, rfl⟩ := Ty.exists_tuple_of_isSignature hv
    have hts : ts.all Ty.isSimple := by simpa [Ty.isSignature] using hv
    rcases convertType_tuple_eq_ok h with rfl | ⟨ts', hc, rfl⟩
    · exact .inl ⟨hu, hv⟩
    · exact .inl ⟨hu, convertTypeList_isSimple hd hts hc⟩
  · exact .inr ⟨hu, convertType_isSimple hd hv h⟩

end Simplification

/-- Simplification keeps a map sorted. -/
theorem simplifyRounds_sorted (n : Nat) {d d' : Dict} (h : simplifyRounds n d = .ok d')
    (hd : d.Sorted) : d'.Sorted ∧ d'.map Prod.fst = d.map Prod.fst :=
  simplifyRounds_invariant Dict.Sorted
    (fun hu hc hs => hs.setItem (convertType_sortedBinding hs (hs.get? hu) hc)) n h hd

/-! ## Every stage keeps the entry bound to a signature -/

/-- A stub whose map is sorted and binds the stub's name, which is a function's name. -/
structure SortedStub (f : FunctionStub) : Prop where
  /-- Every binding of the map is sorted. -/
  sorted : f.intermediateTypes.Sorted
  /-- The stub's name is neither a base type nor a variable. -/
  fnAtom : (Ty.atom f.name).isFnAtom
  /-- The map binds the stub's name. -/
  bound : .atom f.name ∈ f.intermediateTypes.map Prod.fst

/-- A sorted stub's own binding is a tuple. -/
theorem SortedStub.signature {f : FunctionStub} (hf : SortedStub f) :
    ∃ ts, f.intermediateTypes.get? (.atom f.name) = some (.tuple ts) :=
  hf.sorted.get?_fnAtom hf.fnAtom hf.bound

section Stages

variable {fuel : Nat}

/-- `fn_type_annotator` ends with the constraint of the function's name. -/
theorem fnTypeAnnotator_last {fn : FunctionStub} {c c' : Nat} {cs cs' : List TypeConstraint}
    {t : Ty} (h : fnTypeAnnotator fn c cs = .ok (t, c', cs')) :
    ∃ cs₀ ts, cs' = cs₀ ++ [⟨.atom fn.name, .tuple ts⟩] := by
  simp only [fnTypeAnnotator, bind_eq_ok] at h
  obtain ⟨_, -, _, -, h⟩ := h
  cases h
  exact ⟨_, _, rfl⟩

/-- Unifying sorted constraints that end with a function's constraint gives a sorted map that
binds the function's name. -/
theorem unifyConstraints_sorted {cs : List TypeConstraint} {n : String} {ts : List Ty} {d : Dict}
    (hcs : constraintsSorted (cs ++ [⟨.atom n, .tuple ts⟩]))
    (h : unifyConstraints fuel (cs ++ [⟨.atom n, .tuple ts⟩]) = .ok d) :
    d.Sorted ∧ .atom n ∈ d.map Prod.fst := by
  simp only [constraintsSorted, List.all_append, List.all_cons, List.all_nil, Bool.and_true,
    Bool.and_eq_true, List.all_eq_true] at hcs
  obtain ⟨S, hS, hd⟩ := bind_eq_ok.1 h
  rw [List.foldlM_append, bind_eq_ok] at hS
  obtain ⟨S₀, h₀, h₁⟩ := hS
  simp only [List.foldlM_cons, List.foldlM_nil, bind_pure] at h₁
  have hS₀ : Dict.Sorted S₀ := foldlM_invariant Dict.Sorted
    (fun c hc _ _ hs hsort => unifyVars_sorted hsort (hcs.1 c hc) hs) h₀ (fun _ h => nomatch h)
  obtain ⟨hdS, hk⟩ := simplifyRounds_sorted 10 hd (unifyVars_sorted hS₀ hcs.2 h₁)
  exact ⟨hdS, hk ▸ unifyVars_binds_fnAtom hS₀ (isFnAtom_of_compatible_tuple hcs.2) h₁⟩

/-- Annotation on sorted constraints gives a sorted stub. -/
theorem annotateType_sorted {stub f : FunctionStub} {c c' c'' : Nat} {t : Ty}
    {cs : List TypeConstraint} (hf : fnTypeAnnotator stub c [] = .ok (t, c', cs))
    (hcs : constraintsSorted cs) (h : annotateType fuel stub c = .ok (f, c'')) :
    SortedStub f ∧ c'' = c' := by
  obtain ⟨cs₀, ts, rfl⟩ := fnTypeAnnotator_last hf
  rw [annotateType, hf, ok_bind, bind_eq_ok] at h
  obtain ⟨d, hd, h⟩ := h
  cases h
  obtain ⟨hs, hk⟩ := unifyConstraints_sorted hcs hd
  have hc := List.all_eq_true.1 hcs _ (List.mem_append_right _ (List.mem_singleton_self _))
  exact ⟨⟨hs, isFnAtom_of_compatible_tuple hc, hk⟩, rfl⟩

/-- Annotating every stub on sorted constraints gives sorted stubs. -/
theorem annotateAll_sorted : ∀ {fs : List FunctionStub} {c : Nat} {cs : List TypeConstraint}
    {r : List FunctionStub × Nat}, generatedConstraints fs c = .ok cs → constraintsSorted cs →
    annotateAll fuel fs c = .ok r → ∀ f ∈ r.1, SortedStub f
  | [], _, _, _, _, _, h => by
    simp only [annotateAll, pure_eq_ok, Except.ok.injEq] at h
    simp [← h]
  | f :: fs, c, cs, r, hg, hs, h => by
    simp only [generatedConstraints, bind_eq_ok] at hg
    obtain ⟨⟨t, c₁, cs₁⟩, h₁, cs₂, h₂, hg⟩ := hg
    cases hg
    simp only [constraintsSorted, List.all_append, Bool.and_eq_true] at hs
    simp only [annotateAll, bind_eq_ok, pure_eq_ok, Except.ok.injEq] at h
    obtain ⟨⟨f', c'⟩, hf', ⟨fs', c''⟩, hfs', rfl⟩ := h
    obtain ⟨hsf, rfl⟩ := annotateType_sorted h₁ hs.1 hf'
    simpa [hsf] using annotateAll_sorted h₂ hs.2 hfs'

/-- Merging two sorted maps gives a sorted map that keeps the keys of the first. -/
theorem unifyTypeDicts_sorted {one two r : Dict} (h1 : one.Sorted) (h2 : two.Sorted)
    (h : unifyTypeDicts fuel one two = .ok r) :
    r.Sorted ∧ ∀ k ∈ one.map Prod.fst, k ∈ r.map Prod.fst := by
  obtain ⟨r₁, hr₁, hr⟩ := bind_eq_ok.1 h
  let P (r : Dict) : Prop := r.Sorted ∧ ∀ k ∈ one.map Prod.fst, k ∈ r.map Prod.fst
  refine foldlM_invariant P ?_ hr (foldlM_invariant P ?_ hr₁ ⟨h1, fun _ h => h⟩)
  · -- the keys of `two` only: `two`'s values
    rintro ⟨k, _⟩ - s s' hs ⟨hss, hk⟩
    by_cases hone : (one.get? k).isSome
    · simp only [hone, if_true, pure_eq_ok, Except.ok.injEq] at hs
      exact hs ▸ ⟨hss, hk⟩
    · cases hw : two.get? k with
      | none => simp [hone, Dict.getItem, hw] at hs
      | some w =>
        simp only [hone, Bool.false_eq_true, if_false, Dict.getItem, hw, pure_eq_ok, ok_bind,
          Except.ok.injEq] at hs
        subst hs
        exact ⟨hss.setItem (h2.get? hw), fun k' h' => Dict.mem_keys_setItem.2 (.inl (hk k' h'))⟩
  · -- the keys of `one`: their values unified with `two`'s, or kept
    rintro ⟨k, _⟩ - s s' hs ⟨hss, hk⟩
    cases hv : s.get? k with
    | none => simp [Dict.getItem, hv] at hs
    | some v =>
      simp only [Dict.getItem, hv, pure_eq_ok, ok_bind, Dict.setItem_of_get? hv] at hs
      split at hs
      · rename_i t ht
        obtain ⟨new, rfl, -⟩ := unifyVars_extends hs
        exact ⟨unifyVars_sorted hss (compatible_of_bindings (hss.get? hv) (h2.get? ht)) hs,
          fun k' h' => by simpa using Or.inl (hk k' h')⟩
      · cases hw : one.get? k with
        | none => simp [hw] at hs
        | some w =>
          simp only [hw, pure_eq_ok, ok_bind, Except.ok.injEq] at hs
          subst hs
          exact ⟨hss.setItem (h1.get? hw), fun k' h' => Dict.mem_keys_setItem.2 (.inl (hk k' h'))⟩

/-- Merging a sorted map into a sorted stub keeps it sorted. -/
theorem unifyWithOther_sorted {stub s : FunctionStub} {other : Dict} (hs : SortedStub stub)
    (ho : other.Sorted) (h : unifyWithOther fuel stub other = .ok s) : SortedStub s := by
  unfold unifyWithOther at h
  split at h
  · cases h
    exact hs
  · obtain ⟨d, hd, h⟩ := bind_eq_ok.1 h
    cases h
    obtain ⟨hds, hk⟩ := unifyTypeDicts_sorted hs.sorted ho hd
    exact ⟨hds, hs.fnAtom, hk _ hs.bound⟩

/-- Merging the maps of sorted stubs into a sorted stub keeps it sorted. -/
theorem mergeFunctions_sorted {functions : List FunctionStub} {mainIdx : Nat}
    {mainFn m : FunctionStub} (hfs : ∀ f ∈ functions, f.intermediateTypes.Sorted)
    (hm : SortedStub mainFn) (h : mergeFunctions fuel functions mainIdx mainFn = .ok m) :
    SortedStub m := by
  refine foldlM_invariant SortedStub (fun ⟨i, f⟩ hf s s' hs hss => unifyWithOther_sorted hss ?_ hs)
    h hm
  split
  · exact hss.sorted
  · exact hfs f (List.snd_mem_of_mem_enum hf)

end Stages

/-- The inference stages on sorted constraints bind the entry to a signature. -/
theorem inferTypes_sorted {fuel : Nat} {src entry : String} {fs : List FunctionStub}
    {cs : List TypeConstraint} {r : List FunctionStub × Nat × FunctionStub × Nat}
    (hfs : extractFunctions src = .ok fs) (hcs : generatedConstraints fs 0 = .ok cs)
    (hsorted : constraintsSorted cs) (h : inferTypes fuel src entry = .ok r) :
    SortedStub r.2.2.1 := by
  rw [inferTypes, hfs, ok_bind] at h
  obtain ⟨i, -, h⟩ := bind_eq_ok.1 h
  obtain ⟨⟨fs', c⟩, hann, h⟩ := bind_eq_ok.1 h
  have hall := annotateAll_sorted hcs hsorted hann
  dsimp only at h
  split at h
  · rename_i f hf
    obtain ⟨m, hm, h⟩ := bind_eq_ok.1 h
    obtain ⟨m', hm', h⟩ := bind_eq_ok.1 h
    cases h
    exact unifyWithOther_sorted (mergeFunctions_sorted (fun g hg => (hall g hg).sorted)
      (hall f (List.get?_mem hf)) hm) stdTypes_sorted hm'
  · cases h

/-- The stages up to `apply_with_type` keep a solution of sorted constraints, and the entry bound
to a signature. -/
theorem inference_keeps {fuel : Nat} {src entry : String} {fs : List FunctionStub}
    {cs : List TypeConstraint} {θ : String → Ty} {types : List Ty}
    (hfs : extractFunctions src = .ok fs) (hentry : entry ∈ fs.map (·.name))
    (hcs : generatedConstraints fs 0 = .ok cs) (hθ : Solves θ cs) (hsorted : constraintsSorted cs)
    (hstd : stdTypes.Satisfies θ) (happ : (Ty.tuple types).noneFree)
    (hinv : (Ty.atom entry).subst θ = (Ty.tuple types).subst θ) :
    Outcome (fun e => e = .recursionError ∨
        e = .assertionError "Type must be fully resolved at this point")
      (· = (Ty.tuple types).subst θ)
      (inferTypes fuel src entry >>= fun r => applyWithType fuel r.2.2.1 (.tuple types)) := by
  refine (((inferTypes_keeps hfs hentry hcs hθ (constraintsNoneFree_of_sorted hsorted)
    hstd).and_ok fun _ => inferTypes_sorted hfs hcs hsorted).imp (fun _ => Or.inl) fun _ => id).bind ?_
  rintro r ⟨⟨hname, hann⟩, hsort⟩
  obtain ⟨ts, hts⟩ := hsort.signature
  exact applyWithType_keeps hann hts happ (by rw [hname]; exact hinv)

/-- Inference and specialization raise no type error on a program whose sorted constraints a
substitution solves. When `θ` solves every constraint that annotation generates and the primitive
table, every constraint pairs a function's name with a signature or two simple types, and `θ`
equates the entry with an invocation type without `None`, the stages of `compiler.py` up to
`apply_with_type` raise nothing but `RecursionError` and the final assertion that every value of
the merged map is resolved; when they return, they return `θ`'s entry signature. No budget excludes `RecursionError`: a merge can bind two variables to each other, as on the
solvable `cycleProgram`, and `unify_vars` then follows them at every budget (`unifyVars_cycle`). -/
theorem inference_complete {fuel : Nat} {src entry : String} {fs : List FunctionStub}
    {cs : List TypeConstraint} {θ : String → Ty} {types : List Ty}
    (hfs : extractFunctions src = .ok fs) (hentry : entry ∈ fs.map (·.name))
    (hcs : generatedConstraints fs 0 = .ok cs) (hθ : Solves θ cs) (hsorted : constraintsSorted cs)
    (hstd : stdTypes.Satisfies θ) (happ : (Ty.tuple types).noneFree)
    (hinv : (Ty.atom entry).subst θ = (Ty.tuple types).subst θ) :
    Outcome (fun e => e = .recursionError ∨
        e = .assertionError "Type must be fully resolved at this point")
      (· = (Ty.tuple types).subst θ)
      (inferTypes fuel src entry >>= fun r => applyWithType fuel r.2.2.1 (.tuple types)) :=
  inference_keeps hfs hentry hcs hθ hsorted hstd happ hinv

/-- `id` called from `main`: every variable is fixed by the call. -/
def idCallProgram : String := "(defun id (x) x)(defun main () (id 1))"

/-- The stub extracted for `main` in `idCallProgram`. -/
def idCallMain : FunctionStub :=
  { name := "main", paramsList := [],
    body := .node .unknown [.node .string1 [.str "id"], .node .numberConstant [.str "1"]] }

/-- The constraints of `idCallProgram`: `id`'s own, the call's, and `main`'s. -/
def idCallConstraints : List TypeConstraint :=
  [⟨.atom "id", .tuple [.atom "Unknown-x", .atom "Unknown-x"]⟩,
   ⟨.atom "id", .tuple [.atom "int", .atom "Unknown-1"]⟩,
   ⟨.atom "main", .tuple [.atom "Unknown-1"]⟩]

/-- On `idCallProgram` with the invocation `(int)`, which `unusedIdSolver` also solves. -/
theorem inference_complete_idCall :
    extractFunctions idCallProgram = .ok [unusedId, idCallMain] ∧
    "main" ∈ [unusedId, idCallMain].map (·.name) ∧
    generatedConstraints [unusedId, idCallMain] 0 = .ok idCallConstraints ∧
    Solves unusedIdSolver idCallConstraints ∧ constraintsSorted idCallConstraints ∧
    stdTypes.Satisfies unusedIdSolver ∧ (Ty.tuple [.atom "int"]).noneFree ∧
    (Ty.atom "main").subst unusedIdSolver = (Ty.tuple [.atom "int"]).subst unusedIdSolver ∧
    Outcome (fun e => e = .recursionError ∨
        e = .assertionError "Type must be fully resolved at this point")
      (· = (Ty.tuple [.atom "int"]).subst unusedIdSolver)
      (inferTypes recursionLimit idCallProgram "main" >>= fun r =>
        applyWithType recursionLimit r.2.2.1 (.tuple [.atom "int"])) := by
  have hfs : extractFunctions idCallProgram = .ok [unusedId, idCallMain] := by decide
  have hcs : generatedConstraints [unusedId, idCallMain] 0 = .ok idCallConstraints := by decide
  have hθ : Solves unusedIdSolver idCallConstraints := by decide
  have hsorted : constraintsSorted idCallConstraints := by decide
  have hstd : stdTypes.Satisfies unusedIdSolver := by decide
  have hinv : (Ty.atom "main").subst unusedIdSolver =
      (Ty.tuple [.atom "int"]).subst unusedIdSolver := by decide
  exact ⟨hfs, by decide, hcs, hθ, hsorted, hstd, rfl, hinv,
    inference_complete hfs (by decide) hcs hθ hsorted hstd rfl hinv⟩

end LispCompiler
