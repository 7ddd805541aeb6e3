import LispCompiler.Simplification
import LispCompiler.Merge
import Mathlib.Data.List.Forall2

/-!
# Simplification on shared objects

`simplify_unification` rewrites `Type` objects in place, and `Type.set` copies the `type` field of
its argument: a string, or the very list of a tuple. An object set from a tuple's value then shares
that list with it, so that a later rewrite of an element is seen through both. The rounds of
`Unify.lean` rewrite each value apart; this module models the objects themselves.

A `Heap` holds the objects (`Cell`), by address, and the dictionary: each key with the reference of
its value. The keys are types, since no key object is ever shared with a value: `unify_vars` stores
clones, and `unify_type_dicts` copies key objects only as keys. Values may share objects: the map of
`apply_with_type` is a deep copy of maps that earlier simplifications have shared, and `deepcopy`
keeps the sharing. `Heap.isBaseType`, `Heap.convertType`, `Heap.demoteConstraint` and
`Heap.simplifyUnification` are the functions of `type.py` and `type_inference.py` on such objects,
with the depth of their recursion bounded by a budget, as Python's recursion limit bounds it. A
reference reads back as a type (`Unfolds`), and a heap as the map of its read-back values
(`Heap.ReadsAs`).

Only an object whose `type` is a string is ever set, so an object that holds a list keeps it for
good. Setting an object that holds the string `s` to the value of the key `s` replaces some
occurrences of `s` by that value in what every reference reads back as (`Unfolds.set_replaced`),
which keeps every resolution. So on a map whose bindings are acyclic and whose values hold no
`None`, with a budget above the depth of every resolution, `simplify_unification` returns, keeps
the keys, and keeps every resolution, whatever objects the values share
(`simplifyUnification_shared_keeps_resolutions`). On a cyclic map the shared lists can make a type
hold itself, and then `is_base_type` recurses until the limit, whatever the limit
(`simplifyUnification_shared_cycle`).
-/

namespace LispCompiler

/-! ## Objects -/

/-- A `Type` object: its `type` field, a string or a list of references to objects, `none` standing
for a `None` element. -/
inductive Cell where
  | atom (s : String)
  | tuple (refs : List (Option Nat))
  deriving DecidableEq, Repr

/-- The objects of a run, by address, and the dictionary: each key, in insertion order, with the
reference of its value. -/
structure Heap where
  cells : List Cell
  binds : List (Ty × Option Nat)
  deriving DecidableEq, Repr

namespace Heap

/-- The object at an address. Every reference a run holds is to an object; the model raises
`KeyError` at an address with none. -/
def get (h : Heap) (n : Nat) : Except PyError Cell :=
  match h.cells[n]? with
  | some c => pure c
  | Option.none => .error .keyError

/-- `unified[k]` for `k in unified`: the reference of the value of the first key equal to `k`. -/
def valueOf : List (Ty × Option Nat) → Ty → Option (Option Nat)
  | [], _ => Option.none
  | (k', r) :: bs, k => if k' = k then some r else valueOf bs k

/-- `t.set(v)` for the object `t` at address `n`: it takes the `type` field `c` of `v`. -/
def set (h : Heap) (n : Nat) (c : Cell) : Heap := { h with cells := h.cells.set n c }

mutual
/-- `t == k` for the object at `n` and a key `k`: the dataclass `__eq__` compares the `type` fields,
a string by value and a list element by element. -/
def eqKey (cells : List Cell) (n : Nat) : Ty → Bool
  | .atom s => cells[n]? == some (.atom s)
  | .tuple ks => match cells[n]? with
    | some (.tuple rs) => eqKeyList cells rs ks
    | _ => false
  | .none => false
/-- `eqKey` along a list of references and the elements of a key. -/
def eqKeyList (cells : List Cell) : List (Option Nat) → List Ty → Bool
  | [], [] => true
  | Option.none :: rs, .none :: ks => eqKeyList cells rs ks
  | some n :: rs, k :: ks => eqKey cells n k && eqKeyList cells rs ks
  | _, _ => false
end

/-- `all(f(u) for u in refs if isinstance(u, Type))`: `None` elements are skipped, and the first
`False` stops the walk. -/
def allRefs (f : Nat → Except PyError Bool) : List (Option Nat) → Except PyError Bool
  | [] => pure true
  | Option.none :: rs => allRefs f rs
  | some n :: rs => do if (← f n) then allRefs f rs else pure false

/-- `Type.is_base_type` on the object at `n`, with the depth of its recursion bounded by `fuel`. -/
def isBaseType : Nat → Heap → Nat → Except PyError Bool
  | 0, _, _ => .error .recursionError
  | fuel + 1, h, n => do
    match ← h.get n with
    | .atom s => pure (isBaseName s)
    | .tuple rs => allRefs (isBaseType fuel h) rs

/-- `demote_constraint(t)` for the object `t` at `n`, whose `type` is the string `s`: when `s` is a
key whose value differs from `t`, `t.set(unified[t])`. A `None` value has no `type` to copy. -/
def demoteConstraint (h : Heap) (n : Nat) (s : String) : Except PyError Heap :=
  match valueOf h.binds (.atom s) with
  | Option.none => pure h
  | some Option.none => .error .attributeError
  | some (some m) => do
    let c ← h.get m
    if c = .atom s then pure h else pure (h.set n c)

/-- `convert_type(base_t, t, demote_constraint)` for the reference `r`: nothing when `t == base_t`,
the demotion of a string, and otherwise every element of the list in turn, each on the objects as
the elements before it left them; `None` has no `type`. The depth of the recursion is bounded by
`fuel`. -/
def convertType : Nat → Ty → Heap → Option Nat → Except PyError Heap
  | 0, _, _, _ => .error .recursionError
  | _ + 1, _, _, Option.none => .error .attributeError
  | fuel + 1, baseT, h, some n =>
    if eqKey h.cells n baseT then pure h else do
    match ← h.get n with
    | .atom s => demoteConstraint h n s
    | .tuple rs => rs.foldlM (convertType fuel baseT) h

/-- One round of `simplify_unification`: for each key in order, its value converted unless it is
base. The dictionary's bindings never change; a `None` value has no `is_base_type`. -/
def simplifyRound (fuel : Nat) (h : Heap) : Except PyError Heap :=
  h.binds.foldlM (fun h (u, r) =>
      match r with
      | Option.none => .error .attributeError
      | some n => do if (← isBaseType fuel h n) then pure h else convertType fuel u h (some n))
    h

/-- `rounds` rounds of simplification. -/
def simplifyRounds (fuel : Nat) : Nat → Heap → Except PyError Heap
  | 0, h => pure h
  | n + 1, h => do simplifyRounds fuel n (← simplifyRound fuel h)

/-- `simplify_unification`: ten rounds. -/
def simplifyUnification (fuel : Nat) (h : Heap) : Except PyError Heap := simplifyRounds fuel 10 h

mutual
/-- Fresh objects for a type, after the objects `cells`: its reference, and the objects with its own
and its elements' appended. -/
def alloc (cells : List Cell) : Ty → Option Nat × List Cell
  | .atom s => (some cells.length, cells ++ [.atom s])
  | .tuple ts =>
    let p := allocList cells ts
    (some p.2.length, p.2 ++ [.tuple p.1])
  | .none => (Option.none, cells)
/-- `alloc` for the elements of a tuple, left to right. -/
def allocList (cells : List Cell) : List Ty → List (Option Nat) × List Cell
  | [] => ([], cells)
  | t :: ts =>
    let p := alloc cells t
    let q := allocList p.2 ts
    (p.1 :: q.1, q.2)
end

/-- The binding `k: v` added to a heap, with fresh objects for `v`. -/
def addBinding (h : Heap) (e : Ty × Ty) : Heap :=
  { cells := (alloc h.cells e.2).2, binds := h.binds ++ [(e.1, (alloc h.cells e.2).1)] }

/-- A map's objects with nothing shared: every value gets objects of its own. -/
def ofDict (S : Dict) : Heap := S.foldl addBinding ⟨[], []⟩

end Heap


/-! ## Reading objects back -/

mutual
/-- The reference `r` reads back as the type `t`: an object holding a string as that atom, one
holding a list as the tuple of its elements read back, and `None` as `None`. A reference that
reaches itself reads back as nothing. -/
inductive Unfolds (cells : List Cell) : Option Nat → Ty → Prop
  | none : Unfolds cells Option.none .none
  | atom {n : Nat} {s : String} : cells[n]? = some (.atom s) → Unfolds cells (some n) (.atom s)
  | tuple {n : Nat} {rs : List (Option Nat)} {ts : List Ty} : cells[n]? = some (.tuple rs) →
      UnfoldsList cells rs ts → Unfolds cells (some n) (.tuple ts)
/-- `Unfolds` along a list of references. -/
inductive UnfoldsList (cells : List Cell) : List (Option Nat) → List Ty → Prop
  | nil : UnfoldsList cells [] []
  | cons {r : Option Nat} {t : Ty} {rs : List (Option Nat)} {ts : List Ty} :
      Unfolds cells r t → UnfoldsList cells rs ts → UnfoldsList cells (r :: rs) (t :: ts)
end

/-- A heap reads back as the map `S`: the same keys in the same order, and each value's reference
read back as `S`'s value. -/
def Heap.ReadsAs (h : Heap) (S : Dict) : Prop :=
  List.Forall₂ (fun (b : Ty × Option Nat) (e : Ty × Ty) => b.1 = e.1 ∧ Unfolds h.cells b.2 e.2)
    h.binds S

/-- Objects that keep every object of `cells` keep every reading back. -/
theorem Unfolds.mono {cells cells' : List Cell}
    (hc : ∀ (n : Nat) (c : Cell), cells[n]? = some c → cells'[n]? = some c) {r : Option Nat}
    {t : Ty} (h : Unfolds cells r t) : Unfolds cells' r t := by
  induction h using Unfolds.rec (motive_2 := fun rs ts _ => UnfoldsList cells' rs ts) with
  | none => exact .none
  | atom hn => exact .atom (hc _ _ hn)
  | tuple hn _ ih => exact .tuple (hc _ _ hn) ih
  | nil => exact .nil
  | cons _ _ ih₁ ih₂ => exact .cons ih₁ ih₂

/-- `Unfolds.mono` along a list of references. -/
theorem UnfoldsList.mono {cells cells' : List Cell}
    (hc : ∀ (n : Nat) (c : Cell), cells[n]? = some c → cells'[n]? = some c) :
    ∀ {rs : List (Option Nat)} {ts : List Ty}, UnfoldsList cells rs ts → UnfoldsList cells' rs ts
  | _, _, .nil => .nil
  | _, _, .cons h₁ h₂ => .cons (h₁.mono hc) (UnfoldsList.mono hc h₂)

/-- Appending objects keeps every object there was. -/
theorem getElem?_append_of_eq_some {cells : List Cell} (more : List Cell) {n : Nat} {c : Cell}
    (hn : cells[n]? = some c) : (cells ++ more)[n]? = some c :=
  (List.getElem?_append_left (List.getElem?_eq_some_iff.1 hn).1).trans hn

mutual
/-- The fresh objects of a type read back as it, after the objects before them. -/
theorem alloc_unfolds (cells : List Cell) :
    ∀ t : Ty, ∃ more, (Heap.alloc cells t).2 = cells ++ more ∧
      Unfolds (Heap.alloc cells t).2 (Heap.alloc cells t).1 t
  | .atom s => ⟨[.atom s], rfl, .atom (by simp [Heap.alloc])⟩
  | .tuple ts => by
    obtain ⟨more, hm, hu⟩ := allocList_unfolds cells ts
    refine ⟨more ++ [.tuple (Heap.allocList cells ts).1], by simp [Heap.alloc, hm], ?_⟩
    exact .tuple (by simp [Heap.alloc]) (hu.mono fun _ _ => getElem?_append_of_eq_some _)
  | .none => ⟨[], by simp [Heap.alloc], .none⟩
/-- `alloc_unfolds` for the elements of a tuple. -/
theorem allocList_unfolds (cells : List Cell) :
    ∀ ts : List Ty, ∃ more, (Heap.allocList cells ts).2 = cells ++ more ∧
      UnfoldsList (Heap.allocList cells ts).2 (Heap.allocList cells ts).1 ts
  | [] => ⟨[], by simp [Heap.allocList], .nil⟩
  | t :: ts => by
    obtain ⟨m₁, h₁, u₁⟩ := alloc_unfolds cells t
    obtain ⟨m₂, h₂, u₂⟩ := allocList_unfolds (Heap.alloc cells t).2 ts
    refine ⟨m₁ ++ m₂, by rw [Heap.allocList, h₂, h₁, List.append_assoc], ?_⟩
    rw [Heap.allocList]
    exact .cons (u₁.mono fun _ _ => h₂ ▸ getElem?_append_of_eq_some m₂) u₂
end

/-- A binding added with fresh objects reads back as itself, after the bindings before it. -/
theorem Heap.addBinding_readsAs {h : Heap} {S : Dict} (hS : h.ReadsAs S) (e : Ty × Ty) :
    (h.addBinding e).ReadsAs (S ++ [e]) := by
  obtain ⟨more, hm, hu⟩ := alloc_unfolds h.cells e.2
  refine List.rel_append (hS.imp fun _ _ hb => ⟨hb.1, hb.2.mono fun _ _ hn => ?_⟩)
    (.cons ⟨rfl, hu⟩ .nil)
  simpa only [Heap.addBinding, hm] using getElem?_append_of_eq_some more hn

/-- A map's objects with nothing shared read back as the map. -/
theorem Heap.ofDict_readsAs (S : Dict) : (Heap.ofDict S).ReadsAs S := by
  suffices ∀ (h : Heap) (S₀ : Dict), h.ReadsAs S₀ → (S.foldl Heap.addBinding h).ReadsAs (S₀ ++ S) by
    simpa using this ⟨[], []⟩ [] .nil
  induction S with
  | nil => exact fun _ _ hS => by simpa using hS
  | cons e S ih =>
    intro h S₀ hS
    simpa using ih _ _ (h.addBinding_readsAs hS e)

/-- Two addresses that hold the same object read back alike. -/
theorem Unfolds.of_getElem?_eq {cells : List Cell} {n m : Nat} (he : cells[n]? = cells[m]?)
    {t : Ty} (h : Unfolds cells (some m) t) : Unfolds cells (some n) t := by
  cases h with
  | atom hm => exact .atom (he.trans hm)
  | tuple hm hl => exact .tuple (he.trans hm) hl

/-- A reference to an object reads back only if the object is there. -/
theorem Unfolds.exists_cell {cells : List Cell} {n : Nat} {t : Ty} (h : Unfolds cells (some n) t) :
    ∃ c, cells[n]? = some c := by
  cases h with
  | atom hm => exact ⟨_, hm⟩
  | tuple hm _ => exact ⟨_, hm⟩

/-! ## One `Type.set` -/

mutual
/-- `t'` is `t` with some of its occurrences of the atom `s` replaced by `tv`. -/
inductive Replaced (s : String) (tv : Ty) : Ty → Ty → Prop
  | keep (x : String) : Replaced s tv (.atom x) (.atom x)
  | replace : Replaced s tv (.atom s) tv
  | tuple {ts ts' : List Ty} : ReplacedList s tv ts ts' → Replaced s tv (.tuple ts) (.tuple ts')
  | none : Replaced s tv .none .none
/-- `Replaced` elementwise on two lists. -/
inductive ReplacedList (s : String) (tv : Ty) : List Ty → List Ty → Prop
  | nil : ReplacedList s tv [] []
  | cons {t t' : Ty} {ts ts' : List Ty} : Replaced s tv t t' → ReplacedList s tv ts ts' →
      ReplacedList s tv (t :: ts) (t' :: ts')
end

/-- Two types with the same resolutions in `S`. -/
def SameRes (S : Dict) (t t' : Ty) : Prop := ∀ r, Resolves S t r ↔ Resolves S t' r

/-- Replacing an atom by a type that resolves as it does keeps every resolution. -/
theorem Replaced.sameRes {S : Dict} {s : String} {tv : Ty} (hs : SameRes S (.atom s) tv)
    {t t' : Ty} (h : Replaced s tv t t') : SameRes S t t' := by
  induction h using Replaced.rec
      (motive_2 := fun ts ts' _ => ∀ rs, ResolvesList S ts rs ↔ ResolvesList S ts' rs) with
  | keep | none => exact fun _ => .rfl
  | replace => exact hs
  | tuple _ ih => exact fun r => by simp only [resolves_tuple_iff, ih]
  | nil => exact .rfl
  | cons _ _ ih₁ ih₂ =>
    unfold SameRes at ih₁
    simp only [resolvesList_cons_iff, ih₁, ih₂]

/-- Replacing an atom by a type without `None` leaves none. -/
theorem Replaced.noneFree {s : String} {tv : Ty} (htv : tv.noneFree) {t t' : Ty}
    (h : Replaced s tv t t') (ht : t.noneFree) : t'.noneFree := by
  induction h using Replaced.rec
      (motive_2 := fun ts ts' _ => ts.all Ty.noneFree → ts'.all Ty.noneFree) with
  | keep | none => exact ht
  | replace => exact htv
  | tuple _ ih =>
    simp only [Ty.noneFree, Ty.noneFreeList_eq_all] at ht ⊢
    exact ih ht
  | nil => rfl
  | cons _ _ ih₁ ih₂ h =>
    simp only [List.all_cons, Bool.and_eq_true] at h ⊢
    exact ⟨ih₁ h.1, ih₂ h.2⟩

/-- An atom after a replacement was there before, or came with `tv` in place of an `s`. -/
theorem Replaced.mem_atoms {s : String} {tv t t' : Ty} (h : Replaced s tv t t') :
    ∀ x ∈ t'.atoms, x ∈ t.atoms ∨ (s ∈ t.atoms ∧ x ∈ tv.atoms) := by
  induction h using Replaced.rec (motive_2 := fun ts ts' _ =>
      ∀ x ∈ Ty.atomsList ts', x ∈ Ty.atomsList ts ∨ (s ∈ Ty.atomsList ts ∧ x ∈ tv.atoms)) with
  | keep | none => exact fun _ hx => .inl hx
  | replace => exact fun _ hx => .inr ⟨List.mem_singleton_self s, hx⟩
  | tuple _ ih => exact ih
  | nil _ hx => exact .inl hx
  | cons _ _ ih₁ ih₂ x hx =>
    simp only [Ty.atomsList, List.mem_append] at hx ⊢
    rcases hx with hx | hx
    · exact (ih₁ x hx).imp .inl (And.imp_left .inl)
    · exact (ih₂ x hx).imp .inr (And.imp_left .inr)

/-- A write to an object that holds the string `s` leaves every reading back without the atom `s`
as it was: no such reading reaches the object. -/
theorem Unfolds.set_of_not_mem {cells : List Cell} {n : Nat} {s : String} (c : Cell)
    (hn : cells[n]? = some (.atom s)) {r : Option Nat} {t : Ty} (h : Unfolds cells r t)
    (hs : s ∉ t.atoms) : Unfolds (cells.set n c) r t := by
  induction h using Unfolds.rec
      (motive_2 := fun rs ts _ => s ∉ Ty.atomsList ts → UnfoldsList (cells.set n c) rs ts) with
  | none => exact .none
  | @atom m x hm =>
    have hnm : n ≠ m := by
      rintro rfl
      rw [hn] at hm
      cases hm
      exact hs (List.mem_singleton_self s)
    exact .atom ((List.getElem?_set_ne hnm).trans hm)
  | @tuple m _ _ hm _ ih =>
    have hnm : n ≠ m := by
      rintro rfl
      rw [hn] at hm
      cases hm
    exact .tuple ((List.getElem?_set_ne hnm).trans hm) (ih hs)
  | nil _ => exact .nil
  | cons _ _ ih₁ ih₂ hs =>
    simp only [Ty.atomsList, List.mem_append, not_or] at hs
    exact .cons (ih₁ hs.1) (ih₂ hs.2)

/-- Setting the object at `n`, which holds the string `s`, so that it reads back as `tv` replaces
some occurrences of `s` by `tv` in what every reference reads back as. -/
theorem Unfolds.set_replaced {cells : List Cell} {n : Nat} {s : String} {c : Cell} {tv : Ty}
    (hn : cells[n]? = some (.atom s)) (hv : Unfolds (cells.set n c) (some n) tv)
    {r : Option Nat} {t : Ty} (h : Unfolds cells r t) :
    ∃ t', Unfolds (cells.set n c) r t' ∧ Replaced s tv t t' := by
  induction h using Unfolds.rec (motive_2 := fun rs ts _ =>
      ∃ ts', UnfoldsList (cells.set n c) rs ts' ∧ ReplacedList s tv ts ts') with
  | none => exact ⟨_, .none, .none⟩
  | @atom m x hm =>
    by_cases hnm : n = m
    · subst hnm
      rw [hn] at hm
      cases hm
      exact ⟨tv, hv, .replace⟩
    · exact ⟨_, .atom ((List.getElem?_set_ne hnm).trans hm), .keep x⟩
  | @tuple m _ _ hm _ ih =>
    have hnm : n ≠ m := by
      rintro rfl
      rw [hn] at hm
      cases hm
    obtain ⟨ts', hu, hr⟩ := ih
    exact ⟨_, .tuple ((List.getElem?_set_ne hnm).trans hm) hu, .tuple hr⟩
  | nil => exact ⟨_, .nil, .nil⟩
  | cons _ _ ih₁ ih₂ =>
    obtain ⟨t', h₁, r₁⟩ := ih₁
    obtain ⟨ts', h₂, r₂⟩ := ih₂
    exact ⟨_, .cons h₁ h₂, .cons r₁ r₂⟩

/-! ## Maps that keep the resolutions -/

/-- A binding `e'` against the binding `e` of `S`: the same key, a value with the same resolutions,
and, when `e` is the first binding of a key `a`, no key among the atoms of the value that does not
rank below `a`. -/
def KeptAt (S : Dict) (rank : String → Nat) (e e' : Ty × Ty) : Prop :=
  e'.1 = e.1 ∧ SameRes S e.2 e'.2 ∧ ∀ a, e.1 = .atom a → S.get? e.1 = some e.2 →
    ∀ x ∈ e'.2.atoms, (S.get? (.atom x)).isSome → rank x < rank a

theorem map_fst_eq_of_keptAt {S : Dict} {rank : String → Nat} :
    ∀ {S₀ S₁ : Dict}, List.Forall₂ (KeptAt S rank) S₀ S₁ → S₁.map Prod.fst = S₀.map Prod.fst
  | _, _, .nil => rfl
  | _, _, .cons he hes => by rw [List.map_cons, List.map_cons, he.1, map_fst_eq_of_keptAt hes]

/-- Maps that keep each other's keys, binding by binding, find the same keys, at bindings that keep
each other. -/
theorem get?_of_keptAt {S : Dict} {rank : String → Nat} :
    ∀ {S₀ S₁ : Dict}, List.Forall₂ (KeptAt S rank) S₀ S₁ → ∀ k,
      (S₀.get? k = Option.none ∧ S₁.get? k = Option.none) ∨
        ∃ v v', S₀.get? k = some v ∧ S₁.get? k = some v' ∧ KeptAt S rank (k, v) (k, v')
  | _, _, .nil, _ => .inl ⟨rfl, rfl⟩
  | (k₀, v) :: _, (k₁, v') :: _, .cons he hes, k => by
    obtain rfl : k₁ = k₀ := he.1
    rw [Dict.get?_cons, Dict.get?_cons]
    by_cases hk : k₁ = k
    · subst hk
      rw [if_pos rfl, if_pos rfl]
      exact .inr ⟨v, v', rfl, rfl, he⟩
    · rw [if_neg hk, if_neg hk]
      exact get?_of_keptAt hes k

theorem resolves_none_iff {S : Dict} {r : Ty} : Resolves S .none r ↔ r = .none :=
  ⟨fun h => by cases h; rfl, fun h => by subst h; exact .none⟩

theorem resolves_free_iff {S : Dict} {a : String} (h : S.get? (.atom a) = Option.none) {r : Ty} :
    Resolves S (.atom a) r ↔ r = .atom a := by
  refine ⟨fun h' => ?_, fun h' => h' ▸ .free h⟩
  cases h' with
  | key h₁ _ => rw [h] at h₁; cases h₁
  | free _ => rfl

theorem resolvesList_nil_iff {S : Dict} {rs : List Ty} : ResolvesList S [] rs ↔ rs = [] :=
  ⟨fun h => by cases h; rfl, fun h => by subst h; exact .nil⟩

mutual
/-- Two maps in which every atom of `t` resolves alike resolve `t` alike. -/
theorem resolves_iff_of_atoms {S S' : Dict} :
    ∀ t : Ty, (∀ x ∈ t.atoms, ∀ r, Resolves S (.atom x) r ↔ Resolves S' (.atom x) r) →
      ∀ r, Resolves S t r ↔ Resolves S' t r
  | .atom a, h => h a (List.mem_singleton_self a)
  | .tuple ts, h => fun r => by simp only [resolves_tuple_iff, resolvesList_iff_of_atoms ts h]
  | .none, _ => fun r => by simp only [resolves_none_iff]
/-- `resolves_iff_of_atoms` on the elements of a tuple. -/
theorem resolvesList_iff_of_atoms {S S' : Dict} :
    ∀ ts : List Ty, (∀ x ∈ Ty.atomsList ts, ∀ r, Resolves S (.atom x) r ↔ Resolves S' (.atom x) r) →
      ∀ rs, ResolvesList S ts rs ↔ ResolvesList S' ts rs
  | [], _ => fun rs => by simp only [resolvesList_nil_iff]
  | t :: ts, h => fun rs => by
    simp only [resolvesList_cons_iff,
      resolves_iff_of_atoms t fun x hx => h x (List.mem_append_left _ hx),
      resolvesList_iff_of_atoms ts fun x hx => h x (List.mem_append_right _ hx)]
end

/-- A map whose bindings keep the keys, the resolutions and the ranks of those of `S`, binding by
binding, resolves every type as `S` does: a key of rank below `N + 1` resolves alike once the keys
of rank below `N` do, since the atoms of its value that are keys rank below it. -/
theorem resolves_iff_of_keptAt {S S' : Dict} {rank : String → Nat}
    (h : List.Forall₂ (KeptAt S rank) S S') (t r : Ty) : Resolves S t r ↔ Resolves S' t r := by
  have hatom : ∀ N a, (∀ v, S.get? (.atom a) = some v → rank a < N) →
      ∀ r, Resolves S (.atom a) r ↔ Resolves S' (.atom a) r := by
    intro N
    induction N with
    | zero =>
      intro a ha r
      rcases get?_of_keptAt h (.atom a) with ⟨h₀, h₁⟩ | ⟨v, -, h₀, -⟩
      · rw [resolves_free_iff h₀, resolves_free_iff h₁]
      · exact absurd (ha v h₀) (Nat.not_lt_zero _)
    | succ N ih =>
      intro a ha r
      rcases get?_of_keptAt h (.atom a) with ⟨h₀, h₁⟩ | ⟨v, v', h₀, h₁, -, hs, hrk⟩
      · rw [resolves_free_iff h₀, resolves_free_iff h₁]
      · have hlt : ∀ x ∈ v'.atoms, ∀ w, S.get? (.atom x) = some w → rank x < N :=
          fun x hx w hw => Nat.lt_of_lt_of_le (hrk a rfl h₀ x hx (by rw [hw]; rfl))
            (Nat.le_of_lt_succ (ha v h₀))
        calc Resolves S (.atom a) r ↔ Resolves S v r := resolves_atom_of_get? h₀ r
          _ ↔ Resolves S v' r := hs r
          _ ↔ Resolves S' v' r := resolves_iff_of_atoms v' (fun x hx => ih x (hlt x hx)) r
          _ ↔ Resolves S' (.atom a) r := (resolves_atom_of_get? h₁ r).symm
  exact resolves_iff_of_atoms t (fun x _ => hatom _ x fun _ _ => Nat.lt_succ_self (rank x)) r

/-! ## The invariant of a run

A run on a heap that reads back as `S` keeps, for every binding, that its value still reads back,
as a type without `None` that resolves as the binding's value in `S` does, and, at the first binding
of a key `a`, with only keys of lower rank than `a` among its atoms (`Heap.Keeps`). The rank makes
each `Type.set` safe: the value that the object of `s` takes does not hold `s`, so the write does
not reach into it. Each function of the run is proved to keep the invariant and to return, given a
budget above the depth of the resolutions; the final heap then reads back as a map that keeps the
resolutions (`resolves_iff_of_keptAt`).
-/

namespace Heap

section Invariant

variable (S : Dict) (rank : String → Nat)

/-- A binding `b` of the heap against the binding `e` of `S` it started as. -/
def KeepsAt (cells : List Cell) (b : Ty × Option Nat) (e : Ty × Ty) : Prop :=
  b.1 = e.1 ∧ ∃ t, Unfolds cells b.2 t ∧ t.noneFree ∧ SameRes S e.2 t ∧
    ∀ a, e.1 = .atom a → S.get? e.1 = some e.2 →
      ∀ x ∈ t.atoms, (S.get? (.atom x)).isSome → rank x < rank a

/-- The invariant of a simplification run on `S`, ranked by `rank`. -/
def Keeps (h : Heap) : Prop := List.Forall₂ (KeepsAt S rank h.cells) h.binds S

/-- How the objects change along a run: the bindings stay, and a reference that reads back as a
type without `None` still does, as one with the same resolutions in `S`. -/
def Evolves (h h' : Heap) : Prop :=
  h'.binds = h.binds ∧ ∀ r t, Unfolds h.cells r t → t.noneFree →
    ∃ t', Unfolds h'.cells r t' ∧ t'.noneFree ∧ SameRes S t t'

/-- The reference `r` reads back as a type without `None` whose resolution in `S` is shallower
than `f`: `is_base_type` and `convert_type` on it finish within the budget `f`. -/
def Bounded (h : Heap) (f : Nat) (r : Option Nat) : Prop :=
  ∃ t R, Unfolds h.cells r t ∧ t.noneFree ∧ Resolves S t R ∧ R.depth < f

variable {S rank}

theorem Evolves.refl (h : Heap) : h.Evolves S h :=
  ⟨rfl, fun _ t hu hn => ⟨t, hu, hn, fun _ => .rfl⟩⟩

theorem Evolves.trans {h₁ h₂ h₃ : Heap} (h₁₂ : h₁.Evolves S h₂) (h₂₃ : h₂.Evolves S h₃) :
    h₁.Evolves S h₃ := by
  refine ⟨h₂₃.1.trans h₁₂.1, fun r t hu hn => ?_⟩
  obtain ⟨t₂, hu₂, hn₂, hs₂⟩ := h₁₂.2 r t hu hn
  obtain ⟨t₃, hu₃, hn₃, hs₃⟩ := h₂₃.2 r t₂ hu₂ hn₂
  exact ⟨t₃, hu₃, hn₃, fun R => (hs₂ R).trans (hs₃ R)⟩

/-- A bounded reference stays bounded along a run. -/
theorem Bounded.evolves {h h' : Heap} {f : Nat} {r : Option Nat} (hb : h.Bounded S f r)
    (he : h.Evolves S h') : h'.Bounded S f r := by
  obtain ⟨t, R, hu, hn, hR, hd⟩ := hb
  obtain ⟨t', hu', hn', hs⟩ := he.2 r t hu hn
  exact ⟨t', R, hu', hn', (hs R).1 hR, hd⟩

/-- References that read back as elements without `None` whose resolutions are shallower than `f`
are bounded by `f`. -/
theorem bounded_of_unfoldsList {h : Heap} {f : Nat} :
    ∀ {rs : List (Option Nat)} {ts Rs : List Ty}, UnfoldsList h.cells rs ts →
      ts.all Ty.noneFree → ResolvesList S ts Rs → Ty.depthList Rs < f → ∀ r ∈ rs, h.Bounded S f r
  | _, _, _, .nil, _, _, _, _, hr => by cases hr
  | _, _, _, .cons hu hus, hn, .cons hR hRs, hd, r, hr => by
    simp only [List.all_cons, Bool.and_eq_true] at hn
    rw [Ty.depthList] at hd
    rcases List.mem_cons.1 hr with rfl | hr
    · exact ⟨_, _, hu, hn.1, hR, Nat.lt_of_le_of_lt (Nat.le_max_left _ _) hd⟩
    · exact bounded_of_unfoldsList hus hn.2 hRs (Nat.lt_of_le_of_lt (Nat.le_max_right _ _) hd) r hr

/-- The elements of a bounded tuple object are bounded one level lower. -/
theorem Bounded.elements {h : Heap} {f n : Nat} {rs : List (Option Nat)}
    (hb : h.Bounded S (f + 1) (some n)) (hn : h.cells[n]? = some (.tuple rs)) :
    ∀ r ∈ rs, h.Bounded S f r := by
  obtain ⟨t, R, hu, hnf, hR, hd⟩ := hb
  cases hu with
  | atom hm => rw [hn] at hm; cases hm
  | tuple hm hl =>
    rw [hn] at hm
    cases hm
    obtain ⟨Rs, rfl, hRs⟩ := resolves_tuple_iff.1 hR
    simp only [Ty.noneFree, Ty.noneFreeList_eq_all] at hnf
    exact bounded_of_unfoldsList hl hnf hRs (by simpa [Ty.depth] using hd)

/-- `all` over the elements of a list returns when the test of each element does. -/
theorem allRefs_ok {g : Nat → Except PyError Bool} :
    ∀ {rs : List (Option Nat)}, (∀ n, some n ∈ rs → ∃ b, g n = .ok b) → ∃ b, allRefs g rs = .ok b
  | [], _ => ⟨true, rfl⟩
  | Option.none :: rs, hg => @allRefs_ok g rs fun n hn => hg n (List.mem_cons_of_mem _ hn)
  | some n :: _, hg => by
    obtain ⟨b, hb⟩ := hg n (List.mem_cons_self _ _)
    obtain ⟨b', hb'⟩ := allRefs_ok fun m hm => hg m (List.mem_cons_of_mem _ hm)
    cases b
    · exact ⟨false, by simp only [allRefs, hb, ok_bind]; rfl⟩
    · exact ⟨b', by simp only [allRefs, hb, ok_bind, if_true, hb']⟩

/-- `is_base_type` returns on a bounded reference. -/
theorem isBaseType_ok {h : Heap} :
    ∀ {f n : Nat}, h.Bounded S f (some n) → ∃ b, isBaseType f h n = .ok b
  | 0, _, hb => by
    obtain ⟨_, _, _, _, _, hd⟩ := hb
    exact absurd hd (Nat.not_lt_zero _)
  | f + 1, n, hb => by
    obtain ⟨t, R, hu, -⟩ := id hb
    cases hu with
    | atom hm => exact ⟨_, by simp only [isBaseType, get, hm, ok_bind, pure_bind]; rfl⟩
    | tuple hm _ =>
      simp only [isBaseType, get, hm, ok_bind, pure_bind]
      exact allRefs_ok fun m hm' => isBaseType_ok (hb.elements hm _ hm')

/-- `unified[t]` through the invariant: the first binding of a key in the heap keeps the first
binding of that key in the map. -/
theorem keepsAt_valueOf {cells : List Cell} :
    ∀ {bs : List (Ty × Option Nat)} {S₀ : Dict}, List.Forall₂ (KeepsAt S rank cells) bs S₀ →
      ∀ {k : Ty} {r : Option Nat}, valueOf bs k = some r →
        ∃ v, S₀.get? k = some v ∧ KeepsAt S rank cells (k, r) (k, v)
  | _, _, .nil, _, _, h => by cases h
  | (k', r') :: _, (k'', v) :: _, .cons hb hbs, k, r, h => by
    obtain rfl : k' = k'' := hb.1
    rw [valueOf] at h
    rw [Dict.get?_cons]
    by_cases hk : k' = k
    · subst hk
      rw [if_pos rfl] at h
      cases h
      exact ⟨v, if_pos rfl, hb⟩
    · rw [if_neg hk] at h
      rw [if_neg hk]
      exact keepsAt_valueOf hbs h

/-- One `Type.set` of a run: the object at `n`, which holds the string `s`, takes the `type` field
`c` of the object at `m`, the value of the key `s`. Every reference then reads back as before with
some occurrences of `s` replaced by the reading of `s`'s value, which resolves as `s` does; so the
invariant is kept. -/
theorem Keeps.set {h : Heap} {n m : Nat} {s : String} {c : Cell} {v tv : Ty}
    (hk : h.Keeps S rank) (hn : h.cells[n]? = some (.atom s)) (hm : h.cells[m]? = some c)
    (hc : c ≠ .atom s) (hv : S.get? (.atom s) = some v) (hu : Unfolds h.cells (some m) tv)
    (htv : tv.noneFree) (hsame : SameRes S v tv)
    (hrank : ∀ x ∈ tv.atoms, (S.get? (.atom x)).isSome → rank x < rank s) :
    (h.set n c).Keeps S rank ∧ h.Evolves S (h.set n c) := by
  have hkey : (S.get? (.atom s)).isSome := by rw [hv]; rfl
  have hs : s ∉ tv.atoms := fun hs => Nat.lt_irrefl _ (hrank s hs hkey)
  have hnm : n ≠ m := by
    rintro rfl
    rw [hn] at hm
    cases hm
    exact hc rfl
  have hv' : Unfolds (h.cells.set n c) (some n) tv :=
    (hu.set_of_not_mem c hn hs).of_getElem?_eq (by
      rw [List.getElem?_set_self (List.getElem?_eq_some_iff.1 hn).1, List.getElem?_set_ne hnm, hm])
  have hres : SameRes S (.atom s) tv := fun r => (resolves_atom_of_get? hv r).trans (hsame r)
  refine ⟨List.Forall₂.imp (fun b e hb => ?_) hk, rfl, fun r t hu hnt => ?_⟩
  · obtain ⟨hb, t, hu, hnt, hst, hrk⟩ := hb
    obtain ⟨t', hu', hr⟩ := Unfolds.set_replaced hn hv' hu
    refine ⟨hb, t', hu', hr.noneFree htv hnt, fun R => (hst R).trans (hr.sameRes hres R), ?_⟩
    intro a ha hg x hx hkx
    rcases hr.mem_atoms x hx with hx | ⟨hst', hx⟩
    · exact hrk a ha hg x hx hkx
    · exact Nat.lt_trans (hrank x hx hkx) (hrk a ha hg s hst' hkey)
  · obtain ⟨t', hu', hr⟩ := Unfolds.set_replaced hn hv' hu
    exact ⟨t', hu', hr.noneFree htv hnt, hr.sameRes hres⟩

/-- `demote_constraint` on an object that holds a string keeps the invariant. -/
theorem demoteConstraint_keeps {h : Heap} {n : Nat} {s : String} (hk : h.Keeps S rank)
    (hn : h.cells[n]? = some (.atom s)) :
    Outcome (fun _ => False) (fun h' => h'.Keeps S rank ∧ h.Evolves S h')
      (h.demoteConstraint n s) := by
  unfold Heap.demoteConstraint
  split
  · exact .ok ⟨hk, .refl h⟩
  · rename_i hr
    obtain ⟨_, -, -, t, hu, hnt, -⟩ := keepsAt_valueOf hk hr
    cases hu
    simp [Ty.noneFree] at hnt
  · rename_i m hr
    obtain ⟨v, hv, -, tv, hu, htv, hsame, hrank⟩ := keepsAt_valueOf hk hr
    obtain ⟨c, hc⟩ := hu.exists_cell
    simp only [get, hc, ok_bind, pure_bind]
    split
    · exact .ok ⟨hk, .refl h⟩
    · rename_i hcs
      exact .ok (hk.set hn hc hcs hv hu htv hsame (hrank s rfl hv))

/-- `convert_type` on a bounded reference returns, keeps the invariant, and changes the objects only
as a run does. -/
theorem convertType_keeps {baseT : Ty} :
    ∀ {f : Nat} {h : Heap} {r : Option Nat}, h.Keeps S rank → h.Bounded S f r →
      Outcome (fun _ => False) (fun h' => h'.Keeps S rank ∧ h.Evolves S h')
        (Heap.convertType f baseT h r)
  | 0, _, _, _, hb => by
    obtain ⟨_, _, _, _, _, hd⟩ := hb
    exact absurd hd (Nat.not_lt_zero _)
  | _ + 1, _, Option.none, _, hb => by
    obtain ⟨_, _, hu, hnt, -⟩ := hb
    cases hu
    simp [Ty.noneFree] at hnt
  | f + 1, h, some n, hk, hb => by
    rw [Heap.convertType]
    split
    · exact .ok ⟨hk, .refl h⟩
    · obtain ⟨t, R, hu, -⟩ := id hb
      cases hu with
      | atom hn =>
        simp only [get, hn, ok_bind, pure_bind]
        exact demoteConstraint_keeps hk hn
      | tuple hn _ =>
        simp only [get, hn, ok_bind, pure_bind]
        refine foldlM_outcome (fun h' => h'.Keeps S rank ∧ h.Evolves S h')
          (fun r hr h' hh' => ?_) ⟨hk, .refl h⟩
        exact (convertType_keeps hh'.1 ((hb.elements hn r hr).evolves hh'.2)).mono
          fun h'' hh'' => ⟨hh''.1, hh'.2.trans hh''.2⟩

/-- Every binding of a heap that keeps the invariant holds a bounded value, given a budget above
the depth of a resolution of every value of `S`. -/
theorem Keeps.bounded {fuel : Nat} (hres : ∀ e ∈ S, ∃ R, Resolves S e.2 R ∧ R.depth < fuel)
    {h : Heap} (hk : h.Keeps S rank) : ∀ b ∈ h.binds, h.Bounded S fuel b.2 := by
  suffices ∀ {bs : List (Ty × Option Nat)} {S₀ : Dict},
      List.Forall₂ (KeepsAt S rank h.cells) bs S₀ →
      (∀ e ∈ S₀, ∃ R, Resolves S e.2 R ∧ R.depth < fuel) → ∀ b ∈ bs, h.Bounded S fuel b.2 from
    this hk hres
  intro bs S₀ hbs
  induction hbs with
  | nil => exact fun _ _ hb => by cases hb
  | @cons b e _ _ hb _ ih =>
    intro hres b' hb'
    rcases List.mem_cons.1 hb' with rfl | hb'
    · obtain ⟨-, t, hu, hnt, hst, -⟩ := hb
      obtain ⟨R, hR, hd⟩ := hres e (List.mem_cons_self _ _)
      exact ⟨t, R, hu, hnt, (hst R).1 hR, hd⟩
    · exact ih (fun e he => hres e (List.mem_cons_of_mem _ he)) b' hb'

/-- A round keeps the invariant. -/
theorem simplifyRound_keeps {fuel : Nat} (hres : ∀ e ∈ S, ∃ R, Resolves S e.2 R ∧ R.depth < fuel)
    {h : Heap} (hk : h.Keeps S rank) :
    Outcome (fun _ => False) (fun h' => h'.Keeps S rank) (simplifyRound fuel h) := by
  refine (foldlM_outcome (fun h' => h'.Keeps S rank ∧ h'.binds = h.binds)
    (fun b hb h' hh' => ?_) ⟨hk, rfl⟩).mono fun _ hh' => hh'.1
  obtain ⟨hk', hbs⟩ := hh'
  have hbd := hk'.bounded hres b (hbs ▸ hb)
  obtain ⟨u, r⟩ := b
  cases r with
  | none =>
    obtain ⟨t, _, hu, hnt, -⟩ := hbd
    cases hu
    simp [Ty.noneFree] at hnt
  | some n =>
    obtain ⟨isBase, hbase⟩ := isBaseType_ok hbd
    simp only [hbase, ok_bind]
    split
    · exact .ok ⟨hk', hbs⟩
    · exact (convertType_keeps hk' hbd).mono fun h'' hh'' => ⟨hh''.1, hh''.2.1.trans hbs⟩

/-- Rounds keep the invariant. -/
theorem simplifyRounds_keeps {fuel : Nat}
    (hres : ∀ e ∈ S, ∃ R, Resolves S e.2 R ∧ R.depth < fuel) :
    ∀ (k : Nat) {h : Heap}, h.Keeps S rank →
      Outcome (fun _ => False) (fun h' => h'.Keeps S rank) (simplifyRounds fuel k h)
  | 0, _, hk => .ok hk
  | k + 1, _, hk => (simplifyRound_keeps hres hk).bind fun _ h => simplifyRounds_keeps hres k h

/-- A heap that reads back as `S`, whose values hold no `None` and whose bindings `rank` orders,
keeps the invariant. -/
theorem ReadsAs.keeps {h : Heap} (hS : h.ReadsAs S) (hv : S.valuesNoneFree)
    (hrank : ∀ a v, S.get? (.atom a) = some v →
      ∀ x ∈ v.atoms, (S.get? (.atom x)).isSome → rank x < rank a) :
    h.Keeps S rank := by
  suffices ∀ {bs : List (Ty × Option Nat)} {S₀ : Dict},
      List.Forall₂ (fun b e => b.1 = e.1 ∧ Unfolds h.cells b.2 e.2) bs S₀ →
      (∀ e ∈ S₀, e.2.noneFree) → List.Forall₂ (KeepsAt S rank h.cells) bs S₀ from
    this hS fun ⟨_, _⟩ he => List.all_eq_true.1 hv _ he
  intro bs S₀ hbs
  induction hbs with
  | nil => exact fun _ => .nil
  | @cons b e _ _ hb _ ih =>
    intro hn
    refine .cons ⟨hb.1, e.2, hb.2, hn e (List.mem_cons_self _ _), fun _ => .rfl, ?_⟩
      (ih fun e' he => hn e' (List.mem_cons_of_mem _ he))
    intro a ha hg
    rw [ha] at hg
    exact hrank a e.2 hg

/-- The map that a heap keeping the invariant reads back as keeps the bindings of `S`. -/
theorem Keeps.readsAs {h : Heap} (hk : h.Keeps S rank) :
    ∃ S', h.ReadsAs S' ∧ List.Forall₂ (KeptAt S rank) S S' := by
  suffices ∀ {bs : List (Ty × Option Nat)} {S₀ : Dict},
      List.Forall₂ (KeepsAt S rank h.cells) bs S₀ → ∃ S₁,
        List.Forall₂ (fun b e => b.1 = e.1 ∧ Unfolds h.cells b.2 e.2) bs S₁ ∧
        List.Forall₂ (KeptAt S rank) S₀ S₁ from this hk
  intro bs S₀ hbs
  induction hbs with
  | nil => exact ⟨[], .nil, .nil⟩
  | @cons b e _ _ hb _ ih =>
    obtain ⟨hb₁, t, hu, -, hst, hrk⟩ := hb
    obtain ⟨S₁, h₁, h₂⟩ := ih
    exact ⟨(e.1, t) :: S₁, .cons ⟨hb₁, hu⟩ h₁, .cons ⟨rfl, hst, hrk⟩ h₂⟩

end Invariant

end Heap

/-! ## Simplification on shared objects -/

/-- `simplify_unification` on `Type` objects, whatever objects the values share. On a heap that
reads back as a map `S` whose values hold no `None` and whose bindings are acyclic, with a budget
above the depth of a resolution of every value, it returns objects that read back as a map with
the same keys in the same order, in which every type resolves exactly as in `S`. -/
theorem simplifyUnification_shared_keeps_resolutions {h : Heap} {S : Dict} {fuel : Nat}
    (hS : h.ReadsAs S) (hv : S.valuesNoneFree) (hac : S.Acyclic)
    (hfuel : ∀ e ∈ S, ∃ R, Resolves S e.2 R ∧ R.depth < fuel) :
    ∃ h' S', Heap.simplifyUnification fuel h = .ok h' ∧ h'.ReadsAs S' ∧
      S'.map Prod.fst = S.map Prod.fst ∧ ∀ t r, Resolves S t r ↔ Resolves S' t r := by
  obtain ⟨rank, hrank⟩ := hac
  obtain ⟨h', hrun, hk⟩ := (Heap.simplifyRounds_keeps hfuel 10 (hS.keeps hv hrank)).exists_ok
  obtain ⟨S', hS', hkept⟩ := hk.readsAs
  exact ⟨h', S', hrun, hS', map_fst_eq_of_keptAt hkept, resolves_iff_of_keptAt hkept⟩

/-- Keys chained through tuples. A run shares lists on it: in the first round the object of `t`
inside `u`'s value takes the list `(a)` of `t`'s value, so that the rewrite of `a` in `t`'s value
is seen in `u`'s as well. -/
def sharedChain : Dict :=
  [(.atom "u", .tuple [.atom "t"]), (.atom "t", .tuple [.atom "a"]), (.atom "a", .atom "b"),
    (.atom "b", .atom "int")]

/-- The chain on objects with nothing shared at the start: simplification returns and keeps every
resolution. -/
theorem simplifyUnification_shared_keeps_resolutions_chain :
    (Heap.ofDict sharedChain).ReadsAs sharedChain ∧ sharedChain.valuesNoneFree ∧
    sharedChain.Acyclic ∧
    (∀ e ∈ sharedChain, ∃ R, Resolves sharedChain e.2 R ∧ R.depth < recursionLimit) ∧
    ∃ h' S', Heap.simplifyUnification recursionLimit (Heap.ofDict sharedChain) = .ok h' ∧
      h'.ReadsAs S' ∧ S'.map Prod.fst = sharedChain.map Prod.fst ∧
      ∀ t r, Resolves sharedChain t r ↔ Resolves S' t r := by
  have hS := Heap.ofDict_readsAs sharedChain
  have hv : sharedChain.valuesNoneFree := by decide
  have hac : sharedChain.Acyclic := Dict.acyclic_of_rank
    (fun x => if x = "u" then 3 else if x = "t" then 2 else if x = "a" then 1 else 0) (by decide)
  -- the resolutions of the values: `((int))`, `(int)`, `int` and `int`
  have hint : Resolves sharedChain (.atom "int") (.atom "int") := .free (by decide)
  have hb : Resolves sharedChain (.atom "b") (.atom "int") := .key (by decide) hint
  have ht : Resolves sharedChain (.tuple [.atom "a"]) (.tuple [.atom "int"]) :=
    .tuple (.cons (.key (by decide) hb) .nil)
  have hu : Resolves sharedChain (.tuple [.atom "t"]) (.tuple [.tuple [.atom "int"]]) :=
    .tuple (.cons (.key (by decide) ht) .nil)
  have hfuel : ∀ e ∈ sharedChain, ∃ R, Resolves sharedChain e.2 R ∧ R.depth < recursionLimit := by
    simp only [sharedChain, List.mem_cons, List.mem_nil_iff, or_false]
    rintro e (rfl | rfl | rfl | rfl)
    exacts [⟨_, hu, by decide⟩, ⟨_, ht, by decide⟩, ⟨_, hb, by decide⟩, ⟨_, hint, by decide⟩]
  exact ⟨hS, hv, hac, hfuel, simplifyUnification_shared_keeps_resolutions hS hv hac hfuel⟩

/-- A function name bound to a tuple that holds `None`, as `type_annotator` gives for a node it has
no case for: the key is an atom that is not a base type and the map is acyclic, but `convert_type`
raises `AttributeError` at the `None`. -/
theorem simplifyUnification_shared_none_value :
    isBaseName "f" = false ∧ Dict.Acyclic [(.atom "f", .tuple [.atom "Unknown-x", .none])] ∧
    Heap.simplifyUnification recursionLimit
      (Heap.ofDict [(.atom "f", .tuple [.atom "Unknown-x", .none])]) = .error .attributeError :=
  ⟨by decide, Dict.acyclic_of_values_free (by decide), by decide⟩

end LispCompiler
