import LispCompiler.Syntax

/-!
# Types and substitution maps

`Type` of `type.py` holds either a string, an atomic type, or a list of types, a tuple. The names
`int`, `float`, and `void` are the base types; any other string is a type variable: a function's
name, `Unknown-<name>` for an identifier, or `Unknown-<n>` for a fresh variable. A tuple made by
`Type([...])` keeps its elements as they are, and `type_annotator` returns `None` for a node it has
no case for, so a tuple can hold `None`; `Ty.none` is that `None`.

`Type.__hash__` returns `1` for every type and the dataclass `__eq__` compares structurally, so a
`dict[Type, Type]` finds a key by comparing it with every key in insertion order. `Dict` is the
list of its entries in insertion order, and its operations are those of such a dictionary.

Python mutates `Type` objects in place during simplification, and a type set from a tuple shares
that tuple's list. The model compares and stores types by value; `Sharing.lean` models the objects
and their sharing for simplification, and relates the two.
-/

namespace LispCompiler

/-- A `Type` of `type.py`, or `None` inside a tuple. -/
inductive Ty where
  /-- `Type(s)` for a string `s`. -/
  | atom (s : String)
  /-- `Type([t1, ..., tn])`. -/
  | tuple (ts : List Ty)
  /-- Python's `None` as an element of a tuple. -/
  | none
  deriving Repr

mutual
/-- Structural equality of types, the dataclass `__eq__`. -/
def Ty.beq : Ty → Ty → Bool
  | .atom s, .atom s' => s == s'
  | .tuple ts, .tuple ts' => Ty.beqList ts ts'
  | .none, .none => true
  | _, _ => false
/-- Structural equality of lists of types. -/
def Ty.beqList : List Ty → List Ty → Bool
  | [], [] => true
  | t :: ts, t' :: ts' => Ty.beq t t' && Ty.beqList ts ts'
  | _, _ => false
end

mutual
theorem Ty.beq_iff : (a b : Ty) → Ty.beq a b = true ↔ a = b
  | .atom s, .atom s' => by simp [Ty.beq]
  | .tuple ts, .tuple ts' => by simp [Ty.beq, Ty.beqList_iff ts ts']
  | .none, .none => by simp [Ty.beq]
  | .atom _, .tuple _ | .atom _, .none | .tuple _, .atom _ | .tuple _, .none
  | .none, .atom _ | .none, .tuple _ => by simp [Ty.beq]
theorem Ty.beqList_iff : (as bs : List Ty) → Ty.beqList as bs = true ↔ as = bs
  | [], [] => by simp [Ty.beqList]
  | t :: ts, t' :: ts' => by simp [Ty.beqList, Ty.beq_iff t t', Ty.beqList_iff ts ts']
  | [], _ :: _ | _ :: _, [] => by simp [Ty.beqList]
end

instance : DecidableEq Ty := fun a b => decidable_of_iff _ (Ty.beq_iff a b)

/-- The names of the base types. -/
def isBaseName (s : String) : Bool := s == "float" || s == "int" || s == "void"

mutual
/-- `Type.is_base_type`: a base name, or a tuple whose `Type` elements are all base; `None`
elements are skipped. -/
def Ty.isBaseType : Ty → Bool
  | .atom s => isBaseName s
  | .tuple ts => Ty.isBaseTypeList ts
  | .none => true
/-- Every element of a list is base, in the sense of `Ty.isBaseType`. -/
def Ty.isBaseTypeList : List Ty → Bool
  | [] => true
  | t :: ts => t.isBaseType && Ty.isBaseTypeList ts
end

@[simp] theorem Ty.isBaseTypeList_eq_all (ts : List Ty) :
    Ty.isBaseTypeList ts = ts.all Ty.isBaseType := by
  induction ts with
  | nil => rfl
  | cons t ts ih => simp [Ty.isBaseTypeList, ih]

mutual
/-- `Type.__repr__`: a string as itself, a tuple as its elements between parentheses. -/
def Ty.repr : Ty → String
  | .atom s => s
  | .tuple ts => "(" ++ ", ".intercalate (Ty.reprList ts) ++ ")"
  | .none => "None"
/-- The representations of the elements of a tuple. -/
def Ty.reprList : List Ty → List String
  | [] => []
  | t :: ts => t.repr :: Ty.reprList ts
end

/-- `len(t.type)`: the length of the string or of the list; `None` has no `type`. -/
def Ty.pyLen : Ty → Except PyError Nat
  | .atom s => pure s.length
  | .tuple ts => pure ts.length
  | .none => .error .attributeError

/-- A `dict[Type, Type]`: its entries in insertion order. -/
abbrev Dict := List (Ty × Ty)

namespace Dict

/-- The value of the first key equal to `k`, when `k in d`. -/
def get? : Dict → Ty → Option Ty
  | [], _ => Option.none
  | (k', v) :: d, k => if k' = k then some v else get? d k

/-- `d[k]`, which raises `KeyError` for a missing key. -/
def getItem (d : Dict) (k : Ty) : Except PyError Ty :=
  match d.get? k with
  | some v => pure v
  | Option.none => .error .keyError

/-- `d[k] = v`: the value of an existing key is replaced in place; a new key goes last. -/
def setItem : Dict → Ty → Ty → Dict
  | [], k, v => [(k, v)]
  | (k', v') :: d, k, v => if k' = k then (k', v) :: d else (k', v') :: setItem d k v

/-- `dict.__eq__`: the same number of entries, and each key of `d` maps to the same value in
`d'`. -/
def pyEq (d d' : Dict) : Bool :=
  d.length == d'.length && d.all fun (k, v) => d'.get? k == some v

@[simp] theorem get?_nil (k : Ty) : get? [] k = Option.none := rfl

theorem get?_cons (k' v' k : Ty) (d : Dict) :
    get? ((k', v') :: d) k = if k' = k then some v' else get? d k := rfl

/-- A value found for a key is bound to it. -/
theorem mem_of_get? : ∀ {d : Dict} {k v : Ty}, d.get? k = some v → (k, v) ∈ d
  | [], _, _, h => by simp at h
  | (k', v') :: d, k, v, h => by
    rw [get?_cons] at h
    split at h
    · cases h; subst k'; exact List.mem_cons_self _ _
    · exact List.mem_cons_of_mem _ (mem_of_get? h)

/-- A new key goes last. -/
theorem setItem_of_get?_eq_none : ∀ {d : Dict} {k : Ty} (v : Ty), d.get? k = Option.none →
    d.setItem k v = d ++ [(k, v)]
  | [], _, _, _ => rfl
  | (k', v') :: d, k, v, h => by
    rw [get?_cons] at h
    split at h
    · cases h
    · simp [setItem, *, setItem_of_get?_eq_none v h]

/-- An entry of `d[k] = v` is an entry of `d` or `(k, v)`. -/
theorem mem_setItem : ∀ {d : Dict} {k v : Ty} {e : Ty × Ty}, e ∈ d.setItem k v → e ∈ d ∨ e = (k, v)
  | [], _, _, _, h => by simpa [setItem] using h
  | (k', v') :: d, k, v, e, h => by
    unfold setItem at h
    split at h
    · subst k'
      rcases List.mem_cons.1 h with rfl | h
      · exact Or.inr rfl
      · exact Or.inl (List.mem_cons_of_mem _ h)
    · rcases List.mem_cons.1 h with rfl | h
      · exact Or.inl (List.mem_cons_self _ _)
      · exact (mem_setItem h).imp (List.mem_cons_of_mem _) id

end Dict

/-- A `TypeConstraint` of `type.py`: the equality of two types. -/
structure TypeConstraint where
  lhs : Ty
  rhs : Ty
  deriving DecidableEq, Repr

end LispCompiler
