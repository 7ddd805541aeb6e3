import LispCompiler.Extract
import LispCompiler.Unify

/-!
# Type annotation and specialization

`get_unknown_type_var` and `type_annotator` of `type_inference.py`, and `fn_type_annotator`,
`annotate_type`, `unify_with_other`, and `apply_with_type` of `function_stub.py`.

`type_annotator` gives an identifier the variable `Unknown-<name>`, the same for every occurrence
of the name in every function, and each operator application and call the fresh variable
`Unknown-<n>` of the global counter `type_var_counter`, which starts at `0`; the model passes the
counter along with the list of constraints. A call `(f a1 ... an)` constrains the atom `f` itself,
not `Unknown-f`, to the tuple of the arguments' types and the result; an addition or a
multiplication constrains the atom `Operator+`. A numeric literal is `int` when all its characters
are numeric (`str.isnumeric`, over Unicode: `²` and `½` are numeric) and `float` when `is_number`
holds otherwise, and a node that matches no case gives `None`.

`apply_with_type` checks the entry's arity, unifies the entry's type with the invocation type in
a deep copy of the stub's map, simplifies it, and asserts that every value of the whole map is a
base type.
-/

namespace LispCompiler

/-- `get_unknown_type_var(var_name)`: `Unknown-<var_name>`, or for no name (`None` or `""`) the next
value of the counter. -/
def getUnknownTypeVar (varName : String) (typeVarCounter : Nat) : String × Nat :=
  if varName = "" then ("Unknown-" ++ toString (typeVarCounter + 1), typeVarCounter + 1)
  else ("Unknown-" ++ varName, typeVarCounter)

/-- The characters for which Python's `str.isnumeric` holds, as ranges of code points: those whose
Unicode `Numeric_Type` is `Decimal`, `Digit` or `Numeric`, the digits together with fractions such as
`½`, Roman numerals and the numeral ideographs, in the Unicode 14.0 tables of Python 3.11. -/
def numericRanges : List (Nat × Nat) :=
  [(0x30, 0x39), (0xB2, 0xB3), (0xB9, 0xB9), (0xBC, 0xBE), (0x660, 0x669), (0x6F0, 0x6F9),
   (0x7C0, 0x7C9), (0x966, 0x96F), (0x9E6, 0x9EF), (0x9F4, 0x9F9), (0xA66, 0xA6F), (0xAE6, 0xAEF),
   (0xB66, 0xB6F), (0xB72, 0xB77), (0xBE6, 0xBF2), (0xC66, 0xC6F), (0xC78, 0xC7E), (0xCE6, 0xCEF),
   (0xD58, 0xD5E), (0xD66, 0xD78), (0xDE6, 0xDEF), (0xE50, 0xE59), (0xED0, 0xED9), (0xF20, 0xF33),
   (0x1040, 0x1049), (0x1090, 0x1099), (0x1369, 0x137C), (0x16EE, 0x16F0), (0x17E0, 0x17E9),
   (0x17F0, 0x17F9), (0x1810, 0x1819), (0x1946, 0x194F), (0x19D0, 0x19DA), (0x1A80, 0x1A89),
   (0x1A90, 0x1A99), (0x1B50, 0x1B59), (0x1BB0, 0x1BB9), (0x1C40, 0x1C49), (0x1C50, 0x1C59),
   (0x2070, 0x2070), (0x2074, 0x2079), (0x2080, 0x2089), (0x2150, 0x2182), (0x2185, 0x2189),
   (0x2460, 0x249B), (0x24EA, 0x24FF), (0x2776, 0x2793), (0x2CFD, 0x2CFD), (0x3007, 0x3007),
   (0x3021, 0x3029), (0x3038, 0x303A), (0x3192, 0x3195), (0x3220, 0x3229), (0x3248, 0x324F),
   (0x3251, 0x325F), (0x3280, 0x3289), (0x32B1, 0x32BF), (0x3405, 0x3405), (0x3483, 0x3483),
   (0x382A, 0x382A), (0x3B4D, 0x3B4D), (0x4E00, 0x4E00), (0x4E03, 0x4E03), (0x4E07, 0x4E07),
   (0x4E09, 0x4E09), (0x4E5D, 0x4E5D), (0x4E8C, 0x4E8C), (0x4E94, 0x4E94), (0x4E96, 0x4E96),
   (0x4EBF, 0x4EC0), (0x4EDF, 0x4EDF), (0x4EE8, 0x4EE8), (0x4F0D, 0x4F0D), (0x4F70, 0x4F70),
   (0x5104, 0x5104), (0x5146, 0x5146), (0x5169, 0x5169), (0x516B, 0x516B), (0x516D, 0x516D),
   (0x5341, 0x5341), (0x5343, 0x5345), (0x534C, 0x534C), (0x53C1, 0x53C4), (0x56DB, 0x56DB),
   (0x58F1, 0x58F1), (0x58F9, 0x58F9), (0x5E7A, 0x5E7A), (0x5EFE, 0x5EFF), (0x5F0C, 0x5F0E),
   (0x5F10, 0x5F10), (0x62FE, 0x62FE), (0x634C, 0x634C), (0x67D2, 0x67D2), (0x6F06, 0x6F06),
   (0x7396, 0x7396), (0x767E, 0x767E), (0x8086, 0x8086), (0x842C, 0x842C), (0x8CAE, 0x8CAE),
   (0x8CB3, 0x8CB3), (0x8D30, 0x8D30), (0x9621, 0x9621), (0x9646, 0x9646), (0x964C, 0x964C),
   (0x9678, 0x9678), (0x96F6, 0x96F6), (0xA620, 0xA629), (0xA6E6, 0xA6EF), (0xA830, 0xA835),
   (0xA8D0, 0xA8D9), (0xA900, 0xA909), (0xA9D0, 0xA9D9), (0xA9F0, 0xA9F9), (0xAA50, 0xAA59),
   (0xABF0, 0xABF9), (0xF96B, 0xF96B), (0xF973, 0xF973), (0xF978, 0xF978), (0xF9B2, 0xF9B2),
   (0xF9D1, 0xF9D1), (0xF9D3, 0xF9D3), (0xF9FD, 0xF9FD), (0xFF10, 0xFF19), (0x10107, 0x10133),
   (0x10140, 0x10178), (0x1018A, 0x1018B), (0x102E1, 0x102FB), (0x10320, 0x10323),
   (0x10341, 0x10341), (0x1034A, 0x1034A), (0x103D1, 0x103D5), (0x104A0, 0x104A9),
   (0x10858, 0x1085F), (0x10879, 0x1087F), (0x108A7, 0x108AF), (0x108FB, 0x108FF),
   (0x10916, 0x1091B), (0x109BC, 0x109BD), (0x109C0, 0x109CF), (0x109D2, 0x109FF),
   (0x10A40, 0x10A48), (0x10A7D, 0x10A7E), (0x10A9D, 0x10A9F), (0x10AEB, 0x10AEF),
   (0x10B58, 0x10B5F), (0x10B78, 0x10B7F), (0x10BA9, 0x10BAF), (0x10CFA, 0x10CFF),
   (0x10D30, 0x10D39), (0x10E60, 0x10E7E), (0x10F1D, 0x10F26), (0x10F51, 0x10F54),
   (0x10FC5, 0x10FCB), (0x11052, 0x1106F), (0x110F0, 0x110F9), (0x11136, 0x1113F),
   (0x111D0, 0x111D9), (0x111E1, 0x111F4), (0x112F0, 0x112F9), (0x11450, 0x11459),
   (0x114D0, 0x114D9), (0x11650, 0x11659), (0x116C0, 0x116C9), (0x11730, 0x1173B),
   (0x118E0, 0x118F2), (0x11950, 0x11959), (0x11C50, 0x11C6C), (0x11D50, 0x11D59),
   (0x11DA0, 0x11DA9), (0x11FC0, 0x11FD4), (0x12400, 0x1246E), (0x16A60, 0x16A69),
   (0x16AC0, 0x16AC9), (0x16B50, 0x16B59), (0x16B5B, 0x16B61), (0x16E80, 0x16E96),
   (0x1D2E0, 0x1D2F3), (0x1D360, 0x1D378), (0x1D7CE, 0x1D7FF), (0x1E140, 0x1E149),
   (0x1E2F0, 0x1E2F9), (0x1E8C7, 0x1E8CF), (0x1E950, 0x1E959), (0x1EC71, 0x1ECAB),
   (0x1ECAD, 0x1ECAF), (0x1ECB1, 0x1ECB4), (0x1ED01, 0x1ED2D), (0x1ED2F, 0x1ED3D),
   (0x1F100, 0x1F10C), (0x1FBF0, 0x1FBF9), (0x20001, 0x20001), (0x20064, 0x20064),
   (0x200E2, 0x200E2), (0x20121, 0x20121), (0x2092A, 0x2092A), (0x20983, 0x20983),
   (0x2098C, 0x2098C), (0x2099C, 0x2099C), (0x20AEA, 0x20AEA), (0x20AFD, 0x20AFD),
   (0x20B19, 0x20B19), (0x22390, 0x22390), (0x22998, 0x22998), (0x23B1B, 0x23B1B),
   (0x2626D, 0x2626D), (0x2F890, 0x2F890)]

/-- `str.isnumeric` of one character. -/
def isNumericChar (c : Char) : Bool := inRanges c.toNat numericRanges

/-- `str.isnumeric`: a nonempty string of numeric characters, in Python's Unicode sense. -/
def isNumeric (x : String) : Bool := !x.isEmpty && x.toList.all isNumericChar

mutual
/-- `type_annotator(fn, constraints)`, with the counter before and after. -/
def typeAnnotator : AstNode → Nat → List TypeConstraint →
    Except PyError (Ty × Nat × List TypeConstraint)
  | .node .numberConstant [.str x], c, cs =>
    if isNumeric x then pure (.atom "int", c, cs)
    else if isNumber x then pure (.atom "float", c, cs)
    else pure (.none, c, cs)
  | .node .numberConstant [_], _, _ => .error .attributeError
  | .node .string1 [.str varName], c, cs =>
    let (v, c) := getUnknownTypeVar varName c
    pure (.atom v, c, cs)
  | .str varName, c, cs =>
    let (v, c) := getUnknownTypeVar varName c
    pure (.atom v, c, cs)
  | .node .add [lhs, rhs], c, cs | .node .mult [lhs, rhs], c, cs => do
    let (lhsType, c, cs) ← typeAnnotator lhs c cs
    let (rhsType, c, cs) ← typeAnnotator rhs c cs
    let (resultType, c) := getUnknownTypeVar "" c
    pure (.atom resultType, c,
      cs ++ [⟨.atom "Operator+", .tuple [lhsType, rhsType, .atom resultType]⟩])
  | .node .negate [val], c, cs => do
    let (valType, c, cs) ← typeAnnotator val c cs
    pure (valType, c, cs ++ [⟨valType, .atom "int"⟩])
  | .node .unknown (.node .string1 [.str fnName] :: paramsList), c, cs => do
    let (returnType, c) := getUnknownTypeVar "" c
    let (paramsType, c, cs) ← typeAnnotatorList paramsList c cs
    pure (.atom returnType, c,
      cs ++ [⟨.atom fnName, .tuple (paramsType ++ [.atom returnType])⟩])
  | .node .unknown operands, c, cs => do
    let (operandsType, c, cs) ← typeAnnotatorList operands c cs
    match operandsType.getLast? with
    | some t => pure (t, c, cs)
    | Option.none => .error .indexError
  | _, c, cs => pure (.none, c, cs)
/-- `type_annotator` on each node of a list, left to right. -/
def typeAnnotatorList : List AstNode → Nat → List TypeConstraint →
    Except PyError (List Ty × Nat × List TypeConstraint)
  | [], c, cs => pure ([], c, cs)
  | a :: as, c, cs => do
    let (t, c, cs) ← typeAnnotator a c cs
    let (ts, c, cs) ← typeAnnotatorList as c cs
    pure (t :: ts, c, cs)
end

/-- `fn_type_annotator`: the function's name as its type, constrained to the tuple of its
parameters' types and its body's type. -/
def fnTypeAnnotator (fn : FunctionStub) (c : Nat) (cs : List TypeConstraint) :
    Except PyError (Ty × Nat × List TypeConstraint) := do
  let myType := Ty.atom fn.name
  let (paramsType, c, cs) ← typeAnnotatorList (fn.paramsList.map .str) c cs
  let (functionBodyType, c, cs) ← typeAnnotator fn.body c cs
  pure (myType, c, cs ++ [⟨myType, .tuple (paramsType ++ [functionBodyType])⟩])

/-- `FunctionStub.annotate_type`: the stub's type, and its constraints unified and simplified. -/
def annotateType (fuel : Nat) (stub : FunctionStub) (c : Nat) :
    Except PyError (FunctionStub × Nat) := do
  let (myType, c, constraints) ← fnTypeAnnotator stub c []
  let intermediateTypes ← unifyConstraints fuel constraints
  pure ({ stub with myType := some myType, intermediateTypes }, c)

/-- `FunctionStub.unify_with_other`: nothing for an equal map, the merge otherwise. -/
def unifyWithOther (fuel : Nat) (stub : FunctionStub) (other : Dict) :
    Except PyError FunctionStub :=
  if other.pyEq stub.intermediateTypes then pure stub
  else return { stub with intermediateTypes := ← unifyTypeDicts fuel stub.intermediateTypes other }

/-- `self.my_type`, which is `None` before annotation and is then no key. -/
def FunctionStub.myTypeKey (stub : FunctionStub) : Except PyError Ty :=
  match stub.myType with
  | some t => pure t
  | Option.none => .error .keyError

/-- `apply_with_type` up to its last assertion: the arity check, then the deep copy of the
stub's map with the entry's type unified with `args`, simplified. -/
def specialize (fuel : Nat) (stub : FunctionStub) (args : Ty) : Except PyError Dict :=
  match args with
  | .tuple types => do
    let myType ← stub.myTypeKey
    let n ← (← stub.intermediateTypes.getItem myType).pyLen
    if types.length ≠ n then .error (.assertionError "")
    let solution ← unifyVars fuel myType args stub.intermediateTypes
    simplifyUnification solution
  | _ => .error (.runtimeError "Compile failed")

/-- `FunctionStub.apply_with_type`: every value of the specialized map must be base, and the
entry's resolved type is returned. -/
def applyWithType (fuel : Nat) (stub : FunctionStub) (args : Ty) : Except PyError Ty := do
  let solution ← specialize fuel stub args
  if !(solution.all fun (_, v) => v.isBaseType) then
    .error (.assertionError "Type must be fully resolved at this point")
  solution.getItem (← stub.myTypeKey)

/-! ## The stages of annotation and specialization -/

/-- Annotation records the stub's type and its constraints, unified and simplified. -/
theorem annotateType_eq_ok {fuel c c' : Nat} {stub : FunctionStub} {t : Ty}
    {cs : List TypeConstraint} {d : Dict} (h : fnTypeAnnotator stub c [] = .ok (t, c', cs))
    (hu : unifyConstraints fuel cs = .ok d) :
    annotateType fuel stub c = .ok ({ stub with myType := some t, intermediateTypes := d }, c') := by
  simp [annotateType, h, hu]

/-- Once the arity check passes, specialization is the unification of the entry's type with the
invocation, simplified. -/
theorem specialize_eq_ok {fuel : Nat} {stub : FunctionStub} {types : List Ty} {t : Ty}
    {d sol : Dict} (hmy : stub.myType = some t)
    (harity : (stub.intermediateTypes.getItem t >>= Ty.pyLen) = .ok types.length)
    (hu : unifyVars fuel t (.tuple types) stub.intermediateTypes = .ok d)
    (hs : simplifyUnification d = .ok sol) :
    specialize fuel stub (.tuple types) = .ok sol := by
  obtain ⟨v, hv, hn⟩ := bind_eq_ok.1 harity
  simp [specialize, FunctionStub.myTypeKey, hmy, hv, hn, hu, hs]

end LispCompiler
