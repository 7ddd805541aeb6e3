import LispCompiler.Syntax

/-!
# Code generation

`compile1` of `compiler.py`, with the part of llvmlite's `ir` that it uses: `ir.Function`, which
registers its name in the module and raises `DuplicatedNameError` for a name already there;
`append_basic_block` and `IRBuilder`, which appends to the end of that block; `IRBuilder.add`,
`mul`, and `neg` (a `sub` from the constant `0`), each appending one instruction and returning it;
and `IRBuilder.ret`. The module that `compile1` writes to is a global of `compiler.py`; the model
passes it along, and names a function by its position in it. `ir.NumberConstant` is no attribute of
llvmlite's `ir`, so a literal raises `AttributeError`.

`set_bound_vars` pushes a binding into the `bound_variables` of a lambda's node and of every node
below it, and a variable load reads the binding from its own node. On nodes whose dictionaries
start empty, as the parser builds every node, a node's dictionary holds the bindings of the lambdas
above it; the model passes them down as `Bindings`, the newest first.

The meaning of an expression is its value in `i64` (`BitVec 64`), the one type of the functions and
values `compile1` builds (`AstNode.arithValue`), and the meaning of a block is the values of its
instructions run in order (`runBlock`). The code of an expression computes its value, with one
instruction per operator, appended to the builder's block and nowhere else (`compile1_arith`); on
arithmetic syntax it returns exactly where there is no literal and every name is bound
(`compile1_returns_iff`); and a lambda becomes a function that computes its body from its
arguments (`compile1_lambda`).

These are results on trees built by hand, in the form `compile1` reads: a negation is
`AstNode(Negate, [k])`, with a list of one operand. The front end builds none of them. The parser
builds a negation as `AstNode(Negate, k)`, with the operand in place of the list, on which
`len(ast.operands)` raises `TypeError`; it reads a `-` of one operand as that operand; and it
builds no `Lambda` node. Nor does a run of `compiler.py` reach `compile1`: the line before it,
`u64 = ir.IntType(64)`, names `ir`, which the file never imports, and raises `NameError`.
-/

namespace LispCompiler

/-! ## The IR that `compile1` builds -/

/-- A value of llvmlite's `ir` that `compile1` handles: a constant (the `0` of `neg`), the `i`-th
argument of the module's `fn`-th function (`func.args`), or the `n`-th instruction of that
function's block. -/
inductive IrValue where
  | const (c : BitVec 64)
  | arg (fn i : Nat)
  | inst (fn n : Nat)
  deriving DecidableEq, Repr

/-- The opcodes of `IRBuilder.add`, `IRBuilder.mul`, and `IRBuilder.sub`, which `neg` calls. -/
inductive Opcode where
  | add | mul | sub
  deriving DecidableEq, Repr

/-- An instruction of a block: an opcode on two operands. -/
structure Instr where
  opname : Opcode
  lhs : IrValue
  rhs : IrValue
  deriving DecidableEq, Repr

/-- An `ir.Function` of type `i64 (i64, …, i64)` with the one block that `append_basic_block` gives
it: its name, its number of arguments, the instructions appended to the block, and its `ret`
terminator once set, whose operand is `None` where the body compiled to `None`. -/
structure IrFunction where
  name : String
  arity : Nat
  block : List Instr
  ret : Option (Option IrValue)
  deriving DecidableEq, Repr

/-- `ir.Module(name="test")`: its functions in the order they were created. -/
abbrev IrModule := List IrFunction

/-- What `compile1` raises: an exception of the front end's kinds, the `KeyError` of
`get_bound_vars` with its message, or llvmlite's `DuplicatedNameError` with the name. -/
inductive GenError where
  | py (e : PyError)
  | keyError (msg : String)
  | duplicatedName (name : String)
  deriving DecidableEq, Repr

/-- The `bound_variables` of a node: names and their values, the newest binding first. -/
abbrev Bindings := List (String × IrValue)

/-! ## `compile1` -/

/-- `builder.add(lhs, rhs)`, `builder.mul(lhs, rhs)`, and `builder.neg(x)`, a `sub` from `0`: the
instruction goes at the end of the block of the builder's function and is the value returned.
`None` as the builder has no such method, and `None` as an operand has no `type`: both raise
`AttributeError`. A builder always stands in a function of the module. -/
def emit (m : IrModule) (builder : Option Nat) (op : Opcode) :
    Option IrValue → Option IrValue → Except GenError (Option IrValue × IrModule)
  | some l, some r => match builder with
    | some f => match m[f]? with
      | some fn => pure (some (.inst f fn.block.length),
          m.set f { fn with block := fn.block ++ [⟨op, l, r⟩] })
      | Option.none => .error (.py .attributeError)
    | Option.none => .error (.py .attributeError)
  | _, _ => .error (.py .attributeError)

/-- `name.operands[0]` of a parameter, the key that `set_bound_vars` binds: a string has no
`operands`, an empty list no first element, a node in place of the list is not subscriptable, and
a node is no hashable key. -/
def paramKey : AstNode → Except GenError String
  | .node _ (.str s :: _) => pure s
  | .node _ (_ :: _) => .error (.py .typeError)
  | .node _ [] => .error (.py .indexError)
  | .bare _ _ => .error (.py .typeError)
  | .str _ => .error (.py .attributeError)

mutual
/-- Whether `set_bound_vars` returns on a node: it recurses into the nodes of a list of operands,
and iterating the `operands` of a node that holds a node raises `TypeError`. -/
def AstNode.bindable : AstNode → Bool
  | .node _ ops => AstNode.bindableList ops
  | .bare _ _ => false
  | .str _ => true
/-- `AstNode.bindable` of every operand. -/
def AstNode.bindableList : List AstNode → Bool
  | [] => true
  | a :: as => a.bindable && AstNode.bindableList as
end

/-- `[ast.set_bound_vars(name.operands[0], value) for name, value in zip(params_list, args)]`, from
the `i`-th parameter on: each bound to the argument of function `f` at its position, over the
bindings before. `bindable` is whether pushing a binding into the lambda's nodes returns. -/
def bindParams (bindable : Bool) (f : Nat) : Nat → List AstNode → Bindings → Except GenError Bindings
  | _, [], env => pure env
  | i, p :: ps, env => do
    let key ← paramKey p
    if bindable then bindParams bindable f (i + 1) ps ((key, .arg f i) :: env)
    else .error (.py .typeError)

/-- `compile1(builder, ast)`, with the module before and after, and the bindings that
`ast.bound_variables` holds. It returns the value of an expression, and `None` for a lambda, which
it compiles into a new function, and for a node that no case matches. -/
def compile1 (m : IrModule) (builder : Option Nat) (env : Bindings) :
    AstNode → Except GenError (Option IrValue × IrModule)
  | .node .lambda ops => match ops with
    | [] => .error (.py .indexError)
    | .str _ :: _ => .error (.py .attributeError)
    | .bare _ _ :: _ => .error (.py .typeError)
    | [.node _ _] => .error (.py .indexError)
    | .node _ params :: fnBody :: _ =>
      if m.any (·.name == "lambda") then .error (.duplicatedName "lambda") else do
        let f := m.length
        let env ← bindParams (AstNode.node .lambda ops).bindable f 0 params env
        let (result, m) ← compile1 (m ++ [⟨"lambda", params.length, [], Option.none⟩]) (some f)
          env fnBody
        pure (Option.none, m.modify (fun fn => { fn with ret := some result }) f)
  | .bare .lambda _ => .error (.py .typeError)
  | .node .add [lhs, rhs] => do
    let (l, m) ← compile1 m builder env lhs
    let (r, m) ← compile1 m builder env rhs
    emit m builder .add l r
  | .node .mult [lhs, rhs] => do
    let (l, m) ← compile1 m builder env lhs
    let (r, m) ← compile1 m builder env rhs
    emit m builder .mul l r
  | .node .add _ | .node .mult _ => .error (.py (.assertionError ""))
  | .bare .add _ | .bare .mult _ => .error (.py .typeError)
  | .node .negate [x] => do
    let (v, m) ← compile1 m builder env x
    emit m builder .sub (some (.const 0)) v
  | .node .negate _ => .error (.py (.assertionError ""))
  | .bare .negate _ => .error (.py .typeError)
  | .node .numberConstant _ | .bare .numberConstant _ => .error (.py .attributeError)
  | .node .string1 (.str name :: _) => match env.lookup name with
    | some v => pure (some v, m)
    | Option.none => .error (.keyError (name ++ " doesn\x27t exist in the variable namespace"))
  | .node .string1 (_ :: _) => .error (.py .typeError)
  | .node .string1 [] => .error (.py .indexError)
  | .bare .string1 _ => .error (.py .typeError)
  | .str _ => .error (.py .attributeError)
  | _ => pure (Option.none, m)

/-! ## What the code computes -/

/-- The value of an operand in a run of function `f` on the arguments `args`, where `regs` are the
values of the block's instructions so far: none for a value of another function or one not yet
computed. -/
def IrValue.eval (f : Nat) (args regs : List (BitVec 64)) : IrValue → Option (BitVec 64)
  | .const c => some c
  | .arg g i => if g = f then args[i]? else Option.none
  | .inst g n => if g = f then regs[n]? else Option.none

@[simp] theorem IrValue.eval_const (f : Nat) (args regs : List (BitVec 64)) (c : BitVec 64) :
    (IrValue.const c).eval f args regs = some c := rfl

/-- LLVM's `add`, `mul`, and `sub` on `i64`, modulo `2^64`. -/
def Opcode.apply : Opcode → BitVec 64 → BitVec 64 → BitVec 64
  | .add, a, b => a + b
  | .mul, a, b => a * b
  | .sub, a, b => a - b

/-- The values of a block's instructions run in order in function `f`, after the values `regs` of
the instructions before it: none where an operand has no value. -/
def runBlock (f : Nat) (args : List (BitVec 64)) :
    List (BitVec 64) → List Instr → Option (List (BitVec 64))
  | regs, [] => some regs
  | regs, i :: is => do
    let l ← i.lhs.eval f args regs
    let r ← i.rhs.eval f args regs
    runBlock f args (regs ++ [i.opname.apply l r]) is

/-- The value of a name in a run of function `f`: the value of its binding. -/
def Bindings.valueIn (env : Bindings) (f : Nat) (args regs : List (BitVec 64)) (x : String) :
    Option (BitVec 64) :=
  (env.lookup x).bind (IrValue.eval f args regs)

/-- The expressions that `compile1` compiles to a value, over the names `bound`: sums and products
of two operands, negations of one in the list form `AstNode(Negate, [k])`, and loads of bound
names. -/
inductive Arith (bound : String → Prop) : AstNode → Prop where
  | add {a b : AstNode} : Arith bound a → Arith bound b → Arith bound (.node .add [a, b])
  | mult {a b : AstNode} : Arith bound a → Arith bound b → Arith bound (.node .mult [a, b])
  | negate {a : AstNode} : Arith bound a → Arith bound (.node .negate [a])
  | load {x : String} : bound x → Arith bound (.node .string1 [.str x])

/-- The value of an arithmetic expression in `i64`, with the names' values `ρ`: addition and
multiplication modulo `2^64`, and negation in two's complement. -/
def AstNode.arithValue (ρ : String → Option (BitVec 64)) : AstNode → Option (BitVec 64)
  | .node .add [a, b] => return (← a.arithValue ρ) + (← b.arithValue ρ)
  | .node .mult [a, b] => return (← a.arithValue ρ) * (← b.arithValue ρ)
  | .node .negate [a] => return -(← a.arithValue ρ)
  | .node .string1 (.str x :: _) => ρ x
  | _ => Option.none

/-- The number of operators of an arithmetic expression. -/
def AstNode.operatorCount : AstNode → Nat
  | .node .add [a, b] | .node .mult [a, b] => a.operatorCount + b.operatorCount + 1
  | .node .negate [a] => a.operatorCount + 1
  | _ => 0

/-! ## Runs of blocks -/

section Runs

variable {f : Nat} {args : List (BitVec 64)}

/-- A value that the instructions so far define keeps it when more follow. -/
theorem IrValue.eval_append {w : IrValue} {regs : List (BitVec 64)} {x : BitVec 64}
    (h : w.eval f args regs = some x) (more : List (BitVec 64)) :
    w.eval f args (regs ++ more) = some x := by
  cases w with
  | const c => exact h
  | arg g i => exact h
  | inst g n =>
    simp only [IrValue.eval] at h ⊢
    split at h
    · rw [if_pos ‹_›, List.getElem?_append_left (List.getElem?_eq_some.1 h).1, h]
    · cases h

theorem runBlock_append : ∀ (regs : List (BitVec 64)) (is js : List Instr),
    runBlock f args regs (is ++ js) = (runBlock f args regs is).bind (runBlock f args · js)
  | _, [], _ => rfl
  | regs, i :: is, js => by
    simp only [List.cons_append, runBlock]
    cases i.lhs.eval f args regs <;> cases i.rhs.eval f args regs <;>
      simp [runBlock_append _ is js]

/-- A run appends one value per instruction. -/
theorem runBlock_eq_some : ∀ {regs regs' : List (BitVec 64)} {is : List Instr},
    runBlock f args regs is = some regs' → ∃ more, regs' = regs ++ more ∧ more.length = is.length
  | _, _, [], h => ⟨[], by cases h; simp, rfl⟩
  | regs, regs', i :: is, h => by
    simp only [runBlock, Option.bind_eq_bind, Option.bind_eq_some] at h
    obtain ⟨l, -, r, -, h⟩ := h
    obtain ⟨more, rfl, hl⟩ := runBlock_eq_some h
    exact ⟨i.opname.apply l r :: more, by simp, by simp [hl]⟩

/-- The value of a name defined by the instructions so far is the same when more follow. -/
theorem Bindings.valueIn_append {env : Bindings} {regs : List (BitVec 64)} {x : String}
    (h : (env.valueIn f args regs x).isSome) (more : List (BitVec 64)) :
    env.valueIn f args (regs ++ more) x = env.valueIn f args regs x := by
  obtain ⟨w, hw⟩ := Option.isSome_iff_exists.1 h
  obtain ⟨v, hv, he⟩ := Option.bind_eq_some.1 hw
  simp only [Bindings.valueIn, hv, Option.some_bind, IrValue.eval_append he, he]

end Runs

/-- The value of an expression depends only on the values of the names it reads. -/
theorem Arith.arithValue_congr {bound : String → Prop} {e : AstNode} (he : Arith bound e)
    {ρ ρ' : String → Option (BitVec 64)} (h : ∀ x, bound x → ρ x = ρ' x) :
    e.arithValue ρ = e.arithValue ρ' := by
  induction he with
  | add _ _ iha ihb => simp only [AstNode.arithValue, iha, ihb]
  | mult _ _ iha ihb => simp only [AstNode.arithValue, iha, ihb]
  | negate _ ih => simp only [AstNode.arithValue, ih]
  | load hx => exact h _ hx

/-! ## The code of an arithmetic expression -/

/-- Setting an entry of a list to the value it has changes nothing. -/
theorem set_of_getElem? {α : Type} {l : List α} {i : Nat} {a : α} (h : l[i]? = some a) :
    l.set i a = l :=
  List.ext_getElem? fun j => by
    rw [List.getElem?_set]
    split
    · subst_vars
      rw [if_pos (List.getElem?_eq_some.1 h).1, h]
    · rfl

/-- What `compile1` does on the arithmetic expression `e` with a builder in function `f` of `m`,
whose function is `fn`: it returns a value and the module with instructions `new` appended to
`f`'s block and nothing else changed, one per operator of `e`; and in every run of `f` in which
the names that `bound` holds have values, the new instructions run and the value returned is
`e`'s value. -/
def CompilesArith (bound : String → Prop) (m : IrModule) (f : Nat) (fn : IrFunction)
    (env : Bindings) (e : AstNode) : Prop :=
  ∃ v new, compile1 m (some f) env e = .ok (some v, m.set f { fn with block := fn.block ++ new }) ∧
    new.length = e.operatorCount ∧
    ∀ args regs, regs.length = fn.block.length →
      (∀ x, bound x → (env.valueIn f args regs x).isSome) →
      ∃ regs' y, runBlock f args regs new = some regs' ∧ v.eval f args regs' = some y ∧
        e.arithValue (env.valueIn f args regs) = some y

section Compile

variable {bound : String → Prop} {m : IrModule} {f : Nat} {fn : IrFunction} {env : Bindings}

/-- The function the builder stands in, with instructions appended. -/
theorem getElem?_set_block (hf : m[f]? = some fn) (new : List Instr) :
    (m.set f { fn with block := fn.block ++ new })[f]? = some { fn with block := fn.block ++ new } :=
  List.getElem?_set_self (List.getElem?_eq_some.1 hf).1

/-- A variable load is its binding, with no instruction. -/
theorem CompilesArith.load {x : String} (hx : bound x) (hb : (env.lookup x).isSome)
    (hf : m[f]? = some fn) : CompilesArith bound m f fn env (.node .string1 [.str x]) := by
  obtain ⟨w, hw⟩ := Option.isSome_iff_exists.1 hb
  refine ⟨w, [], ?_, rfl, fun args regs _ hd => ?_⟩
  · simp only [compile1, hw, List.append_nil, set_of_getElem? hf]
    rfl
  · obtain ⟨y, hy⟩ := Option.isSome_iff_exists.1 (hd x hx)
    refine ⟨regs, y, rfl, ?_, hy⟩
    simpa [Bindings.valueIn, hw] using hy

/-- A sum or a product: the code of its two operands, then one instruction on their values. -/
theorem CompilesArith.binop {instr : Instruction} {op : Opcode} {a b : AstNode}
    (hop : instr = .add ∧ op = .add ∨ instr = .mult ∧ op = .mul) (hf : m[f]? = some fn)
    (hab : Arith bound b) (ha : CompilesArith bound m f fn env a)
    (hb : ∀ {m' fn'}, m'[f]? = some fn' → CompilesArith bound m' f fn' env b) :
    CompilesArith bound m f fn env (.node instr [a, b]) := by
  obtain ⟨va, na, hca, hla, hsa⟩ := ha
  obtain ⟨vb, nb, hcb, hlb, hsb⟩ := hb (getElem?_set_block hf na)
  have hlen : ({ fn with block := fn.block ++ na } : IrFunction).block.length + nb.length =
      fn.block.length + na.length + nb.length := by simp [Nat.add_assoc]
  refine ⟨.inst f (fn.block.length + na.length + nb.length), na ++ nb ++ [⟨op, va, vb⟩],
    ?_, ?_, fun args regs hl hd => ?_⟩
  · have hf2 := getElem?_set_block (getElem?_set_block hf na) nb
    rcases hop with ⟨rfl, rfl⟩ | ⟨rfl, rfl⟩ <;>
    · simp only [compile1, hca, hcb, ok_bind]
      simp only [emit, hf2]
      simp [List.set_set, Nat.add_assoc]
  · rcases hop with ⟨rfl, rfl⟩ | ⟨rfl, rfl⟩ <;> simp [AstNode.operatorCount, hla, hlb, Nat.add_assoc]
  · obtain ⟨ra, ya, hra, hva, hea⟩ := hsa args regs hl hd
    obtain ⟨ma, rfl, hma⟩ := runBlock_eq_some hra
    have hd' : ∀ x, bound x → (env.valueIn f args (regs ++ ma) x).isSome := fun x hx => by
      rw [Bindings.valueIn_append (hd x hx)]
      exact hd x hx
    obtain ⟨rb, yb, hrb, hvb, heb⟩ := hsb args (regs ++ ma) (by simp [hl, hma]) hd'
    obtain ⟨mb, rfl, hmb⟩ := runBlock_eq_some hrb
    rw [hab.arithValue_congr fun x hx => Bindings.valueIn_append (hd x hx) ma] at heb
    have hn : (regs ++ ma ++ mb).length = fn.block.length + na.length + nb.length := by
      simp [hl, hma, hmb, Nat.add_assoc]
    refine ⟨regs ++ ma ++ mb ++ [op.apply ya yb], op.apply ya yb, ?_, ?_, ?_⟩
    · rw [runBlock_append, runBlock_append, hra, Option.some_bind, hrb, Option.some_bind]
      simp only [runBlock, Option.bind_eq_bind, IrValue.eval_append hva mb, hvb, Option.some_bind]
    · rw [← hn, IrValue.eval, if_pos rfl, List.getElem?_concat_length]
    · rcases hop with ⟨rfl, rfl⟩ | ⟨rfl, rfl⟩ <;> simp [AstNode.arithValue, hea, heb, Opcode.apply]

/-- A negation: the code of its operand, then its subtraction from `0`. -/
theorem CompilesArith.negate {a : AstNode} (hf : m[f]? = some fn)
    (ha : CompilesArith bound m f fn env a) :
    CompilesArith bound m f fn env (.node .negate [a]) := by
  obtain ⟨va, na, hca, hla, hsa⟩ := ha
  refine ⟨.inst f (fn.block.length + na.length), na ++ [⟨.sub, .const 0, va⟩], ?_,
    by simp [AstNode.operatorCount, hla], fun args regs hl hd => ?_⟩
  · simp [compile1, hca, emit, getElem?_set_block hf na, List.set_set]
  · obtain ⟨ra, ya, hra, hva, hea⟩ := hsa args regs hl hd
    obtain ⟨ma, rfl, hma⟩ := runBlock_eq_some hra
    have hn : (regs ++ ma).length = fn.block.length + na.length := by simp [hl, hma]
    refine ⟨regs ++ ma ++ [0 - ya], 0 - ya, ?_, ?_, ?_⟩
    · rw [runBlock_append, hra, Option.some_bind]
      simp only [runBlock, Option.bind_eq_bind, IrValue.eval_const, hva, Option.some_bind,
        Opcode.apply]
    · rw [← hn, IrValue.eval, if_pos rfl, List.getElem?_concat_length]
    · simp [AstNode.arithValue, hea, BitVec.zero_sub]

end Compile

/-- Every arithmetic expression over bound names compiles as `CompilesArith` says, by induction on
the expression. -/
theorem Arith.compilesArith {bound : String → Prop} {e : AstNode} (he : Arith bound e) :
    ∀ {m : IrModule} {f : Nat} {fn : IrFunction} {env : Bindings}, m[f]? = some fn →
      (∀ x, bound x → (env.lookup x).isSome) → CompilesArith bound m f fn env e := by
  induction he with
  | add _ hb iha ihb =>
    exact fun hf henv => .binop (.inl ⟨rfl, rfl⟩) hf hb (iha hf henv) fun hf' => ihb hf' henv
  | mult _ hb iha ihb =>
    exact fun hf henv => .binop (.inr ⟨rfl, rfl⟩) hf hb (iha hf henv) fun hf' => ihb hf' henv
  | negate _ ih => exact fun hf henv => .negate hf (ih hf henv)
  | load hx => exact fun hf henv => .load hx (henv _ hx) hf

/-- The code of an arithmetic expression computes its value. With a builder in function `f` of `m`
and every name the expression reads bound, `compile1` returns a value and appends one instruction
per operator to `f`'s block, changing nothing else in the module; in every run of `f` in which the
names have values, the new instructions run and return the expression's value in `i64`. -/
theorem compile1_arith {bound : String → Prop} {e : AstNode} (he : Arith bound e) :
    ∀ {m : IrModule} {f : Nat} {fn : IrFunction} {env : Bindings}, m[f]? = some fn →
      (∀ x, bound x → (env.lookup x).isSome) → CompilesArith bound m f fn env e :=
  he.compilesArith

/-- `x * -y` in the function `lambda` of two arguments, which bind `x` and `y`. -/
theorem compile1_arith_product :
    Arith (· ∈ ["x", "y"])
        (.node .mult [.node .string1 [.str "x"], .node .negate [.node .string1 [.str "y"]]]) ∧
      ([⟨"lambda", 2, [], Option.none⟩] : IrModule)[0]? = some ⟨"lambda", 2, [], Option.none⟩ ∧
      (∀ x, x ∈ ["x", "y"] → (List.lookup x [("y", IrValue.arg 0 1), ("x", IrValue.arg 0 0)]).isSome) ∧
      CompilesArith (· ∈ ["x", "y"]) [⟨"lambda", 2, [], Option.none⟩] 0 ⟨"lambda", 2, [], Option.none⟩
        [("y", .arg 0 1), ("x", .arg 0 0)]
        (.node .mult [.node .string1 [.str "x"], .node .negate [.node .string1 [.str "y"]]]) := by
  refine ⟨?he, ?hf, ?henv, compile1_arith ?he ?hf ?henv⟩
  · exact .mult (.load (by simp)) (.negate (.load (by simp)))
  · rfl
  · decide

/-- Arithmetic syntax in the form `compile1` reads: sums and products of two operands, negations of
one in the list form `AstNode(Negate, [k])`, identifiers, and literals. -/
inductive ArithSyntax : AstNode → Prop where
  | add {a b : AstNode} : ArithSyntax a → ArithSyntax b → ArithSyntax (.node .add [a, b])
  | mult {a b : AstNode} : ArithSyntax a → ArithSyntax b → ArithSyntax (.node .mult [a, b])
  | negate {a : AstNode} : ArithSyntax a → ArithSyntax (.node .negate [a])
  | load (x : String) : ArithSyntax (.node .string1 [.str x])
  | literal (x : String) : ArithSyntax (.node .numberConstant [.str x])

/-- Where the code of arithmetic syntax returns, the syntax has no literal and its names are bound. -/
theorem ArithSyntax.arith_of_compile1 {e : AstNode} (he : ArithSyntax e) :
    ∀ {m : IrModule} {f : Nat} {fn : IrFunction} {env : Bindings} {r : Option IrValue × IrModule},
      m[f]? = some fn → compile1 m (some f) env e = .ok r →
      Arith (fun x => (env.lookup x).isSome) e := by
  intro m f fn env r hf h
  induction he generalizing m fn r with
  | add _ _ iha ihb | mult _ _ iha ihb =>
    simp only [compile1] at h
    obtain ⟨⟨l, m₁⟩, h₁, h⟩ := bind_eq_ok.1 h
    obtain ⟨_, h₂, -⟩ := bind_eq_ok.1 h
    have ha := iha hf h₁
    obtain ⟨_, _, hc, -⟩ := ha.compilesArith hf fun _ hx => hx
    rw [hc] at h₁
    cases h₁
    first
      | exact .add ha (ihb (getElem?_set_block hf _) h₂)
      | exact .mult ha (ihb (getElem?_set_block hf _) h₂)
  | negate _ ih =>
    simp only [compile1] at h
    obtain ⟨_, h₁, -⟩ := bind_eq_ok.1 h
    exact .negate (ih hf h₁)
  | load x =>
    simp only [compile1] at h
    split at h
    · exact .load (by simp [*])
    · cases h
  | literal x => simp [compile1] at h

/-- Code generation of arithmetic returns exactly on the expressions with no literal whose names are
all bound. A literal always raises, since `ir.NumberConstant` does not exist, and so does a name
with no binding. -/
theorem compile1_returns_iff {e : AstNode} (he : ArithSyntax e) {m : IrModule} {f : Nat}
    {fn : IrFunction} {env : Bindings} (hf : m[f]? = some fn) :
    (∃ r, compile1 m (some f) env e = .ok r) ↔ Arith (fun x => (env.lookup x).isSome) e :=
  ⟨fun ⟨_, h⟩ => he.arith_of_compile1 hf h, fun ha =>
    let ⟨_, _, hc, _⟩ := ha.compilesArith hf fun _ hx => hx
    ⟨_, hc⟩⟩

/-- `x + 1`: the literal raises, with `x` bound. -/
theorem compile1_returns_iff_literal :
    ArithSyntax (.node .add [.node .string1 [.str "x"], .node .numberConstant [.str "1"]]) ∧
      ([⟨"lambda", 1, [], Option.none⟩] : IrModule)[0]? = some ⟨"lambda", 1, [], Option.none⟩ ∧
      ((∃ r, compile1 [⟨"lambda", 1, [], Option.none⟩] (some 0) [("x", .arg 0 0)]
          (.node .add [.node .string1 [.str "x"], .node .numberConstant [.str "1"]]) = .ok r) ↔
        Arith (fun x => (List.lookup x [("x", IrValue.arg 0 0)]).isSome)
          (.node .add [.node .string1 [.str "x"], .node .numberConstant [.str "1"]])) := by
  refine ⟨?he, ?hf, compile1_returns_iff ?he ?hf⟩
  · exact .add (.load "x") (.literal "1")
  · rfl

/-! ## The function of a lambda -/

/-- The value of the name `x` in a call of a lambda with the parameters `names` on the arguments
`args`: the argument of the last parameter of that name. -/
def paramValue : List String → List (BitVec 64) → String → Option (BitVec 64)
  | y :: ys, a :: as, x => if x ∈ ys then paramValue ys as x else if x = y then some a else Option.none
  | _, _, _ => Option.none

/-- Every parameter has a value in a call with an argument per parameter. -/
theorem paramValue_isSome : ∀ {names : List String} {args : List (BitVec 64)} {x : String},
    args.length = names.length → x ∈ names → (paramValue names args x).isSome
  | y :: ys, a :: as, x, hl, hx => by
    rw [paramValue]
    split
    · exact paramValue_isSome (Nat.succ.inj hl) ‹_›
    · rw [if_pos ((List.mem_cons.1 hx).resolve_right ‹_›)]
      rfl

/-- A lambda's parameters that are identifiers bind each name to its argument. -/
theorem bindParams_identifiers (f : Nat) : ∀ (names : List String) (i : Nat) (env : Bindings),
    ∃ env', bindParams true f i (names.map fun x => .node .string1 [.str x]) env = .ok env' ∧
      (∀ x, x ∉ names → env'.lookup x = env.lookup x) ∧
      ∀ x ∈ names, (env'.lookup x).isSome ∧ ∀ args regs, args.length = i + names.length →
        env'.valueIn f args regs x = paramValue names (args.drop i) x
  | [], _, env => ⟨env, rfl, fun _ _ => rfl, fun _ h => absurd h (List.not_mem_nil _)⟩
  | y :: ys, i, env => by
    obtain ⟨env', h, hout, hin⟩ := bindParams_identifiers f ys (i + 1) ((y, .arg f i) :: env)
    refine ⟨env', h, fun x hx => ?_, fun x hx => ?_⟩
    · rw [hout x (fun h => hx (List.mem_cons_of_mem _ h)), List.lookup_cons,
        beq_false_of_ne fun h => hx (by rw [h]; exact List.mem_cons_self _ _)]
    · by_cases hys : x ∈ ys
      · refine ⟨(hin x hys).1, fun args regs hl => ?_⟩
        have hl' : args.length = i + 1 + ys.length := by simp only [hl, List.length_cons]; omega
        rw [(hin x hys).2 args regs hl', @List.drop_eq_getElem_cons _ i args (by omega),
          paramValue.eq_1, if_pos hys]
      · obtain rfl : x = y := (List.mem_cons.1 hx).resolve_right hys
        have hlk : env'.lookup x = some (.arg f i) := by
          rw [hout x hys, List.lookup_cons, beq_self_eq_true]
        refine ⟨by rw [hlk]; rfl, fun args regs hl => ?_⟩
        rw [@List.drop_eq_getElem_cons _ i args (by simp only [hl, List.length_cons]; omega),
          paramValue.eq_1, if_neg hys,
          if_pos rfl, Bindings.valueIn, hlk, Option.some_bind, IrValue.eval, if_pos rfl,
          List.getElem?_eq_getElem]

/-- `set_bound_vars` returns on the nodes of an arithmetic expression. -/
theorem Arith.bindable {bound : String → Prop} {e : AstNode} (he : Arith bound e) :
    e.bindable = true := by
  induction he <;> simp_all [AstNode.bindable, AstNode.bindableList]

/-- `set_bound_vars` returns on identifiers. -/
theorem bindableList_identifiers (names : List String) :
    AstNode.bindableList (names.map fun x => .node .string1 [.str x]) = true := by
  induction names <;> simp_all [AstNode.bindable, AstNode.bindableList]

/-- Setting the last entry of a list. -/
theorem set_append_length {α : Type} (b a : α) (l : List α) : (l ++ [a]).set l.length b = l ++ [b] := by
  simp [List.set_append_right]

/-- Changing the last entry of a list. -/
theorem modify_append_length {α : Type} (g : α → α) (a : α) :
    ∀ l : List α, (l ++ [a]).modify g l.length = l ++ [g a]
  | [] => rfl
  | b :: l => by simp [List.modify_succ_cons, modify_append_length g a l]

/-- A lambda over identifiers whose body is an arithmetic expression over them becomes a function of
the module. `compile1` adds a function `lambda` with one argument per parameter, whose block
computes the body and returns its value, and returns `None`; in every call, the function returns
the body's value with each parameter bound to its argument, the last parameter of a name over the
earlier ones. -/
theorem compile1_lambda {m : IrModule} {builder : Option Nat} {env : Bindings} {i : Instruction}
    {names : List String} {body : AstNode} (hm : ∀ fn ∈ m, fn.name ≠ "lambda")
    (hb : Arith (· ∈ names) body) :
    ∃ block v, compile1 m builder env
        (.node .lambda [.node i (names.map fun x => .node .string1 [.str x]), body]) =
        .ok (Option.none, m ++ [⟨"lambda", names.length, block, some (some v)⟩]) ∧
      ∀ args : List (BitVec 64), args.length = names.length →
        ∃ regs y, runBlock m.length args [] block = some regs ∧
          v.eval m.length args regs = some y ∧ body.arithValue (paramValue names args) = some y := by
  obtain ⟨env', hbind, -, hnames⟩ := bindParams_identifiers m.length names 0 env
  obtain ⟨v, new, hc, -, hs⟩ := hb.compilesArith
    (List.getElem?_concat_length m ⟨"lambda", names.length, [], Option.none⟩)
    fun x hx => (hnames x hx).1
  refine ⟨new, v, ?_, fun args hl => ?_⟩
  · have hany : (m.any fun fn => fn.name == "lambda") = false := by simpa using hm
    have hbl : (AstNode.node .lambda [.node i (names.map fun x => .node .string1 [.str x]), body]).bindable
        = true := by
      simp [AstNode.bindable, AstNode.bindableList, hb.bindable, bindableList_identifiers]
    simp only [compile1, hany, hbl, hbind, ok_bind, List.length_map, hc, set_append_length,
      modify_append_length, List.nil_append]
    rfl
  · have hval : ∀ x ∈ names, env'.valueIn m.length args [] x = paramValue names args x :=
      fun x hx => (hnames x hx).2 args [] (by simpa using hl)
    obtain ⟨regs, y, hr, hv, he⟩ := hs args [] rfl fun x hx => by
      rw [hval x hx]
      exact paramValue_isSome hl hx
    exact ⟨regs, y, hr, hv, (hb.arithValue_congr fun x hx => (hval x hx).symm).trans he⟩

/-- A hand-built lambda of parameters `x` and `y` whose body is the sum of `x` and the list-form
negation of `y`: a function of two arguments that subtracts the second from the first. (The front
end reads `(lambda (x y) (+ x (- y)))` otherwise: as a call, with `x + y` for its body.) -/
theorem compile1_lambda_difference :
    (∀ fn ∈ ([] : IrModule), fn.name ≠ "lambda") ∧
      Arith (· ∈ ["x", "y"])
        (.node .add [.node .string1 [.str "x"], .node .negate [.node .string1 [.str "y"]]]) ∧
      ∃ block v, compile1 [] Option.none []
          (.node .lambda [.node .unknown (["x", "y"].map fun x => .node .string1 [.str x]),
            .node .add [.node .string1 [.str "x"], .node .negate [.node .string1 [.str "y"]]]]) =
          .ok (Option.none, [] ++ [⟨"lambda", ["x", "y"].length, block, some (some v)⟩]) ∧
        ∀ args : List (BitVec 64), args.length = ["x", "y"].length →
          ∃ regs y, runBlock ([] : IrModule).length args [] block = some regs ∧
            v.eval ([] : IrModule).length args regs = some y ∧
            (AstNode.node .add [.node .string1 [.str "x"],
              .node .negate [.node .string1 [.str "y"]]]).arithValue (paramValue ["x", "y"] args) =
              some y := by
  refine ⟨?hm, ?hb, compile1_lambda ?hm ?hb⟩
  · simp
  · exact .add (.load (by simp)) (.negate (.load (by simp)))

/-- The function of `(lambda (x y) (+ x (- y)))`: `0 - y`, then `x` plus that. -/
example : compile1 [] Option.none []
    (.node .lambda [.node .unknown [.node .string1 [.str "x"], .node .string1 [.str "y"]],
      .node .add [.node .string1 [.str "x"], .node .negate [.node .string1 [.str "y"]]]]) =
    .ok (Option.none, [⟨"lambda", 2, [⟨.sub, .const 0, .arg 0 1⟩, ⟨.add, .arg 0 0, .inst 0 0⟩],
      some (some (.inst 0 1))⟩]) := by
  decide

end LispCompiler
