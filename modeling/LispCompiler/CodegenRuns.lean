import LispCompiler.Codegen

/-!
# The runs of `compile1`

`compile1` returns along five rules (`Compiles`): a lambda compiles its body into a new function
and then sets that function's return; a sum or a product compiles its operands in order and emits
one instruction; a negation compiles its operand and emits its subtraction from `0`; a variable
load returns its binding; and a node whose instruction has no case emits nothing.
A call that returns follows one of the rules (`Compiles.of_compile1`), so the invariants below are
proved by induction on the rules and never unfold `compile1`.

Two invariants hold over whole runs. The module only grows (`compile1_grows`). A function that was
there keeps its name, arity and return. The builder's function gets instructions at the end of
its block, and no other function does. Every function added has its `ret`.

The module also stays well formed (`compile1_wellFormed`) in two respects that LLVM's verifier
also checks. No two functions share a name. Every operand is a constant, an argument of its own
function, or an earlier instruction of its block. It is not well formed in every respect: a lambda
whose body compiles to `None` gets `ret None`, and a function whose return is never set has none,
which LLVM rejects in a function returning `i64`; `IrFunction.wellFormed` accepts both.
For this, the node's bindings must hold values of the builder's function, and a lambda's node must
have no bindings. The parser builds every node with empty
`bound_variables`. Below a lambda, the module holds the lambda's function, so a second lambda raises
`DuplicatedNameError` before it binds anything. Without that condition, a lambda compiles a read of
the enclosing function's argument (the example after `compile1_wellFormed`).
-/

namespace LispCompiler

/-- The instructions that `compile1` has a case for. On a node of any other instruction it
returns `None` and emits nothing. -/
def Instruction.hasCase : Instruction → Bool
  | .lambda | .add | .mult | .negate | .numberConstant | .string1 => true
  | _ => false

/-- The calls of `compile1` that return, one rule per way of returning. -/
inductive Compiles : IrModule → Option Nat → Bindings → AstNode → Option IrValue → IrModule → Prop
    where
  /-- A lambda, with no function `lambda` in the module yet: its parameters are bound to the
  arguments of a new function at the end of the module, the body compiles with that function as
  the builder, and the body's value becomes the function's return. -/
  | lambda {m builder env i params body tail env' r m'} :
      (m.any (·.name == "lambda")) = false →
      bindParams (AstNode.node .lambda (.node i params :: body :: tail)).bindable m.length 0 params
        env = .ok env' →
      Compiles (m ++ [⟨"lambda", params.length, [], Option.none⟩]) (some m.length) env' body r m' →
      Compiles m builder env (.node .lambda (.node i params :: body :: tail)) Option.none
        (m'.modify (fun fn => { fn with ret := some r }) m.length)
  /-- A sum or a product: its two operands in order, then one instruction on their values. -/
  | binop {m builder env instr op a b l r m₁ m₂ v m'} :
      instr = .add ∧ op = .add ∨ instr = .mult ∧ op = .mul →
      Compiles m builder env a l m₁ → Compiles m₁ builder env b r m₂ →
      emit m₂ builder op l r = .ok (v, m') → Compiles m builder env (.node instr [a, b]) v m'
  /-- A negation: its operand, then its subtraction from `0`. -/
  | negate {m builder env a w m₁ v m'} : Compiles m builder env a w m₁ →
      emit m₁ builder .sub (some (.const 0)) w = .ok (v, m') →
      Compiles m builder env (.node .negate [a]) v m'
  /-- A variable load: the binding of the name. -/
  | load {m builder env x tail w} : env.lookup x = some w →
      Compiles m builder env (.node .string1 (.str x :: tail)) (some w) m
  /-- A node whose instruction has no case. -/
  | other {m builder env e i} : e.instr? = some i → i.hasCase = false →
      Compiles m builder env e Option.none m

/-- A call of `compile1` that returns follows one of the rules, with what it returns. -/
theorem Compiles.of_compile1 {m m' : IrModule} {builder : Option Nat} {env : Bindings}
    {e : AstNode} {v : Option IrValue} (h : compile1 m builder env e = .ok (v, m')) :
    Compiles m builder env e v m' := by
  induction m, builder, env, e using compile1.induct generalizing v m' with
  | case5 m builder env i params body tail hm =>
    simp only [compile1, hm, if_true] at h
    cases h
  | case6 m builder env i params body tail hm f =>
    rename_i ih
    simp only [compile1, hm] at h
    obtain ⟨env', h₁, h⟩ := bind_eq_ok.1 h
    obtain ⟨⟨r, m''⟩, h₂, h⟩ := bind_eq_ok.1 h
    cases h
    exact .lambda (by simpa using hm) h₁ (ih env' h₂)
  | case8 m builder env a b iha ihb | case9 m builder env a b iha ihb =>
    simp only [compile1] at h
    obtain ⟨⟨l, m₁⟩, h₁, h⟩ := bind_eq_ok.1 h
    obtain ⟨⟨r, m₂⟩, h₂, h⟩ := bind_eq_ok.1 h
    exact .binop (by decide) (iha h₁) (ihb _ h₂) h
  | case14 m builder env a ih =>
    simp only [compile1] at h
    obtain ⟨⟨w, m₁⟩, h₁, h⟩ := bind_eq_ok.1 h
    exact .negate (ih h₁) h
  | case19 m builder env x tail w hx =>
    simp only [compile1, hx] at h
    cases h
    exact .load hx
  | case20 m builder env x tail hx =>
    simp only [compile1, hx] at h
    cases h
  | case25 t m builder env h1 h2 h3 h4 h5 h6 h7 h8 h9 h10 h11 h12 h13 h14 h15 h16 h17 h18 =>
    -- no case matches: the node is one of an instruction with no case
    rw [compile1.eq_23 m builder env t h1 h2 h3 h4 h5 h6 h7 h8 h9 h10 h11 h12 h13 h14 h15 h16 h17
      h18] at h
    cases h
    rcases t with ⟨i, _ | ⟨hd, tl⟩⟩ | ⟨i, k⟩ | s
    all_goals first | exact (h18 _ rfl).elim | cases i
    all_goals first | exact .other rfl rfl | simp at *
  | _ => simp [compile1] at h

/-! ## The module only grows -/

/-- `emit` returns only with a builder standing in a function of the module and two values: the
new instruction, appended to that function's block. -/
theorem emit_eq_ok {m m' : IrModule} {builder : Option Nat} {op : Opcode} {l r v : Option IrValue}
    (h : emit m builder op l r = .ok (v, m')) :
    ∃ f fn x y, builder = some f ∧ m[f]? = some fn ∧ l = some x ∧ r = some y ∧
      v = some (.inst f fn.block.length) ∧
      m' = m.set f { fn with block := fn.block ++ [⟨op, x, y⟩] } := by
  unfold emit at h
  split at h
  · split at h
    · split at h
      · cases h
        exact ⟨_, _, _, _, rfl, ‹_›, rfl, rfl, rfl, rfl⟩
      · cases h
    · cases h
  · cases h

/-- Changing an entry of a list that is there is setting it. -/
theorem modify_of_getElem? {α : Type} {l : List α} {i : Nat} {a : α} (g : α → α)
    (h : l[i]? = some a) : l.modify g i = l.set i (g a) :=
  List.ext_getElem? fun j => by
    rw [List.getElem?_modify, List.getElem?_set]
    by_cases hij : i = j
    · subst hij
      simp [h, (List.getElem?_eq_some.1 h).1]
    · simp [hij]

/-- How a run of `compile1` with the builder `builder` may change the module: each function keeps
its name, arity and return, and only the builder's block grows, at its end; the functions after
them are new, and each has its return. -/
structure Grows (builder : Option Nat) (m m' : IrModule) : Prop where
  /-- A function that was there is the same, its block extended, and only the builder's block. -/
  old : ∀ g fn, m[g]? = some fn →
    ∃ new, m'[g]? = some { fn with block := fn.block ++ new } ∧ (builder ≠ some g → new = [])
  /-- A function added has its return. -/
  added : ∀ g fn, m.length ≤ g → m'[g]? = some fn → fn.ret.isSome

theorem Grows.refl (builder : Option Nat) (m : IrModule) : Grows builder m m :=
  ⟨fun _ fn h => ⟨[], by simpa using h, fun _ => rfl⟩,
    fun _ _ hg h => absurd (List.getElem?_eq_some.1 h).1 (Nat.not_lt.2 hg)⟩

theorem Grows.trans {builder : Option Nat} {m₁ m₂ m₃ : IrModule} (h₁ : Grows builder m₁ m₂)
    (h₂ : Grows builder m₂ m₃) : Grows builder m₁ m₃ := by
  refine ⟨fun g fn h => ?_, fun g fn hg h => ?_⟩
  · obtain ⟨new₁, h, hn₁⟩ := h₁.old g fn h
    obtain ⟨new₂, h, hn₂⟩ := h₂.old g _ h
    refine ⟨new₁ ++ new₂, by simpa using h, fun hb => ?_⟩
    rw [hn₁ hb, hn₂ hb, List.append_nil]
  · by_cases hg₂ : g < m₂.length
    · -- added by the first run, kept by the second
      obtain ⟨new, h', -⟩ := h₂.old g _ (List.getElem?_eq_getElem hg₂)
      rw [h] at h'
      cases h'
      exact h₁.added g m₂[g] hg (List.getElem?_eq_getElem hg₂)
    · exact h₂.added g fn (Nat.not_lt.1 hg₂) h

/-- An instruction appended to the builder's block. -/
theorem Grows.emit {m m' : IrModule} {builder : Option Nat} {op : Opcode} {l r v : Option IrValue}
    (h : emit m builder op l r = .ok (v, m')) : Grows builder m m' := by
  obtain ⟨f, fn, x, y, rfl, hf, -, -, -, rfl⟩ := emit_eq_ok h
  refine ⟨fun g gn hg => ?_, fun g _ hg h => ?_⟩
  · by_cases hfg : f = g
    · subst hfg
      rw [hf] at hg
      cases hg
      exact ⟨_, getElem?_set_block hf _, fun h => absurd rfl h⟩
    · exact ⟨[], by simpa [List.getElem?_set_ne hfg] using hg, fun _ => rfl⟩
  · exact absurd (List.getElem?_eq_some.1 h).1 (by simpa using hg)

/-- A lambda: the run of its body adds a function after `m`, and its return is then set. -/
theorem Grows.lambda {builder : Option Nat} {m m' : IrModule} {params : Nat} {r : Option IrValue}
    (h : Grows (some m.length) (m ++ [⟨"lambda", params, [], Option.none⟩]) m') :
    Grows builder m (m'.modify (fun fn => { fn with ret := some r }) m.length) := by
  obtain ⟨new, hf, -⟩ := h.old m.length _ (List.getElem?_concat_length m _)
  rw [modify_of_getElem? _ hf]
  refine ⟨fun g fn hg => ?_, fun g fn hg h' => ?_⟩
  · have hlt := (List.getElem?_eq_some.1 hg).1
    obtain ⟨new', h', hn⟩ := h.old g fn (by rw [List.getElem?_append_left hlt]; exact hg)
    rw [hn fun h => by cases h; omega] at h'
    exact ⟨[], by rwa [List.getElem?_set_ne (by omega)], fun _ => rfl⟩
  · by_cases hg' : m.length = g
    · subst hg'
      rw [List.getElem?_set_self (List.getElem?_eq_some.1 hf).1] at h'
      cases h'
      rfl
    · rw [List.getElem?_set_ne hg'] at h'
      exact h.added g fn (by simp only [List.length_append, List.length_singleton]; omega) h'

/-- The module only grows along a run. -/
theorem Compiles.grows {m m' : IrModule} {builder : Option Nat} {env : Bindings} {e : AstNode}
    {v : Option IrValue} (h : Compiles m builder env e v m') : Grows builder m m' := by
  induction h with
  | lambda _ _ _ ih => exact .lambda ih
  | binop _ _ _ he iha ihb => exact iha.trans (ihb.trans (.emit he))
  | negate _ he ih => exact ih.trans (.emit he)
  | load _ => exact .refl _ _
  | other _ _ => exact .refl _ _

/-- Code generation never rewrites what it has emitted. Where `compile1` returns, every function
of the module before the call keeps its name, arity, return and instructions, and only the
builder's function gets more, at the end of its block; the functions it adds come after them, and
each has its `ret`. -/
theorem compile1_grows {m m' : IrModule} {builder : Option Nat} {env : Bindings} {e : AstNode}
    {v : Option IrValue} (h : compile1 m builder env e = .ok (v, m')) : Grows builder m m' :=
  (Compiles.of_compile1 h).grows

/-- `x + -x` in a function `main` of one argument `x`: two instructions at the end of its block. -/
theorem compile1_grows_main :
    compile1 [⟨"main", 1, [], Option.none⟩] (some 0) [("x", .arg 0 0)]
        (.node .add [.node .string1 [.str "x"], .node .negate [.node .string1 [.str "x"]]]) =
      .ok (some (.inst 0 1),
        [⟨"main", 1, [⟨.sub, .const 0, .arg 0 0⟩, ⟨.add, .arg 0 0, .inst 0 0⟩], Option.none⟩]) ∧
    Grows (some 0) [⟨"main", 1, [], Option.none⟩]
      [⟨"main", 1, [⟨.sub, .const 0, .arg 0 0⟩, ⟨.add, .arg 0 0, .inst 0 0⟩], Option.none⟩] := by
  refine ⟨?h, compile1_grows ?h⟩
  decide

/-! ## The module stays well formed -/

/-- Whether a value may be an operand at position `n` of the block of function `f`, of `arity`
arguments: a constant, one of the function's own arguments, or one of the `n` instructions before
it. -/
def IrValue.definedIn (f arity n : Nat) : IrValue → Bool
  | .const _ => true
  | .arg g i => decide (g = f ∧ i < arity)
  | .inst g k => decide (g = f ∧ k < n)

/-- Whether each instruction of a block, the first at position `n`, reads only values defined
before it. -/
def blockDefined (f arity : Nat) : Nat → List Instr → Bool
  | _, [] => true
  | n, i :: is =>
    i.lhs.definedIn f arity n && i.rhs.definedIn f arity n && blockDefined f arity (n + 1) is

/-- A function at position `f` is well formed: its block reads only values defined before each
instruction, and its return, once set, returns a value defined after the block. -/
def IrFunction.wellFormed (f : Nat) (fn : IrFunction) : Bool :=
  blockDefined f fn.arity 0 fn.block && fn.ret.all (·.all (·.definedIn f fn.arity fn.block.length))

/-- A module is well formed: no two functions share a name, as llvmlite's module requires, and
every function is well formed at its position. -/
structure IrModule.WellFormed (m : IrModule) : Prop where
  nodup : (m.map (·.name)).Nodup
  functions : ∀ f (fn : IrFunction), m[f]? = some fn → fn.wellFormed f = true

/-- The value `w` is defined in the builder's function of `m` so far. Without a builder, nothing
is asked. -/
def IrModule.Defines (m : IrModule) (builder : Option Nat) (w : IrValue) : Prop :=
  ∀ f, builder = some f → ∃ fn, m[f]? = some fn ∧ w.definedIn f fn.arity fn.block.length = true

theorem IrValue.definedIn_mono {f arity n n' : Nat} {w : IrValue} (hn : n ≤ n')
    (h : w.definedIn f arity n = true) : w.definedIn f arity n' = true := by
  cases w <;> simp only [IrValue.definedIn, decide_eq_true_eq] at h ⊢ <;> omega

theorem blockDefined_append (f arity : Nat) : ∀ (n : Nat) (is js : List Instr),
    blockDefined f arity n (is ++ js) =
      (blockDefined f arity n is && blockDefined f arity (n + is.length) js)
  | _, [], _ => by simp [blockDefined]
  | n, i :: is, js => by
    rw [List.cons_append, blockDefined, blockDefined, blockDefined_append f arity (n + 1) is js]
    simp only [List.length_cons, Bool.and_assoc, Nat.add_assoc, Nat.add_comm 1]

/-- An instruction appended to a well-formed function, on values defined after its block. -/
theorem IrFunction.wellFormed_push {f : Nat} {fn : IrFunction} {op : Opcode} {x y : IrValue}
    (h : fn.wellFormed f = true) (hx : x.definedIn f fn.arity fn.block.length = true)
    (hy : y.definedIn f fn.arity fn.block.length = true) :
    ({ fn with block := fn.block ++ [⟨op, x, y⟩] } : IrFunction).wellFormed f = true := by
  simp only [IrFunction.wellFormed, Bool.and_eq_true] at h ⊢
  refine ⟨?_, ?_⟩
  · simp [blockDefined_append, blockDefined, h.1, hx, hy]
  · rcases hr : fn.ret with _ | _ | w
    · rfl
    · rfl
    · simp only [hr, Option.all_some] at h ⊢
      exact IrValue.definedIn_mono (by simp) h.2

/-- The module with one function replaced by a well-formed one of the same name. -/
theorem IrModule.WellFormed.set {m : IrModule} {f : Nat} {fn fn' : IrFunction} (hm : m.WellFormed)
    (hf : m[f]? = some fn) (hname : fn'.name = fn.name) (hwf : fn'.wellFormed f = true) :
    IrModule.WellFormed (m.set f fn') := by
  refine ⟨?_, fun g gn hg => ?_⟩
  · rw [List.map_set, hname, set_of_getElem? (by simp [hf])]
    exact hm.nodup
  · by_cases hfg : f = g
    · subst hfg
      rw [List.getElem?_set_self (List.getElem?_eq_some.1 hf).1] at hg
      cases hg
      exact hwf
    · exact hm.functions g gn (by rwa [List.getElem?_set_ne hfg] at hg)

/-- A value defined in the builder's function stays defined as the module grows. -/
theorem Grows.defines {builder : Option Nat} {m m' : IrModule} {w : IrValue}
    (h : Grows builder m m') (hw : m.Defines builder w) : m'.Defines builder w := by
  intro f hb
  obtain ⟨fn, hf, hd⟩ := hw f hb
  obtain ⟨new, hf', -⟩ := h.old f fn hf
  exact ⟨_, hf', IrValue.definedIn_mono (by simp) hd⟩

/-- A function named as before keeps its name as the module grows. -/
theorem Grows.mem_name {builder : Option Nat} {m m' : IrModule} (h : Grows builder m m')
    {fn : IrFunction} (hfn : fn ∈ m) : ∃ fn' ∈ m', fn'.name = fn.name := by
  obtain ⟨g, hg⟩ := List.getElem?_of_mem hfn
  obtain ⟨new, hg', -⟩ := h.old g fn hg
  exact ⟨_, List.getElem?_mem hg', rfl⟩

/-- The module with a new function of a fresh name and an empty block. -/
theorem IrModule.WellFormed.push {m : IrModule} {name : String} {arity : Nat} (hm : m.WellFormed)
    (hfresh : ∀ fn ∈ m, fn.name ≠ name) :
    IrModule.WellFormed (m ++ [⟨name, arity, [], Option.none⟩]) := by
  refine ⟨?_, fun g gn hg => ?_⟩
  · rw [List.map_append]
    refine List.pairwise_append.2 ⟨hm.nodup, List.pairwise_singleton _ _, fun a ha b hb => ?_⟩
    obtain ⟨fn, hfn, rfl⟩ := List.mem_map.1 ha
    rw [List.mem_singleton.1 hb]
    exact hfresh fn hfn
  · by_cases hlt : g < m.length
    · exact hm.functions g gn (by rwa [List.getElem?_append_left hlt] at hg)
    · have hlt' := (List.getElem?_eq_some.1 hg).1
      simp only [List.length_append, List.length_singleton] at hlt'
      obtain rfl : g = m.length := by omega
      rw [List.getElem?_concat_length] at hg
      cases hg
      rfl

/-- A value the builder's function defines is defined at the end of its block. -/
theorem IrModule.Defines.definedIn {m : IrModule} {builder : Option Nat} {w : IrValue} {f : Nat}
    {fn : IrFunction} (hw : m.Defines builder w) (hb : builder = some f) (hf : m[f]? = some fn) :
    w.definedIn f fn.arity fn.block.length = true := by
  obtain ⟨fn', hf', hd⟩ := hw f hb
  rw [hf] at hf'
  cases hf'
  exact hd

/-- `emit` on values defined at the end of the builder's block keeps the module well formed and
returns a value defined in the builder's function. -/
theorem emit_wellFormed {m m' : IrModule} {builder : Option Nat} {op : Opcode}
    {l r v : Option IrValue} (hm : m.WellFormed)
    (hl : ∀ w f fn, l = some w → builder = some f → m[f]? = some fn →
      w.definedIn f fn.arity fn.block.length = true)
    (hr : ∀ w, r = some w → m.Defines builder w) (h : emit m builder op l r = .ok (v, m')) :
    m'.WellFormed ∧ ∀ w, v = some w → m'.Defines builder w := by
  obtain ⟨f, fn, x, y, rfl, hf, rfl, rfl, rfl, rfl⟩ := emit_eq_ok h
  refine ⟨IrModule.WellFormed.set hm hf rfl (IrFunction.wellFormed_push (hm.functions f fn hf)
    (hl x f fn rfl rfl hf) ((hr y rfl).definedIn rfl hf)), ?_⟩
  rintro w ⟨⟩ g ⟨⟩
  refine ⟨_, getElem?_set_block hf _, ?_⟩
  simp [IrValue.definedIn]

/-- The bindings after `bindParams`: those before, and arguments of function `f` from the `i`-th
to the last parameter. -/
theorem bindParams_lookup {bindable : Bool} {f : Nat} :
    ∀ {i : Nat} {params : List AstNode} {env env' : Bindings},
      bindParams bindable f i params env = .ok env' → ∀ x w, env'.lookup x = some w →
        env.lookup x = some w ∨ ∃ j, j < i + params.length ∧ w = .arg f j
  | _, [], _, _, h, x, w, hw => by
    cases h
    exact .inl hw
  | i, p :: ps, env, env', h, x, w, hw => by
    simp only [bindParams] at h
    obtain ⟨key, -, h⟩ := bind_eq_ok.1 h
    split at h
    · rcases bindParams_lookup h x w hw with hw | ⟨j, hj, rfl⟩
      · rw [List.lookup_cons] at hw
        split at hw
        · cases hw
          exact .inr ⟨i, by simp, rfl⟩
        · exact .inl hw
      · exact .inr ⟨j, by simp only [List.length_cons] at hj ⊢; omega, rfl⟩
    · cases h

/-- The module stays well formed along a run from bindings of values of the builder's function,
where either the bindings are empty or the module holds a function `lambda`, and the value
returned is defined in the builder's function. -/
theorem Compiles.wellFormed {m m' : IrModule} {builder : Option Nat} {env : Bindings}
    {e : AstNode} {v : Option IrValue} (h : Compiles m builder env e v m') :
    m.WellFormed → (env = [] ∨ ∃ fn ∈ m, fn.name = "lambda") →
      (∀ x w, env.lookup x = some w → m.Defines builder w) →
      m'.WellFormed ∧ ∀ w, v = some w → m'.Defines builder w := by
  induction h with
  | @lambda m builder env i params body tail env' r m' hany hb hc ih =>
    intro hm henv _
    have hnot : ∀ fn ∈ m, fn.name ≠ "lambda" := by simpa using hany
    obtain rfl : env = [] := henv.resolve_right fun ⟨fn, hfn, hn⟩ => hnot fn hfn hn
    -- the module with the lambda's function, before its body
    have hnew : IrModule.WellFormed (m ++ [⟨"lambda", params.length, [], Option.none⟩]) :=
      hm.push hnot
    have hdef : ∀ x w, env'.lookup x = some w →
        IrModule.Defines (m ++ [⟨"lambda", params.length, [], Option.none⟩]) (some m.length) w := by
      intro x w hw g hg
      cases hg
      rcases bindParams_lookup hb x w hw with h | ⟨j, hj, rfl⟩
      · cases h
      · exact ⟨_, List.getElem?_concat_length m _, by simpa [IrValue.definedIn] using hj⟩
    obtain ⟨hwf, hr⟩ := ih hnew (.inr ⟨_, List.mem_append_right _ (List.mem_singleton_self _), rfl⟩)
      hdef
    obtain ⟨new, hf, -⟩ := hc.grows.old m.length _ (List.getElem?_concat_length m _)
    rw [modify_of_getElem? _ hf]
    refine ⟨IrModule.WellFormed.set hwf hf rfl ?_, fun _ h => by cases h⟩
    -- the lambda's function with its return set
    have hfn := hwf.functions _ _ hf
    simp only [IrFunction.wellFormed, Bool.and_eq_true] at hfn ⊢
    refine ⟨hfn.1, ?_⟩
    rcases r with _ | w
    · rfl
    · exact (hr w rfl).definedIn rfl hf
  | binop _ ha hb he iha ihb =>
    intro hm henv hs
    obtain ⟨hm₁, hl⟩ := iha hm henv hs
    obtain ⟨hm₂, hr⟩ := ihb hm₁
      (henv.imp_right fun ⟨_, hfn, hn⟩ =>
        let ⟨fn', hfn', hn'⟩ := ha.grows.mem_name hfn
        ⟨fn', hfn', hn'.trans hn⟩)
      fun x w hw => ha.grows.defines (hs x w hw)
    exact emit_wellFormed hm₂ (fun w _ _ hw hb' hf => (hb.grows.defines (hl w hw)).definedIn hb' hf)
      hr he
  | negate _ he ih =>
    intro hm henv hs
    obtain ⟨hm₁, hw⟩ := ih hm henv hs
    exact emit_wellFormed hm₁ (fun w _ _ hw _ _ => by cases hw; rfl) hw he
  | load hx => exact fun hm _ hs => ⟨hm, fun w hw => by cases hw; exact hs _ _ hx⟩
  | other _ _ => exact fun hm _ _ => ⟨hm, fun _ h => by cases h⟩

/-- Code generation keeps the module well formed, in the sense of `IrModule.WellFormed` (which,
unlike LLVM's verifier, admits a function with no return or a `ret` of `None`). Start from a module
in which no two functions share a name and every operand is a constant, an argument of its own
function or an earlier instruction. Take bindings whose values the builder's function defines, and either no bindings,
as the parser builds every node, or a module that already holds the function `lambda`. Where
`compile1` returns, the module is still such a module, and the value returned is defined in the
builder's function. -/
theorem compile1_wellFormed {m m' : IrModule} {builder : Option Nat} {env : Bindings}
    {e : AstNode} {v : Option IrValue} (hm : m.WellFormed)
    (henv : env = [] ∨ ∃ fn ∈ m, fn.name = "lambda")
    (hs : ∀ x w, env.lookup x = some w → m.Defines builder w)
    (h : compile1 m builder env e = .ok (v, m')) :
    m'.WellFormed ∧ ∀ w, v = some w → m'.Defines builder w :=
  (Compiles.of_compile1 h).wellFormed hm henv hs

/-- The hand-built lambda of parameters `x` and `y` whose body is the sum of `x` and the list-form
negation of `y`, from the empty module and no bindings. -/
theorem compile1_wellFormed_difference :
    IrModule.WellFormed [] ∧ (([] : Bindings) = [] ∨ ∃ fn ∈ ([] : IrModule), fn.name = "lambda") ∧
      (∀ x w, ([] : Bindings).lookup x = some w → IrModule.Defines [] Option.none w) ∧
      compile1 [] Option.none []
          (.node .lambda [.node .unknown [.node .string1 [.str "x"], .node .string1 [.str "y"]],
            .node .add [.node .string1 [.str "x"], .node .negate [.node .string1 [.str "y"]]]]) =
        .ok (Option.none, [⟨"lambda", 2, [⟨.sub, .const 0, .arg 0 1⟩, ⟨.add, .arg 0 0, .inst 0 0⟩],
          some (some (.inst 0 1))⟩]) ∧
      (IrModule.WellFormed [⟨"lambda", 2, [⟨.sub, .const 0, .arg 0 1⟩, ⟨.add, .arg 0 0, .inst 0 0⟩],
          some (some (.inst 0 1))⟩] ∧
        ∀ w, (Option.none : Option IrValue) = some w → IrModule.Defines
          [⟨"lambda", 2, [⟨.sub, .const 0, .arg 0 1⟩, ⟨.add, .arg 0 0, .inst 0 0⟩],
            some (some (.inst 0 1))⟩] Option.none w) := by
  refine ⟨?hm, ?henv, ?hs, ?h, compile1_wellFormed ?hm ?henv ?hs ?h⟩
  · exact ⟨List.Pairwise.nil, fun _ _ h => by cases h⟩
  · exact .inl rfl
  · intro x w h
    cases h
  · decide

/-- Without the condition on the bindings: a lambda compiled in a function `main` whose argument
`x` is bound returns `main`'s argument from the new function. -/
example : compile1 [⟨"main", 1, [], Option.none⟩] (some 0) [("x", .arg 0 0)]
      (.node .lambda [.node .unknown [.node .string1 [.str "y"]], .node .string1 [.str "x"]]) =
    .ok (Option.none, [⟨"main", 1, [], Option.none⟩, ⟨"lambda", 1, [], some (some (.arg 0 0))⟩]) ∧
    IrFunction.wellFormed 1 ⟨"lambda", 1, [], some (some (.arg 0 0))⟩ = false := by
  decide

end LispCompiler
