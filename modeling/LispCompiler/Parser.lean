import LispCompiler.Syntax

/-!
# The lexer and the parser

`lexer`, `parser`, `take_until`, and `parse_all` of `parser.py`. The lexer splits on the space
character and on parentheses and keeps no empty word; the word still being read when the input
ends is dropped, as in the source, whose loop only emits a word at a space or a parenthesis. Its
tokens are parentheses and words without spaces or parentheses, and on an input that ends with a
space they hold every character but the spaces (`lexer_tokens`); it differs from the whitespace
tokenization of its contract (`scanTokens`) on a final word and on tabs (`lexer_not_scanTokens`).

`parser` and `take_until` are mutually recursive, and `take_until` loops until the closing token;
each call consumes at least one token, but that is a fact about their results and not their
arguments, so the model recurses on a fuel argument. `parse_all` gives them `2 n + 1` for `n`
tokens, which is more than the calls on `n` tokens can use, so the model's `recursionError` does
not arise there. Python's own recursion limit is not modelled for the parser.

The operator forms share the closing parenthesis with the group they sit in: `(+ 1 2)` is a group
whose only child is the sum, and the `+` case returns the `)` unconsumed for the group to close.
-/

namespace LispCompiler

/-- Whether a code point lies in one of a list of disjoint ranges sorted by their start: the scan
stops at the first range that starts above it. -/
def inRanges (n : Nat) : List (Nat × Nat) → Bool
  | [] => false
  | (lo, hi) :: rs => if n < lo then false else if n ≤ hi then true else inRanges n rs

/-- The characters for which Python's `str.isdigit` holds, as ranges of code points: those whose
Unicode `Numeric_Type` is `Decimal` or `Digit`, such as the digits of every script, `²` and `①`,
in the Unicode 14.0 tables of Python 3.11. -/
def digitRanges : List (Nat × Nat) :=
  [(0x30, 0x39), (0xB2, 0xB3), (0xB9, 0xB9), (0x660, 0x669), (0x6F0, 0x6F9), (0x7C0, 0x7C9),
   (0x966, 0x96F), (0x9E6, 0x9EF), (0xA66, 0xA6F), (0xAE6, 0xAEF), (0xB66, 0xB6F), (0xBE6, 0xBEF),
   (0xC66, 0xC6F), (0xCE6, 0xCEF), (0xD66, 0xD6F), (0xDE6, 0xDEF), (0xE50, 0xE59), (0xED0, 0xED9),
   (0xF20, 0xF29), (0x1040, 0x1049), (0x1090, 0x1099), (0x1369, 0x1371), (0x17E0, 0x17E9),
   (0x1810, 0x1819), (0x1946, 0x194F), (0x19D0, 0x19DA), (0x1A80, 0x1A89), (0x1A90, 0x1A99),
   (0x1B50, 0x1B59), (0x1BB0, 0x1BB9), (0x1C40, 0x1C49), (0x1C50, 0x1C59), (0x2070, 0x2070),
   (0x2074, 0x2079), (0x2080, 0x2089), (0x2460, 0x2468), (0x2474, 0x247C), (0x2488, 0x2490),
   (0x24EA, 0x24EA), (0x24F5, 0x24FD), (0x24FF, 0x24FF), (0x2776, 0x277E), (0x2780, 0x2788),
   (0x278A, 0x2792), (0xA620, 0xA629), (0xA8D0, 0xA8D9), (0xA900, 0xA909), (0xA9D0, 0xA9D9),
   (0xA9F0, 0xA9F9), (0xAA50, 0xAA59), (0xABF0, 0xABF9), (0xFF10, 0xFF19), (0x104A0, 0x104A9),
   (0x10A40, 0x10A43), (0x10D30, 0x10D39), (0x10E60, 0x10E68), (0x11052, 0x1105A),
   (0x11066, 0x1106F), (0x110F0, 0x110F9), (0x11136, 0x1113F), (0x111D0, 0x111D9),
   (0x112F0, 0x112F9), (0x11450, 0x11459), (0x114D0, 0x114D9), (0x11650, 0x11659),
   (0x116C0, 0x116C9), (0x11730, 0x11739), (0x118E0, 0x118E9), (0x11950, 0x11959),
   (0x11C50, 0x11C59), (0x11D50, 0x11D59), (0x11DA0, 0x11DA9), (0x16A60, 0x16A69),
   (0x16AC0, 0x16AC9), (0x16B50, 0x16B59), (0x1D7CE, 0x1D7FF), (0x1E140, 0x1E149),
   (0x1E2F0, 0x1E2F9), (0x1E950, 0x1E959), (0x1F100, 0x1F10A), (0x1FBF0, 0x1FBF9)]

/-- `str.isdigit` of one character. -/
def isDigitChar (c : Char) : Bool := inRanges c.toNat digitRanges

/-- `is_number`: every character is a digit, in Python's Unicode sense, or a dot. -/
def isNumber (a : String) : Bool := a.toList.all fun c => isDigitChar c || c == '.'

/-- A digit is at or above `0`, where the table's first range starts. -/
theorem le_toNat_of_isDigitChar {c : Char} (h : isDigitChar c = true) : 48 ≤ c.toNat := by
  refine Nat.le_of_not_lt fun hlt => ?_
  rw [isDigitChar, digitRanges, inRanges, if_pos hlt] at h
  exact Bool.false_ne_true h

/-- One character of the loop of `lexer`: the words emitted so far and the word being read. -/
def lexerStep (acc : List String × String) (c : Char) : List String × String :=
  match c with
  | ' ' => (acc.1 ++ [acc.2], "")
  | '(' | ')' => (acc.1 ++ [acc.2, c.toString], "")
  | c => (acc.1, acc.2.push c)

/-- `lexer`: the words of the loop, without the empty ones. -/
def lexer (str : String) : List String :=
  ((str.toList.foldl lexerStep ([], "")).1).filter (· != "")

/-! ## What the lexer returns -/

/-- A token of `lexer`: a parenthesis, or a nonempty word without a space or a parenthesis. -/
def IsLexToken (w : String) : Prop :=
  w = "(" ∨ w = ")" ∨ (w ≠ "" ∧ ∀ c ∈ w.toList, c ≠ ' ' ∧ c ≠ '(' ∧ c ≠ ')')

instance (w : String) : Decidable (IsLexToken w) :=
  inferInstanceAs (Decidable (_ ∨ _ ∨ (_ ∧ ∀ c ∈ w.toList, _)))

/-- What the loop of `lexer` keeps: every word emitted is empty or a token, and the word being read
holds no space and no parenthesis. -/
def LexerInv (acc : List String × String) : Prop :=
  (∀ w ∈ acc.1, w = "" ∨ IsLexToken w) ∧ ∀ c ∈ acc.2.toList, c ≠ ' ' ∧ c ≠ '(' ∧ c ≠ ')'

/-- The characters the loop of `lexer` has kept: the words emitted, then the word being read. -/
def lexed (acc : List String × String) : List Char :=
  (acc.1.map String.toList).flatten ++ acc.2.toList

/-- Emitting the word being read, and tokens after it, keeps the invariant. -/
theorem LexerInv.emit {acc : List String × String} (h : LexerInv acc) {new : List String}
    (hnew : ∀ w ∈ new, IsLexToken w) : LexerInv (acc.1 ++ acc.2 :: new, "") := by
  refine ⟨fun w hw => ?_, by simp⟩
  simp only [List.mem_append, List.mem_cons] at hw
  rcases hw with hw | hw | hw
  · exact h.1 w hw
  · by_cases he : w = ""
    · exact .inl he
    · exact .inr (.inr (.inr ⟨he, hw ▸ h.2⟩))
  · exact .inr (hnew w hw)

/-- One character keeps the invariant and keeps every character but a space. -/
theorem lexerStep_inv {acc : List String × String} (h : LexerInv acc) (c : Char) :
    LexerInv (lexerStep acc c) ∧
      lexed (lexerStep acc c) = lexed acc ++ [c].filter (· != ' ') := by
  unfold lexerStep
  split
  · -- a space emits the word being read
    exact ⟨h.emit (List.forall_mem_nil _), by simp [lexed]⟩
  · -- a parenthesis emits the word being read and itself
    exact ⟨h.emit (by simp only [List.mem_singleton, forall_eq]; exact .inl (by decide)),
      by simp [lexed]; rfl⟩
  · exact ⟨h.emit (by simp only [List.mem_singleton, forall_eq]; exact .inr (.inl (by decide))),
      by simp [lexed]; rfl⟩
  · -- any other character extends the word being read
    rename_i h1 h2 h3
    have hc : (c != ' ') = true := bne_iff_ne.2 h1
    refine ⟨⟨h.1, fun x hx => ?_⟩, by simp [lexed, String.push, List.filter, hc]⟩
    simp only [String.push, String.toList, List.append_eq, List.mem_append,
      List.mem_singleton] at hx
    rcases hx with hx | rfl
    · exact h.2 x hx
    · exact ⟨h1, h2, h3⟩

/-- `lexerStep_inv` over the loop. -/
theorem foldl_lexerStep_inv : ∀ (cs : List Char) (acc : List String × String), LexerInv acc →
    LexerInv (cs.foldl lexerStep acc) ∧
      lexed (cs.foldl lexerStep acc) = lexed acc ++ cs.filter (· != ' ')
  | [], _, h => ⟨h, by simp⟩
  | c :: cs, acc, h => by
    obtain ⟨h₁, h₂⟩ := lexerStep_inv h c
    obtain ⟨h₃, h₄⟩ := foldl_lexerStep_inv cs _ h₁
    refine ⟨h₃, ?_⟩
    rw [List.foldl_cons, h₄, h₂, List.append_assoc, ← List.filter_append]
    rfl

/-- Dropping the empty words drops no character. -/
theorem flatten_toList_filter (ws : List String) :
    ((ws.filter (· != "")).map String.toList).flatten = (ws.map String.toList).flatten := by
  induction ws with
  | nil => rfl
  | cons w ws ih => by_cases hw : w = "" <;> simp [List.filter_cons, hw, ih]

/-- Every token of the lexer is a parenthesis or a nonempty word without spaces or parentheses, and
on an input that ends with a space the tokens, read in order, give the input without its spaces:
the lexer loses no other character there. -/
theorem lexer_tokens (s : String) :
    (∀ w ∈ lexer s, IsLexToken w) ∧
      ((lexer (s ++ " ")).map String.toList).flatten = s.toList.filter (· != ' ') := by
  have hinit : LexerInv ([], "") := ⟨by simp, by simp⟩
  refine ⟨fun w hw => ?_, ?_⟩
  · simp only [lexer, List.mem_filter, bne_iff_ne, ne_eq] at hw
    exact ((foldl_lexerStep_inv s.toList _ hinit).1.1 w hw.1).resolve_left hw.2
  · have h := (foldl_lexerStep_inv (s ++ " ").toList _ hinit).2
    have hend : ∀ acc, (lexerStep acc ' ').2 = "" := fun _ => rfl
    rw [lexer, flatten_toList_filter]
    simpa [lexed, hend, String.data_append] using h

/-! ## The tokenization of the contract -/

/-- One character of the tokenization the lexer's contract describes (`scanTokens`). -/
def scanStep (acc : List String × String) (c : Char) : List String × String :=
  if c.isWhitespace then (acc.1 ++ [acc.2], "")
  else if c = '(' ∨ c = ')' then (acc.1 ++ [acc.2, c.toString], "")
  else (acc.1, acc.2.push c)

/-- The whitespace and parenthesis tokenization of the lexer's contract, written from its
description and not from the source: each parenthesis is a token, each maximal nonempty run of
characters that are neither whitespace nor parentheses is a token, the run still open at the end
of the input included. -/
def scanTokens (str : String) : List String :=
  let (words, word) := str.toList.foldl scanStep ([], "")
  (words ++ [word]).filter (· != "")

/-- A character that is neither a space nor a parenthesis extends the word being read. -/
theorem lexerStep_of_ne {c : Char} (h1 : c ≠ ' ') (h2 : c ≠ '(') (h3 : c ≠ ')')
    (acc : List String × String) : lexerStep acc c = (acc.1, acc.2.push c) := by
  unfold lexerStep
  split <;> simp_all

/-- Characters without a space or a parenthesis are read into the current word, and emit nothing. -/
theorem foldl_lexerStep_word {cs : List Char} (hcs : ∀ c ∈ cs, c ≠ ' ' ∧ c ≠ '(' ∧ c ≠ ')')
    (words : List String) (word : String) :
    cs.foldl lexerStep (words, word) = (words, ⟨word.data ++ cs⟩) := by
  induction cs generalizing word with
  | nil => simp
  | cons c cs ih =>
    obtain ⟨⟨h1, h2, h3⟩, hcs⟩ := List.forall_mem_cons.1 hcs
    rw [List.foldl_cons, lexerStep_of_ne h1 h2 h3, ih hcs]
    simp [String.push]

theorem foldl_scanStep_word {cs : List Char}
    (hcs : ∀ c ∈ cs, c.isWhitespace = false ∧ c ≠ '(' ∧ c ≠ ')') (words : List String)
    (word : String) : cs.foldl scanStep (words, word) = (words, ⟨word.data ++ cs⟩) := by
  induction cs generalizing word with
  | nil => simp
  | cons c cs ih =>
    obtain ⟨⟨h1, h2, h3⟩, hcs⟩ := List.forall_mem_cons.1 hcs
    rw [List.foldl_cons, scanStep, if_neg (by simp [h1]), if_neg (by simp [h2, h3]), ih hcs]
    simp [String.push]

/-- A character of a word of the contract is neither a space nor a parenthesis. -/
theorem ne_of_wordChar {c : Char} (h : c.isWhitespace = false ∧ c ≠ '(' ∧ c ≠ ')') :
    c ≠ ' ' ∧ c ≠ '(' ∧ c ≠ ')' :=
  ⟨by rintro rfl; exact absurd h.1 (by decide), h.2⟩

/-- The lexer is not the tokenization of its contract: a word that no space or parenthesis
follows is dropped, so appending one changes nothing, and a lone word gives no token where the
contract gives the word; and a tab or another whitespace character other than the space is kept
inside a token, where the contract splits. -/
theorem lexer_not_scanTokens :
    (∀ s w : String, (∀ c ∈ w.toList, c ≠ ' ' ∧ c ≠ '(' ∧ c ≠ ')') → lexer (s ++ w) = lexer s) ∧
    (∀ w : String, w ≠ "" → (∀ c ∈ w.toList, c.isWhitespace = false ∧ c ≠ '(' ∧ c ≠ ')') →
      lexer w = [] ∧ scanTokens w = [w]) ∧
    (∀ a b : String, a ≠ "" → b ≠ "" →
      (∀ c ∈ a.toList ++ b.toList, c.isWhitespace = false ∧ c ≠ '(' ∧ c ≠ ')') →
      lexer (a ++ "\t" ++ b ++ " ") = [a ++ "\t" ++ b] ∧
        scanTokens (a ++ "\t" ++ b ++ " ") = [a, b]) := by
  refine ⟨fun s w hw => ?_, fun w hne hw => ?_, fun a b ha hb h => ?_⟩
  · -- the word still being read is never emitted
    unfold lexer
    rw [show (s ++ w).toList = s.toList ++ w.toList from rfl, List.foldl_append]
    generalize s.toList.foldl lexerStep ([], "") = acc
    rw [foldl_lexerStep_word hw]
  · -- a lone word
    have hw' : w.toList.foldl lexerStep ([], "") = ([], w) :=
      (foldl_lexerStep_word (fun c hc => ne_of_wordChar (hw c hc)) _ _).trans rfl
    refine ⟨by rw [lexer, hw']; rfl, ?_⟩
    unfold scanTokens
    rw [foldl_scanStep_word hw]
    simp [hne]
  · -- a tab between two words
    obtain ⟨hA, hB⟩ := List.forall_mem_append.1 h
    have htoList : (a ++ "\t" ++ b ++ " ").toList = a.toList ++ '\t' :: (b.toList ++ [' ']) := by
      simp [String.data_append]
    constructor
    · unfold lexer
      rw [htoList, List.foldl_append, foldl_lexerStep_word (fun c hc => ne_of_wordChar (hA c hc)),
        List.foldl_cons, lexerStep_of_ne (by decide) (by decide) (by decide), List.foldl_append,
        foldl_lexerStep_word (fun c hc => ne_of_wordChar (hB c hc))]
      simp [lexerStep, String.ext_iff, String.data_append, String.push]
    · unfold scanTokens
      rw [htoList, List.foldl_append, foldl_scanStep_word hA, List.foldl_cons, scanStep,
        if_pos (by decide), List.foldl_append, foldl_scanStep_word hB]
      simp [scanStep, String.ext_iff, ha, hb]

/-- The word `x` after `(f)`, the lone word `x`, and the words `a` and `b` around a tab. -/
theorem lexer_not_scanTokens_words :
    lexer ("(f)" ++ "x") = lexer "(f)" ∧ (lexer "x" = [] ∧ scanTokens "x" = ["x"]) ∧
    (lexer ("a" ++ "\t" ++ "b" ++ " ") = ["a" ++ "\t" ++ "b"] ∧
      scanTokens ("a" ++ "\t" ++ "b" ++ " ") = ["a", "b"]) :=
  ⟨lexer_not_scanTokens.1 "(f)" "x" (by decide),
    lexer_not_scanTokens.2.1 "x" (by decide) (by decide),
    lexer_not_scanTokens.2.2 "a" "b" (by decide) (by decide) (by decide)⟩

/-! ## The parser -/

/-- `assert next[0] == ')'` after `take_until`. -/
def expectCloser : List String → Except PyError Unit
  | [] => .error .indexError
  | t :: _ => if t = ")" then pure () else .error (.assertionError "")

/-- `reduce(lambda k1, k2: AstNode(instr, [k1, k2]), xs)`: the left fold into binary nodes, which
fails on an empty list. -/
def reduceBinary (instr : Instruction) : List AstNode → Except PyError AstNode
  | [] => .error .typeError
  | k :: ks => pure (ks.foldl (fun k1 k2 => .node instr [k1, k2]) k)

/-- `token_result[1:] = map(lambda k: AstNode(Instruction.Negate, k), token_result[1:])`. -/
def negateTail : List AstNode → List AstNode
  | [] => []
  | k :: ks => k :: ks.map (.bare .negate)

mutual
/-- `parser`: one node from the front of the tokens, and the tokens after it. -/
def parser : Nat → List String → Except PyError (AstNode × List String)
  | 0, _ => .error .recursionError
  | fuel + 1, "(" :: next => do
    let (totalResult, next) ← takeUntil fuel next ")"
    expectCloser next
    pure (.node .unknown totalResult, next.drop 1)
  | fuel + 1, "+" :: rest => do
    let (tokenResult, next) ← takeUntil fuel rest ")"
    expectCloser next
    pure (← reduceBinary .add tokenResult, next)
  | fuel + 1, "-" :: rest => do
    let (tokenResult, next) ← takeUntil fuel rest ")"
    expectCloser next
    pure (← reduceBinary .add (negateTail tokenResult), next)
  | fuel + 1, "*" :: rest => do
    let (tokenResult, next) ← takeUntil fuel rest ")"
    expectCloser next
    pure (← reduceBinary .mult tokenResult, next)
  | _ + 1, x :: rest =>
    if isNumber x then pure (.node .numberConstant [.str x], rest)
    else pure (.node .string1 [.str x], rest)
  | _ + 1, [] => .error .typeError
/-- `take_until`: nodes parsed one after another until the token `until` (`untilToken`) or the
end. -/
def takeUntil : Nat → List String → String → Except PyError (List AstNode × List String)
  | 0, _, _ => .error .recursionError
  | _ + 1, [], _ => pure ([], [])
  | fuel + 1, t :: ts, untilToken =>
    if t = untilToken then pure ([], t :: ts) else do
      let (result, next) ← parser fuel (t :: ts)
      let (totalResult, next) ← takeUntil fuel next untilToken
      pure (result :: totalResult, next)
end

/-- The recursion of `parse_all`, one call of `parser` per top-level form. -/
def parseAllAux : Nat → List String → Except PyError (List AstNode)
  | 0, _ => .error .recursionError
  | _ + 1, [] => pure []
  | fuel + 1, a => do
    let (a, next) ← parser (2 * a.length + 1) a
    return a :: (← parseAllAux fuel next)

/-- `parse_all`: the top-level forms of a token list. -/
def parseAll (a : List String) : Except PyError (List AstNode) := parseAllAux (a.length + 1) a

end LispCompiler
