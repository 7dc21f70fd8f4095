import Concordance.Proofs.Fallible
import Concordance.Query.Formula.Program
import Mathlib.Data.List.DropRight
import Mathlib.Tactic.SplitIfs

/-!
# The grammar of weighting formulas

What a formula says, apart from the compiler that goes through its characters.

- `Spells`: the tokens that characters are cut into, each as long as it can be, blanks left out.
- `Derives`: the grammar. A sign binds tighter than a product and a product tighter than a sum; sums
  and products group to the left.
- `IsTree`: the parse tree of a source. Its `code` is the program that evaluates the operands from
  left to right and each operation behind them.

A program is the code of one tree only (`Expression.code_injective`).
-/

namespace Concordance.Formula

/-- The parse tree of a formula. A variable is given by its place among the declared ones. -/
inductive Expression where
  | number (value : Double)
  | argument (index : Nat)
  | var (index : Nat)
  | negate (e : Expression)
  | binary (op : Operator) (left right : Expression)
  deriving DecidableEq, Repr

/-- The program of an expression: every operation behind its operands. -/
def Expression.code : Expression → List Instruction
  | number value => [.push value]
  | argument index => [.argument index]
  | var index => [.var index]
  | negate e => e.code ++ [.negate]
  | binary op left right => left.code ++ right.code ++ [.operate op]

/-! ## Tokens of a source -/

/-- The tokens that characters are cut into. -/
inductive Spells : List Char → List Token → Prop
  | nil {cs : List Char} (h : Compiler.skipBlanks cs = []) : Spells cs []
  | cons {cs : List Char} {c : Char} {rest : List Char} {ts : List Token}
      (h : Compiler.skipBlanks cs = c :: rest) (hs : Spells (Token.read c rest).2 ts) :
      Spells cs ((Token.read c rest).1 :: ts)

/-! ## The grammar -/

/-- The parts of a formula, from the loosest to the tightest. -/
inductive Level where
  | sum
  | product
  | signed
  | operand
  deriving DecidableEq, Repr

/-- The tokens that make a part of a formula, with the tree of that part. -/
inductive Derives (names : List String) : Level → List Token → Expression → Prop
  | sumOf {ts : List Token} {e : Expression} (h : Derives names .product ts e) :
      Derives names .sum ts e
  | add {ts us : List Token} {l r : Expression} (hl : Derives names .sum ts l)
      (hr : Derives names .product us r) :
      Derives names .sum (ts ++ .symbol '+' :: us) (.binary .add l r)
  | sub {ts us : List Token} {l r : Expression} (hl : Derives names .sum ts l)
      (hr : Derives names .product us r) :
      Derives names .sum (ts ++ .symbol '-' :: us) (.binary .sub l r)
  | productOf {ts : List Token} {e : Expression} (h : Derives names .signed ts e) :
      Derives names .product ts e
  | mul {ts us : List Token} {l r : Expression} (hl : Derives names .product ts l)
      (hr : Derives names .signed us r) :
      Derives names .product (ts ++ .symbol '*' :: us) (.binary .mul l r)
  | div {ts us : List Token} {l r : Expression} (hl : Derives names .product ts l)
      (hr : Derives names .signed us r) :
      Derives names .product (ts ++ .symbol '/' :: us) (.binary .div l r)
  | unsigned {ts : List Token} {e : Expression} (h : Derives names .operand ts e) :
      Derives names .signed ts e
  | negate {ts : List Token} {e : Expression} (h : Derives names .signed ts e) :
      Derives names .signed (.symbol '-' :: ts) (.negate e)
  | group {ts : List Token} {e : Expression} (h : Derives names .sum ts e) :
      Derives names .operand (.symbol '(' :: ts ++ [.symbol ')']) e
  | number {literal : List Char} {value : Double}
      (h : Number.readDouble (String.ofList literal) = some value) :
      Derives names .operand [.number literal] (.number value)
  | argument {digits : List Char} {index : Nat}
      (h : Number.readNat Wire.word64 (String.ofList digits) = some index) :
      Derives names .operand [.argument digits] (.argument index)
  | var {chars : List Char} {index : Nat}
      (h : names.findIdx? (· == String.ofList chars) = some index) :
      Derives names .operand [.name chars] (.var index)

/-- The parse tree of a source whose variables have these names. -/
def IsTree (names : List String) (source : String) (e : Expression) : Prop :=
  ∃ ts, Spells source.toList ts ∧ Derives names .sum ts e

/-! ## Programs and trees -/

/-- Reads an instruction back: the trees that are on the stack behind it. -/
def Instruction.treesFrom (trees : List Expression) : Instruction → List Expression
  | push value => .number value :: trees
  | argument index => .argument index :: trees
  | var index => .var index :: trees
  | negate =>
    match trees with
    | e :: trees => .negate e :: trees
    | [] => []
  | operate op =>
    match trees with
    | right :: left :: trees => .binary op left right :: trees
    | _ => []

/-- The code of a tree reads back as that tree. -/
theorem Expression.treesFrom_code (e : Expression) (trees : List Expression) :
    e.code.foldl Instruction.treesFrom trees = e :: trees := by
  induction e generalizing trees with
  | number value => rfl
  | argument index => rfl
  | var index => rfl
  | negate e ih => simp [code, ih, Instruction.treesFrom]
  | binary op left right ihl ihr => simp [code, ihl, ihr, Instruction.treesFrom]

/-- A program has one tree. -/
theorem Expression.code_injective {e e' : Expression} (h : e.code = e'.code) : e = e' := by
  have hread := e.treesFrom_code []
  rw [h, e'.treesFrom_code []] at hread
  exact (List.cons.inj hread).1.symm

/-! ## Reading tokens -/

namespace Token

/-- The signs of the grammar are tokens of their own. -/
theorem read_sign {c : Char} (h : c ∈ ['+', '-', '*', '/', '(', ')']) (rest : List Char) :
    read c rest = (.symbol c, rest) := by
  simp only [List.mem_cons, List.not_mem_nil, or_false] at h
  rcases h with rfl | rfl | rfl | rfl | rfl | rfl <;> rfl

/-- A symbol is the character it starts with. -/
theorem eq_of_read_symbol {c d : Char} {rest : List Char} (h : (read c rest).1 = .symbol d) :
    c = d ∧ (read c rest).2 = rest := by
  unfold read at h ⊢
  split_ifs at h ⊢
  cases h
  exact ⟨rfl, rfl⟩

theorem length_takeSign_le (cs : List Char) : (takeSign cs).2.length ≤ cs.length := by
  unfold takeSign
  split
  · exact Nat.le_refl _
  · split
    · exact Nat.le_succ _
    · exact Nat.le_refl _

theorem length_takeExponent_le (cs : List Char) : (takeExponent cs).2.length ≤ cs.length := by
  unfold takeExponent
  split
  · exact Nat.le_refl _
  · next c rest =>
      split
      · have hsign := length_takeSign_le rest
        have hdigits := ((takeSign rest).2.dropWhile_suffix Char.isDigit).length_le
        simp only [List.length_cons]
        omega
      · exact Nat.le_refl _

/-- A token takes its first character at least. -/
theorem length_read_le (c : Char) (rest : List Char) : (read c rest).2.length ≤ rest.length := by
  unfold read
  split_ifs
  · have hexponent := length_takeExponent_le (rest.dropWhile isDecimal)
    have hdecimal := (rest.dropWhile_suffix isDecimal).length_le
    exact Nat.le_trans hexponent hdecimal
  · exact (rest.dropWhile_suffix _).length_le
  · exact (rest.dropWhile_suffix _).length_le
  · exact Nat.le_refl _

end Token

/-! ## Tokens and characters -/

namespace Spells

/-- A sign that stands next is the token that stands next. -/
theorem sign {cs rest : List Char} {c : Char} {ts : List Token}
    (h : Compiler.skipBlanks cs = c :: rest) (hc : c ∈ ['+', '-', '*', '/', '(', ')'])
    (hs : Spells rest ts) : Spells cs (.symbol c :: ts) := by
  have hread := Token.read_sign hc rest
  have hcons : Spells cs ((Token.read c rest).1 :: ts) := .cons h (by rw [hread]; exact hs)
  rwa [hread] at hcons

theorem uncons {cs : List Char} {t : Token} {ts : List Token} (h : Spells cs (t :: ts)) :
    ∃ c rest behind, Compiler.skipBlanks cs = c :: rest ∧ Token.read c rest = (t, behind) ∧
      Spells behind ts := by
  cases h with
  | cons hskip hs => exact ⟨_, _, _, hskip, rfl, hs⟩

/-- A symbol that is the next token is the next character. -/
theorem skip_of_symbol {cs : List Char} {c : Char} {ts : List Token}
    (h : Spells cs (.symbol c :: ts)) :
    ∃ rest, Compiler.skipBlanks cs = c :: rest ∧ Spells rest ts := by
  obtain ⟨d, rest, behind, hskip, hread, hs⟩ := h.uncons
  obtain ⟨rfl, hbehind⟩ := Token.eq_of_read_symbol (congrArg Prod.fst hread)
  rw [hread] at hbehind
  exact ⟨rest, hskip, hbehind ▸ hs⟩

/-- A sign that is the next character is the next token. -/
theorem symbol_of_skip {cs rest : List Char} {c : Char} {ts : List Token}
    (h : Compiler.skipBlanks cs = c :: rest) (hc : c ∈ ['+', '-', '*', '/', '(', ')'])
    (hs : Spells cs ts) : ∃ us, ts = .symbol c :: us := by
  cases hs with
  | nil hskip => cases h.symm.trans hskip
  | cons hskip hs =>
      obtain ⟨rfl, rfl⟩ := List.cons.inj (h.symm.trans hskip)
      exact ⟨_, by rw [Token.read_sign hc]⟩

theorem length_le {cs : List Char} {ts : List Token} (h : Spells cs ts) :
    ts.length ≤ cs.length := by
  induction h with
  | nil => exact Nat.zero_le _
  | @cons cs c rest ts hskip _ ih =>
      have hread := Token.length_read_le c rest
      have hblanks := (cs.dropWhile_suffix Text.isBlank).length_le
      rw [show cs.dropWhile Text.isBlank = c :: rest from hskip] at hblanks
      simp only [List.length_cons] at hblanks ⊢
      omega

/-- Tokens depend on the first character that is not blank and those behind it. -/
theorem congr {cs cs' : List Char} {ts : List Token}
    (h : Compiler.skipBlanks cs = Compiler.skipBlanks cs') (hs : Spells cs ts) : Spells cs' ts := by
  cases hs with
  | nil hskip => exact .nil (h.symm.trans hskip)
  | cons hskip hs => exact .cons (h.symm.trans hskip) hs

/-- Blanks in front change no token. -/
theorem of_skipBlanks {cs : List Char} {ts : List Token}
    (h : Spells (Compiler.skipBlanks cs) ts) : Spells cs ts :=
  h.congr (List.dropWhile_idempotent _ _)

end Spells

end Concordance.Formula
