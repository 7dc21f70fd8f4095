import Concordance.Query.Formula.Machine
import Concordance.Text.Blank
import Concordance.Text.Letter
import Concordance.Wire.Varint

/-!
# Compilation of weighting formulas

A formula is a sum of products of signed operands; an operand is a number, the result `_i` of the
i-th weighting function, a variable or a formula in parentheses. It is cut into number literals,
references to arguments, names and single characters, each as long as it can be. The compiler goes
through the characters once and emits the program on the way: an operand as it is read, an operation
as soon as its right operand is through.
-/

namespace Concordance.Formula

/-! ## Tokens -/

/-- A token. -/
inductive Token where
  /-- Digits and dots, with an exponent if one follows. -/
  | number (literal : List Char)
  /-- The digits behind an underscore. -/
  | argument (digits : List Char)
  /-- A letter with the letters, digits and underscores behind it. -/
  | name (chars : List Char)
  /-- Any other character. -/
  | symbol (c : Char)
  deriving DecidableEq, Repr

namespace Token

/-- Whether a character belongs to the first part of a number. -/
def isDecimal (c : Char) : Bool := c.isDigit || c = '.'

/-- Whether a character may go on a name. -/
def continuesName (c : Char) : Bool := Text.isAlphanumeric c || c = '_'

def takeSign : List Char → List Char × List Char
  | [] => ([], [])
  | c :: rest => if c = '+' ∨ c = '-' then ([c], rest) else ([], c :: rest)

/-- An exponent: its mark, an optional sign and the digits behind, be there any or none. -/
def takeExponent : List Char → List Char × List Char
  | [] => ([], [])
  | c :: rest =>
    if c = 'e' ∨ c = 'E' then
      let (sign, rest) := takeSign rest
      (c :: sign ++ rest.takeWhile Char.isDigit, rest.dropWhile Char.isDigit)
    else ([], c :: rest)

/-- The token that starts with a character that is not blank, and the characters behind it. -/
def read (c : Char) (rest : List Char) : Token × List Char :=
  if isDecimal c then
    let (exponent, behind) := takeExponent (rest.dropWhile isDecimal)
    (number (c :: rest.takeWhile isDecimal ++ exponent), behind)
  else if c = '_' then (argument (rest.takeWhile Char.isDigit), rest.dropWhile Char.isDigit)
  else if Text.isAlphabetic c then
    (name (c :: rest.takeWhile continuesName), rest.dropWhile continuesName)
  else (symbol c, rest)

end Token

/-! ## The compiler -/

/-- Why a text is no formula. -/
inductive SourceFault where
  | empty
  /-- A character stands where the formula has to end. -/
  | trailing (c : Char) (source : String)
  /-- No operand starts with this character. -/
  | notOperand (c : Char)
  | endOfSource
  | unclosed
  | badNumber (literal : String)
  | badArgument (digits : String)
  | unknownVariable (name : String)
  deriving DecidableEq, Repr

def SourceFault.toError : SourceFault → Error
  | .empty => .config "empty weighting formula"
  | .trailing c source => .config s!"unexpected '{c}' in weighting formula '{source}'"
  | .notOperand c => .config s!"unexpected '{c}' in weighting formula"
  | .endOfSource => .config "unexpected end of weighting formula"
  | .unclosed => .config "missing ')' in weighting formula"
  | .badNumber literal => .config s!"bad number '{literal}' in weighting formula"
  | .badArgument digits => .config s!"bad argument reference '_{digits}' in weighting formula"
  | .unknownVariable name => .config s!"unknown variable '{name}' in weighting formula"

/-- A compiler of a part of a formula: it takes characters from the front, emits instructions behind
the program so far, and answers the program and the characters left. -/
abbrev Emitter := List Instruction → List Char → Except SourceFault (List Instruction × List Char)

namespace Compiler

/-- The characters from the first that is not blank. -/
def skipBlanks (cs : List Char) : List Char := cs.dropWhile Text.isBlank

/-- The operation of a sign between the products of a sum. -/
def sumOperator? (c : Char) : Option Operator :=
  if c = '+' then some .add else if c = '-' then some .sub else none

/-- The operation of a sign between the operands of a product. -/
def productOperator? (c : Char) : Option Operator :=
  if c = '*' then some .mul else if c = '/' then some .div else none

/-- Goes on behind a left side as long as operators follow. Each takes a character, so as much fuel
as there are characters is enough. -/
def chainFrom (operator? : Char → Option Operator) (operand : Emitter) : (fuel : Nat) → Emitter
  | 0, program, cs => .ok (program, cs)
  | fuel + 1, program, cs =>
    match skipBlanks cs with
    | [] => .ok (program, [])
    | c :: rest =>
      match operator? c with
      | none => .ok (program, c :: rest)
      | some op => do
        let (program, rest) ← operand program rest
        chainFrom operator? operand fuel (program ++ [.operate op]) rest

/-- Operands between operators; an operation is emitted behind its right operand. -/
def chain (operator? : Char → Option Operator) (operand : Emitter) : Emitter := fun program cs => do
  let (program, rest) ← operand program cs
  chainFrom operator? operand rest.length program rest

/-- An operand behind any number of minus signs. -/
def signed (operand : Emitter) (program : List Instruction) :
    List Char → Except SourceFault (List Instruction × List Char)
  | [] => operand program []
  | c :: cs =>
    if Text.isBlank c then signed operand program cs
    else if c = '-' then do
      let (program, rest) ← signed operand program cs
      return (program ++ [.negate], rest)
    else operand program (c :: cs)

/-- A single operand; `inner` compiles what stands in parentheses. -/
def operand (names : List String) (inner : Emitter) : Emitter := fun program cs =>
  match skipBlanks cs with
  | [] => .error .endOfSource
  | c :: rest =>
    match Token.read c rest with
    | (.symbol '(', rest) => do
      let (program, rest) ← inner program rest
      match skipBlanks rest with
      | ')' :: rest => .ok (program, rest)
      | _ => .error .unclosed
    | (.number literal, rest) =>
      match Number.readDouble (String.ofList literal) with
      | some value => .ok (program ++ [.push value], rest)
      | none => .error (.badNumber (String.ofList literal))
    | (.argument digits, rest) =>
      match Number.readNat Wire.word64 (String.ofList digits) with
      | some index => .ok (program ++ [.argument index], rest)
      | none => .error (.badArgument (String.ofList digits))
    | (.name chars, rest) =>
      match names.findIdx? (· == String.ofList chars) with
      | some index => .ok (program ++ [.var index], rest)
      | none => .error (.unknownVariable (String.ofList chars))
    | (.symbol c, _) => .error (.notOperand c)

/-- Operands between the signs of products. -/
def product (operand : Emitter) : Emitter := chain productOperator? (signed operand)

/-- A sum with parentheses nested at most so deep. -/
def sum (names : List String) : (depth : Nat) → Emitter
  | 0 => fun _ _ => .error .endOfSource
  | depth + 1 => chain sumOperator? (product (operand names (sum names depth)))

end Compiler

/-- The program of a formula with these variables. A parenthesis takes a character, so the number of
characters bounds how deep they are nested. -/
def compileSource (names : List String) (source : String) :
    Except SourceFault (List Instruction) :=
  match Compiler.skipBlanks source.toList with
  | [] => .error .empty
  | cs => do
    let (program, rest) ← Compiler.sum names source.length [] cs
    match Compiler.skipBlanks rest with
    | [] => .ok program
    | c :: _ => .error (.trailing c source)

end Concordance.Formula
