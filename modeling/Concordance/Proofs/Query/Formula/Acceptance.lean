import Concordance.Proofs.Query.Formula.Descent
import Concordance.Proofs.Query.Formula.Lexemes

/-!
# Which texts are formulas

The texts that compile, said without trees, tokens that are read or a compiler.

- `Forms`: the grammar over the texts of tokens, with the operands by what is written there.
- `IsFormula`: a text is written as tokens, blanks between them, that form a sum.
- `compile_accepts_grammar`: just these compile; any other is a configuration error, and on every
  text the compiler comes to its end.
-/

namespace Concordance.Formula

variable {names : List String}

/-- The tokens that form a part of a formula. -/
inductive Forms (names : List String) : Level → List Token → Prop
  | sumOf {ts : List Token} (h : Forms names .product ts) : Forms names .sum ts
  | plus {ts us : List Token} {sign : Char} (hsign : sign = '+' ∨ sign = '-')
      (hl : Forms names .sum ts) (hr : Forms names .product us) :
      Forms names .sum (ts ++ .symbol sign :: us)
  | productOf {ts : List Token} (h : Forms names .signed ts) : Forms names .product ts
  | times {ts us : List Token} {sign : Char} (hsign : sign = '*' ∨ sign = '/')
      (hl : Forms names .product ts) (hr : Forms names .signed us) :
      Forms names .product (ts ++ .symbol sign :: us)
  | unsigned {ts : List Token} (h : Forms names .operand ts) : Forms names .signed ts
  | minus {ts : List Token} (h : Forms names .signed ts) : Forms names .signed (.symbol '-' :: ts)
  | group {ts : List Token} (h : Forms names .sum ts) :
      Forms names .operand (.symbol '(' :: ts ++ [.symbol ')'])
  | number {literal : List Char} (h : Token.IsNumeral literal) :
      Forms names .operand [.number literal]
  | argument {digits : List Char} (hne : digits ≠ [])
      (hfits : Number.natOfDigits digits < Wire.word64) : Forms names .operand [.argument digits]
  | name {chars : List Char} (h : String.ofList chars ∈ names) : Forms names .operand [.name chars]

/-- Whether a text is a formula whose variables have these names. -/
def IsFormula (names : List String) (source : String) : Prop :=
  ∃ ts, Writes ts source.toList ∧ Forms names .sum ts

/-! ## Operands -/

/-- Whether a token is written somewhere. -/
def Token.IsWritten (t : Token) : Prop := ∃ text behind, t.Writes text behind

theorem Writes.isWritten {ts : List Token} {cs : List Char} (h : Writes ts cs) :
    ∀ t ∈ ts, t.IsWritten := by
  induction h with
  | nil => exact fun t ht => nomatch ht
  | cons _ ht _ ih => exact List.forall_mem_cons.mpr ⟨⟨_, _, ht⟩, ih⟩

theorem Token.IsWritten.isSome_readDouble_iff {literal : List Char}
    (h : (Token.number literal).IsWritten) :
    (Number.readDouble (String.ofList literal)).isSome = true ↔ IsNumeral literal := by
  obtain ⟨text, behind, h⟩ := h
  cases h with
  | number hne hmantissa => exact Token.isSome_readDouble_iff hne hmantissa

theorem Token.IsWritten.isSome_readNat_iff {digits : List Char}
    (h : (Token.argument digits).IsWritten) :
    (Number.readNat Wire.word64 (String.ofList digits)).isSome = true ↔
      digits ≠ [] ∧ Number.natOfDigits digits < Wire.word64 := by
  obtain ⟨text, behind, h⟩ := h
  cases h with
  | argument hdigits => exact Token.isSome_readNat_iff hdigits

theorem isSome_findIdx?_iff {name : String} :
    (names.findIdx? (· == name)).isSome = true ↔ name ∈ names := by
  simp

/-! ## Forms and trees -/

/-- What forms a part of a formula has a tree. -/
theorem Forms.exists_derives {level : Level} {ts : List Token} (h : Forms names level ts)
    (hts : ∀ t ∈ ts, t.IsWritten) : ∃ e, Derives names level ts e := by
  induction h with
  | sumOf _ ih =>
      obtain ⟨e, he⟩ := ih hts
      exact ⟨e, .sumOf he⟩
  | plus hsign _ _ ihl ihr =>
      obtain ⟨hleft, hright⟩ := List.forall_mem_append.mp hts
      obtain ⟨l, hl⟩ := ihl hleft
      obtain ⟨r, hr⟩ := ihr (List.forall_mem_cons.mp hright).2
      rcases hsign with rfl | rfl
      · exact ⟨_, .add hl hr⟩
      · exact ⟨_, .sub hl hr⟩
  | productOf _ ih =>
      obtain ⟨e, he⟩ := ih hts
      exact ⟨e, .productOf he⟩
  | times hsign _ _ ihl ihr =>
      obtain ⟨hleft, hright⟩ := List.forall_mem_append.mp hts
      obtain ⟨l, hl⟩ := ihl hleft
      obtain ⟨r, hr⟩ := ihr (List.forall_mem_cons.mp hright).2
      rcases hsign with rfl | rfl
      · exact ⟨_, .mul hl hr⟩
      · exact ⟨_, .div hl hr⟩
  | unsigned _ ih =>
      obtain ⟨e, he⟩ := ih hts
      exact ⟨e, .unsigned he⟩
  | minus _ ih =>
      obtain ⟨e, he⟩ := ih (List.forall_mem_cons.mp hts).2
      exact ⟨_, .negate he⟩
  | group _ ih =>
      obtain ⟨e, he⟩ := ih (List.forall_mem_cons.mp (List.forall_mem_append.mp hts).1).2
      exact ⟨e, .group he⟩
  | number hnumeral =>
      have hsome := (hts _ List.mem_cons_self).isSome_readDouble_iff.mpr hnumeral
      obtain ⟨value, hvalue⟩ := Option.isSome_iff_exists.mp hsome
      exact ⟨_, .number hvalue⟩
  | argument hne hfits =>
      have hsome := (hts _ List.mem_cons_self).isSome_readNat_iff.mpr ⟨hne, hfits⟩
      obtain ⟨index, hindex⟩ := Option.isSome_iff_exists.mp hsome
      exact ⟨_, .argument hindex⟩
  | name hname =>
      obtain ⟨index, hindex⟩ := Option.isSome_iff_exists.mp (isSome_findIdx?_iff.mpr hname)
      exact ⟨_, .var hindex⟩

/-- What has a tree forms a part of a formula. -/
theorem Derives.forms {level : Level} {ts : List Token} {e : Expression}
    (h : Derives names level ts e) (hts : ∀ t ∈ ts, t.IsWritten) : Forms names level ts := by
  induction h with
  | sumOf _ ih => exact .sumOf (ih hts)
  | add _ _ ihl ihr =>
      obtain ⟨hleft, hright⟩ := List.forall_mem_append.mp hts
      exact .plus (.inl rfl) (ihl hleft) (ihr (List.forall_mem_cons.mp hright).2)
  | sub _ _ ihl ihr =>
      obtain ⟨hleft, hright⟩ := List.forall_mem_append.mp hts
      exact .plus (.inr rfl) (ihl hleft) (ihr (List.forall_mem_cons.mp hright).2)
  | productOf _ ih => exact .productOf (ih hts)
  | mul _ _ ihl ihr =>
      obtain ⟨hleft, hright⟩ := List.forall_mem_append.mp hts
      exact .times (.inl rfl) (ihl hleft) (ihr (List.forall_mem_cons.mp hright).2)
  | div _ _ ihl ihr =>
      obtain ⟨hleft, hright⟩ := List.forall_mem_append.mp hts
      exact .times (.inr rfl) (ihl hleft) (ihr (List.forall_mem_cons.mp hright).2)
  | unsigned _ ih => exact .unsigned (ih hts)
  | negate _ ih => exact .minus (ih (List.forall_mem_cons.mp hts).2)
  | group _ ih =>
      exact .group (ih (List.forall_mem_cons.mp (List.forall_mem_append.mp hts).1).2)
  | number hvalue =>
      have hwritten := hts _ List.mem_cons_self
      exact .number (hwritten.isSome_readDouble_iff.mp (Option.isSome_iff_exists.mpr ⟨_, hvalue⟩))
  | argument hindex =>
      have hwritten := hts _ List.mem_cons_self
      obtain ⟨hne, hfits⟩ :=
        hwritten.isSome_readNat_iff.mp (Option.isSome_iff_exists.mpr ⟨_, hindex⟩)
      exact .argument hne hfits
  | var hindex => exact .name (isSome_findIdx?_iff.mp (Option.isSome_iff_exists.mpr ⟨_, hindex⟩))

/-- A text is a formula if and only if it has a parse tree. -/
theorem isFormula_iff {source : String} : IsFormula names source ↔ ∃ e, IsTree names source e := by
  constructor
  · rintro ⟨ts, hts, hforms⟩
    obtain ⟨e, he⟩ := hforms.exists_derives hts.isWritten
    exact ⟨e, ts, spells_iff_writes.mpr hts, he⟩
  · rintro ⟨e, ts, hts, he⟩
    have hwrites := spells_iff_writes.mp hts
    exact ⟨ts, hwrites, he.forms hwrites.isWritten⟩

/-! ## Texts that compile -/

theorem exists_compile_iff {source : String} {defaults : SortedMap String Double} :
    (∃ f, compile source defaults = .ok f) ↔ IsFormula defaults.keys source := by
  rw [isFormula_iff]
  constructor
  · rintro ⟨f, hf⟩
    obtain ⟨program, hprogram, -⟩ := Fallible.bind_eq_ok.mp hf
    obtain ⟨e, he, -⟩ := compileSource_eq_ok_iff.mp hprogram
    exact ⟨e, he⟩
  · rintro ⟨e, he⟩
    exact ⟨_, Fallible.bind_of_ok (compileSource_of_isTree he) _⟩

/-- Whatever is wrong with a text is wrong with the configuration. -/
theorem exists_toError_eq_config (fault : SourceFault) :
    ∃ message, fault.toError = .config message := by
  cases fault <;> exact ⟨_, rfl⟩

theorem map_program_compile (source : String) (defaults : SortedMap String Double) :
    (compile source defaults).map (·.program) = compileSource defaults.keys source := by
  unfold compile
  cases compileSource defaults.keys source <;> rfl

/-- A text compiles if and only if it is a formula, and everything else is a configuration error. It
is cut into tokens in one way, and the calls of the compiler come to one end on it, which is what it
answers. -/
theorem compile_accepts_grammar (source : String) (defaults : SortedMap String Double) :
    ((∃ f, compile source defaults = .ok f) ↔ IsFormula defaults.keys source) ∧
    (¬ IsFormula defaults.keys source → ∃ fault message,
      compile source defaults = .error fault ∧ fault.toError = .config message) ∧
    (∃! ts, Writes ts source.toList) ∧
    ∀ result, Compiles defaults.keys source result ↔
      (compile source defaults).map (·.program) = result := by
  refine ⟨exists_compile_iff, fun hnot => ?_, existsUnique_writes _, fun result => ?_⟩
  · rw [← exists_compile_iff, ← Fallible.exists_error_iff] at hnot
    obtain ⟨fault, hfault⟩ := hnot
    obtain ⟨message, hmessage⟩ := exists_toError_eq_config fault
    exact ⟨fault, message, hfault, hmessage⟩
  · rw [map_program_compile]
    exact compiles_iff

/-- A mark directly behind digits belongs to them, with a sign and digits or without. -/
example : compileSource [] "1e3-_0" = .ok [.push (.ofNat 1000), .argument 0, .operate .sub] ∧
    compileSource [] "1e" = .error (.badNumber "1e") := by
  exact ⟨rfl, rfl⟩

end Concordance.Formula
