import Concordance.Proofs.Query.Formula.Grammar

/-!
# The compiler follows the grammar

The compiler of a formula goes through the characters once and emits instructions on the way.

- Sound: what a part of the compiler takes are tokens that the grammar makes that part of, and it
  emits the code of their tree (`Emits`).
- Complete: where such tokens stand, with no sign behind them that would go on, the part takes them
  and nothing else (`Finds`). The fuel of a chain counts tokens, the depth of a sum parentheses.

So a source compiles just when it has a parse tree, and to the code of that tree
(`compileSource_eq_ok_iff`).
-/

namespace Concordance.Formula

open Compiler

variable {names : List String}

/-! ## Places in a source -/

/-- The tokens that stand between two places of a source. -/
def Covers (cs : List Char) (ts : List Token) (rest : List Char) : Prop :=
  ∀ us, Spells rest us → Spells cs (ts ++ us)

namespace Covers

theorem refl (cs : List Char) : Covers cs [] cs := fun _ h => h

theorem trans {cs mid rest : List Char} {ts us : List Token} (h : Covers cs ts mid)
    (h' : Covers mid us rest) : Covers cs (ts ++ us) rest := by
  intro vs hvs
  rw [List.append_assoc]
  exact h _ (h' vs hvs)

/-- Blanks at the end may be left to what follows, or not. -/
theorem skip {cs rest : List Char} {ts : List Token} (h : Covers cs ts rest) :
    Covers cs ts (skipBlanks rest) := fun us hus => h us hus.of_skipBlanks

theorem sign {cs rest : List Char} {c : Char} (h : skipBlanks cs = c :: rest)
    (hc : c ∈ ['+', '-', '*', '/', '(', ')']) : Covers cs [.symbol c] rest :=
  fun _ hus => .sign h hc hus

theorem token {cs rest behind : List Char} {c : Char} {t : Token} (h : skipBlanks cs = c :: rest)
    (hread : Token.read c rest = (t, behind)) : Covers cs [t] behind := by
  intro us hus
  have hcons : Spells cs ((Token.read c rest).1 :: us) := .cons h (by rw [hread]; exact hus)
  rwa [hread] at hcons

end Covers

/-! ## What a part of the compiler takes -/

/-- What an emitter takes makes a part of a formula, and it emits the code of that part. -/
def Emits (emitter : Emitter) (part : List Token → Expression → Prop) : Prop :=
  ∀ ⦃program cs program' rest⦄, emitter program cs = .ok (program', rest) →
    ∃ ts e, part ts e ∧ program' = program ++ e.code ∧ Covers cs ts rest

/-- A chain whose left side is through goes on to the end of a part. -/
theorem emits_chainFrom {operator? : Char → Option Operator} {operand : Emitter}
    {part single : List Token → Expression → Prop}
    (hsign : ∀ c op, operator? c = some op → c ∈ ['+', '-', '*', '/', '(', ')'])
    (hmore : ∀ c op ts us l r, operator? c = some op → part ts l → single us r →
      part (ts ++ .symbol c :: us) (.binary op l r))
    (hoperand : Emits operand single) {start : List Char} {before : List Instruction} (fuel : Nat)
    {ts : List Token} {e : Expression} {cs rest : List Char} {program' : List Instruction}
    (hpart : part ts e) (hcovers : Covers start ts cs)
    (h : chainFrom operator? operand fuel (before ++ e.code) cs = .ok (program', rest)) :
    ∃ ts' e', part ts' e' ∧ program' = before ++ e'.code ∧ Covers start ts' rest := by
  induction fuel generalizing ts e cs with
  | zero =>
      cases h
      exact ⟨ts, e, hpart, rfl, hcovers⟩
  | succ fuel ih =>
      rw [chainFrom] at h
      split at h
      · next hskip =>
          cases h
          exact ⟨ts, e, hpart, rfl, hskip ▸ hcovers.skip⟩
      · next c behind hskip =>
          split at h
          · cases h
            exact ⟨ts, e, hpart, rfl, hskip ▸ hcovers.skip⟩
          · next op hop =>
              obtain ⟨⟨program, mid⟩, hright, h⟩ := Fallible.bind_eq_ok.mp h
              obtain ⟨us, r, hr, rfl, hus⟩ := hoperand hright
              have hall := (hcovers.trans (Covers.sign hskip (hsign c op hop))).trans hus
              refine ih (hmore c op ts us e r hop hpart hr) (by simpa using hall) ?_
              simpa [Expression.code] using h

/-- A chain takes operands between signs. -/
theorem emits_chain {operator? : Char → Option Operator} {operand : Emitter}
    {part single : List Token → Expression → Prop}
    (hsign : ∀ c op, operator? c = some op → c ∈ ['+', '-', '*', '/', '(', ')'])
    (hone : ∀ ts e, single ts e → part ts e)
    (hmore : ∀ c op ts us l r, operator? c = some op → part ts l → single us r →
      part (ts ++ .symbol c :: us) (.binary op l r))
    (hoperand : Emits operand single) : Emits (chain operator? operand) part := by
  intro program cs program' rest h
  obtain ⟨⟨program₁, mid⟩, hleft, h⟩ := Fallible.bind_eq_ok.mp h
  obtain ⟨ts, e, he, rfl, hcovers⟩ := hoperand hleft
  exact emits_chainFrom hsign hmore hoperand mid.length (hone ts e he) hcovers h

/-- A signed operand is an operand behind minus signs. -/
theorem emits_signed {operand : Emitter} {part single : List Token → Expression → Prop}
    (hone : ∀ ts e, single ts e → part ts e)
    (hnegate : ∀ ts e, part ts e → part (.symbol '-' :: ts) (.negate e))
    (hoperand : Emits operand single) : Emits (signed operand) part := by
  have hbare : ∀ {program cs program' rest}, operand program cs = .ok (program', rest) →
      ∃ ts e, part ts e ∧ program' = program ++ e.code ∧ Covers cs ts rest := by
    intro program cs program' rest h
    obtain ⟨ts, e, he, hprogram, hcovers⟩ := hoperand h
    exact ⟨ts, e, hone ts e he, hprogram, hcovers⟩
  intro program cs program' rest h
  induction cs generalizing program' rest with
  | nil => exact hbare h
  | cons c cs ih =>
      rw [signed] at h
      split_ifs at h with hblank hminus
      · obtain ⟨ts, e, he, hprogram, hcovers⟩ := ih h
        refine ⟨ts, e, he, hprogram, fun us hus => (hcovers us hus).congr ?_⟩
        exact (List.dropWhile_cons_of_pos hblank).symm
      · obtain ⟨⟨program₁, mid⟩, hinner, h⟩ := Fallible.bind_eq_ok.mp h
        obtain ⟨ts, e, he, rfl, hcovers⟩ := ih hinner
        cases h
        have hskip : skipBlanks (c :: cs) = c :: cs := List.dropWhile_cons_of_neg hblank
        subst hminus
        refine ⟨_, _, hnegate ts e he, by simp [Expression.code], ?_⟩
        exact (Covers.sign hskip (by decide)).trans hcovers
      · exact hbare h

/-- A single operand is a literal, an argument, a variable or a sum in parentheses. -/
theorem emits_operand {inner : Emitter} (hinner : Emits inner (Derives names .sum)) :
    Emits (operand names inner) (Derives names .operand) := by
  intro program cs program' rest h
  rw [operand] at h
  split at h
  · cases h
  · next c behind hskip =>
      split at h
      · next mid hread =>
          obtain ⟨⟨program₁, mid'⟩, hsum, h⟩ := Fallible.bind_eq_ok.mp h
          obtain ⟨ts, e, he, rfl, hcovers⟩ := hinner hsum
          dsimp only at h
          split at h
          · next behind' hclose =>
              cases h
              have hopen := Covers.token hskip hread
              have hall := (hopen.trans hcovers).trans (Covers.sign hclose (by decide))
              exact ⟨_, e, .group he, rfl, hall⟩
          · cases h
      · next literal mid hread =>
          split at h
          · next value hvalue =>
              cases h
              exact ⟨_, _, .number hvalue, rfl, Covers.token hskip hread⟩
          · cases h
      · next digits mid hread =>
          split at h
          · next index hindex =>
              cases h
              exact ⟨_, _, .argument hindex, rfl, Covers.token hskip hread⟩
          · cases h
      · next chars mid hread =>
          split at h
          · next index hindex =>
              cases h
              exact ⟨_, _, .var hindex, rfl, Covers.token hskip hread⟩
          · cases h
      · cases h

theorem sumOperator?_eq_some {c : Char} {op : Operator} (h : sumOperator? c = some op) :
    c = '+' ∧ op = .add ∨ c = '-' ∧ op = .sub := by
  unfold sumOperator? at h
  split_ifs at h with hadd hsub
  · exact .inl ⟨hadd, (Option.some.inj h).symm⟩
  · exact .inr ⟨hsub, (Option.some.inj h).symm⟩

theorem productOperator?_eq_some {c : Char} {op : Operator} (h : productOperator? c = some op) :
    c = '*' ∧ op = .mul ∨ c = '/' ∧ op = .div := by
  unfold productOperator? at h
  split_ifs at h with hmul hdiv
  · exact .inl ⟨hmul, (Option.some.inj h).symm⟩
  · exact .inr ⟨hdiv, (Option.some.inj h).symm⟩

theorem emits_product {single : Emitter} (h : Emits single (Derives names .operand)) :
    Emits (product single) (Derives names .product) := by
  have hsigned : Emits (signed single) (Derives names .signed) :=
    emits_signed (fun _ _ => .unsigned) (fun _ _ => .negate) h
  refine emits_chain ?_ (fun _ _ => .productOf) ?_ hsigned
  · intro c op hop
    rcases productOperator?_eq_some hop with ⟨rfl, -⟩ | ⟨rfl, -⟩ <;> decide
  · intro c op ts us l r hop hl hr
    rcases productOperator?_eq_some hop with ⟨rfl, rfl⟩ | ⟨rfl, rfl⟩
    · exact .mul hl hr
    · exact .div hl hr

/-- A sum is sound, however deep its parentheses are nested. -/
theorem emits_sum (depth : Nat) : Emits (sum names depth) (Derives names .sum) := by
  induction depth with
  | zero =>
      intro program cs program' rest h
      cases h
  | succ depth ih =>
      refine emits_chain ?_ (fun _ _ => .sumOf) ?_ (emits_product (emits_operand ih))
      · intro c op hop
        rcases sumOperator?_eq_some hop with ⟨rfl, -⟩ | ⟨rfl, -⟩ <;> decide
      · intro c op ts us l r hop hl hr
        rcases sumOperator?_eq_some hop with ⟨rfl, rfl⟩ | ⟨rfl, rfl⟩
        · exact .add hl hr
        · exact .sub hl hr

/-! ## What a part of the compiler finds -/

/-- No sign that would go on stands next. -/
def Stops (operator? : Char → Option Operator) (us : List Token) : Prop :=
  ∀ c vs, us = .symbol c :: vs → operator? c = none

/-- Where the tokens of an expression stand and the right ones behind them, an emitter takes them
and emits the code of the expression. -/
def Finds (emitter : Emitter) (ts : List Token) (e : Expression) (behind : List Token → Prop) :
    Prop :=
  ∀ program ⦃cs us⦄, Spells cs (ts ++ us) → behind us →
    ∃ rest, emitter program cs = .ok (program ++ e.code, rest) ∧ Spells rest us

/-- Where the tokens of an expression stand, a chain comes to their end with the expression as its
left side, and with fuel for the tokens behind. -/
def LeadsOn (operator? : Char → Option Operator) (operand : Emitter) (ts : List Token)
    (e : Expression) (behind : List Token → Prop) : Prop :=
  ∀ ⦃program cs us⦄, Spells cs (ts ++ us) → behind us →
    ∃ fuel rest, us.length ≤ fuel ∧ Spells rest us ∧
      chain operator? operand program cs =
        chainFrom operator? operand fuel (program ++ e.code) rest

section Chain

variable {operator? : Char → Option Operator} {operand : Emitter} {ts us : List Token}
  {e l r : Expression} {behind : List Token → Prop}

theorem Finds.leadsOn (h : Finds operand ts e behind) : LeadsOn operator? operand ts e behind := by
  intro program cs us hs hbehind
  obtain ⟨rest, hoperand, hrest⟩ := h program hs hbehind
  exact ⟨rest.length, rest, hrest.length_le, hrest, Fallible.bind_of_ok hoperand _⟩

/-- A chain goes on over a sign and its right side. -/
theorem LeadsOn.more {c : Char} {op : Operator} (h : LeadsOn operator? operand ts l behind)
    (hop : operator? c = some op) (hbehind : ∀ vs, behind (.symbol c :: vs))
    (hr : Finds operand us r behind) :
    LeadsOn operator? operand (ts ++ .symbol c :: us) (.binary op l r) behind := by
  intro program cs vs hs hvs
  rw [List.append_assoc, List.cons_append] at hs
  obtain ⟨fuel, rest, hfuel, hrest, hchain⟩ := h hs (hbehind _)
  obtain ⟨rest₁, hskip, hrest₁⟩ := hrest.skip_of_symbol
  obtain ⟨rest₂, hright, hrest₂⟩ := hr (program ++ l.code) hrest₁ hvs
  simp only [List.length_cons, List.length_append] at hfuel
  obtain ⟨fuel, rfl⟩ : ∃ n, fuel = n + 1 := ⟨fuel - 1, by omega⟩
  refine ⟨fuel, rest₂, by omega, hrest₂, ?_⟩
  rw [hchain, chainFrom, hskip]
  simp only [hop]
  rw [Fallible.bind_of_ok hright]
  simp [Expression.code]

theorem stops_symbol {c : Char} (h : operator? c = none) (us : List Token) :
    Stops operator? (.symbol c :: us) := by
  rintro d vs heq
  cases heq
  exact h

/-- A chain ends where no sign goes on. -/
theorem chainFrom_stops
    (hsign : ∀ c op, operator? c = some op → c ∈ ['+', '-', '*', '/', '(', ')'])
    (hstops : Stops operator? us) {cs : List Char} (hs : Spells cs us) (fuel : Nat)
    (program : List Instruction) :
    ∃ rest, chainFrom operator? operand fuel program cs = .ok (program, rest) ∧
      Spells rest us := by
  cases fuel with
  | zero => exact ⟨cs, rfl, hs⟩
  | succ fuel =>
      have hskipped : Spells (skipBlanks cs) us :=
        hs.congr (List.dropWhile_idempotent _ _).symm
      rw [chainFrom]
      split
      · next hskip => exact ⟨[], rfl, hskip ▸ hskipped⟩
      · next c rest hskip =>
          split
          · exact ⟨c :: rest, rfl, hskip ▸ hskipped⟩
          · next op hop =>
              obtain ⟨vs, rfl⟩ := hs.symbol_of_skip hskip (hsign c op hop)
              cases hop.symm.trans (hstops c vs rfl)

theorem LeadsOn.finds (h : LeadsOn operator? operand ts e behind)
    (hsign : ∀ c op, operator? c = some op → c ∈ ['+', '-', '*', '/', '(', ')']) :
    Finds (chain operator? operand) ts e fun us => behind us ∧ Stops operator? us := by
  rintro program cs us hs ⟨hbehind, hstops⟩
  obtain ⟨fuel, rest, -, hrest, hchain⟩ := h hs hbehind
  rw [hchain]
  exact chainFrom_stops hsign hstops hrest fuel _

end Chain

/-- The signs of an operand, with the blanks in front of them skipped. -/
theorem signed_eq (operand : Emitter) (program : List Instruction) (cs : List Char) :
    signed operand program cs =
      match skipBlanks cs with
      | '-' :: rest => do
        let (program, rest) ← signed operand program rest
        return (program ++ [.negate], rest)
      | cs => operand program cs := by
  induction cs with
  | nil => rfl
  | cons c cs ih =>
      by_cases hblank : Text.isBlank c
      · rw [signed, if_pos hblank, ih, skipBlanks, skipBlanks, List.dropWhile_cons_of_pos hblank]
      · rw [signed, if_neg hblank, skipBlanks, List.dropWhile_cons_of_neg hblank]
        by_cases hminus : c = '-'
        · subst hminus
          rfl
        · rw [if_neg hminus]
          split
          · next heq => exact absurd (List.cons.inj heq).1 hminus
          · rfl

theorem Finds.negate {operand : Emitter} {ts : List Token} {e : Expression}
    {behind : List Token → Prop} (h : Finds (signed operand) ts e behind) :
    Finds (signed operand) (.symbol '-' :: ts) (.negate e) behind := by
  intro program cs us hs hbehind
  obtain ⟨rest, hskip, hrest⟩ := Spells.skip_of_symbol hs
  obtain ⟨rest', hinner, hrest'⟩ := h program hrest hbehind
  refine ⟨rest', ?_, hrest'⟩
  rw [signed_eq, hskip]
  show (signed operand program rest >>= fun r => pure (r.1 ++ [.negate], r.2)) = _
  rw [Fallible.bind_of_ok hinner, Expression.code, List.append_assoc]
  rfl

theorem Finds.unsigned {operand : Emitter} {ts : List Token} {e : Expression}
    {behind : List Token → Prop} (h : Finds operand ts e behind)
    (hts : ∀ us vs, ts ++ us ≠ .symbol '-' :: vs) : Finds (signed operand) ts e behind := by
  intro program cs us hs hbehind
  rw [signed_eq]
  split
  · next rest hskip =>
      obtain ⟨vs, heq⟩ := hs.symbol_of_skip hskip (by decide)
      exact absurd heq (hts us vs)
  · exact h program (hs.congr (List.dropWhile_idempotent _ _).symm) hbehind

/-- What a part of the compiler finds, for tokens that make this part of a formula. -/
def Completes (names : List String) (depth : Nat) : Level → List Token → Expression → Prop
  | .sum, ts, e =>
    LeadsOn sumOperator? (product (operand names (sum names depth))) ts e (Stops productOperator?)
  | .product, ts, e =>
    LeadsOn productOperator? (signed (operand names (sum names depth))) ts e fun _ => True
  | .signed, ts, e => Finds (signed (operand names (sum names depth))) ts e fun _ => True
  | .operand, ts, e => Finds (operand names (sum names depth)) ts e fun _ => True

/-- A sum in parentheses is found if the sum is. -/
theorem Finds.group {inner : Emitter} {ts : List Token} {e : Expression}
    {behind after : List Token → Prop} (h : Finds inner ts e behind)
    (hbehind : ∀ us, behind (.symbol ')' :: us)) :
    Finds (operand names inner) (.symbol '(' :: ts ++ [.symbol ')']) e after := by
  intro program cs us hs _
  rw [List.append_assoc] at hs
  obtain ⟨rest, hskip, hrest⟩ := Spells.skip_of_symbol hs
  obtain ⟨rest', hinner, hrest'⟩ := h program hrest (hbehind us)
  obtain ⟨rest'', hclose, hrest''⟩ := hrest'.skip_of_symbol
  refine ⟨rest'', ?_, hrest''⟩
  simp only [operand, hskip, Token.read_sign (c := '(') (by decide)]
  rw [Fallible.bind_of_ok hinner]
  simp only [hclose]

theorem sumOperator?_sign (c : Char) (op : Operator) (h : sumOperator? c = some op) :
    c ∈ ['+', '-', '*', '/', '(', ')'] := by
  rcases sumOperator?_eq_some h with ⟨rfl, -⟩ | ⟨rfl, -⟩ <;> decide

theorem productOperator?_sign (c : Char) (op : Operator) (h : productOperator? c = some op) :
    c ∈ ['+', '-', '*', '/', '(', ')'] := by
  rcases productOperator?_eq_some h with ⟨rfl, -⟩ | ⟨rfl, -⟩ <;> decide

theorem Derives.ne_minus {ts : List Token} {e : Expression} (h : Derives names .operand ts e)
    (us vs : List Token) : ts ++ us ≠ .symbol '-' :: vs := by
  cases h <;> simp

/-- Every part of the compiler finds the tokens that the grammar makes that part of, if parentheses
may be nested as deep as there are tokens. -/
theorem Derives.completes {level : Level} {ts : List Token} {e : Expression}
    (h : Derives names level ts e) (depth : Nat) (hdepth : ts.length ≤ depth + 1) :
    Completes names depth level ts e := by
  induction h generalizing depth with
  | sumOf _ ih =>
      have hproduct := (ih depth hdepth).finds productOperator?_sign
      refine Finds.leadsOn fun program cs us hs hstops => hproduct program hs ⟨trivial, hstops⟩
  | add hl hr ihl ihr =>
      simp only [List.length_append, List.length_cons] at hdepth
      have hright := (ihr depth (by omega)).finds productOperator?_sign
      refine (ihl depth (by omega)).more rfl (stops_symbol rfl) ?_
      exact fun program cs us hs hstops => hright program hs ⟨trivial, hstops⟩
  | sub hl hr ihl ihr =>
      simp only [List.length_append, List.length_cons] at hdepth
      have hright := (ihr depth (by omega)).finds productOperator?_sign
      refine (ihl depth (by omega)).more rfl (stops_symbol rfl) ?_
      exact fun program cs us hs hstops => hright program hs ⟨trivial, hstops⟩
  | productOf _ ih => exact (ih depth hdepth).leadsOn
  | mul hl hr ihl ihr =>
      simp only [List.length_append, List.length_cons] at hdepth
      exact (ihl depth (by omega)).more rfl (fun _ => trivial) (ihr depth (by omega))
  | div hl hr ihl ihr =>
      simp only [List.length_append, List.length_cons] at hdepth
      exact (ihl depth (by omega)).more rfl (fun _ => trivial) (ihr depth (by omega))
  | unsigned h ih => exact (ih depth hdepth).unsigned h.ne_minus
  | negate _ ih => exact (ih depth (Nat.le_of_succ_le hdepth)).negate
  | group _ ih =>
      simp only [List.length_append, List.length_cons, List.length_nil] at hdepth
      obtain ⟨depth, rfl⟩ : ∃ n, depth = n + 1 := ⟨depth - 1, by omega⟩
      have hinner := (ih depth (by omega)).finds sumOperator?_sign
      exact Finds.group hinner fun us => ⟨stops_symbol rfl us, stops_symbol rfl us⟩
  | number hvalue =>
      intro program cs us hs _
      obtain ⟨c, rest, behind, hskip, hread, hbehind⟩ := hs.uncons
      exact ⟨behind, by simp only [operand, hskip, hread, hvalue, Expression.code], hbehind⟩
  | argument hindex =>
      intro program cs us hs _
      obtain ⟨c, rest, behind, hskip, hread, hbehind⟩ := hs.uncons
      exact ⟨behind, by simp only [operand, hskip, hread, hindex, Expression.code], hbehind⟩
  | var hindex =>
      intro program cs us hs _
      obtain ⟨c, rest, behind, hskip, hread, hbehind⟩ := hs.uncons
      exact ⟨behind, by simp only [operand, hskip, hread, hindex, Expression.code], hbehind⟩

/-! ## Sources and their trees -/

theorem Derives.ne_nil {level : Level} {ts : List Token} {e : Expression}
    (h : Derives names level ts e) : ts ≠ [] := by
  induction h with
  | sumOf _ ih | productOf _ ih | unsigned _ ih => exact ih
  | add | sub | mul | div | negate | group | number | argument | var => simp

/-- A source with a parse tree compiles to the code of that tree. -/
theorem compileSource_of_isTree {source : String} {e : Expression}
    (h : IsTree names source e) : compileSource names source = .ok e.code := by
  obtain ⟨ts, hs, hd⟩ := h
  have hskipped : Spells (skipBlanks source.toList) (ts ++ []) := by
    rw [List.append_nil]
    exact hs.congr (List.dropWhile_idempotent _ _).symm
  have hlength := hs.length_le
  have hts : 0 < ts.length := List.length_pos_iff.mpr hd.ne_nil
  rw [String.length_toList] at hlength
  obtain ⟨depth, hdepth⟩ : ∃ n, source.length = n + 1 := ⟨source.length - 1, by omega⟩
  have hfinds := (hd.completes depth (by omega)).finds sumOperator?_sign
  have hends : ∀ operator?, Stops operator? [] := fun _ _ _ heq => nomatch heq
  obtain ⟨rest, hchain, hrest⟩ := hfinds [] hskipped ⟨hends _, hends _⟩
  have hsum : sum names source.length [] (skipBlanks source.toList) = .ok (e.code, rest) := by
    rw [hdepth]
    exact hchain
  have hblank : skipBlanks rest = [] := by cases hrest with | nil hskip => exact hskip
  unfold compileSource
  split
  · next hempty =>
      have hnone := hskipped.length_le
      rw [hempty, List.append_nil, List.length_nil] at hnone
      omega
  · rw [Fallible.bind_of_ok hsum]
    simp only [hblank]

/-- A program that a source compiles to is the code of a parse tree of the source. -/
theorem exists_isTree_of_compileSource {source : String} {program : List Instruction}
    (h : compileSource names source = .ok program) :
    ∃ e, IsTree names source e ∧ program = e.code := by
  unfold compileSource at h
  split at h
  · cases h
  · obtain ⟨⟨program', rest⟩, hsum, h⟩ := Fallible.bind_eq_ok.mp h
    obtain ⟨ts, e, he, rfl, hcovers⟩ := emits_sum source.length hsum
    dsimp only at h
    split at h
    · next hblank =>
        cases h
        have hs := (hcovers [] (.nil hblank)).of_skipBlanks
        rw [List.append_nil] at hs
        exact ⟨e, ⟨ts, hs, he⟩, rfl⟩
    · cases h

/-- A source compiles just when it has a parse tree, and to the code of that tree. -/
theorem compileSource_eq_ok_iff {source : String} {program : List Instruction} :
    compileSource names source = .ok program ↔
      ∃ e, IsTree names source e ∧ program = e.code := by
  constructor
  · exact exists_isTree_of_compileSource
  · rintro ⟨e, he, rfl⟩
    exact compileSource_of_isTree he

example : compileSource [] "_0 + _1 * _2 - -_3" =
    .ok [.argument 0, .argument 1, .argument 2, .operate .mul, .operate .add, .argument 3, .negate,
      .operate .sub] := by rfl

/-- A source has one parse tree at most. -/
theorem IsTree.unique {source : String} {e e' : Expression} (h : IsTree names source e)
    (h' : IsTree names source e') : e = e' := by
  have hcode := (compileSource_of_isTree h).symm.trans (compileSource_of_isTree h')
  exact Expression.code_injective (Except.ok.inj hcode)

end Concordance.Formula
