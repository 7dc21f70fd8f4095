import Concordance.Proofs.Query.Formula.Compilation

/-!
# The descent comes to an end

The parts of the compiler call each other on the characters that are left, with nothing but those
characters to bound the calls.

- `Descends`: one call of a part, from the calls that it makes. A derivation is a run that has come
  to its end, with a program or with a fault.
- `descends_sum`: every call has come to an end when as much fuel is spent as characters are left;
  for each one takes a character more (`Shortens`).
- `compiles_iff`: so every source has one run, and the compiler answers what it comes to.
-/

namespace Concordance.Formula

open Compiler

/-- What a part of the compiler comes to: the program and the characters left, or a fault. -/
abbrev Outcome := Except SourceFault (List Instruction × List Char)

/-- The chains of operands between signs. -/
inductive Link where
  | sum
  | product

def Link.operator? : Link → Char → Option Operator
  | sum => sumOperator?
  | product => productOperator?

/-- The parts of the compiler: a chain, a chain whose left side is through, a signed operand and an
operand. -/
inductive Stage where
  | chain (link : Link)
  | more (link : Link)
  | signed
  | operand

/-- What stands between the signs of a chain. -/
def Link.side : Link → Stage
  | sum => .chain .product
  | product => .signed

/-- What an operand that is a token of its own comes to. -/
def leaf (names : List String) (program : List Instruction) (behind : List Char) : Token → Outcome
  | .number literal =>
    match Number.readDouble (String.ofList literal) with
    | some value => .ok (program ++ [.push value], behind)
    | none => .error (.badNumber (String.ofList literal))
  | .argument digits =>
    match Number.readNat Wire.word64 (String.ofList digits) with
    | some index => .ok (program ++ [.argument index], behind)
    | none => .error (.badArgument (String.ofList digits))
  | .name chars =>
    match names.findIdx? (· == String.ofList chars) with
    | some index => .ok (program ++ [.var index], behind)
    | none => .error (.unknownVariable (String.ofList chars))
  | .symbol c => .error (.notOperand c)

/-- A call of a part of the compiler and what it comes to. -/
inductive Descends (names : List String) :
    Stage → List Instruction → List Char → Outcome → Prop
  | chainFails {link : Link} {program : List Instruction} {cs : List Char} {fault : SourceFault}
      (h : Descends names link.side program cs (.error fault)) :
      Descends names (.chain link) program cs (.error fault)
  | chain {link : Link} {program program' : List Instruction} {cs rest : List Char}
      {outcome : Outcome} (h : Descends names link.side program cs (.ok (program', rest)))
      (hmore : Descends names (.more link) program' rest outcome) :
      Descends names (.chain link) program cs outcome
  | ends {link : Link} {program : List Instruction} {cs : List Char}
      (h : ∀ c rest, skipBlanks cs = c :: rest → link.operator? c = none) :
      Descends names (.more link) program cs (.ok (program, skipBlanks cs))
  | moreFails {link : Link} {program : List Instruction} {cs rest : List Char} {c : Char}
      {op : Operator} {fault : SourceFault} (h : skipBlanks cs = c :: rest)
      (hop : link.operator? c = some op)
      (hside : Descends names link.side program rest (.error fault)) :
      Descends names (.more link) program cs (.error fault)
  | more {link : Link} {program program' : List Instruction} {cs rest behind : List Char} {c : Char}
      {op : Operator} {outcome : Outcome} (h : skipBlanks cs = c :: rest)
      (hop : link.operator? c = some op)
      (hside : Descends names link.side program rest (.ok (program', behind)))
      (hmore : Descends names (.more link) (program' ++ [.operate op]) behind outcome) :
      Descends names (.more link) program cs outcome
  | minusFails {program : List Instruction} {cs rest : List Char} {fault : SourceFault}
      (h : skipBlanks cs = '-' :: rest)
      (hsigned : Descends names .signed program rest (.error fault)) :
      Descends names .signed program cs (.error fault)
  | minus {program program' : List Instruction} {cs rest behind : List Char}
      (h : skipBlanks cs = '-' :: rest)
      (hsigned : Descends names .signed program rest (.ok (program', behind))) :
      Descends names .signed program cs (.ok (program' ++ [.negate], behind))
  | unsigned {program : List Instruction} {cs : List Char} {outcome : Outcome}
      (h : ∀ rest, skipBlanks cs ≠ '-' :: rest)
      (hoperand : Descends names .operand program (skipBlanks cs) outcome) :
      Descends names .signed program cs outcome
  | missing {program : List Instruction} {cs : List Char} (h : skipBlanks cs = []) :
      Descends names .operand program cs (.error .endOfSource)
  | groupFails {program : List Instruction} {cs rest : List Char} {fault : SourceFault}
      (h : skipBlanks cs = '(' :: rest)
      (hsum : Descends names (.chain .sum) program rest (.error fault)) :
      Descends names .operand program cs (.error fault)
  | group {program program' : List Instruction} {cs rest behind behind' : List Char}
      (h : skipBlanks cs = '(' :: rest)
      (hsum : Descends names (.chain .sum) program rest (.ok (program', behind)))
      (hclose : skipBlanks behind = ')' :: behind') :
      Descends names .operand program cs (.ok (program', behind'))
  | unclosed {program program' : List Instruction} {cs rest behind : List Char}
      (h : skipBlanks cs = '(' :: rest)
      (hsum : Descends names (.chain .sum) program rest (.ok (program', behind)))
      (hclose : ∀ behind', skipBlanks behind ≠ ')' :: behind') :
      Descends names .operand program cs (.error .unclosed)
  | leaf {program : List Instruction} {cs rest : List Char} {c : Char}
      (h : skipBlanks cs = c :: rest) (hc : c ≠ '(') :
      Descends names .operand program cs
        (leaf names program (Token.read c rest).2 (Token.read c rest).1)

variable {names : List String}

/-- A call comes to one end only. -/
theorem Descends.unique {stage : Stage} {program : List Instruction} {cs : List Char}
    {outcome outcome' : Outcome} (h : Descends names stage program cs outcome)
    (h' : Descends names stage program cs outcome') : outcome = outcome' := by
  induction h generalizing outcome' with
  | chainFails _ ih =>
      cases h' with
      | chainFails h' => exact ih h'
      | chain h' _ => cases ih h'
  | chain _ _ ih ihmore =>
      cases h' with
      | chainFails h' => cases ih h'
      | chain h' hmore =>
          cases ih h'
          exact ihmore hmore
  | ends hends =>
      cases h' with
      | ends => rfl
      | moreFails hskip hop => cases (hends _ _ hskip).symm.trans hop
      | more hskip hop => cases (hends _ _ hskip).symm.trans hop
  | moreFails hskip hop _ ih =>
      cases h' with
      | ends hends => cases (hends _ _ hskip).symm.trans hop
      | moreFails hskip' _ hside =>
          obtain ⟨-, rfl⟩ := List.cons.inj (hskip.symm.trans hskip')
          exact ih hside
      | more hskip' _ hside =>
          obtain ⟨-, rfl⟩ := List.cons.inj (hskip.symm.trans hskip')
          cases ih hside
  | more hskip hop _ _ ih ihmore =>
      cases h' with
      | ends hends => cases (hends _ _ hskip).symm.trans hop
      | moreFails hskip' _ hside =>
          obtain ⟨-, rfl⟩ := List.cons.inj (hskip.symm.trans hskip')
          cases ih hside
      | more hskip' hop' hside hmore =>
          obtain ⟨rfl, rfl⟩ := List.cons.inj (hskip.symm.trans hskip')
          cases hop.symm.trans hop'
          cases ih hside
          exact ihmore hmore
  | minusFails hskip _ ih =>
      cases h' with
      | minusFails hskip' hsigned =>
          obtain ⟨-, rfl⟩ := List.cons.inj (hskip.symm.trans hskip')
          exact ih hsigned
      | minus hskip' hsigned =>
          obtain ⟨-, rfl⟩ := List.cons.inj (hskip.symm.trans hskip')
          cases ih hsigned
      | unsigned hne => exact absurd hskip (hne _)
  | minus hskip _ ih =>
      cases h' with
      | minusFails hskip' hsigned =>
          obtain ⟨-, rfl⟩ := List.cons.inj (hskip.symm.trans hskip')
          cases ih hsigned
      | minus hskip' hsigned =>
          obtain ⟨-, rfl⟩ := List.cons.inj (hskip.symm.trans hskip')
          cases ih hsigned
          rfl
      | unsigned hne => exact absurd hskip (hne _)
  | unsigned hne _ ih =>
      cases h' with
      | minusFails hskip => exact absurd hskip (hne _)
      | minus hskip => exact absurd hskip (hne _)
      | unsigned _ hoperand => exact ih hoperand
  | missing hskip =>
      cases h' with
      | missing => rfl
      | groupFails hskip' | group hskip' | unclosed hskip' | leaf hskip' =>
          cases hskip.symm.trans hskip'
  | groupFails hskip _ ih =>
      cases h' with
      | missing hskip' => cases hskip.symm.trans hskip'
      | groupFails hskip' hsum =>
          obtain ⟨-, rfl⟩ := List.cons.inj (hskip.symm.trans hskip')
          exact ih hsum
      | group hskip' hsum | unclosed hskip' hsum =>
          obtain ⟨-, rfl⟩ := List.cons.inj (hskip.symm.trans hskip')
          cases ih hsum
      | leaf hskip' hc => exact absurd (List.cons.inj (hskip.symm.trans hskip')).1.symm hc
  | group hskip _ hclose ih =>
      cases h' with
      | missing hskip' => cases hskip.symm.trans hskip'
      | groupFails hskip' hsum =>
          obtain ⟨-, rfl⟩ := List.cons.inj (hskip.symm.trans hskip')
          cases ih hsum
      | group hskip' hsum hclose' =>
          obtain ⟨-, rfl⟩ := List.cons.inj (hskip.symm.trans hskip')
          cases ih hsum
          cases hclose.symm.trans hclose'
          rfl
      | unclosed hskip' hsum hopen =>
          obtain ⟨-, rfl⟩ := List.cons.inj (hskip.symm.trans hskip')
          cases ih hsum
          exact absurd hclose (hopen _)
      | leaf hskip' hc => exact absurd (List.cons.inj (hskip.symm.trans hskip')).1.symm hc
  | unclosed hskip _ hopen ih =>
      cases h' with
      | missing hskip' => cases hskip.symm.trans hskip'
      | groupFails hskip' hsum =>
          obtain ⟨-, rfl⟩ := List.cons.inj (hskip.symm.trans hskip')
          cases ih hsum
      | group hskip' hsum hclose =>
          obtain ⟨-, rfl⟩ := List.cons.inj (hskip.symm.trans hskip')
          cases ih hsum
          exact absurd hclose (hopen _)
      | unclosed => rfl
      | leaf hskip' hc => exact absurd (List.cons.inj (hskip.symm.trans hskip')).1.symm hc
  | leaf hskip hc =>
      cases h' with
      | missing hskip' => cases hskip.symm.trans hskip'
      | groupFails hskip' | group hskip' | unclosed hskip' =>
          exact absurd (List.cons.inj (hskip.symm.trans hskip')).1 hc
      | leaf hskip' =>
          obtain ⟨rfl, rfl⟩ := List.cons.inj (hskip.symm.trans hskip')
          rfl

/-! ## Every call has an end -/

theorem length_skipBlanks_le (cs : List Char) : (skipBlanks cs).length ≤ cs.length :=
  (cs.dropWhile_suffix Text.isBlank).length_le

theorem length_lt_of_skipBlanks {cs rest : List Char} {c : Char} (h : skipBlanks cs = c :: rest) :
    rest.length < cs.length := by
  have hle := length_skipBlanks_le cs
  rwa [h, List.length_cons] at hle

/-- A part of the compiler that leaves no more characters than there are. -/
def Shortens (emitter : Emitter) : Prop :=
  ∀ ⦃program cs program' rest⦄, emitter program cs = .ok (program', rest) →
    rest.length ≤ cs.length

/-- A part of the compiler comes to the ends of its calls on so many characters. -/
def Answers (names : List String) (stage : Stage) (emitter : Emitter) (size : Nat) : Prop :=
  ∀ program cs, cs.length ≤ size → Descends names stage program cs (emitter program cs)

section Chain

variable {link : Link} {side : Emitter} {size : Nat}

theorem shortens_chainFrom {operator? : Char → Option Operator} (h : Shortens side) (fuel : Nat) :
    Shortens (chainFrom operator? side fuel) := by
  intro program cs program' rest hok
  induction fuel generalizing program cs with
  | zero =>
      cases hok
      exact Nat.le_refl _
  | succ fuel ih =>
      rw [chainFrom] at hok
      split at hok
      · cases hok
        exact Nat.zero_le _
      · next c behind hskip =>
          have hlt := length_lt_of_skipBlanks hskip
          split at hok
          · cases hok
            exact hlt
          · obtain ⟨⟨program₁, mid⟩, hside, hok⟩ := Fallible.bind_eq_ok.mp hok
            have := h hside
            have := ih hok
            omega

theorem shortens_chain {operator? : Char → Option Operator} (h : Shortens side) :
    Shortens (chain operator? side) := by
  intro program cs program' rest hok
  obtain ⟨⟨program₁, mid⟩, hside, hok⟩ := Fallible.bind_eq_ok.mp hok
  exact Nat.le_trans (shortens_chainFrom h _ hok) (h hside)

theorem shortens_signed (h : Shortens side) : Shortens (signed side) := by
  intro program cs program' rest hok
  induction cs generalizing program' rest with
  | nil => exact h hok
  | cons c cs ih =>
      rw [signed] at hok
      split_ifs at hok
      · exact Nat.le_succ_of_le (ih hok)
      · obtain ⟨⟨program₁, mid⟩, hsigned, hok⟩ := Fallible.bind_eq_ok.mp hok
        cases hok
        exact Nat.le_succ_of_le (ih hsigned)
      · exact h hok

/-- A chain goes on to its end: every sign takes a character. -/
theorem answers_chainFrom (h : Answers names link.side side size) (hshort : Shortens side)
    {fuel : Nat} {program : List Instruction} {cs : List Char} (hfuel : cs.length ≤ fuel)
    (hsize : cs.length ≤ size) :
    Descends names (.more link) program cs (chainFrom link.operator? side fuel program cs) := by
  induction fuel generalizing program cs with
  | zero =>
      obtain rfl := List.eq_nil_of_length_eq_zero (Nat.le_zero.mp hfuel)
      exact .ends fun c rest hskip => absurd hskip.symm (List.cons_ne_nil c rest)
  | succ fuel ih =>
      rw [chainFrom]
      split
      · next hskip =>
          rw [← hskip]
          exact .ends fun c rest hcons => absurd (hcons.symm.trans hskip) (List.cons_ne_nil c rest)
      · next c rest hskip =>
          have hlt := length_lt_of_skipBlanks hskip
          split
          · next hop =>
              rw [← hskip]
              refine .ends fun d more hcons => ?_
              rwa [← (List.cons.inj (hskip.symm.trans hcons)).1]
          · next op hop =>
              have hside := h program rest (by omega)
              cases hright : side program rest with
              | error fault =>
                  rw [hright] at hside
                  exact .moreFails hskip hop hside
              | ok result =>
                  obtain ⟨program', behind⟩ := result
                  rw [hright] at hside
                  have := hshort hright
                  exact .more hskip hop hside (ih (by omega) (by omega))

theorem answers_chain (h : Answers names link.side side size) (hshort : Shortens side) :
    Answers names (.chain link) (chain link.operator? side) size := by
  intro program cs hsize
  have hside := h program cs hsize
  unfold chain
  cases hleft : side program cs with
  | error fault =>
      rw [hleft] at hside
      exact .chainFails hside
  | ok result =>
      obtain ⟨program', rest⟩ := result
      rw [hleft] at hside
      exact .chain hside (answers_chainFrom h hshort (Nat.le_refl _)
        (Nat.le_trans (hshort hleft) hsize))

theorem answers_signed (h : Answers names .operand side size) :
    Answers names .signed (signed side) size := by
  intro program cs
  induction hn : cs.length using Nat.strong_induction_on generalizing cs with
  | _ n ih =>
      intro hsize
      rw [signed_eq]
      split
      · next rest hskip =>
          have hlt := length_lt_of_skipBlanks hskip
          have hsigned := ih rest.length (by omega) rest rfl (by omega)
          cases hinner : signed side program rest with
          | error fault =>
              rw [hinner] at hsigned
              exact .minusFails hskip hsigned
          | ok result =>
              rw [hinner] at hsigned
              exact .minus hskip hsigned
      · next hne =>
          have := length_skipBlanks_le cs
          exact .unsigned hne (h program _ (by omega))

end Chain

/-- An operand that does not start with a parenthesis is a token. -/
theorem operand_eq_leaf {inner : Emitter} {program : List Instruction} {cs rest : List Char}
    {c : Char} (h : skipBlanks cs = c :: rest) (hc : c ≠ '(') :
    operand names inner program cs =
      leaf names program (Token.read c rest).2 (Token.read c rest).1 := by
  rw [operand, h]
  dsimp only
  split
  · next behind hread => exact absurd (Token.eq_of_read_symbol (congrArg Prod.fst hread)).1 hc
  · next literal behind hread =>
      rw [hread]
      rfl
  · next digits behind hread =>
      rw [hread]
      rfl
  · next chars behind hread =>
      rw [hread]
      rfl
  · next d behind _ hread =>
      rw [hread]
      rfl

theorem operand_eq_group {inner : Emitter} {program : List Instruction} {cs rest : List Char}
    (h : skipBlanks cs = '(' :: rest) :
    operand names inner program cs = (do
      let (program, rest) ← inner program rest
      match skipBlanks rest with
      | ')' :: rest => .ok (program, rest)
      | _ => .error .unclosed) := by
  rw [operand, h]
  rfl

theorem leaf_eq_ok {program program' : List Instruction} {behind rest : List Char} {t : Token}
    (h : leaf names program behind t = .ok (program', rest)) : rest = behind := by
  unfold leaf at h
  split at h
  · split at h <;> cases h
    rfl
  · split at h <;> cases h
    rfl
  · split at h <;> cases h
    rfl
  · cases h

theorem shortens_operand {inner : Emitter} (h : Shortens inner) :
    Shortens (operand names inner) := by
  intro program cs program' rest hok
  cases hskip : skipBlanks cs with
  | nil =>
      rw [operand, hskip] at hok
      cases hok
  | cons c behind =>
      have hlt := length_lt_of_skipBlanks hskip
      by_cases hc : c = '('
      · subst hc
        rw [operand_eq_group hskip] at hok
        obtain ⟨⟨program₁, mid⟩, hinner, hok⟩ := Fallible.bind_eq_ok.mp hok
        have hmid := h hinner
        dsimp only at hok
        split at hok
        · next hclose =>
            cases hok
            have := length_lt_of_skipBlanks hclose
            omega
        · cases hok
      · rw [operand_eq_leaf hskip hc] at hok
        rw [leaf_eq_ok hok]
        have := Token.length_read_le c behind
        omega

/-- An operand comes to its end if what stands in its parentheses does. -/
theorem answers_operand {inner : Emitter} {size : Nat}
    (h : Answers names (.chain .sum) inner size) :
    Answers names .operand (operand names inner) (size + 1) := by
  intro program cs hsize
  cases hskip : skipBlanks cs with
  | nil =>
      rw [operand, hskip]
      exact .missing hskip
  | cons c rest =>
      have hlt := length_lt_of_skipBlanks hskip
      by_cases hc : c = '('
      · subst hc
        rw [operand_eq_group hskip]
        have hsum := h program rest (by omega)
        cases hinner : inner program rest with
        | error fault =>
            rw [hinner] at hsum
            exact .groupFails hskip hsum
        | ok result =>
            obtain ⟨program', behind⟩ := result
            rw [hinner] at hsum
            change Descends names .operand program cs (match skipBlanks behind with
              | ')' :: rest => .ok (program', rest)
              | _ => .error .unclosed)
            split
            · next hclose => exact .group hskip hsum hclose
            · next hopen => exact .unclosed hskip hsum hopen
      · rw [operand_eq_leaf hskip hc]
        exact .leaf hskip hc

theorem shortens_sum (names : List String) (depth : Nat) : Shortens (sum names depth) := by
  induction depth with
  | zero => exact fun _ _ _ _ hok => nomatch hok
  | succ depth ih => exact shortens_chain (shortens_chain (shortens_signed (shortens_operand ih)))

/-- Every sum comes to its end. A parenthesis takes a character, so their depth is bounded by the
characters that are left. -/
theorem descends_sum (names : List String) (depth : Nat) :
    Answers names (.chain .sum) (sum names depth) depth := by
  induction depth with
  | zero =>
      intro program cs hsize
      obtain rfl := List.eq_nil_of_length_eq_zero (Nat.le_zero.mp hsize)
      refine .chainFails (.chainFails (.unsigned ?_ (.missing rfl)))
      exact fun rest hskip => nomatch hskip
  | succ depth ih =>
      have hoperand : Shortens (operand names (sum names depth)) :=
        shortens_operand (shortens_sum names depth)
      have hsigned := shortens_signed hoperand
      have hproduct : Answers names (.chain .product)
          (product (operand names (sum names depth))) (depth + 1) :=
        answers_chain (answers_signed (answers_operand ih)) hsigned
      exact answers_chain hproduct (shortens_chain hsigned)

/-! ## Sources -/

/-- The run of the compiler on a source. -/
inductive Compiles (names : List String) (source : String) :
    Except SourceFault (List Instruction) → Prop
  | empty (h : skipBlanks source.toList = []) : Compiles names source (.error .empty)
  | fails {fault : SourceFault} (hne : skipBlanks source.toList ≠ [])
      (h : Descends names (.chain .sum) [] (skipBlanks source.toList) (.error fault)) :
      Compiles names source (.error fault)
  | ends {program : List Instruction} {rest : List Char} (hne : skipBlanks source.toList ≠ [])
      (h : Descends names (.chain .sum) [] (skipBlanks source.toList) (.ok (program, rest)))
      (hrest : skipBlanks rest = []) : Compiles names source (.ok program)
  | trailing {program : List Instruction} {rest behind : List Char} {c : Char}
      (hne : skipBlanks source.toList ≠ [])
      (h : Descends names (.chain .sum) [] (skipBlanks source.toList) (.ok (program, rest)))
      (hrest : skipBlanks rest = c :: behind) :
      Compiles names source (.error (.trailing c source))

theorem Compiles.unique {source : String} {result result' : Except SourceFault (List Instruction)}
    (h : Compiles names source result) (h' : Compiles names source result') : result = result' := by
  cases h with
  | empty hskip =>
      cases h' with
      | empty => rfl
      | fails hne | ends hne | trailing hne => exact absurd hskip hne
  | fails hne hsum =>
      cases h' with
      | empty hskip => exact absurd hskip hne
      | fails _ hsum' =>
          cases hsum.unique hsum'
          rfl
      | ends _ hsum' | trailing _ hsum' => cases hsum.unique hsum'
  | ends hne hsum hrest =>
      cases h' with
      | empty hskip => exact absurd hskip hne
      | fails _ hsum' => cases hsum.unique hsum'
      | ends _ hsum' =>
          cases hsum.unique hsum'
          rfl
      | trailing _ hsum' hrest' =>
          cases hsum.unique hsum'
          cases hrest.symm.trans hrest'
  | trailing hne hsum hrest =>
      cases h' with
      | empty hskip => exact absurd hskip hne
      | fails _ hsum' => cases hsum.unique hsum'
      | ends _ hsum' hrest' =>
          cases hsum.unique hsum'
          cases hrest.symm.trans hrest'
      | trailing _ hsum' hrest' =>
          cases hsum.unique hsum'
          cases hrest.symm.trans hrest'
          rfl

theorem compiles_compileSource (names : List String) (source : String) :
    Compiles names source (compileSource names source) := by
  unfold compileSource
  split
  · next hskip => exact .empty hskip
  · next hne =>
      have hsum := descends_sum names source.length [] (skipBlanks source.toList)
        (String.length_toList ▸ length_skipBlanks_le source.toList)
      cases houtcome : sum names source.length [] (skipBlanks source.toList) with
      | error fault =>
          rw [houtcome] at hsum
          exact .fails hne hsum
      | ok result =>
          obtain ⟨program, rest⟩ := result
          rw [houtcome] at hsum
          dsimp only [Bind.bind, Except.bind]
          split
          · next hrest => exact .ends hne hsum hrest
          · next hrest => exact .trailing hne hsum hrest

/-- Every source has one run, and the compiler answers what it comes to. -/
theorem compiles_iff {source : String} {result : Except SourceFault (List Instruction)} :
    Compiles names source result ↔ compileSource names source = result :=
  ⟨fun h => (compiles_compileSource names source).unique h,
    fun h => h ▸ compiles_compileSource names source⟩

end Concordance.Formula
