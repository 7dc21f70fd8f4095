import Concordance.Proofs.Json.Scalar

/-!
# What is written over several lines is read back

The characters of a value are cut into the tokens of the value (`Lexes`), and the tokens lead the
reader from a place where a value may come to the state with the value added (`Reads`). Arrays and
objects are two instances of one kind of `Container`: parts between brackets, with commas between
them. So every value of natural numbers, texts and truth values that is nested no deeper than a
reader goes is read back (`read?_renderPretty`).
-/

namespace Concordance.Json

/-! ## Cutting characters into tokens -/

/-- Characters are cut into tokens, whatever of a kind stands behind them. -/
structure Lexes (follows : List Char → Prop) (cs : List Char) (ts : List Token) : Prop where
  length : ts.length ≤ cs.length
  tokens : ∀ fuel rest, follows rest →
    tokensFrom (ts.length + fuel) (cs ++ rest) = (tokensFrom fuel rest).map (ts ++ ·)

/-- Anything may follow. -/
def Anything : List Char → Prop := fun _ => True

variable {P Q : List Char → Prop} {cs ds : List Char} {ts us : List Token}

theorem Lexes.mono (h : Lexes P cs ts) (hpq : ∀ rest, Q rest → P rest) : Lexes Q cs ts :=
  ⟨h.length, fun fuel rest hrest => h.tokens fuel rest (hpq rest hrest)⟩

theorem Lexes.ends (h : Lexes Anything cs ts) : Lexes Ends cs ts :=
  h.mono fun _ _ => trivial

theorem Lexes.append (h : Lexes P cs ts) (h' : Lexes Q ds us)
    (hfollows : ∀ rest, Q rest → P (ds ++ rest)) : Lexes Q (cs ++ ds) (ts ++ us) where
  length := by
    have hleft := h.length
    have hright := h'.length
    simp only [List.length_append]
    omega
  tokens fuel rest hrest := by
    rw [List.append_assoc, List.length_append, Nat.add_assoc, h.tokens _ _ (hfollows rest hrest),
      h'.tokens _ _ hrest, Option.map_map]
    congr 1
    funext more
    simp

theorem Lexes.append_closed (h : Lexes Anything cs ts) (h' : Lexes Q ds us) :
    Lexes Q (cs ++ ds) (ts ++ us) :=
  h.append h' fun _ _ => trivial

theorem tokensFrom_succ (fuel : Nat) (cs : List Char) :
    tokensFrom (fuel + 1) cs =
      match cs.dropWhile isSeparator with
      | [] => some []
      | c :: rest => (readToken (c :: rest)).bind fun r => (tokensFrom fuel r.2).map (r.1 :: ·) := by
  show (match cs.dropWhile isSeparator with
    | [] => some []
    | c :: rest => (readToken (c :: rest)).bind fun r =>
      (tokensFrom fuel r.2).bind fun more => some (r.1 :: more)) = _
  split
  · rfl
  · congr 1
    funext r
    cases tokensFrom fuel r.2 <;> rfl

/-- Blanks make no token. -/
theorem lexes_blanks (h : ∀ c ∈ cs, isSeparator c = true) : Lexes Anything cs [] where
  length := Nat.zero_le _
  tokens fuel rest _ := by
    have hdrop : (cs ++ rest).dropWhile isSeparator = rest.dropWhile isSeparator := by
      induction cs with
      | nil => rfl
      | cons c more ih =>
          have hc := h c List.mem_cons_self
          simp only [List.cons_append, List.dropWhile_cons, hc, if_true]
          exact ih fun d hd => h d (List.mem_cons_of_mem _ hd)
    rw [List.length_nil, Nat.zero_add]
    cases fuel with
    | zero => rfl
    | succ fuel =>
        rw [tokensFrom_succ, tokensFrom_succ, hdrop]
        simp

/-- One token. -/
theorem lexes_token {c : Char} {token : Token} (hc : isSeparator c = false)
    (hread : ∀ rest, P rest → readToken (c :: (cs ++ rest)) = some (token, rest)) :
    Lexes P (c :: cs) [token] where
  length := Nat.succ_le_succ (Nat.zero_le _)
  tokens fuel rest hrest := by
    rw [show [token].length + fuel = fuel + 1 from Nat.add_comm 1 fuel, List.cons_append]
    rw [tokensFrom_succ]
    simp only [List.dropWhile_cons, hc, Bool.false_eq_true, if_false]
    rw [hread rest hrest]
    rfl

/-- A whole text of tokens. -/
theorem Lexes.all {s : String} (h : Lexes P s.toList ts) (hend : P []) :
    Json.tokens s = some ts := by
  have hlength := h.length
  rw [String.length_toList] at hlength
  have hall := h.tokens (s.length + 1 - ts.length) [] hend
  rw [List.append_nil, show ts.length + (s.length + 1 - ts.length) = s.length + 1 by omega] at hall
  unfold Json.tokens
  rw [hall]
  obtain ⟨fuel, hfuel⟩ : ∃ k, s.length + 1 - ts.length = k + 1 :=
    ⟨s.length - ts.length, by omega⟩
  rw [hfuel]
  show some (ts ++ []) = some ts
  rw [List.append_nil]

theorem lexes_renderText (s : String) : Lexes Anything (renderText s).toList [.text (some s)] := by
  rw [toList_renderText]
  refine lexes_token (by decide) ?_
  intro rest _
  show (readText (s.toList.flatMap (fun c => (escapeChar c).toList) ++ ['"'] ++ rest)).map _ = _
  rw [List.append_assoc, List.singleton_append, readText_renderText]
  rfl

theorem lexes_repr {n : Nat} (h : n < 2 * Number.half64) :
    Lexes Ends n.repr.toList [.value (ofNat n)] := by
  have hread : ∀ rest, Ends rest →
      readUnsigned false (Nat.toDigits 10 n ++ rest) = some (some (.natural n), rest) :=
    fun rest hrest => readUnsigned_toDigits h hrest
  rw [Nat.toList_repr]
  cases hdigits : Nat.toDigits 10 n with
  | nil => exact absurd hdigits Nat.toDigits_ne_nil
  | cons d more =>
      have hd : d.isDigit = true := isDigit_toDigits n d (by rw [hdigits]; exact List.mem_cons_self)
      rw [hdigits] at hread
      -- a digit is none of the characters that other tokens start with
      have hne : ∀ x : Char, x.isDigit = false → d ≠ x := by
        intro x hx heq
        rw [heq, hx] at hd
        cases hd
      refine lexes_token ?_ ?_
      · simp only [isSeparator, hne ' ' rfl, hne '\n' rfl, hne '\t' rfl, hne '\r' rfl]
        rfl
      · intro rest hrest
        have hnumber : readNumber (d :: (more ++ rest)) = some (some (.natural n), rest) := by
          unfold readNumber
          split
          · next heq =>
              cases heq
              exact absurd rfl (hne '-' rfl)
          · exact hread rest hrest
        unfold readToken
        split <;> simp_all
        rfl

/-! ## Putting tokens together -/

theorem foldlM_append_of_some {a b : State} (h : ts.foldlM State.step a = some b)
    (us : List Token) : (ts ++ us).foldlM State.step a = us.foldlM State.step b := by
  rw [List.foldlM_append, h]
  rfl

theorem foldlM_cons_of_some {a b : State} {token : Token} (h : State.step a token = some b)
    (us : List Token) : (token :: us).foldlM State.step a = us.foldlM State.step b := by
  rw [List.foldlM_cons, h]
  rfl

/-- It does not matter to what is added what was expected. -/
theorem add_congr (frames : List Frame) (e e' : Expectation) (result : Option Json) (v : Json) :
    State.add ⟨frames, e, result⟩ v = State.add ⟨frames, e', result⟩ v := by
  cases frames with
  | nil => rfl
  | cons frame outer => cases frame <;> rfl

/-- The state with a value added where a value may come. -/
def ReadsTokens (depth : Nat) (ts : List Token) (v : Json) : Prop :=
  ∀ (frames : List Frame) (e : Expectation) (result : Option Json), e = .value ∨ e = .firstItem →
    frames.length + depth ≤ maxDepth →
    ts.foldlM State.step ⟨frames, e, result⟩ = State.add ⟨frames, e, result⟩ v

/-- Characters are read as a value that has some depth. -/
def Reads (depth : Nat) (cs : List Char) (v : Json) : Prop :=
  ∃ ts, Lexes Ends cs ts ∧ ReadsTokens depth ts v

/-- A kind of values with parts between brackets and commas between the parts. -/
structure Container (α : Type) where
  opening : Char
  closing : Char
  openToken : Token
  closeToken : Token
  /-- The unfinished container of some parts, the last one first. -/
  frame : List α → Frame
  /-- What may come behind the opening bracket, and behind a comma. -/
  first : Expectation
  later : Expectation
  build : List α → Json
  lexes_opening : Lexes Anything [opening] [openToken]
  lexes_closing : Lexes Anything [closing] [closeToken]
  ends : ∀ rest, Ends (closing :: rest)
  opens : ∀ frames e result, e = .value ∨ e = .firstItem →
    State.step ⟨frames, e, result⟩ openToken = some ⟨frame [] :: frames, first, result⟩
  continues : ∀ done outer result,
    State.step ⟨frame done :: outer, .next, result⟩ .comma =
      some ⟨frame done :: outer, later, result⟩
  closes : ∀ done outer e result, e = .next ∨ (e = first ∧ done = []) →
    State.step ⟨frame done :: outer, e, result⟩ closeToken =
      State.close ⟨frame done :: outer, e, result⟩ (frame done) outer
  value : ∀ done, (frame done).value = build done.reverse

namespace Container

variable {α : Type} (k : Container α)

/-- Characters are read as a part of a container. -/
def ReadsPart (depth : Nat) (cs : List Char) (a : α) : Prop :=
  ∃ ts, Lexes Ends cs ts ∧ ∀ done outer e result, e = k.first ∨ e = k.later →
    outer.length + 1 + depth ≤ maxDepth →
    ts.foldlM State.step ⟨k.frame done :: outer, e, result⟩ =
      some ⟨k.frame (a :: done) :: outer, .next, result⟩

/-- Parts behind commas. -/
def following (separator : List Char) (pieces : List (List Char)) : List Char :=
  pieces.flatMap (separator ++ ·)

theorem intercalate_cons (separator piece : List Char) (pieces : List (List Char)) :
    separator.intercalate (piece :: pieces) = piece ++ following separator pieces := by
  induction pieces generalizing piece with
  | nil => simp [following, List.intercalate]
  | cons second rest ih =>
      have hrest := ih second
      simp only [List.intercalate, List.intersperse_cons_cons, List.flatten_cons, following,
        List.flatMap_cons] at hrest ⊢
      rw [hrest]
      simp

/-- The characters at the start of a line. -/
def lineStart (level : Nat) : List Char := '\n' :: List.replicate (2 * level) ' '

theorem toList_bracketed (opening closing piece : String) (level : Nat) (pieces : List String) :
    (bracketed opening closing level (piece :: pieces)).toList =
      opening.toList ++ (lineStart (level + 1) ++ (piece.toList ++
        (following (',' :: lineStart (level + 1)) (pieces.map String.toList) ++
          (lineStart level ++ closing.toList)))) := by
  have hindentation : ∀ n, (indentation n).toList = lineStart n := by
    intro n
    simp [indentation, lineStart]
  unfold bracketed
  rw [if_neg (by simp)]
  simp only [String.toList_append, hindentation, String.toList_intercalate, List.map_cons,
    intercalate_cons, List.append_assoc]
  rfl

theorem ends_following {start : List Char} {pieces : List (List Char)} {rest : List Char}
    (hrest : Ends rest) : Ends (following (',' :: start) pieces ++ rest) := by
  cases pieces with
  | nil => exact hrest
  | cons piece more =>
      intro c hc
      cases hc
      decide

/-- Parts behind commas are added one after the other. -/
theorem reads_following {depth : Nat} {start : List Char}
    (hstart : ∀ c ∈ start, isSeparator c = true) {pieces : List (List Char × α)}
    (hpieces : ∀ p ∈ pieces, k.ReadsPart depth p.1 p.2) :
    ∃ ts, Lexes Ends (following (',' :: start) (pieces.map (·.1))) ts ∧
      ∀ done outer result, outer.length + 1 + depth ≤ maxDepth →
        ts.foldlM State.step ⟨k.frame done :: outer, .next, result⟩ =
          some ⟨k.frame ((pieces.map (·.2)).reverse ++ done) :: outer, .next, result⟩ := by
  induction pieces with
  | nil => exact ⟨[], ⟨Nat.zero_le _, fun fuel rest _ => by simp [following]⟩, fun _ _ _ _ => rfl⟩
  | cons piece more ih =>
      obtain ⟨ts, hlexes, hsteps⟩ := hpieces piece List.mem_cons_self
      obtain ⟨us, hlexes', hsteps'⟩ := ih fun p hp => hpieces p (List.mem_cons_of_mem _ hp)
      have hcomma : Lexes Anything [','] [.comma] :=
        lexes_token (by decide) fun _ _ => by simp [readToken]
      refine ⟨[.comma] ++ ([] ++ (ts ++ us)), ?_, ?_⟩
      · have hpart := hlexes.append hlexes' fun rest hrest => ends_following hrest
        have hall := hcomma.append_closed ((lexes_blanks hstart).append_closed hpart)
        simpa [following] using hall
      · intro done outer result hdepth
        have hpart := hsteps done outer k.later result (.inr rfl) hdepth
        have hrest := hsteps' (piece.2 :: done) outer result hdepth
        rw [List.nil_append, List.singleton_append,
          foldlM_cons_of_some (k.continues done outer result), foldlM_append_of_some hpart, hrest]
        simp

/-- A container over several lines is read back from its parts. -/
theorem reads_bracketed {depth level : Nat} {opening closing : String}
    (hopening : opening.toList = [k.opening]) (hclosing : closing.toList = [k.closing])
    {text : α → String} {parts : List α}
    (hparts : ∀ a ∈ parts, k.ReadsPart depth (text a).toList a) :
    Reads (depth + 1) (bracketed opening closing level (parts.map text)).toList (k.build parts) := by
  have hblanks : ∀ n, ∀ c ∈ lineStart n, isSeparator c = true := by
    intro n c hc
    rcases List.mem_cons.mp hc with rfl | hc
    · rfl
    · rw [(List.mem_replicate.mp hc).2]
      rfl
  have hclose : ∀ done outer e result, e = .next ∨ (e = k.first ∧ done = []) →
      outer.length + (depth + 1) ≤ maxDepth →
      State.step ⟨k.frame done :: outer, e, result⟩ k.closeToken =
        State.add ⟨outer, e, result⟩ (k.build done.reverse) := by
    intro done outer e result he hdepth
    rw [k.closes done outer e result he, State.close, if_pos (by omega), k.value]
  cases parts with
  | nil =>
      refine ⟨[k.openToken] ++ [k.closeToken], ?_, ?_⟩
      · have hall := k.lexes_opening.append_closed k.lexes_closing
        simpa [bracketed, hopening, hclosing] using hall.ends
      · -- the container is closed where it was opened
        intro frames e result he hdepth
        rw [List.singleton_append, foldlM_cons_of_some (k.opens frames e result he),
          List.foldlM_cons, hclose [] frames k.first result (.inr ⟨rfl, rfl⟩) hdepth,
          add_congr frames k.first e]
        simp
  | cons first more =>
      obtain ⟨ts, hlexes, hsteps⟩ := hparts first List.mem_cons_self
      have hmore : ∀ p ∈ more.map (fun a => ((text a).toList, a)), k.ReadsPart depth p.1 p.2 := by
        intro p hp
        obtain ⟨a, ha, rfl⟩ := List.mem_map.mp hp
        exact hparts a (List.mem_cons_of_mem _ ha)
      obtain ⟨us, hlexes', hsteps'⟩ := k.reads_following (hblanks (level + 1)) hmore
      refine ⟨[k.openToken] ++ ([] ++ (ts ++ (us ++ ([] ++ [k.closeToken])))), ?_, ?_⟩
      · -- no part is followed by what a number could go on with
        have hend := (lexes_blanks (hblanks level)).append_closed k.lexes_closing
        have htail := hlexes'.append hend fun rest _ => by
          intro c hc
          cases hc
          decide
        have hbody := hlexes.append htail fun rest _ => by
          rw [List.append_assoc]
          apply ends_following
          intro c hc
          cases hc
          decide
        have hall := k.lexes_opening.append_closed
          ((lexes_blanks (hblanks (level + 1))).append_closed hbody)
        rw [List.map_cons, toList_bracketed, hopening, hclosing]
        simpa [List.map_map, Function.comp_def] using hall.ends
      · intro frames e result he hdepth
        have hpart := hsteps [] frames k.first result (.inl rfl) (by omega)
        have hrest := hsteps' [first] frames result (by omega)
        rw [List.singleton_append, foldlM_cons_of_some (k.opens frames e result he),
          List.nil_append, List.nil_append, foldlM_append_of_some hpart,
          foldlM_append_of_some hrest, List.foldlM_cons,
          hclose _ frames .next result (.inl rfl) hdepth, add_congr frames .next e]
        simp [List.map_map, Function.comp_def]

end Container

theorem ends_of_head {c : Char} (h : c.isDigit = false ∧ c ≠ '.' ∧ c ≠ 'e' ∧ c ≠ 'E')
    (rest : List Char) : Ends (c :: rest) := by
  intro d hd
  cases hd
  exact h

/-- Arrays. -/
def arrays : Container Json where
  opening := '['
  closing := ']'
  openToken := .openArray
  closeToken := .closeArray
  frame := .array
  first := .firstItem
  later := .value
  build := .array
  lexes_opening := lexes_token (by decide) fun _ _ => by simp [readToken]
  lexes_closing := lexes_token (by decide) fun _ _ => by simp [readToken]
  ends := ends_of_head (by decide)
  opens frames e result he := by
    rcases he with rfl | rfl <;> rfl
  continues _ _ _ := rfl
  closes done outer e result he := by
    rcases he with rfl | ⟨rfl, -⟩ <;> rfl
  value _ := rfl

/-- Objects. -/
def objects : Container (String × Json) where
  opening := '\x7b'
  closing := '\x7d'
  openToken := .openObject
  closeToken := .closeObject
  frame members := .object (some members) none
  first := .firstName
  later := .name
  build := .object
  lexes_opening := lexes_token (by decide) fun _ _ => by simp [readToken]
  lexes_closing := lexes_token (by decide) fun _ _ => by simp [readToken]
  ends := ends_of_head (by decide)
  opens frames e result he := by
    rcases he with rfl | rfl <;> rfl
  continues _ _ _ := rfl
  closes done outer e result he := by
    rcases he with rfl | ⟨rfl, -⟩ <;> rfl
  value _ := rfl

/-! ## Whole values -/

/-- A value of natural numbers of 64 bits, texts and truth values that is nested no deeper than
said. -/
inductive Plain : Nat → Json → Prop
  | null (depth : Nat) : Plain depth .null
  | bool (depth : Nat) (b : Bool) : Plain depth (.bool b)
  | natural (depth : Nat) {n : Nat} : n < 2 * Number.half64 → Plain depth (ofNat n)
  | text (depth : Nat) (s : String) : Plain depth (.text s)
  | array {depth : Nat} {items : List Json} :
    (∀ v ∈ items, Plain depth v) → Plain (depth + 1) (.array items)
  | object {depth : Nat} {members : List (String × Json)} :
    (∀ m ∈ members, Plain depth m.2) → Plain (depth + 1) (.object members)

/-- A value of one token. -/
theorem reads_scalar {depth : Nat} {cs : List Char} {token : Token} {v : Json}
    (h : Lexes Ends cs [token]) (hstep : ∀ frames e result, e = .value ∨ e = .firstItem →
      State.step ⟨frames, e, result⟩ token = State.add ⟨frames, e, result⟩ v) :
    Reads depth cs v := by
  refine ⟨[token], h, ?_⟩
  intro frames e result he _
  rw [List.foldlM_cons, hstep frames e result he]
  simp

/-- A value that is written as one word. -/
theorem reads_word {depth : Nat} {c : Char} {cs : List Char} {v : Json}
    (hc : isSeparator c = false)
    (hread : ∀ rest, readToken (c :: (cs ++ rest)) = some (.value v, rest)) :
    Reads depth (c :: cs) v := by
  have hlexes : Lexes Anything (c :: cs) [.value v] := lexes_token hc fun rest _ => hread rest
  refine reads_scalar hlexes.ends ?_
  rintro frames e result (rfl | rfl) <;> rfl

/-- The pieces of an array stand for its items. -/
theorem renderPrettyItems_eq (level : Nat) (items : List Json) :
    renderPrettyItems level items = items.map (renderPrettyAt level) := by
  induction items with
  | nil => rfl
  | cons v rest ih => rw [renderPrettyItems, ih, List.map_cons]

theorem renderPrettyMembers_eq (level : Nat) (members : List (String × Json)) :
    renderPrettyMembers level members =
      members.map fun m => renderText m.1 ++ ": " ++ renderPrettyAt level m.2 := by
  induction members with
  | nil => rfl
  | cons m rest ih => rw [renderPrettyMembers, ih, List.map_cons]

theorem readsPart_item {depth : Nat} {cs : List Char} {v : Json} (h : Reads depth cs v) :
    arrays.ReadsPart depth cs v := by
  obtain ⟨ts, hlexes, hsteps⟩ := h
  refine ⟨ts, hlexes, ?_⟩
  intro done outer e result he hdepth
  refine (hsteps (.array done :: outer) e result he.symm ?_).trans rfl
  rw [List.length_cons]
  exact hdepth

theorem readsPart_member {depth : Nat} {value : String} {m : String × Json}
    (h : Reads depth value.toList m.2) :
    objects.ReadsPart depth (renderText m.1 ++ ": " ++ value).toList m := by
  obtain ⟨ts, hlexes, hsteps⟩ := h
  have hcolon : Lexes Anything [':', ' '] [.colon] := by
    have htoken : Lexes Anything [':'] [.colon] :=
      lexes_token (by decide) fun _ _ => by simp [readToken]
    have hblank : Lexes Anything [' '] [] := lexes_blanks (by simp [isSeparator])
    exact htoken.append_closed hblank
  refine ⟨[.text (some m.1)] ++ ([.colon] ++ ts), ?_, ?_⟩
  · have hall := (lexes_renderText m.1).append_closed (hcolon.append_closed hlexes)
    simpa using hall
  · intro done outer e result he hdepth
    let named : Frame := .object (some done) (some m.1)
    have hname : State.step ⟨objects.frame done :: outer, e, result⟩ (.text (some m.1)) =
        some ⟨named :: outer, .colon, result⟩ := by
      rcases he with rfl | rfl <;> rfl
    have hcolon : State.step ⟨named :: outer, .colon, result⟩ .colon =
        some ⟨named :: outer, .value, result⟩ := rfl
    rw [List.singleton_append, foldlM_cons_of_some hname, List.singleton_append,
      foldlM_cons_of_some hcolon]
    refine (hsteps (named :: outer) .value result (.inl rfl) ?_).trans rfl
    rw [List.length_cons]
    exact hdepth

/-- A plain value is read back from its lines. -/
theorem reads_renderPrettyAt {depth : Nat} {v : Json} (h : Plain depth v) (level : Nat) :
    Reads depth (renderPrettyAt level v).toList v := by
  induction h generalizing level with
  | null depth =>
      have hword : (renderPrettyAt level .null).toList = ['n', 'u', 'l', 'l'] := by
        simp [renderPrettyAt, render]
      rw [hword]
      exact reads_word (by decide) fun _ => by simp [readToken, expect]
  | bool depth b =>
      cases b with
      | true =>
          have hword : (renderPrettyAt level (.bool true)).toList = ['t', 'r', 'u', 'e'] := by
            simp [renderPrettyAt, render]
          rw [hword]
          exact reads_word (by decide) fun _ => by simp [readToken, expect]
      | false =>
          have hword : (renderPrettyAt level (.bool false)).toList = ['f', 'a', 'l', 's', 'e'] := by
            simp [renderPrettyAt, render]
          rw [hword]
          exact reads_word (by decide) fun _ => by simp [readToken, expect]
  | natural depth hn =>
      refine reads_scalar (lexes_repr hn) ?_
      rintro frames e result (rfl | rfl) <;> rfl
  | text depth s =>
      refine reads_scalar (lexes_renderText s).ends ?_
      rintro frames e result (rfl | rfl) <;> rfl
  | @array depth items hitems ih =>
      rw [renderPrettyAt, renderPrettyItems_eq]
      exact arrays.reads_bracketed rfl rfl fun v hv => readsPart_item (ih v hv (level + 1))
  | @object depth members hmembers ih =>
      rw [renderPrettyAt, renderPrettyMembers_eq]
      exact objects.reads_bracketed rfl rfl fun m hm => readsPart_member (ih m hm (level + 1))

/-- A plain value is read back from its lines, if it is not nested too deep for a reader. -/
theorem read?_renderPretty {depth : Nat} {v : Json} (h : Plain depth v) (hdepth : depth ≤ maxDepth) :
    read? (renderPretty v) = some v := by
  obtain ⟨ts, hlexes, hsteps⟩ := reads_renderPrettyAt h 0
  have hfinal := hsteps [] .value none (.inl rfl) (by simpa using hdepth)
  unfold read?
  rw [show tokens (renderPretty v) = some ts from hlexes.all ends_nil]
  show (ts.foldlM State.step ⟨[], .value, none⟩).bind
    (fun final => if final.frames.isEmpty then final.result else none) = _
  rw [hfinal]
  rfl

end Concordance.Json
