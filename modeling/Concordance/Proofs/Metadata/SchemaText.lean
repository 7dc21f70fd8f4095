import Concordance.Proofs.Metadata.Codec
import Concordance.Proofs.Metadata.Migration
import Concordance.Proofs.Text.Runs

/-!
# Schemas as text

A schema that is read from a text has columns that can be written (`Column.Readable`), so it is read
back from the text that it is written as (`Schema.parse_display`).

What is written has no quotes and no semicolons but those of the text that was read
(`Schema.mem_of_mem_display`), and no text of a schema ends with a quote
(`Schema.not_parse_concat`).
-/

namespace Concordance

open Text

/-- The characters that a configuration gives a meaning of their own. -/
def quoting : List Char := ['\'', '"', ';']

theorem isBlank_of_mem_quoting {x : Char} (hx : x ∈ quoting) : isBlank x = false := by
  have hall : ∀ x ∈ quoting, isBlank x = false := by decide
  exact hall x hx

/-! ## Types of columns -/

namespace ColumnType

theorem parse_name (t : ColumnType) : parse t.name = .ok t := by
  rw [parse, upperAscii_eq]
  cases t <;> rfl

/-- The names that are read as a type, in upper case. -/
theorem upperAscii_of_parse {s : String} {t : ColumnType} (h : parse s = .ok t) :
    upperAscii (trim s) ∈
      ["INT8", "UINT8", "INT16", "UINT16", "INT32", "UINT32", "FLOAT32", "FLOAT"] := by
  unfold parse at h
  split at h
  all_goals first
    | next heq =>
        rw [heq]
        simp
    | cases h

/-- No name of a type ends with a quote. -/
theorem not_parse_concat {x : Char} (hx : x ∈ quoting) (cs : List Char) (t : ColumnType) :
    parse (String.ofList (cs ++ [x])) ≠ .ok t := by
  intro h
  have hname := upperAscii_of_parse h
  obtain ⟨more, hmore, -⟩ := trimChars_concat (isBlank_of_mem_quoting hx) cs
  rw [trim, String.toList_ofList, hmore, upperAscii_eq, String.toList_ofList, List.map_append,
    List.map_singleton] at hname
  have hlast : ∀ name ∈ ["INT8", "UINT8", "INT16", "UINT16", "INT32", "UINT32", "FLOAT32", "FLOAT"],
      ∀ x ∈ quoting, name.toList.getLast? ≠ some x.toUpper := by decide
  refine hlast _ hname x hx ?_
  rw [String.toList_ofList, List.getLast?_concat]

/-- The name of a type is a word without commas and equals signs. -/
theorem name_chars (t : ColumnType) :
    t.name.toList ≠ [] ∧
      ∀ x ∈ t.name.toList, isBlank x = false ∧ x ≠ ',' ∧ x ≠ '=' ∧ x ∉ quoting := by
  cases t <;> decide

end ColumnType

/-! ## Aggregates -/

namespace Aggregate

/-- What is read as an aggregate: its name, and its term type in parentheses. -/
theorem parse_eq_ok_iff {s : String} {a : Aggregate} :
    parse s = .ok a ↔ ∃ name inner, trimChars s.toList = name ++ '(' :: (inner ++ [')']) ∧
      '(' ∉ name ∧ lowerAscii (trim (String.ofList name)) = kindName a.kind ∧
      trim (String.ofList inner) = a.type ∧ a.type ≠ "" := by
  have hcut : splitOnce '(' (trim s) = (splitOnceChars '(' (trimChars s.toList)).map
      fun parts => (String.ofList parts.1, String.ofList parts.2) := by
    rw [splitOnce, trim, String.toList_ofList]
  unfold parse
  dsimp only
  rw [hcut]
  constructor
  · intro h
    split at h
    · next parts hsplit =>
        obtain ⟨⟨name, rest⟩, hparts, rfl⟩ := Option.map_eq_some_iff.mp hsplit
        obtain ⟨hs, hname⟩ := splitOnceChars_eq_some_iff.mp hparts
        dsimp only [Bind.bind, Except.bind] at h
        rw [String.toList_ofList] at h
        split at h
        · next inner hinner =>
            have hrest : rest = inner.reverse ++ [')'] := by
              rw [← List.reverse_cons, ← hinner, List.reverse_reverse]
            rw [hrest] at hs
            split at h
            · cases h
            · next hne =>
                rw [String.isEmpty_iff] at hne
                split at h
                all_goals first
                  | next hkind =>
                      cases h
                      exact ⟨name, inner.reverse, hs, hname, hkind, rfl, hne⟩
                  | cases h
        · cases h
    · cases h
  · rintro ⟨name, inner, hs, hname, hkind, htype, hne⟩
    rw [hs, splitOnceChars_append hname]
    dsimp only [Option.map_some, Bind.bind, Except.bind]
    rw [String.toList_ofList, List.reverse_concat]
    simp only [List.reverse_reverse, htype, hkind]
    rw [if_neg (by rwa [String.isEmpty_iff])]
    obtain ⟨kind, type⟩ := a
    cases kind <;> rfl
/-- Whether an aggregate can be read: its term type is trimmed and has no comma. -/
structure Readable (a : Aggregate) : Prop where
  ne : a.type ≠ ""
  trimmed : Trimmed a.type.toList
  comma : ',' ∉ a.type.toList

theorem toList_display (a : Aggregate) :
    a.display.toList = (kindName a.kind).toList ++ '(' :: (a.type.toList ++ [')']) := by
  simp [display]

theorem kindName_chars (k : AggregateKind) :
    kindName k ≠ "" ∧ ∀ x ∈ (kindName k).toList,
      isBlank x = false ∧ x ≠ ',' ∧ x ≠ '(' ∧ x ∉ quoting := by
  cases k <;> decide

theorem trimmed_display (a : Aggregate) : Trimmed a.display.toList := by
  obtain ⟨hne, hchars⟩ := kindName_chars a.kind
  rw [toList_display]
  constructor
  · rw [endsRun_append (by rwa [Ne, String.toList_eq_nil_iff])]
    exact fun x hx => (hchars x (List.mem_of_mem_head? hx)).1
  · rw [List.reverse_append, List.reverse_cons, List.reverse_concat]
    exact endsRun_cons.mpr (by decide)

/-- An aggregate is read back, with blanks in front. -/
theorem parse_display {a : Aggregate} (h : a.Readable) {s : String}
    (hs : trimChars s.toList = a.display.toList) : parse s = .ok a := by
  refine parse_eq_ok_iff.mpr ⟨(kindName a.kind).toList, a.type.toList, hs.trans a.toList_display,
    fun hmem => ((kindName_chars a.kind).2 _ hmem).2.2.1 rfl, ?_, ?_, h.ne⟩
  · rw [String.ofList_toList, lowerAscii_eq]
    cases a.kind <;> rfl
  · rw [trim, String.toList_ofList, h.trimmed.trimChars_eq, String.ofList_toList]

/-- An aggregate that was read can be read, and its term type is a part of the text. -/
theorem readable_of_parse {s : String} {a : Aggregate} (h : parse s = .ok a)
    (hs : ',' ∉ s.toList) : a.Readable ∧ ∀ x ∈ a.type.toList, x ∈ s.toList := by
  obtain ⟨name, inner, htrim, -, -, htype, hne⟩ := parse_eq_ok_iff.mp h
  have hinner : a.type.toList = trimChars inner := by
    rw [← htype, trim, String.toList_ofList, String.toList_ofList]
  have hmem : ∀ x ∈ a.type.toList, x ∈ s.toList := by
    intro x hx
    rw [hinner] at hx
    refine mem_of_mem_trimChars ?_
    rw [htrim]
    simp [mem_of_mem_trimChars hx]
  exact ⟨⟨hne, hinner ▸ trimmed_trimChars inner, fun hcomma => hs (hmem _ hcomma)⟩, hmem⟩

theorem not_parse_concat {x : Char} (hx : x ∈ quoting) (cs : List Char) (a : Aggregate) :
    parse (String.ofList (cs ++ [x])) ≠ .ok a := by
  intro h
  obtain ⟨name, inner, htrim, -⟩ := parse_eq_ok_iff.mp h
  obtain ⟨more, hmore, -⟩ := trimChars_concat (isBlank_of_mem_quoting hx) cs
  rw [String.toList_ofList, hmore, ← List.cons_append, ← List.append_assoc] at htrim
  obtain ⟨-, rfl⟩ := List.append_singleton_inj.mp htrim
  exact absurd hx (by decide)

end Aggregate

/-! ## Columns -/

/-- Whether a column can be read: its name is a word without commas and equals signs. -/
structure Column.Readable (c : Column) : Prop where
  ne : c.name ≠ ""
  chars : ∀ x ∈ c.name.toList, isBlank x = false ∧ x ≠ ',' ∧ x ≠ '='
  aggregate : ∀ a ∈ c.aggregate, a.Readable

namespace Schema

/-- Whether a text starts a column: its name and its type. -/
def Heads (c : Column) (head : String) : Prop :=
  ∃ type, words head = [c.name, type] ∧ ColumnType.parse type = .ok c.type

/-- Reads the name and the type of a column. -/
def parseHead (declaration head : String) (aggregate : Option Aggregate) : Except Error Column :=
  let malformed := Error.config s!"malformed metadata column '{declaration}'"
  match words head with
  | [] => throw malformed
  | [name] => throw (.config s!"metadata column '{name}' without type")
  | name :: type :: rest => do
    let type ← ColumnType.parse type
    if rest.isEmpty then return ⟨name, type, aggregate⟩ else throw malformed

theorem parseColumn_eq (d : String) :
    parseColumn d =
      match splitOnceChars '=' d.toList with
      | none => parseHead d d none
      | some (before, after) => Aggregate.parse (String.ofList after) >>= fun a =>
        parseHead d (trim (String.ofList before)) (some a) := by
  unfold parseColumn
  dsimp only
  rw [splitOnce]
  cases splitOnceChars '=' d.toList with
  | none => rfl
  | some parts =>
      obtain ⟨before, after⟩ := parts
      cases hparse : Aggregate.parse (String.ofList after) with
      | error e => simp only [Option.map_some, Bind.bind, Except.bind, hparse]
      | ok a =>
          rcases hwords : words (trim (String.ofList before)) with - | ⟨name, - | ⟨type, rest⟩⟩
          · simp only [Option.map_some, Bind.bind, Except.bind, pure, Except.pure, parseHead, hparse,
              hwords]
          · simp only [Option.map_some, Bind.bind, Except.bind, pure, Except.pure, parseHead, hparse,
              hwords]
          · cases htype : ColumnType.parse type <;>
              simp only [Option.map_some, Bind.bind, Except.bind, pure, Except.pure, parseHead,
                hparse, hwords, htype]

theorem parseHead_eq_ok_iff {declaration head : String} {aggregate : Option Aggregate}
    {c : Column} :
    parseHead declaration head aggregate = .ok c ↔ Heads c head ∧ c.aggregate = aggregate := by
  unfold parseHead
  constructor
  · intro h
    split at h
    · cases h
    · cases h
    · next name type rest hwords =>
        obtain ⟨t, ht, h⟩ := Fallible.bind_eq_ok.mp h
        split at h
        · next hrest =>
            cases h
            rw [List.isEmpty_iff.mp hrest] at hwords
            exact ⟨⟨type, hwords, ht⟩, rfl⟩
        · cases h
  · rintro ⟨⟨type, hwords, ht⟩, rfl⟩
    rw [hwords]
    exact Fallible.bind_of_ok ht _

/-- What is read as a column: a name and a type, and an aggregate behind an equals sign. -/
theorem parseColumn_eq_ok_iff {d : String} {c : Column} :
    parseColumn d = .ok c ↔
      ('=' ∉ d.toList ∧ Heads c d ∧ c.aggregate = none) ∨
      ∃ before after a, d.toList = before ++ '=' :: after ∧ '=' ∉ before ∧
        Heads c (trim (String.ofList before)) ∧ Aggregate.parse (String.ofList after) = .ok a ∧
        c.aggregate = some a := by
  rw [parseColumn_eq]
  cases hcut : splitOnceChars '=' d.toList with
  | none =>
      rw [splitOnceChars_eq_none_iff] at hcut
      dsimp only
      rw [parseHead_eq_ok_iff]
      constructor
      · exact fun h => .inl ⟨hcut, h⟩
      · rintro (h | ⟨before, after, a, hd, -⟩)
        · exact h.2
        · exact absurd (hd ▸ by simp) hcut
  | some parts =>
      obtain ⟨before, after⟩ := parts
      obtain ⟨hd, hbefore⟩ := splitOnceChars_eq_some_iff.mp hcut
      dsimp only
      rw [Fallible.bind_eq_ok]
      constructor
      · rintro ⟨a, ha, h⟩
        rw [parseHead_eq_ok_iff] at h
        exact .inr ⟨before, after, a, hd, hbefore, h.1, ha, h.2⟩
      · rintro (h | ⟨before', after', a, hd', hbefore', hheads, ha, haggregate⟩)
        · exact absurd (hd ▸ by simp) h.1
        · rw [splitOnceChars_eq_some_iff.mpr ⟨hd', hbefore'⟩] at hcut
          cases hcut
          exact ⟨a, ha, parseHead_eq_ok_iff.mpr ⟨hheads, haggregate⟩⟩

/-- The name and the type of a column as they are written. -/
def headChars (c : Column) : List Char := c.name.toList ++ ' ' :: c.type.name.toList

theorem toList_displayColumn (c : Column) :
    (displayColumn c).toList = headChars c ++
      match c.aggregate with
      | none => []
      | some a => ' ' :: '=' :: ' ' :: a.display.toList := by
  unfold displayColumn headChars
  cases c.aggregate <;> simp

section Readable

variable {c : Column}

theorem heads_headChars (h : c.Readable) : Heads c (String.ofList (headChars c)) := by
  obtain ⟨htype, htypeChars⟩ := c.type.name_chars
  have hname : c.name.toList ≠ [] := by
    rw [Ne, String.toList_eq_nil_iff]
    exact h.ne
  refine ⟨c.type.name, ?_, c.type.parse_name⟩
  have hwords : wordsFrom [] (c.type.name.toList ++ []) = wordsFrom ([] ++ c.type.name.toList) [] :=
    wordsFrom_append (fun x hx => (htypeChars x hx).1) []
  rw [words, String.toList_ofList, headChars, wordsFrom_append fun x hx => (h.chars x hx).1,
    List.nil_append, wordsFrom, if_pos (by decide), if_neg (by rwa [List.isEmpty_iff]),
    String.ofList_toList]
  rw [List.append_nil, List.nil_append] at hwords
  rw [hwords, wordsFrom, if_neg (by rwa [List.isEmpty_iff]), String.ofList_toList]

theorem trimmed_headChars (h : c.Readable) : Trimmed (headChars c) := by
  obtain ⟨htype, htypeChars⟩ := c.type.name_chars
  constructor
  · rw [headChars, endsRun_append]
    · exact fun x hx => (h.chars x (List.mem_of_mem_head? hx)).1
    · rw [Ne, String.toList_eq_nil_iff]
      exact h.ne
  · rw [headChars, List.reverse_append, List.reverse_cons, List.append_assoc, endsRun_append]
    · intro x hx
      exact (htypeChars x (List.mem_reverse.mp (List.mem_of_mem_head? hx))).1
    · rwa [Ne, List.reverse_eq_nil_iff]

theorem mem_headChars {x : Char} (h : x ∈ headChars c) :
    x ∈ c.name.toList ∨ x = ' ' ∨ x ∈ c.type.name.toList := by
  rcases List.mem_append.mp h with h | h
  · exact .inl h
  · exact .inr (List.mem_cons.mp h)

/-- A column is read back. -/
theorem parseColumn_displayColumn (h : c.Readable) : parseColumn (displayColumn c) = .ok c := by
  have hequals : '=' ∉ headChars c := by
    intro hmem
    rcases mem_headChars hmem with hmem | hmem | hmem
    · exact (h.chars _ hmem).2.2 rfl
    · cases hmem
    · exact (c.type.name_chars.2 _ hmem).2.2.1 rfl
  have htext := toList_displayColumn c
  refine parseColumn_eq_ok_iff.mpr ?_
  cases haggregate : c.aggregate with
  | none =>
      rw [haggregate, List.append_nil] at htext
      refine .inl ⟨by rwa [htext], ?_, rfl⟩
      have hheads := heads_headChars h
      rwa [← htext, String.ofList_toList] at hheads
  | some a =>
      rw [haggregate] at htext
      have ha := h.aggregate a haggregate
      refine .inr ⟨headChars c ++ [' '], ' ' :: a.display.toList, a, ?_, ?_, ?_, ?_, rfl⟩
      · rw [htext, List.append_assoc]
        rfl
      · simpa using hequals
      · have htrim : trimChars (headChars c ++ [' ']) = headChars c :=
          (trimChars_run (fun _ hx => nomatch hx) (by decide) (trimmed_headChars h) :
            trimChars ([] ++ headChars c ++ [' ']) = headChars c)
        rw [trim, String.toList_ofList, htrim]
        exact heads_headChars h
      · refine Aggregate.parse_display ha ?_
        rw [String.toList_ofList]
        exact a.trimmed_display.trimChars_append (show ∀ x ∈ [' '], isBlank x = true by decide)

theorem trimmed_displayColumn (h : c.Readable) : Trimmed (displayColumn c).toList := by
  have hhead := trimmed_headChars h
  have hne : headChars c ≠ [] := by simp [headChars]
  rw [toList_displayColumn]
  cases c.aggregate with
  | none => rwa [List.append_nil]
  | some a =>
      refine ⟨(endsRun_append hne).mpr hhead.1, ?_⟩
      rw [List.reverse_append, List.reverse_cons, List.reverse_cons, List.reverse_cons,
        List.append_assoc, List.append_assoc, List.append_assoc, endsRun_append]
      · exact a.trimmed_display.2
      · simp [Aggregate.toList_display]

theorem comma_notMem_displayColumn (h : c.Readable) : ',' ∉ (displayColumn c).toList := by
  rw [toList_displayColumn, List.mem_append, not_or]
  constructor
  · intro hmem
    rcases mem_headChars hmem with hmem | hmem | hmem
    · exact (h.chars _ hmem).2.1 rfl
    · cases hmem
    · exact (c.type.name_chars.2 _ hmem).2.1 rfl
  · cases haggregate : c.aggregate with
    | none => exact List.not_mem_nil
    | some a =>
        have hkind : ',' ∉ (Aggregate.kindName a.kind).toList :=
          fun hmem => ((Aggregate.kindName_chars a.kind).2 _ hmem).2.1 rfl
        simp [Aggregate.toList_display, hkind, (h.aggregate a haggregate).comma]

end Readable

/-- A name is a word of its text. -/
theorem Heads.name {c : Column} {head : String} (h : Heads c head) :
    c.name ≠ "" ∧ ∀ x ∈ c.name.toList, isBlank x = false ∧ x ∈ head.toList := by
  obtain ⟨type, hwords, -⟩ := h
  have hmem : c.name ∈ wordsFrom [] head.toList := by
    rw [← words, hwords]
    exact List.mem_cons_self
  obtain ⟨hne, hchars⟩ := of_mem_wordsFrom hmem fun _ hx => nomatch hx
  exact ⟨hne, fun x hx => (hchars x hx).imp_right fun hor => hor.resolve_left List.not_mem_nil⟩

/-- The quotes and semicolons of a column stand in its name or in its term type. -/
theorem mem_of_mem_displayColumn {c : Column} {x : Char} (hx : x ∈ quoting)
    (h : x ∈ (displayColumn c).toList) :
    x ∈ c.name.toList ∨ ∃ a, c.aggregate = some a ∧ x ∈ a.type.toList := by
  rw [toList_displayColumn, List.mem_append] at h
  rcases h with h | h
  · rcases mem_headChars h with h | rfl | h
    · exact .inl h
    · exact absurd hx (by decide)
    · exact absurd hx (c.type.name_chars.2 x h).2.2.2
  · cases haggregate : c.aggregate with
    | none =>
        rw [haggregate] at h
        cases h
    | some a =>
        rw [haggregate] at h
        dsimp only at h
        rw [Aggregate.toList_display] at h
        have hne : ∀ y ∈ [' ', '=', '(', ')'], x ≠ y := by
          have hall : ∀ x ∈ quoting, ∀ y ∈ [' ', '=', '(', ')'], x ≠ y := by decide
          exact hall x hx
        simp only [List.forall_mem_cons] at hne
        simp only [List.mem_cons, hne, List.mem_append, false_or, List.not_mem_nil, or_false] at h
        rcases h with h | h
        · exact absurd hx ((Aggregate.kindName_chars a.kind).2 x h).2.2.2
        · exact .inr ⟨a, rfl, h⟩

theorem mem_displayColumn {c : Column} {x : Char}
    (h : x ∈ c.name.toList ∨ ∃ a, c.aggregate = some a ∧ x ∈ a.type.toList) :
    x ∈ (displayColumn c).toList := by
  rw [toList_displayColumn]
  rcases h with h | ⟨a, ha, h⟩
  · simp [headChars, h]
  · simp [ha, Aggregate.toList_display, h]

/-- A column that was read can be read, and it has no quotes or semicolons but those of its text. -/
theorem readable_of_parseColumn {d : String} {c : Column} (h : parseColumn d = .ok c)
    (hd : ',' ∉ d.toList) :
    c.Readable ∧ ∀ x ∈ quoting, x ∈ (displayColumn c).toList → x ∈ d.toList := by
  rcases parseColumn_eq_ok_iff.mp h with ⟨hequals, hheads, hnone⟩ |
    ⟨before, after, a, hcut, hequals, hheads, ha, hsome⟩
  · obtain ⟨hne, hchars⟩ := hheads.name
    constructor
    · refine ⟨hne, fun x hx => ?_, by simp [hnone]⟩
      obtain ⟨hblank, hmem⟩ := hchars x hx
      exact ⟨hblank, fun heq => hd (heq ▸ hmem), fun heq => hequals (heq ▸ hmem)⟩
    · intro x hx hmem
      rcases mem_of_mem_displayColumn hx hmem with hmem | ⟨a, ha, -⟩
      · exact (hchars x hmem).2
      · cases hnone.symm.trans ha
  · obtain ⟨hne, hchars⟩ := hheads.name
    have hbefore : ∀ x ∈ c.name.toList, x ∈ before := by
      intro x hx
      have hmem := (hchars x hx).2
      rw [trim, String.toList_ofList, String.toList_ofList] at hmem
      exact mem_of_mem_trimChars hmem
    rw [hcut, List.mem_append, List.mem_cons, not_or, not_or] at hd
    obtain ⟨hreadable, htype⟩ := Aggregate.readable_of_parse ha (by
      rw [String.toList_ofList]
      exact hd.2.2)
    rw [String.toList_ofList] at htype
    constructor
    · refine ⟨hne, fun x hx => ?_, ?_⟩
      · exact ⟨(hchars x hx).1, fun heq => hd.1 (heq ▸ hbefore x hx),
          fun heq => hequals (heq ▸ hbefore x hx)⟩
      · rw [hsome]
        rintro b ⟨⟩
        exact hreadable
    · intro x hx hmem
      rw [hcut]
      rcases mem_of_mem_displayColumn hx hmem with hmem | ⟨b, hb, hmem⟩
      · simp [hbefore x hmem]
      · cases hsome.symm.trans hb
        simp [htype x hmem]

/-- No text of a column ends with a quote. -/
theorem not_parseColumn_concat {x : Char} (hx : x ∈ quoting) (cs : List Char) (c : Column) :
    parseColumn (String.ofList (cs ++ [x])) ≠ .ok c := by
  intro h
  rcases parseColumn_eq_ok_iff.mp h with ⟨-, ⟨type, hwords, htype⟩, -⟩ |
    ⟨before, after, a, hcut, -, -, ha, -⟩
  · obtain ⟨words, last, hlast⟩ := wordsFrom_concat (isBlank_of_mem_quoting hx) [] cs
    rw [Text.words, String.toList_ofList, hlast] at hwords
    obtain ⟨-, hlast⟩ := List.append_singleton_inj.mp
      (hwords.trans (List.singleton_append (l := [type])).symm)
    exact ColumnType.not_parse_concat hx last c.type (hlast ▸ htype)
  · rw [String.toList_ofList] at hcut
    rcases List.eq_nil_or_concat' after with rfl | ⟨after, y, rfl⟩
    · obtain ⟨-, rfl⟩ := List.append_singleton_inj.mp hcut
      exact absurd hx (by decide)
    · rw [← List.cons_append, ← List.append_assoc] at hcut
      obtain ⟨-, rfl⟩ := List.append_singleton_inj.mp hcut
      exact Aggregate.not_parse_concat hx after a ha

/-! ## Schemas -/

theorem eq_empty_of_isEmpty {s : Schema} (h : s.isEmpty = true) : s = .empty := by
  obtain ⟨columns, hvalid⟩ := s
  cases List.isEmpty_iff.mp h
  rfl

theorem toList_display (s : Schema) :
    s.display.toList =
      [',', ' '].intercalate (s.columns.map fun c => (displayColumn c).toList) := by
  rw [display, String.toList_intercalate, List.map_map]
  rfl

theorem mem_of_mem_intercalate {separator : List Char} {texts : List (List Char)} {x : Char}
    (h : x ∈ separator.intercalate texts) : x ∈ separator ∨ ∃ text ∈ texts, x ∈ text := by
  induction texts with
  | nil => cases h
  | cons text texts ih =>
      cases texts with
      | nil => exact .inr ⟨text, List.mem_cons_self, by rwa [List.intercalate_singleton] at h⟩
      | cons next texts =>
          rw [List.intercalate_cons_cons, List.mem_append, List.mem_append] at h
          rcases h with (h | h) | h
          · exact .inr ⟨text, List.mem_cons_self, h⟩
          · exact .inl h
          · exact (ih h).imp_right fun ⟨t, ht, hx⟩ => ⟨t, List.mem_cons_of_mem _ ht, hx⟩

theorem mem_intercalate {separator text : List Char} {texts : List (List Char)} {x : Char}
    (htext : text ∈ texts) (hx : x ∈ text) : x ∈ separator.intercalate texts := by
  induction texts with
  | nil => cases htext
  | cons first texts ih =>
      cases texts with
      | nil =>
          rw [List.mem_singleton.mp htext] at hx
          rwa [List.intercalate_singleton]
      | cons next texts =>
          rw [List.intercalate_cons_cons, List.mem_append, List.mem_append]
          rcases List.mem_cons.mp htext with rfl | htext
          · exact .inl (.inl hx)
          · exact .inr (ih htext)

/-- The quotes and semicolons of a schema stand in its names and its term types. -/
theorem mem_display_iff {s : Schema} {x : Char} (hx : x ∈ quoting) :
    x ∈ s.display.toList ↔ ∃ c ∈ s.columns,
      x ∈ c.name.toList ∨ ∃ a, c.aggregate = some a ∧ x ∈ a.type.toList := by
  rw [toList_display]
  constructor
  · intro h
    rcases mem_of_mem_intercalate h with h | ⟨text, htext, h⟩
    · have hall : ∀ x ∈ quoting, x ∉ [',', ' '] := by decide
      exact absurd h (hall x hx)
    · obtain ⟨c, hc, rfl⟩ := List.mem_map.mp htext
      exact ⟨c, hc, mem_of_mem_displayColumn hx h⟩
  · rintro ⟨c, hc, h⟩
    exact mem_intercalate (List.mem_map_of_mem hc) (mem_displayColumn h)

/-- Trimmed texts without commas are the pieces between the commas that join them. -/
theorem map_trimChars_splitList {texts : List (List Char)}
    (htexts : ∀ text ∈ texts, Trimmed text ∧ ',' ∉ text) (hne : texts ≠ []) {blanks : List Char}
    (hblanks : ∀ x ∈ blanks, isBlank x = true) :
    (splitList ',' (blanks ++ [',', ' '].intercalate texts)).map trimChars = texts := by
  induction texts generalizing blanks with
  | nil => exact absurd rfl hne
  | cons text texts ih =>
      obtain ⟨htext, hcomma⟩ := htexts text List.mem_cons_self
      have hnot : ',' ∉ blanks ++ text := by
        rw [List.mem_append, not_or]
        exact ⟨fun h => absurd (hblanks _ h) (by decide), hcomma⟩
      cases texts with
      | nil =>
          rw [List.intercalate_singleton, splitList_of_notMem hnot, List.map_singleton,
            htext.trimChars_append hblanks]
      | cons next texts =>
          have hrest := ih (fun t ht => htexts t (List.mem_cons_of_mem _ ht)) (List.cons_ne_nil _ _)
            (show ∀ x ∈ [' '], isBlank x = true by decide)
          have hcut : blanks ++ [',', ' '].intercalate (text :: next :: texts) =
              (blanks ++ text) ++ ',' :: ([' '] ++ [',', ' '].intercalate (next :: texts)) := by
            rw [List.intercalate_cons_cons]
            simp
          rw [hcut, splitList_append hnot, List.map_cons, htext.trimChars_append hblanks, hrest]

/-- The declarations of a text: its pieces between commas that are not blank. -/
def declarations (s : String) : List String :=
  ((splitAll ',' s).map trim).filter fun d => !d.isEmpty

theorem parse_eq_ok_iff {v : String} {s : Schema} :
    parse v = .ok s ↔ (declarations v).mapM parseColumn = .ok s.columns := by
  unfold parse
  dsimp only
  rw [← declarations]
  constructor
  · intro h
    obtain ⟨columns, hcolumns, h⟩ := Fallible.bind_eq_ok.mp h
    rw [Fallible.mapError_eq_ok] at h
    rwa [ofColumns_eq_ok h]
  · intro h
    refine (Fallible.bind_of_ok h _).trans ?_
    rw [ofColumns_columns]
    rfl

theorem mem_declarations {v d : String} (h : d ∈ declarations v) :
    ',' ∉ d.toList ∧ ∀ x ∈ d.toList, x ∈ v.toList := by
  obtain ⟨h, -⟩ := List.mem_filter.mp h
  obtain ⟨piece, hpiece, rfl⟩ := List.mem_map.mp h
  obtain ⟨chars, hchars, rfl⟩ := List.mem_map.mp hpiece
  have hmem : ∀ x ∈ (trim (String.ofList chars)).toList, x ∈ v.toList ∧ x ≠ ',' := by
    intro x hx
    rw [trim, String.toList_ofList, String.toList_ofList] at hx
    exact mem_of_mem_splitList hchars (mem_of_mem_trimChars hx)
  exact ⟨fun hcomma => (hmem _ hcomma).2 rfl, fun x hx => (hmem x hx).1⟩

section Parse

variable {v : String} {s : Schema}

theorem readable_of_parse (h : parse v = .ok s) : ∀ c ∈ s.columns, c.Readable := by
  intro c hc
  obtain ⟨d, hd, hparse⟩ := Fallible.exists_of_mem_mapM (parse_eq_ok_iff.mp h) hc
  exact (readable_of_parseColumn hparse (mem_declarations hd).1).1

/-- Quotes and semicolons of a schema that was read stand in its text. -/
theorem mem_of_mem_display (h : parse v = .ok s) {x : Char} (hx : x ∈ quoting)
    (hmem : x ∈ s.display.toList) : x ∈ v.toList := by
  obtain ⟨c, hc, hmem⟩ := (mem_display_iff hx).mp hmem
  have hmem := mem_displayColumn hmem
  obtain ⟨d, hd, hparse⟩ := Fallible.exists_of_mem_mapM (parse_eq_ok_iff.mp h) hc
  obtain ⟨hcomma, hsub⟩ := mem_declarations hd
  exact hsub x ((readable_of_parseColumn hparse hcomma).2 x hx hmem)

/-- No text of a schema ends with a quote or a semicolon. -/
theorem not_parse_concat {x : Char} (hx : x ∈ quoting) (cs : List Char) (s : Schema) :
    parse (String.ofList (cs ++ [x])) ≠ .ok s := by
  intro h
  have hcomma : x ≠ ',' := by
    rintro rfl
    exact absurd hx (by decide)
  obtain ⟨piece, hpiece⟩ := splitList_concat hcomma cs
  obtain ⟨more, hmore, -⟩ := trimChars_concat (isBlank_of_mem_quoting hx) piece
  have hd : String.ofList (more ++ [x]) ∈ declarations (String.ofList (cs ++ [x])) := by
    refine List.mem_filter.mpr ⟨List.mem_map.mpr ⟨String.ofList (piece ++ [x]), ?_, ?_⟩, ?_⟩
    · rw [splitAll, String.toList_ofList]
      exact List.mem_map_of_mem hpiece
    · rw [trim, String.toList_ofList, hmore]
    · simp
  obtain ⟨c, hc⟩ := Fallible.ok_of_mapM_eq_ok (parse_eq_ok_iff.mp h) hd
  exact not_parseColumn_concat hx more c hc

/-- A schema that can be read is read back. -/
theorem parse_display (h : ∀ c ∈ s.columns, c.Readable) : parse s.display = .ok s := by
  have hdeclarations : declarations s.display = s.columns.map displayColumn := by
    by_cases hempty : s.columns = []
    · rw [display, hempty]
      rfl
    · have htexts : ∀ text ∈ s.columns.map fun c => (displayColumn c).toList,
          Trimmed text ∧ ',' ∉ text := by
        intro text htext
        obtain ⟨c, hc, rfl⟩ := List.mem_map.mp htext
        exact ⟨trimmed_displayColumn (h c hc), comma_notMem_displayColumn (h c hc)⟩
      have hpieces := map_trimChars_splitList htexts (by simpa using hempty)
        (show ∀ x ∈ [], isBlank x = true from fun _ hx => nomatch hx)
      rw [List.nil_append, ← toList_display] at hpieces
      have htrim : (splitAll ',' s.display).map trim = s.columns.map displayColumn := by
        have hofList := congrArg (List.map String.ofList) hpieces
        rw [List.map_map, List.map_map] at hofList
        rw [splitAll, List.map_map]
        simpa [Function.comp_def, trim] using hofList
      rw [declarations, htrim, List.filter_eq_self]
      intro d hd
      obtain ⟨c, -, rfl⟩ := List.mem_map.mp hd
      simp [← String.toList_eq_nil_iff, toList_displayColumn, headChars]
  rw [parse_eq_ok_iff, hdeclarations, List.mapM_map]
  have hmap := Fallible.mapM_eq_ok_map (f := parseColumn ∘ displayColumn) (g := id)
    fun c hc => parseColumn_displayColumn (h c hc)
  rwa [List.map_id] at hmap

end Parse

end Schema

end Concordance
