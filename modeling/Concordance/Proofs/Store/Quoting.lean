import Concordance.Proofs.Store.Placement

/-!
# Quotes in configurations

A path and a schema are written between single quotes, whatever they hold, and a value between
quotes is read up to the first quote of their kind. So a single quote in one of them cuts it short,
and what follows is read as settings of its own.

- `not_readsBack_of_schema`: no setting behind a cut schema is a text of the whole schema, which
  would have to end with a quote.
- `not_readsBack_of_path`: no setting behind a cut path is a path that is spelled like it, not even
  one with other slashes and dots.
- `display_read_back_iff`: so a configuration is read back exactly if it has no single quotes.
-/

namespace Concordance.Config

open Text

/-! ## Paths -/

/-- Whether a piece of a path is a name: empty pieces and `.` lead nowhere. -/
def isName (piece : List Char) : Bool := piece ≠ [] && piece ≠ ['.']

/-- What a path is compared by: whether it starts at the root, whether it starts with `.`, and its
names. -/
def pathParts (path : String) : Bool × Bool × List (List Char) :=
  let pieces := splitList '/' path.toList
  (path.toList.head? = some '/', pieces.head? = some ['.'], pieces.filter isName)

/-- Whether paths differ as soon as they differ in the places of a character. -/
def isDistinctive (c : Char) : Bool := c ≠ '/' && c ≠ '.'

theorem flatten_splitList (separator : Char) (cs : List Char) :
    (splitList separator cs).flatten = cs.filter (· ≠ separator) := by
  induction cs with
  | nil => rfl
  | cons c cs ih =>
      rw [splitList]
      split
      · next heq =>
          rw [List.filter_cons_of_neg (by simp [heq]), ← ih]
          rfl
      · next hne =>
          rw [List.filter_cons_of_pos (by simp [hne]), ← ih]
          split
          · next hnil => exact absurd hnil (splitList_ne_nil cs)
          · next hpieces =>
              rw [hpieces]
              rfl

theorem filter_flatten_names (pieces : List (List Char)) :
    (pieces.filter isName).flatten.filter isDistinctive = pieces.flatten.filter isDistinctive := by
  induction pieces with
  | nil => rfl
  | cons piece pieces ih =>
      rw [List.flatten_cons, List.filter_append, List.filter_cons]
      split
      · rw [List.flatten_cons, List.filter_append, ih]
      · next hname =>
          have hpiece : piece.filter isDistinctive = [] := by
            simp only [isName, Bool.and_eq_true, decide_eq_true_eq, not_and, not_not] at hname
            by_cases hnil : piece = []
            · rw [hnil]
              rfl
            · rw [hname hnil]
              rfl
          rw [hpiece, List.nil_append, ih]

theorem filter_eq_of_pathParts_eq {a b : String} (h : pathParts a = pathParts b) :
    a.toList.filter isDistinctive = b.toList.filter isDistinctive := by
  have hfilter : ∀ s : String,
      ((splitList '/' s.toList).filter isName).flatten.filter isDistinctive =
        s.toList.filter isDistinctive := by
    intro s
    rw [filter_flatten_names, flatten_splitList, List.filter_filter]
    refine List.filter_congr fun c _ => ?_
    rw [isDistinctive, Bool.and_right_comm, Bool.and_self]
  rw [← hfilter, ← hfilter, (Prod.mk.inj (Prod.mk.inj h).2).2]

/-! ## Reading back -/

/-- Configurations that are equal but for the spelling of their paths. -/
def Same (a b : Config) : Prop :=
  a.path.map pathParts = b.path.map pathParts ∧ { a with path := b.path } = b

/-- The text of a configuration is read as an equal configuration. -/
def ReadsBack (c : Config) : Prop := ∃ again, parse c.display = .ok again ∧ again.Same c

/-- No single quote stands in the path, in a column's name or in the term type of an aggregate. -/
structure Unquoted (c : Config) : Prop where
  path : ∀ path ∈ c.path, '\'' ∉ path.toList
  name : ∀ column ∈ c.schema.columns, '\'' ∉ column.name.toList
  type : ∀ column ∈ c.schema.columns, ∀ a ∈ column.aggregate, '\'' ∉ a.type.toList

theorem unquoted_iff {c : Config} : c.Unquoted ↔
    (∀ path ∈ c.path, '\'' ∉ path.toList) ∧ '\'' ∉ c.schema.display.toList := by
  rw [Schema.mem_display_iff (by decide)]
  constructor
  · rintro ⟨hpath, hname, htype⟩
    refine ⟨hpath, ?_⟩
    rintro ⟨column, hcolumn, hmem | ⟨a, ha, hmem⟩⟩
    · exact hname column hcolumn hmem
    · exact htype column hcolumn a ha hmem
  · rintro ⟨hpath, hschema⟩
    exact ⟨hpath, fun column hcolumn hmem => hschema ⟨column, hcolumn, .inl hmem⟩,
      fun column hcolumn a ha hmem => hschema ⟨column, hcolumn, .inr ⟨a, ha, hmem⟩⟩⟩

/-- The path and the schema that are read stand in settings. -/
theorem mem_pairs_of_parse {s : String} {c : Config} (h : parse s = .ok c) : ∃ settings,
    pairs s = .ok settings ∧ (∀ path ∈ c.path, ("path", path) ∈ settings) ∧
      (c.schema ≠ .empty → ∃ text, ("metadata", text) ∈ settings ∧
        Schema.parse text = .ok c.schema) := by
  obtain ⟨settings, hsettings, hrun⟩ := Fallible.bind_eq_ok.mp h
  rw [Fallible.mapError_eq_ok] at hsettings
  refine ⟨settings, hsettings, Fallible.foldlM_keeps (P := fun c : Config =>
    (∀ path ∈ c.path, ("path", path) ∈ settings) ∧ (c.schema ≠ .empty →
      ∃ text, ("metadata", text) ∈ settings ∧ Schema.parse text = .ok c.schema)) ?_ hrun
    ⟨nofun, fun hne => absurd rfl hne⟩⟩
  rintro c ⟨key, value⟩ hmem c' hset ⟨hpath, hschema⟩
  rcases set_eq_ok hset with ⟨rfl, rfl⟩ | ⟨n, -, rfl⟩ | ⟨b, rfl⟩ | ⟨s, rfl, hs, rfl⟩ | ⟨e, rfl⟩ |
    ⟨n, -, rfl⟩
  · refine ⟨?_, hschema⟩
    rintro path ⟨⟩
    exact hmem
  · exact ⟨hpath, hschema⟩
  · exact ⟨hpath, hschema⟩
  · exact ⟨hpath, fun _ => ⟨value, hmem, hs⟩⟩
  · exact ⟨hpath, hschema⟩
  · exact ⟨hpath, hschema⟩

/-! ## Values in the text of a configuration -/

section Body

variable {c : Config} {value : List Char} {quote : Char}

theorem quote_apart (hquote : quote ∈ ['\'', '"']) :
    quote ∈ quoting ∧ quote ≠ '=' ∧ quote ≠ ';' := by
  have hall : ∀ quote ∈ ['\'', '"'], quote ∈ quoting ∧ quote ≠ '=' ∧ quote ≠ ';' := by decide
  exact hall quote hquote

/-- A setting has the quotes of its value. -/
theorem notMem_setting {key : String} (hkey : key ∈ keys) (hquote : quote ∈ ['\'', '"'])
    (hvalue : quote ∉ value) : quote ∉ key.toList ++ '=' :: value := by
  obtain ⟨hquoting, hequals, -⟩ := quote_apart hquote
  rw [List.mem_append, List.mem_cons, not_or, not_or]
  exact ⟨fun h => ((keys_chars key hkey).2 _ h).2.2 hquoting, hequals, hvalue⟩

theorem notMem_pair {left right : List Char} (hquote : quote ∈ ['\'', '"'])
    (hleft : quote ∉ left) (hright : quote ∉ right) : quote ∉ left ++ ';' :: right := by
  rw [List.mem_append, List.mem_cons, not_or, not_or]
  exact ⟨hleft, (quote_apart hquote).2.2, hright⟩

theorem notMem_digits (hquote : quote ∈ ['\'', '"']) (n : Nat) : quote ∉ Nat.toDigits 10 n :=
  fun hmem => (toDigits_chars n quote hmem).2 (quote_apart hquote).1

theorem notMem_frontChars (hquote : quote ∈ ['\'', '"']) : quote ∉ frontChars c := by
  have hacl : ∀ b : Bool, ∀ quote ∈ ['\'', '"'], quote ∉ (toString b).toList := by decide
  exact notMem_setting (by decide) hquote (notMem_pair hquote (notMem_digits hquote _)
    (notMem_setting (by decide) hquote (hacl _ quote hquote)))

theorem notMem_backChars (hquote : quote ∈ ['\'', '"']) : quote ∉ backChars c := by
  have hname : quote ∉ c.encoding.name.toList :=
    fun hmem => ((name_chars c.encoding).2 quote hmem).2 (quote_apart hquote).1
  exact notMem_setting (by decide) hquote (notMem_pair hquote hname
    (notMem_setting (by decide) hquote (notMem_digits hquote _)))

/-- Behind the path, a bare value with a single quote stands in the schema and its last quote. -/
theorem Bare.of_bodyChars (h : Bare value (bodyChars c)) (hvalue : '\'' ∈ value) :
    Bare value (c.schema.display.toList ++ ['\'']) := by
  have hfront : ¬ Bare value (frontChars c) :=
    fun h => notMem_frontChars (by decide) (h.subset _ hvalue).1
  have hback : ¬ Bare value (backChars c) :=
    fun h => notMem_backChars (by decide) (h.subset _ hvalue).1
  unfold bodyChars at h
  split at h
  · exact (h.of_semicolon.elim hfront hback).elim
  · have hschema := (h.of_semicolon.resolve_left hfront).of_quote (by decide)
    exact hschema.of_quote_semicolon.resolve_right hback

/-- Behind a cut path without double quotes, a value between double quotes stands in the schema. -/
theorem Quoted.of_bodyChars {behind : List Char} (hbehind : '"' ∉ behind)
    (h : Quoted '"' value (behind ++ '\'' :: ';' :: bodyChars c)) :
    Quoted '"' value c.schema.display.toList := by
  have hfront : '"' ∉ frontChars c := notMem_frontChars (by decide)
  have hback : '"' ∉ backChars c := notMem_backChars (by decide)
  have hpath : '"' ∉ behind ++ ['\'', ';'] := by simp [hbehind]
  have hcut : behind ++ '\'' :: ';' :: bodyChars c = behind ++ ['\'', ';'] ++ bodyChars c := by simp
  rw [hcut] at h
  have h := h.of_append hpath
  unfold bodyChars at h
  split at h
  · exact absurd h.subset.1 (notMem_pair (by decide) hfront hback)
  · have hcut : frontChars c ++ ';' :: ("metadata".toList ++ '=' :: '\'' ::
          (c.schema.display.toList ++ '\'' :: ';' :: backChars c)) =
        (frontChars c ++ ';' :: ("metadata".toList ++ '=' :: ['\''])) ++
          (c.schema.display.toList ++ (['\''] ++ ';' :: backChars c)) := by simp
    rw [hcut] at h
    have hkey : '"' ∉ frontChars c ++ ';' :: ("metadata".toList ++ '=' :: ['\'']) :=
      notMem_pair (by decide) hfront (notMem_setting (by decide) (by decide) (by decide))
    exact (h.of_append hkey).of_append_right (notMem_pair (by decide) (by decide) hback)

end Body

/-! ## Texts of schemas -/

section Schema

variable {text : String} {schema : Schema}

theorem ne_empty_of_mem_display {x : Char} (h : x ∈ schema.display.toList) : schema ≠ .empty := by
  rintro rfl
  exact absurd h List.not_mem_nil

/-- No bare text of a schema runs to the single quote behind its own columns. -/
theorem not_bare_concat {cs : List Char} (htext : Schema.parse text = .ok schema)
    (hcs : ';' ∈ cs → ';' ∈ text.toList) : ¬ Bare text.toList (cs ++ ['\'']) := by
  intro hbare
  have hsemicolon : ';' ∉ cs := fun h => (hbare.subset _ (hcs h)).2 rfl
  obtain ⟨more, hmore, -⟩ := hbare.concat (by decide) (by decide) (.inl hsemicolon)
  refine Schema.not_parse_concat (x := '\'') (by decide) more schema ?_
  rwa [← hmore, String.ofList_toList]

/-- A text of a schema with single quotes is not in what is read behind one of its quotes. -/
theorem not_stands_text {left right : List Char} (htext : Schema.parse text = .ok schema)
    (hquote : '\'' ∈ schema.display.toList)
    (hdouble : Quoted '"' text.toList (left ++ '\'' :: ';' :: right) →
      '"' ∈ schema.display.toList)
    (hleft : ¬ Bare text.toList (left ++ ['\''])) (hright : ¬ Bare text.toList right) :
    ¬ Stands text.toList (left ++ '\'' :: ';' :: right) := by
  rintro (hquoted | hquoted | hbare)
  · exact hquoted.1 (Schema.mem_of_mem_display htext (by decide) hquote)
  · exact hquoted.1 (Schema.mem_of_mem_display htext (by decide) (hdouble hquoted))
  · exact hbare.of_quote_semicolon.elim hleft hright

end Schema

/-! ## Quotes that are not read back -/

section Misread

variable {c : Config}

/-- A single quote in the schema alone is not read back. -/
theorem not_readsBack_of_schema (hpath : ∀ path ∈ c.path, '\'' ∉ path.toList)
    (hquote : '\'' ∈ c.schema.display.toList) : ¬ c.ReadsBack := by
  rintro ⟨again, hparse, -, hsame⟩
  have hschema : again.schema = c.schema := by rw [← hsame]
  obtain ⟨found, hfound, -, hwritten⟩ := mem_pairs_of_parse hparse
  rw [hschema] at hwritten
  have hne := ne_empty_of_mem_display hquote
  obtain ⟨text, hmem, htext⟩ := hwritten hne
  obtain ⟨before, behind, hdisplay, hbefore⟩ := List.eq_append_cons_of_mem hquote
  -- the setting of the schema is read up to the first of its quotes
  have hbody : settings (bodyChars c) = (settings (behind ++ '\'' :: ';' :: backChars c)).map
      fun rest => ("cache", toString c.cacheSize) :: ("acl", toString c.accessControl) ::
        ("metadata", String.ofList before) :: rest := by
    rw [bodyChars, if_neg (mt Schema.eq_empty_of_isEmpty hne),
      settings_frontChars c (.inr ⟨_, rfl⟩), settings_semicolon, hdisplay, List.append_assoc,
      List.cons_append, settings_quoted (by decide) (.inl rfl) hbefore, Fallible.map_map]
  rw [pairs_display_eq hpath, hbody, Fallible.map_map, Fallible.map_eq_ok] at hfound
  obtain ⟨rest, hrest, rfl⟩ := hfound
  have hin : ("metadata", text) ∈ rest := by
    rcases List.mem_append.mp hmem with hmem | hmem
    · cases hsome : c.path <;> simp [hsome] at hmem
    · simp only [List.mem_cons, Prod.mk.injEq] at hmem
      rcases hmem with ⟨h, -⟩ | ⟨h, -⟩ | ⟨-, rfl⟩ | hmem
      · exact absurd h (by decide)
      · exact absurd h (by decide)
      · have htext := Schema.mem_of_mem_display htext (by decide) hquote
        rw [String.toList_ofList] at htext
        exact absurd htext hbefore
      · exact hmem
  have hmemDisplay : ∀ x ∈ behind, x ∈ c.schema.display.toList := by
    intro x hx
    rw [hdisplay]
    simp [hx]
  refine not_stands_text htext hquote (fun hquoted => ?_) (not_bare_concat htext fun h => ?_)
    (fun hbare => ?_) (stands_of_mem hrest hin)
  · have hback : '"' ∉ ['\''] ++ ';' :: backChars c :=
      notMem_pair (by decide) (by decide) (notMem_backChars (by decide))
    exact hmemDisplay _ (hquoted.of_append_right hback).subset.1
  · exact Schema.mem_of_mem_display htext (by decide) (hmemDisplay _ h)
  · exact notMem_backChars (by decide)
      (hbare.subset _ (Schema.mem_of_mem_display htext (by decide) hquote)).1

/-- Behind a single quote of a path, no text is read as a schema with a single quote. -/
theorem text_notMem {text : String} {behind : List Char} {rest : List (String × String)}
    (hrest : settings (behind ++ '\'' :: ';' :: bodyChars c) = .ok rest)
    (htext : Schema.parse text = .ok c.schema) (hquote : '\'' ∈ c.schema.display.toList)
    (hdouble : '"' ∈ behind → '"' ∈ c.schema.display.toList)
    (hbare : ¬ Bare text.toList (behind ++ ['\''])) : ("metadata", text) ∉ rest := by
  intro hmem
  refine not_stands_text htext hquote (fun hquoted => ?_) hbare (fun hbare => ?_)
    (stands_of_mem hrest hmem)
  · by_cases hbehind : '"' ∈ behind
    · exact hdouble hbehind
    · exact (hquoted.of_bodyChars hbehind).subset.1
  · have hwritten : ∀ x ∈ quoting, x ∈ c.schema.display.toList → x ∈ text.toList :=
      fun x hx => Schema.mem_of_mem_display htext hx
    exact not_bare_concat htext (hwritten ';' (by decide))
      (hbare.of_bodyChars (hwritten '\'' (by decide) hquote))

section Path

variable {path found : String} {before behind : List Char} {rest : List (String × String)}

/-- Between double quotes, no path is read that has the single quote of another. -/
theorem not_quoted_path (hrest : settings (behind ++ '\'' :: ';' :: bodyChars c) = .ok rest)
    (hwritten : c.schema ≠ .empty → ∃ text, ("metadata", text) ∈ rest ∧
      Schema.parse text = .ok c.schema)
    (hquote : '\'' ∈ found.toList) (hbehind : '"' ∈ behind → '"' ∈ found.toList) :
    ¬ Quoted '"' found.toList (behind ++ '\'' :: ';' :: bodyChars c) := by
  intro hquoted
  have hnot : '"' ∉ behind := fun h => hquoted.1 (hbehind h)
  obtain ⟨hdouble, hsub⟩ := (hquoted.of_bodyChars hnot).subset
  have hsingle := (hsub _ hquote).1
  obtain ⟨text, hmem, htext⟩ := hwritten (ne_empty_of_mem_display hsingle)
  -- the text of the schema has double quotes, so it is not in the path
  refine text_notMem hrest htext hsingle (fun _ => hdouble) (fun hbare => ?_) hmem
  have hin := (hbare.subset _ (Schema.mem_of_mem_display htext (by decide) hdouble)).1
  exact hnot (by simpa using hin)

/-- A path between an equals sign and its last quote is shorter than one that holds it. -/
theorem not_bare_path (hpath : path.toList = before ++ '\'' :: behind)
    (hspelled : found.toList.filter isDistinctive = path.toList.filter isDistinctive) :
    ¬ Bare found.toList (behind ++ ['\'']) := by
  intro hbare
  have hlt := hbare.count_lt isDistinctive (by decide)
  rw [hspelled, hpath, List.filter_append, List.filter_append,
    List.filter_cons_of_pos (by decide)] at hlt
  simp only [List.length_append, List.length_cons] at hlt
  have hone : (['\''].filter isDistinctive).length = 1 := by decide
  omega

/-- Slashes and dots in front of a quote are no setting. -/
theorem settings_slashes (hbehind : behind.filter isDistinctive = []) :
    settings (behind ++ '\'' :: ';' :: bodyChars c) ≠ .ok rest := by
  have hchars : ∀ x ∈ behind ++ ['\''], isKey x = true ∧ isGap x = false := by
    intro x hx
    rcases List.mem_append.mp hx with hx | hx
    · have hnot := List.filter_eq_nil_iff.mp hbehind x hx
      have hx : x = '/' ∨ x = '.' := by
        by_contra hne
        rw [not_or] at hne
        exact hnot (by simp [isDistinctive, hne])
      rcases hx with rfl | rfl <;> decide
    · rw [List.mem_singleton.mp hx]
      decide
  rw [List.append_cons]
  exact settings_noValue (by simp) (fun x hx => (hchars x (List.mem_of_mem_head? hx)).2)
    (fun x hx => (hchars x hx).1) rest

/-- Behind a single quote of a path, no path is read that is spelled like it. -/
theorem not_stands_path (hpath : path.toList = before ++ '\'' :: behind)
    (hrest : settings (behind ++ '\'' :: ';' :: bodyChars c) = .ok rest)
    (hspelled : found.toList.filter isDistinctive = path.toList.filter isDistinctive)
    (hwritten : c.schema ≠ .empty → ∃ text, ("metadata", text) ∈ rest ∧
      Schema.parse text = .ok c.schema) :
    ¬ Stands found.toList (behind ++ '\'' :: ';' :: bodyChars c) := by
  have hmem : ∀ x, isDistinctive x = true → x ∈ path.toList → x ∈ found.toList := by
    intro x hx hxpath
    have hfilter := List.mem_filter.mpr ⟨hxpath, hx⟩
    rw [← hspelled] at hfilter
    exact (List.mem_filter.mp hfilter).1
  have hbehind : ∀ x, isDistinctive x = true → x ∈ behind → x ∈ found.toList :=
    fun x hx hxbehind => hmem x hx (by rw [hpath]; simp [hxbehind])
  have hquote : '\'' ∈ found.toList := hmem _ (by decide) (by rw [hpath]; simp)
  rintro (hquoted | hquoted | hbare)
  · exact hquoted.1 hquote
  · exact not_quoted_path hrest hwritten hquote (hbehind _ (by decide)) hquoted
  have hbare :=
    (hbare.of_quote_semicolon.resolve_left (not_bare_path hpath hspelled)).of_bodyChars hquote
  by_cases hsingle : '\'' ∈ c.schema.display.toList
  · obtain ⟨text, htext, hparse⟩ := hwritten (ne_empty_of_mem_display hsingle)
    refine text_notMem hrest hparse hsingle (fun h => ?_)
      (not_bare_concat hparse fun h => ?_) htext
    · have hin := (hbare.subset _ (hbehind _ (by decide) h)).1
      simpa using hin
    · exact absurd rfl (hbare.subset _ (hbehind _ (by decide) h)).2
  · -- the path that is read ends with the quote behind the schema, so nothing but slashes and dots
    -- follows the quote of the path that was written
    obtain ⟨more, hmore, hsub⟩ := hbare.concat (by decide) (by decide) (.inr ⟨hquote, hsingle⟩)
    have hnot : '\'' ∉ more := fun h => hsingle (hsub _ h)
    refine settings_slashes ?_ hrest
    rw [hmore, hpath, List.filter_append, List.filter_append, List.filter_cons_of_pos (by decide),
      List.filter_cons_of_pos (by decide), List.filter_nil] at hspelled
    rcases List.eq_nil_or_concat' (behind.filter isDistinctive) with hnil | ⟨init, last, hlast⟩
    · exact hnil
    · rw [hlast, ← List.cons_append, ← List.append_assoc] at hspelled
      have hinit := (List.append_singleton_inj.mp hspelled).1
      have hin : '\'' ∈ more.filter isDistinctive := by
        rw [hinit]
        simp
      exact absurd (List.mem_filter.mp hin).1 hnot

end Path

/-- A single quote in the path is not read back. -/
theorem not_readsBack_of_path {path : String} (hpath : c.path = some path)
    (hquote : '\'' ∈ path.toList) : ¬ c.ReadsBack := by
  rintro ⟨again, hparse, hspelled, hsame⟩
  have hschema : again.schema = c.schema := by rw [← hsame]
  obtain ⟨before, behind, hsplit, hbefore⟩ := List.eq_append_cons_of_mem hquote
  obtain ⟨found, hfound, hspelled⟩ : ∃ found, again.path = some found ∧
      pathParts found = pathParts path := by
    rw [hpath] at hspelled
    exact Option.map_eq_some_iff.mp hspelled
  have hspelled := filter_eq_of_pathParts_eq hspelled
  obtain ⟨written, hwritten, hpaths, hschemas⟩ := mem_pairs_of_parse hparse
  rw [hschema] at hschemas
  -- the path is read up to its first quote
  rw [pairs_eq_settings, toList_display, hpath] at hwritten
  dsimp only at hwritten
  rw [hsplit, List.append_assoc, List.cons_append, settings_quoted (by decide) (.inl rfl) hbefore,
    Fallible.map_eq_ok] at hwritten
  obtain ⟨rest, hrest, rfl⟩ := hwritten
  have hin : ("path", found) ∈ rest := by
    rcases List.mem_cons.mp (hpaths found hfound) with heq | hmem
    · exfalso
      have hfilter : '\'' ∈ found.toList.filter isDistinctive := by
        rw [hspelled, hsplit]
        simp [isDistinctive]
      rw [(Prod.mk.inj heq).2, String.toList_ofList] at hfilter
      exact hbefore (List.mem_filter.mp hfilter).1
    · exact hmem
  refine not_stands_path hsplit hrest hspelled (fun hne => ?_) (stands_of_mem hrest hin)
  obtain ⟨text, hmem, htext⟩ := hschemas hne
  refine ⟨text, (List.mem_cons.mp hmem).resolve_left fun heq => ?_, htext⟩
  exact absurd (Prod.mk.inj heq).1 (by decide)

theorem unquoted_of_readsBack (h : c.ReadsBack) : c.Unquoted := by
  have hpath : ∀ path ∈ c.path, '\'' ∉ path.toList :=
    fun path hpath hquote => not_readsBack_of_path hpath hquote h
  exact unquoted_iff.mpr ⟨hpath, fun hquote => not_readsBack_of_schema hpath hquote h⟩

end Misread

/-- Between double quotes, a path may have any other characters. -/
theorem parse_doubleQuoted {path : String} (h : '"' ∉ path.toList) :
    parse ("path=\"" ++ path ++ "\"") = .ok { path } := by
  have htext : ("path=\"" ++ path ++ "\"").toList =
      "path".toList ++ '=' :: '"' :: (path.toList ++ '"' :: []) := by simp
  have hpairs : pairs ("path=\"" ++ path ++ "\"") = .ok [("path", path)] := by
    rw [pairs_eq_settings, htext, settings_quoted (by decide) (.inr rfl) h, String.ofList_toList]
    rfl
  unfold parse
  rw [hpairs]
  rfl

/-- The text of a configuration that was read is read as an equal configuration exactly if no single
quote stands in the path, in a column's name or in the term type of an aggregate; and then as the
very same. -/
theorem display_read_back_iff {s : String} {c : Config} (h : parse s = .ok c) :
    (c.ReadsBack ↔ c.Unquoted) ∧ (c.Unquoted → parse c.display = .ok c) := by
  have hread : c.Unquoted → parse c.display = .ok c := by
    intro hunquoted
    obtain ⟨hpath, hschema⟩ := unquoted_iff.mp hunquoted
    exact parse_display (legible_of_parse h) hpath hschema
  exact ⟨⟨unquoted_of_readsBack, fun hunquoted => ⟨c, hread hunquoted, rfl, rfl⟩⟩, hread⟩

/-- A path with semicolons is read back. -/
theorem display_read_back_iff_semicolon :
    ∃ c, parse "path=\"a;b=c\"" = .ok c ∧ c.ReadsBack ∧ parse c.display = .ok c := by
  have hparse : parse "path=\"a;b=c\"" = .ok { path := some "a;b=c" } :=
    @parse_doubleQuoted "a;b=c" (by decide)
  obtain ⟨hiff, hread⟩ := display_read_back_iff hparse
  refine ⟨_, hparse, hiff.mpr ?unquoted, hread ?unquoted⟩
  exact unquoted_iff.mpr ⟨by simp, by decide⟩

/-- A path with a single quote is accepted between double quotes, and not read back. -/
theorem single_quote_not_read_back : ∃ c, parse "path=\"it's\"" = .ok c ∧ ¬ c.ReadsBack :=
  ⟨_, @parse_doubleQuoted "it's" (by decide), not_readsBack_of_path rfl (by decide)⟩

end Concordance.Config
