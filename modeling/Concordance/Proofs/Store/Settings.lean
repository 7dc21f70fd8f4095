import Concordance.Proofs.Metadata.SchemaText
import Concordance.Proofs.Store.Config

/-!
# Configurations as text

A configuration is written as settings between semicolons, its path and its schema in single quotes.

- `settings_bare`, `settings_quoted`: a setting in front of others is read as it was written, unless
  a quote ends its value too early.
- `pairs_display`: so the settings of a text without such quotes are those that were written.
- `legible_of_parse`: sizes that are read are words, and schemas that are read can be written.
- `parse_display`: a configuration like that is read back.
-/

namespace Concordance.Config

open Text

/-! ## Numbers -/

theorem natOfDigits_append (a b : List Char) :
    Number.natOfDigits (a ++ b) =
      b.foldl (fun n c => 10 * n + (c.toNat - '0'.toNat)) (Number.natOfDigits a) :=
  List.foldl_append

/-- The digits of a number stand for it. -/
theorem natOfDigits_toDigits (n : Nat) : Number.natOfDigits (Nat.toDigits 10 n) = n := by
  induction n using Nat.strongRecOn with
  | ind n ih =>
      by_cases hsmall : n < 10
      · obtain ⟨-, hvalue, -⟩ := Json.digitChar_spec n hsmall
        rw [Nat.toDigits_of_lt_base hsmall, Number.natOfDigits, List.foldl_cons, List.foldl_nil,
          hvalue, Nat.mul_zero, Nat.zero_add]
      · obtain ⟨-, hvalue, -⟩ := Json.digitChar_spec (n % 10) (Nat.mod_lt n (by decide))
        rw [Nat.toDigits_of_base_le (by decide) (by omega), natOfDigits_append,
          ih (n / 10) (by omega), List.foldl_cons, List.foldl_nil, hvalue, Nat.div_add_mod]

theorem toList_toString (n : Nat) : (toString n).toList = Nat.toDigits 10 n := by
  exact String.toList_ofList

theorem readNat_toString {n : Nat} (h : n < Wire.word64) :
    Number.readNat Wire.word64 (toString n) = some n := by
  have hdigits := Json.isDigit_toDigits n
  unfold Number.readNat
  rw [toList_toString]
  dsimp only
  split
  · next rest heq =>
      rw [heq] at hdigits
      cases hdigits '+' List.mem_cons_self
  · rw [if_neg, natOfDigits_toDigits, if_pos h]
    simp [Nat.toDigits_ne_nil]
    exact hdigits

theorem trimmed_toDigits (n : Nat) : Trimmed (Nat.toDigits 10 n) :=
  trimmed_of_forall fun x hx => isBlank_of_isDigit (Json.isDigit_toDigits n x hx)

theorem trim_toString (n : Nat) : trim (toString n) = toString n := by
  rw [trim, toList_toString, (trimmed_toDigits n).trimChars_eq]
  rfl

/-- Digits do not end with a unit. -/
theorem splitUnit_digits {digits : List Char} (h : ∀ x ∈ digits, x.isDigit = true) :
    splitUnit digits = (digits, 1) := by
  unfold splitUnit
  split
  · next hlast => cases h _ (List.mem_of_getLast? hlast)
  · next hlast => cases h _ (List.mem_of_getLast? hlast)
  · next hlast => cases h _ (List.mem_of_getLast? hlast)
  · rfl

theorem parseSize_toString {n : Nat} (h : n < Wire.word64) : parseSize (toString n) = .ok n := by
  have hdigits := Json.isDigit_toDigits n
  have hupper : (upperAscii (toString n)).toList = Nat.toDigits 10 n := by
    rw [upperAscii_eq, String.toList_ofList, toList_toString]
    conv => rhs; rw [← List.map_id (Nat.toDigits 10 n)]
    exact List.map_congr_left fun x hx => toUpper_of_isDigit (hdigits x hx)
  have hbytes : (Nat.toDigits 10 n).getLast? ≠ some 'B' :=
    fun hlast => nomatch hdigits _ (List.mem_of_getLast? hlast)
  have hread := readNat_toString h
  rw [show toString n = String.ofList (Nat.toDigits 10 n) from rfl] at hread
  unfold parseSize
  dsimp only
  rw [trim_toString, hupper, if_neg hbytes, splitUnit_digits hdigits]
  dsimp only
  rw [(trimmed_toDigits n).trimChars_eq, hread]
  dsimp only
  rw [Nat.mul_one, if_pos h]

/-! ## Reading settings -/

/-- Whether a character goes on a key. -/
def isKey (c : Char) : Bool := c ≠ '=' && c ≠ ';'

theorem readPairs_succ (fuel : Nat) (cs : List Char) :
    readPairs (fuel + 1) cs =
      match cs.dropWhile isGap with
      | [] => .ok []
      | cs =>
        match cs.dropWhile isKey with
        | '=' :: rest => do
          let (value, rest) ←
            readValue (trim (String.ofList (cs.takeWhile isKey))) (rest.dropWhile isBlank)
          return (lowerAscii (trim (String.ofList (cs.takeWhile isKey))), value) ::
            (← readPairs fuel rest)
        | _ => .error (.noValue (trim (String.ofList (cs.takeWhile isKey)))) := rfl

/-- A value is what stands in quotes, or what stands in front of the semicolon. -/
theorem readValue_eq_ok {key value : String} {cs rest : List Char}
    (h : readValue key cs = .ok (value, rest)) :
    (∃ quote, (quote = '\'' ∨ quote = '"') ∧ quote ∉ value.toList ∧
      cs = quote :: (value.toList ++ quote :: rest)) ∨
    (cs.head? ≠ some '\'' ∧ value = trim (String.ofList (cs.takeWhile (· ≠ ';'))) ∧
      rest = cs.dropWhile (· ≠ ';')) := by
  unfold readValue at h
  dsimp only at h
  split at h
  · cases h
    exact .inr ⟨nofun, rfl, rfl⟩
  · next quote more =>
      split at h
      · next hquote =>
          split at h
          · next chars rest' hcut =>
              cases h
              obtain ⟨hmore, hnot⟩ := splitOnceChars_eq_some_iff.mp hcut
              exact .inl ⟨quote, hquote, by rwa [String.toList_ofList],
                by rw [String.toList_ofList, hmore]⟩
          · cases h
      · next hquote =>
          obtain ⟨hvalue, hrest⟩ := Prod.mk.inj (Except.ok.inj h)
          exact .inr ⟨fun heq => hquote (.inl (Option.some.inj heq)), hvalue.symm, hrest.symm⟩

theorem readValue_suffix {key value : String} {cs rest : List Char}
    (h : readValue key cs = .ok (value, rest)) : rest <:+ cs := by
  rcases readValue_eq_ok h with ⟨quote, -, -, rfl⟩ | ⟨-, -, rfl⟩
  · exact ⟨quote :: (value.toList ++ [quote]), by simp⟩
  · exact List.dropWhile_suffix _

/-- More fuel than characters changes nothing. -/
theorem readPairs_congr {n m : Nat} {cs : List Char} (hn : cs.length < n) (hm : cs.length < m) :
    readPairs n cs = readPairs m cs := by
  induction n generalizing m cs with
  | zero => exact absurd hn (Nat.not_lt_zero _)
  | succ n ih =>
      obtain ⟨m, rfl⟩ : ∃ k, m = k + 1 := ⟨m - 1, by omega⟩
      rw [readPairs_succ, readPairs_succ]
      have hgap := (cs.dropWhile_suffix isGap).length_le
      split
      · rfl
      · next cs' =>
          have hkey := ((cs.dropWhile isGap).dropWhile_suffix isKey).length_le
          split
          · next rest heq =>
              rw [heq, List.length_cons] at hkey
              cases hvalue : readValue (trim (String.ofList ((cs.dropWhile isGap).takeWhile isKey)))
                (rest.dropWhile isBlank) with
              | error e => rfl
              | ok result =>
                  obtain ⟨value, behind⟩ := result
                  have hbehind := (readValue_suffix hvalue).length_le
                  have hblank := (rest.dropWhile_suffix isBlank).length_le
                  have hrest : readPairs n behind = readPairs m behind := ih (by omega) (by omega)
                  rw [Fallible.bind_of_ok rfl, Fallible.bind_of_ok rfl]
                  simp only [hrest]
          · rfl

/-- The settings that characters are read as. -/
def settings (cs : List Char) : Except PairFault (List (String × String)) :=
  readPairs (cs.length + 1) cs

theorem readPairs_eq_settings {n : Nat} {cs : List Char} (h : cs.length < n) :
    readPairs n cs = settings cs := readPairs_congr h (Nat.lt_succ_self _)

theorem settings_append_gap {gap cs : List Char} (h : ∀ x ∈ gap, isGap x = true) :
    settings (gap ++ cs) = settings cs := by
  have hfuel : settings cs = readPairs ((gap ++ cs).length + 1) cs :=
    (readPairs_eq_settings (by rw [List.length_append]; omega)).symm
  rw [hfuel, settings, readPairs_succ, readPairs_succ, List.dropWhile_append_of_pos h]

/-- A key is read up to its equals sign, and its value behind the blanks there. -/
theorem settings_key {key rest : List Char} (hstart : EndsRun isGap (key ++ '=' :: rest))
    (hkey : ∀ x ∈ key, isKey x = true) :
    settings (key ++ '=' :: rest) =
      readValue (trim (String.ofList key)) (rest.dropWhile isBlank) >>= fun (value, behind) =>
        (settings behind).map ((lowerAscii (trim (String.ofList key)), value) :: ·) := by
  have hends : EndsRun isKey ('=' :: rest) := endsRun_cons.mpr (by decide)
  rw [settings, readPairs_succ, dropWhile_of_endsRun hstart]
  split
  · next hnil => simp at hnil
  · rw [takeWhile_run hkey hends, dropWhile_run hkey hends]
    change (readValue (trim (String.ofList key)) (rest.dropWhile isBlank) >>= fun result =>
      readPairs (key ++ '=' :: rest).length result.2 >>= fun more =>
        .ok ((lowerAscii (trim (String.ofList key)), result.1) :: more)) = _
    cases hvalue : readValue (trim (String.ofList key)) (rest.dropWhile isBlank) with
    | error e => rfl
    | ok result =>
        obtain ⟨value, behind⟩ := result
        have hbehind := (readValue_suffix hvalue).length_le
        have hblank := (rest.dropWhile_suffix isBlank).length_le
        have hfuel : readPairs (key ++ '=' :: rest).length behind = settings behind :=
          readPairs_eq_settings (by rw [List.length_append, List.length_cons]; omega)
        rw [Fallible.bind_of_ok rfl, Fallible.bind_of_ok rfl]
        dsimp only
        rw [hfuel]
        cases settings behind <;> rfl

/-- A key without an equals sign behind it is an error. -/
theorem settings_noValue {key rest : List Char} (hne : key ≠ []) (hstart : EndsRun isGap key)
    (hkey : ∀ x ∈ key, isKey x = true) (pairs : List (String × String)) :
    settings (key ++ ';' :: rest) ≠ .ok pairs := by
  have hends : EndsRun isKey (';' :: rest) := endsRun_cons.mpr (by decide)
  rw [settings, readPairs_succ, dropWhile_of_endsRun ((endsRun_append hne).mpr hstart)]
  split
  · next hnil => simp at hnil
  · rw [dropWhile_run hkey hends]
    exact nofun

/-! ## Settings as they are written -/

/-- The keys as they are written. -/
def keys : List String := ["path", "cache", "acl", "metadata", "statsproc", "history"]

theorem keys_chars : ∀ key ∈ keys, key.toList ≠ [] ∧
    ∀ x ∈ key.toList, isKey x = true ∧ isGap x = false ∧ x ∉ quoting := by
  decide

theorem lowerAscii_trim_of_mem_keys {key : String} (h : key ∈ keys) :
    trim key = key ∧ lowerAscii key = key := by
  rw [lowerAscii_eq]
  simp only [keys, List.mem_cons, List.not_mem_nil, or_false] at h
  rcases h with rfl | rfl | rfl | rfl | rfl | rfl <;> exact ⟨rfl, rfl⟩

theorem settings_of_mem_keys {key : String} (h : key ∈ keys) (rest : List Char) :
    settings (key.toList ++ '=' :: rest) =
      readValue key (rest.dropWhile isBlank) >>= fun (value, behind) =>
        (settings behind).map ((key, value) :: ·) := by
  obtain ⟨hne, hchars⟩ := keys_chars key h
  obtain ⟨htrim, hlower⟩ := lowerAscii_trim_of_mem_keys h
  have hstart : EndsRun isGap (key.toList ++ '=' :: rest) :=
    (endsRun_append hne).mpr fun x hx => (hchars x (List.mem_of_mem_head? hx)).2.1
  have hkey := settings_key hstart fun x hx => (hchars x hx).1
  rwa [String.ofList_toList, htrim, hlower] at hkey

/-- A value in quotes of either kind is read up to the first quote. -/
theorem settings_quoted {key : String} (h : key ∈ keys) {quote : Char}
    (hquote : quote = '\'' ∨ quote = '"') {value : List Char} (hvalue : quote ∉ value)
    (rest : List Char) :
    settings (key.toList ++ '=' :: quote :: (value ++ quote :: rest)) =
      (settings rest).map ((key, String.ofList value) :: ·) := by
  have hblank : ¬ isBlank quote = true := by
    rcases hquote with rfl | rfl <;> decide
  have hread : readValue key (quote :: (value ++ quote :: rest)) =
      .ok (String.ofList value, rest) := by
    simp only [readValue, if_pos hquote, splitOnceChars_append hvalue]
  rw [settings_of_mem_keys h, List.dropWhile_cons_of_neg hblank, hread, Fallible.bind_of_ok rfl]

/-- A value without quotes is read up to the semicolon. -/
theorem settings_bare {key : String} (h : key ∈ keys) {value rest : List Char} (hne : value ≠ [])
    (hvalue : ∀ x ∈ value, isBlank x = false ∧ x ∉ quoting)
    (hrest : rest = [] ∨ ∃ more, rest = ';' :: more) :
    settings (key.toList ++ '=' :: (value ++ rest)) =
      (settings rest).map ((key, String.ofList value) :: ·) := by
  have hends : EndsRun (· ≠ ';') rest := by
    rcases hrest with rfl | ⟨more, rfl⟩
    · exact endsRun_nil
    · exact endsRun_cons.mpr (by decide)
  have hrun : ∀ x ∈ value, decide (x ≠ ';') = true := by
    intro x hx
    have hnot := (hvalue x hx).2
    rw [decide_eq_true_eq]
    rintro rfl
    exact hnot (by decide)
  obtain ⟨c, more, rfl⟩ := List.exists_cons_of_ne_nil hne
  have hquote : ¬ (c = '\'' ∨ c = '"') := by
    have hnot := (hvalue c List.mem_cons_self).2
    rintro (rfl | rfl)
    · exact hnot (by decide)
    · exact hnot (by decide)
  have hread : readValue key (c :: more ++ rest) = .ok (String.ofList (c :: more), rest) := by
    unfold readValue
    rw [takeWhile_run hrun hends, dropWhile_run hrun hends, trim, String.toList_ofList,
      (trimmed_of_forall fun x hx => (hvalue x hx).1).trimChars_eq]
    exact if_neg hquote
  rw [settings_of_mem_keys h, List.cons_append,
    List.dropWhile_cons_of_neg (by simp [(hvalue c List.mem_cons_self).1]), ← List.cons_append,
    hread, Fallible.bind_of_ok rfl]

/-- The size of the journal and the control of access as they are written. -/
def frontChars (c : Config) : List Char :=
  "cache".toList ++ '=' :: (Nat.toDigits 10 c.cacheSize ++
    ';' :: ("acl".toList ++ '=' :: (toString c.accessControl).toList))

/-- The settings of statistics as they are written. -/
def backChars (c : Config) : List Char :=
  "statsproc".toList ++ '=' :: (c.encoding.name.toList ++
    ';' :: ("history".toList ++ '=' :: Nat.toDigits 10 c.historyLimit))

/-- All settings but the path as they are written. -/
def bodyChars (c : Config) : List Char :=
  frontChars c ++
    if c.schema.isEmpty then ';' :: backChars c
    else ';' :: ("metadata".toList ++ '=' :: '\'' :: (c.schema.display.toList ++
      '\'' :: ';' :: backChars c))

theorem toList_display (c : Config) :
    c.display.toList =
      match c.path with
      | some path => "path".toList ++ '=' :: '\'' :: (path.toList ++ '\'' :: ';' :: bodyChars c)
      | none => bodyChars c := by
  have hself : ∀ s : String, toString s = s := fun _ => rfl
  unfold display bodyChars frontChars backChars
  cases c.path <;> cases c.schema.isEmpty <;> simp [hself]

theorem toDigits_chars (n : Nat) :
    ∀ x ∈ Nat.toDigits 10 n, isBlank x = false ∧ x ∉ quoting := by
  intro x hx
  have hdigit := Json.isDigit_toDigits n x hx
  refine ⟨isBlank_of_isDigit hdigit, fun hmem => ?_⟩
  have hall : ∀ x ∈ quoting, x.isDigit = false := by decide
  rw [hall x hmem] at hdigit
  cases hdigit

theorem settings_digits {key : String} (h : key ∈ keys) (n : Nat) {rest : List Char}
    (hrest : rest = [] ∨ ∃ more, rest = ';' :: more) :
    settings (key.toList ++ '=' :: (Nat.toDigits 10 n ++ rest)) =
      (settings rest).map ((key, toString n) :: ·) :=
  settings_bare h Nat.toDigits_ne_nil (toDigits_chars n) hrest

theorem settings_semicolon (cs : List Char) : settings (';' :: cs) = settings cs :=
  settings_append_gap (show ∀ x ∈ [';'], isGap x = true by decide)

theorem settings_frontChars (c : Config) {rest : List Char}
    (hrest : rest = [] ∨ ∃ more, rest = ';' :: more) :
    settings (frontChars c ++ rest) = (settings rest).map fun pairs =>
      ("cache", toString c.cacheSize) :: ("acl", toString c.accessControl) :: pairs := by
  have hacl : settings ("acl".toList ++ '=' :: ((toString c.accessControl).toList ++ rest)) =
      (settings rest).map (("acl", toString c.accessControl) :: ·) := by
    cases c.accessControl with
    | false => exact settings_bare (by decide) (by decide) (by decide) hrest
    | true => exact settings_bare (by decide) (by decide) (by decide) hrest
  rw [frontChars, List.append_assoc, List.cons_append, List.append_assoc, List.cons_append,
    List.append_assoc, List.cons_append, settings_digits (by decide) _ (.inr ⟨_, rfl⟩),
    settings_semicolon, hacl, Fallible.map_map]

theorem name_chars (e : Statistics.Encoding) :
    e.name.toList ≠ [] ∧ ∀ x ∈ e.name.toList, isBlank x = false ∧ x ∉ quoting := by
  cases e <;> decide

theorem settings_backChars (c : Config) :
    settings (backChars c) =
      .ok [("statsproc", c.encoding.name), ("history", toString c.historyLimit)] := by
  have hhistory := settings_digits (show "history" ∈ keys by decide) c.historyLimit (.inl rfl)
  have hend : settings [] = .ok [] := rfl
  rw [List.append_nil, hend] at hhistory
  obtain ⟨hne, hchars⟩ := name_chars c.encoding
  have hstats := settings_bare (show "statsproc" ∈ keys by decide) hne hchars
    (.inr ⟨"history".toList ++ '=' :: Nat.toDigits 10 c.historyLimit, rfl⟩)
  rw [settings_semicolon, hhistory, String.ofList_toList] at hstats
  exact hstats

/-- The settings of a configuration, but for its path. -/
def body (c : Config) : List (String × String) :=
  ("cache", toString c.cacheSize) :: ("acl", toString c.accessControl) ::
    ((if c.schema.isEmpty then [] else [("metadata", c.schema.display)]) ++
      [("statsproc", c.encoding.name), ("history", toString c.historyLimit)])

theorem settings_bodyChars {c : Config} (h : '\'' ∉ c.schema.display.toList) :
    settings (bodyChars c) = .ok c.body := by
  unfold bodyChars body
  split
  · rw [settings_frontChars c (.inr ⟨_, rfl⟩), settings_semicolon, settings_backChars]
    rfl
  · rw [settings_frontChars c (.inr ⟨_, rfl⟩), settings_semicolon,
      settings_quoted (by decide) (.inl rfl) h, settings_semicolon, settings_backChars,
      String.ofList_toList]
    rfl

theorem pairs_eq_settings (s : String) : pairs s = settings s.toList := by
  rw [pairs, settings, String.length_toList]

/-- Without single quotes in the path, its setting is in front of those of the rest. -/
theorem pairs_display_eq {c : Config} (hpath : ∀ path ∈ c.path, '\'' ∉ path.toList) :
    pairs c.display = (settings (bodyChars c)).map ((c.path.map ("path", ·)).toList ++ ·) := by
  rw [pairs_eq_settings, toList_display]
  cases hsome : c.path with
  | none => cases settings (bodyChars c) <;> rfl
  | some path =>
      dsimp only
      rw [settings_quoted (by decide) (.inl rfl) (hpath path hsome), settings_semicolon,
        String.ofList_toList]
      rfl

/-- Without single quotes in the path and in the schema, the settings of the text are those that
were written. -/
theorem pairs_display {c : Config} (hpath : ∀ path ∈ c.path, '\'' ∉ path.toList)
    (hschema : '\'' ∉ c.schema.display.toList) :
    pairs c.display = .ok ((c.path.map ("path", ·)).toList ++ c.body) := by
  rw [pairs_display_eq hpath, settings_bodyChars hschema]
  rfl

/-! ## Setting by setting -/

/-- What a setting changes. -/
theorem set_eq_ok {c c' : Config} {key value : String} (h : c.set (key, value) = .ok c') :
    (key = "path" ∧ c' = { c with path := some value }) ∨
    (∃ n, parseSize value = .ok n ∧ c' = { c with cacheSize := n }) ∨
    (∃ b, c' = { c with accessControl := b }) ∨
    (∃ s, key = "metadata" ∧ Schema.parse value = .ok s ∧ c' = { c with schema := s }) ∨
    (∃ e, c' = { c with encoding := e }) ∨
    (∃ n, Number.readNat Wire.word64 (trim value) = some n ∧
      c' = { c with historyLimit := n }) := by
  unfold set at h
  dsimp only at h
  split at h
  · cases h
    exact .inl ⟨rfl, rfl⟩
  · obtain ⟨n, hn, h⟩ := Fallible.bind_eq_ok.mp h
    cases h
    exact .inr (.inl ⟨n, hn, rfl⟩)
  · obtain ⟨n, hn, h⟩ := Fallible.bind_eq_ok.mp h
    cases h
    exact .inr (.inl ⟨n, hn, rfl⟩)
  · obtain ⟨b, -, h⟩ := Fallible.bind_eq_ok.mp h
    cases h
    exact .inr (.inr (.inl ⟨b, rfl⟩))
  · obtain ⟨s, hs, h⟩ := Fallible.bind_eq_ok.mp h
    cases h
    exact .inr (.inr (.inr (.inl ⟨s, rfl, hs, rfl⟩)))
  · obtain ⟨e, -, h⟩ := Fallible.bind_eq_ok.mp h
    cases h
    exact .inr (.inr (.inr (.inr (.inl ⟨e, rfl⟩))))
  · split at h
    · next n hn =>
        cases h
        exact .inr (.inr (.inr (.inr (.inr ⟨n, hn, rfl⟩))))
    · cases h
  · split at h
    · next n hn =>
        cases h
        exact .inr (.inr (.inr (.inr (.inr ⟨n, hn, rfl⟩))))
    · cases h
  · cases h

/-- Sizes that are words, and columns that can be written. -/
structure Legible (c : Config) : Prop where
  inRange : c.InRange
  readable : ∀ column ∈ c.schema.columns, column.Readable

theorem parseSize_lt {s : String} {n : Nat} (h : parseSize s = .ok n) : n < Wire.word64 := by
  unfold parseSize at h
  dsimp only at h
  generalize splitUnit _ = cut at h
  split at h
  · cases h
  · split_ifs at h with hlt
    cases h
    exact hlt

theorem readNat_lt {limit n : Nat} {s : String} (h : Number.readNat limit s = some n) :
    n < limit := by
  unfold Number.readNat at h
  dsimp only at h
  split_ifs at h with _ hlt
  cases h
  exact hlt

theorem legible_set {c c' : Config} {setting : String × String} (h : c.set setting = .ok c')
    (hc : c.Legible) : c'.Legible := by
  obtain ⟨⟨hcache, hhistory⟩, hreadable⟩ := hc
  rcases set_eq_ok h with ⟨-, rfl⟩ | ⟨n, hn, rfl⟩ | ⟨b, rfl⟩ | ⟨s, -, hs, rfl⟩ | ⟨e, rfl⟩ |
    ⟨n, hn, rfl⟩
  · exact ⟨⟨hcache, hhistory⟩, hreadable⟩
  · exact ⟨⟨parseSize_lt hn, hhistory⟩, hreadable⟩
  · exact ⟨⟨hcache, hhistory⟩, hreadable⟩
  · exact ⟨⟨hcache, hhistory⟩, Schema.readable_of_parse hs⟩
  · exact ⟨⟨hcache, hhistory⟩, hreadable⟩
  · exact ⟨⟨hcache, readNat_lt hn⟩, hreadable⟩

/-- What is read can be written. -/
theorem legible_of_parse {s : String} {c : Config} (h : parse s = .ok c) : c.Legible := by
  obtain ⟨settings, -, hrun⟩ := Fallible.bind_eq_ok.mp h
  refine Fallible.foldlM_keeps (fun c setting _ c' hset hc => legible_set hset hc) hrun ?_
  exact ⟨⟨by decide, by decide⟩, fun _ hmem => nomatch hmem⟩

theorem parseBool_toString (key : String) (b : Bool) : parseBool key (toString b) = .ok b := by
  unfold parseBool
  rw [lowerAscii_eq]
  cases b <;> rfl

theorem parse_name (e : Statistics.Encoding) : Statistics.Encoding.parse e.name = .ok e := by
  unfold Statistics.Encoding.parse
  rw [lowerAscii_eq]
  cases e <;> rfl

/-- The settings as they are written set everything but the path. -/
theorem foldlM_body {c : Config} (h : c.Legible) (path : Option String) :
    c.body.foldlM set { path } = .ok { c with path } := by
  have hcache : ∀ d : Config, d.set ("cache", toString c.cacheSize) =
      .ok { d with cacheSize := c.cacheSize } := fun d =>
    Fallible.bind_of_ok (parseSize_toString h.inRange.cacheSize) _
  have hacl : ∀ d : Config, d.set ("acl", toString c.accessControl) =
      .ok { d with accessControl := c.accessControl } := fun d =>
    Fallible.bind_of_ok (parseBool_toString "acl" c.accessControl) _
  have hschema : ∀ d : Config, d.set ("metadata", c.schema.display) =
      .ok { d with schema := c.schema } := fun d =>
    Fallible.bind_of_ok (Schema.parse_display h.readable) _
  have hencoding : ∀ d : Config, d.set ("statsproc", c.encoding.name) =
      .ok { d with encoding := c.encoding } := fun d =>
    Fallible.bind_of_ok (parse_name c.encoding) _
  have hhistory : ∀ d : Config, d.set ("history", toString c.historyLimit) =
      .ok { d with historyLimit := c.historyLimit } := by
    intro d
    unfold set
    dsimp only
    rw [trim_toString, readNat_toString h.inRange.historyLimit]
    rfl
  unfold body
  rw [List.foldlM_cons, hcache, Fallible.bind_of_ok rfl, List.foldlM_cons, hacl,
    Fallible.bind_of_ok rfl, List.foldlM_append]
  split
  · next hempty =>
      have hnone : c.schema = .empty := Schema.eq_empty_of_isEmpty hempty
      rw [List.foldlM_nil]
      change List.foldlM set _ _ = _
      rw [List.foldlM_cons, hencoding, Fallible.bind_of_ok rfl, List.foldlM_cons,
        hhistory, hnone]
      rfl
  · rw [List.foldlM_cons, hschema, Fallible.bind_of_ok rfl, List.foldlM_nil]
    change List.foldlM set _ _ = _
    rw [List.foldlM_cons, hencoding, Fallible.bind_of_ok rfl, List.foldlM_cons, hhistory]
    rfl

/-- A configuration without single quotes in its path and its schema is read back. -/
theorem parse_display {c : Config} (h : c.Legible) (hpath : ∀ path ∈ c.path, '\'' ∉ path.toList)
    (hschema : '\'' ∉ c.schema.display.toList) : parse c.display = .ok c := by
  unfold parse
  rw [pairs_display hpath hschema]
  have hbody := foldlM_body h c.path
  refine (Fallible.bind_of_ok rfl _).trans ?_
  rw [List.foldlM_append]
  refine (Fallible.bind_of_ok ?_ _).trans hbody
  cases c.path <;> rfl

end Concordance.Config
