import Concordance.Catalog.Postings
import Concordance.Proofs.SortedMap
import Concordance.Proofs.Wire.Extent
import Mathlib.Algebra.Ring.Nat
import Mathlib.Data.List.Perm.Subperm

/-!
# What any bytes are read as

Bytes say what a posting list holds by a count and by as many gaps, which are words of 64 bits
(`Encodes`). The document numbers are the sums of the gaps (`placed`). Reading takes gaps and sums
modulo 2^32 and refuses no gap but those that vanish so: the list that is answered has the sums modulo
2^32, and of numbers that coincide the last one (`decode_exact_iff`).

So reading is exact as long as the gaps add up to a word of 32 bits. A greater sum is not refused: a gap
of 2^32 + 1 is read as one of 1, and with three gaps that lead once around, the third posting replaces
the first (`decode_merges`).
-/

namespace Concordance.Postings

open Wire (Takes word32 word64)

variable {bytes body content behind : List UInt8} {entries : List (Nat × List Nat)} {p : Postings}
  {last count : Nat}

/-! ## What bytes say -/

/-- Bytes that are gaps and positions, one behind the other. -/
inductive Gapped : List UInt8 → List (Nat × List Nat) → Prop
  | nil : Gapped [] []
  | cons {first second rest : List UInt8} {gap : Nat} {positions : List Nat}
    {entries : List (Nat × List Nat)} :
    Takes Wire.Read.varint first gap → Takes Wire.Read.ascending second positions →
    Gapped rest entries → Gapped (first ++ (second ++ rest)) ((gap, positions) :: entries)

/-- Bytes that are a count and as many gaps and positions. -/
def Encodes (bytes : List UInt8) (entries : List (Nat × List Nat)) : Prop :=
  ∃ count body, Takes Wire.Read.varint count entries.length ∧ Gapped body entries ∧
    bytes = count ++ body

/-- The documents that gaps behind a document lead to. -/
def placed (last : Nat) : List (Nat × List Nat) → List (Nat × List Nat)
  | [] => []
  | (gap, positions) :: rest => (last + gap, positions) :: placed (last + gap) rest

/-- How far gaps lead. -/
def reach (entries : List (Nat × List Nat)) : Nat := (entries.map (·.1)).sum

/-- The remainder of a document number. -/
def cut (e : Nat × List Nat) : Nat × List Nat := (e.1 % word32, e.2)

/-- No gap vanishes modulo 2^32. -/
def Steps (entries : List (Nat × List Nat)) : Prop := ∀ e ∈ entries, e.1 % word32 ≠ 0

@[simp] theorem length_placed (last : Nat) (entries : List (Nat × List Nat)) :
    (placed last entries).length = entries.length := by
  induction entries generalizing last with
  | nil => rfl
  | cons entry rest ih => simp [placed, ih]

/-- The last document is the farthest. -/
theorem reach_of_mem_placed {e : Nat × List Nat} (he : e ∈ placed last entries) :
    e.1 ≤ last + reach entries := by
  induction entries generalizing last with
  | nil => cases he
  | cons entry rest ih =>
      simp only [reach, List.map_cons, List.sum_cons] at ih ⊢
      rcases List.mem_cons.mp he with rfl | he
      · dsimp only
        omega
      · have := ih he
        omega

theorem exists_placed_reach (last : Nat) (hne : entries ≠ []) :
    ∃ e ∈ placed last entries, e.1 = last + reach entries := by
  induction entries generalizing last with
  | nil => exact absurd rfl hne
  | cons entry rest ih =>
      obtain ⟨gap, positions⟩ := entry
      simp only [reach, List.map_cons, List.sum_cons] at ih ⊢
      by_cases hrest : rest = []
      · subst hrest
        exact ⟨_, List.mem_cons_self, by simp⟩
      · obtain ⟨e, he, heq⟩ := ih (last + gap) hrest
        exact ⟨e, List.mem_cons_of_mem _ he, by omega⟩

/-- Gaps that are not empty lead to ascending documents. -/
theorem placed_ascends (h : Steps entries) (last : Nat) :
    (∀ e ∈ placed last entries, last < e.1) ∧
      (placed last entries).Pairwise fun a b => a.1 < b.1 := by
  induction entries generalizing last with
  | nil => exact ⟨nofun, .nil⟩
  | cons entry rest ih =>
      obtain ⟨gap, positions⟩ := entry
      obtain ⟨hgap, hsteps⟩ := List.forall_mem_cons.mp h
      obtain ⟨hbehind, hascend⟩ := ih hsteps (last + gap)
      have hpos : 0 < gap := by
        refine Nat.pos_of_ne_zero ?_
        rintro rfl
        exact hgap (Nat.zero_mod word32)
      refine ⟨?_, List.pairwise_cons.mpr ⟨hbehind, hascend⟩⟩
      intro e he
      rcases List.mem_cons.mp he with rfl | he
      · exact Nat.lt_add_of_pos_right hpos
      · exact Nat.lt_trans (Nat.lt_add_of_pos_right hpos) (hbehind e he)

/-- Bytes say one thing only. -/
theorem Gapped.unique {bytes' more more' : List UInt8} {entries' : List (Nat × List Nat)}
    (h : Gapped bytes entries) (h' : Gapped bytes' entries')
    (hcount : entries'.length = entries.length) (heq : bytes ++ more = bytes' ++ more') :
    entries' = entries := by
  induction h generalizing bytes' entries' with
  | nil => exact List.eq_nil_of_length_eq_zero hcount
  | cons hgap hpositions _ ih =>
      cases h' with
      | nil => cases hcount
      | cons hgap' hpositions' hrest' =>
          simp only [List.append_assoc] at heq
          obtain ⟨rfl, rfl⟩ := hgap.unique hgap' heq
          have heq := List.append_cancel_left heq
          obtain ⟨rfl, rfl⟩ := hpositions.unique hpositions' heq
          rw [ih hrest' (Nat.succ.inj hcount) (List.append_cancel_left heq)]

theorem Encodes.unique {bytes' more more' : List UInt8} {entries' : List (Nat × List Nat)}
    (h : Encodes bytes entries) (h' : Encodes bytes' entries')
    (heq : bytes ++ more = bytes' ++ more') : entries' = entries := by
  obtain ⟨count, body, hcount, hgapped, rfl⟩ := h
  obtain ⟨count', body', hcount', hgapped', rfl⟩ := h'
  simp only [List.append_assoc] at heq
  obtain ⟨rfl, hlength⟩ := hcount.unique hcount' heq
  exact hgapped.unique hgapped' hlength.symm (List.append_cancel_left heq)

/-! ## Written gaps -/

/-- Gaps and positions that fit: words of 64 bits, and no more words of 32 bits than a count can say. -/
def Fit (entries : List (Nat × List Nat)) : Prop :=
  ∀ e ∈ entries, e.1 < word64 ∧ e.2.length < word64 ∧ ∀ position ∈ e.2, position < word32

instance (entries : List (Nat × List Nat)) : Decidable (Fit entries) :=
  inferInstanceAs (Decidable (∀ e ∈ entries, _))

/-- Gaps and positions, written one behind the other. -/
def written : List (Nat × List Nat) → List UInt8
  | [] => []
  | (gap, positions) :: rest =>
    Wire.Varint.encode gap ++ (Wire.encodeAscending positions ++ written rest)

theorem gapped_written (h : Fit entries) : Gapped (written entries) entries := by
  induction entries with
  | nil => exact .nil
  | cons entry rest ih =>
      obtain ⟨⟨hgap, hcount, hpositions⟩, hrest⟩ := List.forall_mem_cons.mp h
      exact .cons (Wire.Read.takes_varint hgap) (Wire.Read.takes_ascending hcount hpositions)
        (ih hrest)

/-- Whatever gaps and positions fit can be said by bytes. -/
theorem encodes_written (h : Fit entries) (hcount : entries.length < word64) :
    Encodes (Wire.Varint.encode entries.length ++ written entries) entries :=
  ⟨_, _, Wire.Read.takes_varint hcount, gapped_written h, rfl⟩

/-! ## What is read -/

/-- Gaps that do not vanish are read, and lead to remainders of the documents. -/
theorem takes_placed (h : Gapped bytes entries) (hsteps : Steps entries) (last : Nat) :
    Takes (decodeFrom entries.length (last % word32)) bytes ((placed last entries).map cut) := by
  induction h generalizing last with
  | nil => exact .pure []
  | @cons first second rest gap positions entries hgap hpositions _ ih =>
      obtain ⟨hstep, hrest⟩ := List.forall_mem_cons.mp hsteps
      -- the remainder of the sum is that of the sum of remainders
      have hsum : (last % word32 + gap % word32) % word32 = (last + gap) % word32 :=
        (Nat.add_mod last gap word32).symm
      rw [List.length_cons]
      unfold decodeFrom
      refine (hgap.adapt Fault.read).bind ?_
      rw [if_neg hstep, hsum]
      exact (hpositions.adapt Fault.read).bind ((ih hrest (last + gap)).bind_pure (_ :: ·))

/-- What is read are gaps that do not vanish. -/
theorem gapped_of_decodeFrom {r r' : Wire.Reader} {l : List (Nat × List Nat)}
    (h : decodeFrom count last r = (.ok l, r')) :
    ∃ bytes entries, entries.length = count ∧ Gapped bytes entries ∧ Steps entries ∧
      r.rest = bytes ++ r'.rest := by
  induction count generalizing last r l with
  | zero =>
      cases h
      exact ⟨[], [], rfl, .nil, nofun, rfl⟩
  | succ count ih =>
      unfold decodeFrom at h
      obtain ⟨gap, r₁, hgap, h⟩ := Wire.bind_eq_ok h
      dsimp only at h
      split at h
      · cases h
      · next hstep =>
          obtain ⟨positions, r₂, hpositions, h⟩ := Wire.bind_eq_ok h
          obtain ⟨l', r₃, hrest, h⟩ := Wire.bind_eq_ok h
          cases h
          obtain ⟨first, hfirst, htakes⟩ := Wire.Read.local_varint r gap r₁ (Wire.adapt_eq_ok hgap)
          obtain ⟨second, hsecond, htakes'⟩ :=
            Wire.Read.local_ascending r₁ positions r₂ (Wire.adapt_eq_ok hpositions)
          obtain ⟨bytes, entries, hlength, hgapped, hsteps, hbytes⟩ := ih hrest
          refine ⟨_, (gap, positions) :: entries, congrArg _ hlength,
            .cons htakes htakes' hgapped, List.forall_mem_cons.mpr ⟨hstep, hsteps⟩, ?_⟩
          rw [hfirst, hsecond, hbytes, List.append_assoc, List.append_assoc]

/-- The list that is read. -/
def wrapped (entries : List (Nat × List Nat)) : Postings := ⟨.ofList ((placed 0 entries).map cut)⟩

theorem takes_wrapped (h : Encodes bytes entries) (hsteps : Steps entries) :
    Takes decode bytes (wrapped entries) := by
  obtain ⟨count, body, hcount, hgapped, rfl⟩ := h
  unfold decode
  exact (hcount.adapt Fault.read).bind
    ((takes_placed hgapped hsteps 0).bind_pure fun l => (⟨.ofList l⟩ : Postings))

/-- Bytes are read as a posting list if they start with one whose gaps do not vanish. -/
theorem decode_eq_ok_iff {r r' : Wire.Reader} :
    decode r = (.ok p, r') ↔ ∃ bytes entries, r.rest = bytes ++ r'.rest ∧
      r' = r.accept bytes r'.rest ∧ Encodes bytes entries ∧ Steps entries ∧
      p = wrapped entries := by
  constructor
  · intro h
    have hread := h
    unfold decode at h
    obtain ⟨count, r₁, hcount, h⟩ := Wire.bind_eq_ok h
    obtain ⟨l, r₂, hlist, h⟩ := Wire.bind_eq_ok h
    cases h
    obtain ⟨first, hfirst, htakes⟩ := Wire.Read.local_varint r count r₁ (Wire.adapt_eq_ok hcount)
    obtain ⟨body, entries, rfl, hgapped, hsteps, hbody⟩ := gapped_of_decodeFrom hlist
    have hencodes : Encodes (first ++ body) entries := ⟨first, body, htakes, hgapped, rfl⟩
    have hrest : r.rest = (first ++ body) ++ r'.rest := by
      rw [hfirst, hbody, List.append_assoc]
    have hwrapped := takes_wrapped hencodes hsteps r r'.rest hrest
    rw [hread] at hwrapped
    obtain ⟨hp, hr'⟩ := Prod.mk.inj hwrapped
    exact ⟨_, entries, hrest, hr', hencodes, hsteps, Except.ok.inj hp⟩
  · rintro ⟨bytes, entries, hrest, hr', hencodes, hsteps, rfl⟩
    rw [hr']
    exact takes_wrapped hencodes hsteps r _ hrest

/-! ## When reading is exact -/

/-- Gaps that lead to words give the list of the documents that they lead to. -/
theorem toList_wrapped (hsteps : Steps entries) (hreach : reach entries < word32) :
    (wrapped entries).toList = placed 0 entries := by
  have hcut : (placed 0 entries).map cut = placed 0 entries := by
    refine (List.map_congr_left fun e he => ?_).trans (List.map_id _)
    have hword := reach_of_mem_placed he
    rw [cut, Nat.mod_eq_of_lt (by omega)]
    rfl
  have hascend : KeysAscend (placed 0 entries) :=
    (placed_ascends hsteps 0).2.imp fun hless => Nat.compare_eq_lt.mpr hless
  rw [wrapped, toList, hcut]
  exact SortedMap.toList_ofList hascend

/-- A posting is lost where numbers coincide, and nowhere else. -/
theorem documentFrequency_wrapped_iff :
    (wrapped entries).documentFrequency = entries.length ↔
      ((placed 0 entries).map fun e => e.1 % word32).Nodup := by
  let numbers := (placed 0 entries).map fun e => e.1 % word32
  let keys := (wrapped entries).byNumber.keys
  have hsize : (wrapped entries).documentFrequency = keys.length := by
    simp [keys, SortedMap.keys, documentFrequency, SortedMap.size]
  have hlength : numbers.length = entries.length := by simp [numbers]
  have hmem : ∀ x, x ∈ keys ↔ x ∈ numbers := by
    intro x
    simp only [keys, wrapped, numbers]
    rw [SortedMap.mem_keys_ofList, List.map_map]
    rfl
  have hkeys : keys.Nodup := SortedMap.nodup_keys _
  rw [hsize, ← hlength]
  show keys.length = numbers.length ↔ numbers.Nodup
  constructor
  · intro hsame
    have hsub : keys.Subperm numbers := hkeys.subperm fun x hx => (hmem x).mp hx
    exact (hsub.perm_of_length_le (Nat.le_of_eq hsame.symm)).nodup_iff.mp hkeys
  · intro hdistinct
    exact ((List.perm_ext_iff_of_nodup hkeys hdistinct).mpr hmem).length_eq

/-- Reading answers an error, or just what the bytes say: as many documents as they count, which ascend
and are words, each at the sum of the gaps up to it. -/
def Exact (content : List UInt8) : Prop :=
  ∀ p r', decode { rest := content } = (.ok p, r') →
    ∃ bytes entries, content = bytes ++ r'.rest ∧ Encodes bytes entries ∧
      p.documentFrequency = entries.length ∧ p.toList = placed 0 entries ∧
      (p.toList.Pairwise fun a b => a.1 < b.1) ∧ ∀ e ∈ p.toList, e.1 < word32

theorem not_exact_of_reach (hencodes : Encodes bytes entries) (hsteps : Steps entries)
    (hreach : word32 ≤ reach entries) (behind : List UInt8) : ¬ Exact (bytes ++ behind) := by
  intro hexact
  obtain ⟨bytes', entries', hcontent, hencodes', -, hlist, -, hwords⟩ :=
    hexact _ _ (takes_wrapped hencodes hsteps { rest := bytes ++ behind } behind rfl)
  obtain rfl := hencodes.unique hencodes' hcontent
  have hne : entries' ≠ [] := by
    rintro rfl
    exact absurd hreach (by decide)
  obtain ⟨e, he, hlast⟩ := exists_placed_reach 0 hne
  have hword := hwords e (hlist ▸ he)
  omega

/-- Any bytes are read exactly if and only if no gaps that do not vanish modulo 2^32 lead beyond the
words. What is read in any case are the remainders of the documents that the gaps lead to, and there are
fewer than the bytes count if and only if two of these coincide. -/
theorem decode_exact_iff (content : List UInt8) :
    (Exact content ↔ ∀ bytes entries behind, content = bytes ++ behind → Encodes bytes entries →
      Steps entries → reach entries < word32) ∧
    (∀ p r', decode { rest := content } = (.ok p, r') ↔
      ∃ bytes entries, content = bytes ++ r'.rest ∧
        r' = Wire.Reader.accept { rest := content } bytes r'.rest ∧ Encodes bytes entries ∧
        Steps entries ∧ p = ⟨.ofList ((placed 0 entries).map cut)⟩) ∧
    ∀ bytes entries p r', Encodes bytes entries → content = bytes ++ r'.rest →
      decode { rest := content } = (.ok p, r') →
      (p.documentFrequency = entries.length ↔
        ((placed 0 entries).map fun e => e.1 % word32).Nodup) := by
  refine ⟨⟨?_, ?_⟩, fun p r' => decode_eq_ok_iff, ?_⟩
  · rintro hexact bytes entries behind rfl hencodes hsteps
    exact Nat.lt_of_not_le fun hreach => not_exact_of_reach hencodes hsteps hreach behind hexact
  · intro hwords p r' hread
    obtain ⟨bytes, entries, hrest, -, hencodes, hsteps, rfl⟩ := decode_eq_ok_iff.mp hread
    have hreach := hwords bytes entries r'.rest hrest hencodes hsteps
    have hlist := toList_wrapped hsteps hreach
    refine ⟨bytes, entries, hrest, hencodes, ?_, hlist, ?_, ?_⟩
    · show (wrapped entries).toList.length = entries.length
      rw [hlist, length_placed]
    · rw [hlist]
      exact (placed_ascends hsteps 0).2
    · intro e he
      have hword := reach_of_mem_placed (hlist ▸ he)
      omega
  · intro bytes entries p r' hencodes hcontent hread
    obtain ⟨bytes', entries', hrest, -, hencodes', -, rfl⟩ := decode_eq_ok_iff.mp hread
    obtain rfl := hencodes'.unique hencodes (hrest.symm.trans hcontent)
    exact documentFrequency_wrapped_iff

/-- Two postings whose gaps are 3 and 4 are read exactly. -/
theorem decode_exact_iff_apart :
    ∃ bytes p r', Encodes bytes [(3, [7]), (4, [9])] ∧ Exact bytes ∧
      decode { rest := bytes } = (.ok p, r') ∧ p.documentFrequency = 2 := by
  let bytes := Wire.Varint.encode 2 ++ written [(3, [7]), (4, [9])]
  have hencodes : Encodes bytes [(3, [7]), (4, [9])] :=
    encodes_written (by decide +kernel) (by decide)
  have hsteps : Steps [(3, [7]), (4, [9])] := by simp [Steps, word32]
  have hread := takes_wrapped hencodes hsteps { rest := bytes } [] (List.append_nil bytes).symm
  obtain ⟨hexact, -, hfrequency⟩ := decode_exact_iff bytes
  refine ⟨bytes, _, _, hencodes, hexact.mpr ?_, hread, ?_⟩
  · intro bytes' entries behind hbytes hencodes' _
    obtain rfl := hencodes.unique hencodes' ((List.append_nil bytes).trans hbytes)
    decide
  · exact (hfrequency _ _ _ _ hencodes (List.append_nil bytes).symm hread).mpr (by decide)

/-- A posting whose gap is 2^32 + 5. -/
def overlong : List UInt8 :=
  [0x01, 0x85, 0x80, 0x80, 0x80, 0x10, 0x01, 0x09]

/-- Three postings whose gaps 1, 2^32 - 1 and 1 lead once around. -/
def roundabout : List UInt8 :=
  [0x03, 0x01, 0x01, 0x07, 0xFF, 0xFF, 0xFF, 0xFF, 0x0F, 0x00, 0x01, 0x01, 0x09]

/-- A gap of 2^32 + 5 is read as one of 5, and of three postings whose gaps lead once around the last
one replaces the first. -/
theorem decode_merges :
    (Encodes overlong [(word32 + 5, [9])] ∧
      (∃ r', decode { rest := overlong } = (.ok ⟨.ofList [(5, [9])]⟩, r')) ∧ ¬ Exact overlong) ∧
    Encodes roundabout [(1, [7]), (word32 - 1, []), (1, [9])] ∧
    (∃ r', decode { rest := roundabout } = (.ok ⟨.ofList [(0, []), (1, [9])]⟩, r')) ∧
    ¬ Exact roundabout := by
  constructor
  · have hbytes : overlong = Wire.Varint.encode 1 ++ written [(word32 + 5, [9])] := by
      decide +kernel
    have hencodes : Encodes overlong [(word32 + 5, [9])] :=
      hbytes ▸ encodes_written (by decide +kernel) (by decide)
    have hsteps : Steps [(word32 + 5, [9])] := by simp [Steps, word32]
    refine ⟨hencodes, ⟨_, takes_wrapped hencodes hsteps _ [] rfl⟩, ?_⟩
    exact not_exact_of_reach hencodes hsteps (by decide) []
  · have hbytes : roundabout =
        Wire.Varint.encode 3 ++ written [(1, [7]), (word32 - 1, []), (1, [9])] := by
      decide +kernel
    have hencodes : Encodes roundabout [(1, [7]), (word32 - 1, []), (1, [9])] :=
      hbytes ▸ encodes_written (by decide +kernel) (by decide)
    have hsteps : Steps [(1, [7]), (word32 - 1, []), (1, [9])] := by simp [Steps, word32]
    refine ⟨hencodes, ⟨_, takes_wrapped hencodes hsteps _ [] rfl⟩, ?_⟩
    exact not_exact_of_reach hencodes hsteps (by decide) []

end Concordance.Postings
