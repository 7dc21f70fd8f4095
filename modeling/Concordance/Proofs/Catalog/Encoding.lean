import Concordance.Proofs.Catalog.Postings
import Concordance.Proofs.Wire.Reader
import Concordance.Recovery.Checkpoint

/-!
# Posting lists are read back

The gaps of a posting list add up to its document numbers again (`Postings.takes_decode_of_counts`),
and the terms of an index are read back with their lists (`Checkpoint.takes_terms`). Counts have to fit
their fields, and do so where the bytes can be counted, since whatever is counted takes a byte at least.
-/

namespace Concordance

open Wire (Takes word32 word64)

namespace Wire

theorem length_encode_pos (n : Nat) : 0 < (Varint.encode n).length :=
  List.length_pos_iff.mpr (Varint.encode_ne_nil n)

theorem length_gaps (last : Nat) (values : List Nat) : (gaps last values).length = values.length := by
  induction values generalizing last with
  | nil => rfl
  | cons value rest ih => simp [gaps, ih]

/-- Every number takes a byte at least. -/
theorem length_le_encodeAscending (values : List Nat) :
    values.length ≤ (encodeAscending values).length := by
  have hbytes : ∀ l : List Nat, l.length ≤ (l.flatMap Varint.encode).length := by
    intro l
    induction l with
    | nil => simp
    | cons n rest ih =>
        have hpos := length_encode_pos n
        simp only [List.flatMap_cons, List.length_append, List.length_cons]
        omega
  have hgaps := hbytes (gaps 0 values)
  rw [length_gaps] at hgaps
  simp only [encodeAscending, List.length_append]
  omega

end Wire

namespace Postings

/-- Every document takes a byte at least. -/
theorem length_le_encodeFrom (last : Nat) (l : List (Nat × List Nat)) :
    l.length ≤ (encodeFrom last l).length := by
  induction l generalizing last with
  | nil => simp [encodeFrom]
  | cons entry rest ih =>
      have hrest := ih entry.1
      have hpos := Wire.length_encode_pos (entry.1 - last)
      simp only [encodeFrom, List.length_append, List.length_cons]
      omega

/-- Document numbers and positions are words. -/
def InRange (l : List (Nat × List Nat)) : Prop :=
  ∀ e ∈ l, e.1 < word32 ∧ ∀ position ∈ e.2, position < word32

/-- Every position takes a byte at least. -/
theorem length_positions_le_encodeFrom (last : Nat) {l : List (Nat × List Nat)}
    {e : Nat × List Nat} (he : e ∈ l) : e.2.length ≤ (encodeFrom last l).length := by
  induction l generalizing last with
  | nil => cases he
  | cons entry rest ih =>
      simp only [encodeFrom, List.length_append]
      rcases List.mem_cons.mp he with rfl | he
      · have hcount := Wire.length_le_encodeAscending e.2
        omega
      · have hrest := ih entry.1 he
        omega

/-- Ascending documents behind a document are read back from their gaps. -/
theorem takes_from {l : List (Nat × List Nat)} {last : Nat} (hrange : InRange l)
    (hcounts : ∀ e ∈ l, e.2.length < word64) (hlast : ∀ e ∈ l, last < e.1)
    (hascend : l.Pairwise fun a b => a.1 < b.1) :
    Takes (decodeFrom l.length last) (encodeFrom last l) l := by
  induction l generalizing last with
  | nil => exact .pure []
  | cons entry rest ih =>
      obtain ⟨number, positions⟩ := entry
      obtain ⟨hhead, htail⟩ := List.pairwise_cons.mp hascend
      obtain ⟨hnumber, hpositions⟩ := hrange _ List.mem_cons_self
      obtain ⟨hlength, hcounts'⟩ := List.forall_mem_cons.mp hcounts
      have hless : last < number := hlast _ List.mem_cons_self
      dsimp only at hnumber hpositions hhead
      have hword : word32 < word64 := by decide
      -- a gap below 2^32 is its own remainder, and so is the number that it leads to
      have hgap : (number - last) % word32 = number - last := Nat.mod_eq_of_lt (by omega)
      have hsum : (last + (number - last)) % word32 = number := by
        rw [Nat.add_sub_cancel' (Nat.le_of_lt hless), Nat.mod_eq_of_lt hnumber]
      have hrest : Takes (decodeFrom rest.length number) (encodeFrom number rest) rest := by
        apply ih
        · intro e he
          exact hrange e (List.mem_cons_of_mem _ he)
        · exact hcounts'
        · exact hhead
        · exact htail
      have hread : Takes (Wire.Read.ascending.adapt Fault.read) (Wire.encodeAscending positions)
          positions := by
        apply Takes.adapt
        exact Wire.Read.takes_ascending hlength hpositions
      have hfirst : Takes (Wire.Read.varint.adapt Fault.read) (Wire.Varint.encode (number - last))
          (number - last) := by
        apply Takes.adapt
        exact Wire.Read.takes_varint (by omega)
      rw [show encodeFrom last ((number, positions) :: rest) =
        Wire.Varint.encode (number - last) ++ (Wire.encodeAscending positions ++
          encodeFrom number rest) by simp [encodeFrom]]
      rw [List.length_cons]
      unfold decodeFrom
      refine hfirst.bind ?_
      rw [hgap, if_neg (by omega), hsum]
      exact hread.bind (hrest.bind_pure ((number, positions) :: ·))

/-- A posting list is read back if its counts are words. -/
theorem takes_decode_of_counts {p : Postings} (hrange : InRange p.toList)
    (hpos : ∀ e ∈ p.toList, 0 < e.1) (hnumbers : p.documentFrequency < word64)
    (hpositions : ∀ e ∈ p.toList, e.2.length < word64) : Takes decode p.encode p := by
  have hlist : Takes (decodeFrom p.documentFrequency 0) (encodeFrom 0 p.toList) p.toList :=
    takes_from hrange hpositions hpos p.byNumber.ascending.lt
  have hmap : (⟨.ofList p.toList⟩ : Postings) = p := by
    rw [toList, SortedMap.ofList_toList]
  have hread := (Wire.Read.takes_varint hnumbers).adapt Fault.read
  have hbuild : Takes (do return ⟨.ofList (← decodeFrom p.documentFrequency 0)⟩)
      (encodeFrom 0 p.toList) p := by
    have hall := hlist.bind_pure fun l => (⟨.ofList l⟩ : Postings)
    rwa [hmap] at hall
  unfold decode
  exact hread.bind hbuild

/-- A posting list is read back if its bytes can be counted. -/
theorem takes_decode {p : Postings} (hrange : InRange p.toList) (hpos : ∀ e ∈ p.toList, 0 < e.1)
    (hlength : p.encode.length < word64) : Takes decode p.encode p := by
  have hcount := length_le_encodeFrom 0 p.toList
  simp only [encode, List.length_append] at hlength
  apply takes_decode_of_counts hrange hpos
  · change p.toList.length < word64
    omega
  · intro e he
    have hpositions := length_positions_le_encodeFrom 0 he
    omega

end Postings

namespace Checkpoint

/-- Every term takes a byte at least. -/
theorem length_le_encodeTerms (l : List (Term × Postings)) :
    l.length ≤ (l.flatMap encodeTerm).length := by
  induction l with
  | nil => simp
  | cons entry rest ih =>
      have hpos := Wire.length_encode_pos (Wire.textBytes entry.1.type).length
      simp only [List.flatMap_cons, List.length_append, List.length_cons, encodeTerm,
        Wire.encodeText, Wire.lengthPrefixed]
      omega

/-- Terms are read back with their posting lists. -/
theorem takes_terms {l : List (Term × Postings)}
    (hrange : ∀ e ∈ l, Postings.InRange e.2.toList)
    (hpos : ∀ e ∈ l, ∀ d ∈ e.2.toList, 0 < d.1)
    (hlength : (l.flatMap encodeTerm).length < word64) :
    Takes (decodeTerms l.length) (l.flatMap encodeTerm) l := by
  induction l with
  | nil => exact .pure []
  | cons entry rest ih =>
      obtain ⟨⟨type, value⟩, list⟩ := entry
      rw [List.flatMap_cons, List.length_append] at hlength
      have hentry : (encodeTerm (⟨type, value⟩, list)).length < word64 := by omega
      simp only [encodeTerm, Wire.encodeText, Wire.lengthPrefixed, List.length_append] at hentry
      have htype : Takes (Wire.Read.text.adapt Fault.read) (Wire.encodeText type) type :=
        (Wire.Read.takes_text (by omega)).adapt _
      have hvalue : Takes (Wire.Read.text.adapt Fault.read) (Wire.encodeText value) value :=
        (Wire.Read.takes_text (by omega)).adapt _
      have hlist : Takes (Postings.decode.adapt Fault.postings) list.encode list := by
        apply Takes.adapt
        apply Postings.takes_decode
        · exact hrange _ List.mem_cons_self
        · exact hpos _ List.mem_cons_self
        · omega
      have hrest : Takes (decodeTerms rest.length) (rest.flatMap encodeTerm) rest := by
        apply ih
        · intro e he
          exact hrange e (List.mem_cons_of_mem _ he)
        · intro e he
          exact hpos e (List.mem_cons_of_mem _ he)
        · omega
      rw [show ((⟨type, value⟩, list) :: rest).flatMap encodeTerm =
        Wire.encodeText type ++ (Wire.encodeText value ++ (list.encode ++
          rest.flatMap encodeTerm)) by simp [encodeTerm]]
      rw [List.length_cons]
      unfold decodeTerms
      exact htype.bind (hvalue.bind (hlist.bind (hrest.bind_pure
        ((⟨type, value⟩, list) :: ·))))

end Checkpoint

end Concordance
