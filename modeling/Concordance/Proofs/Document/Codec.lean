import Concordance.Document.Codec
import Concordance.Proofs.Statistics.Codec

/-!
# Documents are read back

Documents as they are handed in and as they are stored are read back from their bytes, provided
that numbers are words of 64 bits and positions words of 32 bits.
-/

namespace Concordance

open Wire (Codec word32 word64)

/-- A number is a word of 64 bits. -/
def Numeric.InRange : Numeric → Prop
  | .int n => Wire.IsInt64 n
  | .uint n => n < word64
  | .double _ => True

/-- The numbers of a document are words. -/
structure Document.InRange (d : Document) : Prop where
  metadata : ∀ e ∈ d.metadata.toList, e.2.InRange
  search : ∀ o ∈ d.search, o.position < word32
  forward : ∀ o ∈ d.forward, o.position < word32

/-- The positions of a stored document are words. -/
structure StoredDocument.InRange (d : StoredDocument) : Prop where
  forward : ∀ e ∈ d.forward.toList, ∀ entry ∈ e.2, entry.position < word32
  search : ∀ e ∈ d.search.toList, ∀ position ∈ e.2, position < word32

instance : DecidablePred Numeric.InRange
  | .int n => inferInstanceAs (Decidable (Wire.IsInt64 n))
  | .uint n => inferInstanceAs (Decidable (n < word64))
  | .double _ => .isTrue trivial

instance (d : Document) : Decidable d.InRange :=
  decidable_of_iff ((∀ e ∈ d.metadata.toList, e.2.InRange) ∧ (∀ o ∈ d.search, o.position < word32) ∧
    ∀ o ∈ d.forward, o.position < word32)
    ⟨fun h => ⟨h.1, h.2.1, h.2.2⟩, fun h => ⟨h.metadata, h.search, h.forward⟩⟩

instance (d : StoredDocument) : Decidable d.InRange :=
  decidable_of_iff ((∀ e ∈ d.forward.toList, ∀ entry ∈ e.2, entry.position < word32) ∧
    ∀ e ∈ d.search.toList, ∀ position ∈ e.2, position < word32)
    ⟨fun h => ⟨h.1, h.2⟩, fun h => ⟨h.forward, h.search⟩⟩

theorem Numeric.faithful_codec : Numeric.codec.Faithful Numeric.InRange where
  nonempty v := by cases v <;> exact Codec.tagged_ne_nil _ _
  reads v hv hlength rest := by
    cases v with
    | int n =>
        have hshort := Codec.length_tagged 0 (Codec.int.encode n) ▸ hlength
        refine (Codec.decodeTagged_tagged (by rfl) (by decide) _ rest).trans ?_
        exact Codec.faithful_int.branch hv (by omega) Numeric.int rest
    | uint n =>
        have hshort := Codec.length_tagged 1 ((Codec.nat 8).encode n) ▸ hlength
        refine (Codec.decodeTagged_tagged (by rfl) (by decide) _ rest).trans ?_
        exact (Codec.faithful_nat (by decide)).branch (Wire.lt_word64_iff.mp hv) (by omega)
          Numeric.uint rest
    | double x =>
        have hshort := Codec.length_tagged 2 (Codec.double.encode x) ▸ hlength
        refine (Codec.decodeTagged_tagged (by rfl) (by decide) _ rest).trans ?_
        exact Codec.faithful_double.branch trivial (by omega) Numeric.double rest

theorem Occurrence.faithful_codec : Occurrence.codec.Faithful fun o => o.position < word32 := by
  have h4 := Codec.faithful_nat (show 0 < 4 by decide)
  refine Codec.Faithful.mono ((Codec.faithful_text.pair (Codec.faithful_text.pair h4)).imap
    fun _ => rfl) fun o ho => ?_
  exact ⟨trivial, trivial, Wire.lt_word32_iff.mp ho⟩

theorem Document.faithful_codec : Document.codec.Faithful Document.InRange := by
  have htext := Codec.faithful_text
  refine Codec.Faithful.mono (((htext.map htext).pair ((htext.map Numeric.faithful_codec).pair
    (Occurrence.faithful_codec.list.pair
      (Occurrence.faithful_codec.list.pair htext.list)))).imap fun _ => rfl) fun d hd => ?_
  exact ⟨fun _ _ => ⟨trivial, trivial⟩, fun e he => ⟨trivial, hd.metadata e he⟩, hd.search,
    hd.forward, fun _ _ => trivial⟩

theorem ForwardEntry.faithful_codec : ForwardEntry.codec.Faithful fun e => e.position < word32 := by
  have h4 := Codec.faithful_nat (show 0 < 4 by decide)
  refine Codec.Faithful.mono ((h4.pair Codec.faithful_text).imap fun _ => rfl) fun e he => ?_
  exact ⟨Wire.lt_word32_iff.mp he, trivial⟩

theorem StoredDocument.faithful_codec : StoredDocument.codec.Faithful StoredDocument.InRange := by
  have htext := Codec.faithful_text
  have h4 := Codec.faithful_nat (show 0 < 4 by decide)
  refine Codec.Faithful.mono ((htext.pair ((htext.map htext).pair
    ((htext.map ForwardEntry.faithful_codec.list).pair
      ((Statistics.faithful_termCodec.map h4.list).pair htext.list)))).imap fun _ => rfl)
    fun d hd => ?_
  exact ⟨trivial, fun _ _ => ⟨trivial, trivial⟩, fun e he => ⟨trivial, hd.forward e he⟩,
    fun e he => ⟨trivial, fun p hp => Wire.lt_word32_iff.mp (hd.search e he p hp)⟩,
    fun _ _ => trivial⟩

end Concordance
