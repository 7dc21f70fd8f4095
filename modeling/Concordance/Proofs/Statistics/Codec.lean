import Concordance.Proofs.Wire.Codec
import Concordance.Proofs.Wire.Varint
import Concordance.Statistics.Basic

/-!
# Statistics are read back

Timestamps, terms, changes and records are read back from their bytes, provided that their numbers
are words of 64 bits.
-/

namespace Concordance

theorem Wire.lt_word64_iff {n : Nat} : n < word64 ↔ n < 256 ^ 8 := by
  rw [show word64 = 256 ^ 8 by decide]

theorem Wire.lt_word32_iff {n : Nat} : n < word32 ↔ n < 256 ^ 4 := by
  rw [show word32 = 256 ^ 4 by decide]

namespace Statistics

open Wire (Codec word64)

/-- Both parts of a timestamp are words of 64 bits. -/
structure TimeStamp.InRange (t : TimeStamp) : Prop where
  seconds : t.seconds < word64
  counter : t.counter < word64

/-- The numbers of a record are words of 64 bits. -/
structure Record.InRange (r : Record) : Prop where
  timestamp : r.timestamp.InRange
  documents : Wire.IsInt64 r.documents
  changes : ∀ c ∈ r.changes, Wire.IsInt64 c.increment

instance (t : TimeStamp) : Decidable t.InRange :=
  decidable_of_iff (t.seconds < word64 ∧ t.counter < word64)
    ⟨fun h => ⟨h.1, h.2⟩, fun h => ⟨h.seconds, h.counter⟩⟩

instance (r : Record) : Decidable r.InRange :=
  decidable_of_iff (r.timestamp.InRange ∧ Wire.IsInt64 r.documents ∧
    ∀ c ∈ r.changes, Wire.IsInt64 c.increment)
    ⟨fun h => ⟨h.1, h.2.1, h.2.2⟩, fun h => ⟨h.timestamp, h.documents, h.changes⟩⟩

theorem TimeStamp.faithful_codec : TimeStamp.codec.Faithful TimeStamp.InRange := by
  have h8 := Codec.faithful_nat (show 0 < 8 by decide)
  refine Codec.Faithful.mono ((h8.pair h8).imap fun _ => rfl) fun t ht => ?_
  exact ⟨Wire.lt_word64_iff.mp ht.seconds, Wire.lt_word64_iff.mp ht.counter⟩

theorem faithful_termCodec : termCodec.Faithful fun _ => True :=
  ((Codec.faithful_text.pair Codec.faithful_text).imap fun _ => rfl).mono
    fun _ _ => ⟨trivial, trivial⟩

theorem faithful_changeCodec : changeCodec.Faithful fun c => Wire.IsInt64 c.increment :=
  ((faithful_termCodec.pair Codec.faithful_int).imap fun _ => rfl).mono fun _ hc => ⟨trivial, hc⟩

theorem Record.faithful_codec : Record.codec.Faithful Record.InRange := by
  refine Codec.Faithful.mono ((TimeStamp.faithful_codec.pair
    (Codec.faithful_int.pair faithful_changeCodec.list)).imap fun _ => rfl) fun r hr => ?_
  exact ⟨hr.timestamp, hr.documents, hr.changes⟩

end Statistics

end Concordance
