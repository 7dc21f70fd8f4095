import Concordance.Metadata.Schema
import Concordance.Proofs.Wire.Codec

/-!
# Schemas are read back

Every schema is read back from its bytes: reading checks the columns, and those of a schema pass.
-/

namespace Concordance.Schema

open Wire (Codec)

theorem ofColumns_columns (s : Schema) : ofColumns s.columns = .ok s := by
  unfold ofColumns
  split
  · rfl
  · next fault hfault =>
      rw [s.valid] at hfault
      cases hfault

theorem faithful_typeCodec : typeCodec.Faithful fun _ => True :=
  Codec.faithful_placeIn (by decide) fun t => by cases t <;> decide

theorem faithful_aggregateCodec : aggregateCodec.Faithful fun _ => True := by
  have hkind := Codec.faithful_placeIn (show allAggregates.length < Wire.word32 by decide)
    fun kind => by cases kind <;> decide
  exact ((hkind.pair Codec.faithful_text).imap fun _ => rfl).mono fun _ _ => ⟨trivial, trivial⟩

theorem faithful_columnCodec : columnCodec.Faithful fun _ => True :=
  ((Codec.faithful_text.pair (faithful_typeCodec.pair faithful_aggregateCodec.option)).imap
    fun _ => rfl).mono fun _ _ => ⟨trivial, trivial, fun _ _ => trivial⟩

theorem faithful_codec : codec.Faithful fun _ => True :=
  (faithful_columnCodec.list.refine fun s => by rw [ofColumns_columns]; rfl).mono
    fun _ _ _ _ => trivial

end Concordance.Schema
