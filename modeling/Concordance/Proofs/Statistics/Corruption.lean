import Concordance.Proofs.Statistics.Merging
import Concordance.Proofs.Wire.Checksum
import Concordance.Proofs.Wire.Extent

/-!
# Blobs fail closed

A byte string is read as a blob only if it is the fields of a message followed by their checksum
(`Blob.decode_eq_ok`). The fields tell where they end, so no blob is the beginning of another
(`Blob.eq_nil_of_decode`), and the checksum tells single bytes apart, so no two blobs differ in one
byte only (`Blob.eq_of_decode`). What is not read leaves a replica as it was.
-/

namespace Concordance.Statistics.Blob

open Wire (Local Takes Read Decoding Reader withChecksum)

/-! ## Fields -/

theorem local_ofRead {α : Type} {read : Read α} (h : Local read) : Local (ofRead read) := h.adapt _

theorem local_change : Local decodeChange :=
  Read.local_text.bind fun _ => Read.local_text.bind fun _ => Read.local_signed.bind fun _ =>
    .pure _

theorem local_shared (types : List String) (count : Nat) (previous : List Char) :
    Local (decodeShared types count previous) := by
  induction count generalizing previous with
  | zero => exact .pure []
  | succ count ih =>
      refine (local_ofRead Read.local_varint).bind fun index => ?_
      refine (local_ofRead Read.local_varint).bind fun shared => ?_
      refine (local_ofRead Read.local_text).bind fun suffix => ?_
      refine (local_ofRead Read.local_signed).bind fun increment => ?_
      cases types[index]? with
      | none => exact .throw _
      | some type =>
          cases takeBytes? shared previous with
          | none => exact .throw _
          | some beginning => exact (ih _).bind fun _ => .pure _

theorem local_changes (encoding : Encoding) (count : Nat) :
    Local (decodeChanges encoding count) := by
  cases encoding with
  | standard => exact local_ofRead (Read.local_times local_change count)
  | compact =>
      refine (local_ofRead ?_).bind fun types => local_shared types count []
      exact Read.local_varint.bind fun _ => Read.local_times Read.local_text _

/-- The fields of a blob, in front of its checksum. -/
def decodeFields : Decoding Fault Message := do
  if (← ofRead (Read.raw 4)) ≠ magic then throw .notABlob
  let found ← ofRead (Read.fixed 2)
  if found ≠ version then throw (.version found)
  let tag ← ofRead (Read.fixed 1)
  let some encoding := Encoding.ofTag? tag | throw (.encoding tag)
  let tag ← ofRead (Read.fixed 1)
  let some origin := Origin.ofTag? tag | throw (.origin tag)
  let seconds ← ofRead (Read.fixed 8)
  let counter ← ofRead (Read.fixed 8)
  let part ← ofRead (Read.fixed 4)
  let documents ← ofRead Read.signed
  let count ← ofRead Read.varint
  let changes ← decodeChanges encoding count
  return ⟨⟨seconds, counter⟩, part, origin, encoding, documents, changes⟩

/-- What a blob has to end with behind the fields of a message. -/
def conclude (length : Nat) (m : Message) : Decoding Fault Message := do
  if !(← ofRead Read.checksum) then throw .checksum
  if (← get).position + 4 ≠ length then throw .trailing
  return m

/-- A blob is read as its fields and then what it has to end with. -/
theorem decodeFrom_eq (length : Nat) : decodeFrom length = decodeFields >>= conclude length := by
  unfold decodeFrom decodeFields
  rw [bind_assoc]
  refine bind_congr fun start => ?_
  by_cases hmagic : start ≠ magic
  · rw [if_pos hmagic, if_pos hmagic]
    rfl
  rw [if_neg hmagic, if_neg hmagic, bind_assoc]
  refine bind_congr fun found => ?_
  by_cases hversion : found ≠ version
  · rw [if_pos hversion, if_pos hversion]
    rfl
  rw [if_neg hversion, if_neg hversion, bind_assoc]
  refine bind_congr fun tag => ?_
  cases Encoding.ofTag? tag with
  | none => rfl
  | some encoding =>
      dsimp only
      rw [bind_assoc]
      refine bind_congr fun tag => ?_
      cases Origin.ofTag? tag with
      | none => rfl
      | some origin =>
          dsimp only
          simp only [bind_assoc, pure_bind]
          rfl

theorem local_fields : Local decodeFields := by
  unfold decodeFields
  refine (local_ofRead (Read.local_raw 4)).bind fun start => ?_
  refine .ite nofun ?_
  refine (local_ofRead (Read.local_fixed 2)).bind fun found => ?_
  refine .ite nofun ?_
  refine (local_ofRead (Read.local_fixed 1)).bind fun tag => ?_
  cases Encoding.ofTag? tag with
  | none => exact .throw _
  | some encoding =>
      refine (local_ofRead (Read.local_fixed 1)).bind fun tag => ?_
      cases Origin.ofTag? tag with
      | none => exact .throw _
      | some origin =>
          refine (local_ofRead (Read.local_fixed 8)).bind fun seconds => ?_
          refine (local_ofRead (Read.local_fixed 8)).bind fun counter => ?_
          refine (local_ofRead (Read.local_fixed 4)).bind fun part => ?_
          refine (local_ofRead Read.local_signed).bind fun documents => ?_
          refine (local_ofRead Read.local_varint).bind fun count => ?_
          exact (local_changes encoding count).bind fun changes => .pure _

/-! ## Blobs that are read -/

variable {bytes : List UInt8} {m : Message}

theorem conclude_eq_ok {length : Nat} {a : Message} {r r' : Reader}
    (h : conclude length a r = (.ok m, r')) :
    a = m ∧ r.position + 4 = length ∧
      r.rest = Wire.littleEndian 4 (Wire.Checksum.finish r.state).toNat ++ r'.rest := by
  unfold conclude at h
  obtain ⟨right, r₁, hchecksum, h⟩ := Wire.bind_eq_ok h
  cases right with
  | false => cases h
  | true =>
      obtain ⟨hrest, hposition⟩ := Read.checksum_eq_true (Wire.adapt_eq_ok hchecksum)
      rw [if_neg (by decide)] at h
      beta_reduce at h
      rw [Wire.bind_get] at h
      by_cases htrailing : r₁.position + 4 ≠ length
      · rw [if_pos htrailing] at h
        cases h
      · rw [if_neg htrailing] at h
        cases h
        exact ⟨rfl, by omega, hrest⟩

/-- What is read as a blob is the fields of a message with their checksum behind them. -/
theorem decode_eq_ok (h : decode bytes = .ok m) :
    ∃ fields, Takes decodeFields fields m ∧ bytes = withChecksum fields := by
  let r₀ : Reader := { rest := bytes }
  obtain ⟨r', hread⟩ : ∃ r', (decodeFields >>= conclude bytes.length) r₀ = (.ok m, r') := by
    rw [← decodeFrom_eq]
    exact ⟨_, Prod.ext h rfl⟩
  obtain ⟨a, r₁, hfields, hend⟩ := Wire.bind_eq_ok hread
  obtain ⟨rfl, hposition, hcheck⟩ := conclude_eq_ok hend
  obtain ⟨fields, hrest, htakes⟩ := local_fields r₀ a r₁ hfields
  -- the reader stands behind the fields, so it has their checksum and their length
  rw [htakes r₀ r₁.rest hrest] at hfields
  obtain ⟨-, hreader⟩ := Prod.mk.inj hfields
  rw [← hreader] at hposition hcheck
  have hcheck : r₁.rest = Wire.littleEndian 4 (Wire.Checksum.crc32 fields).toNat ++ r'.rest := hcheck
  have hposition : 0 + fields.length + 4 = bytes.length := hposition
  have hbytes : bytes = withChecksum fields ++ r'.rest := by
    rw [withChecksum, List.append_assoc, ← hcheck]
    exact hrest
  have hnil : r'.rest = [] := by
    have hlength := congrArg List.length hbytes
    rw [List.length_append, Wire.length_withChecksum] at hlength
    exact List.eq_nil_of_length_eq_zero (by omega)
  exact ⟨fields, htakes, by rw [hbytes, hnil, List.append_nil]⟩

/-- Blobs do not differ in a single byte. -/
theorem eq_of_decode {before after : List UInt8} {a b : UInt8} {m m' : Message}
    (h : decode (before ++ a :: after) = .ok m) (h' : decode (before ++ b :: after) = .ok m') :
    a = b := by
  obtain ⟨fields, -, hfields⟩ := decode_eq_ok h
  obtain ⟨fields', -, hfields'⟩ := decode_eq_ok h'
  exact Wire.eq_of_withChecksum_eq hfields.symm hfields'.symm

/-- No blob is the beginning of another. -/
theorem eq_nil_of_decode {more : List UInt8} {m m' : Message} (h : decode bytes = .ok m)
    (h' : decode (bytes ++ more) = .ok m') : more = [] := by
  obtain ⟨fields, htakes, rfl⟩ := decode_eq_ok h
  obtain ⟨fields', htakes', heq⟩ := decode_eq_ok h'
  rw [withChecksum, withChecksum, List.append_assoc] at heq
  -- both begin with the same fields, so both have the length of these and a checksum
  obtain ⟨rfl, -⟩ := htakes.unique htakes' heq
  have hlength := congrArg List.length (List.append_cancel_left heq)
  rw [List.length_append] at hlength
  exact List.eq_nil_of_length_eq_zero (by omega)

/-! ## Bytes that are not -/

/-- Bytes that reading refuses with a consistency error. -/
def Refused (bytes : List UInt8) : Prop := ∃ text, read bytes = .error (.consistency text)

/-- Bytes are read or refused. -/
theorem read_or_refused (bytes : List UInt8) : (∃ m, read bytes = .ok m) ∨ Refused bytes := by
  unfold Refused read
  cases decode bytes with
  | ok m => exact .inl ⟨m, rfl⟩
  | error fault => exact .inr ⟨fault.message, rfl⟩

theorem refused_of_decode_ne (h : ∀ m, decode bytes ≠ .ok m) : Refused bytes := by
  refine (read_or_refused bytes).resolve_left fun ⟨m, hread⟩ => h m ?_
  exact Fallible.mapError_eq_ok.mp hread

/-- A blob with one byte changed, cut off or added to is refused, and so is whatever is not read as
a message; what is refused leaves a replica as it was. -/
theorem blobs_fail_closed {m : Message} (h : m.InRange) :
    (∀ i byte, (hi : i < (encode m).length) → byte ≠ (encode m)[i] →
        Refused ((encode m).set i byte)) ∧
      (∀ count, count < (encode m).length → Refused ((encode m).take count)) ∧
      (∀ more, more ≠ [] → Refused (encode m ++ more)) ∧
      (∀ bytes, (∃ m', read bytes = .ok m') ∨ Refused bytes) ∧
      ∀ bytes (r : Replica), Refused bytes →
        ∃ text, Replica.receiveBlob bytes r = (.error (.consistency text), r) := by
  have hdecode := decode_encode h
  refine ⟨fun i byte hi hne => ?_, fun count hcount => ?_, fun more hmore => ?_, read_or_refused,
    fun bytes r ⟨text, hread⟩ => ?_⟩
  · refine refused_of_decode_ne fun m' hchanged => hne ?_
    rw [List.set_eq_take_append_cons_drop, if_pos hi] at hchanged
    rw [← List.take_append_drop i (encode m), List.drop_eq_getElem_cons hi] at hdecode
    exact eq_of_decode hchanged hdecode
  · refine refused_of_decode_ne fun m' hcut => ?_
    rw [← List.take_append_drop count (encode m)] at hdecode
    have hnil := eq_nil_of_decode hcut hdecode
    rw [List.drop_eq_nil_iff] at hnil
    omega
  · exact refused_of_decode_ne fun m' hlonger => hmore (eq_nil_of_decode hdecode hlonger)
  · refine ⟨text, ?_⟩
    rw [Replica.receiveBlob_eq, Replica.applyBlob, hread]
    rfl

/-- A message about one word of one new document. -/
def wordCounted : Message where
  timestamp := ⟨1700000000, 1⟩
  part := 0
  origin := .update
  encoding := .compact
  documents := 1
  changes := [⟨⟨"word", "straße"⟩, 1⟩]

theorem word_counted_fails_closed :
    wordCounted.InRange ∧ Refused ((encode wordCounted).set 35 0x53) ∧
      Refused ((encode wordCounted).take 40) ∧ Refused (encode wordCounted ++ [0]) := by
  have h : wordCounted.InRange := by decide +kernel
  obtain ⟨hchanged, hcut, hlonger, -⟩ := blobs_fail_closed h
  refine ⟨h, hchanged 35 0x53 ?_ ?_, hcut 40 ?_, hlonger [0] (by decide)⟩
  · decide +kernel
  · decide +kernel
  · decide +kernel

end Concordance.Statistics.Blob
