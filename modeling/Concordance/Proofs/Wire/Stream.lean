import Concordance.Proofs.Wire.Extent
import Concordance.Wire.Field

/-!
# Streams are read back

Writer and reader go through a stream side by side: behind the fields that one has put there and the
other has taken off, both have counted the same bytes and are in the same checksum state
(`readAll_of_encodeAll`). So the checksum behind the last field is found right
(`readStream_of_encodeAll`), and since no read looks beyond what it takes, a stream that is cut off
anywhere is not read to its end (`readStream_of_cut`).
-/

namespace Concordance.Wire

/-- A field holds a value of its type. -/
def Field.Fits : Field → Prop
  | fixed width value => value < 256 ^ width
  | varint value => value < word64
  | signed value => IsInt64 value
  | text value => (textBytes value).length < word64
  | bytes value => value.length < word64
  | raw _ => True
  | ascending values => values.length < word64 ∧ ∀ v ∈ values, v < word32

instance : DecidablePred Field.Fits
  | .fixed width value => inferInstanceAs (Decidable (value < 256 ^ width))
  | .varint value => inferInstanceAs (Decidable (value < word64))
  | .signed value => inferInstanceAs (Decidable (IsInt64 value))
  | .text value => inferInstanceAs (Decidable ((textBytes value).length < word64))
  | .bytes value => inferInstanceAs (Decidable (value.length < word64))
  | .raw _ => .isTrue trivial
  | .ascending values =>
    inferInstanceAs (Decidable (values.length < word64 ∧ ∀ v ∈ values, v < word32))

/-! ## Writing -/

namespace Writer

theorem write_nil (w : Writer) : w.write [] = w := by
  unfold write
  rw [List.append_nil]
  rfl

theorem write_write (w : Writer) (a b : List UInt8) : (w.write a).write b = w.write (a ++ b) := by
  simp only [write, Checksum.advance_append, List.append_assoc, List.length_append, Nat.add_assoc]

theorem foldl_writeVarint (w : Writer) (values : List Nat) :
    values.foldl writeVarint w = w.write (values.flatMap Varint.encode) := by
  induction values generalizing w with
  | nil => exact (write_nil w).symm
  | cons value rest ih =>
      rw [List.foldl_cons, ih, List.flatMap_cons]
      exact write_write w _ _

/-- The pieces of a field add up to its bytes. -/
theorem put_eq (w : Writer) (f : Field) : w.put f = w.write f.encode := by
  cases f with
  | fixed | varint | signed | raw => rfl
  | text | bytes => exact write_write w _ _
  | ascending values =>
      show (gaps 0 values).foldl writeVarint (w.writeVarint values.length) = _
      rw [foldl_writeVarint]
      exact write_write w _ _

theorem putAll_eq (w : Writer) (fields : List Field) :
    w.putAll fields = w.write (fields.flatMap Field.encode) := by
  induction fields generalizing w with
  | nil => exact (write_nil w).symm
  | cons f rest ih =>
      show (w.put f).putAll rest = _
      rw [ih, put_eq, write_write, List.flatMap_cons]

end Writer

/-- A stream is what its fields are written as, closed by the checksum of it all. -/
theorem Field.encodeAll_eq (fields : List Field) :
    encodeAll fields = withChecksum (fields.flatMap encode) := by
  unfold encodeAll
  rw [Writer.putAll_eq]
  rfl

/-! ## Reading -/

namespace FieldKind

/-- A field is read back by the read of its kind. -/
theorem takes_read {f : Field} (h : f.Fits) : Takes f.kind.read f.encode f := by
  cases f with
  | fixed => exact (Read.takes_fixed h).bind_pure _
  | varint => exact (Read.takes_varint h).bind_pure _
  | signed => exact (Read.takes_signed (Varint.zigzag_lt h)).bind_pure _
  | text => exact (Read.takes_text h).bind_pure _
  | bytes => exact (Read.takes_bytes h).bind_pure _
  | raw value => exact (Read.takes_raw value).bind_pure _
  | ascending => exact (Read.takes_ascending h.1 h.2).bind_pure _

theorem takes_readAll {fields : List Field} (h : ∀ f ∈ fields, f.Fits) :
    Takes (readAll (fields.map Field.kind)) (fields.flatMap Field.encode) fields := by
  induction fields with
  | nil => exact .pure []
  | cons f rest ih =>
      obtain ⟨hf, hrest⟩ := List.forall_mem_cons.mp h
      exact (takes_read hf).bind ((ih hrest).bind_pure (f :: ·))

theorem local_read (kind : FieldKind) : Local kind.read := by
  cases kind with
  | fixed width => exact (Read.local_fixed width).bind fun _ => .pure _
  | varint => exact Read.local_varint.bind fun _ => .pure _
  | signed => exact Read.local_signed.bind fun _ => .pure _
  | text => exact Read.local_text.bind fun _ => .pure _
  | bytes => exact Read.local_bytes.bind fun _ => .pure _
  | raw length => exact (Read.local_raw length).bind fun _ => .pure _
  | ascending => exact Read.local_ascending.bind fun _ => .pure _

theorem local_readAll (kinds : List FieldKind) : Local (readAll kinds) := by
  induction kinds with
  | nil => exact .pure []
  | cons kind rest ih => exact (local_read kind).bind fun _ => ih.bind fun _ => .pure _

/-- Behind any number of its fields, the reader of a stream is where its writer was. -/
theorem readAll_of_encodeAll {front back : List Field} (h : ∀ f ∈ front, f.Fits)
    (more : List UInt8) :
    ∃ rest, readAll (front.map Field.kind) { rest := Field.encodeAll (front ++ back) ++ more } =
      (.ok front, ⟨rest, (Writer.putAll {} front).state, (Writer.putAll {} front).position⟩) := by
  have hsplit : Field.encodeAll (front ++ back) ++ more =
      front.flatMap Field.encode ++ (back.flatMap Field.encode ++
        (littleEndian 4 (Checksum.crc32 ((front ++ back).flatMap Field.encode)).toNat ++ more)) := by
    rw [Field.encodeAll_eq, withChecksum]
    simp only [List.flatMap_append, List.append_assoc]
  rw [Writer.putAll_eq]
  exact ⟨_, takes_readAll h _ _ hsplit⟩

/-- A stream is read back, and its checksum is found right. -/
theorem readStream_of_encodeAll {fields : List Field} (h : ∀ f ∈ fields, f.Fits)
    (more : List UInt8) :
    ∃ r, readStream (fields.map Field.kind) { rest := Field.encodeAll fields ++ more } =
      (.ok (fields, true), r) ∧ r.rest = more := by
  let body := fields.flatMap Field.encode
  let sum := littleEndian 4 (Checksum.crc32 body).toNat
  let start : Reader := { rest := Field.encodeAll fields ++ more }
  have hsplit : start.rest = body ++ (sum ++ more) := by
    show Field.encodeAll fields ++ more = _
    rw [Field.encodeAll_eq, withChecksum, List.append_assoc]
  have hbody : readAll (fields.map Field.kind) start =
      (.ok fields, start.accept body (sum ++ more)) :=
    takes_readAll h start (sum ++ more) hsplit
  have hsum : Read.checksum (start.accept body (sum ++ more)) =
      (.ok true, { start.accept body (sum ++ more) with rest := more }) :=
    Read.checksum_accepts rfl rfl
  exact ⟨_, (bind_of_ok hbody _).trans (bind_of_ok hsum _), rfl⟩

/-- A stream that is cut off is not read to its end. -/
theorem readStream_of_cut {fields : List Field} (h : ∀ f ∈ fields, f.Fits)
    {bytes lost : List UInt8} (hcut : Field.encodeAll fields = bytes ++ lost) (hlost : lost ≠ []) :
    ∃ e r, readStream (fields.map Field.kind) { rest := bytes } = (.error e, r) := by
  cases hread : readAll (fields.map Field.kind) { rest := bytes } with
  | mk answer r =>
      cases answer with
      | error e => exact ⟨e, r, bind_of_error hread _⟩
      | ok found =>
          obtain ⟨taken, htaken, htakes⟩ := local_readAll _ _ found r hread
          change bytes = taken ++ r.rest at htaken
          -- the fields were there, so what is left is less than a checksum
          have hsame : fields.flatMap Field.encode ++
              littleEndian 4 (Checksum.crc32 (fields.flatMap Field.encode)).toNat =
              taken ++ (r.rest ++ lost) := by
            rw [← List.append_assoc, ← htaken, ← hcut, Field.encodeAll_eq, withChecksum]
          obtain ⟨rfl, -⟩ := (takes_readAll h).unique htakes hsame
          have hlength := congrArg List.length (List.append_cancel_left hsame)
          rw [length_littleEndian, List.length_append] at hlength
          have hshort : r.rest.length < 4 := by
            have := List.length_pos_iff.mpr hlost
            omega
          have hsum : Read.checksum r = (.error .endOfInput, { r with rest := [] }) := by
            unfold Read.checksum
            dsimp only
            rw [if_pos (by rw [List.length_take]; omega)]
          exact ⟨_, _, (bind_of_ok hread _).trans (bind_of_error hsum _)⟩

end FieldKind

/-- Fields that are written one behind another and closed by their checksum are read back whatever
stands behind them, reader and writer in step behind every field; no proper beginning of the bytes
can be read to its end. -/
theorem Field.stream_restored (fields : List Field) (h : ∀ f ∈ fields, f.Fits) :
    (∀ more, ∃ r, FieldKind.readStream (fields.map kind) { rest := encodeAll fields ++ more } =
      (.ok (fields, true), r) ∧ r.rest = more) ∧
    (∀ front back more, fields = front ++ back →
      ∃ rest, FieldKind.readAll (front.map kind) { rest := encodeAll fields ++ more } =
        (.ok front, ⟨rest, (Writer.putAll {} front).state, (Writer.putAll {} front).position⟩)) ∧
    ∀ bytes lost, encodeAll fields = bytes ++ lost → lost ≠ [] →
      ∃ e r, FieldKind.readStream (fields.map kind) { rest := bytes } = (.error e, r) := by
  refine ⟨FieldKind.readStream_of_encodeAll h, ?_, fun bytes lost hcut hlost =>
    FieldKind.readStream_of_cut h hcut hlost⟩
  rintro front back more rfl
  exact FieldKind.readAll_of_encodeAll (fun f hf => h f (List.mem_append_left back hf)) more

/-- A field of every type; the numbers behind the last count do not ascend. -/
def Field.mixed : List Field :=
  [.fixed 4 4294967295, .varint 300, .signed (-9223372036854775808), .text "crème", .bytes [],
    .raw [0, 255], .ascending [7, 7, 3, 4294967295, 0]]

theorem Field.mixed_restored :
    (∀ f ∈ mixed, f.Fits) ∧
    ∀ more, ∃ r, FieldKind.readStream (mixed.map kind) { rest := encodeAll mixed ++ more } =
      (.ok (mixed, true), r) ∧ r.rest = more := by
  have h : ∀ f ∈ mixed, f.Fits := by decide +kernel
  exact ⟨h, (stream_restored mixed h).1⟩

end Concordance.Wire
