import Concordance.Proofs.Document.Codec
import Concordance.Proofs.Metadata.Codec
import Concordance.Proofs.Wire.Extent
import Concordance.Recovery.Journal

/-!
# Commits are read back

The record of a commit is read back from its frame, whatever stands behind it
(`unframe_frame`), provided that its numbers are machine words. So the frames of commits, one
behind the other, are scanned as these commits (`Journaled.scan_append`). Whatever bytes there are,
those that are scanned are frames one behind the other (`framed_scan`), so they are `Scanned` again
with others behind them.
-/

namespace Concordance

open Wire (Codec word32 word64)

/-- The numbers of an operation are words. -/
def Operation.InRange : Operation → Prop
  | .insert number _ document => number < word32 ∧ document.InRange
  | _ => True

/-- The numbers of a commit are words. -/
structure CommitRecord.InRange (r : CommitRecord) : Prop where
  generation : r.generation < word64
  timestamp : r.timestamp.InRange
  operations : ∀ op ∈ r.operations, op.InRange
  statistics : r.statistics.InRange

instance : DecidablePred Operation.InRange
  | .insert number _ document => inferInstanceAs (Decidable (number < word32 ∧ document.InRange))
  | .delete _ => .isTrue trivial
  | .deleteUser _ => .isTrue trivial
  | .define _ => .isTrue trivial
  | .alter _ => .isTrue trivial

instance (r : CommitRecord) : Decidable r.InRange :=
  decidable_of_iff (r.generation < word64 ∧ r.timestamp.InRange ∧
    (∀ op ∈ r.operations, op.InRange) ∧ r.statistics.InRange)
    ⟨fun h => ⟨h.1, h.2.1, h.2.2.1, h.2.2.2⟩,
      fun h => ⟨h.generation, h.timestamp, h.operations, h.statistics⟩⟩

/-! ## Records -/

theorem Alteration.faithful_codec : Alteration.codec.Faithful fun _ => True where
  nonempty a := by cases a <;> exact Codec.tagged_ne_nil _ _
  reads a _ hlength rest := by
    have htext := Codec.faithful_text
    have htyped := htext.pair Schema.faithful_typeCodec
    have hpair := htext.pair htext
    cases a with
    | add name type =>
        have hshort := Codec.length_tagged 0 _ ▸ hlength
        refine (Codec.decodeTagged_tagged (by rfl) (by decide) _ rest).trans ?_
        exact htyped.branch ⟨trivial, trivial⟩ (by omega) _ rest
    | remove name =>
        have hshort := Codec.length_tagged 1 _ ▸ hlength
        refine (Codec.decodeTagged_tagged (by rfl) (by decide) _ rest).trans ?_
        exact htext.branch trivial (by omega) _ rest
    | rename old new =>
        have hshort := Codec.length_tagged 2 _ ▸ hlength
        refine (Codec.decodeTagged_tagged (by rfl) (by decide) _ rest).trans ?_
        exact hpair.branch ⟨trivial, trivial⟩ (by omega) _ rest
    | retype name type =>
        have hshort := Codec.length_tagged 3 _ ▸ hlength
        refine (Codec.decodeTagged_tagged (by rfl) (by decide) _ rest).trans ?_
        exact htyped.branch ⟨trivial, trivial⟩ (by omega) _ rest
    | clear name =>
        have hshort := Codec.length_tagged 4 _ ▸ hlength
        refine (Codec.decodeTagged_tagged (by rfl) (by decide) _ rest).trans ?_
        exact htext.branch trivial (by omega) _ rest

theorem Operation.faithful_codec : Operation.codec.Faithful Operation.InRange where
  nonempty op := by cases op <;> exact Codec.tagged_ne_nil _ _
  reads op hop hlength rest := by
    have htext := Codec.faithful_text
    cases op with
    | insert number id document =>
        have hinsert := (Codec.faithful_nat (show 0 < 4 by decide)).pair
          (htext.pair Document.faithful_codec)
        have hshort := Codec.length_tagged 0 _ ▸ hlength
        refine (Codec.decodeTagged_tagged (by rfl) (by decide) _ rest).trans ?_
        exact hinsert.branch ⟨Wire.lt_word32_iff.mp hop.1, trivial, hop.2⟩ (by omega) _ rest
    | delete id =>
        have hshort := Codec.length_tagged 1 _ ▸ hlength
        refine (Codec.decodeTagged_tagged (by rfl) (by decide) _ rest).trans ?_
        exact htext.branch trivial (by omega) _ rest
    | deleteUser user =>
        have hshort := Codec.length_tagged 2 _ ▸ hlength
        refine (Codec.decodeTagged_tagged (by rfl) (by decide) _ rest).trans ?_
        exact htext.branch trivial (by omega) _ rest
    | define schema =>
        have hshort := Codec.length_tagged 3 _ ▸ hlength
        refine (Codec.decodeTagged_tagged (by rfl) (by decide) _ rest).trans ?_
        exact Schema.faithful_codec.branch trivial (by omega) _ rest
    | alter alterations =>
        have hshort := Codec.length_tagged 4 _ ▸ hlength
        refine (Codec.decodeTagged_tagged (by rfl) (by decide) _ rest).trans ?_
        exact Alteration.faithful_codec.list.branch (fun _ _ => trivial) (by omega) _ rest

namespace CommitRecord

theorem faithful_codec : codec.Faithful InRange := by
  refine Codec.Faithful.mono (((Codec.faithful_nat (show 0 < 8 by decide)).pair
    (Statistics.TimeStamp.faithful_codec.pair
      (Operation.faithful_codec.list.pair Statistics.Record.faithful_codec))).imap fun _ => rfl)
    fun r hr => ?_
  exact ⟨Wire.lt_word64_iff.mp hr.generation, hr.timestamp, hr.operations, hr.statistics⟩

/-! ## Frames -/

/-- The bytes of a frame in front of the record. -/
def header (payload : List UInt8) : List UInt8 :=
  Wire.littleEndian 4 mark ++ Wire.littleEndian 4 payload.length

theorem length_frameOf (payload : List UInt8) :
    (frameOf payload).length = payload.length + frameOverhead := by
  simp only [frameOf, Wire.withChecksum, List.length_append, Wire.length_littleEndian,
    frameOverhead]
  omega

/-- A frame is read back from the front of the bytes that are there. -/
theorem deframe_frameOf {payload : List UInt8} (h : payload.length < word32) (rest : List UInt8) :
    (deframe (frameOf payload ++ rest).length
      ⟨frameOf payload ++ rest, Wire.Checksum.start, 0⟩).1 = .ok payload := by
  let checksum := Wire.littleEndian 4 (Wire.Checksum.crc32 (header payload ++ payload)).toNat
  let r₀ : Wire.Reader := ⟨frameOf payload ++ rest, Wire.Checksum.start, 0⟩
  have hrest : r₀.rest = Wire.littleEndian 4 mark ++ (Wire.littleEndian 4 payload.length ++
      (payload ++ (checksum ++ rest))) := by
    simp only [r₀, frameOf, Wire.withChecksum, header, checksum, List.append_assoc]
  have hmark : Wire.Takes ((Wire.Read.fixed 4).adapt FrameFault.read) (Wire.littleEndian 4 mark)
      mark := (Wire.Read.takes_fixed (by decide)).adapt _
  have hcount : Wire.Takes ((Wire.Read.fixed 4).adapt FrameFault.read)
      (Wire.littleEndian 4 payload.length) payload.length :=
    (Wire.Read.takes_fixed (Wire.lt_word32_iff.mp h)).adapt _
  have hpayload : Wire.Takes ((Wire.Read.raw payload.length).adapt FrameFault.read) payload payload :=
    (Wire.Read.takes_raw payload).adapt _
  have havailable : ¬ (frameOf payload ++ rest).length < payload.length + frameOverhead := by
    rw [List.length_append, length_frameOf]
    omega
  unfold deframe
  rw [hmark.followed hrest, if_neg (by simp)]
  dsimp only
  rw [hcount.followed rfl, if_neg havailable, hpayload.followed rfl]
  rw [Wire.Read.checksum_followed (header payload ++ payload) rest ?_ rfl]
  · rfl
  · simp only [r₀, header, Wire.Reader.accept, Wire.Checksum.advance_append]

/-- What is read as a frame is one, with bytes behind it. -/
theorem eq_frameOf_of_deframe {available : Nat} {bytes payload : List UInt8} {r' : Wire.Reader}
    (h : deframe available ⟨bytes, Wire.Checksum.start, 0⟩ = (.ok payload, r')) :
    payload.length < word32 ∧ bytes = frameOf payload ++ r'.rest := by
  unfold deframe at h
  obtain ⟨found, r₁, hmark, h⟩ := Wire.bind_eq_ok h
  obtain ⟨-, hrest₁, hr₁⟩ := Wire.Read.fixed_eq_ok (Wire.adapt_eq_ok hmark)
  by_cases hfound : found ≠ mark
  · rw [if_pos hfound] at h
    cases h
  rw [if_neg hfound] at h
  obtain ⟨length, r₂, hcount, h⟩ := Wire.bind_eq_ok h
  obtain ⟨hlength, hrest₂, hr₂⟩ := Wire.Read.fixed_eq_ok (Wire.adapt_eq_ok hcount)
  by_cases havailable : available < length + frameOverhead
  · rw [if_pos havailable] at h
    cases h
  rw [if_neg havailable] at h
  obtain ⟨payload', r₃, hraw, h⟩ := Wire.bind_eq_ok h
  obtain ⟨hpayload, hrest₃, hr₃⟩ := Wire.Read.raw_eq_ok (Wire.adapt_eq_ok hraw)
  obtain ⟨right, r₄, hchecksum, h⟩ := Wire.bind_eq_ok h
  cases right with
  | false => cases h
  | true =>
      obtain ⟨hrest₄, -⟩ := Wire.Read.checksum_eq_true (Wire.adapt_eq_ok hchecksum)
      cases h
      obtain rfl := Decidable.not_not.mp hfound
      subst hpayload
      refine ⟨hlength, ?_⟩
      -- the checksum is that of all that was read before
      have hstate : Wire.Checksum.finish r₃.state =
          Wire.Checksum.crc32 (header payload ++ payload) := by
        rw [Wire.Checksum.crc32, header, Wire.Checksum.advance_append,
          Wire.Checksum.advance_append, hr₃, hr₂, hr₁]
        simp only [Wire.Reader.accept]
      rw [hstate] at hrest₄
      show bytes = _
      rw [show bytes = _ from hrest₁, hrest₂, hrest₃, hrest₄]
      simp only [frameOf, Wire.withChecksum, header, List.append_assoc]

/-- Bytes that are an intact frame of a commit: mark, length, record and checksum agree, and the record
is read as the commit. -/
def IsFrame (r : CommitRecord) (frame : List UInt8) : Prop :=
  ∃ payload, payload.length < word32 ∧ codec.decodeAll payload = .ok r ∧ frame = frameOf payload

theorem IsFrame.length_pos {r : CommitRecord} {frame : List UInt8} (h : IsFrame r frame) :
    0 < frame.length := by
  obtain ⟨payload, -, -, rfl⟩ := h
  rw [length_frameOf, frameOverhead]
  omega

/-- A commit is read from bytes that start with an intact frame of it, and from no others. -/
theorem unframe_eq_ok_iff {bytes rest : List UInt8} {r : CommitRecord} :
    unframe bytes = .ok (r, rest) ↔ ∃ frame, IsFrame r frame ∧ bytes = frame ++ rest := by
  have hdrop : ∀ (payload behind : List UInt8),
      (frameOf payload ++ behind).drop (payload.length + frameOverhead) = behind := by
    intro payload behind
    rw [← length_frameOf, List.drop_left]
  constructor
  · intro h
    obtain ⟨payload, hdeframe, h⟩ := Fallible.bind_eq_ok.mp h
    obtain ⟨r', hrecord, h⟩ := Fallible.bind_eq_ok.mp h
    cases h
    obtain ⟨hshort, hbytes⟩ := eq_frameOf_of_deframe (Prod.ext hdeframe rfl)
    refine ⟨frameOf payload, ⟨payload, hshort, Fallible.mapError_eq_ok.mp hrecord, rfl⟩, ?_⟩
    rw [hbytes, hdrop]
  · rintro ⟨_, ⟨payload, hshort, hrecord, rfl⟩, rfl⟩
    refine Fallible.bind_eq_ok.mpr ⟨payload, deframe_frameOf hshort rest,
      Fallible.bind_eq_ok.mpr ⟨r, Fallible.mapError_eq_ok.mpr hrecord, ?_⟩⟩
    rw [hdrop]
    rfl

/-- What a commit is written as is an intact frame of it. -/
theorem isFrame_of_frame? {r : CommitRecord} {frame : List UInt8} (hr : r.InRange)
    (hframe : r.frame? = some frame) : IsFrame r frame := by
  unfold frame? at hframe
  dsimp only at hframe
  split at hframe
  · next hshort =>
      cases hframe
      exact ⟨codec.encode r, hshort,
        faithful_codec.decodeAll hr (Nat.lt_trans hshort (by decide)), rfl⟩
  · cases hframe

theorem frame?_of_short {r : CommitRecord} (h : (codec.encode r).length < word32) :
    r.frame? = some (frameOf (codec.encode r)) := if_pos h

/-- A commit is read back from its frame, whatever stands behind it. -/
theorem unframe_frame {r : CommitRecord} {frame : List UInt8} (hr : r.InRange)
    (hframe : r.frame? = some frame) (rest : List UInt8) :
    unframe (frame ++ rest) = .ok (r, rest) :=
  unframe_eq_ok_iff.mpr ⟨frame, isFrame_of_frame? hr hframe, rfl⟩

theorem length_pos_of_frame? {r : CommitRecord} {frame : List UInt8}
    (hframe : r.frame? = some frame) : 0 < frame.length := by
  unfold frame? at hframe
  dsimp only at hframe
  split at hframe
  · cases hframe
    rw [length_frameOf, frameOverhead]
    omega
  · cases hframe

/-- A first part of a frame is not read as a frame: it ends inside of the header, or before the
bytes that the header announces. -/
theorem deframe_take {payload : List UInt8} (h : payload.length < word32) {kept : Nat}
    (hkept : kept < (frameOf payload).length) :
    ∃ fault, (deframe ((frameOf payload).take kept).length
      ⟨(frameOf payload).take kept, Wire.Checksum.start, 0⟩).1 = .error fault := by
  let bytes := (frameOf payload).take kept
  let start := Wire.littleEndian 4 mark
  let count := Wire.littleEndian 4 payload.length
  let tail := payload ++ Wire.littleEndian 4 (Wire.Checksum.crc32 (header payload ++ payload)).toNat
  let r₀ : Wire.Reader := ⟨bytes, Wire.Checksum.start, 0⟩
  have hstart : start.length = 4 := Wire.length_littleEndian 4 _
  have hcount : count.length = 4 := Wire.length_littleEndian 4 _
  have hbytes : bytes = start.take kept ++ (count.take (kept - 4) ++ tail.take (kept - 8)) := by
    have hframe : frameOf payload = start ++ (count ++ tail) := by
      simp only [frameOf, Wire.withChecksum, header, start, count, tail, List.append_assoc]
    simp only [bytes, hframe, List.take_append, hstart, hcount, Nat.sub_sub]
  have hlength : bytes.length = kept := by
    rw [List.length_take]
    omega
  rw [length_frameOf] at hkept
  show ∃ fault, (deframe bytes.length r₀).1 = .error fault
  unfold deframe
  by_cases hshort : kept < 4
  · -- it ends inside of the mark
    have hends : r₀.rest.length < 4 := by
      show bytes.length < 4
      omega
    rw [Wire.bind_of_error (Wire.adapt_of_error _ (Wire.Read.fixed_of_short hends))]
    exact ⟨_, rfl⟩
  · have hmark : Wire.Takes ((Wire.Read.fixed 4).adapt FrameFault.read) start mark :=
      (Wire.Read.takes_fixed (by decide)).adapt _
    rw [List.take_of_length_le (by omega)] at hbytes
    rw [hmark.followed (r := r₀) hbytes, if_neg (by simp)]
    dsimp only
    by_cases hheader : kept < 8
    · -- it ends inside of the length
      have hends : (r₀.accept start (count.take (kept - 4) ++ tail.take (kept - 8))).rest.length <
          4 := by
        show (count.take (kept - 4) ++ tail.take (kept - 8)).length < 4
        rw [List.length_append, List.length_take, List.length_take]
        omega
      rw [Wire.bind_of_error (Wire.adapt_of_error _ (Wire.Read.fixed_of_short hends))]
      exact ⟨_, rfl⟩
    · -- there are fewer bytes than the header announces
      have hsize : Wire.Takes ((Wire.Read.fixed 4).adapt FrameFault.read) count payload.length :=
        (Wire.Read.takes_fixed (Wire.lt_word32_iff.mp h)).adapt _
      rw [List.take_of_length_le (show count.length ≤ kept - 4 by omega)]
      rw [hsize.followed rfl, if_pos (by omega)]
      exact ⟨_, rfl⟩

/-- Commits that are journaled, with the bytes of their frames. -/
inductive Journaled : List CommitRecord → List UInt8 → Prop
  | nil : Journaled [] []
  | cons {r : CommitRecord} {frame rest : List UInt8} {records : List CommitRecord} :
    r.InRange → r.frame? = some frame → Journaled records rest →
    Journaled (r :: records) (frame ++ rest)

theorem Journaled.append {records : List CommitRecord} {bytes : List UInt8}
    (h : Journaled records bytes) {r : CommitRecord} {frame : List UInt8} (hr : r.InRange)
    (hframe : r.frame? = some frame) : Journaled (records ++ [r]) (bytes ++ frame) := by
  induction h with
  | nil => simpa using Journaled.cons hr hframe .nil
  | cons hr' hframe' _ ih =>
      rw [List.append_assoc]
      exact .cons hr' hframe' ih

theorem scan_nil : scan [] = ([], 0) := by
  unfold scan
  rfl

/-- Behind a frame the scan goes on. -/
theorem scan_of_unframe {bytes rest : List UInt8} {r : CommitRecord} (hne : bytes ≠ [])
    (h : unframe bytes = .ok (r, rest)) :
    scan bytes = (r :: (scan rest).1, bytes.length - rest.length + (scan rest).2) := by
  rw [scan, dif_neg hne]
  split
  · next herror =>
      rw [h] at herror
      cases herror
  · next hok =>
      rw [h] at hok
      cases hok
      rfl

/-- The scan ends where no frame starts. -/
theorem scan_of_unframe_error {bytes : List UInt8} {fault : FrameFault}
    (h : unframe bytes = .error fault) : scan bytes = ([], 0) := by
  by_cases hnil : bytes = []
  · rw [hnil, scan_nil]
  · rw [scan, dif_neg hnil]
    split
    · rfl
    · next hok =>
        rw [h] at hok
        cases hok

/-- The frames that are found are part of the bytes. -/
theorem size_scan_le (bytes : List UInt8) : (scan bytes).2 ≤ bytes.length := by
  induction bytes using scan.induct with
  | case1 => simp [scan_nil]
  | case2 bytes hne fault herror => simp [scan_of_unframe_error herror]
  | case3 bytes hne r rest hunframe hshorter ih =>
      rw [scan_of_unframe hne hunframe]
      show bytes.length - rest.length + (scan rest).2 ≤ bytes.length
      omega

/-- A torn frame: a first part of the frame of a commit, but not all of it. -/
def Torn (bytes : List UInt8) : Prop :=
  ∃ (r : CommitRecord) (frame : List UInt8) (kept : Nat), r.frame? = some frame ∧
    kept < frame.length ∧ bytes = frame.take kept

/-- No commit is found in a torn frame. -/
theorem Torn.scan_eq {bytes : List UInt8} (h : Torn bytes) : scan bytes = ([], 0) := by
  obtain ⟨r, frame, kept, hframe, hkept, rfl⟩ := h
  unfold frame? at hframe
  dsimp only at hframe
  split at hframe
  · next hshort =>
      cases hframe
      obtain ⟨fault, hfault⟩ := deframe_take hshort hkept
      exact scan_of_unframe_error (Fallible.bind_eq_error.mpr (.inl hfault))
  · cases hframe

/-! ## What is scanned -/

/-- Bytes that are scanned as commits, whatever stands behind them. -/
def Scanned (commits : List CommitRecord) (bytes : List UInt8) : Prop :=
  ∀ behind, scan (bytes ++ behind) =
    (commits ++ (scan behind).1, bytes.length + (scan behind).2)

theorem scanned_nil : Scanned [] [] := by
  intro behind
  simp

theorem Scanned.cons {commits : List CommitRecord} {frame bytes : List UInt8} {r : CommitRecord}
    (hframe : IsFrame r frame) (h : Scanned commits bytes) :
    Scanned (r :: commits) (frame ++ bytes) := by
  intro behind
  have hpos := hframe.length_pos
  have hne : frame ++ (bytes ++ behind) ≠ [] := by
    intro hnil
    have hlength := congrArg List.length hnil
    simp only [List.length_append, List.length_nil] at hlength
    omega
  rw [List.append_assoc, scan_of_unframe hne (unframe_eq_ok_iff.mpr ⟨frame, hframe, rfl⟩), h behind]
  simp only [List.length_append, List.cons_append, Prod.mk.injEq, true_and]
  omega

theorem scanned_frame {frame : List UInt8} {r : CommitRecord} (hframe : IsFrame r frame) :
    Scanned [r] frame := by
  have h := scanned_nil.cons hframe
  rwa [List.append_nil] at h

theorem Scanned.trans {before commits : List CommitRecord} {front bytes : List UInt8}
    (hfront : Scanned before front) (h : Scanned commits bytes) :
    Scanned (before ++ commits) (front ++ bytes) := by
  intro behind
  rw [List.append_assoc, hfront, h]
  simp only [List.append_assoc, List.length_append, Nat.add_assoc]

theorem Scanned.append {commits : List CommitRecord} {bytes frame : List UInt8} {r : CommitRecord}
    (h : Scanned commits bytes) (hr : r.InRange) (hframe : r.frame? = some frame) :
    Scanned (commits ++ [r]) (bytes ++ frame) :=
  h.trans (scanned_frame (isFrame_of_frame? hr hframe))

/-- Bytes that are intact frames of commits, one behind the other. -/
inductive Framed : List CommitRecord → List UInt8 → Prop
  | nil : Framed [] []
  | cons {r : CommitRecord} {frame rest : List UInt8} {records : List CommitRecord} :
    IsFrame r frame → Framed records rest → Framed (r :: records) (frame ++ rest)

theorem Framed.scanned {records : List CommitRecord} {bytes : List UInt8}
    (h : Framed records bytes) : Scanned records bytes := by
  induction h with
  | nil => exact scanned_nil
  | cons hframe _ ih => exact ih.cons hframe

/-- What is scanned are intact frames. -/
theorem framed_scan (bytes : List UInt8) :
    Framed (scan bytes).1 (bytes.take (scan bytes).2) := by
  induction bytes using scan.induct with
  | case1 =>
      rw [scan_nil]
      exact .nil
  | case2 bytes hne fault herror =>
      rw [scan_of_unframe_error herror]
      exact .nil
  | case3 bytes hne r rest hunframe hshorter _ _ _ ih =>
      obtain ⟨frame, hframe, rfl⟩ := unframe_eq_ok_iff.mp hunframe
      rw [scanned_frame hframe rest, List.take_length_add_append]
      exact .cons hframe ih

/-- What is scanned is scanned again, whatever then stands behind it. -/
theorem scanned_scan (bytes : List UInt8) :
    Scanned (scan bytes).1 (bytes.take (scan bytes).2) :=
  (framed_scan bytes).scanned

theorem Journaled.framed {records : List CommitRecord} {bytes : List UInt8}
    (h : Journaled records bytes) : Framed records bytes := by
  induction h with
  | nil => exact .nil
  | cons hr hframe _ ih => exact .cons (isFrame_of_frame? hr hframe) ih

/-- Frames of commits are scanned as these commits, and then what stands behind them. -/
theorem Journaled.scan_append {records : List CommitRecord} {bytes : List UInt8}
    (h : Journaled records bytes) (behind : List UInt8) :
    scan (bytes ++ behind) =
      (records ++ (scan behind).1, bytes.length + (scan behind).2) :=
  h.framed.scanned behind

end CommitRecord

end Concordance
