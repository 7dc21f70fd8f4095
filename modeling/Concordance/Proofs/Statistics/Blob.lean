import Concordance.Proofs.SortedMap
import Concordance.Proofs.Statistics.Codec
import Concordance.Proofs.Wire.Reader
import Concordance.Statistics.Blob
import Mathlib.Algebra.Order.Ring.Int
import Mathlib.Data.List.Perm.Subperm

/-!
# Blobs are read back

A message whose numbers are words is read back from its blob (`Blob.decode_encode`). The standard
encoding keeps the order of the changes, the compact one puts them into term order; the beginnings
that it leaves out are those of the value before (`takes_shared`).
-/

namespace Concordance.Statistics

open Wire (Takes Read word32 word64 textBytes)

/-- A change as blobs can hold it. -/
structure Change.InRange (c : Change) : Prop where
  type : (textBytes c.term.type).length < word64
  value : (textBytes c.term.value).length < word64
  increment : Wire.IsInt64 c.increment

/-- A message as blobs can hold it. -/
structure Message.InRange (m : Message) : Prop where
  timestamp : m.timestamp.InRange
  part : m.part < word32
  documents : Wire.IsInt64 m.documents
  count : m.changes.length < word64
  changes : ∀ c ∈ m.changes, c.InRange

instance (c : Change) : Decidable c.InRange :=
  decidable_of_iff ((textBytes c.term.type).length < word64 ∧
    (textBytes c.term.value).length < word64 ∧ Wire.IsInt64 c.increment)
    ⟨fun h => ⟨h.1, h.2.1, h.2.2⟩, fun h => ⟨h.type, h.value, h.increment⟩⟩

instance (m : Message) : Decidable m.InRange :=
  decidable_of_iff (m.timestamp.InRange ∧ m.part < word32 ∧ Wire.IsInt64 m.documents ∧
    m.changes.length < word64 ∧ ∀ c ∈ m.changes, c.InRange)
    ⟨fun h => ⟨h.1, h.2.1, h.2.2.1, h.2.2.2.1, h.2.2.2.2⟩,
      fun h => ⟨h.timestamp, h.part, h.documents, h.count, h.changes⟩⟩

namespace Blob

/-- The message that a blob stands for: the compact encoding forgets the order of the changes. -/
def canonical (m : Message) : Message where
  timestamp := m.timestamp
  part := m.part
  origin := m.origin
  encoding := m.encoding
  documents := m.documents
  changes :=
    match m.encoding with
    | .standard => m.changes
    | .compact => sortChanges m.changes

/-- Changes in term order stay as they are. -/
theorem canonical_of_ascend {m : Message}
    (h : m.changes.Pairwise fun a b => compare a.term b.term = .lt) : canonical m = m := by
  have hsorted : sortChanges m.changes = m.changes :=
    List.mergeSort_of_pairwise (h.imp fun hlt => by rw [hlt]; rfl)
  unfold canonical
  rw [hsorted]
  cases m with
  | mk timestamp part origin encoding documents changes => cases encoding <;> rfl

theorem takes_change {c : Change} (h : c.InRange) : Takes decodeChange (encodeChange c) c := by
  have htype := Read.takes_text h.type
  have hvalue := Read.takes_text h.value
  have hincrement := Read.takes_signed (Wire.Varint.zigzag_lt h.increment)
  unfold decodeChange
  refine (htype.bind (hvalue.bind (hincrement.bind_pure fun i => Change.mk c.term i))).of_eq ?_
  rw [encodeChange, List.append_assoc]

/-! ## Shared beginnings -/

/-- The number of bytes of some characters. -/
def size (cs : List Char) : Nat := (cs.map Char.utf8Size).sum

theorem length_textBytes (cs : List Char) : (textBytes (String.ofList cs)).length = size cs := by
  rw [Wire.textBytes_eq, String.toList_ofList, List.length_flatMap, size]
  simp only [String.length_utf8EncodeChar]

/-- What two texts share is the beginning of the first, and the beginning of the second in front of
the rest of it. -/
theorem shared_spec (previous value : List Char) :
    ∃ beginning, takeBytes? (sharedBytes previous value) previous = some beginning ∧
      beginning ++ dropBytes (sharedBytes previous value) value = value ∧
      size beginning = sharedBytes previous value := by
  have hnothing : ∀ previous value : List Char, sharedBytes previous value = 0 →
      ∃ beginning, takeBytes? (sharedBytes previous value) previous = some beginning ∧
        beginning ++ dropBytes (sharedBytes previous value) value = value ∧
        size beginning = sharedBytes previous value := by
    intro previous value h
    rw [h]
    exact ⟨[], by simp [takeBytes?], by simp [dropBytes], rfl⟩
  induction previous generalizing value with
  | nil => exact hnothing [] value (by simp [sharedBytes])
  | cons a as ih =>
      cases value with
      | nil => exact hnothing (a :: as) [] (by simp [sharedBytes])
      | cons b bs =>
          by_cases hab : a = b
          · subst hab
            obtain ⟨beginning, htake, hvalue, hsize⟩ := ih bs
            have hpos := a.utf8Size_pos
            obtain ⟨n, hn⟩ : ∃ n, a.utf8Size + sharedBytes as bs = n + 1 :=
              ⟨a.utf8Size + sharedBytes as bs - 1, by omega⟩
            have hleft : n + 1 - a.utf8Size = sharedBytes as bs := by omega
            refine ⟨a :: beginning, ?_, ?_, ?_⟩
            · rw [sharedBytes, if_pos rfl, hn, takeBytes?, if_pos (by omega), hleft, htake]
              rfl
            · rw [sharedBytes, if_pos rfl, hn, dropBytes, hleft, List.cons_append, hvalue]
              · simp
            · rw [sharedBytes, if_pos rfl, size, List.map_cons, List.sum_cons, ← hsize]
              rfl
          · exact hnothing (a :: as) (b :: bs) (by rw [sharedBytes, if_neg hab])

theorem size_append (as bs : List Char) : size (as ++ bs) = size as + size bs := by
  simp [size]

/-- What two texts share and what is left of the second are as long as the second. -/
theorem shared_length (previous : List Char) (value : String) :
    sharedBytes previous value.toList +
      (textBytes (String.ofList (dropBytes (sharedBytes previous value.toList) value.toList))).length =
        (textBytes value).length := by
  obtain ⟨beginning, -, hvalue, hshared⟩ := shared_spec previous value.toList
  have hlength := length_textBytes value.toList
  rw [String.ofList_toList] at hlength
  rw [hlength, length_textBytes, ← hshared, ← size_append]
  exact congrArg size (hshared ▸ hvalue)

/-- Changes behind a value are read back behind it, if the table has their types. -/
theorem takes_shared {types : List String} {changes : List Change} (hsize : types.length < word64)
    (htypes : ∀ c ∈ changes, c.term.type ∈ types) (h : ∀ c ∈ changes, c.InRange)
    (previous : List Char) :
    Takes (decodeShared types changes.length previous) (encodeShared types previous changes)
      changes := by
  induction changes generalizing previous with
  | nil => exact .pure []
  | cons c rest ih =>
      obtain ⟨htype, htypes⟩ := List.forall_mem_cons.mp htypes
      obtain ⟨hc, h⟩ := List.forall_mem_cons.mp h
      -- the type has its place in the table
      have hplace : types.findIdx (· == c.term.type) < types.length :=
        List.findIdx_lt_length_of_exists ⟨c.term.type, htype, by simp⟩
      have hfound : types[types.findIdx (· == c.term.type)]? = some c.term.type := by
        rw [List.getElem?_eq_getElem hplace]
        have heq := List.findIdx_getElem (w := hplace)
        rw [beq_iff_eq] at heq
        rw [heq]
      obtain ⟨beginning, htake, hvalue, -⟩ := shared_spec previous c.term.value.toList
      have hlength := shared_length previous c.term.value
      have hbound := hc.value
      have hindex : Takes (ofRead Read.varint) _ _ :=
        (Read.takes_varint (Nat.lt_trans hplace hsize)).adapt _
      have hcount : Takes (ofRead Read.varint) _ (sharedBytes previous c.term.value.toList) :=
        (Read.takes_varint (by omega)).adapt _
      have htext : Takes (ofRead Read.text) _ (String.ofList (dropBytes
          (sharedBytes previous c.term.value.toList) c.term.value.toList)) :=
        (Read.takes_text (by omega)).adapt _
      have hincrement : Takes (ofRead Read.signed) _ _ :=
        (Read.takes_signed (Wire.Varint.zigzag_lt hc.increment)).adapt _
      have hrest := (ih htypes h c.term.value.toList).bind_pure (c :: ·)
      rw [List.length_cons, decodeShared, encodeShared]
      simp only [List.append_assoc]
      refine hindex.bind (hcount.bind (htext.bind (hincrement.bind ?_)))
      rw [hfound, htake]
      dsimp only
      rw [String.toList_ofList, hvalue, String.ofList_toList]
      exact hrest

/-! ## Changes and messages -/

theorem sortChanges_perm (changes : List Change) : (sortChanges changes).Perm changes :=
  List.mergeSort_perm changes _

theorem mem_typeTable {changes : List Change} {type : String} :
    type ∈ typeTable changes ↔ ∃ c ∈ changes, c.term.type = type := by
  rw [typeTable, mem_ascending, List.mem_map]

theorem nodup_typeTable (changes : List Change) : (typeTable changes).Nodup := by
  refine (pairwise_ascending _).imp fun hlt heq => ?_
  rw [heq, Std.ReflOrd.compare_self] at hlt
  cases hlt

theorem length_typeTable_le (changes : List Change) :
    (typeTable changes).length ≤ changes.length := by
  have hsubset : typeTable changes ⊆ changes.map (·.term.type) :=
    fun _ htype => mem_ascending.mp htype
  have hle := (List.subperm_of_subset (nodup_typeTable changes) hsubset).length_le
  rwa [List.length_map] at hle

/-- The types of changes in front of the changes in term order. -/
theorem takes_compact {changes : List Change} (hcount : changes.length < word64)
    (h : ∀ c ∈ changes, c.InRange) :
    Takes (decodeChanges .compact changes.length) (encodeChanges .compact changes)
      (sortChanges changes) := by
  have hsize := length_typeTable_le changes
  have htypes : Takes (ofRead (Read.varint >>= fun n => Read.times n Read.text))
      (Wire.Varint.encode (typeTable changes).length ++ (typeTable changes).flatMap Wire.encodeText)
      (typeTable changes) := by
    refine ((Read.takes_varint (by omega)).bind (Read.takes_times fun type htype => ?_)).adapt _
    obtain ⟨c, hc, rfl⟩ := mem_typeTable.mp htype
    exact Read.takes_text (h c hc).type
  have hperm := sortChanges_perm changes
  have hchanges : Takes (decodeShared (typeTable changes) changes.length [])
      (encodeShared (typeTable changes) [] (sortChanges changes)) (sortChanges changes) := by
    rw [← hperm.length_eq]
    refine takes_shared (by omega) (fun c hc => ?_) (fun c hc => h c (hperm.mem_iff.mp hc)) []
    exact mem_typeTable.mpr ⟨c, hperm.mem_iff.mp hc, rfl⟩
  exact htypes.bind hchanges

/-- Changes are read back from their bytes. -/
theorem takes_changes (m : Message) (h : m.InRange) :
    Takes (decodeChanges m.encoding m.changes.length) (encodeChanges m.encoding m.changes)
      (canonical m).changes := by
  unfold canonical
  dsimp only
  cases m.encoding with
  | standard => exact (Read.takes_times fun c hc => takes_change (h.changes c hc)).adapt _
  | compact => exact takes_compact h.count h.changes

theorem ofTag?_encoding (e : Encoding) : Encoding.ofTag? e.tag = some e := by
  cases e <;> rfl

theorem ofTag?_origin (o : Origin) : Origin.ofTag? o.tag = some o := by
  cases o <;> rfl

/-- A message is read back from its blob. -/
theorem decode_encode {m : Message} (h : m.InRange) : decode (encode m) = .ok (canonical m) := by
  let tail := Wire.littleEndian 4 (Wire.Checksum.crc32 (encodeBody m)).toNat
  have hmagic : Takes (ofRead (Read.raw 4)) magic magic := (Read.takes_raw magic).adapt _
  have hversion : Takes (ofRead (Read.fixed 2)) (Wire.littleEndian 2 version) version :=
    (Read.takes_fixed (by decide)).adapt _
  have hencoding : Takes (ofRead (Read.fixed 1)) (Wire.littleEndian 1 m.encoding.tag)
      m.encoding.tag := (Read.takes_fixed (by cases m.encoding <;> decide)).adapt _
  have horigin : Takes (ofRead (Read.fixed 1)) (Wire.littleEndian 1 m.origin.tag) m.origin.tag :=
    (Read.takes_fixed (by cases m.origin <;> decide)).adapt _
  have hseconds : Takes (ofRead (Read.fixed 8)) (Wire.littleEndian 8 m.timestamp.seconds)
      m.timestamp.seconds := (Read.takes_fixed (Wire.lt_word64_iff.mp h.timestamp.seconds)).adapt _
  have hcounter : Takes (ofRead (Read.fixed 8)) (Wire.littleEndian 8 m.timestamp.counter)
      m.timestamp.counter := (Read.takes_fixed (Wire.lt_word64_iff.mp h.timestamp.counter)).adapt _
  have hpart : Takes (ofRead (Read.fixed 4)) (Wire.littleEndian 4 m.part) m.part :=
    (Read.takes_fixed (Wire.lt_word32_iff.mp h.part)).adapt _
  have hdocuments : Takes (ofRead Read.signed) (Wire.Varint.encode (Wire.Varint.zigzag m.documents))
      m.documents := (Read.takes_signed (Wire.Varint.zigzag_lt h.documents)).adapt _
  have hcount : Takes (ofRead Read.varint) (Wire.Varint.encode m.changes.length) m.changes.length :=
    (Read.takes_varint h.count).adapt _
  have hchanges := takes_changes m h
  let r₀ : Wire.Reader := ⟨encode m, Wire.Checksum.start, 0⟩
  have hrest : r₀.rest = magic ++ (Wire.littleEndian 2 version ++
      (Wire.littleEndian 1 m.encoding.tag ++ (Wire.littleEndian 1 m.origin.tag ++
        (Wire.littleEndian 8 m.timestamp.seconds ++ (Wire.littleEndian 8 m.timestamp.counter ++
          (Wire.littleEndian 4 m.part ++ (Wire.Varint.encode (Wire.Varint.zigzag m.documents) ++
            (Wire.Varint.encode m.changes.length ++
              (encodeChanges m.encoding m.changes ++ tail))))))))) := by
    show encodeBody m ++ tail = _
    simp only [encodeBody, List.append_assoc]
  unfold decode decodeFrom
  -- every field is taken from where the one before it ended
  rw [hmagic.followed hrest, if_neg (by simp)]
  beta_reduce
  rw [hversion.followed rfl, if_neg (by simp)]
  beta_reduce
  rw [hencoding.followed rfl, ofTag?_encoding]
  dsimp only
  rw [horigin.followed rfl, ofTag?_origin]
  dsimp only
  rw [hseconds.followed rfl, hcounter.followed rfl, hpart.followed rfl, hdocuments.followed rfl,
    hcount.followed rfl, hchanges.followed rfl]
  unfold ofRead
  rw [Read.checksum_followed (encodeBody m) [] ?_ (List.append_nil tail).symm]
  · -- the checksum is right and nothing stands behind it
    rw [if_neg (by decide), Wire.bind_get, if_neg]
    · rfl
    · simp only [Wire.Reader.accept, encode, Wire.withChecksum, encodeBody, List.length_append,
        Wire.length_littleEndian, r₀]
      omega
  · simp only [encodeBody, Wire.Reader.accept, Wire.Checksum.advance_append, r₀]

end Blob

end Concordance.Statistics
