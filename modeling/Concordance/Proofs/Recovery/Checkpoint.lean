import Concordance.Proofs.Catalog.Alike
import Concordance.Proofs.Catalog.Encoding
import Concordance.Proofs.Metadata.Encoding
import Concordance.Proofs.Recovery.CommitRecord

/-!
# Checkpoints are read back

A checkpoint is not the snapshot that it was written from: numbers that were parked come back free,
access lists are built anew from the documents, and rows of zeros are left out. But it is a
twin of that snapshot, and its history is the one that was written (`Checkpoint.decode_encode`).
-/

namespace Concordance

open Wire (Codec Takes word32 word64)

namespace Numbering

variable {n : Numbering}

/-- The numbering that is read back from a checkpoint. -/
def restored (n : Numbering) : Numbering := ofImage n.image

theorem ids_restored (n : Numbering) : n.restored.ids = n.ids := by
  show SortedMap.ofList ((n.ids.toList.map fun e => (e.2, e.1)).map fun e => (e.2, e.1)) = n.ids
  rw [List.map_map]
  show SortedMap.ofList (n.ids.toList.map id) = n.ids
  rw [List.map_id, SortedMap.ofList_toList]

theorem numbers_restored (h : n.Sane) : n.restored.numbers = n.numbers := by
  show SortedMap.ofList (n.ids.toList.map fun e => (e.2, e.1)) = n.numbers
  -- no two numbers have one identifier
  have hnodup : ((n.ids.toList.map fun e => (e.2, e.1)).map (·.1)).Nodup := by
    rw [List.map_map, List.Nodup, List.pairwise_map]
    refine n.ids.ascending.imp_of_mem ?_
    rintro ⟨d, x⟩ ⟨e, y⟩ hd he hless heq
    cases (show x = y from heq)
    have hleft := (h.inverse x d).mpr (SortedMap.mem_toList.mp hd)
    have hright := (h.inverse x e).mpr (SortedMap.mem_toList.mp he)
    cases Option.some.inj (hleft.symm.trans hright)
    rw [Nat.compare_eq_eq.mpr rfl] at hless
    cases hless
  apply SortedMap.ext_get?
  intro x
  apply Option.ext
  intro d
  rw [SortedMap.get?_ofList_eq_some_iff hnodup]
  rw [show n.numbers.get? x = some d ↔ n.ids.get? d = some x from h.inverse x d]
  simp only [List.mem_map]
  constructor
  · rintro ⟨⟨e, y⟩, he, heq⟩
    cases heq
    exact SortedMap.mem_toList.mp he
  · intro hd
    exact ⟨(d, x), SortedMap.mem_toList.mpr hd, rfl⟩

theorem next_restored (h : n.Sane) : n.restored.next = n.next :=
  Nat.max_eq_left h.next_pos

/-- What was parked is free. -/
theorem isFree_restored {d : Nat} : n.restored.IsFree d ↔ n.IsFree d ∨ n.IsParked d := by
  have hfold : n.restored.free = (n.free.keys ++ n.parked.map (·.2)).mergeSort.foldl
      (fun (f : SortedMap Nat Unit) k => f.insert k ()) ∅ := by
    show ((n.free.keys ++ n.parked.map (·.2)).mergeSort.map fun k => (k, ())).foldl
      (fun (m : SortedMap Nat Unit) (p : Nat × Unit) => m.insert p.1 p.2) ∅ = _
    rw [List.foldl_map]
  have hparked : d ∈ n.parked.map (·.2) ↔ n.IsParked d := by
    simp [IsParked]
  rw [IsFree, hfold, SortedMap.get?_foldl_insert_unit]
  by_cases hmem : d ∈ (n.free.keys ++ n.parked.map (·.2)).mergeSort
  · rw [if_pos hmem]
    rw [List.mem_mergeSort, List.mem_append, hparked, ← isFree_iff_mem_keys] at hmem
    simp [hmem]
  · rw [if_neg hmem]
    rw [List.mem_mergeSort, List.mem_append, hparked, ← isFree_iff_mem_keys] at hmem
    simp [hmem]

theorem not_isParked_restored (d : Nat) : ¬ n.restored.IsParked d := by
  rintro ⟨g, hg⟩
  cases hg

theorem isLive_restored {d : Nat} : n.restored.IsLive d ↔ n.IsLive d := by
  rw [IsLive, IsLive, id?, id?, ids_restored]

/-- A numbering that hands out no number twice is restored as one that parks nothing. -/
theorem Orderly.restored {floor : Nat} (h : Orderly floor n) (floor' : Nat) :
    Orderly floor' n.restored where
  inverse x d := by
    rw [number?, numbers_restored h.toSane, id?, ids_restored]
    exact h.inverse x d
  live_range d hd := by
    rw [next_restored h.toSane]
    exact h.live_range d (isLive_restored.mp hd)
  free_range d hd := by
    rw [next_restored h.toSane]
    rcases isFree_restored.mp hd with hfree | hparked
    · exact h.free_range d hfree
    · exact h.parked_range d hparked
  free_not_live d hd hlive := by
    rw [isLive_restored] at hlive
    rcases isFree_restored.mp hd with hfree | hparked
    · exact h.free_not_live d hfree hlive
    · exact h.parked_not_live d hparked hlive
  parked_range d hd := absurd hd (not_isParked_restored d)
  parked_not_free d hd := absurd hd (not_isParked_restored d)
  next_pos := by
    rw [next_restored h.toSane]
    exact h.next_pos
  parked_not_live d hd := absurd hd (not_isParked_restored d)
  parked_once := List.Pairwise.nil

end Numbering

namespace Snapshot

/-! ## Access lists are built anew -/

theorem sees_rebuiltAccess {documents : SortedMap Nat StoredDocument} {user : String} {d : Nat} :
    (rebuiltAccess documents).Sees user d ↔
      ∃ stored, documents.get? d = some stored ∧ user ∈ stored.access := by
  have hfold : ∀ (l : List (Nat × StoredDocument)) (a : AccessLists),
      (l.foldl (fun a e => a.grant e.1 e.2.access) a).Sees user d ↔
        a.Sees user d ∨ ∃ e ∈ l, e.1 = d ∧ user ∈ e.2.access := by
    intro l
    induction l with
    | nil => simp
    | cons e rest ih =>
        intro a
        rw [List.foldl_cons, ih, AccessLists.sees_grant]
        constructor
        · rintro ((h | ⟨hd, hu⟩) | ⟨x, hx, hd, hu⟩)
          · exact .inl h
          · exact .inr ⟨e, List.mem_cons_self, hd.symm, hu⟩
          · exact .inr ⟨x, List.mem_cons_of_mem _ hx, hd, hu⟩
        · rintro (h | ⟨x, hx, hd, hu⟩)
          · exact .inl (.inl h)
          · rcases List.mem_cons.mp hx with rfl | hx
            · exact .inl (.inr ⟨hd.symm, hu⟩)
            · exact .inr ⟨x, hx, hd, hu⟩
  unfold rebuiltAccess SortedMap.foldl
  rw [hfold]
  constructor
  · rintro (h | ⟨⟨e, stored⟩, he, rfl, hu⟩)
    · exact absurd h (AccessLists.not_sees_empty user d)
    · exact ⟨stored, SortedMap.mem_toList.mp he, hu⟩
  · rintro ⟨stored, hstored, hu⟩
    exact .inr ⟨(d, stored), SortedMap.mem_toList.mpr hstored, rfl, hu⟩

theorem trim_rebuiltAccess (documents : SortedMap Nat StoredDocument) :
    (rebuiltAccess documents).Trim := by
  have hfold : ∀ (l : List (Nat × StoredDocument)) (a : AccessLists), a.Trim →
      (l.foldl (fun a e => a.grant e.1 e.2.access) a).Trim := by
    intro l
    induction l with
    | nil =>
        intro a ha
        exact ha
    | cons e rest ih =>
        intro a ha
        exact ih _ (ha.grant e.1 e.2.access)
  exact hfold documents.toList ∅ AccessLists.trim_empty

end Snapshot

/-- The numbers of a snapshot are words. -/
structure Snapshot.InRange (s : Snapshot) : Prop where
  generation : s.generation < word64
  timestamp : s.timestamp.InRange
  next : s.numbering.next < word32
  documents : ∀ e ∈ s.documents.toList, e.2.InRange

instance (s : Snapshot) : Decidable s.InRange :=
  decidable_of_iff (s.generation < word64 ∧ s.timestamp.InRange ∧ s.numbering.next < word32 ∧
    ∀ e ∈ s.documents.toList, e.2.InRange)
    ⟨fun h => ⟨h.1, h.2.1, h.2.2.1, h.2.2.2⟩,
      fun h => ⟨h.generation, h.timestamp, h.next, h.documents⟩⟩

/-- The numbers of a history are words. -/
structure Statistics.History.InRange (h : Statistics.History) : Prop where
  records : ∀ r ∈ h.records, r.InRange
  horizon : ∀ t, h.horizon = some t → t.InRange

namespace Checkpoint

/-! ## Catalogs are read back -/

/-- The numbers of a numbering are words. -/
structure FitsNumbering (i : NumberingImage) : Prop where
  entries : ∀ e ∈ i.entries, e.2 < word32
  free : ∀ d ∈ i.free, d < word32
  next : i.next < word32

theorem faithful_numberingCodec : NumberingImage.codec.Faithful FitsNumbering := by
  have h4 := Codec.faithful_nat (show 0 < 4 by decide)
  refine Codec.Faithful.mono (((Codec.faithful_text.pair h4).list.pair (h4.list.pair h4)).imap
    fun _ => rfl) ?_
  intro i hi
  refine ⟨?_, ?_, Wire.lt_word32_iff.mp hi.next⟩
  · intro e he
    exact ⟨trivial, Wire.lt_word32_iff.mp (hi.entries e he)⟩
  · intro d hd
    exact Wire.lt_word32_iff.mp (hi.free d hd)

/-- The numbers of a catalog are words. -/
structure Catalog.InRange (c : Catalog) : Prop where
  generation : c.generation < word64
  timestamp : c.timestamp.InRange
  numbering : FitsNumbering c.numbering
  documents : ∀ e ∈ c.documents, e.1 < word32 ∧ e.2.InRange
  records : ∀ r ∈ c.records, r.InRange
  horizon : ∀ t, c.horizon = some t → t.InRange

theorem Catalog.faithful_codec : Catalog.codec.Faithful Catalog.InRange := by
  have h4 := Codec.faithful_nat (show 0 < 4 by decide)
  have h8 := Codec.faithful_nat (show 0 < 8 by decide)
  have htime := Statistics.TimeStamp.faithful_codec
  refine Codec.Faithful.mono ((h8.pair (htime.pair (Schema.faithful_codec.pair
    (faithful_numberingCodec.pair ((h4.pair StoredDocument.faithful_codec).list.pair
      (Statistics.Record.faithful_codec.list.pair htime.option)))))).imap fun _ => rfl) ?_
  intro c hc
  refine ⟨Wire.lt_word64_iff.mp hc.generation, hc.timestamp, trivial, hc.numbering, ?_, hc.records,
    hc.horizon⟩
  intro e he
  exact ⟨Wire.lt_word32_iff.mp (hc.documents e he).1, (hc.documents e he).2⟩

variable {floor : Nat} {s : Snapshot} {h : Statistics.History}

theorem inRange_catalogOf (hs : s.Ready floor) (hr : s.InRange) (hh : h.InRange) :
    (catalogOf s h).InRange := by
  have hsane := hs.sound.numbering
  have hnext := hr.next
  have hlive : ∀ d id, s.numbering.ids.get? d = some id → d < word32 := by
    intro d id hd
    have := hsane.live_range d ⟨id, hd⟩
    omega
  refine ⟨hr.generation, hr.timestamp, ⟨?_, ?_, hnext⟩, ?_, hh.records, hh.horizon⟩
  · rintro ⟨id, d⟩ he
    obtain ⟨⟨d', id'⟩, hmem, heq⟩ := List.mem_map.mp he
    cases heq
    exact hlive d id (SortedMap.mem_toList.mp hmem)
  · intro d hd
    rw [show (catalogOf s h).numbering.free =
      (s.numbering.free.keys ++ s.numbering.parked.map (·.2)).mergeSort from rfl,
      List.mem_mergeSort, List.mem_append, ← Numbering.isFree_iff_mem_keys] at hd
    rcases hd with hfree | hparked
    · have := hsane.free_range d hfree
      omega
    · obtain ⟨⟨g, d'⟩, hmem, rfl⟩ := List.mem_map.mp hparked
      have := hsane.parked_range d' ⟨g, hmem⟩
      dsimp only
      omega
  · rintro ⟨d, stored⟩ he
    refine ⟨?_, hr.documents _ he⟩
    -- every stored document has a mapped number
    have hget : s.documents.get? d = some stored := SortedMap.mem_toList.mp he
    have hid := hs.sound.id d
    rw [Snapshot.entryAt?, hget] at hid
    exact hlive d stored.id hid

/-! ## Snapshots are read back -/

/-- What is assembled from the catalog of a snapshot, its postings and a table with its records
reads like the snapshot. -/
theorem twin_assemble (hs : s.Ready floor) {table : Table}
    (hschema : table.schema = s.metadata.schema) (hsound : table.Sound)
    (hrecord : ∀ d, table.recordOf d = s.metadata.recordOf d) (floor' : Nat) :
    s.Twin (assemble s.accessControl (catalogOf s h) table s.postings.toList).snapshot ∧
      (assemble s.accessControl (catalogOf s h) table s.postings.toList).snapshot.Ready floor' := by
  have hdocuments : SortedMap.ofList s.documents.toList = s.documents :=
    SortedMap.ofList_toList s.documents
  have hpostings : SortedMap.ofList s.postings.toList = s.postings :=
    SortedMap.ofList_toList s.postings
  have horderly : Numbering.Orderly floor' s.numbering.restored := hs.orderly.restored floor'
  let t : Snapshot :=
    { s with
      numbering := s.numbering.restored
      metadata := table
      access := Snapshot.rebuiltAccess s.documents }
  have ht : (assemble s.accessControl (catalogOf s h) table s.postings.toList).snapshot = t := by
    show ({ s with
        numbering := s.numbering.restored
        documents := .ofList s.documents.toList
        postings := .ofList s.postings.toList
        metadata := table
        access := Snapshot.rebuiltAccess (.ofList s.documents.toList) } : Snapshot) = t
    rw [hdocuments, hpostings]
  have hentries : ∀ d, t.entryAt? d = s.entryAt? d := by
    intro d
    show (s.documents.get? d).map (fun stored => Entry.mk stored (table.recordOf d)) = _
    rw [hrecord]
    rfl
  rw [ht]
  constructor
  · exact ⟨⟨rfl, Numbering.numbers_restored hs.sound.numbering,
      Numbering.ids_restored s.numbering, Numbering.next_restored hs.sound.numbering, hschema,
      hentries⟩, rfl, rfl⟩
  · refine ⟨.intro horderly.toSane ?_ ?_, horderly⟩
    · exact ⟨hs.sound.tidy.postings, Snapshot.trim_rebuiltAccess s.documents, hsound⟩
    · intro d
      have hd := hs.sound.holds d
      refine ⟨s.entryAt? d, ⟨hd.stored, hd.positions, ?_, ?_, hd.inOrder⟩, ?_⟩
      · -- access lists are not read, they follow from the documents
        intro user
        show (Snapshot.rebuiltAccess s.documents).Sees user d ↔ _
        rw [Snapshot.sees_rebuiltAccess, hd.stored]
        cases s.entryAt? d <;> simp
      · rw [show t.metadata.recordOf d = table.recordOf d from rfl, hrecord, hd.record]
        rw [show t.metadata.schema = table.schema from rfl, hschema]
      · rw [show t.id? d = s.numbering.restored.ids.get? d from rfl, Numbering.ids_restored]
        exact hs.sound.id d

/-- A posting list holds numbers and positions of stored documents, and these are words. -/
theorem inRange_postings (hs : s.Ready floor) (hr : s.InRange) {e : Term × Postings}
    (he : e ∈ s.postings.toList) :
    Postings.InRange e.2.toList ∧ ∀ d ∈ e.2.toList, 0 < d.1 := by
  have hall : ∀ d ∈ e.2.toList, (0 < d.1 ∧ d.1 < word32) ∧ ∀ p ∈ d.2, p < word32 := by
    intro d hd
    have hlist : s.postings.get? e.1 = some e.2 := SortedMap.mem_toList.mp he
    have hget : e.2.get? d.1 = some d.2 := SortedMap.mem_toList.mp hd
    have hpositions : Snapshot.positionsOf? s.postings e.1 d.1 = some d.2 := by
      rw [Snapshot.positionsOf?, hlist, Option.bind_some, hget]
    have hholds := hs.sound.holds d.1
    rw [hholds.positions] at hpositions
    obtain ⟨entry, hentry, hsearch⟩ := Option.bind_eq_some_iff.mp hpositions
    have hstored : s.documents.get? d.1 = some entry.stored := by rw [hholds.stored, hentry]; rfl
    have hlive : s.numbering.IsLive d.1 := hs.sound.isLive_iff.mpr ⟨entry, hentry⟩
    have hrange := hs.sound.numbering.live_range d.1 hlive
    have hnext := hr.next
    refine ⟨⟨by omega, by omega⟩, ?_⟩
    have hdocument := hr.documents (d.1, entry.stored) (SortedMap.mem_toList.mpr hstored)
    exact hdocument.search (e.1, d.2) (SortedMap.mem_toList.mpr hsearch)
  constructor
  · intro d hd
    exact ⟨(hall d hd).1.2, (hall d hd).2⟩
  · intro d hd
    exact (hall d hd).1.1

/-- The fields of a checkpoint in front of its checksum. -/
def fieldsOf (catalog metadata : List UInt8) (count : Nat) (terms : List UInt8) : List UInt8 :=
  Wire.littleEndian 4 mark ++ Wire.littleEndian 2 version ++ Wire.lengthPrefixed catalog ++
    Wire.lengthPrefixed metadata ++ Wire.Varint.encode count ++ terms

theorem takes_mark : Takes ((Wire.Read.fixed 4).adapt Fault.read) (Wire.littleEndian 4 mark) mark :=
  (Wire.Read.takes_fixed (by decide)).adapt _

theorem takes_version :
    Takes ((Wire.Read.fixed 2).adapt Fault.read) (Wire.littleEndian 2 version) version :=
  (Wire.Read.takes_fixed (by decide)).adapt _

theorem takes_part {bytes : List UInt8} (h : bytes.length < word64) :
    Takes (Wire.Read.bytes.adapt Fault.read) (Wire.lengthPrefixed bytes) bytes :=
  (Wire.Read.takes_bytes h).adapt _

/-- A checkpoint is assembled from what its fields stand for. -/
theorem decode_fields {accessControl : Bool} {catalog : Catalog} {table : Table} {count : Nat}
    {postings : List (Term × Postings)} {catalogBytes metadata terms : List UInt8}
    (hread : Catalog.codec.decodeAll catalogBytes = .ok catalog)
    (hrows : Table.ofBytes? catalog.schema metadata = some table)
    (hterms : Takes (decodeTerms count) terms postings) (hcount : count < word64)
    (hlength : (fieldsOf catalogBytes metadata count terms).length < word64) :
    decode accessControl (Wire.withChecksum (fieldsOf catalogBytes metadata count terms)) =
      .ok (assemble accessControl catalog table postings) := by
  let fields := fieldsOf catalogBytes metadata count terms
  let tail := Wire.littleEndian 4 (Wire.Checksum.crc32 fields).toNat
  simp only [fieldsOf, Wire.lengthPrefixed, List.length_append] at hlength
  have hcatalog := takes_part (show catalogBytes.length < word64 by omega)
  have hmetadata := takes_part (show metadata.length < word64 by omega)
  have hsize : Takes (Wire.Read.varint.adapt Fault.read) (Wire.Varint.encode count) count :=
    (Wire.Read.takes_varint hcount).adapt _
  let r₀ : Wire.Reader := ⟨Wire.withChecksum (fieldsOf catalogBytes metadata count terms),
    Wire.Checksum.start, 0⟩
  have hrest : r₀.rest = Wire.littleEndian 4 mark ++ (Wire.littleEndian 2 version ++
      (Wire.lengthPrefixed catalogBytes ++ (Wire.lengthPrefixed metadata ++
        (Wire.Varint.encode count ++ (terms ++ tail))))) := by
    show fields ++ tail = _
    simp only [fields, fieldsOf, List.append_assoc]
  unfold decode decodeAll
  -- every field is taken from where the one before it ended
  rw [takes_mark.followed hrest, if_neg (by simp)]
  dsimp only
  rw [takes_version.followed rfl, if_neg (by simp)]
  rw [hcatalog.followed rfl, hread]
  simp only [pure_bind]
  rw [hmetadata.followed rfl, hrows]
  dsimp only
  rw [hsize.followed rfl, hterms.followed rfl]
  rw [Wire.Read.checksum_followed fields [] ?_ (List.append_nil tail).symm]
  · rfl
  · simp only [fields, fieldsOf, Wire.Reader.accept, Wire.Checksum.advance_append, r₀]

/-- What stands in front of everything else in a checkpoint that has this catalog. -/
def leadOf (catalog : List UInt8) : List UInt8 :=
  Wire.littleEndian 4 mark ++ (Wire.littleEndian 2 version ++ Wire.lengthPrefixed catalog)

/-- Whatever is read as a checkpoint is assembled from a catalog, a table and postings. The catalog
is the one that was written. -/
theorem exists_assemble_of_decode {accessControl : Bool} {bytes : List UInt8} {c : Checkpoint}
    (h : decode accessControl bytes = .ok c) :
    ∃ catalog table postings, c = assemble accessControl catalog table postings ∧
      table.Sound ∧ table.schema = catalog.schema ∧
      ∀ written rest, bytes = leadOf written ++ rest → written.length < word64 →
        Catalog.codec.decodeAll written = .ok catalog := by
  obtain ⟨r', h⟩ : ∃ r', decodeAll accessControl ⟨bytes, Wire.Checksum.start, 0⟩ = (.ok c, r') :=
    ⟨_, Prod.ext h rfl⟩
  unfold decodeAll at h
  obtain ⟨found, r₁, hmark, h⟩ := Wire.bind_eq_ok h
  split at h
  · cases h
  obtain ⟨version', r₂, hversion, h⟩ := Wire.bind_eq_ok h
  split at h
  · cases h
  obtain ⟨catalogBytes, r₃, hbytes, h⟩ := Wire.bind_eq_ok h
  have hwritten : ∀ written rest, bytes = leadOf written ++ rest → written.length < word64 →
      catalogBytes = written := by
    intro written rest hlead hlength
    simp only [leadOf, List.append_assoc] at hlead
    -- all three reads are made where the writing has put their fields
    rw [takes_mark ⟨bytes, Wire.Checksum.start, 0⟩ _ hlead] at hmark
    cases hmark
    rw [takes_version _ _ rfl] at hversion
    cases hversion
    rw [takes_part hlength _ _ rfl] at hbytes
    cases hbytes
    rfl
  cases hcatalog : Catalog.codec.decodeAll catalogBytes with
  | error fault =>
      rw [hcatalog] at h
      cases h
  | ok catalog =>
      rw [hcatalog] at h
      simp only [pure_bind] at h
      obtain ⟨rows, r₄, -, h⟩ := Wire.bind_eq_ok h
      cases hrows : Table.ofBytes? catalog.schema rows with
      | none =>
          rw [hrows] at h
          cases h
      | some table =>
          rw [hrows] at h
          obtain ⟨count, r₅, -, h⟩ := Wire.bind_eq_ok h
          obtain ⟨postings, r₆, -, h⟩ := Wire.bind_eq_ok h
          obtain ⟨right, r₇, -, h⟩ := Wire.bind_eq_ok h
          obtain ⟨hsound, hschema⟩ := Table.sound_ofBytes? hrows
          cases right with
          | false => cases h
          | true =>
              cases h
              refine ⟨catalog, table, postings, rfl, hsound, hschema, ?_⟩
              intro written rest hlead hlength
              rw [← hwritten written rest hlead hlength]
              exact hcatalog

/-- If a checkpoint can be read back at all, it has the head and the history that were written. -/
theorem head_of_decode {accessControl : Bool} {c : Checkpoint} (hwords : (catalogOf s h).InRange)
    (hlength : (encode s h).length < word64) (hdecode : decode accessControl (encode s h) = .ok c) :
    c.snapshot.generation = s.generation ∧ c.snapshot.timestamp = s.timestamp ∧
      c.records = h.records ∧ c.horizon = h.horizon := by
  let written := Catalog.codec.encode (catalogOf s h)
  obtain ⟨rest, hlead⟩ : ∃ rest, encode s h = leadOf written ++ rest := by
    simp only [encode, leadOf, Wire.withChecksum, List.append_assoc, written]
    exact ⟨_, rfl⟩
  have hshort : written.length < word64 := by
    rw [hlead] at hlength
    simp only [leadOf, Wire.lengthPrefixed, List.length_append] at hlength
    omega
  obtain ⟨catalog, table, postings, rfl, -, -, hcatalog⟩ := exists_assemble_of_decode hdecode
  have hread : Catalog.codec.decodeAll written = .ok (catalogOf s h) :=
    Catalog.faithful_codec.decodeAll hwords hshort
  rw [hcatalog written rest hlead hshort] at hread
  cases hread
  exact ⟨rfl, rfl, rfl, rfl⟩

/-- A checkpoint is read back as a twin of the snapshot, with the history that was written. -/
theorem decode_encode (hs : s.Ready floor) (hr : s.InRange) (hh : h.InRange)
    (hlength : (encode s h).length < word64) (floor' : Nat) :
    ∃ t, decode s.accessControl (encode s h) =
        .ok { snapshot := t, records := h.records, horizon := h.horizon } ∧
      s.Twin t ∧ t.Ready floor' ∧ t.numbering = s.numbering.restored := by
  have hzero : ∀ x, s.maxNumber < x → s.metadata.recordOf x = s.metadata.schema.zeroRecord := by
    intro x hx
    exact (hs.sound.le_maxNumber_or_zero x).resolve_left (by omega)
  obtain ⟨table, htable, hsound, hschema, hrecord⟩ :=
    hs.sound.tidy.table.ofBytes?_toBytes hzero
  obtain ⟨htwin, hready⟩ := twin_assemble (h := h) hs hschema hsound hrecord floor'
  let catalog := Catalog.codec.encode (catalogOf s h)
  let terms := s.postings.toList.flatMap encodeTerm
  let fields := fieldsOf catalog (s.metadata.toBytes s.maxNumber) s.postings.size terms
  have hencode : encode s h = fields ++ Wire.littleEndian 4 (Wire.Checksum.crc32 fields).toNat := rfl
  have hfields : fields.length < word64 := by
    rw [hencode, List.length_append] at hlength
    omega
  have hparts := hfields
  simp only [fields, fieldsOf, Wire.lengthPrefixed, List.length_append] at hparts
  have hcount : s.postings.size ≤ terms.length := length_le_encodeTerms s.postings.toList
  have hterms : Takes (decodeTerms s.postings.size) terms s.postings.toList := by
    apply takes_terms
    · intro e he
      exact (inRange_postings hs hr he).1
    · intro e he
      exact (inRange_postings hs hr he).2
    · change terms.length < word64
      omega
  have hread : Catalog.codec.decodeAll catalog = .ok (catalogOf s h) :=
    Catalog.faithful_codec.decodeAll (inRange_catalogOf hs hr hh)
      (show catalog.length < word64 by omega)
  exact ⟨_, decode_fields hread htable hterms (by omega) hfields, htwin, hready, rfl⟩

end Checkpoint

end Concordance
