import Concordance.Proofs.Store.Published

/-!
# What a checkpoint saves

A checkpoint that was written is read back as the state it was written from (`Checkpoint.Saves`):
all that a reader sees is the same, and so is the history. Access lists are not in the file; those
built from the documents are the right ones because every operation keeps the two in step. The one
thing that changes is that numbers waiting for readers to go are free.
-/

namespace Concordance.Checkpoint

open Disk

/-- A state read back is that of a snapshot and a history, but for parked numbers. -/
structure Saves (c : Checkpoint) (s : Snapshot) (h : Statistics.History) : Prop where
  generation : c.snapshot.generation = s.generation
  timestamp : c.snapshot.timestamp = s.timestamp
  accessControl : c.snapshot.accessControl = s.accessControl
  schema : c.snapshot.metadata.schema = s.metadata.schema
  numbers : c.snapshot.numbering.numbers = s.numbering.numbers
  ids : c.snapshot.numbering.ids = s.numbering.ids
  maxNumber : c.snapshot.maxNumber = s.maxNumber
  documents : c.snapshot.documents = s.documents
  postings : c.snapshot.postings = s.postings
  values : ∀ d column, c.snapshot.metadata.get d column = s.metadata.get d column
  access : c.snapshot.access = s.access
  /-- What was parked is free. -/
  free : ∀ d, c.snapshot.numbering.IsFree d ↔ s.numbering.IsFree d ∨ s.numbering.IsParked d
  parked : c.snapshot.numbering.parked = []
  records : c.records = h.records
  horizon : c.horizon = h.horizon

variable {s t : Snapshot} {h : Statistics.History}

/-- A twin with the restored numbering is the snapshot but for parked numbers. -/
theorem saves_of_twin (hs : s.Sound) (ht : t.Sound) (htwin : s.Twin t)
    (hnumbering : t.numbering = s.numbering.restored) :
    Saves { snapshot := t, records := h.records, horizon := h.horizon } s h where
  generation := htwin.generation
  timestamp := htwin.timestamp
  accessControl := htwin.accessControl
  schema := htwin.schema
  numbers := htwin.numbers
  ids := htwin.ids
  maxNumber := htwin.maxNumber_eq
  documents := htwin.documents_eq hs ht
  postings := htwin.postings_eq hs ht
  values d column := by
    rw [Table.get_eq_decode, Table.get_eq_decode, htwin.schema, htwin.recordOf_eq hs ht]
  access := htwin.access_eq hs ht
  free d := by
    show t.numbering.IsFree d ↔ _
    rw [hnumbering]
    exact Numbering.isFree_restored
  parked := by
    show t.numbering.parked = []
    rw [hnumbering]
    rfl
  records := rfl
  horizon := rfl

/-- A checkpoint that was written is the file that is read. -/
theorem file_of_write {v v' : Volume} (hwrite : (write s h).run v = (.ok (), v')) :
    v'.files.get? checkpointFile = some (encode s h) := by
  rcases leaves_write s h v rfl with ⟨_, w, hrun, hremains⟩ | ⟨e, w, hrun, -⟩
  · rw [hwrite] at hrun
    cases hrun
    exact congrArg Remains.checkpoint hremains
  · rw [hwrite] at hrun
    cases hrun

/-- A checkpoint of a published snapshot, with any history, can be written on a volume that refuses
nothing; and once it was written, on whatever volume, it is read back as the same state. -/
theorem read_of_write (hs : s.Published) (hr : s.InRange) (hh : h.InRange)
    (hlength : (encode s h).length < Wire.word64) :
    (∀ v : Volume, v.Willing storageFiles → ∃ v', (write s h).run v = (.ok (), v')) ∧
      ∀ v v' : Volume, (write s h).run v = (.ok (), v') →
        ∃ c, (read? s.accessControl).run v' = (.ok (some c), v') ∧ c.Saves s h := by
  constructor
  · intro v hwilling
    obtain ⟨v', hwrite, -⟩ := write_willing hwilling s h
    exact ⟨v', hwrite⟩
  · intro v v' hwrite
    have hready := hs.ready
    obtain ⟨t, hdecode, htwin, hready', hnumbering⟩ := decode_encode hready hr hh hlength 0
    exact ⟨_, run_read? (file_of_write hwrite) hdecode,
      saves_of_twin hready.sound hready'.sound htwin hnumbering⟩

/-- A storage with access control and one metadata column. -/
def libraryConfig : Config where
  accessControl := true
  schema := ⟨[⟨"year", .uint16, none⟩], rfl⟩

/-- Two documents, the first of which is deleted while a reader can still see it. -/
def withdrawn : List Client.Event := [
  .begin "writer" "t",
  .stage "writer" (.document "a" { search := [⟨"word", "x", 1⟩] } false),
  .stage "writer" (.document "b" {
    metadata := .ofList [("year", .uint 1999)]
    search := [⟨"word", "y", 1⟩]
    access := ["reader"] } false),
  .commit "writer" 7,
  .lease "session",
  .begin "writer" "u",
  .stage "writer" (.delete "a"),
  .commit "writer" 7]

set_option maxRecDepth 4000 in
theorem read_of_write_withdrawn :
    ∃ (s : Snapshot) (h : Statistics.History) (v : Volume) (c : Checkpoint), s.Published ∧
      s.numbering.IsParked 1 ∧ (s.metadata.get 2 0).toInt? = some 1999 ∧ s.access.Sees "reader" 2 ∧
      (write s h).run .memory = (.ok (), v) ∧
      (read? s.accessControl).run v = (.ok (some c), v) ∧ c.Saves s h := by
  let v : Volume := (Volume.memory.setContent configFile
    (Wire.textBytes (Json.renderPretty libraryConfig.toJson))).setContent journalFile []
  let store := ((Client.start (.fresh libraryConfig {}) v).run withdrawn).store
  let s := store.current
  let h := store.history
  have hwilling : Volume.memory.Willing storageFiles := ⟨rfl, rfl, fun _ _ => rfl⟩
  have hpublished : s.Published :=
    ⟨libraryConfig, .memory, _, v, withdrawn, Store.create_willing hwilling rfl libraryConfig, rfl⟩
  have hparked : (2, 1) ∈ s.numbering.parked := by decide +kernel
  have hyear : (s.metadata.get 2 0).toInt? = some 1999 := by decide +kernel
  have hseen : s.access.Sees "reader" 2 := by
    rw [AccessLists.sees_iff_getD]
    decide +kernel
  have hrange : s.InRange := by decide +kernel
  have hhistory : h.InRange :=
    ⟨by decide +kernel, by simp [show h.horizon = none by decide +kernel]⟩
  have hlength : (encode s h).length < Wire.word64 := by decide +kernel
  obtain ⟨hwritten, hread⟩ := read_of_write hpublished hrange hhistory hlength
  obtain ⟨w, hwrite⟩ := hwritten .memory hwilling
  obtain ⟨c, hc, hsaves⟩ := hread .memory w hwrite
  exact ⟨s, h, w, c, hpublished, ⟨2, hparked⟩, hyear, hseen, hwrite, hc, hsaves⟩

end Concordance.Checkpoint
