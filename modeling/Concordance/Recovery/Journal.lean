import Concordance.Disk.Volume
import Concordance.Recovery.CommitRecord

/-!
# The journal

The journal is a file of frames, one for each commit since the last checkpoint. Opening it reads the
frames up to the first damaged one and cuts the file there. An append that fails cuts the file back
to the end of its last frame, at once or before the next append, so that a partial write never
stands in front of a later frame.
-/

namespace Concordance

/-- The name of the journal's file. -/
def journalFile : String := "journal.log"

/-- The state of an open journal. -/
structure Journal where
  /-- The size of the frames in the file. -/
  size : Nat := 0
  /-- Whether there may be bytes behind the frames. -/
  needsRollback : Bool := false
  deriving DecidableEq, Repr, Inhabited

namespace CommitRecord

/-- Behind an intact frame there are fewer bytes than before. -/
theorem length_lt_of_unframe {bytes rest : List UInt8} {r : CommitRecord} (hne : bytes ≠ [])
    (h : unframe bytes = .ok (r, rest)) : rest.length < bytes.length := by
  have hpos : 0 < bytes.length := List.length_pos_iff.2 hne
  unfold unframe at h
  simp only [bind, Except.bind] at h
  split at h
  · cases h
  · split at h
    · cases h
    · cases h
      simp only [List.length_drop, frameOverhead]
      omega

/-- The commits whose intact frames bytes start with, and the size of these frames. -/
def scan (bytes : List UInt8) : List CommitRecord × Nat :=
  if hne : bytes = [] then ([], 0)
  else
    match h : unframe bytes with
    | .error _ => ([], 0)
    | .ok (r, rest) =>
      have := length_lt_of_unframe hne h
      let (records, size) := scan rest
      (r :: records, bytes.length - rest.length + size)
termination_by bytes.length

end CommitRecord

namespace Journal

/-- Opens the journal; answers the commits in it. -/
def «open» : Disk (Journal × List CommitRecord) := do
  if !(← Disk.exists? journalFile) then
    Disk.create journalFile
    Disk.close journalFile
    return ({}, [])
  let bytes ← Disk.read journalFile
  let (records, size) := CommitRecord.scan bytes
  if size < bytes.length then Disk.truncate journalFile size
  return ({ size }, records)

/-- Writes bytes at the end of the journal's file and makes them durable. -/
def writeSynced (bytes : List UInt8) : Disk Unit := do
  Disk.openAppend journalFile
  Disk.write journalFile bytes
  Disk.sync journalFile
  Disk.close journalFile

/-- Cuts the file back to the end of the last frame. -/
def rollBack (j : Journal) : Disk Journal := do
  Disk.truncate journalFile j.size
  return { j with needsRollback := false }

/-- Writes the frame of a commit behind the last frame. The journal's state changes also when this
fails. -/
def appendFrame (frame : List UInt8) (j : Journal) (v : Volume) :
    Except Error Unit × Journal × Volume :=
  match (writeSynced frame).run v with
  | (.ok (), v) => (.ok (), { j with size := j.size + frame.length }, v)
  | (.error e, v) =>
    match ({ j with needsRollback := true } : Journal).rollBack.run v with
    | (.ok j, v) => (.error e, j, v)
    | (.error _, v) => (.error e, { j with needsRollback := true }, v)

/-- Appends a commit. The journal's state changes also when this fails. -/
def append (r : CommitRecord) (j : Journal) (v : Volume) : Except Error Unit × Journal × Volume :=
  match r.frame? with
  | none => (.error (.storage "commit record too large for the journal"), j, v)
  | some frame =>
    if j.needsRollback then
      match j.rollBack.run v with
      | (.ok j, v) => appendFrame frame j v
      | (.error e, v) => (.error e, j, v)
    else appendFrame frame j v

/-- Drops all commits. -/
def reset : Disk Journal := do
  Disk.create journalFile
  Disk.close journalFile
  Disk.syncDirectory
  return {}

end Journal

end Concordance
