import Concordance.Proofs.Recovery.Journal
import Concordance.Store.Commit

/-!
# Storing without failures

On a volume that refuses nothing, setting up a storage succeeds, and so does everything that a
commit does after its record was found to fit the journal (`complete_willing`).
-/

namespace Concordance

/-- The files of a storage. -/
def storageFiles : List String := [configFile, journalFile, checkpointFile, checkpointDraft]

variable {v : Volume}

theorem Checkpoint.writeDraft_willing (h : v.Willing storageFiles) (bytes : List UInt8) :
    ∃ v', (writeDraft bytes).run v = (.ok (), v') ∧ v'.Willing storageFiles ∧
      ∃ written, v'.files.get? checkpointDraft = some written := by
  have hdraft : checkpointDraft ∈ storageFiles := by decide
  have hcreated := h.setContent checkpointDraft []
  have hwritten := hcreated.setContent checkpointDraft
    ((v.setContent checkpointDraft []).contentOf checkpointDraft ++ bytes)
  refine ⟨_, ?_, hwritten, _, (SortedMap.get?_insert _ _ _ _).trans (if_pos rfl)⟩
  unfold writeDraft
  rw [Disk.run_bind_of_ok (Disk.create_willing h hdraft),
    Disk.run_bind_of_ok (Disk.write_willing hcreated _)]
  exact Disk.close_willing hwritten

theorem Checkpoint.write_willing (h : v.Willing storageFiles) (s : Snapshot)
    (history : Statistics.History) :
    ∃ v', (write s history).run v = (.ok (), v') ∧ v'.Willing storageFiles := by
  have hfile : checkpointFile ∈ storageFiles := by decide
  obtain ⟨v₁, hwrite, hwilling, written, hget⟩ := writeDraft_willing h (encode s history)
  refine ⟨_, ?_, hwilling.files ((v₁.files.erase checkpointDraft).insert checkpointFile written)⟩
  unfold write install
  rw [Disk.run_bind_of_ok hwrite, Disk.run_bind_of_ok (Disk.rename_willing hwilling hfile hget)]
  exact Disk.syncDirectory_willing (hwilling.files _)

theorem Journal.reset_willing (h : v.Willing storageFiles) :
    ∃ v', reset.run v = (.ok {}, v') ∧ v'.Willing storageFiles := by
  have hname : journalFile ∈ storageFiles := by decide
  have hcreated := h.setContent journalFile []
  refine ⟨_, ?_, hcreated⟩
  unfold reset
  rw [Disk.run_bind_of_ok (Disk.create_willing h hname),
    Disk.run_bind_of_ok (Disk.close_willing hcreated),
    Disk.run_bind_of_ok (Disk.syncDirectory_willing hcreated)]
  rfl

namespace Store

/-- A store in a session without failures. -/
structure Calm (s : Store) (v : Volume) : Prop where
  willing : v.Willing storageFiles
  opened : s.closed = false
  journal : s.journal.needsRollback = false

theorem settle_willing {s : Store} (h : s.Calm v) :
    ∃ j v', s.settle v = (.ok (), { s with journal := j }, v') ∧
      ({ s with journal := j } : Store).Calm v' := by
  unfold settle
  split
  · exact ⟨s.journal, v, rfl, h⟩
  · obtain ⟨v₁, hwrite, hwilling⟩ := Checkpoint.write_willing h.willing s.current s.history
    obtain ⟨v₂, hreset, hwilling⟩ := Journal.reset_willing hwilling
    refine ⟨{}, v₂, ?_, hwilling, h.opened, rfl⟩
    rw [hwrite]
    dsimp only
    rw [resetJournal, hreset]

/-- A store that is open commits what it prepares. -/
theorem commit_of_opened {s : Store} {oldest : Option Nat} {now : Nat}
    {staged : List StagedOperation} (h : s.closed = false) :
    s.commit oldest now staged v =
      match prepare s.current oldest now staged with
      | .error e => (.error e, s, v)
      | .ok (.inl summary) => (.ok summary, s, v)
      | .ok (.inr p) => s.complete p v := by
  have hopen : s.ensureOpen = .ok () := by rw [ensureOpen, if_neg (by rw [h]; nofun)]
  unfold commit
  rw [hopen]
  rfl

/-- A commit whose record fits the journal is recorded and published. -/
theorem complete_willing {s : Store} (h : s.Calm v) {p : Prepared} {frame : List UInt8}
    (hframe : p.record.frame? = some frame) :
    ∃ s' v', s.complete p v = (.ok p.summary, s', v') ∧ s'.Calm v' ∧ s'.current = p.next ∧
      s'.config = s.config := by
  obtain ⟨v₁, happend, hwilling⟩ := Journal.append_willing h.willing (by decide) h.journal hframe
  have hcalm : (({ s with journal := { s.journal with size := s.journal.size + frame.length } } :
      Store).publish p).Calm v₁ := ⟨hwilling, h.opened, h.journal⟩
  obtain ⟨j, v₂, hsettle, hcalm'⟩ := settle_willing hcalm
  refine ⟨_, v₂, ?_, hcalm', rfl, rfl⟩
  unfold complete
  rw [happend]
  dsimp only
  rw [hsettle]
  rfl

/-- A commit whose record does not fit the journal is refused. -/
theorem complete_of_frame?_eq_none {s : Store} {p : Prepared} (hframe : p.record.frame? = none) :
    s.complete p v = (.error (.storage "commit record too large for the journal"), s, v) := by
  unfold complete Journal.append
  rw [hframe]

theorem writeConfig_willing (h : v.Willing storageFiles) (config : Config) :
    (writeConfig config).run v = (.ok (),
      v.setContent configFile (Wire.textBytes (Json.renderPretty config.toJson))) := by
  have hconfig : configFile ∈ storageFiles := by decide
  have hcreated := h.setContent configFile []
  unfold writeConfig
  rw [Disk.run_bind_of_ok (Disk.create_willing h hconfig),
    Disk.run_bind_of_ok (Disk.write_willing hcreated _), Volume.contentOf_setContent,
    Volume.setContent_setContent, List.nil_append,
    Disk.run_bind_of_ok (Disk.sync_willing (h.setContent _ _))]
  exact Disk.close_willing (h.setContent _ _)

theorem open_journal_willing (h : v.Willing storageFiles)
    (hnone : v.files.get? journalFile = none) :
    Journal.open.run v = (.ok ({}, []), v.setContent journalFile []) := by
  have hjournal : journalFile ∈ storageFiles := by decide
  unfold Journal.open
  rw [Disk.run_bind_of_ok (Disk.run_exists? v journalFile), hnone]
  simp only [Option.isSome_none, Bool.not_false, if_true]
  rw [Disk.run_bind_of_ok (Disk.create_willing h hjournal),
    Disk.run_bind_of_ok (Disk.close_willing (h.setContent _ _))]
  rfl

/-- Setting up a storage on a volume without files that refuses nothing. -/
theorem create_willing (h : v.Willing storageFiles) (hfresh : v.files = ∅) (config : Config) :
    (create config).run v = (.ok (fresh config {}),
      (v.setContent configFile (Wire.textBytes (Json.renderPretty config.toJson))).setContent
        journalFile []) := by
  have hnone : (v.setContent configFile
      (Wire.textBytes (Json.renderPretty config.toJson))).files.get? journalFile = none := by
    rw [Volume.get?_setContent, if_neg (by decide), hfresh]
    rfl
  unfold create
  rw [Disk.run_bind_of_ok (writeConfig_willing h config),
    Disk.run_bind_of_ok (open_journal_willing (h.setContent _ _) hnone)]
  rfl

theorem calm_fresh (h : v.Willing storageFiles) (config : Config) :
    (fresh config {}).Calm ((v.setContent configFile
      (Wire.textBytes (Json.renderPretty config.toJson))).setContent journalFile []) :=
  ⟨(h.setContent _ _).setContent _ _, rfl, rfl⟩

end Store

end Concordance
