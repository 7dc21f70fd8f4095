import Concordance.Proofs.Disk.Lasting
import Concordance.Proofs.Recovery.Journal

/-!
# The journal as a ledger

A `Ledger` is a journal on its volume, with the commits whose appends were acknowledged since the
journal was emptied. Writes may stop in the middle and cuts may be refused: all the same the file
starts with the frames of these commits, and what stands behind them is at most one torn frame, which
the journal knows of (`Holds`). A torn frame is not read as a commit, so opening the journal answers
the acknowledged commits and no others (`Ledger.open_answers_acknowledged`).
-/

namespace Concordance

open Disk
open CommitRecord (Journaled Torn)

namespace Journal

variable {files : Files} {bytes content frame frames : List UInt8} {j j' : Journal}
  {r : CommitRecord} {records : List CommitRecord} {v v' : Volume}

/-! ## What calls leave on a lasting volume -/

/-- Writing at the end of the file keeps all bytes, or not all of them and fails. -/
theorem lastingLeaves_writeSynced (hfile : files.get? journalFile = some content)
    (hframe : frame ≠ []) : LastingLeaves (writeSynced frame) files
      (fun _ f => f = files.insert journalFile (content ++ frame))
      (fun f => ∃ kept < frame.length, f = files.insert journalFile (content ++ frame.take kept)) := by
  have hself : files.insert journalFile content = files := SortedMap.insert_eq_self hfile
  have hcontent : files.getD journalFile [] = content := SortedMap.getD_of_some hfile []
  have huntouched : ∃ kept < frame.length,
      files = files.insert journalFile (content ++ frame.take kept) := by
    refine ⟨0, List.length_pos_iff.mpr hframe, ?_⟩
    rw [List.take_zero, List.append_nil, hself]
  unfold writeSynced
  refine (((leaves_openAppend journalFile).lasting (lasts_openAppend _)).mono (fun _ _ h => h)
    ?_).bind ?_
  · rintro _ rfl
    exact huntouched
  · rintro _ _ rfl
    rw [hcontent, hself]
    refine (((leaves_write journalFile frame).lasting (lasts_write _ _)).mono (fun _ _ h => h)
      ?_).bind ?_
    · rintro _ (rfl | ⟨kept, hkept, rfl⟩)
      · exact huntouched
      · exact ⟨kept, hkept, by rw [hcontent]⟩
    · rintro _ _ rfl
      rw [hcontent]
      refine (lastingLeaves_sync journalFile).bind ?_
      rintro _ _ rfl
      exact lastingLeaves_close journalFile

theorem lasts_rollBack (j : Journal) : Lasts j.rollBack :=
  (lasts_truncate journalFile j.size).bind fun _ => lasts_pure _

/-- Dropping all commits empties the file, or fails and leaves it. -/
theorem lastingLeaves_reset :
    LastingLeaves reset files (fun j f => j = {} ∧ f = files.insert journalFile []) (· = files) := by
  unfold reset
  refine ((leaves_create journalFile).lasting (lasts_create _)).bind ?_
  rintro _ _ rfl
  refine (lastingLeaves_close journalFile).bind ?_
  rintro _ _ rfl
  refine lastingLeaves_syncDirectory.bind ?_
  rintro _ _ rfl
  exact lastingLeaves_pure _ ⟨rfl, rfl⟩

theorem lasts_open : Lasts Journal.open := by
  unfold Journal.open
  refine (lasts_exists? journalFile).bind fun there => ?_
  split
  · exact (lasts_create journalFile).bind fun _ => (lasts_pass .close).bind fun _ => lasts_pure _
  · refine (lasts_read journalFile).bind fun bytes => ?_
    dsimp only
    split
    · exact (lasts_truncate journalFile _).bind fun _ => lasts_pure _
    · exact lasts_pure _

/-! ## What the file holds -/

/-- The file starts with the frames of the commits, as many bytes as the journal counts. Only a torn
frame can stand behind them, and only if the journal knows. -/
def Holds (records : List CommitRecord) (j : Journal) (files : Files) : Prop :=
  ∃ frames behind, Journaled records frames ∧
    files.get? journalFile = some (frames ++ behind) ∧ j.size = frames.length ∧
    (behind = [] ∨ j.needsRollback = true ∧ Torn behind)

theorem holds_empty (files : Files) : Holds [] {} (files.insert journalFile []) := by
  refine ⟨[], [], .nil, ?_, rfl, .inl rfl⟩
  rw [SortedMap.get?_insert, if_pos rfl]
  rfl

/-- A frame is written behind the frames of the file: it is acknowledged, or what there is of it is
cut off, or it is torn. -/
theorem holds_appendFrame {res : Except Error Unit} (h : v.Lasting)
    (hrecords : Journaled records frames) (hfile : v.files.get? journalFile = some frames)
    (hsize : j.size = frames.length) (hr : r.InRange) (hframe : r.frame? = some frame)
    (hrun : j.appendFrame frame v = (res, j', v')) :
    v'.Lasting ∧ Holds (if res.isOk then records ++ [r] else records) j' v'.files := by
  have hne : frame ≠ [] := List.length_pos_iff.mp (CommitRecord.length_pos_of_frame? hframe)
  unfold appendFrame at hrun
  rcases lastingLeaves_writeSynced hfile hne v h rfl with
    ⟨_, v₁, hwrite, hlast, hfiles⟩ | ⟨e, v₁, hwrite, hlast, kept, hkept, hfiles⟩
  · rw [hwrite] at hrun
    cases hrun
    refine ⟨hlast, frames ++ frame, [], hrecords.append hr hframe, ?_, ?_, .inl rfl⟩
    · rw [hfiles, SortedMap.get?_insert, if_pos rfl, List.append_nil]
    · show j.size + frame.length = _
      rw [hsize, List.length_append]
  · rw [hwrite] at hrun
    dsimp only at hrun
    have hget : v₁.files.get? journalFile = some (frames ++ frame.take kept) := by
      rw [hfiles, SortedMap.get?_insert, if_pos rfl]
    have hlong : j.size ≤ (frames ++ frame.take kept).length := by
      rw [List.length_append]
      omega
    rcases (leaves_rollBack (j := { j with needsRollback := true }) hget hlong).lasting
      (lasts_rollBack _) v₁ hlast rfl with
      ⟨j₁, v₂, hcut, hlast₂, rfl, hfiles₂⟩ | ⟨e₂, v₂, hcut, hlast₂, hfiles₂⟩
    · rw [hcut] at hrun
      cases hrun
      refine ⟨hlast₂, frames, [], hrecords, ?_, hsize, .inl rfl⟩
      rw [hfiles₂, SortedMap.get?_insert, if_pos rfl, List.append_nil]
      show some ((frames ++ frame.take kept).take j.size) = _
      rw [hsize, List.take_left]
    · rw [hcut] at hrun
      cases hrun
      refine ⟨hlast₂, frames, frame.take kept, hrecords, ?_, hsize, .inr ⟨rfl, ?_⟩⟩
      · rw [hfiles₂, hget]
      · exact ⟨r, frame, kept, hframe, hkept, rfl⟩

/-- An append keeps what the file holds, and adds its commit if it succeeds. -/
theorem Holds.append {res : Except Error Unit} (hholds : Holds records j v.files) (h : v.Lasting)
    (hr : r.InRange) (hrun : j.append r v = (res, j', v')) :
    v'.Lasting ∧ Holds (if res.isOk then records ++ [r] else records) j' v'.files := by
  obtain ⟨frames, behind, hrecords, hfile, hsize, htail⟩ := hholds
  cases hframe : r.frame? with
  | none =>
      rw [append_of_frame?_eq_none hframe] at hrun
      cases hrun
      exact ⟨h, frames, behind, hrecords, hfile, hsize, htail⟩
  | some frame =>
      unfold Journal.append at hrun
      rw [hframe] at hrun
      dsimp only at hrun
      split at hrun
      · next hneeds =>
          -- what is torn is cut off before anything is appended
          have hlong : j.size ≤ (frames ++ behind).length := by
            rw [List.length_append]
            omega
          rcases (leaves_rollBack hfile hlong).lasting (lasts_rollBack j) v h rfl with
            ⟨j₁, v₁, hcut, hlast, rfl, hfiles⟩ | ⟨e, v₁, hcut, hlast, hfiles⟩
          · rw [hcut] at hrun
            rw [hsize, List.take_left] at hfiles
            have hget : v₁.files.get? journalFile = some frames := by
              rw [hfiles, SortedMap.get?_insert, if_pos rfl]
            exact holds_appendFrame (j := { j with needsRollback := false }) hlast hrecords hget
              hsize hr hframe hrun
          · rw [hcut] at hrun
            cases hrun
            refine ⟨hlast, frames, behind, hrecords, ?_, hsize, htail⟩
            rw [hfiles, hfile]
      · next hclean =>
          have hnil : behind = [] := htail.resolve_right fun hspoilt => hclean hspoilt.1
          rw [hnil, List.append_nil] at hfile
          exact holds_appendFrame h hrecords hfile hsize hr hframe hrun

/-- Opening answers the commits that the file holds, and leaves nothing but their frames. -/
theorem Holds.open (hholds : Holds records j files) :
    LastingLeaves Journal.open files
      (fun a f => a.2 = records ∧ Holds records a.1 f ∧
        ∃ content, f.get? journalFile = some content ∧ a.1.size = content.length)
      (· = files) := by
  obtain ⟨frames, behind, hrecords, hfile, hsize, htail⟩ := hholds
  have hbehind : CommitRecord.scan behind = ([], 0) := by
    rcases htail with rfl | ⟨-, htorn⟩
    · exact CommitRecord.scan_nil
    · exact htorn.scan_eq
  have hscan : CommitRecord.scan (frames ++ behind) = (records, frames.length) := by
    rw [hrecords.scan_append, hbehind, List.append_nil, Nat.add_zero]
  refine ((leaves_open hfile).lasting lasts_open).mono ?_ fun _ hf => hf
  rintro _ f ⟨rfl, rfl⟩
  have hget : (files.insert journalFile ((frames ++ behind).take frames.length)).get? journalFile =
      some frames := by
    rw [SortedMap.get?_insert, if_pos rfl, List.take_left]
  rw [hscan]
  exact ⟨rfl, ⟨frames, [], hrecords, by rw [hget, List.append_nil], rfl, .inl rfl⟩, frames, hget, rfl⟩

end Journal

/-! ## Ledgers -/

/-- A journal on its volume. -/
structure Ledger where
  journal : Journal
  volume : Volume
  /-- The commits whose appends succeeded since the journal was emptied. -/
  acknowledged : List CommitRecord := []

/-- What is done with a journal. -/
inductive Ledger.Call where
  | append (r : CommitRecord)
  | reset
  /-- Opens the journal again. Where that fails, the open one goes on. -/
  | reopen

namespace Ledger

def step (l : Ledger) : Call → Ledger
  | .append r =>
    let (res, journal, volume) := l.journal.append r l.volume
    { journal, volume, acknowledged := if res.isOk then l.acknowledged ++ [r] else l.acknowledged }
  | .reset =>
    match Journal.reset.run l.volume with
    | (.ok journal, volume) => { journal, volume }
    | (.error _, volume) => { l with volume }
  | .reopen =>
    match Journal.open.run l.volume with
    | (.ok (journal, _), volume) => { l with journal, volume }
    | (.error _, volume) => { l with volume }

/-- The ledger after some calls. -/
def run (l : Ledger) (calls : List Call) : Ledger := calls.foldl step l

/-- What holds of a ledger between calls. -/
structure Sound (l : Ledger) : Prop where
  lasting : l.volume.Lasting
  holds : l.journal.Holds l.acknowledged l.volume.files

variable {l : Ledger}

theorem Sound.step (h : l.Sound) {call : Call} (hcall : ∀ r, call = .append r → r.InRange) :
    (l.step call).Sound := by
  cases call with
  | append r =>
      rcases hrun : l.journal.append r l.volume with ⟨res, j', v'⟩
      obtain ⟨hlast, hholds⟩ := h.holds.append h.lasting (hcall r rfl) hrun
      unfold Ledger.step
      dsimp only
      rw [hrun]
      exact ⟨hlast, hholds⟩
  | reset =>
      unfold Ledger.step
      rcases Journal.lastingLeaves_reset l.volume h.lasting rfl with
        ⟨j, v, hrun, hlast, rfl, hfiles⟩ | ⟨e, v, hrun, hlast, hfiles⟩
      · rw [hrun]
        refine ⟨hlast, ?_⟩
        show Journal.Holds [] {} v.files
        rw [hfiles]
        exact Journal.holds_empty l.volume.files
      · rw [hrun]
        refine ⟨hlast, ?_⟩
        show l.journal.Holds l.acknowledged v.files
        rw [hfiles]
        exact h.holds
  | reopen =>
      unfold Ledger.step
      rcases h.holds.open l.volume h.lasting rfl with
        ⟨⟨j, records⟩, v, hrun, hlast, -, hholds, -⟩ | ⟨e, v, hrun, hlast, hfiles⟩
      · rw [hrun]
        exact ⟨hlast, hholds⟩
      · rw [hrun]
        refine ⟨hlast, ?_⟩
        show l.journal.Holds l.acknowledged v.files
        rw [hfiles]
        exact h.holds

theorem Sound.run (h : l.Sound) {calls : List Call}
    (hcalls : ∀ r, .append r ∈ calls → r.InRange) : (l.run calls).Sound := by
  induction calls generalizing l with
  | nil => exact h
  | cons call rest ih =>
      have hcall : ∀ r, call = .append r → r.InRange := by
        rintro r rfl
        exact hcalls r List.mem_cons_self
      exact ih (h.step hcall) fun r hr => hcalls r (List.mem_cons_of_mem _ hr)

/-- A journal that was just set up is empty. -/
theorem sound_new {v₀ v : Volume} {j : Journal} {records : List CommitRecord}
    (hlasting : v₀.Lasting) (hnew : v₀.files.get? journalFile = none)
    (hopen : Journal.open.run v₀ = (.ok (j, records), v)) :
    ({ journal := j, volume := v } : Ledger).Sound := by
  rcases (Journal.leaves_open_new hnew).lasting Journal.lasts_open v₀ hlasting rfl with
    ⟨a, w, hrun, hlast, rfl, hfiles⟩ | ⟨e, w, hrun, -, -⟩
  · rw [hopen] at hrun
    cases hrun
    refine ⟨hlast, ?_⟩
    show Journal.Holds [] {} v.files
    rw [hfiles]
    exact Journal.holds_empty v₀.files
  · rw [hopen] at hrun
    cases hrun

/-- Whatever writes stop in the middle and whatever cuts are refused: an append that fails leaves the
size of the journal, and whenever the journal can be opened, the commits in it are those that were
acknowledged since it was emptied, and its size is that of the file. Where nothing is refused it can
be opened. The commit of a frame is read back whatever stands behind it. -/
theorem open_answers_acknowledged {v₀ v : Volume} {j : Journal} {records : List CommitRecord}
    {calls : List Call} (hlasting : v₀.Lasting) (hnew : v₀.files.get? journalFile = none)
    (hopen : Journal.open.run v₀ = (.ok (j, records), v))
    (hcalls : ∀ r, .append r ∈ calls → r.InRange) {l : Ledger}
    (hl : run { journal := j, volume := v } calls = l) :
    (∀ r e j' v', l.journal.append r l.volume = (.error e, j', v') →
        j'.size = l.journal.size) ∧
      (∀ j' answered v', Journal.open.run l.volume = (.ok (j', answered), v') →
        answered = l.acknowledged ∧
          ∃ content, v'.files.get? journalFile = some content ∧ j'.size = content.length) ∧
      (l.volume.plan = [] → ∃ a v', Journal.open.run l.volume = (.ok a, v')) ∧
      ∀ (r : CommitRecord) (frame behind : List UInt8), r.InRange → r.frame? = some frame →
        CommitRecord.unframe (frame ++ behind) = .ok (r, behind) := by
  subst hl
  have hsound := (sound_new hlasting hnew hopen).run hcalls
  refine ⟨fun r e j' v' => Journal.size_of_append_error, ?_, ?_, ?_⟩
  · intro j' answered v' hrun
    rcases hsound.holds.open _ hsound.lasting rfl with
      ⟨a, w, hopened, -, hanswered, -, hsize⟩ | ⟨e, w, hfailed, -, -⟩
    · rw [hrun] at hopened
      cases hopened
      exact ⟨hanswered, hsize⟩
    · rw [hrun] at hfailed
      cases hfailed
  · intro hplan
    obtain ⟨frames, behind, -, hfile, -, -⟩ := hsound.holds
    obtain ⟨v', hrun, -⟩ := Journal.open_reads hfile rfl (CommitRecord.size_scan_le _)
      fun _ => hplan
    exact ⟨_, v', hrun⟩
  · intro r frame behind hr hframe
    exact CommitRecord.unframe_frame hr hframe behind

/-- The record of a commit that deletes a document. -/
def deletion (generation : Nat) : CommitRecord where
  generation
  timestamp := ⟨7, generation⟩
  operations := [.delete "a"]
  statistics := ⟨⟨7, generation⟩, -1, [⟨⟨"word", "x"⟩, -1⟩]⟩

/-- A volume in memory that tears the second write and then refuses to cut the file. -/
def tearing : Volume :=
  { Volume.memory with plan := [
      (.write, .passes),
      (.write, .room 20 (.io "No space left on device")),
      (.truncate, .fails (.io "Input/output error"))] }

theorem open_answers_acknowledged_torn :
    ∃ j v l, Journal.open.run tearing = (.ok (j, []), v) ∧ tearing.Lasting ∧
      (run { journal := j, volume := v }
        [.append (deletion 1), .append (deletion 2)]).journal.needsRollback = true ∧
      run { journal := j, volume := v }
        [.append (deletion 1), .append (deletion 2), .append (deletion 3)] = l ∧
      l.acknowledged.map (·.generation) = [1, 3] ∧
      ∃ j' v', Journal.open.run l.volume = (.ok (j', l.acknowledged), v') := by
  let v : Volume := { tearing with files := SortedMap.insert ∅ journalFile [] }
  have hopen : Journal.open.run tearing = (.ok ({}, []), v) := rfl
  have hlasting : tearing.Lasting := ⟨rfl, by decide⟩
  let calls : List Call := [.append (deletion 1), .append (deletion 2), .append (deletion 3)]
  have hcalls : ∀ r, .append r ∈ calls → r.InRange := by
    intro r hr
    simp only [calls, List.mem_cons, Call.append.injEq, List.not_mem_nil, or_false] at hr
    rcases hr with rfl | rfl | rfl <;> decide
  let l : Ledger := run { journal := {}, volume := v } calls
  have htorn : (run { journal := {}, volume := v }
      [.append (deletion 1), .append (deletion 2)]).journal.needsRollback = true := by
    decide +kernel
  have hplan : l.volume.plan = [] := by decide +kernel
  have hgenerations : l.acknowledged.map (·.generation) = [1, 3] := by decide +kernel
  obtain ⟨-, hanswers, hopens, -⟩ :=
    open_answers_acknowledged hlasting rfl hopen hcalls (show _ = l from rfl)
  obtain ⟨⟨j', answered⟩, v', hrun⟩ := hopens hplan
  obtain ⟨hacknowledged, -⟩ := hanswers j' answered v' hrun
  rw [hacknowledged] at hrun
  exact ⟨{}, v, l, hopen, hlasting, htorn, rfl, hgenerations, j', v', hrun⟩

end Ledger

end Concordance
