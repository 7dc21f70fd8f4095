import Concordance.Proofs.Disk.Volume
import Concordance.Proofs.Recovery.CommitRecord

/-!
# The journal under failures

Whatever calls fail, an open journal is `Intact`: its file starts with the frames that were
appended, and what a failed append left behind them is known to be there (`append_leaves`). The one
way to lose this is a file that is shorter than the journal counts on; then cutting the file back
would put zeros in the place of what is missing.

Opening a journal answers the commits whose frames its file starts with, and cuts off what no frame
explains (`open_reads`).
-/

namespace Concordance.Journal

open Disk

variable {files : Files} {bytes content frame : List UInt8} {j j' : Journal} {r : CommitRecord}
  {v v' : Volume} {names : List String}

/-- The file of a journal starts with the frames of the journal, and has more behind them only if
the journal knows. -/
structure Intact (frames : List UInt8) (j : Journal) (content : List UInt8) : Prop where
  clean : j.needsRollback = false → content = frames ∧ frames.length ≤ j.size
  spoilt : j.needsRollback = true → j.size = frames.length ∧ ∃ behind, content = frames ++ behind

theorem intact_empty : Intact [] {} [] :=
  ⟨fun _ => ⟨rfl, Nat.le_refl _⟩, nofun⟩

/-- In any case the frames stand at the start of the file, and the journal counts on them. -/
theorem Intact.starts (h : Intact bytes j content) :
    bytes.length ≤ j.size ∧ ∃ behind, content = bytes ++ behind := by
  cases hneeds : j.needsRollback with
  | false =>
      obtain ⟨rfl, hsize⟩ := h.clean hneeds
      exact ⟨hsize, [], (List.append_nil _).symm⟩
  | true =>
      obtain ⟨hsize, hbehind⟩ := h.spoilt hneeds
      exact ⟨Nat.le_of_eq hsize.symm, hbehind⟩

/-! ## Appending -/

/-- Writing at the end of the file keeps all bytes, or a first part of them. -/
theorem leaves_writeSynced (hfile : files.get? journalFile = some content) (frame : List UInt8) :
    Leaves (writeSynced frame) files
      (fun _ f => f = files.insert journalFile (content ++ frame))
      (fun f => ∃ kept, f = files.insert journalFile (content ++ frame.take kept)) := by
  have hself : files.insert journalFile content = files := SortedMap.insert_eq_self hfile
  have hcontent : files.getD journalFile [] = content := SortedMap.getD_of_some hfile []
  have huntouched : ∃ kept, files = files.insert journalFile (content ++ frame.take kept) := by
    refine ⟨0, ?_⟩
    rw [List.take_zero, List.append_nil, hself]
  have hall : ∃ kept, files.insert journalFile (content ++ frame) =
      files.insert journalFile (content ++ frame.take kept) := by
    refine ⟨frame.length, ?_⟩
    rw [List.take_length]
  unfold writeSynced
  refine ((leaves_openAppend journalFile).mono (fun _ _ h => h) ?_).bind ?_
  · rintro _ rfl
    exact huntouched
  · rintro _ _ rfl
    rw [hcontent, hself]
    refine ((leaves_write journalFile frame).mono (fun _ _ h => h) ?_).bind ?_
    · rintro _ (rfl | ⟨kept, -, rfl⟩)
      · exact huntouched
      · exact ⟨kept, by rw [hcontent]⟩
    · rintro _ _ rfl
      rw [hcontent]
      refine ((leaves_sync journalFile).mono (fun _ _ h => h) ?_).bind ?_
      · rintro _ rfl
        exact hall
      · rintro _ _ rfl
        refine (leaves_close journalFile).mono (fun _ _ h => h) ?_
        rintro _ rfl
        exact hall

/-- Cutting a file that is long enough. -/
theorem leaves_rollBack (hfile : files.get? journalFile = some content)
    (hsize : j.size ≤ content.length) :
    Leaves j.rollBack files
      (fun j' f => j' = { j with needsRollback := false } ∧
        f = files.insert journalFile (content.take j.size))
      (· = files) := by
  unfold rollBack
  refine (leaves_truncate hfile hsize).bind ?_
  rintro _ _ rfl
  exact leaves_pure _ ⟨rfl, rfl⟩

/-- What appending leaves: the frame behind the others, or the others alone. If it fails, the file
may end with a first part of the frame, or with what stood behind the others before. -/
def Left (files : Files) (bytes content frame : List UInt8) (res : Except Error Unit) (j' : Journal)
    (files' : Files) : Prop :=
  ∃ content', files' = files.insert journalFile content' ∧
    match res with
    | .ok () => j'.needsRollback = false ∧ Intact (bytes ++ frame) j' content'
    | .error _ => Intact bytes j' content' ∧
        (content' = content ∨ ∃ kept, content' = bytes ++ frame.take kept)

/-- Appending a frame to a file that ends with the frames of the journal. -/
theorem appendFrame_leaves {res : Except Error Unit} (hneeds : j.needsRollback = false)
    (hfile : v.files.get? journalFile = some bytes) (hsize : bytes.length ≤ j.size)
    (hrun : j.appendFrame frame v = (res, j', v'))
    (hkept : res ≠ .ok () → j.size ≤ bytes.length) :
    Left v.files bytes content frame res j' v'.files := by
  unfold appendFrame at hrun
  rcases leaves_writeSynced hfile frame v rfl with
    ⟨_, v₁, hwrite, hfiles⟩ | ⟨e, v₁, hwrite, kept, hfiles⟩
  · rw [hwrite] at hrun
    cases hrun
    refine ⟨_, hfiles, hneeds, fun _ => ⟨rfl, ?_⟩, fun hspoilt => ?_⟩
    · simp only [List.length_append]
      omega
    · rw [show j.needsRollback = true from hspoilt] at hneeds
      cases hneeds
  · rw [hwrite] at hrun
    dsimp only at hrun
    have hget : v₁.files.get? journalFile = some (bytes ++ frame.take kept) := by
      rw [hfiles, SortedMap.get?_insert, if_pos rfl]
    have hfailed : res ≠ .ok () := by
      rintro rfl
      split at hrun <;> cases hrun
    have hexact : j.size = bytes.length := Nat.le_antisymm (hkept hfailed) hsize
    have hlong : j.size ≤ (bytes ++ frame.take kept).length := by
      rw [List.length_append]
      omega
    -- what was written is cut off at once, or known to stand behind the frames
    rcases leaves_rollBack (j := { j with needsRollback := true }) hget hlong v₁ rfl with
      ⟨j₁, v₂, hcut, rfl, hfiles₂⟩ | ⟨e₂, v₂, hcut, hfiles₂⟩
    · rw [hcut] at hrun
      cases hrun
      rw [hfiles, SortedMap.insert_insert] at hfiles₂
      refine ⟨_, hfiles₂, ⟨fun _ => ⟨?_, hsize⟩, nofun⟩, .inr ⟨0, ?_⟩⟩
      · rw [hexact, List.take_left]
      · rw [hexact, List.take_left, List.take_zero, List.append_nil]
    · rw [hcut] at hrun
      cases hrun
      exact ⟨_, hfiles₂.trans hfiles, ⟨nofun, fun _ => ⟨hexact, _, rfl⟩⟩, .inr ⟨kept, rfl⟩⟩

/-- Appending a commit to an intact journal keeps it intact, whatever calls fail. -/
theorem append_leaves {res : Except Error Unit} (hintact : Intact bytes j content)
    (hfile : v.files.get? journalFile = some content) (hframe : r.frame? = some frame)
    (hrun : j.append r v = (res, j', v')) (hkept : res ≠ .ok () → j.size ≤ content.length) :
    Left v.files bytes content frame res j' v'.files := by
  unfold append at hrun
  rw [hframe] at hrun
  dsimp only at hrun
  cases hneeds : j.needsRollback with
  | false =>
      obtain ⟨rfl, hsize⟩ := hintact.clean hneeds
      rw [if_neg (by rw [hneeds]; nofun)] at hrun
      exact appendFrame_leaves hneeds hfile hsize hrun hkept
  | true =>
      obtain ⟨hsize, behind, rfl⟩ := hintact.spoilt hneeds
      rw [if_pos hneeds] at hrun
      -- the file is cut back to the frames before anything is appended
      rcases leaves_rollBack (j := j) hfile (by rw [List.length_append]; omega) v rfl with
        ⟨j₁, v₁, hcut, rfl, hfiles⟩ | ⟨e, v₁, hcut, hfiles⟩
      · rw [hcut] at hrun
        rw [hsize, List.take_left] at hfiles
        have hget : v₁.files.get? journalFile = some bytes := by
          rw [hfiles, SortedMap.get?_insert, if_pos rfl]
        obtain ⟨content', hfiles', hleft⟩ := appendFrame_leaves (j := { j with
          needsRollback := false }) rfl hget (Nat.le_of_eq hsize.symm) hrun
          (fun _ => Nat.le_of_eq hsize)
        rw [hfiles, SortedMap.insert_insert] at hfiles'
        exact ⟨content', hfiles', hleft⟩
      · rw [hcut] at hrun
        cases hrun
        refine ⟨bytes ++ behind, ?_, hintact, .inl rfl⟩
        rw [hfiles, SortedMap.insert_eq_self hfile]

/-- A commit that is too long for a frame is refused. -/
theorem append_of_frame?_eq_none (hframe : r.frame? = none) :
    j.append r v = (.error (.storage "commit record too large for the journal"), j, v) := by
  unfold append
  rw [hframe]

/-- An append that fails does not count anything. -/
theorem size_of_append_error {e : Error} (hrun : j.append r v = (.error e, j', v')) :
    j'.size = j.size := by
  have hcut : ∀ {i i' : Journal} {w w' : Volume}, i.rollBack.run w = (.ok i', w') →
      i'.size = i.size := by
    intro i i' w w' hroll
    unfold rollBack at hroll
    rcases htruncate : (truncate journalFile i.size).run w with ⟨_ | u, w₁⟩
    · rw [run_bind_of_error htruncate] at hroll
      cases hroll
    · rw [run_bind_of_ok htruncate] at hroll
      cases hroll
      rfl
  have hframe : ∀ {i : Journal} {frame : List UInt8} {w : Volume},
      i.appendFrame frame w = (.error e, j', v') → j'.size = i.size := by
    intro i frame w hrun
    unfold appendFrame at hrun
    split at hrun
    · cases hrun
    · split at hrun
      · next hroll =>
          cases hrun
          exact hcut hroll
      · cases hrun
        rfl
  unfold append at hrun
  split at hrun
  · cases hrun
    rfl
  · split at hrun
    · split at hrun
      · next hroll => exact (hframe hrun).trans (hcut hroll)
      · cases hrun
        rfl
    · exact hframe hrun

/-! ## Starting over -/

/-- Dropping all commits empties the file; where this fails the file may still be as it was. -/
theorem leaves_reset :
    Leaves reset files (fun j f => j = {} ∧ f = files.insert journalFile [])
      (fun f => f = files ∨ f = files.insert journalFile []) := by
  unfold reset
  refine ((leaves_create journalFile).mono (fun _ _ h => h) (fun _ h => .inl h)).bind ?_
  rintro _ _ rfl
  refine ((leaves_close journalFile).mono (fun _ _ h => h) (fun _ h => .inr h)).bind ?_
  rintro _ _ rfl
  refine (leaves_syncDirectory.mono (fun _ _ h => h) (fun _ h => .inr h)).bind ?_
  rintro _ _ rfl
  exact leaves_pure _ ⟨rfl, rfl⟩

/-! ## On a volume that refuses nothing -/

theorem writeSynced_willing (h : v.Willing names) (hname : journalFile ∈ names)
    (bytes : List UInt8) :
    ∃ v', (writeSynced bytes).run v = (.ok (), v') ∧ v'.Willing names := by
  have hopened := h.setContent journalFile (v.contentOf journalFile)
  have hwritten := hopened.setContent journalFile
    ((v.setContent journalFile (v.contentOf journalFile)).contentOf journalFile ++ bytes)
  refine ⟨_, ?_, hwritten⟩
  unfold writeSynced
  rw [run_bind_of_ok (openAppend_willing h hname), run_bind_of_ok (write_willing hopened bytes),
    run_bind_of_ok (sync_willing hwritten)]
  exact close_willing hwritten

theorem append_willing (h : v.Willing names) (hname : journalFile ∈ names)
    (hj : j.needsRollback = false) (hframe : r.frame? = some frame) :
    ∃ v', j.append r v = (.ok (), { j with size := j.size + frame.length }, v') ∧
      v'.Willing names := by
  obtain ⟨v', hrun, hwilling⟩ := writeSynced_willing h hname frame
  refine ⟨v', ?_, hwilling⟩
  unfold append appendFrame
  rw [hframe]
  dsimp only
  rw [if_neg (by rw [hj]; nofun), hrun]

/-! ## Opening -/

/-- Without a file opening a journal sets one up. -/
theorem leaves_open_new (hnone : files.get? journalFile = none) :
    Leaves Journal.open files (fun a f => a = ({}, []) ∧ f = files.insert journalFile [])
      (fun _ => True) := by
  unfold Journal.open
  refine ((leaves_exists? journalFile).mono (fun _ _ h => h) (fun _ _ => trivial)).bind ?_
  rintro _ _ ⟨rfl, rfl⟩
  rw [hnone]
  simp only [Option.isSome_none, Bool.not_false, if_true]
  refine ((leaves_create journalFile).mono (fun _ _ h => h) (fun _ _ => trivial)).bind ?_
  rintro _ _ rfl
  refine ((leaves_close journalFile).mono (fun _ _ h => h) (fun _ _ => trivial)).bind ?_
  rintro _ _ rfl
  exact leaves_pure _ ⟨rfl, rfl⟩

/-- Opening a file answers what is scanned in it and cuts off the rest, or fails and leaves it. -/
theorem leaves_open (hfile : files.get? journalFile = some content) :
    Leaves Journal.open files
      (fun a f => a = ({ size := (CommitRecord.scan content).2 }, (CommitRecord.scan content).1) ∧
        f = files.insert journalFile (content.take (CommitRecord.scan content).2))
      (· = files) := by
  unfold Journal.open
  refine (leaves_exists? journalFile).bind ?_
  rintro _ _ ⟨rfl, rfl⟩
  rw [hfile]
  simp only [Option.isSome_some, Bool.not_true, if_neg Bool.false_ne_true]
  refine (leaves_read hfile).bind ?_
  rintro _ _ ⟨rfl, rfl⟩
  split
  · refine (leaves_truncate hfile (CommitRecord.size_scan_le _)).bind ?_
    rintro _ _ rfl
    exact leaves_pure _ ⟨rfl, rfl⟩
  · next hshort =>
      refine leaves_pure _ ⟨rfl, ?_⟩
      rw [List.take_of_length_le (Nat.le_of_not_lt hshort), SortedMap.insert_eq_self hfile]

/-- Opening a journal answers the commits whose frames its file starts with, and cuts off what stands
behind them. -/
theorem open_cuts (hfile : v.files.get? journalFile = some content)
    (hpass : ∀ e, (Volume.takeOutcome .truncate v.plan).1 ≠ .fails e) :
    ∃ v', Journal.open.run v =
        (.ok ({ size := (CommitRecord.scan content).2 }, (CommitRecord.scan content).1), v') ∧
      v'.files = v.files.insert journalFile (content.take (CommitRecord.scan content).2) ∧
      ∀ names, v.Willing names → v'.Willing names := by
  have hsize := CommitRecord.size_scan_le content
  unfold Journal.open
  rw [run_bind_of_ok (run_exists? v journalFile), hfile]
  simp only [Option.isSome_some, Bool.not_true, if_neg Bool.false_ne_true]
  rw [run_bind_of_ok (run_read hfile)]
  generalize CommitRecord.scan content = scanned at hsize ⊢
  obtain ⟨commits, size⟩ := scanned
  dsimp only
  split
  · rw [run_bind_of_ok (truncate_of_not_fails hpass hfile hsize)]
    refine ⟨_, rfl, rfl, fun names h => ⟨?_, h.present, h.accepts⟩⟩
    show planAfter .truncate v = []
    rw [planAfter, h.plan]
    rfl
  · next hshort =>
      refine ⟨v, rfl, ?_, fun _ h => h⟩
      rw [List.take_of_length_le (Nat.le_of_not_lt hshort), SortedMap.insert_eq_self hfile]

/-- A file that ends with its last frame is left alone, and so is everything else. -/
theorem open_of_scanned {commits : List CommitRecord}
    (hfile : v.files.get? journalFile = some content)
    (hscanned : CommitRecord.Scanned commits content) :
    Journal.open.run v = (.ok ({ size := content.length }, commits), v) := by
  have hscan := hscanned []
  rw [CommitRecord.scan_nil, List.append_nil, List.append_nil, Nat.add_zero] at hscan
  unfold Journal.open
  rw [run_bind_of_ok (run_exists? v journalFile), hfile]
  simp only [Option.isSome_some, Bool.not_true, if_neg Bool.false_ne_true]
  rw [run_bind_of_ok (run_read hfile), hscan]
  dsimp only
  rw [if_neg (Nat.lt_irrefl content.length)]
  rfl

/-- Opening a journal whose file is not cut, or is on a volume that refuses nothing. -/
theorem open_reads {commits : List CommitRecord} {size : Nat}
    (hfile : v.files.get? journalFile = some content)
    (hscan : CommitRecord.scan content = (commits, size)) (hsize : size ≤ content.length)
    (hplan : size < content.length → v.plan = []) :
    ∃ v', Journal.open.run v = (.ok ({ size }, commits), v') ∧
      v'.files = v.files.insert journalFile (content.take size) := by
  by_cases hlong : size < content.length
  · obtain ⟨v', hopen, hfiles, -⟩ := open_cuts hfile (by rw [hplan hlong]; nofun)
    rw [hscan] at hopen hfiles
    exact ⟨v', hopen, hfiles⟩
  · have hexact : size = content.length := by omega
    have hwhole := CommitRecord.scanned_scan content
    rw [hscan, hexact, List.take_length] at hwhole
    refine ⟨v, by rw [hexact]; exact open_of_scanned hfile hwhole, ?_⟩
    rw [hexact, List.take_length, SortedMap.insert_eq_self hfile]

end Concordance.Journal
