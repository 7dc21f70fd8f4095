import Concordance.Proofs.Store.Calm
import Concordance.Proofs.Store.Restoring

/-!
# Crashes

A session starts with a new storage and commits on a volume where any calls may fail. A process
that stops in the middle of its work leaves the files as if all further calls had failed, so the
outcomes of calls also say where a process stops. Once the record of a commit is in the journal,
opening the storage restores the state after this commit, wherever the process stops: before the
checkpoint, in its draft, between the checkpoint and the new journal, or behind them
(`restored_of_stopped`).

Nothing is said about the frame of a commit that failed and could not be cut off again: while all of
it stands in the file, opening repeats the commit. What is said rests on the volume keeping the
bytes that were written to the journal (`KeepsBytes`).
-/

namespace Concordance

open Disk

theorem Statistics.History.InRange.push {h : History} {r : Record} (hh : h.InRange)
    (hr : r.InRange) : (h.push r).InRange := by
  obtain ⟨-, hmem, hhorizon⟩ := trim_spec h.limit h.horizon (h.records ++ [r])
  have hall : ∀ x ∈ h.records ++ [r], x.InRange := by
    intro x hx
    rcases List.mem_append.mp hx with hx | hx
    · exact hh.records x hx
    · rw [List.mem_singleton.mp hx]
      exact hr
  refine ⟨fun x hx => hall x (hmem x hx), ?_⟩
  intro t ht
  rcases hhorizon t ht with hold | ⟨x, hx, rfl⟩
  · exact hh.horizon t hold
  · exact (hall x hx).timestamp

namespace Store

variable {s s' : Store} {v v₁ v' : Volume} {stored config : Config} {floor now : Nat}
  {oldest : Option Nat} {staged : List StagedOperation} {p : Prepared} {j : Journal}

/-! ## What a session keeps -/

/-- The numbers of a commit, and those of the checkpoint that may follow it, are words. -/
structure Fits (s : Store) (p : Prepared) : Prop where
  record : p.record.InRange
  snapshot : p.next.InRange
  checkpoint : (Checkpoint.encode p.next (s.history.push p.record.statistics)).length < Wire.word64

instance (s : Store) (p : Prepared) : Decidable (s.Fits p) :=
  decidable_of_iff (p.record.InRange ∧ p.next.InRange ∧
    (Checkpoint.encode p.next (s.history.push p.record.statistics)).length < Wire.word64)
    ⟨fun h => ⟨h.1, h.2.1, h.2.2⟩, fun h => ⟨h.record, h.snapshot, h.checkpoint⟩⟩

/-- A store that can go on committing: its files account for it, and its numbering is orderly. -/
structure Steady (stored : Config) (floor : Nat) (s : Store) (v : Volume) : Prop
    extends Accounted stored s v where
  ready : Snapshot.Ready floor s.current

/-- What a commit publishes once its record is in the journal. -/
theorem Steady.append (h : Steady stored floor s v) (hold : ∀ g, oldest = some g → floor ≤ g)
    (hprepare : prepare s.current oldest now staged = .ok (.inr p)) (hfits : s.Fits p)
    (happend : s.journal.append p.record v = (.ok (), j, v')) :
    Steady stored floor (({ s with journal := j } : Store).publish p) v' ∧
      j.needsRollback = false := by
  obtain ⟨commits, frames, content, haccounts, hscanned, hfile, hintact⟩ := h.account
  obtain ⟨hready, -⟩ := head_of_prepare h.ready hold hprepare
  cases hframe : p.record.frame? with
  | none =>
      rw [Journal.append_of_frame?_eq_none hframe] at happend
      cases happend
  | some frame =>
      obtain ⟨content', hfiles, hclean, hintact'⟩ :=
        Journal.append_leaves hintact hfile hframe happend fun hfailed => absurd rfl hfailed
      refine ⟨⟨⟨h.kept.push _, h.words.push hfits.record.statistics, commits ++ [p.record],
        frames ++ frame, content', ?_, hscanned.append hfits.record hframe, ?_, hintact'⟩, hready⟩,
        hclean⟩
      · rw [hfiles, Remains.of_insert_journal]
        exact (haccounts.publish h.ready hold hprepare hfits.record).journal _
      · rw [hfiles, SortedMap.get?_insert, if_pos rfl]

/-- The bytes that the journal counts on are there when an append fails that was begun. -/
def KeepsBytes (s : Store) (v : Volume) (r : CommitRecord) : Prop :=
  r.frame? ≠ none → (s.journal.append r v).1 ≠ .ok () →
    s.journal.size ≤ (v.contentOf journalFile).length

/-- An append that fails leaves the state accounted for. -/
theorem Steady.append_failed (h : Steady stored floor s v) {e : Error}
    (hkeeps : s.KeepsBytes v p.record)
    (happend : s.journal.append p.record v = (.error e, j, v')) :
    Steady stored floor { s with journal := j } v' := by
  obtain ⟨commits, frames, content, haccounts, hscanned, hfile, hintact⟩ := h.account
  cases hframe : p.record.frame? with
  | none =>
      rw [Journal.append_of_frame?_eq_none hframe] at happend
      cases happend
      exact h
  | some frame =>
      have hcontent : v.contentOf journalFile = content := SortedMap.getD_of_some hfile []
      have hlong : s.journal.size ≤ content.length := by
        rw [← hcontent]
        refine hkeeps (by rw [hframe]; nofun) ?_
        rw [happend]
        nofun
      obtain ⟨content', hfiles, hintact', -⟩ :=
        Journal.append_leaves hintact hfile hframe happend fun _ => hlong
      refine ⟨⟨h.kept, h.words, commits, frames, content', ?_, hscanned, ?_, hintact'⟩, h.ready⟩
      · rw [hfiles, Remains.of_insert_journal]
        exact haccounts.journal _
      · rw [hfiles, SortedMap.get?_insert, if_pos rfl]

/-- Writing a checkpoint leaves the state accounted for, wherever it stops. -/
theorem Steady.settle (h : Steady stored floor s v) (hclean : s.journal.needsRollback = false)
    (hwords : s.current.InRange)
    (hlength : (Checkpoint.encode s.current s.history).length < Wire.word64)
    {res : Except Error Unit} (hrun : s.settle v = (res, s', v')) :
    ∃ j, s' = { s with journal := j } ∧ j.needsRollback = false ∧ Steady stored floor s' v' := by
  obtain ⟨commits, frames, content, haccounts, hscanned, hfile, hintact⟩ := h.account
  obtain ⟨j, rfl, hsettling⟩ := settle_leaves hrun
  have hcheckpoint := fun older =>
    haccounts.checkpoint h.ready hwords h.words h.kept hlength older
  have hjournal : ∀ w : Volume, (Remains.of w.files).journal = w.files.get? journalFile :=
    fun _ => rfl
  refine ⟨j, rfl, ?_⟩
  rcases hremains : Remains.of v'.files with ⟨configuration, checkpoint, journal⟩
  have hjournal' := hjournal v'
  rw [hremains] at hsettling hjournal'
  cases hsettling with
  | before =>
      refine ⟨hclean, ⟨h.kept, h.words, commits, frames, content, ?_, hscanned,
        hjournal'.symm.trans hfile, hintact⟩, h.ready⟩
      rw [hremains]
      exact haccounts
  | installed =>
      refine ⟨hclean, ⟨h.kept, h.words, commits, frames, content, ?_, hscanned,
        hjournal'.symm.trans hfile, hintact⟩, h.ready⟩
      rw [hremains]
      exact hcheckpoint commits haccounts.known
  | emptied hj =>
      have hclean' : j.needsRollback = false := by
        rcases hj with rfl | rfl
        · exact hclean
        · rfl
      -- nothing is left in the journal, and the checkpoint accounts for the state by itself
      refine ⟨hclean', ⟨h.kept, h.words, [], [], [], ?_, CommitRecord.scanned_nil, hjournal'.symm,
        fun _ => ⟨rfl, Nat.zero_le _⟩, fun hspoilt => ?_⟩, h.ready⟩
      · rw [hremains]
        exact (hcheckpoint [] nofun).journal (some [])
      · rw [show j.needsRollback = true from hspoilt] at hclean'
        cases hclean'

/-- What recording a prepared commit comes to: the record cannot be appended, or it is appended and
the rest of the work follows. -/
theorem complete_cases {p : Prepared} {res : Except Error CommitSummary}
    (hrun : s.complete p v = (res, s', v')) :
    (∃ e j, s.journal.append p.record v = (.error e, j, v') ∧ res = .error e ∧
        s' = { s with journal := j }) ∨
      ∃ j w r, s.journal.append p.record v = (.ok (), j, w) ∧
        (({ s with journal := j } : Store).publish p).settle w = (r, s', v') ∧
        res = r.map fun _ => p.summary := by
  unfold complete at hrun
  split at hrun
  · next e j w happend =>
      cases hrun
      exact .inl ⟨e, j, happend, rfl, rfl⟩
  · next j w happend =>
      rcases hsettle : (({ s with journal := j } : Store).publish p).settle w with ⟨r, s₁, w₁⟩
      dsimp only at hrun
      rw [hsettle] at hrun
      cases hrun
      exact .inr ⟨j, w, r, happend, hsettle, rfl⟩

/-- What a commit comes to: nothing is done, or what was prepared is recorded. -/
theorem commit_cases {res : Except Error CommitSummary}
    (hrun : s.commit oldest now staged v = (res, s', v')) :
    (s' = s ∧ v' = v) ∨ ∃ p, prepare s.current oldest now staged = .ok (.inr p) ∧
      ((∃ e j, s.journal.append p.record v = (.error e, j, v') ∧ res = .error e ∧
          s' = { s with journal := j }) ∨
        ∃ j w r, s.journal.append p.record v = (.ok (), j, w) ∧
          (({ s with journal := j } : Store).publish p).settle w = (r, s', v') ∧
          res = r.map fun _ => p.summary) := by
  unfold Store.commit at hrun
  split at hrun
  · cases hrun
    exact .inl ⟨rfl, rfl⟩
  · cases hrun
    exact .inl ⟨rfl, rfl⟩
  · next p hprepare =>
      obtain ⟨-, -, hprepare⟩ := Fallible.bind_eq_ok.mp hprepare
      exact .inr ⟨p, hprepare, complete_cases hrun⟩

/-- A commit leaves the state of its store accounted for, whether it succeeds or fails. -/
theorem Steady.commit (h : Steady stored floor s v) (hold : ∀ g, oldest = some g → floor ≤ g)
    (hfits : ∀ p, prepare s.current oldest now staged = .ok (.inr p) →
      s.Fits p ∧ s.KeepsBytes v p.record)
    {res : Except Error CommitSummary} (hrun : s.commit oldest now staged v = (res, s', v')) :
    Steady stored floor s' v' := by
  rcases commit_cases hrun with ⟨rfl, rfl⟩ | ⟨p, hprepare, ⟨e, j, happend, -, rfl⟩ |
    ⟨j, w, r, happend, hsettle, -⟩⟩
  · exact h
  · exact h.append_failed (hfits p hprepare).2 happend
  · have hfit := (hfits p hprepare).1
    obtain ⟨hsteady, hclean⟩ := h.append hold hprepare hfit happend
    obtain ⟨j', -, -, hsteady'⟩ :=
      hsteady.settle hclean hfit.snapshot hfit.checkpoint hsettle
    exact hsteady'

/-! ## What is restored -/

/-- Two stores that hold the same. -/
structure SameState (s t : Store) : Prop where
  generation : t.current.generation = s.current.generation
  timestamp : t.current.timestamp = s.current.timestamp
  numbers : t.current.numbering.numbers = s.current.numbering.numbers
  ids : t.current.numbering.ids = s.current.numbering.ids
  maxNumber : t.current.maxNumber = s.current.maxNumber
  documents : t.current.documents = s.current.documents
  postings : t.current.postings = s.current.postings
  schema : t.current.metadata.schema = s.current.metadata.schema
  metadata : ∀ d, t.current.metadata.recordOf d = s.current.metadata.recordOf d
  access : t.current.access = s.current.access
  history : t.history = s.history

/-- Opening a storage with these files restores the state of a store. -/
def RestoredFrom (s : Store) (files : Files) : Prop :=
  ∀ (asked : Config) (v : Volume), v.files = files → v.plan = [] →
    asked.historyLimit = s.config.historyLimit → Accepts asked s.current.metadata.schema →
    ∃ t v', (Store.open asked).run v = (.ok t, v') ∧ s.SameState t

/-- What is restored does not depend on the state of the journal. -/
theorem RestoredFrom.of_journal {files : Files}
    (h : ({ s with journal := j } : Store).RestoredFrom files) : s.RestoredFrom files := by
  intro asked w hfiles hplan hlimit hasked
  obtain ⟨t, w', hopen, hsame⟩ := h asked w hfiles hplan hlimit hasked
  exact ⟨t, w', hopen, hsame.generation, hsame.timestamp, hsame.numbers, hsame.ids,
    hsame.maxNumber, hsame.documents, hsame.postings, hsame.schema, hsame.metadata, hsame.access,
    hsame.history⟩

/-- Behind a journal that need not be cut back there is nothing. -/
theorem Steady.nothing_behind (h : Steady stored floor s v)
    (hclean : s.journal.needsRollback = false) :
    (CommitRecord.scan ((v.contentOf journalFile).drop s.journal.size)).1 = [] := by
  obtain ⟨commits, frames, content, -, -, hfile, hintact⟩ := h.account
  obtain ⟨rfl, hsize⟩ := hintact.clean hclean
  have hcontent : v.contentOf journalFile = content := SortedMap.getD_of_some hfile []
  rw [hcontent, List.drop_eq_nil_of_le hsize, CommitRecord.scan_nil]

/-- The state is restored, in a sound snapshot, if no whole frame of a commit that failed stands
behind the journal. -/
theorem Steady.exists_restored (h : Steady stored floor s v)
    (hbehind : (CommitRecord.scan ((v.contentOf journalFile).drop s.journal.size)).1 = [])
    {asked : Config} {w : Volume} (hfiles : w.files = v.files) (hplan : w.plan = [])
    (hlimit : asked.historyLimit = s.config.historyLimit)
    (hasked : Accepts asked s.current.metadata.schema) :
    ∃ t w', (Store.open asked).run w = (.ok t, w') ∧ s.SameState t ∧ t.current.Sound := by
  obtain ⟨commits, frames, content, haccounts, hscanned, hfile, hintact⟩ := h.account
  have hcontent : v.contentOf journalFile = content := SortedMap.getD_of_some hfile []
  rw [hcontent] at hbehind
  -- what stands behind the frames is no commit
  have hscan : ∃ size, CommitRecord.scan content = (commits, size) ∧ size ≤ content.length := by
    obtain ⟨behind, hcontent, hnone⟩ : ∃ behind, content = frames ++ behind ∧
        (CommitRecord.scan behind).1 = [] := by
      cases hneeds : s.journal.needsRollback with
      | false =>
          obtain ⟨rfl, -⟩ := hintact.clean hneeds
          refine ⟨[], (List.append_nil _).symm, ?_⟩
          rw [CommitRecord.scan_nil]
      | true =>
          obtain ⟨hsize, behind, rfl⟩ := hintact.spoilt hneeds
          rw [hsize, List.drop_left] at hbehind
          exact ⟨behind, rfl, hbehind⟩
    have hsize := CommitRecord.size_scan_le content
    have hscan := hscanned behind
    rw [hnone, List.append_nil, ← hcontent] at hscan
    rw [hscan] at hsize
    exact ⟨_, hscan, hsize⟩
  obtain ⟨size, hscan, hsize⟩ := hscan
  rw [← hfiles] at haccounts hfile
  obtain ⟨start, t, records, hstart, hleads, hhistory⟩ := haccounts.leads
  obtain ⟨w', -, hopen, -⟩ := run_open haccounts.words haccounts.config hstart hfile hscan hsize
    (fun _ => hplan) hleads.replays
  have htwin := hleads.twin
  have hsound := hleads.sound
  have halike := htwin.toAlike
  rw [← halike.schema] at hasked
  refine ⟨_, w', hopen hasked, ⟨htwin.generation, htwin.timestamp, halike.numbers, halike.ids,
    halike.maxNumber_eq, halike.documents_eq h.ready.sound hsound,
    halike.postings_eq h.ready.sound hsound, halike.schema,
    halike.recordOf_eq h.ready.sound hsound, halike.access_eq h.ready.sound hsound, ?_⟩, hsound⟩
  rw [hlimit]
  exact hhistory

theorem Steady.restored (h : Steady stored floor s v)
    (hbehind : (CommitRecord.scan ((v.contentOf journalFile).drop s.journal.size)).1 = []) :
    s.RestoredFrom v.files := by
  intro asked w hfiles hplan hlimit hasked
  obtain ⟨t, w', hopen, hsame, -⟩ := h.exists_restored hbehind hfiles hplan hlimit hasked
  exact ⟨t, w', hopen, hsame⟩

/-! ## Setting up -/

theorem leaves_writeConfig (config : Config) {files : Files} :
    Leaves (writeConfig config) files
      (fun _ f => f = files.insert configFile (Wire.textBytes (Json.renderPretty config.toJson)))
      (fun _ => True) := by
  unfold writeConfig
  refine ((Disk.leaves_create configFile).mono (fun _ _ h => h) (fun _ _ => trivial)).bind ?_
  rintro _ _ rfl
  refine ((leaves_write configFile _).mono (fun _ _ h => h) (fun _ _ => trivial)).bind ?_
  rintro _ _ rfl
  have hcontent : (files.insert configFile []).getD configFile [] = [] := by
    rw [SortedMap.getD, SortedMap.get?_insert, if_pos rfl, Option.getD_some]
  rw [hcontent, List.nil_append, SortedMap.insert_insert]
  refine ((leaves_sync configFile).mono (fun _ _ h => h) (fun _ _ => trivial)).bind ?_
  rintro _ _ rfl
  exact (leaves_close configFile).mono (fun _ _ h => h) (fun _ _ => trivial)

/-- Setting up a storage leaves its configuration and an empty journal. -/
theorem leaves_create (config : Config) :
    Leaves (create config) ∅
      (fun s f => s = fresh config {} ∧ Remains.of f =
        ⟨some (Wire.textBytes (Json.renderPretty config.toJson)), none, some []⟩)
      (fun _ => True) := by
  unfold create
  refine (leaves_writeConfig config).bind ?_
  rintro _ _ rfl
  refine (Journal.leaves_open_new ?_).bind ?_
  · rw [SortedMap.get?_insert, if_neg (by decide)]
    rfl
  · rintro _ _ ⟨rfl, rfl⟩
    refine leaves_pure _ ⟨rfl, ?_⟩
    rw [Remains.of_insert_journal]
    rfl

/-- A new storage is accounted for. -/
theorem steady_create {v₀ : Volume} (hwords : config.InRange) (hnew : v₀.files = ∅)
    (hrun : (create config).run v₀ = (.ok s, v)) :
    s = fresh config {} ∧ Steady config 0 s v := by
  rcases leaves_create config v₀ hnew with ⟨t, w, hcreate, rfl, hremains⟩ | ⟨e, w, hcreate, -⟩
  · rw [hcreate] at hrun
    cases hrun
    refine ⟨rfl, ⟨Statistics.History.kept_empty _, ⟨nofun, nofun⟩, [], [], [], ?_,
      CommitRecord.scanned_nil,
      congrArg Remains.journal hremains, Journal.intact_empty⟩, Snapshot.sound_empty _ _,
      Numbering.Orderly.new 0⟩
    rw [hremains]
    exact accounts_empty hwords rfl rfl
  · rw [hcreate] at hrun
    cases hrun

/-! ## Sessions with failures -/

/-- What a session comes to when any calls may fail. Between its commits nothing but the files stays
as it was. -/
inductive Session (config : Config) : Store → Volume → Prop
  | created {v₀ v : Volume} {s : Store} : v₀.files = ∅ → (create config).run v₀ = (.ok s, v) →
    Session config s v
  | committed {s s' : Store} {v v₁ v' : Volume} {oldest : Option Nat} {now : Nat}
    {staged : List StagedOperation} {res : Except Error CommitSummary} :
    Session config s v → v₁.files = v.files →
    (∀ p, prepare s.current oldest now staged = .ok (.inr p) →
      s.Fits p ∧ s.KeepsBytes v₁ p.record) →
    s.commit oldest now staged v₁ = (res, s', v') → Session config s' v'

/-- The files at a point of the work behind the journal: those that it leaves if all calls from
this point on fail. -/
def StopsAt (s : Store) (v : Volume) (files : Files) : Prop :=
  ∃ plan res s' v', s.settle { v with plan } = (res, s', v') ∧ v'.files = files

/-- A process stops, with the files that it leaves, after the commit that led to a state was
recorded in the journal: in the work that follows, or between two commits. -/
inductive Stopped (config : Config) : Store → Files → Prop
  | within {s : Store} {v v₁ v₂ : Volume} {oldest : Option Nat} {now : Nat}
    {staged : List StagedOperation} {p : Prepared} {j : Journal} {files : Files} :
    Session config s v → v₁.files = v.files →
    prepare s.current oldest now staged = .ok (.inr p) → s.Fits p →
    s.journal.append p.record v₁ = (.ok (), j, v₂) →
    StopsAt (({ s with journal := j } : Store).publish p) v₂ files →
    Stopped config (({ s with journal := j } : Store).publish p) files
  | between {s : Store} {v : Volume} : Session config s v →
    (CommitRecord.scan ((v.contentOf journalFile).drop s.journal.size)).1 = [] →
    Stopped config s v.files

theorem Steady.of_files (h : Steady stored floor s v) (hfiles : v₁.files = v.files) :
    Steady stored floor s v₁ :=
  ⟨h.toAccounted.of_files hfiles, h.ready⟩

theorem Session.steady (hwords : config.InRange) (h : Session config s v) :
    Steady config 0 s v := by
  induction h with
  | created hnew hrun => exact (steady_create hwords hnew hrun).2
  | committed _ hfiles hfits hrun ih =>
      exact (ih.of_files hfiles).commit (fun _ _ => Nat.zero_le _) hfits hrun

end Store

end Concordance
