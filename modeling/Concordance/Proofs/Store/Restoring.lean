import Concordance.Proofs.Recovery.Checkpoint
import Concordance.Proofs.Recovery.Journal
import Concordance.Proofs.Recovery.Replay
import Concordance.Proofs.Store.Config
import Concordance.Store.Commit

/-!
# What files a state is restored from

Opening a storage reads three of its files, the `Remains` of the process that wrote them. They
account for a state (`Accounts`) when the commits of the journal lead from the checkpoint to it, in
all that a reader sees. Every step of a commit keeps some such account:

* a commit that was journaled leads one step further (`Accounts.publish`);
* a checkpoint of the state backs it by itself, whatever older commits the journal still holds
  (`Accounts.checkpoint`);
* nothing else that writing a checkpoint leaves is ever read (`settle_leaves`).
-/

namespace Concordance

open Disk

/-! ## Remains -/

/-- The files that are read when a storage is opened. -/
structure Remains where
  config : Option (List UInt8)
  checkpoint : Option (List UInt8)
  journal : Option (List UInt8)

/-- What is left of a storage in its files. -/
def Remains.of (files : Files) : Remains where
  config := files.get? configFile
  checkpoint := files.get? checkpointFile
  journal := files.get? journalFile

variable {files : Files} {bytes : List UInt8}

theorem Remains.of_insert_journal (files : Files) (bytes : List UInt8) :
    of (files.insert journalFile bytes) = { of files with journal := some bytes } := by
  unfold of
  rw [SortedMap.get?_insert, SortedMap.get?_insert, SortedMap.get?_insert, if_neg (by decide),
    if_neg (by decide), if_pos rfl]

theorem Remains.of_insert_draft (files : Files) (bytes : List UInt8) :
    of (files.insert checkpointDraft bytes) = of files := by
  unfold of
  rw [SortedMap.get?_insert, SortedMap.get?_insert, SortedMap.get?_insert, if_neg (by decide),
    if_neg (by decide), if_neg (by decide)]

theorem Remains.of_install (files : Files) (bytes : List UInt8) :
    of ((files.erase checkpointDraft).insert checkpointFile bytes) =
      { of files with checkpoint := some bytes } := by
  unfold of
  rw [SortedMap.get?_insert, SortedMap.get?_insert, SortedMap.get?_insert, if_neg (by decide),
    if_pos rfl, if_neg (by decide), SortedMap.get?_erase, SortedMap.get?_erase,
    if_neg (by decide), if_neg (by decide)]

/-! ## Writing a checkpoint -/

namespace Checkpoint

/-- A draft is none of the files that are read. -/
theorem leaves_writeDraft (bytes : List UInt8) :
    Leaves (writeDraft bytes) files
      (fun _ f => f.get? checkpointDraft = some bytes ∧ Remains.of f = Remains.of files)
      (fun f => Remains.of f = Remains.of files) := by
  unfold writeDraft
  refine ((leaves_create checkpointDraft).mono (fun _ _ h => h) ?_).bind ?_
  · rintro _ rfl
    rfl
  · rintro _ _ rfl
    refine ((leaves_write checkpointDraft bytes).mono (fun _ _ h => h) ?_).bind ?_
    · rintro _ (rfl | ⟨kept, -, rfl⟩)
      · exact Remains.of_insert_draft files []
      · rw [Remains.of_insert_draft, Remains.of_insert_draft]
    · rintro _ _ rfl
      have hcontent : (files.insert checkpointDraft []).getD checkpointDraft [] = [] := by
        rw [SortedMap.getD, SortedMap.get?_insert, if_pos rfl, Option.getD_some]
      rw [hcontent, List.nil_append, SortedMap.insert_insert]
      refine (leaves_close checkpointDraft).mono ?_ ?_
      · rintro _ _ rfl
        refine ⟨?_, Remains.of_insert_draft files bytes⟩
        rw [SortedMap.get?_insert, if_pos rfl]
      · rintro _ rfl
        exact Remains.of_insert_draft files bytes

/-- A draft takes the place of the checkpoint in one step. -/
theorem leaves_install (hdraft : files.get? checkpointDraft = some bytes) :
    Leaves install files
      (fun _ f => Remains.of f = { Remains.of files with checkpoint := some bytes })
      (fun f => Remains.of f = Remains.of files ∨
        Remains.of f = { Remains.of files with checkpoint := some bytes }) := by
  unfold install
  refine ((leaves_rename hdraft).mono (fun _ _ h => h) ?_).bind ?_
  · rintro _ rfl
    exact .inl rfl
  · rintro _ _ rfl
    refine leaves_syncDirectory.mono ?_ ?_
    · rintro _ _ rfl
      exact Remains.of_install files bytes
    · rintro _ rfl
      exact .inr (Remains.of_install files bytes)

theorem leaves_write (s : Snapshot) (h : Statistics.History) :
    Leaves (write s h) files
      (fun _ f => Remains.of f = { Remains.of files with checkpoint := some (encode s h) })
      (fun f => Remains.of f = Remains.of files ∨
        Remains.of f = { Remains.of files with checkpoint := some (encode s h) }) := by
  unfold write
  refine ((leaves_writeDraft (encode s h)).mono (fun _ _ h => h) (fun _ h => .inl h)).bind ?_
  rintro _ f ⟨hdraft, hremains⟩
  rw [← hremains]
  exact leaves_install hdraft

/-! ## Reading a checkpoint -/

theorem run_read? {v : Volume} {bytes : List UInt8} {accessControl : Bool} {c : Checkpoint}
    (hfile : v.files.get? checkpointFile = some bytes)
    (hdecode : decode accessControl bytes = .ok c) :
    (read? accessControl).run v = (.ok (some c), v) := by
  unfold read?
  rw [run_bind_of_ok (run_exists? v checkpointFile), hfile]
  simp only [Option.isSome_some, Bool.not_true, if_neg Bool.false_ne_true]
  rw [run_bind_of_ok (run_read hfile), hdecode]
  rfl

end Checkpoint

namespace Store

/-- What is left of the files while a checkpoint is written: nothing has changed yet, or the
checkpoint is there, or it is there and the journal is empty. -/
inductive Settling (s : Store) (r : Remains) : Journal → Remains → Prop
  | before : Settling s r s.journal r
  | installed : Settling s r s.journal
      { r with checkpoint := some (Checkpoint.encode s.current s.history) }
  | emptied {j : Journal} : j = s.journal ∨ j = {} → Settling s r j
      { r with checkpoint := some (Checkpoint.encode s.current s.history), journal := some [] }

/-- Whatever calls fail while a checkpoint is written, only the journal of the store can change. -/
theorem settle_leaves {s s' : Store} {v v' : Volume} {res : Except Error Unit}
    (hrun : s.settle v = (res, s', v')) :
    ∃ j, s' = { s with journal := j } ∧
      Settling s (Remains.of v.files) j (Remains.of v'.files) := by
  unfold settle at hrun
  split at hrun
  · cases hrun
    exact ⟨s.journal, rfl, .before⟩
  · rcases Checkpoint.leaves_write s.current s.history v rfl with
      ⟨_, v₁, hwrite, hremains⟩ | ⟨e, v₁, hwrite, hremains⟩
    · rw [hwrite] at hrun
      dsimp only at hrun
      unfold resetJournal at hrun
      rcases Journal.leaves_reset v₁ rfl with ⟨j, v₂, hreset, rfl, hfiles⟩ | ⟨e, v₂, hreset, hfiles⟩
      · rw [hreset] at hrun
        cases hrun
        refine ⟨{}, rfl, ?_⟩
        rw [hfiles, Remains.of_insert_journal, hremains]
        exact .emptied (.inr rfl)
      · -- a reset that fails may have emptied the file before
        rw [hreset] at hrun
        cases hrun
        refine ⟨s.journal, rfl, ?_⟩
        rcases hfiles with hfiles | hfiles
        · rw [hfiles, hremains]
          exact .installed
        · rw [hfiles, Remains.of_insert_journal, hremains]
          exact .emptied (.inl rfl)
    · rw [hwrite] at hrun
      cases hrun
      refine ⟨s.journal, rfl, ?_⟩
      rcases hremains with hremains | hremains
      · rw [hremains]
        exact .before
      · rw [hremains]
        exact .installed

end Store

/-! ## Accounts of a state -/

/-- What opening starts from: the checkpoint, or an empty storage. -/
def Starts (stored : Config) (checkpoint : Option (List UInt8)) (start : Checkpoint) : Prop :=
  match checkpoint with
  | none => start = ⟨.empty stored.schema stored.accessControl, [], none⟩
  | some bytes => Checkpoint.decode stored.accessControl bytes = .ok start

/-- The commits lead from the checkpoint to a state, in all that a reader sees. -/
structure Leads (start : Checkpoint) (commits : List CommitRecord) (s t : Snapshot)
    (records : List Statistics.Record) : Prop where
  replays : commits.foldlM Store.replay (start.snapshot, start.records) = .ok (t, records)
  twin : s.Twin t
  sound : t.Sound
  parked : Store.ParkedInTime t
  words : ({ records, horizon := start.horizon, limit := 0 } : Statistics.History).InRange

/-- The files account for a state: they hold a configuration and a checkpoint, and the commits of
the journal lead on to the snapshot and the history. -/
structure Accounts (stored : Config) (limit : Nat) (commits : List CommitRecord) (r : Remains)
    (s : Snapshot) (h : Statistics.History) : Prop where
  words : stored.InRange
  config : r.config = some (Wire.textBytes (Json.renderPretty stored.toJson))
  access : s.accessControl = stored.accessControl
  known : ∀ c ∈ commits, c.generation ≤ s.generation
  leads : ∃ start t records, Starts stored r.checkpoint start ∧ Leads start commits s t records ∧
    Statistics.History.restore limit start.horizon records = h

variable {stored : Config} {limit floor : Nat} {commits : List CommitRecord} {r : Remains}
  {s : Snapshot} {h : Statistics.History}

/-- The journal's file is not part of the account. -/
theorem Accounts.journal (hb : Accounts stored limit commits r s h) (content : Option (List UInt8)) :
    Accounts stored limit commits { r with journal := content } s h :=
  ⟨hb.words, hb.config, hb.access, hb.known, hb.leads⟩

/-- A new storage is accounted for. -/
theorem accounts_empty (hwords : stored.InRange) (hr : r.config =
      some (Wire.textBytes (Json.renderPretty stored.toJson))) (hnone : r.checkpoint = none) :
    Accounts stored limit [] r (.empty stored.schema stored.accessControl) (.empty limit) where
  words := hwords
  config := hr
  access := rfl
  known := nofun
  leads := by
    refine ⟨⟨.empty stored.schema stored.accessControl, [], none⟩, _, [], ?_,
      ⟨rfl, .refl _, Snapshot.sound_empty _ _, nofun, ⟨nofun, nofun⟩⟩, rfl⟩
    rw [hnone]
    exact rfl

/-- A commit that was journaled leads one step further. -/
theorem Accounts.publish (hb : Accounts stored limit commits r s h) (hs : Snapshot.Ready floor s)
    {oldest : Option Nat} (hold : ∀ g, oldest = some g → floor ≤ g) {now : Nat}
    {staged : List StagedOperation} {p : Store.Prepared}
    (hprepare : Store.prepare s oldest now staged = .ok (.inr p)) (hr : p.record.InRange) :
    Accounts stored limit (commits ++ [p.record]) r p.next (h.push p.record.statistics) := by
  obtain ⟨-, hgeneration, hrecord, haccess⟩ := Store.head_of_prepare hs hold hprepare
  obtain ⟨start, t, records, hstart, hleads, hhistory⟩ := hb.leads
  obtain ⟨t', hreplay, htwin, hsound⟩ :=
    Store.replay_of_prepare hs hold hprepare hleads.twin hleads.sound records
  refine ⟨hb.words, hb.config, haccess.trans hb.access, ?_, start, t',
    records ++ [p.record.statistics], hstart, ⟨?_, htwin, hsound,
      Store.parkedInTime_replay hleads.parked hreplay, ?_, hleads.words.horizon⟩, ?_⟩
  · intro c hc
    rcases List.mem_append.mp hc with hc | hc
    · have hknown := hb.known c hc
      omega
    · rw [List.mem_singleton.mp hc]
      exact Nat.le_of_eq hrecord
  · -- the new commit is repeated where the others have led to
    rw [List.foldlM_append, hleads.replays]
    show List.foldlM Store.replay (t, records) [p.record] = _
    rw [List.foldlM_cons, hreplay]
    rfl
  · intro x hx
    rcases List.mem_append.mp hx with hx | hx
    · exact hleads.words.records x hx
    · rw [List.mem_singleton.mp hx]
      exact hr.statistics
  · rw [Statistics.History.restore_append, hhistory]

/-- A checkpoint accounts for the state that it was written from, whatever older commits there
are. -/
theorem Accounts.checkpoint (hb : Accounts stored limit commits r s h) (hs : Snapshot.Ready floor s)
    (hr : s.InRange) (hh : h.InRange) (hkept : h.Kept limit)
    (hlength : (Checkpoint.encode s h).length < Wire.word64) (older : List CommitRecord)
    (holder : ∀ c ∈ older, c.generation ≤ s.generation) :
    Accounts stored limit older { r with checkpoint := some (Checkpoint.encode s h) } s h := by
  obtain ⟨t, hdecode, htwin, hready, hnumbering⟩ := Checkpoint.decode_encode hs hr hh hlength floor
  rw [hb.access] at hdecode
  refine ⟨hb.words, hb.config, hb.access, holder, ⟨t, h.records, h.horizon⟩, t, h.records,
    hdecode, ⟨?_, htwin, hready.sound, ?_, hh.records, hh.horizon⟩, hkept.restore_eq⟩
  · -- the checkpoint is as new as the state, so no older commit is repeated
    apply Store.replay_skips
    intro c hc
    rw [htwin.generation]
    exact holder c hc
  · intro e he
    rw [hnumbering] at he
    cases he

/-! ## Opening -/

namespace Store

theorem run_readConfig {v : Volume} (hwords : stored.InRange) (hfile : v.files.get? configFile =
      some (Wire.textBytes (Json.renderPretty stored.toJson))) :
    readConfig.run v = (.ok stored, v) := by
  unfold readConfig
  rw [run_bind_of_ok (run_read hfile), Config.ofBytes_toBytes hwords]
  rfl

theorem run_checkpointed {v : Volume} {start : Checkpoint}
    (hstart : Starts stored (v.files.get? checkpointFile) start) :
    (checkpointed stored).run v = (.ok start, v) := by
  unfold checkpointed
  cases hfile : v.files.get? checkpointFile with
  | none =>
      rw [hfile] at hstart
      have hread : (Checkpoint.read? stored.accessControl).run v = (.ok none, v) := by
        unfold Checkpoint.read?
        rw [run_bind_of_ok (run_exists? v checkpointFile), hfile]
        rfl
      rw [run_bind_of_ok hread, show start = _ from hstart]
      rfl
  | some bytes =>
      rw [hfile] at hstart
      rw [run_bind_of_ok (Checkpoint.run_read? hfile hstart)]
      rfl

/-- A schema that is asked for is that of the storage. -/
def Accepts (asked : Config) (schema : Schema) : Prop :=
  asked.schema.isEmpty = true ∨ asked.schema = schema

/-- Opening restores what the commits of the journal lead to, unless another schema is asked for. -/
theorem run_open {v : Volume} {asked : Config} {start : Checkpoint} {t : Snapshot}
    {records : List Statistics.Record} {content : List UInt8} {size : Nat}
    (hwords : stored.InRange) (hconfig : v.files.get? configFile =
      some (Wire.textBytes (Json.renderPretty stored.toJson)))
    (hstart : Starts stored (v.files.get? checkpointFile) start)
    (hfile : v.files.get? journalFile = some content)
    (hscan : CommitRecord.scan content = (commits, size)) (hsize : size ≤ content.length)
    (hplan : size < content.length → v.plan = [])
    (hreplays : commits.foldlM replay (start.snapshot, start.records) = .ok (t, records)) :
    ∃ v', v'.files = v.files.insert journalFile (content.take size) ∧
      (Accepts asked t.metadata.schema → (Store.open asked).run v = (.ok {
        config := effectiveConfig asked stored t.metadata.schema
        journal := { size }
        current := t
        history := .restore asked.historyLimit start.horizon records }, v')) ∧
      (¬ Accepts asked t.metadata.schema → ∃ e, (Store.open asked).run v = (.error e, v')) := by
  obtain ⟨v', hopen, hfiles⟩ := Journal.open_reads hfile hscan hsize hplan
  refine ⟨v', hfiles, ?_⟩
  have hdiffers : (!asked.schema.isEmpty && decide (asked.schema ≠ t.metadata.schema)) = true ↔
      ¬ Accepts asked t.metadata.schema := by
    rw [Accepts]
    simp
  have hreplayed : (ofExcept (.ok (t, records)) : Disk Restored).run v' = (.ok (t, records), v') :=
    rfl
  unfold Store.open
  rw [run_bind_of_ok (run_readConfig hwords hconfig), run_bind_of_ok (run_checkpointed hstart),
    run_bind_of_ok hopen]
  dsimp only
  rw [hreplays, run_bind_of_ok hreplayed]
  dsimp only
  constructor
  · intro haccepts
    rw [if_neg fun hd => hdiffers.mp hd haccepts]
    rfl
  · intro hrefuses
    rw [if_pos (hdiffers.mpr hrefuses)]
    exact ⟨_, rfl⟩

theorem readConfig_eq_ok {v v' : Volume} (hrun : readConfig.run v = (.ok stored, v')) : v' = v := by
  obtain ⟨bytes, w, hread, hrest⟩ := run_bind_eq_ok hrun
  obtain ⟨rfl, -⟩ := read_eq_ok hread
  split at hrest <;> cases hrest
  rfl

theorem checkpointed_eq_ok {v v' : Volume} {start : Checkpoint}
    (hrun : (checkpointed stored).run v = (.ok start, v')) :
    v' = v ∧ Starts stored (v.files.get? checkpointFile) start := by
  unfold checkpointed Checkpoint.read? at hrun
  obtain ⟨found, w, hfound, hrest⟩ := run_bind_eq_ok hrun
  rw [run_bind_of_ok (run_exists? v checkpointFile)] at hfound
  cases hfile : v.files.get? checkpointFile with
  | none =>
      rw [hfile] at hfound
      cases hfound
      cases hrest
      exact ⟨rfl, rfl⟩
  | some bytes =>
      rw [hfile] at hfound
      simp only [Option.isSome_some, Bool.not_true, if_neg Bool.false_ne_true] at hfound
      rw [run_bind_of_ok (run_read hfile)] at hfound
      split at hfound
      · next hdecode =>
          cases hfound
          cases hrest
          exact ⟨rfl, hdecode⟩
      · cases hfound

/-- What a storage was opened from, whatever calls fail on its volume. -/
theorem open_eq_ok {v v' : Volume} {asked : Config} {s : Store} {content : List UInt8}
    (hfile : v.files.get? journalFile = some content)
    (hrun : (Store.open asked).run v = (.ok s, v')) :
    ∃ stored start records, readConfig.run v = (.ok stored, v) ∧
      Starts stored (v.files.get? checkpointFile) start ∧
      (CommitRecord.scan content).1.foldlM replay (start.snapshot, start.records) =
        .ok (s.current, records) ∧
      s.history = .restore asked.historyLimit start.horizon records ∧
      s.journal = { size := (CommitRecord.scan content).2 } ∧
      v'.files = v.files.insert journalFile (content.take (CommitRecord.scan content).2) := by
  unfold Store.open at hrun
  obtain ⟨stored, w, hconfig, hrest⟩ := run_bind_eq_ok hrun
  obtain rfl := readConfig_eq_ok hconfig
  obtain ⟨start, w', hcheckpoint, hrest'⟩ := run_bind_eq_ok hrest
  obtain ⟨rfl, hstart⟩ := checkpointed_eq_ok hcheckpoint
  obtain ⟨⟨journal, commits⟩, w'', hjournal, hreplay⟩ := run_bind_eq_ok hrest'
  rcases Journal.leaves_open hfile w' rfl with ⟨a, w₁, hopen, rfl, hfiles⟩ | ⟨e, w₁, hopen, -⟩
  · rw [hopen] at hjournal
    cases hjournal
    obtain ⟨⟨t, records⟩, w₂, hreplays, hlast⟩ := run_bind_eq_ok hreplay
    cases hfold : (CommitRecord.scan content).1.foldlM replay (start.snapshot, start.records) with
    | error e =>
        rw [hfold] at hreplays
        cases hreplays
    | ok restored =>
        rw [hfold] at hreplays
        cases hreplays
        dsimp only at hlast
        split at hlast
        · cases hlast
        · cases hlast
          exact ⟨stored, start, records, hconfig, hstart, hfold, rfl, rfl, hfiles⟩
  · rw [hopen] at hjournal
    cases hjournal

/-! ## Stores and their files -/

/-- The files of a store account for its state, with an intact journal. -/
structure Accounted (stored : Config) (s : Store) (v : Volume) : Prop where
  kept : s.history.Kept s.config.historyLimit
  words : s.history.InRange
  account : ∃ commits frames content,
    Accounts stored s.config.historyLimit commits (Remains.of v.files) s.current s.history ∧
      CommitRecord.Scanned commits frames ∧ v.files.get? journalFile = some content ∧
      Journal.Intact frames s.journal content

theorem Accounted.of_files {s : Store} {v v₁ : Volume} (h : Accounted stored s v)
    (hfiles : v₁.files = v.files) : Accounted stored s v₁ := by
  refine ⟨h.kept, h.words, ?_⟩
  rw [hfiles]
  exact h.account

end Store

end Concordance
