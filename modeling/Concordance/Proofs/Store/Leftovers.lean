import Concordance.Proofs.Statistics.Resumption
import Concordance.Proofs.Store.Lifetime

/-!
# Setting up over leftovers

A storage is set up where there is no configuration. Other files may still lie there, left by a
storage that was taken away in part. Setting up neither removes them nor looks at what they hold: a
checkpoint stays, and the journal goes on behind the commits that it has. Generations start over, so
opening reads the old commits and takes the new ones of the same generations for known.

`own_commits_restored_iff` says when this does no harm: exactly if the files left over are `Inert`,
that is, the journal has no commit of a generation above 0 and a checkpoint is that of an empty
storage. Otherwise not even the empty storage is restored that was just set up.
-/

namespace Concordance

open Disk

namespace Statistics.History

variable {limit : Nat} {horizon : Option TimeStamp} {records : List Record}

/-- A history that is restored from records has records. -/
theorem restore_eq_empty (h : restore limit horizon records = empty limit) :
    records = [] ∧ horizon = none := by
  rcases List.eq_nil_or_concat records with rfl | ⟨init, r, rfl⟩
  · exact ⟨rfl, congrArg History.horizon h⟩
  · rw [List.concat_eq_append, restore_append] at h
    have hlimit := (kept_restore limit horizon init).limit
    have hnil : (trim _ _ _).2 = [] := congrArg History.records h
    exact absurd hnil (trim_ne_nil (by omega) (by simp))

end Statistics.History

namespace Store

open Snapshot

variable {config stored asked : Config} {files : Files} {s s' : Store} {v v₀ v₁ v' : Volume}
  {floor : Nat} {start : Checkpoint}

/-! ## What is left over -/

/-- The content of the journal that is left over; none is as good as an empty one. -/
def leftJournal (files : Files) : List UInt8 := files.getD journalFile []

/-- A checkpoint of an empty storage that has not handed out any number. -/
structure Blank (config : Config) (start : Checkpoint) : Prop where
  same : (fresh config {}).SameState
    { fresh config {} with
      current := start.snapshot
      history := .restore config.historyLimit start.horizon start.records }
  free : ∀ d, ¬ start.snapshot.numbering.IsFree d

/-- Files that say nothing of another storage. -/
structure Inert (config : Config) (files : Files) : Prop where
  journal : ∀ c ∈ (CommitRecord.scan (leftJournal files)).1, c.generation = 0
  checkpoint : ∀ bytes, files.get? checkpointFile = some bytes →
    ∃ start, Checkpoint.decode config.accessControl bytes = .ok start ∧ Blank config start

/-- Opening restores the state of a store, with no free numbers but those that it handed out. -/
def RestoredAlone (s : Store) (files : Files) : Prop :=
  ∀ (asked : Config) (v : Volume), v.files = files → v.plan = [] →
    asked.historyLimit = s.config.historyLimit → Accepts asked s.current.metadata.schema →
    ∃ t v', (Store.open asked).run v = (.ok t, v') ∧ s.SameState t ∧
      ∀ d, t.current.numbering.IsFree d → 1 ≤ d ∧ d ≤ s.current.maxNumber

/-- Setting up leaves the checkpoint, and the journal up to where it is intact. -/
theorem leaves_create_over (config : Config) :
    Leaves (create config) files
      (fun s f => s = fresh config { size := (CommitRecord.scan (leftJournal files)).2 } ∧
        Remains.of f = ⟨some (Wire.textBytes (Json.renderPretty config.toJson)),
          files.get? checkpointFile, some ((leftJournal files).take
            (CommitRecord.scan (leftJournal files)).2)⟩)
      (fun _ => True) := by
  unfold create
  refine (leaves_writeConfig config).bind ?_
  rintro _ _ rfl
  let files' := files.insert configFile (Wire.textBytes (Json.renderPretty config.toJson))
  have hremains : Remains.of files' = ⟨some (Wire.textBytes (Json.renderPretty config.toJson)),
      files.get? checkpointFile, files.get? journalFile⟩ := by
    unfold Remains.of
    rw [SortedMap.get?_insert, SortedMap.get?_insert, SortedMap.get?_insert, if_pos rfl,
      if_neg (by decide), if_neg (by decide)]
  have hjournal : files'.get? journalFile = files.get? journalFile :=
    congrArg Remains.journal hremains
  unfold leftJournal
  cases hleft : files.get? journalFile with
  | none =>
      rw [SortedMap.getD_of_none hleft, CommitRecord.scan_nil]
      refine (Journal.leaves_open_new (hjournal.trans hleft)).bind ?_
      rintro _ _ ⟨rfl, rfl⟩
      refine leaves_pure _ ⟨rfl, ?_⟩
      rw [Remains.of_insert_journal, hremains]
      rfl
  | some content =>
      rw [SortedMap.getD_of_some hleft]
      refine ((Journal.leaves_open (hjournal.trans hleft)).mono (fun _ _ h => h)
        (fun _ _ => trivial)).bind ?_
      rintro _ _ ⟨rfl, rfl⟩
      refine leaves_pure _ ⟨rfl, ?_⟩
      rw [Remains.of_insert_journal, hremains]

theorem remains_of_create (hrun : (create config).run v₀ = (.ok s, v)) :
    s = fresh config { size := (CommitRecord.scan (leftJournal v₀.files)).2 } ∧
      Remains.of v.files = ⟨some (Wire.textBytes (Json.renderPretty config.toJson)),
        v₀.files.get? checkpointFile, some ((leftJournal v₀.files).take
          (CommitRecord.scan (leftJournal v₀.files)).2)⟩ := by
  rcases leaves_create_over config v₀ rfl with ⟨t, w, hcreate, hleft⟩ | ⟨e, w, hcreate, -⟩
  · rw [hcreate] at hrun
    cases hrun
    exact hleft
  · rw [hcreate] at hrun
    cases hrun

/-! ## Blank checkpoints -/

/-- A numbering without numbers is orderly. -/
theorem sane_blank {n : Numbering} (hnumbers : n.numbers = ∅) (hids : n.ids = ∅)
    (hparked : n.parked = []) (hfree : ∀ d, ¬ n.IsFree d) (hnext : n.next = 1) : n.Sane := by
  have hlive : ∀ d, ¬ n.IsLive d := by
    rintro d ⟨id, hid⟩
    rw [Numbering.id?, hids] at hid
    cases hid
  refine ⟨fun id d => ?_, fun d hd => absurd hd (hlive d), fun d hd => absurd hd (hfree d),
    fun d hd => absurd hd (hfree d), ?_, ?_, Nat.le_of_eq hnext.symm⟩
  · rw [Numbering.number?, Numbering.id?, hnumbers, hids]
    constructor <;> intro hget <;> cases hget
  · rintro d ⟨g, hg⟩
    rw [hparked] at hg
    cases hg
  · rintro d ⟨g, hg⟩
    rw [hparked] at hg
    cases hg

/-- A blank checkpoint that was read is a twin of the empty storage. -/
theorem Blank.twin {bytes : List UInt8} (h : Blank config start)
    (hread : Checkpoint.decode config.accessControl bytes = .ok start) :
    (Snapshot.empty config.schema config.accessControl).Twin start.snapshot ∧
      start.snapshot.Sound ∧ start.snapshot.numbering.parked = [] := by
  obtain ⟨catalog, table, postings, rfl, htable, -⟩ :=
    Checkpoint.exists_assemble_of_decode hread
  let t := (Checkpoint.assemble config.accessControl catalog table postings).snapshot
  have hnumbers : t.numbering.numbers = ∅ := h.same.numbers
  have hids : t.numbering.ids = ∅ := h.same.ids
  have hdocuments : t.documents = ∅ := h.same.documents
  have hpostings : t.postings = ∅ := h.same.postings
  have haccess : t.access = ∅ := h.same.access
  have hschema : t.metadata.schema = config.schema := h.same.schema
  have hmax : t.maxNumber = 0 := h.same.maxNumber
  have hparked : t.numbering.parked = [] := rfl
  have hnext : t.numbering.next = 1 := by
    have hpos : 1 ≤ t.numbering.next := Nat.le_max_right _ _
    rw [Snapshot.maxNumber, Numbering.maxNumber] at hmax
    omega
  have hsane := sane_blank hnumbers hids hparked h.free hnext
  have hentries : ∀ d, t.entryAt? d = none := by
    intro d
    rw [Snapshot.entryAt?, hdocuments]
    rfl
  refine ⟨⟨⟨rfl, hnumbers, hids, hnext, hschema, hentries⟩, h.same.generation, h.same.timestamp⟩,
    ?_, hparked⟩
  refine .intro hsane ⟨?_, ?_, htable⟩ fun d => ⟨none, ⟨?_, ?_, ?_, ?_, ?_⟩, ?_⟩
  · show Snapshot.TrimPostings t.postings
    rw [hpostings]
    exact Snapshot.trimPostings_empty
  · show t.access.Trim
    rw [haccess]
    exact AccessLists.trim_empty
  · show t.documents.get? d = none
    rw [hdocuments]
    rfl
  · intro term
    show Snapshot.positionsOf? t.postings term d = none
    rw [hpostings]
    rfl
  · intro user
    show t.access.Sees user d ↔ _
    rw [haccess]
    refine iff_of_false (AccessLists.not_sees_empty user d) ?_
    rintro ⟨_, hnone, _⟩
    cases hnone
  · show t.metadata.recordOf d = t.metadata.schema.zeroRecord
    rw [hschema]
    exact (h.same.metadata d).trans (Table.recordOf_empty config.schema d)
  · intro e hnone
    cases hnone
  · show t.numbering.ids.get? d = none
    rw [hids]
    rfl

theorem Blank.no_records (h : Blank config start) : start.records = [] ∧ start.horizon = none :=
  Statistics.History.restore_eq_empty h.same.history

/-- What opening starts from, over files that say nothing. -/
theorem Inert.exists_start (h : Inert config files) :
    ∃ start, Starts config (files.get? checkpointFile) start ∧
      (Snapshot.empty config.schema config.accessControl).Twin start.snapshot ∧
      start.snapshot.Sound ∧ start.snapshot.numbering.parked = [] ∧
      start.records = [] ∧ start.horizon = none := by
  cases hfile : files.get? checkpointFile with
  | none =>
      exact ⟨⟨.empty config.schema config.accessControl, [], none⟩, rfl, .refl _,
        Snapshot.sound_empty _ _, rfl, rfl, rfl⟩
  | some bytes =>
      obtain ⟨start, hread, hblank⟩ := h.checkpoint bytes hfile
      obtain ⟨htwin, hsound, hparked⟩ := hblank.twin hread
      exact ⟨start, hread, htwin, hsound, hparked, hblank.no_records.1, hblank.no_records.2⟩

/-! ## Over inert files -/

/-- Over files that say nothing, a storage is set up that its files account for. -/
theorem steady_create_over (hwords : config.InRange) (hinert : Inert config v₀.files)
    (hrun : (create config).run v₀ = (.ok s, v)) :
    Steady config 0 s v := by
  obtain ⟨rfl, hremains⟩ := remains_of_create hrun
  obtain ⟨start, hstart, htwin, hsound, hparked, hrecords, hhorizon⟩ := hinert.exists_start
  let commits := (CommitRecord.scan (leftJournal v₀.files)).1
  let size := (CommitRecord.scan (leftJournal v₀.files)).2
  have hsize : ((leftJournal v₀.files).take size).length = size := by
    rw [List.length_take]
    have := CommitRecord.size_scan_le (leftJournal v₀.files)
    omega
  have hskips : commits.foldlM replay (start.snapshot, start.records) =
      .ok (start.snapshot, start.records) := by
    refine replay_skips fun c hc => ?_
    rw [hinert.journal c hc]
    exact Nat.zero_le _
  have hhistory : (⟨start.records, start.horizon, 0⟩ : Statistics.History).InRange := by
    rw [hrecords, hhorizon]
    exact ⟨nofun, nofun⟩
  refine ⟨⟨Statistics.History.kept_empty _, ⟨nofun, nofun⟩, commits,
    (leftJournal v₀.files).take size, (leftJournal v₀.files).take size, ?_,
    CommitRecord.scanned_scan _, congrArg Remains.journal hremains,
    fun _ => ⟨rfl, Nat.le_of_eq hsize⟩, nofun⟩, Snapshot.sound_empty _ _,
    Numbering.Orderly.new 0⟩
  rw [hremains]
  refine ⟨hwords, rfl, rfl, fun c hc => Nat.le_of_eq (hinert.journal c hc), start,
    start.snapshot, start.records, hstart, ⟨hskips, htwin, hsound, ?_, hhistory⟩, ?_⟩
  · intro e he
    rw [hparked] at he
    cases he
  · rw [hrecords, hhorizon]
    rfl

/-- What a process comes to by commits when any calls may fail. Between its commits nothing but the
files stays as it was. -/
inductive Continues : Store → Volume → Store → Volume → Prop
  | refl (s : Store) (v : Volume) : Continues s v s v
  | committed {s₀ s s' : Store} {v₀ v v₁ v' : Volume} {oldest : Option Nat} {now : Nat}
    {staged : List StagedOperation} {res : Except Error CommitSummary} :
    Continues s₀ v₀ s v → v₁.files = v.files →
    (∀ p, prepare s.current oldest now staged = .ok (.inr p) →
      s.Fits p ∧ s.KeepsBytes v₁ p.record) →
    s.commit oldest now staged v₁ = (res, s', v') → Continues s₀ v₀ s' v'

theorem Steady.restoredAlone (h : Steady stored floor s v)
    (hbehind : (CommitRecord.scan ((v.contentOf journalFile).drop s.journal.size)).1 = []) :
    s.RestoredAlone v.files := by
  intro asked w hfiles hplan hlimit hasked
  obtain ⟨t, w', hopen, hsame, hsound⟩ := h.exists_restored hbehind hfiles hplan hlimit hasked
  refine ⟨t, w', hopen, hsame, fun d hd => ?_⟩
  rw [← hsame.maxNumber, maxNumber, Numbering.maxNumber]
  have := hsound.numbering.free_range d hd
  omega

theorem Steady.continues (h : Steady stored 0 s v) (hcontinues : Continues s v s' v') :
    Steady stored 0 s' v' := by
  induction hcontinues with
  | refl => exact h
  | committed _ hfiles hfits hrun ih =>
      exact ((ih h).of_files hfiles).commit (fun _ _ => Nat.zero_le _) hfits hrun

/-! ## What restoring tells of the files -/

/-- If the empty storage that was set up is restored, the files over which it was set up say
nothing. -/
theorem inert_of_restored (hwords : config.InRange) (hrun : (create config).run v₀ = (.ok s, v))
    (hrestored : s.RestoredAlone v.files) : Inert config v₀.files := by
  obtain ⟨rfl, hremains⟩ := remains_of_create hrun
  let content := leftJournal v₀.files
  let opening : Volume := { place := .memory, files := v.files }
  obtain ⟨t, v', hopen, hsame, hfree⟩ := hrestored config opening rfl rfl rfl (.inr rfl)
  obtain ⟨stored, start, records, hconfig, hstart, hreplays, hhistory, -⟩ :=
    open_eq_ok (v := opening) (congrArg Remains.journal hremains) hopen
  rw [run_readConfig (v := opening) hwords (congrArg Remains.config hremains)] at hconfig
  cases hconfig
  have hcheckpoint : opening.files.get? checkpointFile = v₀.files.get? checkpointFile :=
    congrArg Remains.checkpoint hremains
  -- what was scanned when the storage was set up is scanned again
  have hscan : (CommitRecord.scan (content.take (CommitRecord.scan content).2)).1 =
      (CommitRecord.scan content).1 := by
    have hagain := CommitRecord.scanned_scan content []
    rw [CommitRecord.scan_nil, List.append_nil, List.append_nil] at hagain
    rw [hagain]
  rw [hscan] at hreplays
  have hgeneration : t.current.generation = 0 := hsame.generation
  obtain ⟨hstarted, hcommits⟩ := generation_of_replays hreplays
  have hknown : ∀ c ∈ (CommitRecord.scan content).1, c.generation = 0 := by
    intro c hc
    have := hcommits c hc
    omega
  -- no commit is repeated, so the checkpoint itself is what was restored
  rw [replay_skips fun c hc => by rw [hknown c hc]; exact Nat.zero_le _] at hreplays
  obtain ⟨hcurrent, hrecords⟩ := Prod.mk.inj (Except.ok.inj hreplays)
  refine ⟨hknown, fun bytes hfile => ?_⟩
  rw [hcheckpoint, hfile] at hstart
  obtain rfl := hrecords
  obtain ⟨_, _, current, history, _⟩ := t
  cases hcurrent
  cases hhistory
  refine ⟨start, hstart, ⟨hsame.generation, hsame.timestamp, hsame.numbers, hsame.ids,
    hsame.maxNumber, hsame.documents, hsame.postings, hsame.schema, hsame.metadata, hsame.access,
    hsame.history⟩, fun d hd => ?_⟩
  -- the empty storage has handed out no number
  obtain ⟨hpos, hle⟩ := hfree d hd
  exact absurd (Nat.le_trans hpos hle) (Nat.not_succ_le_zero 0)

/-- Behind the journal with which a storage is set up there is nothing. -/
theorem nothing_behind_create (hrun : (create config).run v₀ = (.ok s, v)) :
    (CommitRecord.scan ((v.contentOf journalFile).drop s.journal.size)).1 = [] := by
  obtain ⟨rfl, hremains⟩ := remains_of_create hrun
  have hcontent : v.contentOf journalFile = (leftJournal v₀.files).take
      (CommitRecord.scan (leftJournal v₀.files)).2 :=
    SortedMap.getD_of_some (congrArg Remains.journal hremains) []
  have hsize : (v.contentOf journalFile).length ≤
      (CommitRecord.scan (leftJournal v₀.files)).2 := by
    rw [hcontent, List.length_take]
    exact Nat.min_le_left _ _
  show (CommitRecord.scan ((v.contentOf journalFile).drop
    (CommitRecord.scan (leftJournal v₀.files)).2)).1 = []
  rw [List.drop_eq_nil_of_le hsize, CommitRecord.scan_nil]

/-- Whatever a storage commits after it was set up, opening restores these commits and no others:
exactly if the files over which it was set up say nothing. -/
theorem own_commits_restored_iff (hwords : config.InRange)
    (hrun : (create config).run v₀ = (.ok s, v)) :
    (∀ s' v', Continues s v s' v' →
        (CommitRecord.scan ((v'.contentOf journalFile).drop s'.journal.size)).1 = [] →
        s'.RestoredAlone v'.files) ↔
      Inert config v₀.files := by
  constructor
  · intro hrestored
    exact inert_of_restored hwords hrun
      (hrestored s v (.refl s v) (nothing_behind_create hrun))
  · intro hinert s' v' hcontinues hbehind
    exact ((steady_create_over hwords hinert hrun).continues hcontinues).restoredAlone hbehind

/-- A volume that has only a journal, and of it no whole commit. -/
def tornVolume : Volume := Volume.memory.setContent journalFile [7]

set_option maxRecDepth 4000 in
/-- A storage that is set up over a torn journal and then committed to. -/
theorem own_commits_restored_iff_torn :
    ({} : Config).InRange ∧ ∃ s v s' v',
      (create {}).run tornVolume = (.ok s, v) ∧ Continues s v s' v' ∧
        s'.current.number? "a" = some 1 ∧ s'.RestoredAlone v'.files := by
  have hwords : ({} : Config).InRange := ⟨by decide, by decide⟩
  have hinert : Inert {} tornVolume.files := by
    have hscan : (CommitRecord.scan (leftJournal tornVolume.files)).1 = [] := by decide +kernel
    refine ⟨fun c hc => ?_, nofun⟩
    rw [hscan] at hc
    cases hc
  let staged : List StagedOperation := [.insert "a" {} false]
  let v := ((create {}).run tornVolume).2
  let r := (fresh {} {}).commit none 7 staged v
  obtain ⟨s, hs, -⟩ := Fallible.exists_of_toOption_map
    (show (((create {}).run tornVolume).1.toOption.map fun _ => ()) = some () by decide +kernel)
  have hcreate : (create {}).run tornVolume = (.ok s, v) := Prod.ext hs rfl
  have hsize : (CommitRecord.scan (leftJournal tornVolume.files)).2 = 0 := by decide +kernel
  obtain ⟨hfresh, -⟩ := remains_of_create hcreate
  rw [hsize] at hfresh
  subst hfresh
  obtain ⟨p, hprepare, hfits⟩ : ∃ p, prepare (fresh {} {}).current none 7 staged = .ok (.inr p) ∧
      (fresh {} {}).Fits p := ⟨_, rfl, by decide +kernel⟩
  have hcontinues : Continues (fresh {} {}) v r.2.1 r.2.2 := by
    have hcommit : (fresh {} {}).commit none 7 staged v = (r.1, r.2.1, r.2.2) := rfl
    refine .committed (.refl _ _) rfl ?_ hcommit
    intro q hq
    rw [hprepare] at hq
    cases hq
    exact ⟨hfits, fun _ _ => Nat.zero_le _⟩
  have hnumber : r.2.1.current.number? "a" = some 1 := by decide +kernel
  have hbehind : (CommitRecord.scan ((r.2.2.contentOf journalFile).drop
      r.2.1.journal.size)).1 = [] := by decide +kernel
  exact ⟨hwords, _, _, _, _, hcreate, hcontinues, hnumber,
    (own_commits_restored_iff hwords hcreate).mpr hinert _ _ hcontinues hbehind⟩

/-- A storage that is taken away in part and set up again, each time with a document. -/
def twoStorages : Disk Unit := do
  let first ← create {}
  let _ ← commitAll 7 [[.insert "a" {} false]] first
  modify fun v => { v with files := v.files.erase configFile }
  let second ← create {}
  let _ ← commitAll 7 [[.insert "b" {} false]] second

set_option maxRecDepth 4000 in
/-- Opening restores the document of the storage that was taken away, not that of the new one. -/
theorem old_commit_restored :
    (twoStorages.run .memory).1 = .ok () ∧
      ∃ s, ((Store.open {}).run (twoStorages.run .memory).2).1 = .ok s ∧
        s.current.number? "a" = some 1 ∧ s.current.number? "b" = none ∧
        s.current.id? 1 = some "a" := by
  let v := (twoStorages.run .memory).2
  obtain ⟨u, hdone, -⟩ := Fallible.exists_of_toOption_map
    (show ((twoStorages.run .memory).1.toOption.map fun _ => ()) = some () by decide +kernel)
  have hconfig : v.files.get? configFile =
      some (Wire.textBytes (Json.renderPretty ({} : Config).toJson)) := by decide +kernel
  have hread := run_readConfig ⟨by decide, by decide⟩ hconfig
  refine ⟨hdone, ?_⟩
  unfold Store.open
  rw [run_bind_of_ok hread]
  exact Fallible.exists_ok_iff.mpr (by decide +kernel)

end Store

end Concordance
