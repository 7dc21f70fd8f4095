import Concordance.Proofs.Statistics.Resumption
import Concordance.Proofs.Store.Conservation
import Concordance.Proofs.Store.Leftovers

/-!
# The time of a storage

Every state of a storage has a moment: its generation and its timestamp. Along a life both go up
together, through commits that succeed or fail, checkpoints that are written in full or in part, and
any number of sessions. So whatever the files of a storage hold, its checkpoint and the commits of
its journal stand on one line of moments (`Timeline`), and what is opened stands on it again.

In the end this says of every state that its history has no record from after it (`Life.dated`).
This holds whether or not the snapshots are sound.
-/

namespace Concordance

open Disk
open Statistics (Record TimeStamp)
open Statistics.History (isAfter isAfter_eq_true_iff isAfter_eq_false_iff)

/-! ## Moments -/

/-- A generation and its timestamp. -/
structure Moment where
  generation : Nat
  timestamp : TimeStamp

namespace Moment

/-- Both the generation and the timestamp go up. -/
def Before (a b : Moment) : Prop :=
  a.generation < b.generation ∧ compare a.timestamp b.timestamp = .lt

def UpTo (a b : Moment) : Prop := a = b ∨ a.Before b

variable {a b c : Moment}

theorem UpTo.trans_before (h : a.UpTo b) (h' : b.Before c) : a.Before c := by
  rcases h with rfl | h
  · exact h'
  · exact ⟨Nat.lt_trans h.1 h'.1, Std.TransCmp.lt_trans h.2 h'.2⟩

theorem UpTo.trans (h : a.UpTo b) (h' : b.UpTo c) : a.UpTo c := by
  rcases h' with rfl | h'
  · exact h
  · exact .inr (h.trans_before h')

theorem UpTo.timestamp (h : a.UpTo b) : compare a.timestamp b.timestamp ≠ .gt := by
  rcases h with rfl | h
  · rw [Std.ReflOrd.compare_self]
    nofun
  · rw [h.2]
    nofun

end Moment

/-- Moments one of which comes before the other. -/
def Ordered (M : Moment → Prop) : Prop :=
  ∀ a b, M a → M b → a = b ∨ a.Before b ∨ b.Before a

/-- Moments on one line up to the last of them. -/
structure Timeline (M : Moment → Prop) (last : Moment) : Prop where
  mem : M last
  upTo : ∀ a, M a → a.UpTo last
  ordered : Ordered M

variable {M : Moment → Prop} {last next : Moment}

/-- The line goes on behind its end. -/
theorem Timeline.extend (h : Timeline M last) (hnext : last.Before next) :
    Timeline (fun a => M a ∨ a = next) next where
  mem := .inr rfl
  upTo a ha := by
    rcases ha with ha | rfl
    · exact .inr ((h.upTo a ha).trans_before hnext)
    · exact .inl rfl
  ordered a b ha hb := by
    rcases ha with ha | rfl
    · rcases hb with hb | rfl
      · exact h.ordered a b ha hb
      · exact .inr (.inl ((h.upTo a ha).trans_before hnext))
    · rcases hb with hb | rfl
      · exact .inr (.inr ((h.upTo b hb).trans_before hnext))
      · exact .inl rfl

def Snapshot.moment (s : Snapshot) : Moment := ⟨s.generation, s.timestamp⟩

def CommitRecord.moment (c : CommitRecord) : Moment := ⟨c.generation, c.timestamp⟩

/-- The statistics of a commit are from the time of the commit. -/
def CommitRecord.Stamped (c : CommitRecord) : Prop := c.statistics.timestamp = c.timestamp

namespace Store

open Snapshot

variable {s s' : Store} {v v₁ v' : Volume} {j : Journal} {p : Prepared} {oldest : Option Nat}
  {now : Nat} {staged : List StagedOperation} {asked stored : Config} {t t' : Snapshot}
  {records records' : List Record} {commits : List CommitRecord} {M : Moment → Prop}

/-- The state that a commit leads to comes after the one before. -/
theorem moment_of_prepare {base : Snapshot}
    (hprepare : prepare base oldest now staged = .ok (.inr p)) :
    base.moment.Before p.next.moment ∧ p.record.moment = p.next.moment ∧ p.record.Stamped := by
  have hlater := (reports_of_prepare hprepare).later
  unfold prepare execute at hprepare
  obtain ⟨e, hexec, hrest⟩ := Fallible.bind_eq_ok.mp hprepare
  obtain ⟨touched, -, hframe⟩ := frame_execution hexec
  split at hrest
  · cases hrest
  · cases hrest
    refine ⟨⟨?_, hlater⟩, rfl, rfl⟩
    show base.generation < e.snapshot.generation
    rw [hframe.generation]
    exact Nat.lt_succ_self _

/-! ## Repeating commits -/

/-- Nothing that a checkpoint has of the history is from after it. -/
def Current (records : List Record) (t : Snapshot) : Prop :=
  ∀ r ∈ records, isAfter (some t.timestamp) r.timestamp = false

/-- Commits on a line with the state that they are repeated on lead on along the line. -/
theorem moment_of_replays (hordered : Ordered M) (ht : M t.moment) (hrecords : Current records t)
    (hcommits : ∀ c ∈ commits, M c.moment ∧ c.Stamped)
    (hreplays : commits.foldlM replay (t, records) = .ok (t', records')) :
    M t'.moment ∧ t.moment.UpTo t'.moment ∧ Current records' t' ∧
      ∀ c ∈ commits, c.moment.UpTo t'.moment := by
  induction commits generalizing t records with
  | nil =>
      cases hreplays
      exact ⟨ht, .inl rfl, hrecords, nofun⟩
  | cons c rest ih =>
      rw [List.foldlM_cons] at hreplays
      obtain ⟨⟨t₁, records₁⟩, hfirst, hrest⟩ := Fallible.bind_eq_ok.mp hreplays
      obtain ⟨⟨hc, hstamped⟩, hmore⟩ := List.forall_mem_cons.mp hcommits
      have hstep : M t₁.moment ∧ t.moment.UpTo t₁.moment ∧ c.moment.UpTo t₁.moment ∧
          Current records₁ t₁ := by
        have hcases := hordered t.moment c.moment ht hc
        rcases replay_cases hfirst with ⟨hknown, rfl, rfl⟩ |
          ⟨hlater, hgeneration, htimestamp, rfl⟩
        · refine ⟨ht, .inl rfl, ?_, hrecords⟩
          rcases hcases with heq | hbefore | hbefore
          · exact .inl heq.symm
          · exact absurd hbefore.1 (Nat.not_lt.mpr hknown)
          · exact .inr hbefore
        · have hmoment : t₁.moment = c.moment := by
            rw [Snapshot.moment, hgeneration, htimestamp]
            rfl
          have hbefore : t.moment.Before c.moment := by
            rcases hcases with heq | hbefore | hbefore
            · exact absurd (congrArg Moment.generation heq) (Nat.ne_of_lt hlater)
            · exact hbefore
            · exact absurd hbefore.1 (Nat.lt_asymm hlater)
          rw [hmoment]
          refine ⟨hc, .inr hbefore, .inl rfl, fun r hr => ?_⟩
          rw [htimestamp]
          rcases List.mem_append.mp hr with hr | hr
          · have hle := Ordering.isLE_iff_ne_gt.mpr (isAfter_eq_false_iff.mp (hrecords r hr))
            have hlt := Std.TransCmp.lt_of_isLE_of_lt hle hbefore.2
            exact isAfter_eq_false_iff.mpr (by rw [show compare _ c.timestamp = _ from hlt]; nofun)
          · rw [List.mem_singleton.mp hr, hstamped]
            exact Statistics.Replica.isBefore_self _
      obtain ⟨ht₁, hupTo, hcUpTo, hrecords₁⟩ := hstep
      obtain ⟨ht', hupTo', hrecords', hall⟩ := ih ht₁ hrecords₁ hmore hrest
      refine ⟨ht', hupTo.trans hupTo', hrecords', fun x hx => ?_⟩
      rcases List.mem_cons.mp hx with rfl | hx
      · exact hcUpTo.trans hupTo'
      · exact hall x hx

/-! ## What the files tell -/

/-- What opening starts from is on the line, with records from before it. -/
def Backs (M : Moment → Prop) (checkpoint : Option (List UInt8)) : Prop :=
  ∃ first, M first ∧ ∀ stored start, Starts stored checkpoint start →
    start.snapshot.moment = first ∧
      (⟨start.records, start.horizon, 0⟩ : Statistics.History).Dated start.snapshot.timestamp

/-- Behind the frames of a journal there is no commit, or one that failed. -/
def FailedBehind (last : Moment) (behind : List UInt8) : Prop :=
  (CommitRecord.scan behind).1 = [] ∨
    ∃ c, (CommitRecord.scan behind).1 = [c] ∧ last.Before c.moment ∧ c.Stamped

/-- A store whose history and files tell nothing from after its state. -/
structure Chronicle (s : Store) (v : Volume) : Prop where
  dated : s.history.Dated s.current.timestamp
  account : ∃ M commits frames behind, Timeline M s.current.moment ∧
    Backs M (v.files.get? checkpointFile) ∧ (∀ c ∈ commits, M c.moment ∧ c.Stamped) ∧
    CommitRecord.Scanned commits frames ∧ v.files.get? journalFile = some (frames ++ behind) ∧
    Journal.Intact frames s.journal (frames ++ behind) ∧ FailedBehind s.current.moment behind

theorem backs_none (h : M ⟨0, ⟨0, 0⟩⟩) : Backs M none := by
  refine ⟨_, h, ?_⟩
  rintro stored start rfl
  exact ⟨rfl, nofun, nofun⟩

theorem backs_encode {t : Snapshot} {h : Statistics.History} (ht : M t.moment)
    (hdated : h.Dated t.timestamp) (hwords : (Checkpoint.catalogOf t h).InRange)
    (hlength : (Checkpoint.encode t h).length < Wire.word64) :
    Backs M (some (Checkpoint.encode t h)) := by
  refine ⟨_, ht, fun stored start hdecode => ?_⟩
  obtain ⟨hgeneration, htimestamp, hrecords, hhorizon⟩ :=
    Checkpoint.head_of_decode hwords hlength hdecode
  rw [Snapshot.moment, hgeneration, htimestamp, hrecords, hhorizon]
  exact ⟨rfl, hdated.records, hdated.horizon⟩

theorem Backs.mono {M' : Moment → Prop} {checkpoint : Option (List UInt8)} (h : Backs M checkpoint)
    (hle : ∀ a, M a → M' a) : Backs M' checkpoint := by
  obtain ⟨first, hfirst, hstarts⟩ := h
  exact ⟨first, hle first hfirst, hstarts⟩

theorem Chronicle.of_files (h : Chronicle s v) (hfiles : v₁.files = v.files) : Chronicle s v₁ := by
  refine ⟨h.dated, ?_⟩
  rw [hfiles]
  exact h.account

/-- A storage that is set up where there was none. -/
theorem chronicle_create {config : Config} {v₀ : Volume}
    (hcheckpoint : v₀.files.get? checkpointFile = none)
    (hjournal : v₀.files.get? journalFile = none)
    (hrun : (create config).run v₀ = (.ok s, v)) : Chronicle s v := by
  obtain ⟨rfl, hremains⟩ := remains_of_create hrun
  have hleft : leftJournal v₀.files = [] := SortedMap.getD_of_none hjournal []
  rw [hleft, CommitRecord.scan_nil, hcheckpoint] at hremains
  rw [hleft, CommitRecord.scan_nil]
  refine ⟨Statistics.History.dated_empty _ _, (· = ⟨0, ⟨0, 0⟩⟩), [], [], [], ?_, ?_, nofun,
    CommitRecord.scanned_nil, congrArg Remains.journal hremains, Journal.intact_empty, .inl ?_⟩
  · exact ⟨rfl, fun _ ha => .inl ha, fun _ _ ha hb => .inl (ha.trans hb.symm)⟩
  · rw [show v.files.get? checkpointFile = none from congrArg Remains.checkpoint hremains]
    exact backs_none rfl
  · rw [CommitRecord.scan_nil]

/-- The numbers of a commit, and those of the checkpoint that may follow it, are words. -/
structure FitsFiles (s : Store) (p : Prepared) : Prop where
  record : p.record.InRange
  catalog : (Checkpoint.catalogOf p.next (s.history.push p.record.statistics)).InRange
  checkpoint : (Checkpoint.encode p.next (s.history.push p.record.statistics)).length < Wire.word64

/-- If the snapshot is sound, it is enough that its own numbers are words. -/
theorem Fits.files {floor : Nat} (h : s.Fits p) (hready : Ready floor p.next)
    (hhistory : s.history.InRange) : s.FitsFiles p :=
  ⟨h.record, Checkpoint.inRange_catalogOf hready h.snapshot (hhistory.push h.record.statistics),
    h.checkpoint⟩

theorem Chronicle.append (h : Chronicle s v)
    (hprepare : prepare s.current oldest now staged = .ok (.inr p)) (hr : p.record.InRange)
    (happend : s.journal.append p.record v = (.ok (), j, v')) :
    Chronicle (({ s with journal := j } : Store).publish p) v' ∧ j.needsRollback = false := by
  obtain ⟨M, commits, frames, behind, hline, hbacks, hcommits, hscanned, hfile, hintact, -⟩ :=
    h.account
  obtain ⟨hbefore, hmoment, hstamped⟩ := moment_of_prepare hprepare
  cases hframe : p.record.frame? with
  | none =>
      rw [Journal.append_of_frame?_eq_none hframe] at happend
      cases happend
  | some frame =>
      obtain ⟨content, hfiles, hclean, hintact'⟩ :=
        Journal.append_leaves hintact hfile hframe happend fun hfailed => absurd rfl hfailed
      obtain ⟨rfl, -⟩ := hintact'.clean hclean
      have htimestamp : p.record.statistics.timestamp = p.next.timestamp :=
        hstamped.trans (congrArg Moment.timestamp hmoment)
      refine ⟨⟨?_, fun a => M a ∨ a = p.next.moment, commits ++ [p.record], frames ++ frame, [],
        hline.extend hbefore, ?_, ?_, hscanned.append hr hframe, ?_, ?_, .inl ?_⟩, hclean⟩
      · refine (h.dated.mono ?_).push ?_
        · exact Moment.UpTo.timestamp (.inr hbefore)
        · rw [htimestamp]
          exact Statistics.Replica.isBefore_self _
      · rw [hfiles, SortedMap.get?_insert, if_neg (by decide)]
        exact hbacks.mono fun _ ha => .inl ha
      · intro c hc
        rcases List.mem_append.mp hc with hc | hc
        · exact ⟨.inl (hcommits c hc).1, (hcommits c hc).2⟩
        · rw [List.mem_singleton.mp hc]
          exact ⟨.inr hmoment, hstamped⟩
      · rw [hfiles, SortedMap.get?_insert, if_pos rfl, List.append_nil]
      · rw [List.append_nil]
        exact hintact'
      · rw [CommitRecord.scan_nil]

/-- A first part of the frame of a commit is no commit, or it is the whole. -/
theorem failedBehind_take {c : CommitRecord} {frame : List UInt8} {last : Moment} (hr : c.InRange)
    (hframe : c.frame? = some frame) (hlast : last.Before c.moment) (hstamped : c.Stamped)
    (kept : Nat) : FailedBehind last (frame.take kept) := by
  by_cases hkept : kept < frame.length
  · rw [FailedBehind, CommitRecord.Torn.scan_eq ⟨c, frame, kept, hframe, hkept, rfl⟩]
    exact .inl rfl
  · have hscan := CommitRecord.scanned_nil.append hr hframe []
    rw [List.nil_append, List.append_nil, CommitRecord.scan_nil, List.append_nil] at hscan
    rw [FailedBehind, List.take_of_length_le (Nat.le_of_not_lt hkept), hscan]
    exact .inr ⟨c, rfl, hlast, hstamped⟩

theorem Chronicle.append_failed (h : Chronicle s v) {e : Error}
    (hprepare : prepare s.current oldest now staged = .ok (.inr p)) (hr : p.record.InRange)
    (hkeeps : s.KeepsBytes v p.record)
    (happend : s.journal.append p.record v = (.error e, j, v')) :
    Chronicle { s with journal := j } v' := by
  obtain ⟨M, commits, frames, behind, hline, hbacks, hcommits, hscanned, hfile, hintact, hbehind⟩ :=
    h.account
  obtain ⟨hbefore, hmoment, hstamped⟩ := moment_of_prepare hprepare
  cases hframe : p.record.frame? with
  | none =>
      rw [Journal.append_of_frame?_eq_none hframe] at happend
      cases happend
      exact h
  | some frame =>
      have hcontent : v.contentOf journalFile = frames ++ behind := SortedMap.getD_of_some hfile []
      have hlong : s.journal.size ≤ (frames ++ behind).length := by
        rw [← hcontent]
        refine hkeeps (by rw [hframe]; nofun) ?_
        rw [happend]
        nofun
      obtain ⟨content, hfiles, hintact', hleft⟩ :=
        Journal.append_leaves hintact hfile hframe happend fun _ => hlong
      obtain ⟨behind', rfl, hbehind'⟩ : ∃ behind', content = frames ++ behind' ∧
          FailedBehind s.current.moment behind' := by
        rcases hleft with rfl | ⟨kept, rfl⟩
        · exact ⟨behind, rfl, hbehind⟩
        · exact ⟨_, rfl, failedBehind_take hr hframe (hmoment ▸ hbefore) hstamped kept⟩
      refine ⟨h.dated, M, commits, frames, behind', hline, ?_, hcommits, hscanned, ?_, hintact',
        hbehind'⟩
      · rw [hfiles, SortedMap.get?_insert, if_neg (by decide)]
        exact hbacks
      · rw [hfiles, SortedMap.get?_insert, if_pos rfl]

theorem Chronicle.settle (h : Chronicle s v) (hclean : s.journal.needsRollback = false)
    (hwords : (Checkpoint.catalogOf s.current s.history).InRange)
    (hlength : (Checkpoint.encode s.current s.history).length < Wire.word64)
    {res : Except Error Unit} (hrun : s.settle v = (res, s', v')) : Chronicle s' v' := by
  obtain ⟨M, commits, frames, behind, hline, hbacks, hcommits, hscanned, hfile, hintact, hbehind⟩ :=
    h.account
  have hwritten := backs_encode hline.mem h.dated hwords hlength
  obtain ⟨j, rfl, hsettling⟩ := settle_leaves hrun
  rcases hremains : Remains.of v'.files with ⟨configuration, checkpoint, journal⟩
  have hcheckpoint : v'.files.get? checkpointFile = checkpoint :=
    congrArg Remains.checkpoint hremains
  have hjournal : v'.files.get? journalFile = journal := congrArg Remains.journal hremains
  rw [hremains] at hsettling
  cases hsettling with
  | before =>
      refine ⟨h.dated, M, commits, frames, behind, hline, ?_, hcommits, hscanned,
        hjournal.trans hfile, hintact, hbehind⟩
      rw [hcheckpoint]
      exact hbacks
  | installed =>
      refine ⟨h.dated, M, commits, frames, behind, hline, ?_, hcommits, hscanned,
        hjournal.trans hfile, hintact, hbehind⟩
      rw [hcheckpoint]
      exact hwritten
  | emptied hj =>
      have hclean' : j.needsRollback = false := by
        rcases hj with rfl | rfl
        · exact hclean
        · rfl
      refine ⟨h.dated, M, [], [], [], hline, ?_, nofun, CommitRecord.scanned_nil, hjournal,
        ⟨fun _ => ⟨rfl, Nat.zero_le _⟩, fun hspoilt => ?_⟩, .inl ?_⟩
      · rw [hcheckpoint]
        exact hwritten
      · rw [show j.needsRollback = true from hspoilt] at hclean'
        cases hclean'
      · rw [CommitRecord.scan_nil]

theorem Chronicle.commit (h : Chronicle s v)
    (hfits : ∀ p, prepare s.current oldest now staged = .ok (.inr p) →
      s.FitsFiles p ∧ s.KeepsBytes v p.record)
    {res : Except Error CommitSummary} (hrun : s.commit oldest now staged v = (res, s', v')) :
    Chronicle s' v' := by
  rcases commit_cases hrun with ⟨rfl, rfl⟩ | ⟨p, hprepare, ⟨e, j, happend, -, rfl⟩ |
    ⟨j, w, r, happend, hsettle, -⟩⟩
  · exact h
  · obtain ⟨hfit, hkeeps⟩ := hfits p hprepare
    exact h.append_failed hprepare hfit.record hkeeps happend
  · obtain ⟨hfit, -⟩ := hfits p hprepare
    obtain ⟨hchronicle, hclean⟩ := h.append hprepare hfit.record happend
    exact hchronicle.settle hclean hfit.catalog hfit.checkpoint hsettle

/-- What is opened is on the line: the checkpoint, or the last commit that was repeated on it, which
may be the one that failed. -/
theorem Chronicle.reopen (h : Chronicle s v) (hrun : (Store.open asked).run v = (.ok s', v')) :
    Chronicle s' v' := by
  obtain ⟨M, commits, frames, behind, hline, hbacks, hcommits, hscanned, hfile, -, hbehind⟩ :=
    h.account
  obtain ⟨stored, start, records, -, hstart, hreplays, hhistory, hjournal, hfiles⟩ :=
    open_eq_ok hfile hrun
  obtain ⟨first, hmem, hstarts⟩ := hbacks
  obtain ⟨rfl, hdated⟩ := hstarts stored start hstart
  let found := (CommitRecord.scan (frames ++ behind)).1
  have hfound : found = commits ++ (CommitRecord.scan behind).1 :=
    congrArg Prod.fst (hscanned behind)
  -- a commit that failed goes on behind the end of the line
  obtain ⟨M', hordered, hle, hall⟩ : ∃ M', Ordered M' ∧ (∀ a, M a → M' a) ∧
      ∀ c ∈ found, M' c.moment ∧ c.Stamped := by
    rcases hbehind with hnone | ⟨failed, hfailed, hafter, hstamped⟩
    · refine ⟨M, hline.ordered, fun _ ha => ha, ?_⟩
      rw [hfound, hnone, List.append_nil]
      exact hcommits
    · refine ⟨_, (hline.extend hafter).ordered, fun _ ha => .inl ha, fun c hc => ?_⟩
      rw [hfound, hfailed] at hc
      rcases List.mem_append.mp hc with hc | hc
      · exact ⟨.inl (hcommits c hc).1, (hcommits c hc).2⟩
      · rw [List.mem_singleton.mp hc]
        exact ⟨.inr rfl, hstamped⟩
  obtain ⟨hmem', hupTo, hcurrent, hknown⟩ :=
    moment_of_replays hordered (hle _ hmem) hdated.records hall hreplays
  refine ⟨?_, fun a => M' a ∧ a.UpTo s'.current.moment, found,
    (frames ++ behind).take (CommitRecord.scan (frames ++ behind)).2, [], ?_, ?_, ?_,
    CommitRecord.scanned_scan _, ?_, ?_, .inl ?_⟩
  · rw [hhistory]
    have hhorizon := (hdated.mono hupTo.timestamp).horizon
    exact Statistics.History.restore_keeps (P := fun g => g.Dated s'.current.timestamp)
      ⟨nofun, hhorizon⟩ fun g r hr hg => hg.push (hcurrent r hr)
  · exact ⟨⟨hmem', .inl rfl⟩, fun _ ha => ha.2, fun a b ha hb => hordered a b ha.1 hb.1⟩
  · rw [hfiles, SortedMap.get?_insert, if_neg (by decide)]
    exact ⟨_, ⟨hle _ hmem, hupTo⟩, hstarts⟩
  · exact fun c hc => ⟨⟨(hall c hc).1, hknown c hc⟩, (hall c hc).2⟩
  · rw [hfiles, SortedMap.get?_insert, if_pos rfl, List.append_nil]
  · rw [List.append_nil, hjournal]
    refine ⟨fun _ => ⟨rfl, ?_⟩, nofun⟩
    rw [List.length_take]
    exact Nat.min_le_left _ _
  · rw [CommitRecord.scan_nil]

/-! ## Lives -/

/-- The life of a storage: set up where there was none, committed to while any calls may fail, and
opened again, also after a process that stopped. Between two steps the files stay as they are. -/
inductive Life : Store → Volume → Prop
  | created {config : Config} {s : Store} {v₀ v : Volume} :
    v₀.files.get? checkpointFile = none → v₀.files.get? journalFile = none →
    (create config).run v₀ = (.ok s, v) → Life s v
  | committed {s s' : Store} {v v₁ v' : Volume} {oldest : Option Nat} {now : Nat}
    {staged : List StagedOperation} {res : Except Error CommitSummary} :
    Life s v → v₁.files = v.files →
    (∀ p, prepare s.current oldest now staged = .ok (.inr p) →
      s.FitsFiles p ∧ s.KeepsBytes v₁ p.record) →
    s.commit oldest now staged v₁ = (res, s', v') → Life s' v'
  | reopened {s s' : Store} {v v₁ v' : Volume} {asked : Config} :
    Life s v → v₁.files = v.files → (Store.open asked).run v₁ = (.ok s', v') → Life s' v'

theorem Life.chronicle (h : Life s v) : Chronicle s v := by
  induction h with
  | created hcheckpoint hjournal hrun => exact chronicle_create hcheckpoint hjournal hrun
  | committed _ hfiles hfits hrun ih => exact (ih.of_files hfiles).commit hfits hrun
  | reopened _ hfiles hrun ih => exact (ih.of_files hfiles).reopen hrun

/-- No record of the history is from after the state. -/
theorem Life.dated (h : Life s v) : s.history.Dated s.current.timestamp :=
  h.chronicle.dated

end Store

end Concordance
