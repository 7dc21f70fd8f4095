import Concordance.Proofs.Catalog.Frame
import Concordance.Proofs.Statistics.Replica
import Concordance.Proofs.Store.Published

/-!
# Frequencies are conserved

The record of a commit says by how much the commit changed every document frequency, since it goes
through all terms that an operation touched (`Store.reports_of_prepare`). So the records of a
storage add up to its snapshot as long as none has been dropped (`Store.Accounting`), and a replica
that is sent all of them ends with the document frequencies of the storage.
-/

namespace Concordance

open Statistics (Record Change total total_of_not_mem total_of_ascend)

/-! ## The record of a commit -/

namespace Store

open Snapshot

variable {floor now : Nat} {base next : Snapshot} {oldest : Option Nat}
  {staged : List StagedOperation} {t : Term}

/-- A staged change has the frame of its operation; a number that it hands out is no part of it. -/
theorem frame_executeOne {e e' : Execution} {staged : StagedOperation}
    (hexec : executeOne e staged = .ok e') :
    ∃ touched, e'.touched = e.touched ++ touched ∧ Frame touched e.snapshot e'.snapshot := by
  obtain ⟨⟨summary, s, op⟩, hresolve, hrest⟩ := Fallible.bind_eq_ok.mp hexec
  obtain ⟨⟨touched, s'⟩, happly, heq⟩ := Fallible.bind_eq_ok.mp hrest
  cases heq
  have hframe := frame_apply (Fallible.mapError_eq_ok.mp happly)
  obtain ⟨numbering, rfl⟩ : ∃ numbering, s = { e.snapshot with numbering } := by
    unfold resolve at hresolve
    split at hresolve
    · split at hresolve
      · split at hresolve <;> cases hresolve
        exact ⟨_, rfl⟩
      · cases hresolve
        exact ⟨_, rfl⟩
    all_goals
      cases hresolve
      exact ⟨_, rfl⟩
  exact ⟨touched, rfl, hframe.generation, hframe.timestamp, hframe.postings⟩

theorem frame_execution {e e' : Execution} (hexec : staged.foldlM executeOne e = .ok e') :
    ∃ touched, e'.touched = e.touched ++ touched ∧ Frame touched e.snapshot e'.snapshot := by
  induction staged generalizing e with
  | nil =>
      cases hexec
      exact ⟨[], (List.append_nil _).symm, .refl _ _⟩
  | cons first rest ih =>
      rw [List.foldlM_cons] at hexec
      obtain ⟨e₁, hfirst, hrest⟩ := Fallible.bind_eq_ok.mp hexec
      obtain ⟨touched₁, htouched₁, hframe₁⟩ := frame_executeOne hfirst
      obtain ⟨touched₂, htouched₂, hframe₂⟩ := ih hrest
      refine ⟨touched₁ ++ touched₂, ?_, hframe₁.trans hframe₂⟩
      rw [htouched₂, htouched₁, List.append_assoc]

/-- The changes are those of the terms whose frequency changed, in term order. -/
theorem mem_frequencyChanges {terms : List Term} {c : Change} :
    c ∈ frequencyChanges base next terms ↔ c.term ∈ terms ∧ c.increment ≠ 0 ∧
      c.increment = (next.documentFrequency c.term : Int) - base.documentFrequency c.term := by
  unfold frequencyChanges
  rw [List.mem_filterMap]
  constructor
  · rintro ⟨term, hterm, hc⟩
    dsimp only at hc
    split at hc
    · cases hc
    · next hne =>
        cases hc
        exact ⟨mem_ascending.mp hterm, hne, rfl⟩
  · rintro ⟨hterm, hne, heq⟩
    refine ⟨c.term, mem_ascending.mpr hterm, ?_⟩
    dsimp only
    rw [← heq, if_neg hne]

theorem frequencyChanges_ascend (terms : List Term) :
    (frequencyChanges base next terms).Pairwise fun a b => compare a.term b.term = .lt := by
  refine List.pairwise_filterMap.mpr ((pairwise_ascending terms).imp fun {u w} hlt => ?_)
  intro a ha b hb
  dsimp only at ha hb
  split at ha <;> cases ha
  split at hb <;> cases hb
  exact hlt

/-- What a record says of a term is the change of its frequency, if all terms whose frequency
changed were gone through. -/
theorem total_frequencyChanges {terms : List Term}
    (h : next.documentFrequency t ≠ base.documentFrequency t → t ∈ terms) :
    total t (frequencyChanges base next terms) =
      (next.documentFrequency t : Int) - base.documentFrequency t := by
  by_cases hsame : next.documentFrequency t = base.documentFrequency t
  · rw [hsame, Int.sub_self]
    refine total_of_not_mem fun c hc => ?_
    rintro rfl
    obtain ⟨-, hne, heq⟩ := mem_frequencyChanges.mp hc
    omega
  · exact total_of_ascend (frequencyChanges_ascend terms)
      (mem_frequencyChanges (c := ⟨t, _⟩).mpr ⟨h hsame, by dsimp only; omega, rfl⟩)

/-- What the record of a prepared commit says. -/
structure Reports (base : Snapshot) (p : Prepared) : Prop where
  timestamp : p.record.statistics.timestamp = p.next.timestamp
  later : compare base.timestamp p.next.timestamp = .lt
  documents : p.record.statistics.documents = (p.next.size : Int) - base.size
  frequencies : ∀ t, total t p.record.statistics.changes =
    (p.next.documentFrequency t : Int) - base.documentFrequency t
  ascend : p.record.statistics.changes.Pairwise fun a b => compare a.term b.term = .lt

/-- A commit goes through all terms whose frequency it changes, from whatever snapshot it starts. -/
theorem reports_of_prepare {p : Prepared}
    (hprepare : prepare base oldest now staged = .ok (.inr p)) : Reports base p := by
  unfold prepare execute at hprepare
  obtain ⟨e, hexec, hrest⟩ := Fallible.bind_eq_ok.mp hprepare
  obtain ⟨touched, htouched, hframe⟩ := frame_execution hexec
  split at hrest
  · cases hrest
  · cases hrest
    refine ⟨rfl, Statistics.TimeStamp.compare_next _ _, rfl, fun t => total_frequencyChanges ?_,
      frequencyChanges_ascend _⟩
    intro hne
    by_contra ht
    rw [htouched] at ht
    exact hne (hframe.documentFrequency_eq fun hmem => ht (List.mem_append_right _ hmem))

/-! ## Records that add up -/

/-- Records that tell how a snapshot came about, each later than the one before. -/
structure AddUp (records : List Record) (s : Snapshot) : Prop where
  frequencies : ∀ t, (records.map fun r => total t r.changes).sum = s.documentFrequency t
  documents : (records.map (·.documents)).sum = s.size
  later : Statistics.Replica.Later records
  latest : ∀ r ∈ records, compare r.timestamp s.timestamp ≠ .gt
  ascend : ∀ r ∈ records, r.changes.Pairwise fun a b => compare a.term b.term = .lt

theorem addUp_empty (schema : Schema) (accessControl : Bool) :
    AddUp [] (.empty schema accessControl) :=
  ⟨fun _ => rfl, rfl, List.Pairwise.nil, nofun, nofun⟩

/-- One more commit adds its record. -/
theorem AddUp.push {records : List Record} {p : Prepared} (h : AddUp records base)
    (hp : Reports base p) : AddUp (records ++ [p.record.statistics]) p.next where
  frequencies t := by
    have hchange := hp.frequencies t
    have hbefore := h.frequencies t
    rw [List.map_append, List.sum_append, hbefore, List.map_singleton, List.sum_singleton, hchange]
    omega
  documents := by
    have hchange := hp.documents
    rw [List.map_append, List.sum_append, h.documents, List.map_singleton, List.sum_singleton,
      hchange]
    omega
  later := by
    refine List.pairwise_append.mpr ⟨h.later, List.pairwise_singleton _ _, fun a ha b hb => ?_⟩
    rw [List.mem_singleton.mp hb, hp.timestamp]
    exact Std.TransCmp.lt_of_isLE_of_lt (Ordering.isLE_iff_ne_gt.mpr (h.latest a ha)) hp.later
  latest := by
    intro r hr
    rcases List.mem_append.mp hr with hr | hr
    · have hlt := Std.TransCmp.lt_of_isLE_of_lt
        (Ordering.isLE_iff_ne_gt.mpr (h.latest r hr)) hp.later
      rw [hlt]
      nofun
    · rw [List.mem_singleton.mp hr, hp.timestamp, Std.ReflOrd.compare_self]
      nofun
  ascend := by
    intro r hr
    rcases List.mem_append.mp hr with hr | hr
    · exact h.ascend r hr
    · rw [List.mem_singleton.mp hr]
      exact hp.ascend

/-- A store whose history tells how its snapshot came about, unless there were more commits than it
may keep records of. -/
structure Accounting (limit : Nat) (s : Store) : Prop where
  ready : Ready 0 s.current
  kept : s.history.limit = limit
  complete : s.current.generation ≤ limit → s.history.horizon = none ∧
    s.history.records.length = s.current.generation ∧ AddUp s.history.records s.current

theorem accounting_fresh (config : Config) (journal : Journal) :
    Accounting (max config.historyLimit 1) (fresh config journal) where
  ready := ⟨sound_empty _ _, .new 0⟩
  kept := rfl
  complete _ := ⟨rfl, rfl, addUp_empty _ _⟩

variable {limit : Nat} {s s' : Store} {v v' : Volume} {res : Except Error CommitSummary}

theorem Accounting.commit (h : Accounting limit s)
    (hrun : s.commit oldest now staged v = (res, s', v')) : Accounting limit s' := by
  have hold : ∀ g, oldest = some g → 0 ≤ g := fun g _ => Nat.zero_le g
  rcases state_after hrun with ⟨hcurrent, hhistory⟩ | ⟨p, hprepare, hcurrent, hhistory⟩
  · refine ⟨?_, ?_, ?_⟩
    · rw [hcurrent]
      exact h.ready
    · rw [hhistory]
      exact h.kept
    · rw [hcurrent, hhistory]
      exact h.complete
  · obtain ⟨hready, hgeneration, -⟩ := head_of_prepare h.ready hold hprepare
    have hreports := reports_of_prepare hprepare
    refine ⟨?_, ?_, fun hfits => ?_⟩
    · rw [hcurrent]
      exact hready
    · rw [hhistory]
      exact h.kept
    · rw [hcurrent, hgeneration] at hfits
      obtain ⟨hhorizon, hlength, haddUp⟩ := h.complete (by omega)
      -- there is room for one more record
      have hroom : (s.history.records ++ [p.record.statistics]).length ≤ s.history.limit := by
        rw [List.length_append, hlength, h.kept]
        exact hfits
      have hpush : s.history.push p.record.statistics =
          { s.history with records := s.history.records ++ [p.record.statistics] } := by
        unfold Statistics.History.push
        rw [Statistics.History.trim_eq_self hroom]
      rw [hcurrent, hhistory, hpush]
      refine ⟨hhorizon, ?_, haddUp.push hreports⟩
      rw [List.length_append, hlength, hgeneration]
      rfl

end Store

/-! ## Runs of a process -/

namespace Client

variable {c : Client}

/-- A step of a process leaves the store as it is, or commits to it. -/
theorem store_of_step (c : Client) (event : Event) :
    (c.step event).store = c.store ∨ ∃ oldest now staged v r v',
      c.store.commit oldest now staged v = (r, (c.step event).store, v') := by
  cases event with
  | begin name id =>
      unfold Client.step
      dsimp only
      split <;> exact .inl rfl
  | stage name call =>
      unfold Client.step
      dsimp only
      split
      · exact .inl rfl
      · split <;> exact .inl rfl
  | commit name now =>
      unfold Client.step
      dsimp only
      split
      · exact .inl rfl
      · next t hget =>
          by_cases ht : t.state = .active
          · rcases hrun : c.store.commit c.oldestReader now t.staged c.volume with ⟨r, s', v'⟩
            rw [c.commit_of_active now ht hrun]
            exact .inr ⟨_, _, _, _, _, _, hrun⟩
          · rw [c.commit_of_ended now ht]
            exact .inl rfl
  | lease name => exact .inl rfl
  | release name => exact .inl rfl

/-- What commits keep of a store, a process keeps. -/
theorem store_of_run {P : Store → Prop}
    (hcommit : ∀ {s s' : Store} {oldest now staged v r v'}, P s →
      s.commit oldest now staged v = (r, s', v') → P s')
    (h : P c.store) (events : List Event) : P (c.run events).store := by
  induction events generalizing c with
  | nil => exact h
  | cons event rest ih =>
      refine ih ?_
      rcases c.store_of_step event with hsame | ⟨oldest, now, staged, v, r, v', hrun⟩
      · rw [hsame]
        exact h
      · exact hcommit h hrun

/-- A replica that has what a snapshot has. -/
structure Replicates (r : Statistics.Replica) (s : Snapshot) : Prop where
  documents : r.documents = s.size
  /-- Terms without documents have no entry. -/
  frequencies : ∀ t, r.frequencies.get? t =
    if s.documentFrequency t = 0 then none else some (s.documentFrequency t : Int)

theorem replicates_iff {r : Statistics.Replica} {s : Snapshot} : Replicates r s ↔
    r.documents = s.size ∧ Statistics.Replica.Tells r.frequencies fun t => s.documentFrequency t := by
  have hentry : ∀ n : Nat, Statistics.Replica.entry n = if n = 0 then none else some (n : Int) := by
    intro n
    rw [Statistics.Replica.entry]
    simp
  unfold Statistics.Replica.Tells
  constructor
  · rintro ⟨hdocuments, hfrequencies⟩
    exact ⟨hdocuments, fun t => (hfrequencies t).trans (hentry _).symm⟩
  · rintro ⟨hdocuments, htells⟩
    exact ⟨hdocuments, fun t => (htells t).trans (hentry _)⟩

/-- As long as the records of all commits fit the history of a storage, they add up to its document
frequencies and its number of documents, and a replica that is sent all of them accepts every blob
and ends with both, whatever the encoding and the size of the parts. -/
theorem statistics_add_up {config : Config} {v₀ v : Volume} {store : Store} {events : List Event}
    {s : Store} (hcreate : (Store.create config).run v₀ = (.ok store, v))
    (hrun : ((start store v).run events).store = s)
    (hfits : s.current.generation ≤ max config.historyLimit 1)
    (hwords : ∀ r ∈ s.history.records, r.Fits) :
    ∃ records, s.updateStatistics none = .ok (.update, records) ∧
      records.length = s.current.generation ∧
      (∀ t, (records.map fun r => total t r.changes).sum = s.current.documentFrequency t) ∧
      (records.map (·.documents)).sum = s.current.size ∧
      ∀ encoding maxEntries, ∃ r : Statistics.Replica,
        let messages := Statistics.Message.splitAll records .update encoding maxEntries
        ({} : Statistics.Replica).applyBlobs (messages.map Statistics.Blob.encode) =
          .ok (messages.map fun _ => true, r) ∧ Replicates r s.current := by
  obtain ⟨journal, rfl⟩ := Store.fresh_of_create hcreate
  have hstart := Store.accounting_fresh config journal
  have haccounting : s.Accounting (max config.historyLimit 1) := by
    rw [← hrun]
    exact store_of_run Store.Accounting.commit hstart events
  obtain ⟨hhorizon, hlength, haddUp⟩ := haccounting.complete hfits
  refine ⟨s.history.records, ?_, hlength, haddUp.frequencies, haddUp.documents,
    fun encoding maxEntries => ?_⟩
  · have hall : s.history.since none = .ok s.history.records := by
      unfold Statistics.History.since Statistics.History.isAfter
      rw [hhorizon]
      simp
    unfold Store.updateStatistics
    rw [hall]
    rfl
  · obtain ⟨r, happly, hdocuments, htells⟩ := Statistics.Replica.applyBlobs_records haddUp.later
      fun record hrecord => ⟨hwords record hrecord, haddUp.ascend record hrecord⟩
    refine ⟨r, happly, replicates_iff.mpr ⟨hdocuments.trans haddUp.documents, fun t => ?_⟩⟩
    rw [htells t]
    exact congrArg _ (haddUp.frequencies t)

/-- Two documents share a word, and one of them is deleted. -/
def sharedWord : List Event := [
  .begin "first" "t",
  .stage "first" (.document "a" { search := [⟨"word", "x", 1⟩, ⟨"word", "y", 2⟩] } false),
  .commit "first" 7,
  .begin "second" "t",
  .stage "second" (.document "b" { search := [⟨"word", "x", 1⟩] } false),
  .stage "second" (.delete "a"),
  .commit "second" 5]

theorem statistics_add_up_shared_word :
    ∃ s : Store, s.current.generation = 2 ∧ s.current.size = 1 ∧
      s.current.documentFrequency ⟨"word", "x"⟩ = 1 ∧
      s.current.documentFrequency ⟨"word", "y"⟩ = 0 ∧
      ∃ records, s.updateStatistics none = .ok (.update, records) ∧ records.length = 2 ∧
        ∃ r : Statistics.Replica,
          let messages := Statistics.Message.splitAll records .update .compact 1
          ({} : Statistics.Replica).applyBlobs (messages.map Statistics.Blob.encode) =
            .ok (messages.map fun _ => true, r) ∧ Replicates r s.current := by
  let v : Volume := (Volume.memory.setContent configFile
    (Wire.textBytes (Json.renderPretty ({} : Config).toJson))).setContent journalFile []
  have hwilling : Volume.memory.Willing storageFiles := ⟨rfl, rfl, fun _ _ => rfl⟩
  have hcreate := Store.create_willing hwilling rfl {}
  obtain ⟨s, hrun, hfits, hwords, hgeneration, hsize, hx, hy⟩ :
      ∃ s : Store, ((start (.fresh {} {}) v).run sharedWord).store = s ∧
        s.current.generation ≤ max ({} : Config).historyLimit 1 ∧
        (∀ r ∈ s.history.records, r.Fits) ∧ s.current.generation = 2 ∧ s.current.size = 1 ∧
        s.current.documentFrequency ⟨"word", "x"⟩ = 1 ∧
        s.current.documentFrequency ⟨"word", "y"⟩ = 0 :=
    ⟨_, rfl, by decide +kernel, by decide +kernel, by decide +kernel, by decide +kernel,
      by decide +kernel, by decide +kernel⟩
  obtain ⟨records, hrecords, hlength, -, -, hreplica⟩ :=
    statistics_add_up hcreate hrun hfits hwords
  exact ⟨s, hgeneration, hsize, hx, hy, records, hrecords, hlength.trans hgeneration,
    hreplica .compact 1⟩

end Client

end Concordance
