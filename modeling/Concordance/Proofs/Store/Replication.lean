import Concordance.Proofs.Statistics.Resumption
import Concordance.Proofs.Store.Conservation
import Mathlib.Data.List.Infix

/-!
# Replicas that are kept up to date

A `Replication` is a process with a storage, and a replica that fetches its statistics in rounds. A
round asks for what came after the last timestamp that the replica has applied, and applies the
messages one by one; the storage may go on between any two of them, and a new round may start before
the last one is through.

A round that is through leaves the replica with the number of documents that the storage had when it
answered. It leaves it with the document frequencies too if no round was stopped inside of a record
(`Replication.caught_up_iff_nothing_lost`). But the messages of a record share its timestamp, and
what was not applied of a record that was begun is not sent again.
-/

namespace Concordance

open Statistics (Record Message Replica total)
open Statistics.History (newest)

/-! ## The records of a storage -/

namespace Store

open Snapshot

variable {limit now : Nat} {log begun rest : List Record} {s s' : Store} {v v' : Volume}
  {oldest : Option Nat} {staged : List StagedOperation} {res : Except Error CommitSummary}

/-- A store with the records of all its commits, the oldest of which its history may have dropped. -/
structure Logged (limit : Nat) (log : List Record) (s : Store) : Prop where
  ready : Ready 0 s.current
  kept : s.history.limit = limit
  count : log.length = s.current.generation
  addUp : AddUp log s.current
  dropped : ∃ dropped, dropped ++ s.history.records = log ∧ s.history.horizon = newest dropped ∧
    (log.length ≤ limit → dropped = [])

theorem logged_fresh (config : Config) (journal : Journal) :
    Logged (max config.historyLimit 1) [] (fresh config journal) where
  ready := ⟨sound_empty _ _, .new 0⟩
  kept := rfl
  count := rfl
  addUp := addUp_empty _ _
  dropped := ⟨[], rfl, rfl, fun _ => rfl⟩

/-- A commit adds its record or none. -/
theorem Logged.commit (h : Logged limit log s)
    (hrun : s.commit oldest now staged v = (res, s', v')) : ∃ more, Logged limit (log ++ more) s' := by
  have hold : ∀ g, oldest = some g → 0 ≤ g := fun g _ => Nat.zero_le g
  rcases state_after hrun with ⟨hcurrent, hhistory⟩ | ⟨p, hprepare, hcurrent, hhistory⟩
  · refine ⟨[], ?_⟩
    rw [List.append_nil]
    refine ⟨?_, ?_, ?_, ?_, ?_⟩
    · rw [hcurrent]
      exact h.ready
    · rw [hhistory]
      exact h.kept
    · rw [hcurrent]
      exact h.count
    · rw [hcurrent]
      exact h.addUp
    · rw [hhistory]
      exact h.dropped
  · obtain ⟨hready, hgeneration, -⟩ := head_of_prepare h.ready hold hprepare
    obtain ⟨dropped, hlog, hhorizon, hroom⟩ := h.dropped
    obtain ⟨dropped', hsplit, hhorizon', hroom'⟩ :=
      Statistics.History.push_split hhorizon p.record.statistics
    refine ⟨[p.record.statistics], ?_, ?_, ?_, ?_, dropped', ?_, ?_, fun hfits => ?_⟩
    · rw [hcurrent]
      exact hready
    · rw [hhistory]
      exact h.kept
    · rw [hcurrent, hgeneration, List.length_append, h.count]
      rfl
    · rw [hcurrent]
      exact h.addUp.push (reports_of_prepare hprepare)
    · rw [hhistory, ← hsplit, hlog]
    · rw [hhistory]
      exact hhorizon'
    · rw [List.length_append] at hfits
      have hnil := hroom (by omega)
      rw [hnil, List.nil_append] at hlog
      refine hroom' hnil ?_
      rw [hlog, h.kept, List.length_append]
      exact hfits

/-- What a storage answers are the records after those begun; it answers if none was dropped. -/
theorem Logged.updateStatistics (h : Logged limit (begun ++ rest) s) :
    (∀ answer, s.updateStatistics (newest begun) = .ok answer → answer = (.update, rest) ∧
      ∀ record ∈ rest, record ∈ s.history.records) ∧
    (s.current.generation ≤ limit → s.updateStatistics (newest begun) = .ok (.update, rest)) := by
  obtain ⟨dropped, hlog, hhorizon, hroom⟩ := h.dropped
  obtain ⟨hanswers, hall⟩ := Statistics.History.since_of_split hlog hhorizon h.addUp.later
  constructor
  · intro answer hanswer
    unfold Store.updateStatistics at hanswer
    obtain ⟨records, hsince, heq⟩ := Fallible.bind_eq_ok.mp hanswer
    cases heq
    have hsince' := Fallible.mapError_eq_ok.mp hsince
    have hrest := hanswers records hsince'
    subst hrest
    refine ⟨rfl, fun record hrecord => ?_⟩
    unfold Statistics.History.since at hsince'
    split at hsince'
    · split at hsince' <;> cases hsince'
      exact (List.mem_filter.mp hrecord).1
    · cases hsince'
      exact (List.mem_filter.mp hrecord).1
  · intro hfits
    unfold Store.updateStatistics
    rw [hall (hroom (by rw [h.count]; exact hfits))]
    rfl

end Store

/-! ## Rounds -/

/-- A process with a storage, and a replica of its statistics. -/
structure Replication where
  source : Client
  replica : Replica := {}
  /-- The messages of the round that are still to be applied. -/
  pending : List Message := []
  /-- The snapshot that the storage had when it answered the round. -/
  answered : Snapshot
  /-- The messages of begun records that rounds were stopped in front of. -/
  lost : List Message := []

inductive Replication.Event where
  /-- The process goes on. -/
  | source (event : Client.Event)
  /-- A round starts: the replica asks for what came after the last timestamp it has applied. -/
  | request (maxEntries : Nat)
  /-- The next blob of the round is applied. -/
  | deliver

namespace Replication

def start (c : Client) : Replication := { source := c, answered := c.store.current }

def step (r : Replication) : Event → Replication
  | .source event => { r with source := r.source.step event }
  | .request maxEntries =>
    match r.source.store.updateStatistics r.replica.lastApplied with
    | .error _ => r
    | .ok statistics => { r with
        pending := r.source.store.messages statistics maxEntries
        answered := r.source.store.current
        lost := r.lost ++ r.pending.filter fun m => some m.timestamp = r.replica.lastApplied }
  | .deliver =>
    match r.pending with
    | [] => r
    | m :: rest =>
      match r.replica.applyBlob (Statistics.Blob.encode m) with
      | .error _ => r
      | .ok (_, replica) => { r with replica, pending := rest }

def run (r : Replication) (events : List Event) : Replication := events.foldl step r

/-- How far a replica has come with the records of a storage: it has begun some of them, with some
messages left of the last one; the round goes on with more, and the storage has still later ones. -/
structure Follows (limit : Nat) (r : Replication) (begun rest later : List Record)
    (left : List Message) : Prop where
  source : r.source.store.Logged limit (begun ++ (rest ++ later))
  answered : Store.AddUp (begun ++ rest) r.answered
  position : r.replica.Position begun left r.lost
  pending : ∃ encoding maxEntries,
    r.pending = left ++ Message.splitAll rest .update encoding maxEntries
  accepts : r.replica.Accepts r.pending
  sendable : ∀ m ∈ r.pending, m.Sendable

/-- A replica follows a storage. -/
def Tracks (limit : Nat) (r : Replication) : Prop :=
  ∃ begun rest later left, Follows limit r begun rest later left

variable {limit : Nat} {r : Replication} {begun rest later : List Record} {left : List Message}

/-- The next blob of a round is new. -/
theorem Follows.applyBlob (h : Follows limit r begun rest later left) {m : Message}
    {more : List Message} (hpending : r.pending = m :: more) :
    r.replica.applyBlob (Statistics.Blob.encode m) = .ok (true, r.replica.accept m) := by
  have hsendable := h.sendable m (by rw [hpending]; exact List.mem_cons_self)
  have haccepts := h.accepts
  rw [hpending] at haccepts
  rw [Statistics.Replica.applyBlob_encode hsendable, haccepts.apply]
  rfl

theorem Follows.source_step (h : Follows limit r begun rest later left) (event : Client.Event) :
    Tracks limit (r.step (.source event)) := by
  obtain ⟨more, hlogged⟩ : ∃ more,
      (r.source.step event).store.Logged limit (begun ++ (rest ++ later) ++ more) := by
    rcases r.source.store_of_step event with hsame | ⟨oldest, now, staged, v, res, v', hrun⟩
    · refine ⟨[], ?_⟩
      rw [hsame, List.append_nil]
      exact h.source
    · exact h.source.commit hrun
  refine ⟨begun, rest, later ++ more, left, ?_, h.answered, h.position, h.pending, h.accepts,
    h.sendable⟩
  rw [List.append_assoc, List.append_assoc] at hlogged
  exact hlogged

/-- A new round has all records that are not begun; what is left of the last one is lost. -/
theorem Follows.request (h : Follows limit r begun rest later left)
    (hwords : ∀ x ∈ r.source.store.history.records, x.Fits) (maxEntries : Nat) :
    Tracks limit (r.step (.request maxEntries)) := by
  unfold step
  dsimp only
  split
  · exact ⟨begun, rest, later, left, h⟩
  · next answer hanswer =>
      rw [h.position.last] at hanswer
      obtain ⟨rfl, hkept⟩ := h.source.updateStatistics.1 answer hanswer
      have hlater := h.source.addUp.later
      have hstopped : r.pending.filter (fun m => some m.timestamp = r.replica.lastApplied) = left := by
        obtain ⟨encoding, size, hpending⟩ := h.pending
        rw [hpending]
        exact h.position.filter_eq h.answered.later
      refine ⟨begun, rest ++ later, [], [], ?_, ?_, ?_, ⟨_, _, rfl⟩, ?_, ?_⟩
      · rw [List.append_nil]
        exact h.source
      · exact h.source.addUp
      · rw [hstopped]
        exact h.position.stop
      · exact h.position.stop.accepts hlater
      · refine Statistics.Replica.sendable_splitAll (fun record hrecord => ⟨?_, ?_⟩) _ _ _
        · exact hwords record (hkept record hrecord)
        · exact h.source.addUp.ascend record (List.mem_append_right _ hrecord)

/-- A blob goes on with the record that is begun, or begins the next one. -/
theorem Follows.deliver (h : Follows limit r begun rest later left) :
    Tracks limit (r.step .deliver) := by
  unfold step
  dsimp only
  split
  · exact ⟨begun, rest, later, left, h⟩
  · next m more hpending =>
      rw [h.applyBlob hpending]
      obtain ⟨encoding, maxEntries, hmessages⟩ := h.pending
      have haccepts := h.accepts
      have hsendable := h.sendable
      rw [hpending] at haccepts hsendable hmessages
      have htail := haccepts.tail
      have hmore := (List.forall_mem_cons.mp hsendable).2
      cases left with
      | cons x left =>
          -- the record that is begun goes on
          obtain ⟨rfl, hmore'⟩ := List.cons.inj hmessages
          exact ⟨begun, rest, later, left, h.source, h.answered, h.position.part,
            ⟨encoding, maxEntries, hmore'⟩, htail, hmore⟩
      | nil =>
          cases rest with
          | nil => cases hmessages
          | cons record rest =>
              -- the record that is begun is all applied, so this is the first message of the next
              obtain ⟨first, left, hsplit, hdocuments, hnone⟩ :=
                Message.split_eq_cons record .update encoding maxEntries
              rw [List.nil_append, Message.splitAll_cons, hsplit, List.cons_append] at hmessages
              obtain ⟨rfl, hmore'⟩ := List.cons.inj hmessages
              refine ⟨begun ++ [record], rest, later, left, ?_, ?_,
                h.position.first hsplit hdocuments hnone, ⟨encoding, maxEntries, hmore'⟩, htail,
                hmore⟩
              · rw [List.append_assoc]
                exact h.source
              · rw [List.append_assoc]
                exact h.answered

theorem Tracks.step (h : Tracks limit r) (hwords : ∀ x ∈ r.source.store.history.records, x.Fits)
    (event : Event) : Tracks limit (r.step event) := by
  obtain ⟨begun, rest, later, left, h⟩ := h
  cases event with
  | source event => exact h.source_step event
  | request maxEntries => exact h.request hwords maxEntries
  | deliver => exact h.deliver

theorem Tracks.run (h : Tracks limit r) {events : List Event}
    (hwords : ∀ before, before <+: events →
      ∀ x ∈ (r.run before).source.store.history.records, x.Fits) : Tracks limit (r.run events) := by
  induction events generalizing r with
  | nil => exact h
  | cons event rest ih =>
      refine ih (h.step (hwords [] List.nil_prefix) event) fun before hbefore => ?_
      exact hwords (event :: before) (List.cons_prefix_cons.mpr ⟨rfl, hbefore⟩)

theorem tracks_start {config : Config} (journal : Journal) (v : Volume) :
    Tracks (max config.historyLimit 1) (start (.start (.fresh config journal) v)) :=
  ⟨[], [], [], [], Store.logged_fresh config journal, Store.addUp_empty _ _,
    Statistics.Replica.position_new, ⟨.standard, 0, rfl⟩, ⟨nofun, List.Pairwise.nil⟩, nofun⟩

/-- A round that is through has begun all records that it was answered. -/
theorem Follows.through (h : Follows limit r begun rest later left) (hpending : r.pending = []) :
    left = [] ∧ rest = [] := by
  obtain ⟨encoding, maxEntries, hmessages⟩ := h.pending
  rw [hpending] at hmessages
  obtain ⟨hleft, hsplit⟩ := List.append_eq_nil_iff.mp hmessages.symm
  refine ⟨hleft, ?_⟩
  cases rest with
  | nil => rfl
  | cons record rest =>
      obtain ⟨first, more, heq, -⟩ := Message.split_eq_cons record .update encoding maxEntries
      rw [Message.splitAll_cons, heq] at hsplit
      cases hsplit

/-- What a replica has and what it has lost make up what it was answered. -/
theorem Follows.frequencies (h : Follows limit r begun [] later []) :
    Statistics.Replica.Tells r.replica.frequencies fun t =>
      r.answered.documentFrequency t - total t (r.lost.flatMap (·.changes)) := by
  intro t
  obtain ⟨f, htells, hsum⟩ := h.position.frequencies
  have hanswered := h.answered.frequencies t
  rw [List.append_nil, ← hsum t, List.flatMap_nil, show total t [] = 0 from rfl] at hanswered
  rw [htells t]
  refine congrArg Statistics.Replica.entry ?_
  dsimp only
  omega

/-- A replica that fetches statistics in rounds is answered as long as no record has been dropped, and
every blob that comes is new. When a round is through, the replica has the number of documents that
the storage had when it answered, and it has the document frequencies up to what was lost because
rounds were stopped inside of a record: it has all of them if and only if that adds up to nothing. -/
theorem caught_up_iff_nothing_lost {config : Config} {v₀ v : Volume} {store : Store}
    {events : List Event} (hcreate : (Store.create config).run v₀ = (.ok store, v))
    (hwords : ∀ before, before <+: events →
      ∀ x ∈ ((start (.start store v)).run before).source.store.history.records, x.Fits)
    (hrun : (start (.start store v)).run events = r) :
    (r.source.store.current.generation ≤ max config.historyLimit 1 →
        ∃ records, r.source.store.updateStatistics r.replica.lastApplied = .ok (.update, records)) ∧
      (∀ m more, r.pending = m :: more →
        r.replica.applyBlob (Statistics.Blob.encode m) = .ok (true, r.replica.accept m)) ∧
      (r.pending = [] → r.replica.documents = r.answered.size ∧
        (∀ t, r.replica.documentFrequency t + total t (r.lost.flatMap (·.changes)) =
          r.answered.documentFrequency t) ∧
        (Client.Replicates r.replica r.answered ↔
          ∀ t, total t (r.lost.flatMap (·.changes)) = 0)) := by
  obtain ⟨journal, rfl⟩ := Store.fresh_of_create hcreate
  obtain ⟨begun, rest, later, left, h⟩ := (tracks_start journal v).run hwords
  rw [hrun] at h
  refine ⟨fun hfits => ?_, fun m more => h.applyBlob, fun hpending => ?_⟩
  · rw [h.position.last]
    exact ⟨_, h.source.updateStatistics.2 hfits⟩
  · obtain ⟨rfl, rfl⟩ := h.through hpending
    have hdocuments : r.replica.documents = r.answered.size := by
      rw [h.position.documents, ← h.answered.documents, List.append_nil]
    have hfrequency : ∀ t, r.replica.documentFrequency t + total t (r.lost.flatMap (·.changes)) =
        r.answered.documentFrequency t := by
      intro t
      rw [Statistics.Replica.documentFrequency, h.frequencies.getD]
      omega
    refine ⟨hdocuments, hfrequency, ?_⟩
    rw [Client.replicates_iff]
    constructor
    · rintro ⟨-, htells⟩ t
      have hsame := hfrequency t
      rw [Statistics.Replica.documentFrequency, htells.getD] at hsame
      omega
    · intro hnothing
      refine ⟨hdocuments, fun t => ?_⟩
      rw [h.frequencies t]
      dsimp only
      rw [hnothing t, Int.sub_zero]

/-- A document with two words is committed. -/
def twoWords : List Event := [
  .source (.begin "writer" "t"),
  .source (.stage "writer" (.document "a" { search := [⟨"word", "x", 1⟩, ⟨"word", "y", 2⟩] } false)),
  .source (.commit "writer" 7)]

/-- Another document with one of the words is committed. -/
def oneWord : List Event := [
  .source (.begin "writer" "u"),
  .source (.stage "writer" (.document "b" { search := [⟨"word", "y", 1⟩] } false)),
  .source (.commit "writer" 7)]

/-- A replication with a storage that was just set up in memory. -/
def fresh : Replication :=
  start (.start (.fresh {} {}) ((Volume.memory.setContent configFile
    (Wire.textBytes (Json.renderPretty ({} : Config).toJson))).setContent journalFile []))

theorem create_fresh : (Store.create {}).run .memory = (.ok fresh.source.store, fresh.source.volume) :=
  Store.create_willing ⟨rfl, rfl, fun _ _ => rfl⟩ rfl {}

/-- A round is stopped between two records, after a commit that it does not know of. -/
theorem caught_up_iff_nothing_lost_between :
    ∃ (events : List Event) (r : Replication), fresh.run events = r ∧ r.pending = [] ∧ r.lost = [] ∧
      r.answered.documentFrequency ⟨"word", "y"⟩ = 2 ∧ Client.Replicates r.replica r.answered := by
  let events : List Event := twoWords ++ [.request 2] ++ oneWord ++ [.deliver, .request 2, .deliver]
  have hwords : ∀ before, before <+: events →
      ∀ x ∈ (fresh.run before).source.store.history.records, x.Fits := by
    intro before hbefore
    have hall : ∀ before ∈ events.inits,
        ∀ x ∈ (fresh.run before).source.store.history.records, x.Fits := by decide +kernel
    exact hall before ((List.mem_inits _ _).mpr hbefore)
  have hpending : (fresh.run events).pending = [] := by decide +kernel
  have hlost : (fresh.run events).lost = [] := by decide +kernel
  have hfrequency : (fresh.run events).answered.documentFrequency ⟨"word", "y"⟩ = 2 := by
    decide +kernel
  obtain ⟨-, -, hthrough⟩ :=
    caught_up_iff_nothing_lost create_fresh hwords (show _ = fresh.run events from rfl)
  refine ⟨events, _, rfl, hpending, hlost, hfrequency, (hthrough hpending).2.2.mpr fun t => ?_⟩
  rw [hlost]
  rfl

/-- A round is stopped between the two messages of a record. The next round is through at once, and
the replica never has the second word. -/
theorem word_lost_between_messages :
    ∃ r : Replication,
      fresh.run (twoWords ++ [.request 1, .deliver, .request 1]) = r ∧ r.pending = [] ∧
      r.replica.documents = r.answered.size ∧
      r.answered.documentFrequency ⟨"word", "y"⟩ = 1 ∧
      r.replica.documentFrequency ⟨"word", "y"⟩ = 0 :=
  ⟨_, rfl, by decide +kernel, by decide +kernel, by decide +kernel, by decide +kernel⟩

end Replication

end Concordance
