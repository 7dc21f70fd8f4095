import Concordance.Proofs.Catalog.Consistency
import Concordance.Proofs.Store.Calm
import Concordance.Proofs.Store.Contents

/-!
# Commits are serial

A `Client` is a process with one open storage: any number of transactions that stage changes and
commit in any order, and readers that hold snapshots. Whatever it does, the published documents are
those that the committed buffers make of an empty storage, one buffer after the other and one change
after the other (`commits_are_serial`). A commit succeeds when none of its changes is illegal there
and its record fits the journal, and its summary counts the documents created, replaced and deleted.
-/

namespace Concordance

theorem Statistics.TimeStamp.compare_next (t : TimeStamp) (now : Nat) :
    compare t (t.next now) = .lt := by
  show (compare t.seconds (max now t.seconds)).then (compare t.counter (t.counter + 1)) = .lt
  have hcounter : compare t.counter (t.counter + 1) = .lt := Nat.compare_eq_lt.mpr (by omega)
  by_cases hclock : t.seconds < max now t.seconds
  · rw [Nat.compare_eq_lt.mpr hclock]
    rfl
  · have hsame : max now t.seconds = t.seconds := by omega
    rw [hsame, Nat.compare_eq_eq.mpr rfl, hcounter]
    rfl

/-! ## Commits of a store -/

namespace Store

open Snapshot

variable {floor : Nat} {base : Snapshot} {oldest : Option Nat} {now : Nat} {c : Contents}
  {staged : List StagedOperation}

theorem shows_successor (hc : base.Shows c) : (successor base oldest).Shows c :=
  ⟨hc.accessControl, hc.schema, hc.documents⟩

/-- The execution of a commit follows the run of its changes on the contents. -/
theorem follows_start (h : Ready floor base) (hc : base.Shows c)
    (hold : ∀ g, oldest = some g → floor ≤ g) :
    Follows floor { summary := { timestamp := base.timestamp }, snapshot := successor base oldest }
      c {} :=
  ⟨ready_successor h hold, shows_successor hc, rfl, rfl, rfl⟩

/-- What a prepared commit publishes. -/
structure Publishes (floor : Nat) (base : Snapshot) (c : Contents) (t : Tally) (p : Prepared) :
    Prop where
  ready : Ready floor p.next
  shows : p.next.Shows c
  counts : Counts p.summary t
  generation : p.next.generation = base.generation + 1
  later : compare base.timestamp p.next.timestamp = .lt
  timestamp : p.summary.timestamp = p.next.timestamp

/-- A commit can be prepared when its changes can be run on the contents. -/
theorem prepare_of_run (h : Ready floor base) (hc : base.Shows c)
    (hold : ∀ g, oldest = some g → floor ≤ g) {c' : Contents} {t : Tally}
    (hrun : c.run {} staged = some (c', t)) : ∃ r, prepare base oldest now staged = .ok r := by
  obtain ⟨e, hexec⟩ := ((follows_start h hc hold).run staged).2 c' t hrun
  unfold prepare execute
  rw [hexec]
  by_cases hempty : e.operations.isEmpty = true
  · exact ⟨.inl e.summary, by simp only [bind, Except.bind, hempty, if_true]; rfl⟩
  · exact ⟨_, by simp only [bind, Except.bind, hempty]; rfl⟩

/-- What a commit prepares: nothing without changes, and else the outcome of their run. -/
theorem run_of_prepare (h : Ready floor base) (hc : base.Shows c)
    (hold : ∀ g, oldest = some g → floor ≤ g) {r : CommitSummary ⊕ Prepared}
    (hprepare : prepare base oldest now staged = .ok r) :
    ∃ c' t, c.run {} staged = some (c', t) ∧
      match r with
      | .inl summary => staged = [] ∧ Counts summary t ∧ c' = c
      | .inr p => staged ≠ [] ∧ Publishes floor base c' t p := by
  have hhead : ∀ p, r = .inr p → Ready floor p.next ∧ p.next.generation = base.generation + 1 := by
    rintro p rfl
    obtain ⟨hready, hgeneration, -⟩ := head_of_prepare h hold hprepare
    exact ⟨hready, hgeneration⟩
  unfold prepare execute at hprepare
  obtain ⟨e, hexec, hrest⟩ := Fallible.bind_eq_ok.mp hprepare
  have hstart := follows_start h hc hold
  obtain ⟨c', t, hrun, hfollows⟩ := (hstart.run staged).1 e hexec
  obtain ⟨-, -, -, -, hlength⟩ := head_of_execution hstart.ready hexec
  change e.operations.length = 0 + staged.length at hlength
  refine ⟨c', t, hrun, ?_⟩
  split at hrest
  · next hempty =>
      cases hrest
      have hnil : staged = [] := by
        rw [List.isEmpty_iff.mp hempty, List.length_nil] at hlength
        exact List.eq_nil_of_length_eq_zero (by omega)
      subst hnil
      cases hrun
      exact ⟨rfl, hfollows.counts, rfl⟩
  · next hempty =>
      cases hrest
      obtain ⟨hready, hgeneration⟩ := hhead _ rfl
      refine ⟨?_, hready, ⟨hfollows.shows.accessControl, hfollows.shows.schema,
        hfollows.shows.documents⟩, ⟨hfollows.counts.created, hfollows.counts.replaced,
        hfollows.counts.deleted⟩, hgeneration, Statistics.TimeStamp.compare_next _ _, rfl⟩
      intro hnil
      rw [hnil, List.length_nil] at hlength
      exact hempty (List.isEmpty_iff.mpr (List.eq_nil_of_length_eq_zero hlength))

/-- A transaction that is active ends with the commit of its changes. -/
theorem commitTransaction_of_active {s s' : Store} {v v' : Volume} {t : Transaction}
    (ht : t.state = .active) {r : Except Error CommitSummary}
    (hr : s.commit oldest now t.staged v = (r, s', v')) :
    s.commitTransaction oldest now t v =
      (r, { t with state := if r.isOk then .committed else .aborted, staged := [] }, s', v') := by
  unfold commitTransaction Transaction.ensureActive
  rw [if_pos ht]
  dsimp only
  rw [hr]

/-- The record of a commit, if it makes one, is not too long for the journal. -/
def RecordFits (base : Snapshot) (oldest : Option Nat) (now : Nat)
    (staged : List StagedOperation) : Prop :=
  ∀ p, prepare base oldest now staged = .ok (.inr p) → p.record.frame? ≠ none

end Store

/-! ## A process with one storage -/

/-- A call on an open transaction. -/
inductive Staging where
  | document (id : String) (doc : Document) (update : Bool)
  | delete (id : String)
  | deleteUser (user : String)
  | define (schema : Schema)
  | alter (alterations : List Alteration)
  | rollback

/-- Does a call on a transaction. -/
def Staging.run (accessControl : Bool) (t : Transaction) : Staging → Except StagingFault Transaction
  | .document id doc update => t.stageDocument accessControl id doc update
  | .delete id => t.stageDelete id
  | .deleteUser user => t.stageDeleteUser user
  | .define schema => t.stageDefine schema
  | .alter alterations => t.stageAlter alterations
  | .rollback => t.rollback

/-- A process with one open storage. -/
structure Client where
  store : Store
  volume : Volume
  transactions : SortedMap String Transaction := ∅
  /-- The generations of the snapshots that readers hold. -/
  readers : SortedMap String Nat := ∅
  /-- The buffers that were committed, in the order of their commits. -/
  committed : List (List StagedOperation) := []

/-- What a process may do. -/
inductive Client.Event where
  | begin (name id : String)
  | stage (name : String) (call : Staging)
  /-- A transaction commits when the clock reads `now`. -/
  | commit (name : String) (now : Nat)
  /-- A reader takes the current snapshot. -/
  | lease (name : String)
  | release (name : String)

namespace Client

/-- The process after the storage was set up. -/
def start (s : Store) (v : Volume) : Client := { store := s, volume := v }

/-- The generation of the oldest snapshot that a reader holds. -/
def oldestReader (c : Client) : Option Nat := c.readers.values.min?

/-- A commit of a transaction. -/
def commit (c : Client) (now : Nat) (t : Transaction) :
    Except Error CommitSummary × Transaction × Store × Volume :=
  c.store.commitTransaction c.oldestReader now t c.volume

/-- One step of a process. A call that fails changes nothing but the transaction that ends. -/
def step (c : Client) : Event → Client
  | .begin name id =>
    match c.store.begin id with
    | .ok t => { c with transactions := c.transactions.insert name t }
    | .error _ => c
  | .stage name call =>
    match c.transactions.get? name with
    | none => c
    | some t =>
      match call.run c.store.config.accessControl t with
      | .ok t => { c with transactions := c.transactions.insert name t }
      | .error _ => c
  | .commit name now =>
    match c.transactions.get? name with
    | none => c
    | some t =>
      let (r, t', store, volume) := c.commit now t
      { c with
        store
        volume
        transactions := c.transactions.insert name t'
        committed := if r.isOk then c.committed ++ [t.staged] else c.committed }
  | .lease name => { c with readers := c.readers.insert name c.store.current.generation }
  | .release name => { c with readers := c.readers.erase name }

/-- The process after some steps. -/
def run (c : Client) (events : List Event) : Client := events.foldl step c

end Client

namespace Contents

/-- The contents of a storage without documents. -/
def initial (config : Config) : Contents :=
  { accessControl := config.accessControl, schema := config.schema }

/-- Runs whole buffers one after the other. -/
def runAll (c : Contents) : List (List StagedOperation) → Option Contents
  | [] => some c
  | buffer :: rest => (c.run {} buffer).bind fun r => r.1.runAll rest

theorem runAll_append {c c' c'' : Contents} {t : Tally} {buffers : List (List StagedOperation)}
    {buffer : List StagedOperation} (h : c.runAll buffers = some c')
    (h' : c'.run {} buffer = some (c'', t)) : c.runAll (buffers ++ [buffer]) = some c'' := by
  induction buffers generalizing c with
  | nil =>
      cases h
      rw [List.nil_append, runAll, h']
      rfl
  | cons first rest ih =>
      obtain ⟨r, hfirst, hrest⟩ := Option.bind_eq_some_iff.mp h
      rw [List.cons_append, runAll, hfirst]
      exact ih hrest

end Contents

namespace Client

/-- What holds of a process between its steps. -/
structure Serial (config : Config) (c : Client) (contents : Contents) : Prop where
  calm : c.store.Calm c.volume
  ready : Snapshot.Ready 0 c.store.current
  shows : c.store.current.Shows contents
  history : (Contents.initial config).runAll c.committed = some contents

/-- What a commit does, in terms of the contents that the commits before it led to. -/
structure CommitsSerially (c : Client) (contents : Contents) (now : Nat) (t : Transaction) :
    Prop where
  /-- It succeeds if and only if no change is illegal and the record fits the journal. -/
  succeeds : (∃ summary, (c.commit now t).1 = .ok summary) ↔
    (∃ r, contents.run {} t.staged = some r) ∧
      Store.RecordFits c.store.current c.oldestReader now t.staged
  /-- A commit that succeeds publishes the outcome and counts it. -/
  publishes : ∀ summary, (c.commit now t).1 = .ok summary →
    ∃ contents' tally, contents.run {} t.staged = some (contents', tally) ∧
      (c.commit now t).2.2.1.current.Shows contents' ∧ Store.Counts summary tally
  advances : ∀ summary, (c.commit now t).1 = .ok summary → t.staged ≠ [] →
    (c.commit now t).2.2.1.current.generation = c.store.current.generation + 1 ∧
      compare c.store.current.timestamp (c.commit now t).2.2.1.current.timestamp = .lt ∧
      summary.timestamp = (c.commit now t).2.2.1.current.timestamp
  /-- A commit that fails publishes nothing. -/
  refuses : ∀ e, (c.commit now t).1 = .error e → (c.commit now t).2.2.1.current = c.store.current

variable {config : Config} {c : Client} {contents : Contents}

/-- What a commit of an active transaction comes to. -/
inductive Committing (c : Client) (contents : Contents) (now : Nat) (t : Transaction) : Prop
  /-- A change is illegal, or the record does not fit the journal. -/
  | refused (e : Error) :
    c.commit now t = (.error e, { t with state := .aborted, staged := [] }, c.store, c.volume) →
    (contents.run {} t.staged = none ∨
      ¬ Store.RecordFits c.store.current c.oldestReader now t.staged) →
    Committing c contents now t
  /-- There was nothing to do. -/
  | nothing (summary : CommitSummary) (tally : Tally) : t.staged = [] →
    contents.run {} t.staged = some (contents, tally) → Store.Counts summary tally →
    Store.RecordFits c.store.current c.oldestReader now t.staged →
    c.commit now t =
      (.ok summary, { t with state := .committed, staged := [] }, c.store, c.volume) →
    Committing c contents now t
  | published (p : Store.Prepared) (contents' : Contents) (tally : Tally) (s' : Store)
    (v' : Volume) : t.staged ≠ [] →
    contents.run {} t.staged = some (contents', tally) →
    Store.Publishes 0 c.store.current contents' tally p →
    Store.RecordFits c.store.current c.oldestReader now t.staged →
    s'.Calm v' → s'.current = p.next →
    c.commit now t = (.ok p.summary, { t with state := .committed, staged := [] }, s', v') →
    Committing c contents now t

theorem commit_of_active (c : Client) (now : Nat) {t : Transaction} (ht : t.state = .active)
    {r : Except Error CommitSummary} {s' : Store} {v' : Volume}
    (hr : c.store.commit c.oldestReader now t.staged c.volume = (r, s', v')) :
    c.commit now t =
      (r, { t with state := if r.isOk then .committed else .aborted, staged := [] }, s', v') :=
  Store.commitTransaction_of_active ht hr

theorem Serial.committing (h : Serial config c contents) (now : Nat) {t : Transaction}
    (ht : t.state = .active) : Committing c contents now t := by
  have hold : ∀ g, c.oldestReader = some g → 0 ≤ g := fun g _ => Nat.zero_le g
  have hcommit : c.store.commit c.oldestReader now t.staged c.volume = _ :=
    Store.commit_of_opened h.calm.opened
  cases hprepare : Store.prepare c.store.current c.oldestReader now t.staged with
  | error e =>
      rw [hprepare] at hcommit
      refine .refused e (c.commit_of_active now ht hcommit) (.inl ?_)
      -- what can be run on the contents can be prepared
      cases hrun : contents.run {} t.staged with
      | none => rfl
      | some r =>
          obtain ⟨r', hr'⟩ :
              ∃ r, Store.prepare c.store.current c.oldestReader now t.staged = .ok r :=
            Store.prepare_of_run h.ready h.shows hold hrun
          rw [hprepare] at hr'
          cases hr'
  | ok r =>
      obtain ⟨contents', tally, hrun, hcases⟩ :=
        Store.run_of_prepare h.ready h.shows hold hprepare
      rw [hprepare] at hcommit
      cases r with
      | inl summary =>
          obtain ⟨hnil, hcounts, rfl⟩ := hcases
          refine .nothing summary tally hnil hrun hcounts ?_ (c.commit_of_active now ht hcommit)
          intro p hp
          rw [hprepare] at hp
          cases hp
      | inr p =>
          obtain ⟨hne, hpublishes⟩ := hcases
          cases hframe : p.record.frame? with
          | none =>
              have hrefused := hcommit.trans (Store.complete_of_frame?_eq_none hframe)
              exact .refused _ (c.commit_of_active now ht hrefused)
                (.inr fun hfits => hfits p hprepare hframe)
          | some frame =>
              obtain ⟨s', v', hcomplete, hcalm, hcurrent, -⟩ :=
                Store.complete_willing h.calm hframe
              refine .published p contents' tally s' v' hne hrun hpublishes ?_ hcalm hcurrent
                (c.commit_of_active now ht (hcommit.trans hcomplete))
              intro p' hp'
              rw [hprepare] at hp'
              cases hp'
              rw [hframe]
              nofun

theorem Serial.commitsSerially (h : Serial config c contents) (now : Nat) {t : Transaction}
    (ht : t.state = .active) : CommitsSerially c contents now t := by
  cases h.committing now ht with
  | refused e hcommit hwhy =>
      refine ⟨?_, ?_, ?_, ?_⟩ <;> rw [hcommit]
      · refine ⟨nofun, fun ⟨⟨r, hr⟩, hfits⟩ => ?_⟩
        rcases hwhy with hnone | hnot
        · rw [hnone] at hr
          cases hr
        · exact absurd hfits hnot
      · nofun
      · nofun
      · exact fun _ _ => rfl
  | nothing summary tally hnil hrun hcounts hfits hcommit =>
      refine ⟨?_, ?_, ?_, ?_⟩ <;> rw [hcommit]
      · exact ⟨fun _ => ⟨⟨_, hrun⟩, hfits⟩, fun _ => ⟨summary, rfl⟩⟩
      · intro summary' hs
        cases hs
        exact ⟨contents, tally, hrun, h.shows, hcounts⟩
      · exact fun _ _ hne => absurd hnil hne
      · nofun
  | published p contents' tally s' v' hne hrun hpublishes hfits hcalm hcurrent hcommit =>
      refine ⟨?_, ?_, ?_, ?_⟩ <;> rw [hcommit]
      · exact ⟨fun _ => ⟨⟨_, hrun⟩, hfits⟩, fun _ => ⟨p.summary, rfl⟩⟩
      · intro summary' hs
        cases hs
        dsimp only
        rw [hcurrent]
        exact ⟨contents', tally, hrun, hpublishes.shows, hpublishes.counts⟩
      · intro summary' hs _
        cases hs
        dsimp only
        rw [hcurrent]
        exact ⟨hpublishes.generation, hpublishes.later, hpublishes.timestamp⟩
      · nofun

/-- A transaction that has ended cannot be committed. -/
theorem commit_of_ended (c : Client) (now : Nat) {t : Transaction} (ht : ¬ t.state = .active) :
    c.commit now t =
      (.error (StagingFault.notActive t.id t.state).toError, t, c.store, c.volume) := by
  unfold commit Store.commitTransaction Transaction.ensureActive
  rw [if_neg ht]

/-- Every step leads to contents that the committed buffers lead to. -/
theorem Serial.step (h : Serial config c contents) (event : Event) :
    ∃ contents', Serial config (c.step event) contents' := by
  cases event with
  | begin name id =>
      -- only a commit touches the store and its files
      refine ⟨contents, ?_⟩
      unfold Client.step
      dsimp only
      split <;> exact ⟨h.calm, h.ready, h.shows, h.history⟩
  | stage name call =>
      refine ⟨contents, ?_⟩
      unfold Client.step
      dsimp only
      split
      · exact h
      · split <;> exact ⟨h.calm, h.ready, h.shows, h.history⟩
  | lease name => exact ⟨contents, h.calm, h.ready, h.shows, h.history⟩
  | release name => exact ⟨contents, h.calm, h.ready, h.shows, h.history⟩
  | commit name now =>
      unfold Client.step
      dsimp only
      split
      · exact ⟨contents, h⟩
      · next t _ =>
          by_cases ht : t.state = .active
          · cases h.committing now ht with
            | refused e hcommit hwhy =>
                rw [hcommit]
                exact ⟨contents, h.calm, h.ready, h.shows, h.history⟩
            | nothing summary tally hnil hrun hcounts hfits hcommit =>
                rw [hcommit]
                exact ⟨contents, h.calm, h.ready, h.shows, Contents.runAll_append h.history hrun⟩
            | published p contents' tally s' v' hne hrun hpublishes hfits hcalm hcurrent hcommit =>
                rw [hcommit]
                exact ⟨contents', hcalm, hcurrent ▸ hpublishes.ready, hcurrent ▸ hpublishes.shows,
                  Contents.runAll_append h.history hrun⟩
          · rw [c.commit_of_ended now ht]
            exact ⟨contents, h.calm, h.ready, h.shows, h.history⟩

theorem Serial.run (h : Serial config c contents) (events : List Event) :
    ∃ contents', Serial config (c.run events) contents' := by
  induction events generalizing c contents with
  | nil => exact ⟨contents, h⟩
  | cons event rest ih =>
      obtain ⟨contents₁, h₁⟩ := h.step event
      exact ih h₁

theorem serial_start {s : Store} {v : Volume} (hs : s = Store.fresh config {})
    (hcalm : s.Calm v) : Serial config (start s v) (Contents.initial config) := by
  subst hs
  refine ⟨hcalm, ⟨Snapshot.sound_empty _ _, .new 0⟩, Snapshot.shows_empty _ _, rfl⟩

/-- Whatever a process does with a storage that it has set up, the documents published are those
that the committed buffers make of an empty storage, in the order of their commits, and every
commit of an active transaction acts on these. -/
theorem commits_are_serial (config : Config) (v : Volume) (hv : v.Willing storageFiles)
    (hfresh : v.files = ∅) :
    ∃ s₀ v₀, (Store.create config).run v = (.ok s₀, v₀) ∧ ∀ events,
      ∃ contents, (Contents.initial config).runAll ((start s₀ v₀).run events).committed =
          some contents ∧
        ((start s₀ v₀).run events).store.current.Shows contents ∧
        ((start s₀ v₀).run events).store.current.Consistent ∧
        ∀ name now t, ((start s₀ v₀).run events).transactions.get? name = some t →
          t.state = .active → CommitsSerially ((start s₀ v₀).run events) contents now t := by
  have hcreate := Store.create_willing hv hfresh config
  refine ⟨_, _, hcreate, fun events => ?_⟩
  obtain ⟨contents, h⟩ := (serial_start rfl (Store.calm_fresh hv config)).run events
  exact ⟨contents, h.history, h.shows, h.ready.sound.consistent,
    fun _ now _ _ ht => h.commitsSerially now ht⟩

/-- Two transactions that are open together; one deletes what the other has inserted. -/
def twoWriters : List Event := [
  .begin "first" "t1", .begin "second" "t2",
  .stage "first" (.document "a" { search := [⟨"word", "x", 1⟩] } false),
  .stage "second" (.delete "a"),
  .commit "first" 7, .commit "second" 5]

theorem commits_are_serial_two_writers :
    Volume.memory.Willing storageFiles ∧ Volume.memory.files = ∅ ∧
      ∃ s₀ v₀, (Store.create {}).run .memory = (.ok s₀, v₀) ∧
        ((start s₀ v₀).run twoWriters).committed.map List.length = [1, 1] ∧
        ∃ contents, (Contents.initial {}).runAll ((start s₀ v₀).run twoWriters).committed =
            some contents ∧
          ((start s₀ v₀).run twoWriters).store.current.Shows contents := by
  have hwilling : Volume.memory.Willing storageFiles := ⟨rfl, rfl, fun _ _ => rfl⟩
  obtain ⟨s₀, v₀, hcreate, hserial⟩ := commits_are_serial {} .memory hwilling rfl
  obtain ⟨contents, hcontents, hshows, -⟩ := hserial twoWriters
  have hstart := (Store.create_willing hwilling rfl {}).symm.trans hcreate
  cases hstart
  exact ⟨hwilling, rfl, _, _, hcreate, by decide +kernel, contents, hcontents, hshows⟩

end Client

end Concordance
