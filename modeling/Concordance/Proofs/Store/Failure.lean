import Concordance.Proofs.Store.Crash
import Concordance.Proofs.Store.Serial

/-!
# Commits that fail

A commit that fails leaves the store `Untouched`: snapshot, history and the size of the journal are
as they were. There is one exception. When the commit is in the journal, published, and saved in a
checkpoint, it still fails if the journal cannot be emptied (`Strands`): its transaction is aborted
then, and its changes are there.

Otherwise there may be bytes left behind the frames of the journal, and nothing more. Once calls are
no longer refused, a process goes on after the failure just as it would have gone on if the
transaction had been rolled back (`Client.rolled_back_by_failure`), as long as the file of the journal
is there to be cut.
-/

namespace Concordance

open Disk

namespace Store

variable {s s' t : Store} {v v' w : Volume} {oldest : Option Nat} {now : Nat}
  {staged : List StagedOperation} {p : Prepared} {e : Error}

/-- Two stores that hold the same; there may be bytes to cut off in the journal of one of them. -/
structure Untouched (s t : Store) : Prop where
  config : t.config = s.config
  current : t.current = s.current
  history : t.history = s.history
  closed : t.closed = s.closed
  size : t.journal.size = s.journal.size

theorem Untouched.refl (s : Store) : s.Untouched s :=
  ⟨rfl, rfl, rfl, rfl, rfl⟩

/-! ## What fails -/

/-- A commit is stranded: its record is in the journal and its checkpoint is written, but the journal
cannot be emptied. -/
def Strands (s : Store) (oldest : Option Nat) (now : Nat) (staged : List StagedOperation)
    (v : Volume) (p : Prepared) : Prop :=
  s.closed = false ∧ prepare s.current oldest now staged = .ok (.inr p) ∧
    ∃ j v₁ v₂, s.journal.append p.record v = (.ok (), j, v₁) ∧ s.config.cacheSize < j.size ∧
      (Checkpoint.write p.next (s.history.push p.record.statistics)).run v₁ = (.ok (), v₂) ∧
      ∃ e v₃, Journal.reset.run v₂ = (.error e, v₃)

/-- What follows the publication of a commit fails in one place. -/
theorem settle_eq_error :
    s.settle v = (.error e, s', v') ↔ s' = s ∧ s.config.cacheSize < s.journal.size ∧
      ∃ w, (Checkpoint.write s.current s.history).run v = (.ok (), w) ∧
        Journal.reset.run w = (.error e, v') := by
  constructor
  · intro hrun
    unfold settle at hrun
    split at hrun
    · cases hrun
    · next hlarge =>
        split at hrun
        · next w hwrite =>
            unfold resetJournal at hrun
            split at hrun
            · cases hrun
            · next hreset =>
                cases hrun
                exact ⟨rfl, Nat.lt_of_not_le hlarge, w, hwrite, hreset⟩
        · cases hrun
  · rintro ⟨rfl, hlarge, w, hwrite, hreset⟩
    unfold settle
    rw [if_neg (Nat.not_le.mpr hlarge), hwrite]
    dsimp only
    rw [resetJournal, hreset]

/-- A commit that fails has left the store alone, or is stranded. -/
theorem untouched_or_strands (hrun : s.commit oldest now staged v = (.error e, s', v')) :
    s.Untouched s' ∨ ∃ p, s.Strands oldest now staged v p := by
  -- a closed store refuses the commit before anything changes
  have hopened : ∀ p, prepare s.current oldest now staged = .ok (.inr p) → s' ≠ s →
      s.closed = false := by
    intro p hprepare hne
    cases hclosed : s.closed with
    | false => rfl
    | true =>
        have hrefused : s.ensureOpen = .error (.invalidOperation "storage is closed") := by
          rw [ensureOpen, if_pos hclosed]
        unfold commit at hrun
        rw [hrefused] at hrun
        cases hrun
        exact absurd rfl hne
  rcases commit_cases hrun with ⟨rfl, -⟩ | ⟨p, hprepare, hcases⟩
  · exact .inl (.refl _)
  rcases hcases with ⟨e', j, happend, -, rfl⟩ | ⟨j, w, r, happend, hsettle, hr⟩
  · exact .inl ⟨rfl, rfl, rfl, rfl, Journal.size_of_append_error happend⟩
  · cases r with
    | ok u => cases hr
    | error e' =>
        obtain ⟨hs', hlarge, w', hwrite, hreset⟩ := settle_eq_error.mp hsettle
        by_cases hne : s' = s
        · exact .inl (hne ▸ .refl s)
        · exact .inr ⟨p, hopened p hprepare hne, hprepare, j, w, w', happend, hlarge, hwrite, e',
            v', hreset⟩

/-- A stranded commit fails, but it has been published. -/
theorem commit_of_strands (h : s.Strands oldest now staged v p) :
    ∃ e j v', s.commit oldest now staged v =
      (.error e, ({ s with journal := j } : Store).publish p, v') := by
  obtain ⟨hopened, hprepare, j, v₁, v₂, happend, hlarge, hwrite, e, v₃, hreset⟩ := h
  refine ⟨e, j, v₃, ?_⟩
  rw [commit_of_opened hopened, hprepare]
  have hsettle : (({ s with journal := j } : Store).publish p).settle v₁ =
      (.error e, ({ s with journal := j } : Store).publish p, v₃) :=
    settle_eq_error.mpr ⟨rfl, hlarge, v₂, hwrite, hreset⟩
  show s.complete p v = _
  unfold complete
  rw [happend]
  dsimp only
  rw [hsettle]
  rfl

theorem generation_of_resolve {base base' : Snapshot} {summary summary' : CommitSummary}
    {change : StagedOperation} {op : Operation}
    (hresolve : resolve base summary change = .ok (summary', base', op)) :
    base'.generation = base.generation := by
  cases change with
  | insert id document update =>
      unfold resolve at hresolve
      dsimp only at hresolve
      cases hnumber : base.number? id with
      | none =>
          rw [hnumber] at hresolve
          cases hresolve
          rfl
      | some number =>
          rw [hnumber] at hresolve
          dsimp only at hresolve
          split at hresolve <;> cases hresolve
          rfl
  | _ =>
      cases hresolve
      rfl

theorem generation_of_execution {x y : Execution} (hexec : staged.foldlM executeOne x = .ok y) :
    y.snapshot.generation = x.snapshot.generation := by
  induction staged generalizing x with
  | nil =>
      cases hexec
      rfl
  | cons first rest ih =>
      rw [List.foldlM_cons] at hexec
      obtain ⟨z, hfirst, hrest⟩ := Fallible.bind_eq_ok.mp hexec
      obtain ⟨⟨summary, base, op⟩, hresolve, happlied⟩ := Fallible.bind_eq_ok.mp hfirst
      obtain ⟨⟨touched, next⟩, happly, heq⟩ := Fallible.bind_eq_ok.mp happlied
      cases heq
      rw [ih hrest]
      exact (parked_of_apply (Fallible.mapError_eq_ok.mp happly)).1.trans
        (generation_of_resolve hresolve)

/-- Every commit is of the next generation. -/
theorem generation_of_prepare (hprepare : prepare s.current oldest now staged = .ok (.inr p)) :
    p.next.generation = s.current.generation + 1 := by
  unfold prepare execute at hprepare
  obtain ⟨x, hexec, hrest⟩ := Fallible.bind_eq_ok.mp hprepare
  split at hrest
  · cases hrest
  · cases hrest
    exact generation_of_execution hexec

/-- A commit that fails has left the store alone if and only if it is not stranded. -/
theorem untouched_iff (hrun : s.commit oldest now staged v = (.error e, s', v')) :
    s.Untouched s' ↔ ¬ ∃ p, s.Strands oldest now staged v p := by
  constructor
  · rintro huntouched ⟨p, hstrands⟩
    obtain ⟨e', j, w, hcommit⟩ := commit_of_strands hstrands
    rw [hrun] at hcommit
    cases hcommit
    -- the published snapshot is of the next generation
    have hnext := generation_of_prepare hstrands.2.1
    rw [show p.next = s.current from huntouched.current] at hnext
    omega
  · intro hnone
    exact (untouched_or_strands hrun).resolve_right hnone

end Store

/-! ## Going on afterwards -/

/-- A volume that refuses nothing and has the file of the journal. -/
structure Volume.Sturdy (v : Volume) : Prop extends v.Willing storageFiles where
  journal : ∃ content, v.files.get? journalFile = some content

namespace Journal

variable {v : Volume} {j : Journal} {r : CommitRecord} {frame : List UInt8}

theorem writeSynced_sturdy (h : v.Sturdy) (frame : List UInt8) :
    ∃ v', (writeSynced frame).run v = (.ok (), v') ∧ v'.Sturdy := by
  obtain ⟨content, hfile⟩ := h.journal
  obtain ⟨v', hrun, hwilling⟩ := writeSynced_willing h.toWilling (by decide) frame
  refine ⟨v', hrun, hwilling, content ++ frame, ?_⟩
  rcases leaves_writeSynced hfile frame v rfl with ⟨_, w, hwrite, hfiles⟩ | ⟨e, w, hwrite, -⟩
  · rw [hrun] at hwrite
    cases hwrite
    rw [hfiles, SortedMap.get?_insert, if_pos rfl]
  · rw [hrun] at hwrite
    cases hwrite

theorem rollBack_sturdy (h : v.Sturdy) (j : Journal) :
    ∃ v', j.rollBack.run v = (.ok { j with needsRollback := false }, v') ∧ v'.Sturdy := by
  obtain ⟨content, hfile⟩ := h.journal
  have hcut : ∃ bytes, (truncate journalFile j.size).run v =
      (.ok (), v.setContent journalFile bytes) := by
    unfold truncate
    rw [run_bind_of_ok (run_pass_of_no_plan h.plan _),
      run_bind_of_ok (show (get : Disk Volume).run v = (.ok v, v) from rfl), hfile]
    dsimp only
    cases v.place with
    | memory => exact ⟨_, rfl⟩
    | directory path => exact ⟨_, rfl⟩
  obtain ⟨bytes, hcut⟩ := hcut
  refine ⟨v.setContent journalFile bytes, ?_, h.setContent _ _, bytes, ?_⟩
  · unfold rollBack
    rw [run_bind_of_ok hcut]
    rfl
  · rw [Volume.get?_setContent, if_pos rfl]

/-- On a volume that refuses nothing, what the journal holds does not matter for an append. -/
theorem append_sturdy (h : v.Sturdy) (j : Journal) (hframe : r.frame? = some frame) :
    ∃ v', j.append r v = (.ok (), { size := j.size + frame.length }, v') ∧ v'.Sturdy := by
  have happend : ∀ {w : Volume} {i : Journal}, w.Sturdy → i.needsRollback = false →
      ∃ v', i.appendFrame frame w = (.ok (), { size := i.size + frame.length }, v') ∧
        v'.Sturdy := by
    intro w i hw hi
    obtain ⟨v', hrun, hsturdy⟩ := writeSynced_sturdy hw frame
    refine ⟨v', ?_, hsturdy⟩
    obtain ⟨size, needsRollback⟩ := i
    cases hi
    unfold appendFrame
    rw [hrun]
  unfold append
  rw [hframe]
  dsimp only
  cases hneeds : j.needsRollback with
  | false =>
      rw [if_neg nofun]
      exact happend h hneeds
  | true =>
      -- the file is there, so what stands behind the frames is cut off
      obtain ⟨v₁, hcut, hsturdy⟩ := rollBack_sturdy h j
      rw [if_pos rfl, hcut]
      exact happend hsturdy rfl

end Journal

namespace Store

variable {s s' t : Store} {v v' w : Volume} {oldest : Option Nat} {now : Nat}
  {staged : List StagedOperation} {p : Prepared} {frame : List UInt8}

/-- The journal that is left when a checkpoint is due or not. -/
def journalAfter (config : Config) (j : Journal) : Journal :=
  if j.size ≤ config.cacheSize then j else {}

theorem settle_sturdy (h : v.Sturdy) (s : Store) :
    ∃ v', s.settle v = (.ok (), { s with journal := journalAfter s.config s.journal }, v') ∧
      v'.Sturdy := by
  unfold settle journalAfter
  split
  · exact ⟨v, rfl, h⟩
  · obtain ⟨v₁, hwrite, hwilling⟩ := Checkpoint.write_willing h.toWilling s.current s.history
    obtain ⟨v₂, hreset, hwilling₂⟩ := Journal.reset_willing hwilling
    refine ⟨v₂, ?_, hwilling₂, [], ?_⟩
    · rw [hwrite]
      dsimp only
      rw [resetJournal, hreset]
    · rcases Journal.leaves_reset v₁ rfl with ⟨j, w, hrun, -, hfiles⟩ | ⟨e, w, hrun, -⟩
      · rw [hreset] at hrun
        cases hrun
        rw [hfiles, SortedMap.get?_insert, if_pos rfl]
      · rw [hreset] at hrun
        cases hrun

theorem complete_sturdy (h : v.Sturdy) (s : Store) (hframe : p.record.frame? = some frame) :
    ∃ v', s.complete p v = (.ok p.summary, ({ s with
      journal := journalAfter s.config { size := s.journal.size + frame.length } } : Store).publish p,
        v') ∧ v'.Sturdy := by
  obtain ⟨v₁, happend, hsturdy⟩ := Journal.append_sturdy h s.journal hframe
  obtain ⟨v₂, hsettle, hsturdy₂⟩ := settle_sturdy hsturdy
    (({ s with journal := { size := s.journal.size + frame.length } } : Store).publish p)
  refine ⟨v₂, ?_, hsturdy₂⟩
  unfold complete
  rw [happend]
  dsimp only
  rw [hsettle]
  rfl

/-- A commit has the same outcome on stores that hold the same. -/
theorem Untouched.commit (h : s.Untouched t) (hv : v.Sturdy) (hw : w.Sturdy)
    (oldest : Option Nat) (now : Nat) (staged : List StagedOperation) :
    ∃ r s' v' t' w', s.commit oldest now staged v = (r, s', v') ∧
      t.commit oldest now staged w = (r, t', w') ∧ s'.Untouched t' ∧ v'.Sturdy ∧ w'.Sturdy := by
  have hready : (do t.ensureOpen; prepare t.current oldest now staged) =
      (do s.ensureOpen; prepare s.current oldest now staged) := by
    rw [ensureOpen, ensureOpen, h.closed, h.current]
  unfold Store.commit
  rw [hready]
  cases (do s.ensureOpen; prepare s.current oldest now staged) with
  | error e => exact ⟨_, s, v, t, w, rfl, rfl, h, hv, hw⟩
  | ok r =>
      cases r with
      | inl summary => exact ⟨_, s, v, t, w, rfl, rfl, h, hv, hw⟩
      | inr p =>
          cases hframe : p.record.frame? with
          | none =>
              exact ⟨_, s, v, t, w, complete_of_frame?_eq_none hframe,
                complete_of_frame?_eq_none hframe, h, hv, hw⟩
          | some frame =>
              obtain ⟨v', hs, hv'⟩ := complete_sturdy hv s hframe
              obtain ⟨w', ht, hw'⟩ := complete_sturdy hw t hframe
              refine ⟨_, _, v', _, w', hs, ht, ⟨h.config, rfl, ?_, h.closed, ?_⟩, hv', hw'⟩
              · show t.history.push _ = s.history.push _
                rw [h.history]
              · show (journalAfter t.config { size := t.journal.size + frame.length }).size = _
                rw [h.config, h.size]
                rfl

end Store

namespace Client

/-- Two processes that hold the same. -/
structure Alongside (c d : Client) : Prop where
  store : c.store.Untouched d.store
  transactions : d.transactions = c.transactions
  readers : d.readers = c.readers
  committed : d.committed = c.committed

/-- Two processes that hold the same, on volumes that refuse nothing. -/
structure Together (c d : Client) : Prop extends Alongside c d where
  left : c.volume.Sturdy
  right : d.volume.Sturdy

variable {c d : Client}

theorem Alongside.oldestReader_eq (h : c.Alongside d) : d.oldestReader = c.oldestReader := by
  rw [oldestReader, oldestReader, h.readers]

/-- A commit has one outcome in both processes. -/
theorem Together.commit (h : c.Together d) (now : Nat) (t : Transaction) :
    ∃ r t' s v s' v', c.commit now t = (r, t', s, v) ∧ d.commit now t = (r, t', s', v') ∧
      s.Untouched s' ∧ v.Sturdy ∧ v'.Sturdy := by
  by_cases ht : t.state = .active
  · obtain ⟨r, s, v, s', v', hc, hd, hsame, hv, hv'⟩ :=
      h.store.commit h.left h.right c.oldestReader now t.staged
    rw [← h.oldestReader_eq] at hd
    exact ⟨r, _, s, v, s', v', c.commit_of_active now ht hc, d.commit_of_active now ht hd, hsame,
      hv, hv'⟩
  · exact ⟨_, t, c.store, c.volume, d.store, d.volume, c.commit_of_ended now ht,
      d.commit_of_ended now ht, h.store, h.left, h.right⟩

theorem Together.step (h : c.Together d) (event : Event) : (c.step event).Together (d.step event) := by
  cases event with
  | begin name id =>
      have hbegin : d.store.begin id = c.store.begin id := by
        unfold Store.begin Store.ensureOpen
        rw [h.store.closed, h.store.current]
      unfold Client.step
      dsimp only
      rw [hbegin, h.transactions]
      split
      · exact ⟨⟨h.store, rfl, h.readers, h.committed⟩, h.left, h.right⟩
      · exact h
  | stage name call =>
      unfold Client.step
      dsimp only
      rw [h.transactions, h.store.config]
      split
      · exact h
      · split
        · exact ⟨⟨h.store, rfl, h.readers, h.committed⟩, h.left, h.right⟩
        · exact h
  | commit name now =>
      unfold Client.step
      dsimp only
      rw [h.transactions]
      split
      · exact h
      · next t hget =>
          obtain ⟨r, t', s, v, s', v', hc, hd, hsame, hv, hv'⟩ := h.commit now t
          rw [hc, hd]
          dsimp only
          exact ⟨⟨hsame, rfl, h.readers, by rw [h.committed]⟩, hv, hv'⟩
  | lease name =>
      refine ⟨⟨h.store, h.transactions, ?_, h.committed⟩, h.left, h.right⟩
      show d.readers.insert name d.store.current.generation = _
      rw [h.readers, h.store.current]
      rfl
  | release name =>
      refine ⟨⟨h.store, h.transactions, ?_, h.committed⟩, h.left, h.right⟩
      show d.readers.erase name = _
      rw [h.readers]
      rfl

theorem Together.run (h : c.Together d) (events : List Event) :
    (c.run events).Together (d.run events) := by
  induction events generalizing c d with
  | nil => exact h
  | cons event rest ih => exact ih (h.step event)

/-- Whatever two processes do on volumes that refuse nothing, they go on to hold the same, and their
commits answer the same. -/
def SameCourse (c d : Client) : Prop :=
  ∀ v w : Volume, v.Sturdy → w.Sturdy → ∀ events : List Event,
    (({ c with volume := v } : Client).run events).Alongside
        (({ d with volume := w } : Client).run events) ∧
      ∀ now t, ((({ c with volume := v } : Client).run events).commit now t).1 =
        ((({ d with volume := w } : Client).run events).commit now t).1

theorem Alongside.sameCourse (h : c.Alongside d) : c.SameCourse d := by
  intro v w hv hw events
  have htogether : ({ c with volume := v } : Client).Together { d with volume := w } :=
    ⟨⟨h.store, h.transactions, h.readers, h.committed⟩, hv, hw⟩
  have hrun := htogether.run events
  refine ⟨hrun.toAlongside, fun now t => ?_⟩
  obtain ⟨r, t', s, v', s', w', hc, hd, -⟩ := hrun.commit now t
  rw [hc, hd]

/-- When a commit fails its transaction is aborted, and neither readers nor the buffers committed
before change. The store is untouched exactly if the commit is not stranded, and a stranded commit
has been published. An untouched process takes the same course as if the transaction had been rolled
back. -/
theorem rolled_back_by_failure {name : String} {t : Transaction} {now : Nat} {e : Error}
    (hget : c.transactions.get? name = some t) (hactive : t.state = .active)
    (hfails : (c.commit now t).1 = .error e) {c' : Client}
    (hc' : c.step (.commit name now) = c') :
    c'.transactions = c.transactions.insert name { t with state := .aborted, staged := [] } ∧
      c'.readers = c.readers ∧ c'.committed = c.committed ∧
      (c.store.Untouched c'.store ↔
        ¬ ∃ p, c.store.Strands c.oldestReader now t.staged c.volume p) ∧
      (∀ p, c.store.Strands c.oldestReader now t.staged c.volume p →
        c'.store.current = p.next ∧ c'.store.history = c.store.history.push p.record.statistics) ∧
      ((¬ ∃ p, c.store.Strands c.oldestReader now t.staged c.volume p) →
        c'.SameCourse (c.step (.stage name .rollback))) := by
  rcases hrun : c.store.commit c.oldestReader now t.staged c.volume with ⟨r, s', v'⟩
  have hcommit := c.commit_of_active now hactive hrun
  rw [hcommit] at hfails
  cases (show r = .error e from hfails)
  have hstep : c.step (.commit name now) = { c with
      store := s'
      volume := v'
      transactions := c.transactions.insert name { t with state := .aborted, staged := [] } } := by
    unfold Client.step
    dsimp only
    rw [hget]
    dsimp only
    rw [hcommit]
    rfl
  have hrollback : c.step (.stage name .rollback) = { c with
      transactions := c.transactions.insert name { t with state := .aborted, staged := [] } } := by
    unfold Client.step
    dsimp only
    rw [hget]
    dsimp only
    unfold Staging.run Transaction.rollback Transaction.ensureActive
    rw [if_pos hactive]
    rfl
  rw [hstep] at hc'
  subst hc'
  have hiff := Store.untouched_iff hrun
  refine ⟨rfl, rfl, rfl, hiff, ?_, ?_⟩
  · intro p hstrands
    obtain ⟨e', j, w, hcommit'⟩ := Store.commit_of_strands hstrands
    rw [hrun] at hcommit'
    cases hcommit'
    exact ⟨rfl, rfl⟩
  · intro hnone
    rw [hrollback]
    have hsame := hiff.mpr hnone
    exact Alongside.sameCourse ⟨⟨hsame.config.symm, hsame.current.symm, hsame.history.symm,
      hsame.closed.symm, hsame.size.symm⟩, rfl, rfl, rfl⟩

/-- A storage that writes a checkpoint with every commit, as it is set up in a place. -/
def setUp (place : Place) : Client :=
  start (.fresh { cacheSize := 0 } {}) {
    place
    files := .ofList [
      (configFile, Wire.textBytes (Json.renderPretty ({ cacheSize := 0 } : Config).toJson)),
      (journalFile, [])] }

/-- A transaction that inserts a document. -/
def inserting (id : String) : List Event := [
  .begin "writer" id,
  .stage "writer" (.document id { search := [⟨"word", "x", 1⟩] } false)]

/-- A process whose next calls have given outcomes. -/
def planned (c : Client) (plan : List (DiskCall × Outcome)) : Client :=
  { c with volume := { c.volume with plan } }

/-- The transaction with one staged document. -/
def insertion (id : String) : Transaction where
  id
  staged := [.insert id { search := [⟨"word", "x", 1⟩] } false]
  schema := .empty

/-- A commit whose record is torn and cannot be cut off at once. -/
theorem rolled_back_by_failure_torn :
    ∃ (c c' : Client) (e : Error),
      c.transactions.get? "writer" = some (insertion "a") ∧
      (c.commit 7 (insertion "a")).1 = .error e ∧ c.step (.commit "writer" 7) = c' ∧
      c'.store.journal.needsRollback = true ∧ c.store.Untouched c'.store ∧
      c'.SameCourse (c.step (.stage "writer" .rollback)) := by
  let c : Client := ((setUp .memory).run (inserting "a")).planned [
    (.write, .room 20 (.io "No space left on device")), (.truncate, .fails (.io "Input/output error"))]
  have hget : c.transactions.get? "writer" = some (insertion "a") := rfl
  obtain ⟨e, he⟩ : ∃ e, (c.commit 7 (insertion "a")).1 = .error e := by
    have hfails : (c.commit 7 (insertion "a")).1.toOption.isSome = false := by decide +kernel
    cases hr : (c.commit 7 (insertion "a")).1 with
    | error e => exact ⟨e, rfl⟩
    | ok summary =>
        rw [hr] at hfails
        cases hfails
  obtain ⟨-, -, -, hiff, hpublished, hcourse⟩ := rolled_back_by_failure hget rfl he rfl
  -- a stranded commit would have published the next generation
  have hgeneration : (c.step (.commit "writer" 7)).store.current.generation = 0 := by
    decide +kernel
  have hnone : ¬ ∃ p, c.store.Strands c.oldestReader 7 (insertion "a").staged c.volume p := by
    rintro ⟨p, hstrands⟩
    have hnext := Store.generation_of_prepare hstrands.2.1
    rw [← (hpublished p hstrands).1, hgeneration] at hnext
    omega
  have hspoilt : (c.step (.commit "writer" 7)).store.journal.needsRollback = true := by
    decide +kernel
  exact ⟨c, _, e, hget, he, rfl, hspoilt, hiff.mpr hnone, hcourse hnone⟩

/-- Commits that fail and leave more than an aborted transaction. The journal cannot be emptied, and
the document is there. Or the journal's file is lost while a commit fails that would have made a new
one; then no later commit makes one either, as it would without that commit. -/
theorem failed_commits_leave_traces :
    (∃ c : Client, c.transactions.get? "writer" = some (insertion "a") ∧
      c.store.current.number? "a" = none ∧ c.store.journal.size = 0 ∧
      (c.commit 7 (insertion "a")).1.isOk = false ∧
      (c.commit 7 (insertion "a")).2.1.state = .aborted ∧
      (c.commit 7 (insertion "a")).2.2.1.current.number? "a" = some 1 ∧
      (c.commit 7 (insertion "a")).2.2.1.journal.size ≠ 0) ∧
    ∃ (c : Client) (v : Volume), v.Willing storageFiles ∧
      ((c.step (.commit "writer" 7)).transactions.get? "writer").map (·.state) = some .aborted ∧
      (({ c.step (.commit "writer" 7) with volume := v } : Client).run
        (inserting "c" ++ [.commit "writer" 7])).store.current.number? "c" = none ∧
      (({ c.step (.stage "writer" .rollback) with volume := v } : Client).run
        (inserting "c" ++ [.commit "writer" 7])).store.current.number? "c" = some 2 := by
  constructor
  · let c : Client := ((setUp .memory).run (inserting "a")).planned [
      (.create, .passes), (.create, .fails (.io "Input/output error"))]
    exact ⟨c, rfl, by decide +kernel, rfl, by decide +kernel, by decide +kernel, by decide +kernel,
      by decide +kernel⟩
  · let first := (setUp (.directory "s")).run (inserting "a" ++ [.commit "writer" 7])
    let lost : Volume := { first.volume with files := first.volume.files.erase journalFile }
    let c : Client := ({ first with volume := { lost with folders := [journalFile] } } : Client).run
      (inserting "b")
    have hwilling : lost.Willing storageFiles :=
      ⟨by decide +kernel, by decide +kernel, by decide +kernel⟩
    exact ⟨c, lost, hwilling, by decide +kernel, by decide +kernel, by decide +kernel⟩

end Client

end Concordance
