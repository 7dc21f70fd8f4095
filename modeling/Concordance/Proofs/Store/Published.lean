import Concordance.Proofs.Store.Crash
import Concordance.Proofs.Store.Serial

/-!
# Published snapshots

A snapshot is `Published` if a process that has set up a storage, on any volume, comes to it by any
transactions that are staged and committed in any order. Such a snapshot is sound, and its documents
have all their terms at positions from 1 to `maxPosition`: transactions let no others through.
-/

namespace Concordance

/-- A change that transactions let through: its terms stand at positions that documents have. -/
def StagedOperation.Positioned : StagedOperation → Prop
  | .insert _ document _ => ∀ o ∈ document.search, 1 ≤ o.position ∧ o.position ≤ maxPosition
  | _ => True

/-- A stored document all of whose search terms have positions. -/
def StoredDocument.Positioned (stored : StoredDocument) : Prop :=
  ∀ t positions, stored.search.get? t = some positions →
    positions ≠ [] ∧ ∀ p ∈ positions, 1 ≤ p ∧ p ≤ maxPosition

namespace Snapshot

/-- A snapshot of documents that have positions. -/
def Positioned (s : Snapshot) : Prop :=
  ∀ d stored, s.documents.get? d = some stored → stored.Positioned

variable {s s' : Snapshot} {touched : List Term}

theorem SameAt.search_eq {d : Nat} (h : SameAt d s s') {stored' : StoredDocument}
    (hget : s'.documents.get? d = some stored') : s.documents.get? d = some stored' := by
  rw [← hget]
  exact h.stored.symm

/-- Where the search terms of a document come from: an insertion under its number, or the document
that the number had before. -/
theorem search_of_apply (h : s.Sound) {op : Operation} (hop : s.Unclaimed op)
    (happly : s.apply op = .ok (touched, s')) {d : Nat} {stored' : StoredDocument}
    (hget : s'.documents.get? d = some stored') :
    (∃ id document, op = .insert d id document ∧
        stored' = StoredDocument.ofDocument id document s.accessControl) ∨
      ∃ stored, s.documents.get? d = some stored ∧ stored'.search = stored.search := by
  cases op with
  | insert number id document =>
      obtain ⟨hnumber, hfree⟩ := hop
      by_cases hd : d = number
      · subst hd
        obtain ⟨record, -, hholds⟩ := holds_insert h hnumber hfree happly
        have hnew := hholds.stored
        rw [hget] at hnew
        exact .inl ⟨id, document, rfl, Option.some.inj hnew⟩
      · exact .inr ⟨stored', (sameAt_insert h hnumber hfree happly hd).search_eq hget, rfl⟩
  | delete id =>
      obtain ⟨number, numbering, hrel, -, -⟩ := delete_eq_ok.mp happly
      have hnumber := (Numbering.release_eq_some hrel).1
      by_cases hd : d = number
      · subst hd
        have hnone := (holds_delete h hnumber happly).stored
        rw [hget] at hnone
        cases hnone
      · exact .inr ⟨stored', (sameAt_delete h hnumber happly hd).search_eq hget, rfl⟩
  | deleteUser user =>
      cases happly
      have hholds := (holds_deleteUser user (h.holds d)).stored
      rw [hget] at hholds
      cases hentry : s.entryAt? d with
      | none =>
          rw [hentry] at hholds
          cases hholds
      | some e =>
          rw [hentry] at hholds
          refine .inr ⟨e.stored, ?_, ?_⟩
          · rw [(h.holds d).stored, hentry]
            rfl
          · rw [Option.some.inj hholds]
            rfl
  | define schema =>
      rw [Snapshot.apply] at happly
      split at happly <;> cases happly
      exact .inr ⟨stored', hget, rfl⟩
  | alter alterations =>
      obtain ⟨table, -, hs'⟩ := Fallible.bind_eq_ok.mp happly
      cases hs'
      exact .inr ⟨stored', hget, rfl⟩

theorem positioned_ofDocument {id : String} {document : Document} {update keepAccess : Bool}
    (h : (StagedOperation.insert id document update).Positioned) :
    (StoredDocument.ofDocument id document keepAccess).Positioned := by
  intro t positions hget
  obtain ⟨hne, hmem⟩ := StoredDocument.search_ofDocument hget
  refine ⟨hne, fun p hp => ?_⟩
  obtain ⟨o, ho, -, rfl⟩ := (hmem p).mp hp
  exact h o ho

/-- A change that is let through leaves documents with positions. -/
theorem Positioned.apply (hpositioned : s.Positioned) (h : s.Sound) {staged : StagedOperation}
    (hstaged : staged.Positioned)
    (happly : s.apply (s.operationFor staged) = .ok (touched, s')) : s'.Positioned := by
  intro d stored' hget
  rcases search_of_apply h (unclaimed_operationFor h staged) happly hget with
    ⟨id, document, hop, rfl⟩ | ⟨stored, hstored, hsearch⟩
  · cases staged with
    | insert id' document' update =>
        cases hop
        exact positioned_ofDocument hstaged
    | _ => cases hop
  · unfold StoredDocument.Positioned
    rw [hsearch]
    exact hpositioned d stored hstored

end Snapshot

namespace Store

open Snapshot

variable {floor now : Nat} {oldest : Option Nat} {staged : List StagedOperation} {s s' : Store}
  {v v' : Volume}

theorem positioned_of_execution {e e' : Execution} (h : Ready floor e.snapshot)
    (hpositioned : e.snapshot.Positioned) (hstaged : ∀ op ∈ staged, op.Positioned)
    (hexec : staged.foldlM executeOne e = .ok e') : e'.snapshot.Positioned :=
  keeps_of_execution (fun hready hkeeps hop happly => hkeeps.apply hready.sound hop happly) h
    hpositioned hstaged hexec

/-- A commit of changes that were let through. -/
theorem positioned_of_prepare {base : Snapshot} {p : Prepared} (h : Ready floor base)
    (hold : ∀ g, oldest = some g → floor ≤ g) (hpositioned : base.Positioned)
    (hstaged : ∀ op ∈ staged, op.Positioned)
    (hprepare : prepare base oldest now staged = .ok (.inr p)) : p.next.Positioned := by
  unfold prepare execute at hprepare
  obtain ⟨e, hexec, hrest⟩ := Fallible.bind_eq_ok.mp hprepare
  have hnext : e.snapshot.Positioned :=
    positioned_of_execution (ready_successor h hold) hpositioned hstaged hexec
  split at hrest
  · cases hrest
  · cases hrest
    exact hnext

/-- Whether it succeeds or fails, a commit leaves snapshot and history as they were, or publishes
what it prepared. -/
theorem state_after {res : Except Error CommitSummary}
    (hrun : s.commit oldest now staged v = (res, s', v')) :
    (s'.current = s.current ∧ s'.history = s.history) ∨
      ∃ p, prepare s.current oldest now staged = .ok (.inr p) ∧ s'.current = p.next ∧
        s'.history = s.history.push p.record.statistics := by
  rcases commit_cases hrun with ⟨rfl, -⟩ | ⟨p, hprepare, ⟨e, j, -, -, rfl⟩ | ⟨j, w, r, -, hsettle, -⟩⟩
  · exact .inl ⟨rfl, rfl⟩
  · exact .inl ⟨rfl, rfl⟩
  · obtain ⟨j', rfl, -⟩ := settle_leaves hsettle
    exact .inr ⟨p, hprepare, rfl, rfl⟩

/-- A new storage is empty, whatever was on its volume. -/
theorem fresh_of_create {config : Config} (hrun : (create config).run v = (.ok s, v')) :
    ∃ journal, s = fresh config journal := by
  unfold create at hrun
  cases hconfig : (writeConfig config).run v with
  | mk r w =>
      cases r with
      | error e =>
          rw [Disk.run_bind_of_error hconfig] at hrun
          cases hrun
      | ok u =>
          rw [Disk.run_bind_of_ok hconfig] at hrun
          cases hopen : Journal.open.run w with
          | mk r w' =>
              cases r with
              | error e =>
                  rw [Disk.run_bind_of_error hopen] at hrun
                  cases hrun
              | ok opened =>
                  rw [Disk.run_bind_of_ok hopen] at hrun
                  cases hrun
                  exact ⟨opened.1, rfl⟩

end Store

namespace Transaction

/-- What a transaction has staged, it has let through. -/
theorem positioned_of_run {accessControl : Bool} {t t' : Transaction} {call : Staging}
    (h : ∀ op ∈ t.staged, op.Positioned) (hrun : call.run accessControl t = .ok t') :
    ∀ op ∈ t'.staged, op.Positioned := by
  have hstage : ∀ {op : StagedOperation}, op.Positioned →
      ∀ op' ∈ t.staged ++ [op], op'.Positioned := by
    intro op hop op' hmem
    rcases List.mem_append.mp hmem with hmem | hmem
    · exact h op' hmem
    · rw [List.mem_singleton.mp hmem]
      exact hop
  cases call with
  | document id doc update =>
      unfold Staging.run stageDocument at hrun
      dsimp only at hrun
      obtain ⟨-, -, hrun⟩ := Fallible.bind_eq_ok.mp hrun
      split at hrun
      · cases hrun
      · split at hrun
        · cases hrun
        · next hnone =>
            obtain ⟨-, -, hrun⟩ := Fallible.bind_eq_ok.mp hrun
            cases hrun
            refine hstage fun o ho => ?_
            have hsearch : o ∈ doc.search := by
              split at ho <;> exact ho
            have hposition := List.find?_eq_none.mp hnone o (List.mem_append_left _ hsearch)
            simpa [isPosition, Nat.one_le_iff_ne_zero] using hposition
  | delete id =>
      obtain ⟨-, -, hrun⟩ := Fallible.bind_eq_ok.mp hrun
      cases hrun
      exact hstage trivial
  | deleteUser user =>
      obtain ⟨-, -, hrun⟩ := Fallible.bind_eq_ok.mp hrun
      cases hrun
      exact hstage trivial
  | define schema =>
      obtain ⟨-, -, hrun⟩ := Fallible.bind_eq_ok.mp hrun
      cases hrun
      exact hstage trivial
  | alter alterations =>
      obtain ⟨-, -, hrun⟩ := Fallible.bind_eq_ok.mp hrun
      obtain ⟨altered, -, hrun⟩ := Fallible.bind_eq_ok.mp hrun
      cases hrun
      exact hstage trivial
  | rollback =>
      obtain ⟨-, -, hrun⟩ := Fallible.bind_eq_ok.mp hrun
      cases hrun
      simp

end Transaction

namespace Client

open Snapshot

/-- What holds of a process between its steps, whatever its volume does. -/
structure Steadfast (c : Client) : Prop where
  ready : Ready 0 c.store.current
  positioned : c.store.current.Positioned
  staged : ∀ name t, c.transactions.get? name = some t → ∀ op ∈ t.staged, op.Positioned

variable {c : Client}

/-- A transaction that takes the place of another one has let through what it has staged. -/
theorem Steadfast.insert (h : c.Steadfast) {t : Transaction} (ht : ∀ op ∈ t.staged, op.Positioned)
    (name : String) :
    ∀ name' t', (c.transactions.insert name t).get? name' = some t' →
      ∀ op ∈ t'.staged, op.Positioned := by
  intro name' t' hget
  rw [SortedMap.get?_insert] at hget
  split at hget
  · cases hget
    exact ht
  · exact h.staged name' t' hget

/-- The snapshot that a commit leaves. -/
theorem Steadfast.commit (h : c.Steadfast) {name : String} {t : Transaction}
    (hget : c.transactions.get? name = some t) (now : Nat) :
    Ready 0 (c.commit now t).2.2.1.current ∧ (c.commit now t).2.2.1.current.Positioned ∧
      ∀ op ∈ (c.commit now t).2.1.staged, op.Positioned := by
  have hold : ∀ g, c.oldestReader = some g → 0 ≤ g := fun g _ => Nat.zero_le g
  by_cases ht : t.state = .active
  · rcases hrun : c.store.commit c.oldestReader now t.staged c.volume with ⟨r, s', v'⟩
    rw [c.commit_of_active now ht hrun]
    dsimp only
    rcases Store.state_after hrun with ⟨hsame, -⟩ | ⟨p, hprepare, hnext, -⟩
    · rw [hsame]
      exact ⟨h.ready, h.positioned, by simp⟩
    · rw [hnext]
      obtain ⟨hready, -⟩ := Store.head_of_prepare h.ready hold hprepare
      exact ⟨hready, Store.positioned_of_prepare h.ready hold h.positioned (h.staged name t hget)
        hprepare, by simp⟩
  · rw [c.commit_of_ended now ht]
    exact ⟨h.ready, h.positioned, h.staged name t hget⟩

theorem Steadfast.step (h : c.Steadfast) (event : Event) : (c.step event).Steadfast := by
  cases event with
  | begin name id =>
      unfold Client.step
      dsimp only
      split
      · next t hbegin =>
          obtain ⟨-, -, hbegin⟩ := Fallible.bind_eq_ok.mp hbegin
          cases hbegin
          exact ⟨h.ready, h.positioned, h.insert (by simp) name⟩
      · exact h
  | stage name call =>
      unfold Client.step
      dsimp only
      split
      · exact h
      · next t hget =>
          split
          · next t' hrun =>
              exact ⟨h.ready, h.positioned,
                h.insert (Transaction.positioned_of_run (h.staged name t hget) hrun) name⟩
          · exact h
  | commit name now =>
      unfold Client.step
      dsimp only
      split
      · exact h
      · next t hget =>
          obtain ⟨hready, hpositioned, hstaged⟩ := h.commit hget now
          exact ⟨hready, hpositioned, h.insert hstaged name⟩
  | lease name => exact ⟨h.ready, h.positioned, h.staged⟩
  | release name => exact ⟨h.ready, h.positioned, h.staged⟩

theorem Steadfast.run (h : c.Steadfast) (events : List Event) : (c.run events).Steadfast := by
  induction events generalizing c with
  | nil => exact h
  | cons event rest ih => exact ih (h.step event)

theorem steadfast_start {config : Config} {s : Store} {v v' : Volume}
    (hcreate : (Store.create config).run v = (.ok s, v')) : (start s v').Steadfast := by
  obtain ⟨journal, rfl⟩ := Store.fresh_of_create hcreate
  exact ⟨⟨sound_empty _ _, .new 0⟩, nofun, nofun⟩

end Client

/-! ## Published snapshots -/

/-- A snapshot that a process comes to after it has set up a storage. -/
def Snapshot.Published (s : Snapshot) : Prop :=
  ∃ config v₀ store v events, (Store.create config).run v₀ = (.ok store, v) ∧
    ((Client.start store v).run events).store.current = s

theorem Snapshot.Published.sound_and_positioned {s : Snapshot} (h : s.Published) :
    s.Sound ∧ s.Positioned := by
  obtain ⟨config, v₀, store, v, events, hcreate, rfl⟩ := h
  have hsteadfast := (Client.steadfast_start hcreate).run events
  exact ⟨hsteadfast.ready.sound, hsteadfast.positioned⟩

theorem Snapshot.Published.ready {s : Snapshot} (h : s.Published) : s.Ready 0 := by
  obtain ⟨config, v₀, store, v, events, hcreate, rfl⟩ := h
  exact ((Client.steadfast_start hcreate).run events).ready

end Concordance
