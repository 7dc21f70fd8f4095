import Concordance.Proofs.Statistics.Merging
import Concordance.Proofs.Statistics.Resumption
import Concordance.Proofs.Store.Conservation
import Concordance.Proofs.Store.Crash
import Mathlib.Data.List.Nodup

/-!
# Statistics of several storages

A replica may merge the messages of several storages. Each of them draws its timestamps from a clock
and a counter of its own, and nothing in a message says which storage it comes from. So two storages
may come to the same timestamp, and the replica takes a message of the second for one that it has
already seen.

`federation_adds_up_iff` says that this is all that can go wrong: messages in the order of their
times are never refused, and they add up to what the storages have together exactly if no two of the
storages have a record of one timestamp (`Apart`).
-/

namespace Concordance

open Statistics (Record Message Replica TimeStamp total)
open Statistics.History (isAfter isAfter_eq_true_iff isAfter_eq_false_iff)

/-! ## What a storage has announced -/

/-- The records that a storage has announced since it was set up, if after each commit it is asked
for what came after the state before. A storage that is opened again goes on from its state. -/
inductive Announces : Store → List Record → Prop
  | created {config : Config} {s : Store} {v v' : Volume} :
    (Store.create config).run v = (.ok s, v') → Announces s []
  | committed {s s' : Store} {records more : List Record} {oldest : Option Nat} {now : Nat}
    {staged : List StagedOperation} {v v' : Volume} {res : Except Error CommitSummary} :
    Announces s records → s.commit oldest now staged v = (res, s', v') →
    s'.updateStatistics (some s.current.timestamp) = .ok (.update, more) →
    Announces s' (records ++ more)
  | reopened {asked : Config} {s s' : Store} {records : List Record} {v v' : Volume} :
    Announces s records → (Store.open asked).run v = (.ok s', v') → s.SameState s' →
    Announces s' records

namespace Store

open Snapshot

variable {s s' : Store} {records : List Record} {oldest : Option Nat} {now : Nat}
  {staged : List StagedOperation} {v v' : Volume} {res : Except Error CommitSummary}

/-- Records that add up to the state of a store, and a history that has none from after it. -/
structure Traced (records : List Record) (s : Store) : Prop where
  addUp : AddUp records s.current
  dated : s.history.Dated s.current.timestamp
  keeps : 1 ≤ s.history.limit

theorem traced_fresh (config : Config) (journal : Journal) : Traced [] (fresh config journal) :=
  ⟨addUp_empty _ _, Statistics.History.dated_empty _ _, Nat.le_max_right _ _⟩

/-- After a commit the storage can tell what it changed. -/
theorem Traced.commit (h : Traced records s)
    (hrun : s.commit oldest now staged v = (res, s', v')) :
    ∃ more, s'.updateStatistics (some s.current.timestamp) = .ok (.update, more) ∧
      Traced (records ++ more) s' := by
  rcases state_after hrun with ⟨hcurrent, hhistory⟩ | ⟨p, hprepare, hcurrent, hhistory⟩
  · refine ⟨[], ?_, ?_⟩
    · unfold updateStatistics
      rw [hhistory, h.dated.ends.since_eq h.dated.horizon]
      rfl
    · rw [List.append_nil]
      refine ⟨?_, ?_, ?_⟩
      · rw [hcurrent]
        exact h.addUp
      · rw [hcurrent, hhistory]
        exact h.dated
      · rw [hhistory]
        exact h.keeps
  · have hreports := reports_of_prepare hprepare
    have hafter : isAfter (some s.current.timestamp) p.record.statistics.timestamp = true := by
      rw [hreports.timestamp]
      exact isAfter_eq_true_iff.mpr hreports.later
    refine ⟨[p.record.statistics], ?_, ?_, ?_, ?_⟩
    · unfold updateStatistics
      rw [hhistory, h.dated.since_push h.keeps hafter]
      rfl
    · rw [hcurrent]
      exact h.addUp.push hreports
    · rw [hcurrent, hhistory]
      refine (h.dated.mono ?_).push ?_
      · rw [hreports.later]
        nofun
      · rw [hreports.timestamp]
        exact isAfter_eq_false_iff.mpr (by rw [Std.ReflOrd.compare_self]; nofun)
    · rw [hhistory]
      exact h.keeps

/-- A store of the same state has announced the same. -/
theorem Traced.sameState (h : Traced records s) (hsame : s.SameState s') : Traced records s' := by
  refine ⟨⟨fun t => ?_, ?_, h.addUp.later, fun r hr => ?_, h.addUp.ascend⟩, ?_, ?_⟩
  · rw [documentFrequency, hsame.postings]
    exact h.addUp.frequencies t
  · rw [size, hsame.numbers]
    exact h.addUp.documents
  · rw [hsame.timestamp]
    exact h.addUp.latest r hr
  · rw [hsame.timestamp, hsame.history]
    exact h.dated
  · rw [hsame.history]
    exact h.keeps

end Store

variable {s : Store} {records : List Record}

theorem Announces.traced (h : Announces s records) : s.Traced records := by
  induction h with
  | created hrun =>
      obtain ⟨journal, rfl⟩ := Store.fresh_of_create hrun
      exact Store.traced_fresh _ _
  | committed _ hrun hmore ih =>
      obtain ⟨more, hanswer, htraced⟩ := ih.commit hrun
      rw [hanswer] at hmore
      cases hmore
      exact htraced
  | reopened _ _ hsame ih => exact ih.sameState hsame

/-- Whatever a storage commits, it has announced some records. -/
theorem Announces.exists_committed (h : Announces s records) {s' : Store} {oldest : Option Nat}
    {now : Nat} {staged : List StagedOperation} {v v' : Volume} {res : Except Error CommitSummary}
    (hrun : s.commit oldest now staged v = (res, s', v')) :
    ∃ more, Announces s' (records ++ more) := by
  obtain ⟨more, hmore, -⟩ := h.traced.commit hrun
  exact ⟨more, h.committed hrun hmore⟩

/-! ## Peers -/

/-- A storage that takes part in global statistics. -/
structure Peer where
  store : Store
  records : List Record
  announces : Announces store records
  /-- The most changes that it puts into a message. -/
  maxEntries : Nat

namespace Peer

/-- All messages that a peer has sent. -/
def messages (p : Peer) : List Message := p.store.messages (.update, p.records) p.maxEntries

/-- Peers of which no two have a record of one timestamp. -/
def Apart (peers : List Peer) : Prop :=
  peers.Pairwise fun p q => ∀ a ∈ p.records, ∀ b ∈ q.records, a.timestamp ≠ b.timestamp

instance (peers : List Peer) : Decidable (Apart peers) :=
  inferInstanceAs (Decidable (peers.Pairwise _))

variable {p : Peer} {peers : List Peer} {k : Message.Key}

theorem timestamp_of_key (hk : k ∈ p.messages.map (·.key)) :
    ∃ record ∈ p.records, k.timestamp = record.timestamp := by
  obtain ⟨m, hm, rfl⟩ := List.mem_map.mp hk
  obtain ⟨record, hrecord, hkey⟩ := Message.key_splitAll hm
  exact ⟨record, hrecord, congrArg Message.Key.timestamp hkey⟩

theorem first_key_mem {record : Record} (hrecord : record ∈ p.records) :
    ⟨record.timestamp, 0, .update⟩ ∈ p.messages.map (·.key) := by
  obtain ⟨m, hm, hkey⟩ := List.mem_map.mp
    (Message.first_key_mem record .update p.store.config.encoding p.maxEntries)
  exact List.mem_map.mpr ⟨m, List.mem_flatMap.mpr ⟨record, hrecord, hm⟩, hkey⟩

theorem nodup_keys (p : Peer) : (p.messages.map (·.key)).Nodup := by
  have haccepts : Replica.Accepts {} p.messages :=
    Replica.accepts_splitAll p.announces.traced.addUp.later
  exact List.pairwise_map.mpr (haccepts.steps.imp fun h => h.1)

/-- The keys of all messages differ just if the peers are apart: every record has a first message,
whose key has only the timestamp of its own. -/
theorem nodup_keys_iff : ((peers.flatMap messages).map (·.key)).Nodup ↔ Apart peers := by
  rw [List.map_flatMap, List.nodup_flatMap]
  constructor
  · rintro ⟨-, hdisjoint⟩
    refine hdisjoint.imp fun {p q} hpq a ha b hb hsame => ?_
    have hkey := first_key_mem hb
    rw [← hsame] at hkey
    exact hpq (first_key_mem ha) hkey
  · intro hapart
    refine ⟨fun p _ => p.nodup_keys, hapart.imp fun {p q} hpq k hp hq => ?_⟩
    obtain ⟨a, ha, hka⟩ := timestamp_of_key hp
    obtain ⟨b, hb, hkb⟩ := timestamp_of_key hq
    exact hpq a ha b hb (hka.symm.trans hkb)

theorem sendable (p : Peer) (hwords : ∀ r ∈ p.records, r.Fits) : ∀ m ∈ p.messages, m.Sendable :=
  Replica.sendable_splitAll (fun record hrecord =>
    ⟨hwords record hrecord, p.announces.traced.addUp.ascend record hrecord⟩) _ _ _

theorem documents_messages (p : Peer) :
    (p.messages.map (·.documents)).sum = p.store.current.size :=
  (Message.documents_splitAll p.records _ _ _).trans p.announces.traced.addUp.documents

theorem total_messages (p : Peer) (t : Term) :
    total t (p.messages.flatMap (·.changes)) = p.store.current.documentFrequency t := by
  rw [← p.announces.traced.addUp.frequencies t, ← Statistics.total_flatMap]
  exact congrArg (total t) (Message.changes_splitAll p.records _ _ _)

theorem documents_flatMap (peers : List Peer) :
    ((peers.flatMap messages).map (·.documents)).sum =
      (peers.map fun p => (p.store.current.size : Int)).sum := by
  induction peers with
  | nil => rfl
  | cons p rest ih =>
      rw [List.flatMap_cons, List.map_append, List.sum_append, p.documents_messages, ih,
        List.map_cons, List.sum_cons]

theorem total_flatMap (peers : List Peer) (t : Term) :
    total t ((peers.flatMap messages).flatMap (·.changes)) =
      (peers.map fun p => (p.store.current.documentFrequency t : Int)).sum := by
  induction peers with
  | nil => rfl
  | cons p rest ih =>
      rw [List.flatMap_cons, List.flatMap_append, Statistics.total_append, p.total_messages, ih,
        List.map_cons, List.sum_cons]

/-- Whatever the peers have committed: if a replica is brought the blobs of all their messages, each
once and in the order of their times, it refuses none. All of them are new to it and add up to what
the peers have together if and only if no two peers have a record of one timestamp. -/
theorem federation_adds_up_iff {order : List Message}
    (hwords : ∀ p ∈ peers, ∀ r ∈ p.records, r.Fits)
    (hall : order.Perm (peers.flatMap messages))
    (hordered : order.Pairwise fun a b => (compare a.timestamp b.timestamp).isLE = true) :
    ∃ answers r, ({} : Replica).applyBlobs (order.map Statistics.Blob.encode) = .ok (answers, r) ∧
      (((∀ new ∈ answers, new = true) ∧
          r.documents = (peers.map fun p => (p.store.current.size : Int)).sum ∧
          Replica.Tells r.frequencies fun t =>
            (peers.map fun p => (p.store.current.documentFrequency t : Int)).sum) ↔
        Apart peers) := by
  have hsend : ∀ m ∈ order, m.Sendable := by
    intro m hm
    obtain ⟨p, hp, hm⟩ := List.mem_flatMap.mp (hall.mem_iff.mp hm)
    exact p.sendable (hwords p hp) m hm
  obtain ⟨answers, r, happly, hnew, hmerged⟩ :=
    Replica.merged_empty.applyBlobs hsend (by rwa [List.nil_append])
  rw [List.nil_append] at hnew hmerged
  have hapart : (∀ new ∈ answers, new = true) ↔ Apart peers :=
    (hnew.trans (hall.map _).nodup_iff).trans nodup_keys_iff
  refine ⟨answers, r, happly, fun h => hapart.mp h.1, fun h => ?_⟩
  have haccepted := hapart.mpr h
  have hsum := hmerged haccepted
  refine ⟨haccepted, ?_, fun t => ?_⟩
  · rw [hsum.documents, (hall.map _).sum_eq, documents_flatMap]
  · rw [hsum.frequencies t]
    refine congrArg Replica.entry ?_
    dsimp only
    rw [← total_flatMap]
    exact ((hall.flatMap_right _).map _).sum_eq

/-! ## Two peers -/

/-- The volume of a storage that was just set up in memory. -/
def newVolume : Volume :=
  (Volume.memory.setContent configFile
    (Wire.textBytes (Json.renderPretty ({} : Config).toJson))).setContent journalFile []

/-- The first commit of a storage, of a document with one word. -/
def firstCommit (word : String) (now : Nat) : Except Error CommitSummary × Store × Volume :=
  let document : Document := { search := [⟨"word", word, 1⟩] }
  (Store.fresh {} {}).commit none now [.insert "a" document false] newVolume

/-- What a storage announces after its first commit. -/
def firstRecords (s : Store) : List Record :=
  ((s.updateStatistics (some ⟨0, 0⟩)).toOption.map (·.2)).getD []

theorem announces_firstCommit (word : String) (now : Nat) :
    Announces (firstCommit word now).2.1 (firstRecords (firstCommit word now).2.1) := by
  have hcreated : Announces (Store.fresh {} {}) [] :=
    .created (Store.create_willing (v := .memory) ⟨rfl, rfl, fun _ _ => rfl⟩ rfl {})
  rcases hrun : firstCommit word now with ⟨res, s, v⟩
  unfold firstCommit at hrun
  obtain ⟨more, hmore, -⟩ := hcreated.traced.commit hrun
  have hfirst : firstRecords s = more := by
    unfold firstRecords
    rw [show (⟨0, 0⟩ : TimeStamp) = (Store.fresh {} {}).current.timestamp from rfl, hmore]
    rfl
  dsimp only
  rw [hfirst]
  exact hcreated.committed hrun hmore

/-- A peer with one document. -/
def ofWord (word : String) (now : Nat) : Peer :=
  ⟨_, _, announces_firstCommit word now, 1⟩

/-- Two storages that commit one after the other. -/
theorem federation_adds_up_iff_two :
    ∃ answers r, ({} : Replica).applyBlobs (((ofWord "x" 5).messages ++
        (ofWord "y" 6).messages).map Statistics.Blob.encode) = .ok (answers, r) ∧
      (∀ new ∈ answers, new = true) ∧ r.documents = 2 := by
  let peers : List Peer := [ofWord "x" 5, ofWord "y" 6]
  let order : List Message := (ofWord "x" 5).messages ++ (ofWord "y" 6).messages
  have hwords : ∀ p ∈ peers, ∀ r ∈ p.records, r.Fits := by decide +kernel
  have hall : order.Perm (peers.flatMap messages) := .of_eq (by simp [order, peers])
  have hordered : order.Pairwise fun a b => (compare a.timestamp b.timestamp).isLE = true := by
    decide +kernel
  have hapart : Apart peers := by decide +kernel
  have hsizes : (peers.map fun p => (p.store.current.size : Int)).sum = 2 := by decide +kernel
  obtain ⟨answers, r, happly, hiff⟩ := federation_adds_up_iff hwords hall hordered
  obtain ⟨hnew, hdocuments, -⟩ := hiff.mpr hapart
  exact ⟨answers, r, happly, hnew, hdocuments.trans hsizes⟩

/-- Two storages that commit in the same second come to one timestamp. The replica ignores what the
second one has sent. -/
theorem second_peer_ignored :
    let p := ofWord "x" 5
    let q := ofWord "y" 5
    (p.messages ++ q.messages).Pairwise
        (fun a b => (compare a.timestamp b.timestamp).isLE = true) ∧
      ∃ r, ({} : Replica).applyBlobs ((p.messages ++ q.messages).map Statistics.Blob.encode) =
          .ok ([true, false], r) ∧
        r.documents = 1 ∧ (p.store.current.size : Int) + q.store.current.size = 2 ∧
        r.documentFrequency ⟨"word", "y"⟩ = 0 ∧
        q.store.current.documentFrequency ⟨"word", "y"⟩ = 1 := by
  intro p q
  refine ⟨by decide +kernel, ?_⟩
  obtain ⟨⟨answers, r⟩, happly, hfacts⟩ := Fallible.exists_of_toOption_map
    (show ((({} : Replica).applyBlobs ((p.messages ++ q.messages).map
        Statistics.Blob.encode)).toOption.map fun a =>
      (a.1, a.2.documents, a.2.documentFrequency ⟨"word", "y"⟩)) =
        some ([true, false], 1, 0) by decide +kernel)
  obtain ⟨rfl, hdocuments, hfrequency⟩ : _ ∧ _ ∧ _ := by simpa using hfacts
  exact ⟨r, happly, hdocuments, by decide +kernel, hfrequency, by decide +kernel⟩

end Peer

end Concordance
