import Concordance.Proofs.Statistics.Merging
import Concordance.Proofs.Store.Timeline

/-!
# Registration

A replica that does not know the past of a storage is fed its full table instead: one record with
all document frequencies, as of the time of the state. From there on it takes the records of later
commits, and when the storage leaves it is fed the full table once more, negated.

The three add up because they keep apart in time or in origin. No record of a history is from after
the state (`Life.dated`), so what a storage tells of the time after the full table are just the
records of the commits that followed (`Since`). The negated table has the time of the last of them,
or of the full table itself, and is told from both by its origin. So a registration that is taken
back leaves nothing (`Client.registration_cancels`).
-/

namespace Concordance

open Statistics (Record Change Message Replica Origin Encoding total)
open Statistics.History (isAfter_eq_true_iff)

/-! ## Taking blobs -/

namespace Statistics.Replica

/-- A replica is brought the blobs of messages, and all of them are new to it. -/
def Takes (r : Replica) (messages : List Message) (r' : Replica) : Prop :=
  r.applyBlobs (messages.map Blob.encode) = .ok (messages.map fun _ => true, r')

variable {r : Replica} {earlier : List Message} {records : List Record} {origin : Origin}
  {encoding : Encoding} {maxEntries : Nat}

/-- Messages of records that follow one another are taken if each is new. -/
theorem Merged.takes (h : Merged r earlier) (hlater : Later records)
    (hsend : ∀ record ∈ records, record.Sendable)
    (hfresh : ∀ m ∈ Message.splitAll records origin encoding maxEntries, r.Fresh m) :
    ∃ r', r.Takes (Message.splitAll records origin encoding maxEntries) r' ∧
      Merged r' (earlier ++ Message.splitAll records origin encoding maxEntries) := by
  have haccepts : Accepts r (Message.splitAll records origin encoding maxEntries) :=
    ⟨fun m hm => ⟨(hfresh m hm).key, (hfresh m hm).timestamp⟩, (accepts_splitAll hlater).steps⟩
  exact ⟨_, applyBlobs_encode (sendable_splitAll hsend _ _ _) haccepts, h.accepts haccepts⟩

end Statistics.Replica

namespace Store

open Snapshot

/-! ## The full table -/

theorem fullRecord_ascend (s : Snapshot) (register : Bool) :
    (fullRecord s register).changes.Pairwise fun a b => compare a.term b.term = .lt := by
  unfold fullRecord termStatistics
  dsimp only
  rw [List.map_map]
  exact List.pairwise_map.mpr s.postings.ascending

theorem mem_fullRecord {s : Snapshot} {register : Bool} {c : Change} :
    c ∈ (fullRecord s register).changes ↔ ∃ p, s.postings.get? c.term = some p ∧
      c.increment = (if register then 1 else -1) * (p.documentFrequency : Int) := by
  unfold fullRecord termStatistics
  dsimp only
  rw [List.map_map, List.mem_map]
  constructor
  · rintro ⟨⟨t, p⟩, hp, rfl⟩
    exact ⟨p, SortedMap.mem_toList.mp hp, rfl⟩
  · rintro ⟨p, hp, hincrement⟩
    exact ⟨(c.term, p), SortedMap.mem_toList.mpr hp, congrArg (Change.mk c.term) hincrement.symm⟩

/-- The full table has every document frequency, negated or not. -/
theorem total_fullRecord (s : Snapshot) (register : Bool) (t : Term) :
    total t (fullRecord s register).changes =
      (if register then 1 else -1) * (s.documentFrequency t : Int) := by
  rw [documentFrequency]
  cases hget : s.postings.get? t with
  | none =>
      refine (Statistics.total_of_not_mem fun c hc => ?_).trans (Int.mul_zero _).symm
      rintro rfl
      obtain ⟨p, hp, -⟩ := mem_fullRecord.mp hc
      rw [hget] at hp
      cases hp
  | some p =>
      exact Statistics.total_of_ascend (fullRecord_ascend s register)
        (mem_fullRecord (c := ⟨t, _⟩).mpr ⟨p, hget, rfl⟩)

theorem sendable_fullRecord {s : Snapshot} {register : Bool}
    (hfits : (fullRecord s register).Fits) :
    ∀ record ∈ [fullRecord s register], record.Sendable := by
  intro record hrecord
  rw [List.mem_singleton.mp hrecord]
  exact ⟨hfits, fullRecord_ascend s register⟩

/-- The full table tells a snapshot all at once. -/
theorem addUp_fullRecord (s : Snapshot) : AddUp [fullRecord s true] s where
  frequencies t := by
    rw [List.map_singleton, List.sum_singleton, total_fullRecord]
    exact Int.one_mul _
  documents := by
    rw [List.map_singleton, List.sum_singleton]
    exact Int.one_mul _
  later := List.pairwise_singleton _ _
  latest r hr := by
    rw [List.mem_singleton.mp hr, show (fullRecord s true).timestamp = s.timestamp from rfl,
      Std.ReflOrd.compare_self]
    nofun
  ascend r hr := by
    rw [List.mem_singleton.mp hr]
    exact fullRecord_ascend s true

/-- The messages of the full table have the time of the state, and an origin of their own. -/
theorem key_fullRecord {s : Store} {register : Bool} {maxEntries : Nat} {m : Message}
    (hm : m ∈ s.messages (s.initialStatistics register) maxEntries) :
    m.key = ⟨s.current.timestamp, m.part, if register then .register else .deregister⟩ := by
  obtain ⟨record, hrecord, hkey⟩ := Message.key_splitAll hm
  rw [List.mem_singleton.mp hrecord] at hkey
  exact hkey

/-! ## Commits after it -/

variable {base : Snapshot} {newer : List Record} {s s' : Store} {v v' : Volume}
  {oldest : Option Nat} {now : Nat} {staged : List StagedOperation}
  {res : Except Error CommitSummary}

/-- A store that has come from a snapshot by commits with these records. -/
structure Since (base : Snapshot) (newer : List Record) (s : Store) : Prop where
  addUp : AddUp (fullRecord base true :: newer) s.current
  ends : s.history.Ends base.timestamp newer

theorem since_self (hdated : s.history.Dated s.current.timestamp) : Since s.current [] s :=
  ⟨addUp_fullRecord s.current, hdated.ends⟩

/-- A commit adds its record or none. -/
theorem Since.commit (h : Since base newer s)
    (hrun : s.commit oldest now staged v = (res, s', v')) :
    ∃ more, Since base (newer ++ more) s' := by
  rcases state_after hrun with ⟨hcurrent, hhistory⟩ | ⟨p, hprepare, hcurrent, hhistory⟩
  · refine ⟨[], ?_, ?_⟩
    · rw [List.append_nil, hcurrent]
      exact h.addUp
    · rw [List.append_nil, hhistory]
      exact h.ends
  · have hreports := reports_of_prepare hprepare
    have hlatest := h.addUp.latest _ List.mem_cons_self
    refine ⟨[p.record.statistics], ?_, ?_⟩
    · rw [hcurrent]
      exact h.addUp.push hreports
    · rw [hhistory]
      refine h.ends.push (isAfter_eq_true_iff.mpr ?_)
      rw [hreports.timestamp]
      exact Std.TransCmp.lt_of_isLE_of_lt (Ordering.isLE_iff_ne_gt.mpr hlatest) hreports.later

/-- What a store tells of the time after the snapshot are the records of these commits. -/
theorem Since.updateStatistics (h : Since base newer s) {statistics : Origin × List Record}
    (hanswer : s.updateStatistics (some base.timestamp) = .ok statistics) :
    statistics = (.update, newer) := by
  unfold Store.updateStatistics at hanswer
  obtain ⟨records, hsince, heq⟩ := Fallible.bind_eq_ok.mp hanswer
  cases heq
  rw [h.ends.since (Fallible.mapError_eq_ok.mp hsince)]

end Store

namespace Client

open Store Statistics.Replica

variable {r : Replica} {messages earlier : List Message} {base : Snapshot}
  {records newer : List Record} {s : Store} {v : Volume}

/-- A replica that has merged what adds up to a snapshot has what the snapshot has. -/
theorem replicates_of_merged (h : Merged r messages) (haddUp : AddUp records base)
    (hdocuments : (messages.map (·.documents)).sum = (records.map (·.documents)).sum)
    (hchanges : messages.flatMap (·.changes) = records.flatMap (·.changes)) :
    Replicates r base := by
  refine replicates_iff.mpr ⟨?_, fun t => ?_⟩
  · rw [h.documents, hdocuments, haddUp.documents]
  · rw [h.frequencies t, hchanges]
    dsimp only
    rw [Statistics.total_flatMap, haddUp.frequencies t]

/-- A replica that has merged nothing takes the full table. -/
theorem takes_registration (s : Store) (hfits : (fullRecord s.current true).Fits)
    (maxEntries : Nat) :
    ∃ r, ({} : Replica).Takes (s.messages (s.initialStatistics true) maxEntries) r ∧
      Merged r (s.messages (s.initialStatistics true) maxEntries) ∧
      r.lastApplied = some s.current.timestamp := by
  obtain ⟨r, htakes, hmerged⟩ :
      ∃ r, ({} : Replica).Takes (s.messages (s.initialStatistics true) maxEntries) r ∧
        Merged r (s.messages (s.initialStatistics true) maxEntries) :=
    merged_empty.takes (addUp_fullRecord s.current).later (sendable_fullRecord hfits)
      fun m _ => ⟨by simp, nofun⟩
  refine ⟨r, htakes, hmerged, hmerged.lastApplied_of_same_time ?_ fun m hm => ?_⟩
  · intro hnil
    have hfirst := Message.first_key_mem (fullRecord s.current true) .register s.config.encoding
      maxEntries
    change Message.splitAll [fullRecord s.current true] .register s.config.encoding maxEntries = []
      at hnil
    rw [Message.splitAll_cons] at hnil
    rw [(List.append_eq_nil_iff.mp hnil).1] at hfirst
    cases hfirst
  · exact congrArg Message.Key.timestamp (key_fullRecord hm)

/-- A replica of the full table takes the records of the commits after it. -/
theorem takes_update (h : Merged r earlier) (hlast : r.lastApplied = some base.timestamp)
    (hsince : Since base newer s) (hwords : ∀ record ∈ newer, record.Fits) (maxEntries : Nat) :
    ∃ r', r.Takes (s.messages (.update, newer) maxEntries) r' ∧
      Merged r' (earlier ++ s.messages (.update, newer) maxEntries) := by
  obtain ⟨hafter, hlater⟩ := List.pairwise_cons.mp hsince.addUp.later
  refine h.takes hlater (fun record hrecord => ⟨hwords record hrecord, ?_⟩) fun m hm => ?_
  · exact hsince.addUp.ascend record (List.mem_cons_of_mem _ hrecord)
  · obtain ⟨record, hrecord, hkey⟩ := Message.key_splitAll hm
    refine h.fresh_of_newer fun last hbase => ?_
    rw [hlast] at hbase
    cases hbase
    rw [show m.timestamp = record.timestamp from congrArg Message.Key.timestamp hkey]
    exact hafter record hrecord

section Update

variable {s' : Store} {maxEntries maxEntries' : Nat}

/-- The full table and the records of the commits after it make up what the storage has. -/
theorem replicates_of_update
    (h : Merged r (s.messages (s.initialStatistics true) maxEntries ++
      s'.messages (.update, newer) maxEntries'))
    (hsince : Since s.current newer s') : Replicates r s'.current := by
  refine replicates_of_merged h hsince.addUp ?_ ?_
  · rw [List.map_append, List.sum_append, List.map_cons, List.sum_cons]
    exact congrArg₂ (· + ·) (Message.documents_splitAll [fullRecord s.current true] _ _ _)
      (Message.documents_splitAll newer _ _ _)
  · rw [List.flatMap_append, ← List.singleton_append, List.flatMap_append]
    exact congrArg₂ (· ++ ·) (Message.changes_splitAll [fullRecord s.current true] _ _ _)
      (Message.changes_splitAll newer _ _ _)

/-- None of the messages so far is taken for one of the negated table. -/
theorem key_of_update {k : Message.Key}
    (hk : k ∈ (s.messages (s.initialStatistics true) maxEntries ++
      s'.messages (.update, newer) maxEntries').map (·.key)) :
    k.origin ≠ .deregister ∧
      ∃ record ∈ fullRecord s.current true :: newer, k.timestamp = record.timestamp := by
  obtain ⟨m, hm, rfl⟩ := List.mem_map.mp hk
  rcases List.mem_append.mp hm with hm | hm
  · rw [key_fullRecord hm]
    exact ⟨nofun, _, List.mem_cons_self, rfl⟩
  · obtain ⟨record, hrecord, hkey⟩ := Message.key_splitAll hm
    rw [hkey]
    exact ⟨nofun, record, List.mem_cons_of_mem _ hrecord, rfl⟩

end Update

/-- A replica that has what a storage has takes its negated table, and then has nothing. -/
theorem takes_deregistration (h : Merged r earlier) (hreplicates : Replicates r s.current)
    (horigin : ∀ k ∈ earlier.map (·.key), k.origin ≠ .deregister)
    (htimely : ∀ k ∈ earlier.map (·.key), compare k.timestamp s.current.timestamp ≠ .gt)
    (hfits : (fullRecord s.current false).Fits) (maxEntries : Nat) :
    ∃ r', r.Takes (s.messages (s.initialStatistics false) maxEntries) r' ∧
      r'.documents = 0 ∧ r'.frequencies = ∅ := by
  have hfresh : ∀ m ∈ s.messages (s.initialStatistics false) maxEntries, r.Fresh m := by
    intro m hm
    have hkey := key_fullRecord hm
    refine ⟨fun hseen => ?_, fun last hlast => ?_⟩
    · refine horigin m.key ((h.seen m.key).mp hseen).2 ?_
      rw [hkey]
      rfl
    · obtain ⟨a, ha, rfl⟩ := h.last_mem hlast
      rw [isBefore_eq_false_iff, Ordering.isLE_iff_ne_gt,
        show m.timestamp = s.current.timestamp from congrArg Message.Key.timestamp hkey]
      exact htimely a.key (List.mem_map_of_mem ha)
  obtain ⟨r', htakes, hmerged⟩ :=
    h.takes (List.pairwise_singleton _ _) (sendable_fullRecord hfits) hfresh
  obtain ⟨hdocuments, htells⟩ := replicates_iff.mp hreplicates
  refine ⟨r', htakes, ?_, SortedMap.ext_get? fun t => ?_⟩
  · rw [hmerged.documents, List.map_append, List.sum_append, ← h.documents, hdocuments,
      Message.documents_splitAll, List.map_singleton, List.sum_singleton]
    show (s.current.size : Int) + -1 * s.current.size = 0
    omega
  · have hbefore : total t (earlier.flatMap (·.changes)) = s.current.documentFrequency t :=
      (h.frequencies.getD t).symm.trans (htells.getD t)
    have hnegated := total_fullRecord s.current false t
    rw [hmerged.frequencies t]
    dsimp only
    rw [List.flatMap_append, Statistics.total_append, hbefore, Message.changes_splitAll,
      List.flatMap_singleton, hnegated, if_neg Bool.false_ne_true, Int.neg_one_mul,
      Int.add_right_neg]
    rfl

/-- Whatever the life of a storage was, a replica takes its full table and then has the number of
documents and the document frequencies of the storage. After any further events of the process it
takes what the storage tells of the time after the table, if that can still be told, and has what
the storage has then. If it is then fed the negated table, it takes that too and nothing is left. -/
theorem registration_cancels (h : s.Life v) (hfits : (fullRecord s.current true).Fits)
    (maxEntries : Nat) :
    ∃ r, ({} : Replica).Takes (s.messages (s.initialStatistics true) maxEntries) r ∧
      Replicates r s.current ∧ r.lastApplied = some s.current.timestamp ∧
      ∀ (w : Volume) (events : List Event) (s' : Store) (statistics : Origin × List Record),
        ((start s w).run events).store = s' →
        s'.updateStatistics r.lastApplied = .ok statistics →
        (∀ record ∈ statistics.2, record.Fits) → ∀ maxEntries,
        ∃ r', r.Takes (s'.messages statistics maxEntries) r' ∧ Replicates r' s'.current ∧
          ((fullRecord s'.current false).Fits → ∀ maxEntries,
            ∃ r'', r'.Takes (s'.messages (s'.initialStatistics false) maxEntries) r'' ∧
              r''.documents = 0 ∧ r''.frequencies = ∅) := by
  obtain ⟨r, htakes, hmerged, hlast⟩ := takes_registration s hfits maxEntries
  refine ⟨r, htakes, ?_, hlast, ?_⟩
  · exact replicates_of_merged hmerged (addUp_fullRecord s.current)
      (Message.documents_splitAll _ _ _ _) (Message.changes_splitAll _ _ _ _)
  intro w events s' statistics hrun hanswer hwords maxEntries'
  obtain ⟨newer, hsince⟩ : ∃ newer, Since s.current newer s' := by
    rw [← hrun]
    exact store_of_run (P := fun s' => ∃ newer, Since s.current newer s')
      (fun ⟨_, hsince⟩ hrun => (hsince.commit hrun).imp' _ fun _ h => h)
      ⟨[], since_self h.dated⟩ events
  rw [hlast] at hanswer
  obtain rfl := hsince.updateStatistics hanswer
  obtain ⟨r', htakes', hmerged'⟩ := takes_update hmerged hlast hsince hwords maxEntries'
  have hreplicates := replicates_of_update hmerged' hsince
  refine ⟨r', htakes', hreplicates, fun hfits' maxEntries'' => ?_⟩
  refine takes_deregistration hmerged' hreplicates (fun k hk => (key_of_update hk).1)
    (fun k hk => ?_) hfits' maxEntries''
  obtain ⟨-, record, hrecord, htime⟩ := key_of_update hk
  rw [htime]
  exact hsince.addUp.latest record hrecord

/-- A document is added and the first one is deleted. -/
def replacement : List Event := [
  .begin "writer" "t",
  .stage "writer" (.document "b" (wordDocument "y") false),
  .stage "writer" (.delete "a"),
  .commit "writer" 5]

set_option maxRecDepth 4000 in
/-- A storage with a document is registered, brought up to date and taken back. -/
theorem registration_cancels_replacement :
    ∃ (s s' : Store) (v : Volume) (r r' r'' : Replica), s.Life v ∧
      s.current.documentFrequency ⟨"word", "x"⟩ = 1 ∧ Replicates r s.current ∧
      s'.current.documentFrequency ⟨"word", "x"⟩ = 0 ∧
      s'.current.documentFrequency ⟨"word", "y"⟩ = 1 ∧ Replicates r' s'.current ∧
      r'.Takes (s'.messages (s'.initialStatistics false) 1) r'' ∧ r''.documents = 0 := by
  let staged : List StagedOperation := [.insert "a" (wordDocument "x") false]
  let v : Volume := (Volume.memory.setContent configFile
    (Wire.textBytes (Json.renderPretty ({} : Config).toJson))).setContent journalFile []
  let first := (fresh {} {}).commit none 7 staged v
  have hcreate := create_willing (v := .memory) ⟨rfl, rfl, fun _ _ => rfl⟩ rfl {}
  have hready : Snapshot.Ready 0 (fresh {} {}).current := ⟨Snapshot.sound_empty _ _, .new 0⟩
  have hcommit : (fresh {} {}).commit none 7 staged v = (first.1, first.2.1, first.2.2) := rfl
  have hlife : first.2.1.Life first.2.2 := by
    refine .committed (.created rfl rfl hcreate) rfl (fun p hprepare => ?_) hcommit
    have hfits : (fresh {} {}).Fits p := by
      obtain ⟨q, hq, hfits⟩ : ∃ q, prepare (fresh {} {}).current none 7 staged = .ok (.inr q) ∧
          (fresh {} {}).Fits q := ⟨_, rfl, by decide +kernel⟩
      cases hq.symm.trans hprepare
      exact hfits
    have hnext := (head_of_prepare hready (fun _ _ => Nat.zero_le _) hprepare).1
    exact ⟨hfits.files hnext ⟨nofun, nofun⟩, fun _ _ => Nat.zero_le _⟩
  let s' := ((start first.2.1 first.2.2).run replacement).store
  obtain ⟨r, -, hr, hlast, hmore⟩ := registration_cancels hlife (by decide +kernel) 1
  obtain ⟨statistics, hanswer, hwords⟩ := Fallible.exists_of_toOption_map
    (show ((s'.updateStatistics (some first.2.1.current.timestamp)).toOption.map fun statistics =>
      decide (∀ record ∈ statistics.2, record.Fits)) = some true by decide +kernel)
  rw [← hlast] at hanswer
  obtain ⟨r', -, hr', hleave⟩ :=
    hmore _ _ s' statistics rfl hanswer (of_decide_eq_true hwords) 1
  obtain ⟨r'', htakes, hnothing, -⟩ := hleave (by decide +kernel) 1
  exact ⟨_, s', _, r, r', r'', hlife, by decide +kernel, hr, by decide +kernel, by decide +kernel,
    hr', htakes, hnothing⟩

end Client

end Concordance
