import Concordance.Proofs.Catalog.Alike
import Concordance.Proofs.Catalog.Frame
import Concordance.Store.Basic

/-!
# Repeating commits

A commit executes staged changes; opening a storage repeats the operations that the journal kept of
them. The two go different ways: a live commit frees numbers and hands them out, its repetition is
given the numbers. On twins they lead to twins (`replay_of_prepare`), and commits that a checkpoint
already holds are skipped. The statistics of repeated commits rebuild the history
(`Statistics.History.restore_append`).
-/

namespace Concordance

namespace Store

open Snapshot

variable {floor : Nat} {base t : Snapshot} {oldest : Option Nat} {now : Nat}
  {staged : List StagedOperation} {p : Prepared} {records : List Statistics.Record}

/-- The operations of an execution can be applied to every snapshot alike, with the same outcome. -/
theorem applyAll_of_execution {e e' : Execution} (h : Ready floor e.snapshot)
    (hexec : staged.foldlM executeOne e = .ok e') (halike : e.snapshot.Alike t) (ht : t.Sound) :
    ∃ ops touched t', e'.operations = e.operations ++ ops ∧ applyAll t ops = .ok (touched, t') ∧
      e'.snapshot.Alike t' ∧ t'.Sound ∧ t'.generation = t.generation ∧
      t'.timestamp = t.timestamp := by
  induction staged generalizing e t with
  | nil =>
      cases hexec
      exact ⟨[], [], t, (List.append_nil _).symm, rfl, halike, ht, rfl, rfl⟩
  | cons first rest ih =>
      rw [List.foldlM_cons] at hexec
      obtain ⟨e₁, hfirst, hrest⟩ := Fallible.bind_eq_ok.mp hexec
      obtain ⟨-, touched, s₁, happly, rfl⟩ := (executeOne_eq_ok h.sound).mp hfirst
      have hop := unclaimed_operationFor h.sound first
      -- the operation does the same to the snapshot alike
      obtain ⟨touched₁, t₁, happly₁, halike₁, ht₁⟩ := halike.apply h.sound ht hop happly
      obtain ⟨hgeneration₁, htimestamp₁, -⟩ := head_of_apply ht (halike.unclaimed hop) happly₁
      obtain ⟨ops, touched₂, t', hops, happlyAll, halike', ht', hgeneration, htimestamp⟩ :=
        ih (h.apply happly) hrest halike₁ ht₁
      refine ⟨e.snapshot.operationFor first :: ops, touched₁ ++ touched₂, t', ?_, ?_, halike', ht',
        hgeneration.trans hgeneration₁, htimestamp.trans htimestamp₁⟩
      · rw [hops]
        simp [Execution.extend]
      · unfold applyAll
        rw [happly₁]
        exact Fallible.bind_of_ok happlyAll _

/-- Repeating a commit on a twin of the snapshot that it started from leads to a twin of the
snapshot that it published. -/
theorem replay_of_prepare (h : Ready floor base) (hold : ∀ g, oldest = some g → floor ≤ g)
    (hprepare : prepare base oldest now staged = .ok (.inr p)) (htwin : base.Twin t)
    (ht : t.Sound) (records : List Statistics.Record) :
    ∃ t', replay (t, records) p.record = .ok (t', records ++ [p.record.statistics]) ∧
      p.next.Twin t' ∧ t'.Sound := by
  obtain ⟨-, hgeneration, -, -⟩ := head_of_prepare h hold hprepare
  unfold prepare execute at hprepare
  obtain ⟨e, hexec, hrest⟩ := Fallible.bind_eq_ok.mp hprepare
  split at hrest
  · cases hrest
  · cases hrest
    -- a repetition starts with the head of the commit
    let t₀ : Snapshot :=
      { t with generation := e.snapshot.generation, timestamp := base.timestamp.next now }
    have halike : (successor base oldest).Alike t₀ :=
      ⟨htwin.accessControl, htwin.numbers, htwin.ids, htwin.next, htwin.schema, htwin.entries⟩
    have ht₀ : t₀.Sound := ht.of_eq ht.numbering rfl rfl rfl rfl rfl
    obtain ⟨ops, touched, t', hops, happly, halike', ht', hgeneration', htimestamp'⟩ :=
      applyAll_of_execution (ready_successor h hold) hexec halike ht₀
    change e.operations = [] ++ ops at hops
    rw [List.nil_append] at hops
    have hlater : ¬ e.snapshot.generation ≤ t.generation := by
      have hbase := htwin.generation
      change e.snapshot.generation = base.generation + 1 at hgeneration
      omega
    refine ⟨t', ?_, ⟨⟨halike'.accessControl, halike'.numbers, halike'.ids, halike'.next,
      halike'.schema, halike'.entries⟩, hgeneration', htimestamp'⟩, ht'⟩
    unfold replay
    dsimp only
    rw [if_neg hlater, hops]
    exact Fallible.bind_of_ok happly _

/-- Commits that a snapshot already holds are skipped. -/
theorem replay_skips {commits : List CommitRecord}
    (hold : ∀ r ∈ commits, r.generation ≤ t.generation) :
    commits.foldlM replay (t, records) = .ok (t, records) := by
  induction commits with
  | nil => rfl
  | cons r rest ih =>
      have hr := hold r List.mem_cons_self
      have hskip : replay (t, records) r = .ok (t, records) := by
        unfold replay
        dsimp only
        rw [if_pos hr]
        rfl
      rw [List.foldlM_cons, hskip]
      exact ih fun x hx => hold x (List.mem_cons_of_mem _ hx)

/-! ## Generations and timestamps of repetitions -/

theorem frame_applyAll {s s' : Snapshot} {ops : List Operation} {touched : List Term}
    (happly : applyAll s ops = .ok (touched, s')) : Frame touched s s' := by
  induction ops generalizing s touched with
  | nil =>
      cases happly
      exact .refl [] _
  | cons op rest ih =>
      obtain ⟨⟨touched₁, s₁⟩, hfirst, happly⟩ := Fallible.bind_eq_ok.mp happly
      obtain ⟨⟨touched₂, s₂⟩, hrest, heq⟩ := Fallible.bind_eq_ok.mp happly
      cases heq
      exact (frame_apply (Fallible.mapError_eq_ok.mp hfirst)).trans (ih hrest)

/-- A commit is skipped, or repeated with its generation and timestamp. -/
theorem replay_cases {t' : Snapshot} {records' : List Statistics.Record} {r : CommitRecord}
    (hreplay : replay (t, records) r = .ok (t', records')) :
    (r.generation ≤ t.generation ∧ t' = t ∧ records' = records) ∨
      (t.generation < r.generation ∧ t'.generation = r.generation ∧ t'.timestamp = r.timestamp ∧
        records' = records ++ [r.statistics]) := by
  unfold replay at hreplay
  dsimp only at hreplay
  split at hreplay
  · next hknown =>
      cases hreplay
      exact .inl ⟨hknown, rfl, rfl⟩
  · next hlater =>
      obtain ⟨⟨touched, s⟩, happly, heq⟩ := Fallible.bind_eq_ok.mp hreplay
      cases heq
      have hframe := frame_applyAll happly
      exact .inr ⟨Nat.lt_of_not_le hlater, hframe.generation, hframe.timestamp, rfl⟩

/-- Repeated commits lead to a generation that none of them is beyond. -/
theorem generation_of_replays {t' : Snapshot} {records' : List Statistics.Record}
    {commits : List CommitRecord}
    (hreplays : commits.foldlM replay (t, records) = .ok (t', records')) :
    t.generation ≤ t'.generation ∧ ∀ c ∈ commits, c.generation ≤ t'.generation := by
  induction commits generalizing t records with
  | nil =>
      cases hreplays
      exact ⟨Nat.le_refl _, nofun⟩
  | cons r rest ih =>
      rw [List.foldlM_cons] at hreplays
      obtain ⟨⟨t₁, records₁⟩, hfirst, hrest⟩ := Fallible.bind_eq_ok.mp hreplays
      obtain ⟨hle, hall⟩ := ih hrest
      have hstep : t.generation ≤ t₁.generation ∧ r.generation ≤ t₁.generation := by
        rcases replay_cases hfirst with ⟨hknown, rfl, -⟩ | ⟨hlater, hgeneration, -⟩
        · exact ⟨Nat.le_refl _, hknown⟩
        · omega
      refine ⟨Nat.le_trans hstep.1 hle, fun c hc => ?_⟩
      rcases List.mem_cons.mp hc with rfl | hc
      · exact Nat.le_trans hstep.2 hle
      · exact hall c hc

/-! ## Numbers parked by repetitions -/

/-- An operation parks numbers under the generation of its commit only. -/
theorem parked_of_apply {s s' : Snapshot} {op : Operation} {touched : List Term}
    (happly : s.apply op = .ok (touched, s')) :
    s'.generation = s.generation ∧
      ∀ e ∈ s'.numbering.parked, e ∈ s.numbering.parked ∨ e.1 = s.generation := by
  cases op with
  | insert number id doc =>
      obtain ⟨record, -, hrest⟩ := Fallible.bind_eq_ok.mp happly
      split at hrest
      · cases hrest
        exact ⟨rfl, fun e he => .inl he⟩
      · split at hrest
        · cases hrest
          refine ⟨generation_dropData s number, fun e he => .inl ?_⟩
          rw [← numbering_dropData s number]
          exact he
        · cases hrest
  | delete id =>
      obtain ⟨d, numbering, hrelease, -, rfl⟩ := delete_eq_ok.mp happly
      obtain ⟨-, -, -, hparked, -, -⟩ := Numbering.release_eq_some hrelease
      -- the one number that is added is parked now
      refine ⟨generation_dropData s d, ?_⟩
      intro e he
      change e ∈ numbering.parked at he
      rw [hparked] at he
      rcases List.mem_append.mp he with he | he
      · exact .inl he
      · rw [List.mem_singleton.mp he]
        exact .inr rfl
  | deleteUser user =>
      cases happly
      exact ⟨rfl, fun e he => .inl he⟩
  | define schema =>
      rw [Snapshot.apply] at happly
      split at happly <;> cases happly
      exact ⟨rfl, fun e he => .inl he⟩
  | alter alterations =>
      obtain ⟨table, -, hs'⟩ := Fallible.bind_eq_ok.mp happly
      cases hs'
      exact ⟨rfl, fun e he => .inl he⟩

/-- No number is parked under a generation that is still to come. -/
def ParkedInTime (s : Snapshot) : Prop :=
  ∀ e ∈ s.numbering.parked, e.1 ≤ s.generation

theorem parkedInTime_applyAll {s s' : Snapshot} {ops : List Operation} {touched : List Term}
    (h : ParkedInTime s) (happly : applyAll s ops = .ok (touched, s')) : ParkedInTime s' := by
  induction ops generalizing s touched with
  | nil =>
      cases happly
      exact h
  | cons op rest ih =>
      obtain ⟨⟨touched₁, s₁⟩, hfirst, happly⟩ := Fallible.bind_eq_ok.mp happly
      obtain ⟨⟨touched₂, s₂⟩, hrest, heq⟩ := Fallible.bind_eq_ok.mp happly
      cases heq
      obtain ⟨hgeneration, hparked⟩ := parked_of_apply (Fallible.mapError_eq_ok.mp hfirst)
      refine ih ?_ hrest
      intro e he
      rw [hgeneration]
      rcases hparked e he with hold | hnew
      · exact h e hold
      · exact Nat.le_of_eq hnew

theorem parkedInTime_replay {t' : Snapshot} {records' : List Statistics.Record} {r : CommitRecord}
    (h : ParkedInTime t) (hreplay : replay (t, records) r = .ok (t', records')) :
    ParkedInTime t' := by
  unfold replay at hreplay
  dsimp only at hreplay
  split at hreplay
  · cases hreplay
    exact h
  · next hlater =>
      obtain ⟨⟨touched, s⟩, happly, heq⟩ := Fallible.bind_eq_ok.mp hreplay
      cases heq
      refine parkedInTime_applyAll ?_ happly
      intro e he
      have hold := h e he
      show e.1 ≤ r.generation
      omega

end Store

namespace Statistics.History

variable {h : History} {limit : Nat} {horizon : Option TimeStamp} {records : List Record}

/-- A history keeps to its limit, and keeps at least one record. -/
structure Kept (limit : Nat) (h : History) : Prop where
  limit : h.limit = max limit 1
  length : h.records.length ≤ h.limit

theorem kept_empty (limit : Nat) : (empty limit).Kept limit :=
  ⟨rfl, Nat.zero_le _⟩

theorem trim_eq_self (hlength : records.length ≤ limit) :
    trim limit horizon records = (horizon, records) := by
  cases records with
  | nil => rfl
  | cons r rest =>
      unfold trim
      rw [if_neg (by omega)]

/-- What is dropped is a first part, and what is left keeps to the limit. -/
theorem trim_spec (limit : Nat) (horizon : Option TimeStamp) (records : List Record) :
    (trim limit horizon records).2.length ≤ limit ∧
      (∀ r ∈ (trim limit horizon records).2, r ∈ records) ∧
      ∀ t, (trim limit horizon records).1 = some t →
        horizon = some t ∨ ∃ r ∈ records, r.timestamp = t := by
  induction records generalizing horizon with
  | nil => exact ⟨Nat.zero_le _, fun _ hr => hr, fun t ht => .inl ht⟩
  | cons r rest ih =>
      unfold trim
      split
      · obtain ⟨hlength, hmem, hhorizon⟩ := ih (some r.timestamp)
        refine ⟨hlength, fun x hx => List.mem_cons_of_mem _ (hmem x hx), ?_⟩
        intro t ht
        rcases hhorizon t ht with heq | ⟨x, hx, hxt⟩
        · exact .inr ⟨r, List.mem_cons_self, Option.some.inj heq⟩
        · exact .inr ⟨x, List.mem_cons_of_mem _ hx, hxt⟩
      · next hfits => exact ⟨Nat.not_lt.mp hfits, fun _ hx => hx, fun t ht => .inl ht⟩

theorem Kept.push (hk : h.Kept limit) (r : Record) : (h.push r).Kept limit :=
  ⟨hk.limit, (trim_spec h.limit h.horizon (h.records ++ [r])).1⟩

/-- Repeating one commit more adds its statistics. -/
theorem restore_append (limit : Nat) (horizon : Option TimeStamp) (records : List Record)
    (r : Record) :
    restore limit horizon (records ++ [r]) = (restore limit horizon records).push r := by
  unfold restore
  rw [List.foldl_append]
  rfl

/-- What pushing records keeps holds of a restored history. -/
theorem restore_keeps {P : History → Prop} (hstart : P { empty limit with horizon })
    (hpush : ∀ g, ∀ r ∈ records, P g → P (g.push r)) : P (restore limit horizon records) := by
  unfold restore
  generalize ({ empty limit with horizon } : History) = g at hstart
  induction records generalizing g with
  | nil => exact hstart
  | cons r rest ih =>
      exact ih (fun g x hx => hpush g x (List.mem_cons_of_mem _ hx)) _
        (hpush g r List.mem_cons_self hstart)

theorem kept_restore (limit : Nat) (horizon : Option TimeStamp) (records : List Record) :
    (restore limit horizon records).Kept limit :=
  restore_keeps ⟨rfl, Nat.zero_le _⟩ fun _ r _ hk => hk.push r

/-- A history is restored from its own records and horizon. -/
theorem Kept.restore_eq (hk : h.Kept limit) : restore limit h.horizon h.records = h := by
  obtain ⟨records, horizon, l⟩ := h
  obtain ⟨hlimit, hlength⟩ := hk
  dsimp only at hlimit hlength
  have hfold : ∀ (rest done : List Record), (done ++ rest).length ≤ l →
      rest.foldl History.push ⟨done, horizon, l⟩ = ⟨done ++ rest, horizon, l⟩ := by
    intro rest
    induction rest with
    | nil =>
        intro done _
        rw [List.append_nil]
        rfl
    | cons r rest ih =>
        intro done hdone
        have hpush : History.push ⟨done, horizon, l⟩ r = ⟨done ++ [r], horizon, l⟩ := by
          unfold History.push
          rw [trim_eq_self (by simp at hdone ⊢; omega)]
        rw [List.foldl_cons, hpush, ih (done ++ [r]) (by simpa using hdone)]
        simp
  have hstart : ({ empty limit with horizon } : History) = ⟨[], horizon, l⟩ := by
    rw [hlimit]
    rfl
  unfold restore
  rw [hstart, hfold records [] hlength]
  rfl

end Statistics.History

end Concordance
