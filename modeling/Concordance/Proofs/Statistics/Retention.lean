import Concordance.Proofs.Recovery.Replay
import Concordance.Proofs.Statistics.Resumption

/-!
# What a history can still tell

A history is added to, and now and then it is persisted and restored, perhaps with another limit.
All records ever added are those that it has dropped and, behind them, those that it keeps, and its
horizon is the newest of those dropped (`Spans`): restoring drops more of them at most. So a request
is answered with everything newer than its point in time, or refused because some of that is gone
(`since_tells_all_or_refuses`).
-/

namespace Concordance.Statistics.History

variable {h : History} {dropped all records : List Record} {r : Record}
  {limit : Nat}

/-! ## What was dropped and what is kept -/

/-- All records added to a history: those dropped, and behind them those kept. -/
structure Spans (h : History) (dropped all : List Record) : Prop where
  split : dropped ++ h.records = all
  horizon : h.horizon = newest dropped

theorem spans_empty (limit : Nat) : (empty limit).Spans [] [] := ⟨rfl, rfl⟩

/-- A new record may make the oldest ones give way. -/
theorem Spans.push (hs : h.Spans dropped all) (r : Record) :
    ∃ gone, (h.push r).Spans (dropped ++ gone) (all ++ [r]) := by
  obtain ⟨gone, hsplit, htrim, -⟩ := trim_split h.limit h.horizon (h.records ++ [r])
  refine ⟨gone, ?_, ?_⟩
  · rw [List.append_assoc, show gone ++ (h.push r).records = h.records ++ [r] from hsplit.symm,
      ← List.append_assoc, hs.split]
  · show (trim h.limit h.horizon (h.records ++ [r])).1 = _
    -- the horizon moves to the last record that gave way, if there is one
    rw [htrim, hs.horizon, newest, newest, newest, List.getLast?_append]
    cases gone.getLast? <;> rfl

theorem Spans.foldl_push (hs : h.Spans dropped all) (records : List Record) :
    ∃ gone, (records.foldl History.push h).Spans (dropped ++ gone) (all ++ records) := by
  induction records generalizing h dropped all with
  | nil => exact ⟨[], by rwa [List.append_nil, List.append_nil]⟩
  | cons r rest ih =>
      obtain ⟨first, hfirst⟩ := hs.push r
      obtain ⟨more, hmore⟩ := ih hfirst
      refine ⟨first ++ more, ?_⟩
      rwa [List.append_assoc, List.append_assoc] at hmore

/-- Restoring adds the records that were kept to a history that has dropped the others before. -/
theorem Spans.restore (hs : h.Spans dropped all) (limit : Nat) :
    ∃ gone, (restore limit h.horizon h.records).Spans (dropped ++ gone) all := by
  have hstart : ({ empty limit with horizon := h.horizon } : History).Spans dropped dropped :=
    ⟨List.append_nil _, hs.horizon⟩
  obtain ⟨gone, hgone⟩ := hstart.foldl_push h.records
  rw [hs.split] at hgone
  exact ⟨gone, hgone⟩

/-- Requests are answered from what is kept, and refused if what was dropped belongs to it. -/
theorem Spans.since (hs : h.Spans dropped all) (hlater : Replica.Later all)
    (since : Option TimeStamp) :
    ((∀ r ∈ dropped, isAfter since r.timestamp = false) →
        h.since since = .ok (all.filter fun r => isAfter since r.timestamp)) ∧
      ((∃ r ∈ dropped, isAfter since r.timestamp = true) →
        ∃ gone, h.since since = .error gone) := by
  obtain ⟨rfl, hhorizon⟩ := hs
  have hkept : (∀ r ∈ dropped, isAfter since r.timestamp = false) →
      (dropped ++ h.records).filter (fun r => isAfter since r.timestamp) =
        h.records.filter fun r => isAfter since r.timestamp := by
    intro hold
    rw [List.filter_append, List.filter_eq_nil_iff.mpr fun r hr => by rw [hold r hr]; nofun,
      List.nil_append]
  unfold History.since
  rw [hhorizon]
  rcases List.eq_nil_or_concat' dropped with rfl | ⟨older, last, rfl⟩
  · refine ⟨fun _ => rfl, ?_⟩
    rintro ⟨r, hr, -⟩
    cases hr
  · rw [newest_concat]
    dsimp only
    have hmem : last ∈ older ++ [last] := List.mem_append_right _ (List.mem_singleton.mpr rfl)
    refine ⟨fun hold => ?_, ?_⟩
    · rw [if_neg (by rw [hold last hmem]; nofun), hkept hold]
    · rintro ⟨r, hr, hafter⟩
      rw [if_pos (isAfter_last (List.pairwise_append.mp hlater).1 hr hafter)]
      exact ⟨_, rfl⟩

/-! ## The course of a history -/

/-- What happens to a history. -/
inductive Event where
  /-- A commit adds its record. -/
  | push (record : Record)
  /-- Records and horizon are persisted and restored, with a limit of its own. -/
  | restore (limit : Nat)

namespace Event

def run (h : History) : Event → History
  | push record => h.push record
  | restore limit => History.restore limit h.horizon h.records

def record? : Event → Option Record
  | push record => some record
  | restore _ => none

/-- The limit that is in force behind an event. -/
def limitFrom (limit : Nat) : Event → Nat
  | push _ => limit
  | restore limit => limit

end Event

/-- The history after some events, begun with a limit. -/
def after (limit : Nat) (events : List Event) : History := events.foldl Event.run (empty limit)

/-- The records that events have added, oldest first. -/
def pushed (events : List Event) : List Record := events.filterMap Event.record?

/-- The limit that was asked for last. -/
def limitAfter (limit : Nat) (events : List Event) : Nat := events.foldl Event.limitFrom limit

/-- A record was added, and some time later it was not kept any more. -/
def Dropped (limit : Nat) (events : List Event) (r : Record) : Prop :=
  ∃ earlier later, events = earlier ++ later ∧ r ∈ pushed earlier ∧
    r ∉ (after limit earlier).records

theorem pushed_append (earlier later : List Event) :
    pushed (earlier ++ later) = pushed earlier ++ pushed later :=
  List.filterMap_append

theorem pushed_map_push (records : List Record) : pushed (records.map .push) = records := by
  rw [pushed, List.filterMap_map]
  exact List.filterMap_some

theorem after_append (limit : Nat) (earlier later : List Event) :
    after limit (earlier ++ later) = later.foldl Event.run (after limit earlier) :=
  List.foldl_append

theorem Spans.run (hs : h.Spans dropped all) (event : Event) :
    ∃ gone, (event.run h).Spans (dropped ++ gone) (all ++ pushed [event]) := by
  cases event with
  | push record => exact hs.push record
  | restore limit =>
      obtain ⟨gone, hgone⟩ := hs.restore limit
      exact ⟨gone, by rwa [show pushed [.restore limit] = [] from rfl, List.append_nil]⟩

/-- What was dropped stays dropped, whatever happens. -/
theorem Spans.foldl_run (hs : h.Spans dropped all) (events : List Event) :
    ∃ gone, (events.foldl Event.run h).Spans (dropped ++ gone) (all ++ pushed events) := by
  induction events generalizing h dropped all with
  | nil => exact ⟨[], by rwa [List.append_nil, show pushed [] = [] from rfl, List.append_nil]⟩
  | cons event rest ih =>
      obtain ⟨first, hfirst⟩ := hs.run event
      obtain ⟨more, hmore⟩ := ih hfirst
      refine ⟨first ++ more, ?_⟩
      rwa [List.append_assoc, List.append_assoc, ← pushed_append] at hmore

theorem spans_after (limit : Nat) (events : List Event) :
    ∃ dropped, (after limit events).Spans dropped (pushed events) :=
  (spans_empty limit).foldl_run events

theorem kept_after (limit : Nat) (events : List Event) :
    (after limit events).Kept (limitAfter limit events) := by
  unfold after limitAfter
  have hstart := kept_empty limit
  generalize empty limit = h at hstart ⊢
  induction events generalizing h limit with
  | nil => exact hstart
  | cons event rest ih =>
      rw [List.foldl_cons, List.foldl_cons]
      refine ih _ _ ?_
      cases event with
      | push record => exact hstart.push record
      | restore limit => exact kept_restore limit _ _

/-- What was dropped at some time is what is missing at the end. -/
theorem Spans.dropped_iff {events : List Event}
    (hs : (after limit events).Spans dropped (pushed events))
    (hlater : Replica.Later (pushed events)) : Dropped limit events r ↔ r ∈ dropped := by
  constructor
  · rintro ⟨earlier, later, rfl, hpushed, hgone⟩
    obtain ⟨dropped₀, hs₀⟩ := spans_after limit earlier
    obtain ⟨more, hmore⟩ := hs₀.foldl_run later
    rw [← after_append, ← pushed_append] at hmore
    -- what was dropped by then is a beginning of what is dropped at the end
    have hsame : dropped = dropped₀ ++ more :=
      List.append_cancel_right (hs.split.trans hmore.split.symm)
    rw [← hs₀.split] at hpushed
    rw [hsame]
    exact List.mem_append_left _ ((List.mem_append.mp hpushed).resolve_right hgone)
  · intro hr
    rw [← hs.split] at hlater
    refine ⟨events, [], (List.append_nil _).symm, ?_, fun hkept => ?_⟩
    · rw [← hs.split]
      exact List.mem_append_left _ hr
    · -- no record has the timestamp of a later one
      have hself := (List.pairwise_append.mp hlater).2.2 r hr r hkept
      rw [Std.ReflOrd.compare_self] at hself
      cases hself

/-- Opening a storage restores what was persisted at some time together with the records added since:
the same as if it had been restored at once, and the records were added then. -/
theorem restore_with_later (limit limit' : Nat) (earlier : List Event) (records : List Record) :
    restore limit' (after limit earlier).horizon ((after limit earlier).records ++ records) =
      after limit (earlier ++ .restore limit' :: records.map .push) := by
  rw [after_append, List.foldl_cons, List.foldl_map, History.restore, List.foldl_append]
  rfl

/-- However often a history is persisted and restored, and with whatever limits: it keeps to the
limit in force, and answers a request with all records added that are newer, unless one of them was
ever dropped; then it refuses. The same goes for a history that is put together from what was
persisted at some time and the records added since. -/
theorem since_tells_all_or_refuses (limit : Nat) (events : List Event)
    (hlater : Replica.Later (pushed events)) :
    (after limit events).records.length ≤ max (limitAfter limit events) 1 ∧
      (∀ since,
        ((∀ r ∈ pushed events, isAfter since r.timestamp = true → ¬ Dropped limit events r) →
          (after limit events).since since =
            .ok ((pushed events).filter fun r => isAfter since r.timestamp)) ∧
        ((∃ r ∈ pushed events, isAfter since r.timestamp = true ∧ Dropped limit events r) →
          ∃ gone text, (after limit events).since since = .error gone ∧
            gone.toError = .consistency text)) ∧
      ∀ earlier later limit', events = earlier ++ later →
        ∃ events', pushed events' = pushed events ∧
          restore limit' (after limit earlier).horizon
            ((after limit earlier).records ++ pushed later) = after limit events' := by
  obtain ⟨dropped, hs⟩ := spans_after limit events
  have hkept := kept_after limit events
  refine ⟨hkept.limit ▸ hkept.length, fun since => ⟨fun hnone => ?_, ?_⟩, ?_⟩
  · refine (hs.since hlater since).1 fun r hr => ?_
    have hpushed : r ∈ pushed events := hs.split ▸ List.mem_append_left _ hr
    exact Bool.eq_false_iff.mpr fun hafter =>
      hnone r hpushed hafter ((hs.dropped_iff hlater).mpr hr)
  · rintro ⟨r, -, hafter, hdropped⟩
    obtain ⟨gone, hgone⟩ :=
      (hs.since hlater since).2 ⟨r, (hs.dropped_iff hlater).mp hdropped, hafter⟩
    exact ⟨gone, _, hgone, rfl⟩
  · rintro earlier later limit' rfl
    refine ⟨_, ?_, restore_with_later limit limit' earlier (pushed later)⟩
    rw [pushed_append, pushed_append]
    exact congrArg _ (pushed_map_push _)

/-- A record of one second. -/
def recordAt (counter : Nat) : Record := ⟨⟨1, counter⟩, 1, []⟩

/-- Two records under a limit of one, then a longer limit and a third record. -/
def shortThenLong : List Event :=
  [.push (recordAt 1), .push (recordAt 2), .restore 5, .push (recordAt 3)]

/-- What came after the record dropped can be told, what came from the start cannot. -/
theorem since_tells_all_or_refuses_regrown :
    Replica.Later (pushed shortThenLong) ∧
      (after 1 shortThenLong).since (some ⟨1, 1⟩) = .ok [recordAt 2, recordAt 3] ∧
      ∃ gone text, (after 1 shortThenLong).since none = .error gone ∧
        gone.toError = .consistency text := by
  have hlater : Replica.Later (pushed shortThenLong) := by decide
  obtain ⟨-, htells, -⟩ := since_tells_all_or_refuses 1 shortThenLong hlater
  obtain ⟨dropped, hs⟩ := spans_after 1 shortThenLong
  have hdropped : dropped = [recordAt 1] :=
    List.append_cancel_right (hs.split.trans (by decide : pushed shortThenLong =
      [recordAt 1] ++ (after 1 shortThenLong).records))
  have hiff : ∀ {r}, Dropped 1 shortThenLong r ↔ r ∈ [recordAt 1] := hdropped ▸ hs.dropped_iff hlater
  refine ⟨hlater, (htells (some ⟨1, 1⟩)).1 fun r _ hafter hr => ?_,
    (htells none).2 ⟨recordAt 1, by decide, rfl, hiff.mpr (List.mem_singleton.mpr rfl)⟩⟩
  rw [List.mem_singleton.mp (hiff.mp hr)] at hafter
  exact absurd hafter (by decide)

end Concordance.Statistics.History
