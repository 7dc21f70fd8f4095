import Concordance.Proofs.Statistics.Replica
import Concordance.Statistics.Basic

/-!
# Where a replica goes on

A replica asks for the records after the timestamp that it applied last. A history answers just those
that the replica has not begun (`History.since_of_split`). But the replica may have begun a record
and not have got all its messages: these are not sent again. `Replica.Position` says where a replica
stands between two messages, and what it has lost that way.
-/

namespace Concordance.Statistics

/-! ## Records after a point in time -/

namespace History

variable {h : History} {dropped begun rest records : List Record}

/-- The timestamp of the newest of some records. -/
def newest (records : List Record) : Option TimeStamp := records.getLast?.map (·.timestamp)

theorem newest_concat (records : List Record) (r : Record) :
    newest (records ++ [r]) = some r.timestamp := by
  rw [newest, List.getLast?_concat]
  rfl

theorem isAfter_of_later {a b : Record} (h : compare a.timestamp b.timestamp = .lt) :
    isAfter (some a.timestamp) b.timestamp = true ∧
      isAfter (some b.timestamp) a.timestamp = false := by
  unfold isAfter TimeStamp.isBefore
  dsimp only
  rw [h, Std.OrientedCmp.gt_of_lt h]
  exact ⟨rfl, rfl⟩

/-- The newest of the records begun stands between them and the rest. -/
theorem isAfter_newest (hlater : Replica.Later (begun ++ rest)) :
    (∀ r ∈ begun, isAfter (newest begun) r.timestamp = false) ∧
      ∀ r ∈ rest, isAfter (newest begun) r.timestamp = true := by
  rcases List.eq_nil_or_concat' begun with rfl | ⟨older, last, rfl⟩
  · exact ⟨nofun, fun _ _ => rfl⟩
  obtain ⟨hbegun, -, hacross⟩ := List.pairwise_append.mp hlater
  obtain ⟨-, -, hlast⟩ := List.pairwise_append.mp hbegun
  have hmem : last ∈ older ++ [last] := List.mem_append_right _ (List.mem_singleton.mpr rfl)
  rw [newest_concat]
  constructor
  · intro r hr
    rcases List.mem_append.mp hr with hr | hr
    · exact (isAfter_of_later (hlast r hr last (List.mem_singleton.mpr rfl))).2
    · rw [List.mem_singleton.mp hr]
      exact Replica.isBefore_self _
  · intro r hr
    exact (isAfter_of_later (hacross last hmem r hr)).1

theorem filter_isAfter_newest (hlater : Replica.Later (begun ++ rest)) :
    (begun ++ rest).filter (fun r => isAfter (newest begun) r.timestamp) = rest := by
  obtain ⟨hbegun, hrest⟩ := isAfter_newest hlater
  rw [List.filter_append, List.filter_eq_self.mpr hrest, List.filter_eq_nil_iff.mpr, List.nil_append]
  intro r hr
  rw [hbegun r hr]
  exact Bool.false_ne_true

/-- What is not after a later point in time is not after an earlier one. -/
theorem isAfter_mono {since : Option TimeStamp} {a b : Record}
    (h : compare a.timestamp b.timestamp = .lt) (hb : isAfter since b.timestamp = false) :
    isAfter since a.timestamp = false := by
  cases since with
  | none => cases hb
  | some s =>
      unfold isAfter TimeStamp.isBefore at hb ⊢
      dsimp only at hb ⊢
      cases hs : compare s a.timestamp with
      | lt =>
          rw [Std.TransCmp.lt_trans hs h] at hb
          cases hb
      | eq => rfl
      | gt => rfl

/-- The last of some records is newer than a point in time if any of them is. -/
theorem isAfter_last {older : List Record} {last r : Record} {since : Option TimeStamp}
    (hlater : Replica.Later (older ++ [last])) (hr : r ∈ older ++ [last])
    (hafter : isAfter since r.timestamp = true) : isAfter since last.timestamp = true := by
  rcases List.mem_append.mp hr with hr | hr
  · have holder := (List.pairwise_append.mp hlater).2.2 r hr last (List.mem_singleton.mpr rfl)
    by_contra hfalse
    rw [isAfter_mono holder (Bool.eq_false_iff.mpr hfalse)] at hafter
    cases hafter
  · rwa [List.mem_singleton.mp hr] at hafter

/-- A history that has dropped the oldest of some records answers the ones after those begun, unless
some of these are dropped. -/
theorem since_of_split (hsplit : dropped ++ h.records = begun ++ rest)
    (hhorizon : h.horizon = newest dropped) (hlater : Replica.Later (begun ++ rest)) :
    (∀ answered, h.since (newest begun) = .ok answered → answered = rest) ∧
      (dropped = [] → h.since (newest begun) = .ok rest) := by
  have hall := filter_isAfter_newest hlater
  rw [← hsplit] at hall hlater
  rcases List.eq_nil_or_concat' dropped with rfl | ⟨older, last, rfl⟩
  · rw [List.nil_append] at hall
    have hsince : h.since (newest begun) = .ok rest := by
      unfold since
      rw [hhorizon]
      exact congrArg Except.ok hall
    refine ⟨fun answered hanswered => ?_, fun _ => hsince⟩
    rw [hsince] at hanswered
    cases hanswered
    rfl
  · refine ⟨fun answered hanswered => ?_, fun hnil => by simp at hnil⟩
    rw [newest_concat] at hhorizon
    unfold since at hanswered
    rw [hhorizon] at hanswered
    dsimp only at hanswered
    split at hanswered
    · cases hanswered
    · next hnot =>
        cases hanswered
        rw [List.filter_append, List.filter_eq_nil_iff.mpr, List.nil_append] at hall
        · exact hall
        · -- what was dropped is no newer than the horizon
          exact fun r hr hafter => hnot (isAfter_last (List.pairwise_append.mp hlater).1 hr hafter)

/-- Dropping records takes them off the front and moves the horizon to the last of them. -/
theorem trim_split (limit : Nat) (horizon : Option TimeStamp) (records : List Record) :
    ∃ gone, records = gone ++ (trim limit horizon records).2 ∧
      (trim limit horizon records).1 = (newest gone).or horizon ∧
      (records.length ≤ limit → gone = []) := by
  induction records generalizing horizon with
  | nil => exact ⟨[], rfl, rfl, fun _ => rfl⟩
  | cons r rest ih =>
      unfold trim
      split
      · next hlarge =>
          obtain ⟨gone, hrest, hhorizon, -⟩ := ih (some r.timestamp)
          refine ⟨r :: gone, by rw [List.cons_append, ← hrest], ?_, fun hfits => by omega⟩
          rw [hhorizon]
          cases gone with
          | nil => rfl
          | cons x more => rfl
      · exact ⟨[], rfl, rfl, fun _ => rfl⟩

/-- A history that may keep a record keeps one. -/
theorem trim_ne_nil {limit : Nat} {horizon : Option TimeStamp} (hlimit : 1 ≤ limit)
    (hne : records ≠ []) : (trim limit horizon records).2 ≠ [] := by
  induction records generalizing horizon with
  | nil => exact absurd rfl hne
  | cons r rest ih =>
      unfold trim
      split
      · next hlarge =>
          refine ih fun hnil => ?_
          rw [hnil, List.length_singleton] at hlarge
          omega
      · exact hne

/-- One more record after some that a history has kept or dropped. -/
theorem push_split (hhorizon : h.horizon = newest dropped) (r : Record) :
    ∃ dropped', dropped ++ h.records ++ [r] = dropped' ++ (h.push r).records ∧
      (h.push r).horizon = newest dropped' ∧
      (dropped = [] → (h.records ++ [r]).length ≤ h.limit → dropped' = []) := by
  obtain ⟨gone, hsplit, htrim, hfits⟩ := trim_split h.limit h.horizon (h.records ++ [r])
  refine ⟨dropped ++ gone, ?_, ?_, ?_⟩
  · rw [List.append_assoc, List.append_assoc]
    exact congrArg (dropped ++ ·) hsplit
  · show (trim h.limit h.horizon (h.records ++ [r])).1 = _
    rw [htrim, hhorizon, newest, newest, newest, List.getLast?_append]
    cases gone.getLast? <;> rfl
  · rintro rfl hlength
    rw [hfits hlength]
    rfl

/-! ## Records after a moment -/

/-- Nothing in a history is newer than a moment. -/
structure Dated (h : History) (t : TimeStamp) : Prop where
  records : ∀ r ∈ h.records, isAfter (some t) r.timestamp = false
  horizon : ∀ x, h.horizon = some x → isAfter (some t) x = false

/-- The records after a moment are just these, or were, before the oldest of them were dropped. -/
structure Ends (h : History) (t : TimeStamp) (rest : List Record) : Prop where
  split : ∃ dropped begun x, dropped ++ h.records = begun ++ rest ∧
    h.horizon = (newest dropped).or x ∧ (∀ r ∈ begun, isAfter (some t) r.timestamp = false) ∧
    ∀ u, x = some u → isAfter (some t) u = false
  later : ∀ r ∈ rest, isAfter (some t) r.timestamp = true

variable {t u : TimeStamp} {r : Record}

theorem isAfter_eq_false_iff : isAfter (some t) u = false ↔ compare u t ≠ .gt := by
  unfold isAfter TimeStamp.isBefore
  dsimp only
  rw [Std.OrientedOrd.eq_swap (a := t)]
  cases compare u t <;> decide

theorem isAfter_eq_true_iff : isAfter (some t) u = true ↔ compare t u = .lt := by
  unfold isAfter TimeStamp.isBefore
  dsimp only
  rw [beq_iff_eq]

theorem dated_empty (limit : Nat) (t : TimeStamp) : (empty limit).Dated t :=
  ⟨nofun, nofun⟩

theorem Dated.mono (hd : h.Dated t) (hle : compare t u ≠ .gt) : h.Dated u := by
  have hmono : ∀ {x}, isAfter (some t) x = false → isAfter (some u) x = false := by
    intro x hx
    have hxt := Ordering.isLE_iff_ne_gt.mpr (isAfter_eq_false_iff.mp hx)
    have hxu := Std.TransOrd.isLE_trans hxt (Ordering.isLE_iff_ne_gt.mpr hle)
    exact isAfter_eq_false_iff.mpr (Ordering.isLE_iff_ne_gt.mp hxu)
  exact ⟨fun r hr => hmono (hd.records r hr), fun x hx => hmono (hd.horizon x hx)⟩

theorem Dated.push (hd : h.Dated t) (hr : isAfter (some t) r.timestamp = false) :
    (h.push r).Dated t := by
  obtain ⟨gone, hgone, htrim, -⟩ := trim_split h.limit h.horizon (h.records ++ [r])
  have hall : ∀ x ∈ h.records ++ [r], isAfter (some t) x.timestamp = false := by
    intro x hx
    rcases List.mem_append.mp hx with hx | hx
    · exact hd.records x hx
    · rwa [List.mem_singleton.mp hx]
  rw [hgone] at hall
  refine ⟨fun x hx => hall x (List.mem_append_right _ hx), fun x hx => ?_⟩
  -- the horizon is the newest record that is dropped, if any
  change (trim h.limit h.horizon (h.records ++ [r])).1 = some x at hx
  rw [htrim, Option.or_eq_some_iff] at hx
  rcases hx with hx | ⟨-, hx⟩
  · obtain ⟨a, ha, rfl⟩ := Option.map_eq_some_iff.mp hx
    exact hall a (List.mem_append_left _ (List.mem_of_getLast? ha))
  · exact hd.horizon x hx

theorem Dated.ends (hd : h.Dated t) : h.Ends t [] :=
  ⟨⟨[], h.records, h.horizon, (List.append_nil _).symm, rfl, hd.records, hd.horizon⟩, nofun⟩

theorem Ends.push (he : h.Ends t rest) (hr : isAfter (some t) r.timestamp = true) :
    (h.push r).Ends t (rest ++ [r]) := by
  obtain ⟨dropped, begun, x, hsplit, hhorizon, hbegun, hx⟩ := he.split
  obtain ⟨gone, hgone, htrim, -⟩ := trim_split h.limit h.horizon (h.records ++ [r])
  refine ⟨⟨dropped ++ gone, begun, x, ?_, ?_, hbegun, hx⟩, ?_⟩
  · rw [List.append_assoc, show gone ++ (h.push r).records = _ from hgone.symm,
      ← List.append_assoc, hsplit, List.append_assoc]
  · show (trim h.limit h.horizon (h.records ++ [r])).1 = _
    rw [htrim, hhorizon, newest, newest, newest, List.getLast?_append]
    cases gone.getLast? <;> rfl
  · intro a ha
    rcases List.mem_append.mp ha with ha | ha
    · exact he.later a ha
    · rwa [List.mem_singleton.mp ha]

/-- If the horizon is not after the moment, no record after it was dropped. -/
theorem Ends.kept (he : h.Ends t rest)
    (hhorizon : ∀ x, h.horizon = some x → isAfter (some t) x = false) :
    h.records.filter (fun r => isAfter (some t) r.timestamp) = rest := by
  obtain ⟨dropped, begun, x, hsplit, hdropped, hbegun, -⟩ := he.split
  obtain ⟨kept, rfl, hrecords⟩ : ∃ kept, begun = dropped ++ kept ∧ h.records = kept ++ rest := by
    rcases List.append_eq_append_iff.mp hsplit with hcase | ⟨lost, rfl, hrest⟩
    · exact hcase
    · rcases List.eq_nil_or_concat' lost with rfl | ⟨older, last, rfl⟩
      · exact ⟨[], by rw [List.append_nil, List.append_nil], hrest.symm⟩
      · -- the horizon would be a record after the moment
        have hlast : isAfter (some t) last.timestamp = true := by
          refine he.later last ?_
          rw [hrest]
          simp
        rw [← List.append_assoc, newest_concat] at hdropped
        rw [hhorizon _ hdropped] at hlast
        cases hlast
  rw [hrecords, List.filter_append, List.filter_eq_self.mpr he.later, List.filter_eq_nil_iff.mpr,
    List.nil_append]
  intro r hr
  rw [hbegun r (List.mem_append_right _ hr)]
  exact Bool.false_ne_true

/-- A history that can still tell what came after a moment tells just that. -/
theorem Ends.since (he : h.Ends t rest) {answered : List Record}
    (hsince : h.since (some t) = .ok answered) : answered = rest := by
  unfold History.since at hsince
  split at hsince
  · next x hx =>
      split at hsince
      · cases hsince
      · next hnot =>
          cases hsince
          refine he.kept fun y hy => ?_
          cases hx.symm.trans hy
          exact Bool.not_eq_true _ ▸ hnot
  · next hnone =>
      cases hsince
      refine he.kept fun x hx => ?_
      rw [hnone] at hx
      cases hx

theorem Ends.since_eq (he : h.Ends t rest)
    (hhorizon : ∀ x, h.horizon = some x → isAfter (some t) x = false) :
    h.since (some t) = .ok rest := by
  have hkept := he.kept hhorizon
  unfold History.since
  split
  · next x hx => rw [if_neg (by rw [hhorizon x hx]; exact Bool.false_ne_true), hkept]
  · rw [hkept]

/-- The record of a new commit can always be told. -/
theorem Dated.since_push (hd : h.Dated t) (hlimit : 1 ≤ h.limit)
    (hr : isAfter (some t) r.timestamp = true) : (h.push r).since (some t) = .ok [r] := by
  have hne : (trim h.limit h.horizon (h.records ++ [r])).2 ≠ [] :=
    trim_ne_nil hlimit (List.append_ne_nil_of_right_ne_nil _ (List.cons_ne_nil _ _))
  obtain ⟨gone, hgone, htrim, -⟩ := trim_split h.limit h.horizon (h.records ++ [r])
  -- the new record is kept, so the horizon is at most an old one
  obtain ⟨older, last, hlast⟩ := List.eq_nil_or_concat' _ |>.resolve_left hne
  rw [hlast, ← List.append_assoc] at hgone
  obtain ⟨hrecords, -⟩ := List.append_inj' hgone rfl
  have hhorizon : ∀ x, (h.push r).horizon = some x → isAfter (some t) x = false := by
    intro x hx
    change (trim h.limit h.horizon (h.records ++ [r])).1 = some x at hx
    rw [htrim, Option.or_eq_some_iff] at hx
    rcases hx with hx | ⟨-, hx⟩
    · obtain ⟨a, ha, rfl⟩ := Option.map_eq_some_iff.mp hx
      refine hd.records a ?_
      rw [hrecords]
      exact List.mem_append_left _ (List.mem_of_getLast? ha)
    · exact hd.horizon x hx
  exact (hd.ends.push hr).since_eq hhorizon

end History

/-! ## Parts of a record -/

namespace Message

/-- The first message of a record has the change of the number of documents, the others have only
changes of frequencies. -/
theorem split_eq_cons (record : Record) (origin : Origin) (encoding : Encoding) (maxEntries : Nat) :
    ∃ first left, split record origin encoding maxEntries = first :: left ∧
      first.documents = record.documents ∧ ∀ m ∈ left, m.documents = 0 := by
  obtain ⟨parts, hne, -, -, hsplit⟩ := split_eq record origin encoding maxEntries
  obtain ⟨changes, more, rfl⟩ := List.exists_cons_of_ne_nil hne
  rw [hsplit, List.zipIdx_cons, List.map_cons]
  refine ⟨_, _, rfl, rfl, ?_⟩
  intro m hm
  obtain ⟨⟨changes', part⟩, hpart, rfl⟩ := List.mem_map.mp hm
  have hle := (List.mem_zipIdx hpart).1
  exact if_neg (by dsimp only; omega)

theorem splitAll_cons (record : Record) (records : List Record) (origin : Origin)
    (encoding : Encoding) (maxEntries : Nat) :
    splitAll (record :: records) origin encoding maxEntries =
      split record origin encoding maxEntries ++ splitAll records origin encoding maxEntries :=
  List.flatMap_cons

end Message

/-! ## Positions -/

namespace Replica

open History (newest newest_concat)

/-- Where a replica stands: it has begun some records, of the last of them some messages are left,
and it has lost some messages of records that it began before. -/
structure Position (r : Replica) (begun : List Record) (left lost : List Message) : Prop where
  last : r.lastApplied = newest begun
  seen : ∀ k ∈ r.seen, r.lastApplied = some k.timestamp
  remaining : ∀ m ∈ left, r.lastApplied = some m.timestamp ∧ m.documents = 0
  documents : r.documents = (begun.map (·.documents)).sum
  frequencies : ∃ f, Tells r.frequencies f ∧ ∀ t,
    f t + total t (left.flatMap (·.changes)) + total t (lost.flatMap (·.changes)) =
      (begun.map fun x => total t x.changes).sum

variable {r : Replica} {begun rest : List Record} {left lost : List Message} {m : Message}
  {record : Record} {origin : Origin} {encoding : Encoding} {maxEntries : Nat}

theorem position_new : ({} : Replica).Position [] [] [] where
  last := rfl
  seen := nofun
  remaining := nofun
  documents := rfl
  frequencies := ⟨_, tells_empty, fun _ => rfl⟩

theorem seen_accept (r : Replica) (m : Message) (h : ∀ k ∈ r.seen, r.lastApplied = some k.timestamp) :
    ∀ k ∈ (r.accept m).seen, (r.accept m).lastApplied = some k.timestamp := by
  intro k hk
  rcases List.mem_cons.mp hk with rfl | hk
  · rfl
  · split at hk
    · next hsame => exact hsame.symm.trans (h k hk)
    · cases hk

/-- One more message of the record that is begun. -/
theorem Position.part (h : r.Position begun (m :: left) lost) :
    (r.accept m).Position begun left lost := by
  obtain ⟨htime, hnone⟩ := h.remaining m List.mem_cons_self
  obtain ⟨f, htells, hsum⟩ := h.frequencies
  refine ⟨htime.symm.trans h.last, seen_accept r m h.seen, ?_, ?_, _, htells.foldl m.changes, ?_⟩
  · intro x hx
    obtain ⟨hx, hzero⟩ := h.remaining x (List.mem_cons_of_mem _ hx)
    exact ⟨htime.symm.trans hx, hzero⟩
  · show r.documents + m.documents = _
    rw [hnone, Int.add_zero, h.documents]
  · intro t
    rw [← hsum t, List.flatMap_cons, total_append]
    omega

/-- The first message of a new record. -/
theorem Position.first (h : r.Position begun [] lost)
    (hsplit : Message.split record origin encoding maxEntries = m :: left)
    (hdocuments : m.documents = record.documents) (hnone : ∀ x ∈ left, x.documents = 0) :
    (r.accept m).Position (begun ++ [record]) left lost := by
  have hdivides := Message.split_divides record origin encoding maxEntries
  rw [hsplit] at hdivides
  obtain ⟨hfirst, hleft⟩ := List.forall_mem_cons.mp hdivides.timestamp
  obtain ⟨f, htells, hsum⟩ := h.frequencies
  refine ⟨?_, seen_accept r m h.seen, ?_, ?_, _, htells.foldl m.changes, ?_⟩
  · rw [newest_concat, ← hfirst]
    rfl
  · intro x hx
    refine ⟨?_, hnone x hx⟩
    rw [hleft x hx, ← hfirst]
    rfl
  · show r.documents + m.documents = _
    rw [h.documents, hdocuments, List.map_append, List.sum_append, List.map_singleton,
      List.sum_singleton]
  · intro t
    have hchanges := congrArg (total t) hdivides.changes
    rw [List.flatMap_cons, total_append] at hchanges
    have hbefore := hsum t
    rw [List.flatMap_nil, show total t [] = 0 from rfl] at hbefore
    rw [List.map_append, List.sum_append, List.map_singleton, List.sum_singleton, ← hbefore,
      ← hchanges]
    omega

/-- A replica that asks again loses what is left of the record that it has begun. -/
theorem Position.stop (h : r.Position begun left lost) : r.Position begun [] (lost ++ left) := by
  obtain ⟨f, htells, hsum⟩ := h.frequencies
  refine ⟨h.last, h.seen, nofun, h.documents, f, htells, fun t => ?_⟩
  rw [← hsum t, List.flatMap_append, total_append, List.flatMap_nil, show total t [] = 0 from rfl]
  omega

/-- The messages of the records that follow are all accepted. -/
theorem Position.accepts (h : r.Position begun [] lost) (hlater : Later (begun ++ rest)) :
    Accepts r (Message.splitAll rest origin encoding maxEntries) := by
  refine ⟨fun x hx => ?_, (accepts_splitAll (List.pairwise_append.mp hlater).2.1).steps⟩
  obtain ⟨record, hrecord, hx⟩ := List.mem_flatMap.mp hx
  have htime := (Message.split_divides record origin encoding maxEntries).timestamp x hx
  have hafter := (History.isAfter_newest hlater).2 record hrecord
  rw [← h.last, ← htime] at hafter
  constructor
  · intro hseen
    rw [h.seen _ hseen] at hafter
    exact Bool.false_ne_true ((isBefore_self x.timestamp).symm.trans hafter)
  · intro last hlast
    rw [hlast] at hafter
    have hlt : compare last x.timestamp = .lt := by
      simpa [History.isAfter, TimeStamp.isBefore] using hafter
    unfold TimeStamp.isBefore
    rw [Std.OrientedCmp.gt_of_lt hlt]
    rfl

/-- What is left of the record that is begun are the messages with its timestamp. -/
theorem Position.filter_eq (h : r.Position begun left lost) (hlater : Later (begun ++ rest)) :
    (left ++ Message.splitAll rest origin encoding maxEntries).filter
      (fun m => some m.timestamp = r.lastApplied) = left := by
  rw [List.filter_append, List.filter_eq_self.mpr, List.filter_eq_nil_iff.mpr, List.append_nil]
  · intro x hx
    obtain ⟨record, hrecord, hx⟩ := List.mem_flatMap.mp hx
    have htime := (Message.split_divides record origin encoding maxEntries).timestamp x hx
    have hafter := (History.isAfter_newest hlater).2 record hrecord
    rw [decide_eq_true_eq]
    intro hsame
    rw [← h.last, ← hsame, ← htime] at hafter
    exact Bool.false_ne_true ((isBefore_self x.timestamp).symm.trans hafter)
  · intro x hx
    exact decide_eq_true (h.remaining x hx).1.symm

end Replica

end Concordance.Statistics
