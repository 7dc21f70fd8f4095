import Concordance.Proofs.Statistics.Replica
import Mathlib.Algebra.BigOperators.Group.List.Basic
import Mathlib.Data.List.Nodup

/-!
# The algebra of merging

What a replica is after any calls, whatever messages they bring: the sums of the messages that were
taken (`Merged`). Only the keys of the newest timestamp are remembered. An old message that comes
again is told by its timestamp, and a message of the newest timestamp by its key
(`Merged.key_not_mem`). Messages of one timestamp may come in any order and as often as they like
(`same_of_batch`).
-/

namespace Concordance.Statistics.Replica

variable {ε α β : Type}

/-! ## In place -/

/-- Work in place that comes to an end is followed by the next. -/
theorem bind_of_done {x : Merging ε α} {r r' : Replica} {a : α} (h : x r = (.ok a, r'))
    (f : α → Merging ε β) : (x >>= f) r = f a r' := by
  show ExceptT.bindCont f (x r).1 (x r).2 = _
  rw [h]
  rfl

theorem addChanges_done (changes : List Change) (r : Replica) :
    (forIn changes PUnit.unit fun c _ => do
      modify fun r => { r with frequencies := addChange r.frequencies c }
      pure (ForInStep.yield PUnit.unit) : Merging OutOfOrder PUnit) r =
      (.ok PUnit.unit, { r with frequencies := changes.foldl addChange r.frequencies }) := by
  induction changes generalizing r with
  | nil => rfl
  | cons c rest ih =>
      rw [List.forIn_cons]
      exact ih { r with frequencies := addChange r.frequencies c }

theorem enter_eq (m : Message) (r : Replica) : enter m r = (.ok (), r.accept m) := by
  have hdocuments : (modify fun r => { r with documents := r.documents + m.documents } :
      Merging OutOfOrder PUnit) r = (.ok (), { r with documents := r.documents + m.documents }) := rfl
  unfold enter
  refine (bind_of_done hdocuments _).trans ?_
  refine (bind_of_done (addChanges_done m.changes _) _).trans ?_
  refine (bind_of_done rfl _).trans ?_
  unfold accept
  by_cases hlast : r.lastApplied = some m.timestamp
  · rw [if_neg (by simpa using hlast), if_pos hlast]
    rfl
  · rw [if_pos hlast, if_neg hlast]
    rfl

/-- A result as work in place leaves it: a fault leaves the replica as it was. -/
def settled (r : Replica) : Except ε (Bool × Replica) → Except ε Bool × Replica
  | .ok (new, r') => (.ok new, r')
  | .error e => (.error e, r)

theorem receive_eq (m : Message) (r : Replica) : receive m r = r.settled (r.apply m) := by
  have hnew : (enter m >>= fun _ => pure true : Merging OutOfOrder Bool) r =
      (.ok true, r.accept m) := bind_of_done (enter_eq m r) _
  unfold receive apply
  refine (bind_of_done rfl _).trans ?_
  by_cases hseen : m.key ∈ r.seen
  · rw [if_pos hseen, if_pos hseen]
    rfl
  · rw [if_neg hseen, if_neg hseen]
    refine (bind_of_done rfl _).trans ?_
    cases hlast : r.lastApplied with
    | none => exact hnew
    | some last =>
        dsimp only
        split
        · rfl
        · exact hnew

theorem receiveBlob_eq (bytes : List UInt8) (r : Replica) :
    receiveBlob bytes r = r.settled (r.applyBlob bytes) := by
  unfold receiveBlob applyBlob
  cases hread : Blob.read bytes with
  | error e => rfl
  | ok m =>
      show (Except.mapError OutOfOrder.toError (receive m r).1, (receive m r).2) =
        r.settled ((r.apply m).mapError OutOfOrder.toError)
      rw [receive_eq]
      cases r.apply m <;> rfl

/-! ## Calls -/

/-- What a call answers. -/
def answer (r : Replica) (m : Message) : Except OutOfOrder Bool := (receive m r).1

/-- The replica that a call leaves behind. -/
def after (r : Replica) (m : Message) : Replica := (receive m r).2

/-- The replica that calls leave behind. -/
def afterAll (r : Replica) (messages : List Message) : Replica := messages.foldl after r

/-- The messages that were new to the calls that brought them, oldest call first. -/
def taken (r : Replica) : List Message → List Message
  | [] => []
  | m :: rest =>
    if r.answer m = .ok true then m :: taken (r.after m) rest else taken (r.after m) rest

/-- A message that is neither repeated nor older than the last one. -/
structure Fresh (r : Replica) (m : Message) : Prop where
  key : m.key ∉ r.seen
  timestamp : ∀ last, r.lastApplied = some last → m.timestamp.isBefore last = false

variable {r r' : Replica} {m : Message} {messages earlier : List Message}

/-- A call enters a message or leaves everything as it is. -/
theorem call_cases (r : Replica) (m : Message) :
    r.Fresh m ∧ r.answer m = .ok true ∧ r.after m = r.accept m ∨
      ¬ r.Fresh m ∧ r.answer m ≠ .ok true ∧ r.after m = r := by
  unfold answer after
  rw [receive_eq, apply]
  by_cases hseen : m.key ∈ r.seen
  · rw [if_pos hseen]
    exact .inr ⟨fun h => h.key hseen, by simp [settled], rfl⟩
  · rw [if_neg hseen]
    cases hlast : r.lastApplied with
    | none => exact .inl ⟨⟨hseen, fun last h => by rw [hlast] at h; cases h⟩, rfl, rfl⟩
    | some last =>
        dsimp only
        by_cases hbefore : m.timestamp.isBefore last = true
        · rw [if_pos hbefore]
          refine .inr ⟨fun h => ?_, nofun, rfl⟩
          rw [h.timestamp last hlast] at hbefore
          cases hbefore
        · rw [if_neg hbefore]
          refine .inl ⟨⟨hseen, fun last' h => ?_⟩, rfl, rfl⟩
          rw [hlast] at h
          cases h
          exact Bool.eq_false_iff.mpr hbefore

theorem answer_eq_true_iff : r.answer m = .ok true ↔ r.Fresh m := by
  rcases call_cases r m with ⟨hfresh, hanswer, -⟩ | ⟨hfresh, hanswer, -⟩
  · exact iff_of_true hanswer hfresh
  · exact iff_of_false hanswer hfresh

theorem after_of_fresh (h : r.Fresh m) : r.after m = r.accept m := by
  rcases call_cases r m with ⟨-, -, hafter⟩ | ⟨hfresh, -, -⟩
  · exact hafter
  · exact absurd h hfresh

/-- A message that was not new has left nothing behind. -/
theorem after_of_not_fresh (h : ¬ r.Fresh m) : r.after m = r := by
  rcases call_cases r m with ⟨hfresh, -, -⟩ | ⟨-, -, hafter⟩
  · exact absurd hfresh h
  · exact hafter

theorem taken_cons_of_fresh (h : r.Fresh m) :
    r.taken (m :: messages) = m :: (r.accept m).taken messages := by
  rw [taken, if_pos (answer_eq_true_iff.mpr h), after_of_fresh h]

theorem taken_cons_of_not_fresh (h : ¬ r.Fresh m) :
    r.taken (m :: messages) = r.taken messages := by
  rw [taken, if_neg (mt answer_eq_true_iff.mp h), after_of_not_fresh h]

/-- Calls leave behind what the messages taken make of the replica. -/
theorem afterAll_eq (r : Replica) (messages : List Message) :
    r.afterAll messages = (r.taken messages).foldl accept r := by
  induction messages generalizing r with
  | nil => rfl
  | cons m rest ih =>
      show (r.after m).afterAll rest = _
      rw [ih]
      by_cases hfresh : r.Fresh m
      · rw [taken_cons_of_fresh hfresh, after_of_fresh hfresh, List.foldl_cons]
      · rw [taken_cons_of_not_fresh hfresh, after_of_not_fresh hfresh]

/-- A message that has just been brought is not new. -/
theorem not_fresh_after (r : Replica) (m : Message) : ¬ (r.after m).Fresh m := by
  rcases call_cases r m with ⟨-, -, hafter⟩ | ⟨hfresh, -, hafter⟩
  · rw [hafter]
    exact fun h => h.key List.mem_cons_self
  · rwa [hafter]

/-! ## What replicas are after calls -/

theorem isBefore_eq_false_iff {a b : TimeStamp} :
    a.isBefore b = false ↔ (compare b a).isLE = true := by
  unfold TimeStamp.isBefore
  rw [Std.OrientedOrd.eq_swap (a := b)]
  cases compare a b <;> decide

/-- A replica that has merged messages, oldest first. -/
structure Merged (r : Replica) (messages : List Message) : Prop where
  documents : r.documents = (messages.map (·.documents)).sum
  frequencies : Tells r.frequencies fun t => total t (messages.flatMap (·.changes))
  last : r.lastApplied = messages.getLast?.map (·.timestamp)
  distinct : (messages.map (·.key)).Nodup
  ordered : messages.Pairwise fun a b => (compare a.timestamp b.timestamp).isLE = true
  /-- What is remembered are the keys of the newest messages. -/
  seen : ∀ k, k ∈ r.seen ↔ r.lastApplied = some k.timestamp ∧ k ∈ messages.map (·.key)

theorem merged_empty : Merged {} [] where
  documents := rfl
  frequencies := tells_empty
  last := rfl
  distinct := .nil
  ordered := .nil
  seen := by simp

namespace Merged

/-- No message is newer than the last one. -/
theorem isLE_last (h : Merged r messages) {a : Message} (ha : a ∈ messages) :
    ∃ last, r.lastApplied = some last ∧ (compare a.timestamp last).isLE = true := by
  rcases List.eq_nil_or_concat' messages with rfl | ⟨older, newest, rfl⟩
  · cases ha
  refine ⟨newest.timestamp, by rw [h.last, List.getLast?_concat]; rfl, ?_⟩
  rcases List.mem_append.mp ha with ha | ha
  · exact (List.pairwise_append.mp h.ordered).2.2 a ha newest (List.mem_singleton.mpr rfl)
  · rw [List.mem_singleton.mp ha]
    exact Std.ReflOrd.isLE_rfl

theorem lastApplied_of_same_time (h : Merged r messages) {time : TimeStamp} (hne : messages ≠ [])
    (hsame : ∀ m ∈ messages, m.timestamp = time) : r.lastApplied = some time := by
  obtain ⟨older, newest, rfl⟩ := (List.eq_nil_or_concat' messages).resolve_left hne
  rw [h.last, List.getLast?_concat, Option.map_some, hsame newest (by simp)]

/-- A new message is as new as all before it. -/
theorem isLE_of_fresh (h : Merged r messages) (hfresh : r.Fresh m) {a : Message}
    (ha : a ∈ messages) : (compare a.timestamp m.timestamp).isLE = true := by
  obtain ⟨last, hlast, hle⟩ := h.isLE_last ha
  exact Std.TransOrd.isLE_trans hle (isBefore_eq_false_iff.mp (hfresh.timestamp last hlast))

/-- If a message from the time of a new one was merged, the new one is not the first of its time. -/
theorem last_of_same_time (h : Merged r messages) (hfresh : r.Fresh m) {a : Message}
    (ha : a ∈ messages) (htime : a.timestamp = m.timestamp) :
    r.lastApplied = some m.timestamp := by
  obtain ⟨last, hlast, hle⟩ := h.isLE_last ha
  have hge := isBefore_eq_false_iff.mp (hfresh.timestamp last hlast)
  rw [htime] at hle
  rw [hlast, Std.LawfulEqOrd.eq_of_compare (Std.OrientedCmp.isLE_antisymm hge hle)]

/-- A new message has a key of its own: a message with its key would be from the same time, and the
keys of that time are remembered. -/
theorem key_not_mem (h : Merged r messages) (hfresh : r.Fresh m) :
    m.key ∉ messages.map (·.key) := by
  intro hkey
  obtain ⟨a, ha, heq⟩ := List.mem_map.mp hkey
  have htime : a.timestamp = m.timestamp := congrArg Message.Key.timestamp heq
  exact hfresh.key ((h.seen m.key).mpr ⟨h.last_of_same_time hfresh ha htime, hkey⟩)

theorem seen_accept (h : Merged r messages) (hfresh : r.Fresh m) (k : Message.Key) :
    k ∈ (r.accept m).seen ↔
      (r.accept m).lastApplied = some k.timestamp ∧ k ∈ (messages ++ [m]).map (·.key) := by
  show k ∈ m.key :: (if r.lastApplied = some m.timestamp then r.seen else []) ↔
    some m.timestamp = some k.timestamp ∧ _
  rw [List.mem_cons, List.map_append, List.mem_append, List.map_singleton, List.mem_singleton,
    Option.some.injEq]
  constructor
  · rintro (rfl | hold)
    · exact ⟨rfl, .inr rfl⟩
    · split at hold
      · next hlast =>
          obtain ⟨htime, hmem⟩ := (h.seen k).mp hold
          exact ⟨Option.some.inj (hlast.symm.trans htime), .inl hmem⟩
      · cases hold
  · rintro ⟨htime, hmem | rfl⟩
    · obtain ⟨a, ha, rfl⟩ := List.mem_map.mp hmem
      have hlast := h.last_of_same_time hfresh ha htime.symm
      rw [if_pos hlast]
      exact .inr ((h.seen a.key).mpr ⟨hlast.trans (congrArg some htime), hmem⟩)
    · exact .inl rfl

theorem accept (h : Merged r messages) (hfresh : r.Fresh m) :
    Merged (r.accept m) (messages ++ [m]) where
  documents := by
    rw [List.map_append, List.sum_append, ← h.documents]
    simp [Replica.accept]
  frequencies := by
    intro t
    have hfold := h.frequencies.foldl m.changes t
    dsimp only at hfold ⊢
    rw [List.flatMap_append, total_append, List.flatMap_singleton]
    exact hfold
  last := by
    rw [List.getLast?_concat]
    rfl
  distinct := by
    rw [List.map_append, List.map_singleton, List.nodup_append]
    refine ⟨h.distinct, List.pairwise_singleton _ _, fun k hk k' hk' heq => ?_⟩
    rw [heq, List.mem_singleton.mp hk'] at hk
    exact h.key_not_mem hfresh hk
  ordered := by
    refine List.pairwise_append.mpr ⟨h.ordered, List.pairwise_singleton _ _, fun a ha b hb => ?_⟩
    rw [List.mem_singleton.mp hb]
    exact h.isLE_of_fresh hfresh ha
  seen := h.seen_accept hfresh

/-- What is taken is merged. -/
theorem afterAll (h : Merged r earlier) (messages : List Message) :
    Merged (r.afterAll messages) (earlier ++ r.taken messages) := by
  induction messages generalizing r earlier with
  | nil =>
      rw [taken, List.append_nil]
      exact h
  | cons m rest ih =>
      show Merged ((r.after m).afterAll rest) _
      by_cases hfresh : r.Fresh m
      · rw [taken_cons_of_fresh hfresh, after_of_fresh hfresh]
        have hrest := ih (h.accept hfresh)
        rwa [List.append_assoc] at hrest
      · rw [taken_cons_of_not_fresh hfresh, after_of_not_fresh hfresh]
        exact ih h

/-- Messages that are accepted one after the other are all merged. -/
theorem accepts (h : Merged r earlier) (haccepts : Accepts r messages) :
    Merged (messages.foldl Replica.accept r) (earlier ++ messages) := by
  induction messages generalizing r earlier with
  | nil =>
      rw [List.append_nil]
      exact h
  | cons m rest ih =>
      obtain ⟨hkey, htimely⟩ := haccepts.fresh m List.mem_cons_self
      rw [List.foldl_cons, List.append_cons]
      exact ih (h.accept ⟨hkey, htimely⟩) haccepts.tail

/-- A message from after the last one is new. -/
theorem fresh_of_newer (h : Merged r earlier)
    (hnewer : ∀ last, r.lastApplied = some last → compare last m.timestamp = .lt) : r.Fresh m where
  key hseen := by
    have hlt := hnewer m.timestamp ((h.seen m.key).mp hseen).1
    rw [Std.ReflOrd.compare_self] at hlt
    cases hlt
  timestamp last hlast := by
    rw [isBefore_eq_false_iff, hnewer last hlast]
    rfl

/-- The terms of a replica are those whose sum is not zero. -/
theorem mem_terms (h : Merged r messages) {t : Term} {n : Int} :
    (t, n) ∈ r.terms ↔ n = total t (messages.flatMap (·.changes)) ∧ n ≠ 0 := by
  rw [terms, SortedMap.mem_toList, h.frequencies t, entry]
  split
  · next hzero => simp [hzero]
  · next hsum =>
      rw [Option.some.injEq]
      constructor
      · rintro rfl
        exact ⟨rfl, hsum⟩
      · exact fun hn => hn.1.symm

end Merged

/-! ## The order of messages -/

/-- Replicas that differ in the order of the keys that they remember, if in anything. -/
structure Same (r r' : Replica) : Prop where
  documents : r.documents = r'.documents
  frequencies : r.frequencies = r'.frequencies
  lastApplied : r.lastApplied = r'.lastApplied
  seen : ∀ k, k ∈ r.seen ↔ k ∈ r'.seen

theorem Same.refl (r : Replica) : Same r r := ⟨rfl, rfl, rfl, fun _ => Iff.rfl⟩

/-- Replicas that are the same answer alike. -/
theorem Same.answer_eq (h : Same r r') (m : Message) : r.answer m = r'.answer m := by
  unfold answer
  rw [receive_eq, receive_eq, apply, apply, h.lastApplied]
  simp only [h.seen m.key]
  split
  · rfl
  · cases r'.lastApplied with
    | none => rfl
    | some last =>
        dsimp only
        split <;> rfl

/-- Replicas that are the same stay the same. -/
theorem Same.after (h : Same r r') (m : Message) : Same (r.after m) (r'.after m) := by
  by_cases hfresh : r.Fresh m
  · have hfresh' : r'.Fresh m := by
      rwa [← answer_eq_true_iff, ← h.answer_eq, answer_eq_true_iff]
    rw [after_of_fresh hfresh, after_of_fresh hfresh']
    refine ⟨by rw [accept, accept, h.documents], by rw [accept, accept, h.frequencies], rfl,
      fun k => ?_⟩
    show k ∈ m.key :: (if r.lastApplied = some m.timestamp then r.seen else []) ↔
      k ∈ m.key :: (if r'.lastApplied = some m.timestamp then r'.seen else [])
    rw [h.lastApplied, List.mem_cons, List.mem_cons]
    split
    · rw [h.seen k]
    · exact Iff.rfl
  · have hfresh' : ¬ r'.Fresh m := by
      rwa [← answer_eq_true_iff, ← h.answer_eq, answer_eq_true_iff]
    rwa [after_of_not_fresh hfresh, after_of_not_fresh hfresh']

namespace Merged

variable {other : List Message}

/-- The last timestamp is that of a message merged. -/
theorem last_mem (h : Merged r messages) {last : TimeStamp} (hlast : r.lastApplied = some last) :
    ∃ a ∈ messages, a.timestamp = last := by
  rw [h.last, Option.map_eq_some_iff] at hlast
  obtain ⟨a, ha, htime⟩ := hlast
  exact ⟨a, List.mem_of_getLast? ha, htime⟩

/-- The last timestamp does not depend on the order of the messages. -/
theorem last_isLE (h : Merged r messages) (h' : Merged r' other) (hperm : messages.Perm other)
    {last : TimeStamp} (hlast : r.lastApplied = some last) :
    ∃ last', r'.lastApplied = some last' ∧ (compare last last').isLE = true := by
  obtain ⟨a, ha, rfl⟩ := h.last_mem hlast
  exact h'.isLE_last (hperm.mem_iff.mp ha)

theorem lastApplied_eq (h : Merged r messages) (h' : Merged r' other)
    (hperm : messages.Perm other) : r.lastApplied = r'.lastApplied := by
  cases hlast : r.lastApplied with
  | none =>
      cases hlast' : r'.lastApplied with
      | none => rfl
      | some last' =>
          obtain ⟨last, hsome, -⟩ := h'.last_isLE h hperm.symm hlast'
          rw [hlast] at hsome
          cases hsome
  | some last =>
      obtain ⟨last', hlast', hle⟩ := h.last_isLE h' hperm hlast
      obtain ⟨last'', hlast'', hge⟩ := h'.last_isLE h hperm.symm hlast'
      rw [hlast] at hlast''
      cases hlast''
      rw [hlast', Std.LawfulEqOrd.eq_of_compare (Std.OrientedCmp.isLE_antisymm hle hge)]

/-- A replica is what it has merged, in whatever order. -/
theorem same_of_perm (h : Merged r messages) (h' : Merged r' other)
    (hperm : messages.Perm other) : Same r r' where
  documents := by
    rw [h.documents, h'.documents]
    exact (hperm.map _).sum_eq
  frequencies := by
    refine SortedMap.ext_get? fun t => ?_
    have htotal : total t (messages.flatMap (·.changes)) = total t (other.flatMap (·.changes)) :=
      ((hperm.flatMap_right _).map _).sum_eq
    rw [h.frequencies t, h'.frequencies t]
    exact congrArg entry htotal
  lastApplied := h.lastApplied_eq h' hperm
  seen := by
    intro k
    rw [h.seen k, h'.seen k, h.lastApplied_eq h' hperm, (hperm.map _).mem_iff]

/-- Blobs in the order of their times are never refused, and all of them are new just if no key comes
twice. -/
theorem applyBlobs (h : Merged r earlier) (hsend : ∀ m ∈ messages, m.Sendable)
    (hordered : (earlier ++ messages).Pairwise
      fun a b => (compare a.timestamp b.timestamp).isLE = true) :
    ∃ answers r', r.applyBlobs (messages.map Blob.encode) = .ok (answers, r') ∧
      ((∀ new ∈ answers, new = true) ↔ ((earlier ++ messages).map (·.key)).Nodup) ∧
      ((∀ new ∈ answers, new = true) → Merged r' (earlier ++ messages)) := by
  induction messages generalizing r earlier with
  | nil =>
      rw [List.append_nil]
      exact ⟨[], r, rfl, ⟨fun _ => h.distinct, fun _ => nofun⟩, fun _ => h⟩
  | cons m rest ih =>
      obtain ⟨hm, hrest⟩ := List.forall_mem_cons.mp hsend
      have htimely : ∀ last, r.lastApplied = some last → m.timestamp.isBefore last = false := by
        intro last hlast
        obtain ⟨a, ha, rfl⟩ := h.last_mem hlast
        exact isBefore_eq_false_iff.mpr
          ((List.pairwise_append.mp hordered).2.2 a ha m List.mem_cons_self)
      by_cases hseen : m.key ∈ r.seen
      · -- the message is ignored
        obtain ⟨answers, r', happly, -⟩ := ih h hrest
          (hordered.sublist ((List.Sublist.refl earlier).append (List.sublist_cons_self m rest)))
        have hfalse : ¬ ∀ new ∈ false :: answers, new = true :=
          fun hall => Bool.false_ne_true (hall false List.mem_cons_self)
        refine ⟨false :: answers, r', ?_, iff_of_false hfalse fun hnodup => ?_,
          fun hall => absurd hall hfalse⟩
        · rw [List.map_cons, Replica.applyBlobs, applyBlob_encode hm, apply, if_pos hseen]
          exact Fallible.bind_of_ok happly _
        · rw [List.map_append] at hnodup
          exact (List.nodup_append.mp hnodup).2.2 m.key ((h.seen m.key).mp hseen).2 m.key
            (List.mem_map_of_mem List.mem_cons_self) rfl
      · rw [List.append_cons] at hordered ⊢
        obtain ⟨answers, r', happly, hiff, hmerged⟩ := ih (h.accept ⟨hseen, htimely⟩) hrest hordered
        have hcons : (∀ new ∈ true :: answers, new = true) ↔ ∀ new ∈ answers, new = true := by
          simp
        refine ⟨true :: answers, r', ?_, hcons.trans hiff, fun hall => hmerged (hcons.mp hall)⟩
        have hnew : r.apply m = .ok (true, r.accept m) := by
          rw [apply, if_neg hseen]
          split
          · next last hlast => rw [htimely last hlast, if_neg Bool.false_ne_true]
          · rfl
        rw [List.map_cons, Replica.applyBlobs, applyBlob_encode hm, hnew]
        exact Fallible.bind_of_ok happly _

end Merged

/-- Messages of one time that are told apart by their keys. -/
structure Batch (messages : List Message) : Prop where
  timestamp : ∀ a ∈ messages, ∀ b ∈ messages, a.timestamp = b.timestamp
  key : ∀ a ∈ messages, ∀ b ∈ messages, a.key = b.key → a = b

theorem Batch.tail (h : Batch (m :: messages)) : Batch messages where
  timestamp a ha b hb :=
    h.timestamp a (List.mem_cons_of_mem _ ha) b (List.mem_cons_of_mem _ hb)
  key a ha b hb := h.key a (List.mem_cons_of_mem _ ha) b (List.mem_cons_of_mem _ hb)

/-- A message that is not older than the last one. -/
abbrev Timely (r : Replica) (m : Message) : Prop :=
  ∀ last, r.lastApplied = some last → m.timestamp.isBefore last = false

theorem timely_accept (h : Batch (m :: messages)) {a : Message} (ha : a ∈ messages) :
    (r.accept m).Timely a := by
  intro last hlast
  cases hlast
  rw [h.timestamp a (List.mem_cons_of_mem _ ha) m List.mem_cons_self]
  exact isBefore_self _

/-- What a timely batch brings that is new: the messages whose keys were not merged before. -/
theorem Merged.mem_taken (h : Merged r earlier) (hbatch : Batch messages)
    (htimely : ∀ a ∈ messages, r.Timely a) (a : Message) :
    a ∈ r.taken messages ↔ a ∈ messages ∧ a.key ∉ earlier.map (·.key) := by
  induction messages generalizing r earlier with
  | nil => simp [taken]
  | cons m rest ih =>
      by_cases hfresh : r.Fresh m
      · have hrest := ih (h.accept hfresh) hbatch.tail fun b hb => timely_accept hbatch hb
        rw [taken_cons_of_fresh hfresh, List.mem_cons, hrest, List.mem_cons, List.map_append,
          List.mem_append, List.map_singleton, List.mem_singleton]
        constructor
        · rintro (rfl | ⟨ha, hkey⟩)
          · exact ⟨.inl rfl, h.key_not_mem hfresh⟩
          · exact ⟨.inr ha, fun hold => hkey (.inl hold)⟩
        · rintro ⟨rfl | ha, hkey⟩
          · exact .inl rfl
          · by_cases hsame : a.key = m.key
            · exact .inl (hbatch.key a (List.mem_cons_of_mem _ ha) m List.mem_cons_self hsame)
            · exact .inr ⟨ha, fun hold => hold.elim hkey hsame⟩
      · -- a timely message that is not new was merged before
        have hkey : m.key ∈ earlier.map (·.key) := by
          by_contra hkey
          refine hfresh ⟨fun hseen => hkey ((h.seen m.key).mp hseen).2, ?_⟩
          exact htimely m List.mem_cons_self
        rw [taken_cons_of_not_fresh hfresh, ih h hbatch.tail fun b hb =>
          htimely b (List.mem_cons_of_mem _ hb), List.mem_cons]
        constructor
        · exact fun ⟨ha, hold⟩ => ⟨.inr ha, hold⟩
        · rintro ⟨rfl | ha, hold⟩
          · exact absurd hkey hold
          · exact ⟨ha, hold⟩

theorem afterAll_of_not_fresh (h : ∀ a ∈ messages, ¬ r.Fresh a) : r.afterAll messages = r := by
  induction messages with
  | nil => rfl
  | cons m rest ih =>
      obtain ⟨hm, hrest⟩ := List.forall_mem_cons.mp h
      show (r.after m).afterAll rest = r
      rw [after_of_not_fresh hm, ih hrest]

/-- A batch may come in any order and as often as it likes. -/
theorem Merged.same_of_batch (h : Merged r earlier) (hbatch : Batch messages)
    {other : List Message} (hmem : ∀ a, a ∈ other ↔ a ∈ messages) :
    Same (r.afterAll messages) (r.afterAll other) := by
  by_cases htimely : ∀ a ∈ messages, r.Timely a
  · have hother : Batch other := by
      refine ⟨fun a ha b hb => ?_, fun a ha b hb => ?_⟩
      · exact hbatch.timestamp a ((hmem a).mp ha) b ((hmem b).mp hb)
      · exact hbatch.key a ((hmem a).mp ha) b ((hmem b).mp hb)
    have honce : ∀ messages, (r.taken messages).Nodup := by
      intro messages
      have hdistinct := (h.afterAll messages).distinct
      rw [List.map_append] at hdistinct
      exact List.Nodup.of_map _ (List.nodup_append.mp hdistinct).2.1
    have hperm : (r.taken messages).Perm (r.taken other) := by
      refine (List.perm_ext_iff_of_nodup (honce messages) (honce other)).mpr fun a => ?_
      rw [h.mem_taken hbatch htimely, h.mem_taken hother fun b hb => htimely b ((hmem b).mp hb),
        hmem a]
    exact (h.afterAll messages).same_of_perm (h.afterAll other) (hperm.append_left earlier)
  · -- one message comes too late, and with it all
    obtain ⟨late, hlate, hold⟩ := not_forall₂.mp htimely
    have hstale : ∀ a ∈ messages, ¬ r.Fresh a := by
      intro a ha hfresh
      refine hold fun last hlast => ?_
      rw [hbatch.timestamp late hlate a ha]
      exact hfresh.timestamp last hlast
    rw [afterAll_of_not_fresh hstale,
      afterAll_of_not_fresh fun a ha => hstale a ((hmem a).mp ha)]
    exact .refl r

/-- Whatever messages a replica is brought, one call after the other: it is the sum of those that
were new to it, these come in the order of their times and with keys of their own, and a call whose
message is not new leaves everything as it is. So to bring a message once more changes nothing, and
messages of one time may come in any order and as often as they like. -/
theorem merging_is_sound (messages : List Message) :
    let r := afterAll {} messages
    let new := taken {} messages
    ((new.map (·.key)).Nodup ∧
        new.Pairwise (fun a b => (compare a.timestamp b.timestamp).isLE = true) ∧
        r.lastApplied = new.getLast?.map (·.timestamp)) ∧
      (r.documents = (new.map (·.documents)).sum ∧
        (∀ t, r.documentFrequency t = total t (new.flatMap (·.changes))) ∧
        r.terms.Pairwise (fun a b => compare a.1 b.1 = .lt) ∧
        ∀ t n, (t, n) ∈ r.terms ↔ n = total t (new.flatMap (·.changes)) ∧ n ≠ 0) ∧
      (∀ m, r.answer m ≠ .ok true → r.after m = r) ∧
      (∀ m, (r.after m).after m = r.after m) ∧
      ∀ batch again, Batch batch → (∀ m, m ∈ again ↔ m ∈ batch) →
        Same (r.afterAll batch) (r.afterAll again) := by
  have hmerged : Merged (afterAll {} messages) (taken {} messages) := by
    have h := merged_empty.afterAll messages
    rwa [List.nil_append] at h
  refine ⟨⟨hmerged.distinct, hmerged.ordered, hmerged.last⟩,
    ⟨hmerged.documents, fun t => hmerged.frequencies.getD t, ?_, fun t n => hmerged.mem_terms⟩,
    fun m hanswer => after_of_not_fresh (mt answer_eq_true_iff.mpr hanswer),
    fun m => after_of_not_fresh (not_fresh_after _ m),
    fun batch again hbatch hmem => hmerged.same_of_batch hbatch hmem⟩
  exact (afterAll {} messages).frequencies.ascending

end Concordance.Statistics.Replica
