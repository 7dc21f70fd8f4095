import Concordance.Proofs.Recovery.Checkpoint

/-!
# No number is lost

Whatever a numbering is asked to do from the beginning on, every number up to the greatest one that
was handed out is live, free or parked, and only one of these (`Complete`). Each call moves a number
from one kind to another: an allocation takes the smallest free one, a deletion parks one, and what
is reclaimed or written to an image becomes free. The numbers that an explicit assignment skips are
the only ones that become free without having been live.
-/

namespace Concordance.Numbering

/-! ## Calls -/

/-- A call of a numbering. -/
inductive Call where
  | allocate (id : String)
  | assign (id : String) (number : Nat)
  | release (id : String) (generation : Nat)
  | reclaim (oldestReader : Option Nat)
  /-- The numbering is written to an image and goes on from that. -/
  | restore
  deriving DecidableEq, Repr

namespace Call

/-- The numbering after a call. -/
def run (n : Numbering) : Call → Numbering
  | allocate id => (n.allocate id).2
  | assign id number => n.assign id number
  | release id generation => ((n.release id generation).map (·.2)).getD n
  | reclaim oldestReader => (n.reclaim oldestReader).2
  | restore => ofImage n.image

/-- A number is assigned only if it is neither live nor parked, and to an identifier that has none.
All other calls are admissible at any time. -/
def Admissible (n : Numbering) : Call → Prop
  | assign id number =>
    n.number? id = none ∧ 1 ≤ number ∧ (∀ x, n.id? number ≠ some x) ∧
      ∀ generation, (generation, number) ∉ n.parked
  | _ => True

end Call

/-- The numberings that calls lead to. -/
inductive Reached : Numbering → Prop where
  | new : Reached {}
  | call {n : Numbering} (c : Call) : Reached n → c.Admissible n → Reached (c.run n)

/-! ## Complete numberings -/

/-- Every number that was handed out is of one kind: live, free or parked, and parked only once. -/
structure Complete (n : Numbering) : Prop extends n.Sane where
  parked_not_live : ∀ d, n.IsParked d → ¬ n.IsLive d
  parked_nodup : (n.parked.map (·.2)).Nodup
  covered : ∀ d, 1 ≤ d → d < n.next → n.IsLive d ∨ n.IsFree d ∨ n.IsParked d

namespace Complete

variable {n : Numbering}

theorem new : Complete {} where
  toSane := .new
  parked_not_live _ h := by simp [IsParked] at h
  parked_nodup := List.nodup_nil
  covered d hd hnext := by
    have hone : d < 1 := hnext
    omega

/-- No number is parked twice, by commits of any age. -/
theorem orderly (h : n.Complete) : n.Orderly 0 where
  toSane := h.toSane
  parked_not_live := h.parked_not_live
  parked_once := (List.pairwise_map.mp h.parked_nodup).imp fun hne heq => absurd heq hne

theorem assign (h : n.Complete) {id : String} {d : Nat} (hd : 1 ≤ d) (hid : n.number? id = none)
    (hlive : ¬ n.IsLive d) (hparked : ¬ n.IsParked d) : (n.assign id d).Complete where
  toSane := (h.orderly.assign hd hid hlive hparked).toSane
  parked_not_live := (h.orderly.assign hd hid hlive hparked).parked_not_live
  parked_nodup := h.parked_nodup
  covered x hx hnext := by
    rw [next_assign] at hnext
    by_cases hxd : x = d
    · exact .inl ⟨id, by rw [id?_assign, if_pos hxd]⟩
    · by_cases hskipped : n.next ≤ x
      · exact .inr (.inl (isFree_assign.mpr (.inl ⟨hskipped, by omega⟩)))
      · rcases h.covered x hx (by omega) with ⟨y, hy⟩ | hfree | hpark
        · exact .inl ⟨y, by rw [id?_assign, if_neg hxd, hy]⟩
        · exact .inr (.inl (isFree_assign.mpr (.inr ⟨hxd, hfree⟩)))
        · exact .inr (.inr hpark)

theorem allocate (h : n.Complete) (id : String) : (n.allocate id).2.Complete := by
  cases hid : n.number? id with
  | some d =>
      rw [allocate_of_mapped hid]
      exact h
  | none =>
      rw [allocate_of_unmapped hid]
      exact h.assign (candidate_range h.toSane).1 hid (candidate_not_live h.toSane)
        (candidate_not_parked h.toSane)

theorem release (h : n.Complete) {id : String} {g d : Nat} {n' : Numbering}
    (hrel : n.release id g = some (d, n')) : n'.Complete := by
  obtain ⟨hnumber, -, hids, hparked, hfree, hnext⟩ := release_eq_some hrel
  have hlive : n.IsLive d := ⟨id, (h.inverse id d).mp hnumber⟩
  refine ⟨h.toSane.release hrel, (h.orderly.release hrel).parked_not_live, ?_, ?_⟩
  · -- the number was live, so it was not parked before
    rw [hparked, List.map_append, List.map_singleton]
    refine List.nodup_append.mpr ⟨h.parked_nodup, List.pairwise_singleton _ d, ?_⟩
    rintro x hx y hy rfl
    obtain ⟨⟨g', _⟩, hp, rfl⟩ := List.mem_map.mp hx
    cases List.mem_singleton.mp hy
    exact h.parked_not_live _ ⟨g', hp⟩ hlive
  · intro x hx hlt
    rw [hnext] at hlt
    by_cases hxd : x = d
    · exact .inr (.inr ⟨g, by rw [hparked, hxd]; exact List.mem_append_right _ List.mem_cons_self⟩)
    · rcases h.covered x hx hlt with ⟨y, hy⟩ | hxfree | ⟨g', hg'⟩
      · exact .inl ⟨y, by rw [hids, if_neg hxd, hy]⟩
      · exact .inr (.inl (by rwa [IsFree, hfree]))
      · exact .inr (.inr ⟨g', by rw [hparked]; exact List.mem_append_left _ hg'⟩)

theorem reclaim (h : n.Complete) (oldest : Option Nat) : (n.reclaim oldest).2.Complete := by
  have horderly : (n.reclaim oldest).2.Orderly 0 := h.orderly.reclaim fun g _ => Nat.zero_le g
  refine ⟨horderly.toSane, horderly.parked_not_live, ?_, fun x hx hnext => ?_⟩
  · have hkept : ((n.reclaim oldest).2.parked).Sublist n.parked := by
      show (n.parked.partition fun p => releasable oldest p.1).2.Sublist n.parked
      rw [List.partition_eq_filter_filter]
      exact List.filter_sublist
    exact (hkept.map _).nodup h.parked_nodup
  · rcases h.covered x hx hnext with hlive | hfree | ⟨g, hg⟩
    · exact .inl hlive
    · exact .inr (.inl (isFree_reclaim.mpr (.inl hfree)))
    · cases hreleased : releasable oldest g with
      | true => exact .inr (.inl (isFree_reclaim.mpr (.inr ⟨g, hg, hreleased⟩)))
      | false => exact .inr (.inr ⟨g, mem_parked_reclaim.mpr ⟨hg, hreleased⟩⟩)

theorem restored (h : n.Complete) : n.restored.Complete where
  toSane := (h.orderly.restored 0).toSane
  parked_not_live := (h.orderly.restored 0).parked_not_live
  parked_nodup := List.nodup_nil
  covered d hd hnext := by
    rw [next_restored h.toSane] at hnext
    rw [isLive_restored, isFree_restored]
    rcases h.covered d hd hnext with hlive | hfree | hparked
    · exact .inl hlive
    · exact .inr (.inl (.inl hfree))
    · exact .inr (.inl (.inr hparked))

/-- Every call keeps the books. -/
theorem run (h : n.Complete) {c : Call} (hc : c.Admissible n) : (c.run n).Complete := by
  cases c with
  | allocate id => exact h.allocate id
  | assign id number =>
      obtain ⟨hid, hnumber, hlive, hparked⟩ := hc
      exact h.assign hnumber hid (fun ⟨x, hx⟩ => hlive x hx) fun ⟨g, hg⟩ => hparked g hg
  | release id generation =>
      show (((n.release id generation).map (·.2)).getD n).Complete
      cases hrel : n.release id generation with
      | none => exact h
      | some released => exact h.release hrel
  | reclaim oldestReader => exact h.reclaim oldestReader
  | restore => exact h.restored

/-- The three kinds of numbers, one behind the other, are the numbers that were handed out. -/
theorem numbers_perm (h : n.Complete) :
    (n.ids.keys ++ n.free.keys ++ n.parked.map (·.2)).Perm (List.range' 1 n.maxNumber) := by
  have hlive : ∀ {d}, d ∈ n.ids.keys ↔ n.IsLive d := SortedMap.mem_keys
  have hparked : ∀ {d}, d ∈ n.parked.map (·.2) ↔ n.IsParked d := by simp [IsParked]
  have hnodup : (n.ids.keys ++ n.free.keys ++ n.parked.map (·.2)).Nodup := by
    refine List.nodup_append.mpr
      ⟨List.nodup_append.mpr ⟨n.ids.nodup_keys, n.free.nodup_keys, ?_⟩, h.parked_nodup, ?_⟩
    · rintro d hd e hfree rfl
      exact h.free_not_live d (isFree_iff_mem_keys.mpr hfree) (hlive.mp hd)
    · rintro d hd e hpark rfl
      rcases List.mem_append.mp hd with hd | hd
      · exact h.parked_not_live d (hparked.mp hpark) (hlive.mp hd)
      · exact h.parked_not_free d (hparked.mp hpark) (isFree_iff_mem_keys.mpr hd)
  refine (List.perm_ext_iff_of_nodup hnodup List.nodup_range').mpr fun d => ?_
  rw [List.mem_append, List.mem_append, hlive, ← isFree_iff_mem_keys, hparked, List.mem_range'_1,
    maxNumber, or_assoc]
  have hpositive := h.next_pos
  constructor
  · rintro (hd | hd | hd)
    · have := h.live_range d hd
      omega
    · have := h.free_range d hd
      omega
    · have := h.parked_range d hd
      omega
  · rintro ⟨hd, hmax⟩
    exact h.covered d hd (by omega)

end Complete

theorem Reached.complete {n : Numbering} (h : n.Reached) : n.Complete := by
  induction h with
  | new => exact .new
  | call c _ hc ih => exact ih.run hc

/-- The candidate is the smallest free number, or the one behind all numbers if none is free. -/
theorem candidate_least {n : Numbering} (h : n.Sane) :
    n.IsFree n.candidate ∧ (∀ e, n.IsFree e → n.candidate ≤ e) ∨
      (∀ e, ¬ n.IsFree e) ∧ n.candidate = n.maxNumber + 1 := by
  have hascend := n.free.keys_ascend
  unfold candidate
  simp only [isFree_iff_mem_keys]
  cases hkeys : n.free.keys with
  | nil =>
      have := h.next_pos
      exact .inr ⟨fun e => List.not_mem_nil, by rw [List.headD_nil, maxNumber]; omega⟩
  | cons d rest =>
      rw [hkeys] at hascend
      refine .inl ⟨List.mem_cons_self, fun e he => ?_⟩
      rcases List.mem_cons.mp he with rfl | he
      · exact Nat.le_refl _
      · exact Nat.le_of_lt (Nat.compare_eq_lt.mp ((List.pairwise_cons.mp hascend).1 e he))

/-- An identifier without a number is given a number that nobody has or can still see: the smallest
free one, or else the one behind all. -/
structure Gives (n : Numbering) (id : String) : Prop where
  least : n.IsFree (n.allocate id).1 ∧ (∀ e, n.IsFree e → (n.allocate id).1 ≤ e) ∨
    (∀ e, ¬ n.IsFree e) ∧ (n.allocate id).1 = n.maxNumber + 1
  not_live : ¬ n.IsLive (n.allocate id).1
  not_parked : ¬ n.IsParked (n.allocate id).1
  mapped : (n.allocate id).2.number? id = some (n.allocate id).1

theorem Complete.gives {n : Numbering} (h : n.Complete) {id : String} (hid : n.number? id = none) :
    n.Gives id := by
  have hgiven := allocate_of_unmapped hid
  refine ⟨?_, ?_, ?_, ?_⟩
  · rw [hgiven]
    exact candidate_least h.toSane
  · rw [hgiven]
    exact candidate_not_live h.toSane
  · rw [hgiven]
    exact candidate_not_parked h.toSane
  · rw [hgiven, number?_assign, if_pos rfl]

/-- A numbering that differs from another one only in that the parked numbers are free. -/
structure Frees (n n' : Numbering) : Prop where
  numbers : n'.numbers = n.numbers
  ids : n'.ids = n.ids
  next : n'.next = n.next
  parked : n'.parked = []
  free : ∀ d, n'.IsFree d ↔ n.IsFree d ∨ n.IsParked d

/-- Whatever calls led to a numbering, its two maps are inverse to each other, and the live, the
free and the parked numbers are the numbers up to the greatest one, each once. A new identifier is
given the smallest free number or the next one, and an image turns the parked numbers free and
changes nothing else. -/
theorem numbers_accounted_for {n : Numbering} (h : n.Reached) :
    (∀ id d, n.number? id = some d ↔ n.id? d = some id) ∧
    (n.ids.keys ++ n.free.keys ++ n.parked.map (·.2)).Perm (List.range' 1 n.maxNumber) ∧
    (∀ id, n.number? id = none → n.Gives id) ∧
    n.Frees (ofImage n.image) := by
  have hcomplete := h.complete
  refine ⟨hcomplete.inverse, hcomplete.numbers_perm, fun id => hcomplete.gives, ?_⟩
  exact {
    numbers := numbers_restored hcomplete.toSane
    ids := ids_restored n
    next := next_restored hcomplete.toSane
    parked := rfl
    free := fun d => isFree_restored }

/-- The number 3 is taken, so 1 and 2 are free, and 1 is given out. Then 3 is parked. -/
def skipping : Numbering :=
  Call.run (Call.run (Call.run {} (.assign "x" 3)) (.allocate "y")) (.release "x" 1)

theorem numbers_accounted_for_skipping :
    skipping.Reached ∧ skipping.ids.keys = [1] ∧ skipping.free.keys = [2] ∧
      skipping.parked = [(1, 3)] ∧ (ofImage skipping.image).IsFree 3 ∧
      skipping.Frees (ofImage skipping.image) ∧ skipping.Gives "z" := by
  have hassigned : (Call.assign "x" 3).Admissible {} :=
    ⟨rfl, by decide, fun x => by simp [id?], fun g => List.not_mem_nil⟩
  have hreached : skipping.Reached :=
    ((Reached.new.call _ hassigned).call (.allocate "y") trivial).call (.release "x" 1) trivial
  obtain ⟨-, -, hgives, hfrees⟩ := numbers_accounted_for hreached
  have hparked : skipping.parked = [(1, 3)] := by decide +kernel
  have hfreed : (ofImage skipping.image).IsFree 3 :=
    (hfrees.free 3).mpr (.inr ⟨1, by rw [hparked]; exact List.mem_cons_self⟩)
  exact ⟨hreached, by decide +kernel, by decide +kernel, hparked, hfreed, hfrees,
    hgives "z" (by decide +kernel)⟩

end Concordance.Numbering
