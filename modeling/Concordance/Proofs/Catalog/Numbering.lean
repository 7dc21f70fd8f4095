import Concordance.Catalog.Numbering
import Concordance.Proofs.SortedMap

/-!
# What a numbering keeps

A number is *live* (mapped), *free* or *parked*. This module says what each operation does to the
two maps and to the three kinds of numbers, and from that derives

* `Sane`, which every operation keeps, the insertion of a given number included: the two maps are
  inverse to each other, and a number that waits in `free` is not live;
* `Orderly floor`, which a session keeps: parked numbers are not live either, and no number is
  parked twice by commits after the generation `floor` that the session started from.

The number that a new identifier is given is neither live nor parked (`candidate_not_live`,
`candidate_not_parked`).
-/

namespace Concordance.Numbering

/-- A number is mapped to an identifier. -/
def IsLive (n : Numbering) (d : Nat) : Prop := ∃ id, n.id? d = some id

/-- A number may be handed out again. -/
def IsFree (n : Numbering) (d : Nat) : Prop := n.free.get? d = some ()

/-- A number was given back and waits until no reader can refer to it. -/
def IsParked (n : Numbering) (d : Nat) : Prop := ∃ g, (g, d) ∈ n.parked

theorem isFree_iff_mem_keys {n : Numbering} {d : Nat} : n.IsFree d ↔ d ∈ n.free.keys := by
  rw [IsFree, SortedMap.mem_keys]
  exact ⟨fun h => ⟨(), h⟩, fun ⟨(), h⟩ => h⟩

theorem not_isLive_iff {n : Numbering} {d : Nat} : ¬ n.IsLive d ↔ n.id? d = none := by
  unfold IsLive
  cases n.id? d <;> simp

/-! ## The operations on the two maps -/

@[simp] theorem number?_assign (n : Numbering) (id x : String) (d : Nat) :
    (n.assign id d).number? x = if x = id then some d else n.number? x :=
  SortedMap.get?_insert _ _ _ _

@[simp] theorem id?_assign (n : Numbering) (id : String) (d x : Nat) :
    (n.assign id d).id? x = if x = d then some id else n.id? x :=
  SortedMap.get?_insert _ _ _ _

@[simp] theorem next_assign (n : Numbering) (id : String) (d : Nat) :
    (n.assign id d).next = max n.next (d + 1) := rfl

@[simp] theorem parked_assign (n : Numbering) (id : String) (d : Nat) :
    (n.assign id d).parked = n.parked := rfl

/-- Numbers that are skipped become free, the one that is taken stops being free. -/
theorem isFree_assign {n : Numbering} {id : String} {d x : Nat} :
    (n.assign id d).IsFree x ↔ (n.next ≤ x ∧ x < d) ∨ (x ≠ d ∧ n.IsFree x) := by
  have hskipped : x ∈ List.range' n.next (d - n.next) ↔ n.next ≤ x ∧ x < d := by
    rw [List.mem_range'_1]
    omega
  show (((List.range' n.next (d - n.next)).foldl (fun f s => f.insert s ())
    (n.free.erase d)).get? x = some ()) ↔ _
  rw [SortedMap.get?_foldl_insert_unit, SortedMap.get?_erase]
  by_cases hx : x ∈ List.range' n.next (d - n.next)
  · simp only [if_pos hx, true_iff]
    exact .inl (hskipped.mp hx)
  · have hnot : ¬ (n.next ≤ x ∧ x < d) := fun h => hx (hskipped.mpr h)
    rw [if_neg hx]
    by_cases hxd : x = d <;> simp [hxd, hnot, IsFree]

theorem release_eq_none_iff {n : Numbering} {id : String} {g : Nat} :
    n.release id g = none ↔ n.number? id = none := by
  simp [release]

/-- What a release does: the identifier and its number leave the maps, the number is parked. -/
theorem release_eq_some {n n' : Numbering} {id : String} {g d : Nat}
    (h : n.release id g = some (d, n')) :
    n.number? id = some d ∧
      (∀ x, n'.number? x = if x = id then none else n.number? x) ∧
      (∀ x, n'.id? x = if x = d then none else n.id? x) ∧
      n'.parked = n.parked ++ [(g, d)] ∧ n'.free = n.free ∧ n'.next = n.next := by
  obtain ⟨d', hd', heq⟩ := Option.map_eq_some_iff.mp h
  cases heq
  exact ⟨hd', SortedMap.get?_erase _ _, SortedMap.get?_erase _ _, rfl, rfl, rfl⟩

theorem isLive_of_release {n n' : Numbering} {id : String} {g d x : Nat}
    (h : n.release id g = some (d, n')) (hx : n'.IsLive x) : x ≠ d ∧ n.IsLive x := by
  obtain ⟨-, -, hids, -, -, -⟩ := release_eq_some h
  obtain ⟨y, hy⟩ := hx
  rw [hids] at hy
  by_cases hxd : x = d
  · rw [if_pos hxd] at hy
    cases hy
  · rw [if_neg hxd] at hy
    exact ⟨hxd, y, hy⟩

theorem isParked_of_release {n n' : Numbering} {id : String} {g d x : Nat}
    (h : n.release id g = some (d, n')) (hx : n'.IsParked x) : x = d ∨ n.IsParked x := by
  obtain ⟨-, -, -, hparked, -, -⟩ := release_eq_some h
  obtain ⟨e, he⟩ := hx
  rw [hparked, List.mem_append, List.mem_singleton] at he
  rcases he with he | he
  · exact .inr ⟨e, he⟩
  · exact .inl (congrArg Prod.snd he)

@[simp] theorem number?_reclaim (n : Numbering) (oldest : Option Nat) (x : String) :
    (n.reclaim oldest).2.number? x = n.number? x := rfl

@[simp] theorem id?_reclaim (n : Numbering) (oldest : Option Nat) (x : Nat) :
    (n.reclaim oldest).2.id? x = n.id? x := rfl

@[simp] theorem next_reclaim (n : Numbering) (oldest : Option Nat) :
    (n.reclaim oldest).2.next = n.next := rfl

@[simp] theorem numbers_reclaim (n : Numbering) (oldest : Option Nat) :
    (n.reclaim oldest).2.numbers = n.numbers := rfl

/-- What stays parked is what a reader may still refer to. -/
theorem mem_parked_reclaim {n : Numbering} {oldest : Option Nat} {p : Nat × Nat} :
    p ∈ (n.reclaim oldest).2.parked ↔ p ∈ n.parked ∧ releasable oldest p.1 = false := by
  show p ∈ (n.parked.partition fun p => releasable oldest p.1).2 ↔ _
  simp [List.partition_eq_filter_filter]

theorem isFree_reclaim {n : Numbering} {oldest : Option Nat} {x : Nat} :
    (n.reclaim oldest).2.IsFree x ↔
      n.IsFree x ∨ ∃ g, (g, x) ∈ n.parked ∧ releasable oldest g = true := by
  show ((n.parked.partition fun p => releasable oldest p.1).1.foldl
    (fun f p => f.insert p.2 ()) n.free).get? x = some () ↔ _
  rw [List.partition_eq_filter_filter, ← List.foldl_map (f := Prod.snd)
    (g := fun (f : SortedMap Nat Unit) k => f.insert k ()), SortedMap.get?_foldl_insert_unit]
  have hmem : x ∈ (n.parked.filter fun p => releasable oldest p.1).map Prod.snd ↔
      ∃ g, (g, x) ∈ n.parked ∧ releasable oldest g = true := by
    simp [List.mem_filter]
  by_cases hx : x ∈ (n.parked.filter fun p => releasable oldest p.1).map Prod.snd
  · rw [if_pos hx]
    exact ⟨fun _ => .inr (hmem.mp hx), fun _ => rfl⟩
  · rw [if_neg hx]
    exact ⟨.inl, fun h => h.resolve_right fun h => hx (hmem.mpr h)⟩

/-! ## Sane numberings -/

/-- The two maps are inverse to each other, and the kinds of numbers keep to their ranges. -/
structure Sane (n : Numbering) : Prop where
  inverse : ∀ id d, n.number? id = some d ↔ n.id? d = some id
  live_range : ∀ d, n.IsLive d → 1 ≤ d ∧ d < n.next
  free_range : ∀ d, n.IsFree d → 1 ≤ d ∧ d < n.next
  free_not_live : ∀ d, n.IsFree d → ¬ n.IsLive d
  parked_range : ∀ d, n.IsParked d → 1 ≤ d ∧ d < n.next
  parked_not_free : ∀ d, n.IsParked d → ¬ n.IsFree d
  next_pos : 1 ≤ n.next

namespace Sane

theorem new : Sane {} where
  inverse _ _ := by simp [number?, id?]
  live_range _ h := by simp [IsLive, id?] at h
  free_range _ h := by simp [IsFree] at h
  free_not_live _ h := by simp [IsFree] at h
  parked_range _ h := by simp [IsParked] at h
  parked_not_free _ h := by simp [IsParked] at h
  next_pos := Nat.le_refl 1

variable {n : Numbering}

/-- No two identifiers share a number. -/
theorem number?_injective (h : n.Sane) {a b : String} {d : Nat} (ha : n.number? a = some d)
    (hb : n.number? b = some d) : a = b := by
  have hida := (h.inverse a d).mp ha
  have hidb := (h.inverse b d).mp hb
  exact Option.some.inj (hida.symm.trans hidb)

theorem isLive_iff (h : n.Sane) {d : Nat} : n.IsLive d ↔ ∃ id, n.number? id = some d := by
  simp [IsLive, h.inverse]

/-- A number is given to an identifier that has none or has that number, and the number is not
another identifier's. -/
theorem assign (h : n.Sane) {id : String} {d : Nat} (hd : 1 ≤ d)
    (hid : ∀ e, n.number? id = some e → e = d) (hother : ∀ x, n.id? d = some x → x = id) :
    (n.assign id d).Sane where
  inverse x e := by
    rw [number?_assign, id?_assign]
    by_cases hx : x = id
    · by_cases he : e = d
      · simp [hx, he]
      · -- the identifier had no other number
        have hnone : n.id? e ≠ some id := fun hmap =>
          he (hid e ((h.inverse id e).mpr hmap))
        simp [hx, he, Ne.symm he, hnone]
    · by_cases he : e = d
      · -- and the number no other identifier
        have hnone : n.number? x ≠ some d := fun hmap =>
          hx (hother x ((h.inverse x d).mp hmap))
        simp [hx, he, Ne.symm hx, hnone]
      · simp [hx, he, h.inverse]
  live_range x hx := by
    obtain ⟨y, hy⟩ := hx
    rw [id?_assign] at hy
    rw [next_assign]
    by_cases hxd : x = d
    · omega
    · rw [if_neg hxd] at hy
      have := h.live_range x ⟨y, hy⟩
      omega
  free_range x hx := by
    rw [next_assign]
    rcases isFree_assign.mp hx with hskip | ⟨_, hfree⟩
    · have := h.next_pos
      omega
    · have := h.free_range x hfree
      omega
  free_not_live x hx := by
    rw [not_isLive_iff, id?_assign]
    rcases isFree_assign.mp hx with hskip | ⟨hne, hfree⟩
    · rw [if_neg (by omega)]
      refine not_isLive_iff.mp fun hlive => ?_
      have := h.live_range x hlive
      omega
    · rw [if_neg hne]
      exact not_isLive_iff.mp (h.free_not_live x hfree)
  parked_range x hx := by
    have := h.parked_range x hx
    rw [next_assign]
    omega
  parked_not_free x hx hfree := by
    have hrange := h.parked_range x hx
    rcases isFree_assign.mp hfree with hskip | ⟨_, hfree⟩
    · omega
    · exact h.parked_not_free x hx hfree
  next_pos := by
    rw [next_assign]
    omega

/-- An identifier is unmapped, its number parked. -/
theorem release (h : n.Sane) {id : String} {g d : Nat} {n' : Numbering}
    (hrel : n.release id g = some (d, n')) : n'.Sane := by
  obtain ⟨hnum, hnumber, hids, -, hfree, hnext⟩ := release_eq_some hrel
  have hid : n.id? d = some id := (h.inverse id d).mp hnum
  have hfreed : ∀ x, n'.IsFree x → n.IsFree x := by
    intro x hx
    rwa [IsFree, hfree] at hx
  exact {
    inverse x e := by
      rw [hnumber, hids]
      by_cases hx : x = id
      · by_cases he : e = d
        · simp [hx, he]
        · have hne : n.id? e ≠ some id := fun hmap =>
            he (Option.some.inj (((h.inverse id e).mpr hmap).symm.trans hnum))
          simp [hx, he, hne]
      · by_cases he : e = d
        · have hne : n.number? x ≠ some d := fun hmap => hx (h.number?_injective hmap hnum)
          simp [hx, he, hne]
        · simp [hx, he, h.inverse]
    live_range x hx := by
      rw [hnext]
      exact h.live_range x (isLive_of_release hrel hx).2
    free_range x hx := by
      rw [hnext]
      exact h.free_range x (hfreed x hx)
    free_not_live x hx hlx := h.free_not_live x (hfreed x hx) (isLive_of_release hrel hlx).2
    parked_range x hx := by
      rw [hnext]
      rcases isParked_of_release hrel hx with rfl | hx
      · exact h.live_range x ⟨id, hid⟩
      · exact h.parked_range x hx
    parked_not_free x hx hfx := by
      rcases isParked_of_release hrel hx with rfl | hx
      · exact h.free_not_live x (hfreed x hfx) ⟨id, hid⟩
      · exact h.parked_not_free x hx (hfreed x hfx)
    next_pos := hnext ▸ h.next_pos }

theorem reclaim (h : n.Sane) (oldest : Option Nat) (hparked : ∀ d, n.IsParked d → ¬ n.IsLive d)
    (honce : ∀ g g' d, (g, d) ∈ n.parked → (g', d) ∈ n.parked →
      releasable oldest g = releasable oldest g') : (n.reclaim oldest).2.Sane where
  inverse := h.inverse
  live_range := h.live_range
  free_range d hd := by
    rcases isFree_reclaim.mp hd with hfree | ⟨g, hg, _⟩
    · exact h.free_range d hfree
    · exact h.parked_range d ⟨g, hg⟩
  free_not_live d hd := by
    rcases isFree_reclaim.mp hd with hfree | ⟨g, hg, _⟩
    · exact h.free_not_live d hfree
    · exact hparked d ⟨g, hg⟩
  parked_range d hd := by
    obtain ⟨g, hg⟩ := hd
    exact h.parked_range d ⟨g, (mem_parked_reclaim.mp hg).1⟩
  parked_not_free d hd hfree := by
    obtain ⟨g, hg⟩ := hd
    obtain ⟨hg, hkept⟩ := mem_parked_reclaim.mp hg
    rcases isFree_reclaim.mp hfree with hfree | ⟨g', hg', hfreed⟩
    · exact h.parked_not_free d ⟨g, hg⟩ hfree
    · rw [honce g g' d hg hg', hfreed] at hkept
      cases hkept
  next_pos := h.next_pos

end Sane

/-! ## Orderly numberings -/

/-- A sane numbering that hands out no number twice. Commits up to generation `floor` may have
parked one number several times; all of these are given free together, because no reader of the
session is older. -/
structure Orderly (floor : Nat) (n : Numbering) : Prop extends n.Sane where
  parked_not_live : ∀ d, n.IsParked d → ¬ n.IsLive d
  parked_once : n.parked.Pairwise fun p q => p.2 = q.2 → p.1 ≤ floor ∧ q.1 ≤ floor

namespace Orderly

theorem new (floor : Nat) : Orderly floor {} where
  toSane := .new
  parked_not_live _ h := by simp [IsParked] at h
  parked_once := List.Pairwise.nil

variable {floor : Nat} {n : Numbering}

/-- Two entries for one number are both old, or they are the same entry. -/
theorem eq_or_old (h : Orderly floor n) {g g' d : Nat} (hg : (g, d) ∈ n.parked)
    (hg' : (g', d) ∈ n.parked) : g = g' ∨ (g ≤ floor ∧ g' ≤ floor) := by
  have hparked := h.parked_once
  revert hg hg' hparked
  induction n.parked with
  | nil => intro hg; cases hg
  | cons p rest ih =>
      intro hg hg' hparked
      obtain ⟨hfirst, hrest⟩ := List.pairwise_cons.mp hparked
      rcases List.mem_cons.mp hg with rfl | hmem
      · rcases List.mem_cons.mp hg' with heq | hg'
        · exact .inl (congrArg Prod.fst heq).symm
        · exact .inr (hfirst _ hg' rfl)
      · rcases List.mem_cons.mp hg' with rfl | hg'
        · exact .inr (hfirst (g, d) hmem rfl).symm
        · exact ih hmem hg' hrest

/-- What no reader of the session refers to is given free. -/
theorem reclaim (h : Orderly floor n) {oldest : Option Nat}
    (hold : ∀ g, oldest = some g → floor ≤ g) : Orderly floor (n.reclaim oldest).2 where
  toSane := h.toSane.reclaim oldest h.parked_not_live fun g g' d hg hg' => by
    have hreleased : ∀ e, e ≤ floor → releasable oldest e = true := by
      intro e he
      cases oldest with
      | none => rfl
      | some r =>
          have := hold r rfl
          simp only [releasable, decide_eq_true_eq]
          omega
    rcases h.eq_or_old hg hg' with rfl | ⟨hle, hle'⟩
    · rfl
    · rw [hreleased g hle, hreleased g' hle']
  parked_not_live d hd := by
    obtain ⟨g, hg⟩ := hd
    exact h.parked_not_live d ⟨g, (mem_parked_reclaim.mp hg).1⟩
  parked_once := by
    show (n.parked.partition fun p => releasable oldest p.1).2.Pairwise _
    rw [List.partition_eq_filter_filter]
    exact h.parked_once.filter _

/-- The identifier of a live number is given that number again: nothing changes. -/
theorem assign_eq_self (h : n.Sane) {id : String} {d : Nat} (hid : n.number? id = some d) :
    n.assign id d = n := by
  have hmap : n.id? d = some id := (h.inverse id d).mp hid
  have hrange := h.live_range d ⟨id, hmap⟩
  have hnotfree : n.free.get? d = none := by
    have := h.free_not_live d
    cases hget : n.free.get? d with
    | none => rfl
    | some u => exact absurd ⟨id, hmap⟩ (this hget)
  have hskip : d - n.next = 0 := by omega
  have hnext : max n.next (d + 1) = n.next := by omega
  unfold assign
  rw [hskip, hnext, SortedMap.erase_eq_self hnotfree]
  have hnumbers : n.numbers.insert id d = n.numbers := SortedMap.insert_eq_self hid
  have hids : n.ids.insert d id = n.ids := SortedMap.insert_eq_self hmap
  rw [hnumbers, hids]
  rfl

/-- A number that is neither live nor parked is given to an identifier without a number. -/
theorem assign (h : Orderly floor n) {id : String} {d : Nat} (hd : 1 ≤ d)
    (hid : n.number? id = none) (hlive : ¬ n.IsLive d) (hparked : ¬ n.IsParked d) :
    Orderly floor (n.assign id d) where
  toSane := h.toSane.assign hd (fun e he => by rw [hid] at he; cases he)
    fun x hx => absurd ⟨x, hx⟩ hlive
  parked_not_live x hx hlx := by
    obtain ⟨y, hy⟩ := hlx
    rw [id?_assign] at hy
    by_cases hxd : x = d
    · exact hparked (hxd ▸ hx)
    · rw [if_neg hxd] at hy
      exact h.parked_not_live x hx ⟨y, hy⟩
  parked_once := h.parked_once

/-- The number of an identifier is given back. -/
theorem release (h : Orderly floor n) {id : String} {g d : Nat} {n' : Numbering}
    (hrel : n.release id g = some (d, n')) : Orderly floor n' where
  toSane := h.toSane.release hrel
  parked_not_live x hx hlx := by
    obtain ⟨hne, hlive⟩ := isLive_of_release hrel hlx
    rcases isParked_of_release hrel hx with heq | hparked
    · exact hne heq
    · exact h.parked_not_live x hparked hlive
  parked_once := by
    obtain ⟨hnum, _, _, hparked, _, _⟩ := release_eq_some hrel
    rw [hparked, List.pairwise_append]
    refine ⟨h.parked_once, List.pairwise_singleton _ _, fun p hp q hq heq => ?_⟩
    -- the number was live, so it was not parked before
    cases List.mem_singleton.mp hq
    have hlive : n.IsLive d := ⟨id, (h.inverse id d).mp hnum⟩
    exact absurd hlive (h.parked_not_live d ⟨p.1, by rwa [← show p.2 = d from heq]⟩)

end Orderly

/-! ## Handing out numbers -/

/-- The number that a new identifier takes: the smallest free one, or else the next one. -/
def candidate (n : Numbering) : Nat := n.free.keys.headD n.next

theorem allocate_of_mapped {n : Numbering} {id : String} {d : Nat} (h : n.number? id = some d) :
    n.allocate id = (d, n) := by
  simp [allocate, h]

theorem candidate_isFree_or_next (n : Numbering) :
    n.IsFree n.candidate ∨ (n.candidate = n.next ∧ n.free.keys = []) := by
  unfold candidate
  cases hkeys : n.free.keys with
  | nil => exact .inr ⟨rfl, rfl⟩
  | cons d rest =>
      refine .inl (isFree_iff_mem_keys.mpr ?_)
      rw [hkeys]
      exact List.mem_cons_self

theorem candidate_range {n : Numbering} (h : n.Sane) : 1 ≤ n.candidate ∧ n.candidate ≤ n.next := by
  rcases n.candidate_isFree_or_next with hfree | ⟨heq, _⟩
  · have := h.free_range _ hfree
    omega
  · have := h.next_pos
    omega

theorem candidate_not_live {n : Numbering} (h : n.Sane) : ¬ n.IsLive n.candidate := by
  rcases n.candidate_isFree_or_next with hfree | ⟨heq, _⟩
  · exact h.free_not_live _ hfree
  · intro hlive
    have := h.live_range _ hlive
    omega

theorem candidate_not_parked {n : Numbering} (h : n.Sane) : ¬ n.IsParked n.candidate := by
  rcases n.candidate_isFree_or_next with hfree | ⟨heq, _⟩
  · exact fun hparked => h.parked_not_free _ hparked hfree
  · intro hparked
    have := h.parked_range _ hparked
    omega

/-- A new identifier is given its candidate. -/
theorem allocate_of_unmapped {n : Numbering} {id : String} (h : n.number? id = none) :
    n.allocate id = (n.candidate, n.assign id n.candidate) := by
  unfold allocate candidate
  rw [h]
  cases hkeys : n.free.keys with
  | nil => rfl
  | cons d rest =>
      have herase : (n.free.erase d).erase d = n.free.erase d :=
        SortedMap.erase_eq_self (by simp)
      simp only [List.headD_cons, Prod.mk.injEq, true_and]
      unfold assign
      rw [herase]

end Concordance.Numbering
