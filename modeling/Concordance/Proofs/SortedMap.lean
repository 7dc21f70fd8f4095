import Concordance.SortedMap

/-!
# What sorted maps and ascending lists hold

The facts about `SortedMap` that the theory of the index leans on: keys and emptiness in terms of
look-ups, look-ups after `alter`, and the maps of lists of keys. A list in strictly ascending order
is its own `ascending` (`ascending_eq_self`), and two such lists with the same members are equal
(`eq_of_ascending`, for numbers `eq_ascending_iff`).
-/

namespace Concordance

namespace SortedMap

variable {κ α β : Type} [Ord κ] [Std.TransOrd κ] [Std.LawfulEqOrd κ]

theorem mem_keys {m : SortedMap κ α} {k : κ} : k ∈ m.keys ↔ ∃ v, m.get? k = some v := by
  simp only [keys, List.mem_map, get?_eq_some_iff]
  constructor
  · rintro ⟨⟨k', v⟩, hmem, rfl⟩
    exact ⟨v, hmem⟩
  · rintro ⟨v, hmem⟩
    exact ⟨(k, v), hmem, rfl⟩

theorem not_mem_keys {m : SortedMap κ α} {k : κ} : k ∉ m.keys ↔ m.get? k = none := by
  rw [mem_keys]
  cases m.get? k <;> simp

theorem mem_toList {m : SortedMap κ α} {e : κ × α} : e ∈ m.toList ↔ m.get? e.1 = some e.2 :=
  get?_eq_some_iff.symm

omit [Std.TransOrd κ] [Std.LawfulEqOrd κ] in
/-- The keys ascend strictly. -/
theorem keys_ascend (m : SortedMap κ α) : m.keys.Pairwise fun a b => compare a b = .lt := by
  rw [keys, List.pairwise_map]
  exact m.ascending

omit [Std.TransOrd κ] in
theorem nodup_keys (m : SortedMap κ α) : m.keys.Nodup := by
  refine m.keys_ascend.imp fun {a b} hless heq => ?_
  subst heq
  simp at hless

theorem isEmpty_iff {m : SortedMap κ α} : m.isEmpty = true ↔ ∀ k, m.get? k = none := by
  rw [isEmpty, List.isEmpty_iff]
  constructor
  · intro hnil k
    cases hget : m.get? k with
    | none => rfl
    | some v => exact absurd (get?_eq_some_iff.mp hget) (by simp [hnil])
  · intro hnone
    refine List.eq_nil_iff_forall_not_mem.mpr fun e he => ?_
    have := mem_toList.mp he
    rw [hnone] at this
    cases this

theorem not_isEmpty_iff {m : SortedMap κ α} : m.isEmpty = false ↔ ∃ k v, m.get? k = some v := by
  rw [← Bool.not_eq_true, isEmpty_iff]
  constructor
  · intro h
    refine Classical.byContradiction fun hnone => h fun k => ?_
    cases hget : m.get? k with
    | none => rfl
    | some v => exact absurd ⟨k, v, hget⟩ hnone
  · rintro ⟨k, v, hget⟩ h
    rw [h] at hget
    cases hget

theorem size_eq_zero_iff {m : SortedMap κ α} : m.size = 0 ↔ ∀ k, m.get? k = none := by
  rw [← isEmpty_iff, isEmpty, List.isEmpty_iff, size, List.length_eq_zero_iff]

omit [Std.TransOrd κ] [Std.LawfulEqOrd κ] in
theorem getD_of_some {m : SortedMap κ α} {k : κ} {v : α} (h : m.get? k = some v) (d : α) :
    m.getD k d = v := by
  simp [getD, h]

omit [Std.TransOrd κ] [Std.LawfulEqOrd κ] in
theorem getD_of_none {m : SortedMap κ α} {k : κ} (h : m.get? k = none) (d : α) :
    m.getD k d = d := by
  simp [getD, h]

/-- Maps that do not hold a default are determined by what they answer with it. -/
theorem ext_getD {m m' : SortedMap κ α} {d : α} (hm : ∀ k v, m.get? k = some v → v ≠ d)
    (hm' : ∀ k v, m'.get? k = some v → v ≠ d) (h : ∀ k, m.getD k d = m'.getD k d) : m = m' := by
  refine ext_get? fun k => ?_
  have hsame := h k
  cases hget : m.get? k with
  | none =>
      cases hget' : m'.get? k with
      | none => rfl
      | some v' =>
          rw [getD_of_none hget, getD_of_some hget'] at hsame
          exact absurd hsame.symm (hm' k v' hget')
  | some v =>
      cases hget' : m'.get? k with
      | none =>
          rw [getD_of_some hget, getD_of_none hget'] at hsame
          exact absurd hsame (hm k v hget)
      | some v' =>
          rw [getD_of_some hget, getD_of_some hget'] at hsame
          rw [hsame]

section

variable [DecidableEq κ]

theorem get?_alter (m : SortedMap κ α) (k x : κ) (f : Option α → Option α) :
    (m.alter k f).get? x = if x = k then f (m.get? k) else m.get? x := by
  unfold alter
  cases hf : f (m.get? k) with
  | none => rw [get?_erase]
  | some v => rw [get?_insert]

/-- Taking away a key that is not there changes nothing. -/
theorem erase_eq_self {m : SortedMap κ α} {k : κ} (h : m.get? k = none) : m.erase k = m := by
  refine ext_get? fun x => ?_
  rw [get?_erase]
  split
  · next hx => rw [hx, h]
  · rfl

/-- An entry that is replaced by another one, or dropped. -/
theorem get?_erase_or_insert {m : SortedMap κ α} {k x : κ} {v w : α} {dropped : Bool}
    (h : (if dropped then m.erase k else m.insert k v).get? x = some w) :
    (dropped = false ∧ w = v) ∨ m.get? x = some w := by
  cases dropped with
  | true =>
      rw [if_pos rfl, get?_erase] at h
      split at h
      · cases h
      · exact .inr h
  | false =>
      rw [if_neg Bool.false_ne_true, get?_insert] at h
      split at h
      · cases h
        exact .inl ⟨rfl, rfl⟩
      · exact .inr h

/-- Of two values given to one key the second one counts. -/
theorem insert_insert (m : SortedMap κ α) (k : κ) (v w : α) :
    (m.insert k v).insert k w = m.insert k w := by
  refine ext_get? fun x => ?_
  rw [get?_insert, get?_insert, get?_insert]
  split <;> rfl

/-- Giving a key the value that it has changes nothing. -/
theorem insert_eq_self {m : SortedMap κ α} {k : κ} {v : α} (h : m.get? k = some v) :
    m.insert k v = m := by
  refine ext_get? fun x => ?_
  rw [get?_insert]
  split
  · next hx => rw [hx, h]
  · rfl

/-- Entering a list of keys: what is then in the map. -/
theorem get?_foldl_insert_unit (l : List κ) (m : SortedMap κ Unit) (x : κ) :
    (l.foldl (fun f k => f.insert k ()) m).get? x = if x ∈ l then some () else m.get? x := by
  induction l generalizing m with
  | nil => simp
  | cons k rest ih =>
      rw [List.foldl_cons, ih, get?_insert]
      by_cases hx : x = k
      · simp [hx]
      · simp [hx]

/-- The keys of a list of pairs are those of its map. -/
theorem mem_keys_ofList {l : List (κ × α)} {x : κ} : x ∈ (ofList l).keys ↔ x ∈ l.map (·.1) := by
  have hstep : ∀ (rest : List (κ × α)) (m : SortedMap κ α),
      x ∈ (rest.foldl (fun f p => f.insert p.1 p.2) m).keys ↔ x ∈ rest.map (·.1) ∨ x ∈ m.keys := by
    intro rest
    induction rest with
    | nil => simp
    | cons p rest ih =>
        intro m
        have hinsert : x ∈ (m.insert p.1 p.2).keys ↔ x = p.1 ∨ x ∈ m.keys := by
          rw [mem_keys, mem_keys, get?_insert]
          by_cases hx : x = p.1 <;> simp [hx]
        rw [List.foldl_cons, ih, hinsert, List.map_cons, List.mem_cons, or_assoc, or_left_comm]
  rw [ofList, hstep]
  simp [mem_keys]

/-- Pairs with distinct keys are all in their map. -/
theorem get?_ofList_eq_some_iff {l : List (κ × α)} (h : (l.map (·.1)).Nodup) {x : κ} {v : α} :
    (ofList l).get? x = some v ↔ (x, v) ∈ l := by
  have hstep : ∀ (rest : List (κ × α)) (m : SortedMap κ α), (rest.map (·.1)).Nodup →
      (∀ p ∈ rest, m.get? p.1 = none) →
      ((rest.foldl (fun f p => f.insert p.1 p.2) m).get? x = some v ↔
        (x, v) ∈ rest ∨ m.get? x = some v) := by
    intro rest
    induction rest with
    | nil => intro m _ _; simp
    | cons p rest ih =>
        intro m hnd hnew
        obtain ⟨hp, hrest⟩ := List.nodup_cons.mp hnd
        have hfresh : ∀ q ∈ rest, (m.insert p.1 p.2).get? q.1 = none := by
          intro q hq
          have hne : q.1 ≠ p.1 := fun heq => hp (List.mem_map.mpr ⟨q, hq, heq⟩)
          rw [get?_insert, if_neg hne]
          exact hnew q (List.mem_cons_of_mem _ hq)
        rw [List.foldl_cons, ih _ hrest hfresh, get?_insert]
        by_cases hx : x = p.1
        · have hnone : m.get? x = none := hx ▸ hnew p List.mem_cons_self
          have hnot : (x, v) ∉ rest := fun hmem => hp (List.mem_map.mpr ⟨_, hmem, hx⟩)
          have hpair : (x, v) = p ↔ p.2 = v := by
            constructor
            · rintro rfl
              rfl
            · rintro rfl
              rw [hx]
          rw [if_pos hx, List.mem_cons, hpair, hnone]
          simp [hnot]
        · have hne : (x, v) ≠ p := fun heq => hx (heq ▸ rfl)
          simp [hx, hne]
  have := hstep l ∅ h (fun p _ => rfl)
  rw [get?_empty] at this
  simpa [ofList] using this

end

end SortedMap

/-! ## Ascending lists -/

section

variable {κ : Type} [Ord κ] [Std.TransOrd κ] [Std.LawfulEqOrd κ]

omit [Std.LawfulEqOrd κ] in
theorem pairwise_ascending (l : List κ) :
    (ascending l).Pairwise fun a b => compare a b = .lt :=
  SortedMap.keys_ascend _

omit [Std.LawfulEqOrd κ] in
/-- A list that ascends already is left as it is. -/
theorem ascending_eq_self {l : List κ} (h : l.Pairwise fun a b => compare a b = .lt) :
    ascending l = l := by
  have hkeys : KeysAscend (l.map fun k => (k, ())) := by
    rw [KeysAscend, List.pairwise_map]
    exact h
  rw [ascending, SortedMap.keys, SortedMap.toList_ofList hkeys, List.map_map]
  exact List.map_id l

@[simp] theorem mem_ascending [DecidableEq κ] {l : List κ} {x : κ} : x ∈ ascending l ↔ x ∈ l := by
  rw [ascending, SortedMap.mem_keys, SortedMap.ofList, List.foldl_map]
  simp only [SortedMap.get?_foldl_insert_unit, SortedMap.get?_empty]
  by_cases hx : x ∈ l <;> simp [hx]

/-- Ascending lists with the same members are equal. -/
theorem eq_of_ascending [DecidableEq κ] {l r : List κ}
    (hl : l.Pairwise fun a b => compare a b = .lt) (hr : r.Pairwise fun a b => compare a b = .lt)
    (h : ∀ x, x ∈ l ↔ x ∈ r) : l = r := by
  have hmaps : SortedMap.ofList (l.map fun k => (k, ())) =
      SortedMap.ofList (r.map fun k => (k, ())) := by
    refine SortedMap.ext_get? fun x => ?_
    simp only [SortedMap.ofList, List.foldl_map, SortedMap.get?_foldl_insert_unit, h x]
  rw [← ascending_eq_self hl, ← ascending_eq_self hr, ascending, ascending, hmaps]

end

/-! ## Ascending numbers -/

theorem KeysAscend.lt {α : Type} {l : List (Nat × α)} (h : KeysAscend l) :
    l.Pairwise fun a b => a.1 < b.1 :=
  h.imp Nat.compare_eq_lt.mp

theorem SortedMap.keys_lt {α : Type} (m : SortedMap Nat α) : m.keys.Pairwise (· < ·) :=
  m.keys_ascend.imp Nat.compare_eq_lt.mp

theorem ascending_lt (l : List Nat) : (ascending l).Pairwise (· < ·) := SortedMap.keys_lt _

/-- The distinct members in ascending order are the one ascending list of them. -/
theorem eq_ascending_iff {l r : List Nat} :
    l = ascending r ↔ l.Pairwise (· < ·) ∧ ∀ x, x ∈ l ↔ x ∈ r := by
  constructor
  · rintro rfl
    exact ⟨ascending_lt r, fun x => mem_ascending⟩
  · rintro ⟨hascend, hmem⟩
    refine eq_of_ascending (hascend.imp Nat.compare_eq_lt.mpr) (pairwise_ascending r) fun x => ?_
    rw [hmem, mem_ascending]

end Concordance
