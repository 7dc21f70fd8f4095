/-!
# Finite maps in key order

`SortedMap κ α` is a finite map that lists its pairs in strictly ascending key order. The order is
part of the value, so two maps with the same look-ups are equal (`SortedMap.ext_get?`), and a
listing of a map is the listing every answer shows.

* `get?_insert`, `get?_erase`, `get?_map`, `get?_filter` say what each operation does to look-ups;
* `ofList_toList` rebuilds a map from its listing.
-/

namespace Concordance

/-- Pairs whose keys strictly ascend. -/
abbrev KeysAscend {κ α : Type} [Ord κ] (entries : List (κ × α)) : Prop :=
  entries.Pairwise fun a b => compare a.1 b.1 = .lt

/-- A finite map, kept as its pairs in strictly ascending key order. -/
structure SortedMap (κ α : Type) [Ord κ] where
  toList : List (κ × α)
  ascending : KeysAscend toList
  deriving DecidableEq

namespace SortedMap

variable {κ α β : Type} [Ord κ]

/-- The map without pairs. -/
def empty : SortedMap κ α := ⟨[], List.Pairwise.nil⟩

instance : EmptyCollection (SortedMap κ α) := ⟨empty⟩
instance : Inhabited (SortedMap κ α) := ⟨empty⟩

/-- Looks a key up in pairs. -/
def lookupPairs (k : κ) : List (κ × α) → Option α
  | [] => none
  | (k', v) :: rest => if compare k k' = .eq then some v else lookupPairs k rest

/-- Puts a pair into ascending pairs, in the place of a pair with the same key if there is one. -/
def insertPairs (k : κ) (v : α) : List (κ × α) → List (κ × α)
  | [] => [(k, v)]
  | (k', v') :: rest =>
    match compare k k' with
    | .lt => (k, v) :: (k', v') :: rest
    | .eq => (k, v) :: rest
    | .gt => (k', v') :: insertPairs k v rest

/-- Drops the pair with a key. -/
def erasePairs (k : κ) : List (κ × α) → List (κ × α)
  | [] => []
  | (k', v') :: rest => if compare k k' = .eq then rest else (k', v') :: erasePairs k rest

theorem mem_insertPairs {k : κ} {v : α} {l : List (κ × α)} {e : κ × α}
    (h : e ∈ insertPairs k v l) : e = (k, v) ∨ e ∈ l := by
  induction l with
  | nil => simpa [insertPairs] using h
  | cons p rest ih =>
    obtain ⟨k', v'⟩ := p
    unfold insertPairs at h
    split at h
    · exact (List.mem_cons.mp h).imp id id
    · exact (List.mem_cons.mp h).imp id (List.mem_cons_of_mem _)
    · rcases List.mem_cons.mp h with h | h
      · exact .inr (h ▸ List.mem_cons_self)
      · exact (ih h).imp id (List.mem_cons_of_mem _)

theorem mem_of_mem_erasePairs {k : κ} {l : List (κ × α)} {e : κ × α}
    (h : e ∈ erasePairs k l) : e ∈ l := by
  induction l with
  | nil => exact h
  | cons p rest ih =>
    obtain ⟨k', v'⟩ := p
    unfold erasePairs at h
    split at h
    · exact List.mem_cons_of_mem _ h
    · rcases List.mem_cons.mp h with h | h
      · exact h ▸ List.mem_cons_self
      · exact List.mem_cons_of_mem _ (ih h)

theorem keysAscend_insertPairs [Std.TransOrd κ] (k : κ) (v : α) {l : List (κ × α)}
    (h : KeysAscend l) : KeysAscend (insertPairs k v l) := by
  induction l with
  | nil => simp [insertPairs, KeysAscend]
  | cons p rest ih =>
    obtain ⟨k', v'⟩ := p
    obtain ⟨head, tail⟩ := List.pairwise_cons.mp h
    unfold insertPairs
    split
    · next hlt =>
      refine List.pairwise_cons.mpr ⟨fun e he => ?_, h⟩
      rcases List.mem_cons.mp he with rfl | he
      · exact hlt
      · exact Std.TransCmp.lt_trans hlt (head e he)
    · next heq =>
      exact List.pairwise_cons.mpr
        ⟨fun e he => Std.TransCmp.lt_of_eq_of_lt heq (head e he), tail⟩
    · next hgt =>
      refine List.pairwise_cons.mpr ⟨fun e he => ?_, ih tail⟩
      rcases mem_insertPairs he with rfl | he
      · exact Std.OrientedCmp.gt_iff_lt.mp hgt
      · exact head e he

theorem keysAscend_erasePairs (k : κ) {l : List (κ × α)} (h : KeysAscend l) :
    KeysAscend (erasePairs k l) := by
  induction l with
  | nil => exact h
  | cons p rest ih =>
    obtain ⟨k', v'⟩ := p
    obtain ⟨head, tail⟩ := List.pairwise_cons.mp h
    unfold erasePairs
    split
    · exact tail
    · exact List.pairwise_cons.mpr
        ⟨fun e he => head e (mem_of_mem_erasePairs he), ih tail⟩

/-- The value of a key. -/
def get? (m : SortedMap κ α) (k : κ) : Option α := lookupPairs k m.toList

/-- The value of a key, or a default. -/
def getD (m : SortedMap κ α) (k : κ) (default : α) : α := (m.get? k).getD default

/-- Whether a key has a value. -/
def contains (m : SortedMap κ α) (k : κ) : Bool := (m.get? k).isSome

/-- The keys, ascending. -/
def keys (m : SortedMap κ α) : List κ := m.toList.map (·.1)

/-- The values, in key order. -/
def values (m : SortedMap κ α) : List α := m.toList.map (·.2)

/-- The number of pairs. -/
def size (m : SortedMap κ α) : Nat := m.toList.length

/-- Whether there is no pair. -/
def isEmpty (m : SortedMap κ α) : Bool := m.toList.isEmpty

/-- Gives a key a value, replacing the value it had. -/
def insert [Std.TransOrd κ] (m : SortedMap κ α) (k : κ) (v : α) : SortedMap κ α :=
  ⟨insertPairs k v m.toList, keysAscend_insertPairs k v m.ascending⟩

/-- Takes the value of a key away. -/
def erase (m : SortedMap κ α) (k : κ) : SortedMap κ α :=
  ⟨erasePairs k m.toList, keysAscend_erasePairs k m.ascending⟩

/-- The map of a list of pairs; of several pairs with one key the last one counts. -/
def ofList [Std.TransOrd κ] (pairs : List (κ × α)) : SortedMap κ α :=
  pairs.foldl (fun m p => m.insert p.1 p.2) ∅

/-- Changes every value by a function of key and value. -/
def map (f : κ → α → β) (m : SortedMap κ α) : SortedMap κ β :=
  ⟨m.toList.map fun p => (p.1, f p.1 p.2), by
    simpa [KeysAscend, List.pairwise_map] using m.ascending⟩

/-- Keeps the pairs that pass a test. -/
def filter (keep : κ → α → Bool) (m : SortedMap κ α) : SortedMap κ α :=
  ⟨m.toList.filter fun p => keep p.1 p.2, m.ascending.filter _⟩

/-- Changes, adds or removes the value of one key. -/
def alter [Std.TransOrd κ] (m : SortedMap κ α) (k : κ) (f : Option α → Option α) : SortedMap κ α :=
  match f (m.get? k) with
  | some v => m.insert k v
  | none => m.erase k

/-- Folds over the pairs in key order. -/
def foldl (f : β → κ → α → β) (start : β) (m : SortedMap κ α) : β :=
  m.toList.foldl (fun acc p => f acc p.1 p.2) start

/-- The pair with the greatest key. -/
def last? (m : SortedMap κ α) : Option (κ × α) := m.toList.getLast?

/-! ## Look-ups -/

@[simp] theorem get?_empty (k : κ) : (∅ : SortedMap κ α).get? k = none := rfl

private theorem lookupPairs_insertPairs [DecidableEq κ] [Std.TransOrd κ] [Std.LawfulEqOrd κ] (k x : κ) (v : α)
    (l : List (κ × α)) :
    lookupPairs x (insertPairs k v l) = if x = k then some v else lookupPairs x l := by
  induction l with
  | nil => simp [insertPairs, lookupPairs]
  | cons p rest ih =>
    obtain ⟨k', v'⟩ := p
    unfold insertPairs
    split
    · simp [lookupPairs]
    · next heq =>
      have : k = k' := Std.LawfulEqCmp.eq_of_compare heq
      subst this
      by_cases hx : x = k <;> simp [lookupPairs, hx]
    · next hgt =>
      have hne : k ≠ k' := fun h => by simp [h] at hgt
      by_cases hx : x = k
      · subst hx
        simp [lookupPairs, hne, ih]
      · simp [lookupPairs, ih, hx]

@[simp] theorem get?_insert [DecidableEq κ] [Std.TransOrd κ] [Std.LawfulEqOrd κ]
    (m : SortedMap κ α) (k x : κ) (v : α) : (m.insert k v).get? x = if x = k then some v else m.get? x :=
  lookupPairs_insertPairs k x v m.toList

private theorem lookupPairs_eq_none_of_forall_ne [Std.LawfulEqOrd κ] {x : κ} {l : List (κ × α)}
    (h : ∀ p ∈ l, x ≠ p.1) : lookupPairs x l = none := by
  induction l with
  | nil => rfl
  | cons p rest ih =>
    have := h p List.mem_cons_self
    simp [lookupPairs, this, ih fun q hq => h q (List.mem_cons_of_mem _ hq)]

private theorem lookupPairs_eq_some_iff [Std.TransOrd κ] [Std.LawfulEqOrd κ] {x : κ} {v : α}
    {l : List (κ × α)} (h : KeysAscend l) : lookupPairs x l = some v ↔ (x, v) ∈ l := by
  induction l with
  | nil => simp [lookupPairs]
  | cons p rest ih =>
    obtain ⟨k', v'⟩ := p
    obtain ⟨head, tail⟩ := List.pairwise_cons.mp h
    by_cases hx : x = k'
    · subst hx
      have fresh : (x, v) ∉ rest := fun hm => by simpa using head _ hm
      simp [lookupPairs, fresh, eq_comm]
    · simp [lookupPairs, hx, ih tail]

private theorem lookupPairs_erasePairs [DecidableEq κ] [Std.TransOrd κ] [Std.LawfulEqOrd κ] (k x : κ)
    {l : List (κ × α)} (h : KeysAscend l) :
    lookupPairs x (erasePairs k l) = if x = k then none else lookupPairs x l := by
  induction l with
  | nil => simp [erasePairs, lookupPairs]
  | cons p rest ih =>
    obtain ⟨k', v'⟩ := p
    obtain ⟨head, tail⟩ := List.pairwise_cons.mp h
    by_cases hk : k = k'
    · subst hk
      by_cases hx : x = k
      · subst hx
        have : lookupPairs x rest = none :=
          lookupPairs_eq_none_of_forall_ne fun p hp hxp => by
            have := head p hp
            simp [← hxp] at this
        simp [erasePairs, this]
      · simp [erasePairs, lookupPairs, hx]
    · by_cases hx : x = k
      · subst hx
        simp [erasePairs, lookupPairs, hk, ih tail]
      · simp [erasePairs, lookupPairs, hk, hx, ih tail]

@[simp] theorem get?_erase [DecidableEq κ] [Std.TransOrd κ] [Std.LawfulEqOrd κ]
    (m : SortedMap κ α) (k x : κ) :
    (m.erase k).get? x = if x = k then none else m.get? x :=
  lookupPairs_erasePairs k x m.ascending

theorem get?_eq_some_iff [Std.TransOrd κ] [Std.LawfulEqOrd κ] {m : SortedMap κ α} {k : κ} {v : α} :
    m.get? k = some v ↔ (k, v) ∈ m.toList :=
  lookupPairs_eq_some_iff m.ascending

theorem get?_map [Std.TransOrd κ] [Std.LawfulEqOrd κ] (f : κ → α → β) (m : SortedMap κ α) (k : κ) :
    (m.map f).get? k = (m.get? k).map (f k) := by
  ext v
  rw [get?_eq_some_iff, Option.map_eq_some_iff]
  simp only [map, List.mem_map, get?_eq_some_iff]
  constructor
  · rintro ⟨⟨k', w⟩, hm, he⟩
    cases he
    exact ⟨w, hm, rfl⟩
  · rintro ⟨w, hm, rfl⟩
    exact ⟨(k, w), hm, rfl⟩

theorem get?_filter [Std.TransOrd κ] [Std.LawfulEqOrd κ] (keep : κ → α → Bool) (m : SortedMap κ α)
    (k : κ) : (m.filter keep).get? k = (m.get? k).filter (keep k) := by
  ext v
  rw [get?_eq_some_iff, Option.filter_eq_some_iff, get?_eq_some_iff]
  simp [filter, List.mem_filter]

/-- A map is determined by its pairs. -/
@[ext] theorem ext {m n : SortedMap κ α} (h : m.toList = n.toList) : m = n := by
  cases m; cases n; cases h; rfl

private theorem eq_of_forall_mem_iff [Std.TransOrd κ] {l r : List (κ × α)}
    (hl : KeysAscend l) (hr : KeysAscend r) (h : ∀ e, e ∈ l ↔ e ∈ r) : l = r := by
  induction l generalizing r with
  | nil =>
    cases r with
    | nil => rfl
    | cons q s => exact absurd ((h q).mpr List.mem_cons_self) List.not_mem_nil
  | cons p l ih =>
    cases r with
    | nil => exact absurd ((h p).mp List.mem_cons_self) List.not_mem_nil
    | cons q s =>
      obtain ⟨headL, tailL⟩ := List.pairwise_cons.mp hl
      obtain ⟨headR, tailR⟩ := List.pairwise_cons.mp hr
      have irrefl : ∀ e : κ × α, compare e.1 e.1 ≠ .lt := fun e he => by
        simp [Std.ReflCmp.compare_self] at he
      have hpq : p = q := by
        rcases List.mem_cons.mp ((h p).mp List.mem_cons_self) with hp | hp
        · exact hp
        · rcases List.mem_cons.mp ((h q).mpr List.mem_cons_self) with hq | hq
          · exact hq.symm
          · exact absurd (Std.TransCmp.lt_trans (headR p hp) (headL q hq)) (irrefl q)
      subst hpq
      congr 1
      refine ih tailL tailR fun e => ⟨fun he => ?_, fun he => ?_⟩
      · rcases List.mem_cons.mp ((h e).mp (List.mem_cons_of_mem _ he)) with rfl | hs
        · exact absurd (headL e he) (irrefl e)
        · exact hs
      · rcases List.mem_cons.mp ((h e).mpr (List.mem_cons_of_mem _ he)) with rfl | hs
        · exact absurd (headR e he) (irrefl e)
        · exact hs

/-- A map is determined by its look-ups. -/
theorem ext_get? [Std.TransOrd κ] [Std.LawfulEqOrd κ] {m n : SortedMap κ α}
    (h : ∀ k, m.get? k = n.get? k) : m = n :=
  ext <| eq_of_forall_mem_iff m.ascending n.ascending fun e => by
    rw [← get?_eq_some_iff, ← get?_eq_some_iff, h]

private theorem insertPairs_append [Std.TransOrd κ] {k : κ} {v : α} {l : List (κ × α)}
    (h : ∀ p ∈ l, compare p.1 k = .lt) : insertPairs k v l = l ++ [(k, v)] := by
  induction l with
  | nil => rfl
  | cons p rest ih =>
    obtain ⟨k', v'⟩ := p
    have hgt : compare k k' = .gt := Std.OrientedCmp.gt_iff_lt.mpr (h _ List.mem_cons_self)
    simp [insertPairs, hgt, ih fun q hq => h q (List.mem_cons_of_mem _ hq)]

/-- Ascending pairs are listed by their map as they are. -/
theorem toList_ofList [Std.TransOrd κ] {l : List (κ × α)} (h : KeysAscend l) :
    (ofList l).toList = l := by
  have step : ∀ (rest : List (κ × α)) (m : SortedMap κ α), KeysAscend (m.toList ++ rest) →
      (rest.foldl (fun m p => m.insert p.1 p.2) m).toList = m.toList ++ rest := by
    intro rest
    induction rest with
    | nil => intro m _; simp
    | cons p rest ih =>
      intro m hm
      have before : ∀ q ∈ m.toList, compare q.1 p.1 = .lt := fun q hq =>
        (List.pairwise_append.mp hm).2.2 q hq p List.mem_cons_self
      have put : (m.insert p.1 p.2).toList = m.toList ++ [p] := insertPairs_append before
      rw [List.foldl_cons, ih _ (by rw [put]; simpa using hm), put]
      simp
  exact step l ∅ h

theorem ofList_toList [Std.TransOrd κ] (m : SortedMap κ α) : ofList m.toList = m :=
  ext (toList_ofList m.ascending)

end SortedMap

/-- The distinct members of a list, in ascending order. -/
def ascending {κ : Type} [Ord κ] [Std.TransOrd κ] (l : List κ) : List κ :=
  (SortedMap.ofList (l.map fun k => (k, ()))).keys

end Concordance
