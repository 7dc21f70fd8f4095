import Concordance.Proofs.SortedMap
import Concordance.Store.Readers
import Concordance.Store.Workspace

/-!
# What the registry of readers says

The registry counts how often each generation is held (`Readers.Counts`), so its oldest generation is
the oldest that is held (`Readers.Counts.oldest_eq`). A workspace finds that one among everything that
is open on it (`Workspace.oldestReader_eq`).
-/

namespace Concordance.Readers

/-- A registry of views of some generations. -/
def Counts (r : Readers) (held : List Nat) : Prop :=
  ∀ g, r.counts.get? g = if held.count g = 0 then none else some (held.count g)

variable {r : Readers} {held held' : List Nat}

theorem counts_empty : Counts {} [] := fun _ => rfl

theorem Counts.perm (h : r.Counts held) (hperm : held.Perm held') : r.Counts held' := by
  intro g
  rw [h g, hperm.count_eq g]

theorem Counts.getD_eq (h : r.Counts held) (g : Nat) : r.counts.getD g 0 = held.count g := by
  rw [SortedMap.getD, h g]
  split
  · next hnone => rw [hnone]; rfl
  · rfl

theorem Counts.acquire (h : r.Counts held) (g : Nat) : (r.acquire g).Counts (g :: held) := by
  intro x
  show (r.counts.insert g (r.counts.getD g 0 + 1)).get? x = _
  rw [SortedMap.get?_insert, h.getD_eq]
  by_cases hx : x = g
  · subst hx
    rw [if_pos rfl, List.count_cons_self, if_neg (by omega)]
  · rw [if_neg hx, h x, List.count_cons_of_ne (Ne.symm hx)]

theorem Counts.release {g : Nat} (h : r.Counts (g :: held)) : (r.release g).Counts held := by
  have hcount := h g
  rw [List.count_cons_self, if_neg (by omega)] at hcount
  have hothers : ∀ x, x ≠ g → r.counts.get? x =
      if held.count x = 0 then none else some (held.count x) := by
    intro x hx
    rw [h x, List.count_cons_of_ne (Ne.symm hx)]
  unfold Readers.release
  rw [hcount]
  dsimp only
  rw [Nat.add_sub_cancel]
  split
  · next hlast =>
      intro x
      show (r.counts.erase g).get? x = _
      rw [SortedMap.get?_erase]
      by_cases hx : x = g
      · rw [if_pos hx, hx, if_pos hlast]
      · rw [if_neg hx, hothers x hx]
  · next hmore =>
      intro x
      show (r.counts.insert g (held.count g)).get? x = _
      rw [SortedMap.get?_insert]
      by_cases hx : x = g
      · rw [if_pos hx, hx, if_neg hmore]
      · rw [if_neg hx, hothers x hx]

/-- The generations of the registry are those that are held. -/
theorem Counts.mem_keys (h : r.Counts held) (g : Nat) : g ∈ r.counts.keys ↔ g ∈ held := by
  rw [SortedMap.mem_keys, h g, ← List.count_pos_iff]
  constructor
  · rintro ⟨n, hn⟩
    split at hn
    · cases hn
    · omega
  · intro hpos
    exact ⟨held.count g, if_neg (by omega)⟩

/-- The oldest generation of the registry is the oldest that is held. -/
theorem Counts.oldest_eq (h : r.Counts held) : r.oldest = held.min? := by
  have hascend := r.counts.keys_ascend
  unfold Readers.oldest
  cases hkeys : r.counts.keys with
  | nil =>
      cases held with
      | nil => rfl
      | cons g rest =>
          have := (h.mem_keys g).mpr List.mem_cons_self
          rw [hkeys] at this
          cases this
  | cons g rest =>
      rw [List.head?_cons, eq_comm, List.min?_eq_some_iff]
      refine ⟨(h.mem_keys g).mp (by rw [hkeys]; exact List.mem_cons_self), fun x hx => ?_⟩
      have hmem := (h.mem_keys x).mpr hx
      rw [hkeys] at hmem hascend
      rcases List.mem_cons.mp hmem with rfl | hrest
      · exact Nat.le_refl _
      · exact Nat.le_of_lt (Nat.compare_eq_lt.mp ((List.pairwise_cons.mp hascend).1 x hrest))

theorem Counts.oldest_mem (h : r.Counts held) {g : Nat} (hg : r.oldest = some g) : g ∈ held := by
  rw [h.oldest_eq] at hg
  exact (List.min?_eq_some_iff.mp hg).1

/-- No generation held is older than the oldest. -/
theorem Counts.oldest_le (h : r.Counts held) {g : Nat} (hg : g ∈ held) :
    ∃ oldest, r.oldest = some oldest ∧ oldest ≤ g := by
  cases hmin : held.min? with
  | none => rw [List.min?_eq_none_iff.mp hmin] at hg; cases hg
  | some oldest => exact ⟨oldest, h.oldest_eq.trans hmin, (List.min?_eq_some_iff.mp hmin).2 g hg⟩

end Concordance.Readers

namespace Concordance

/-- The oldest reader of a store is that of a registry of its readers. -/
theorem Workspace.oldestReader_eq {w : Workspace} {key : Nat} {r : Readers}
    (h : r.Counts (w.heldGenerations key)) : w.oldestReader key = r.oldest :=
  h.oldest_eq.symm

end Concordance
