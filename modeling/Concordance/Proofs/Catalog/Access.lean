import Concordance.Catalog.Access
import Concordance.Proofs.SortedMap

/-!
# What access lists say

Access lists are read through one relation, `Sees`: a user may see a document. This module says
what granting, revoking and dropping a user do to that relation, and that none of them leaves a
user with an empty entry (`Trim`). Trim access lists are determined by the relation (`Trim.ext`),
so lists that were edited step by step are the lists that are built anew.
-/

namespace Concordance.AccessLists

/-- A user may see a document. -/
def Sees (a : AccessLists) (user : String) (number : Nat) : Prop :=
  ∃ documents, a.byUser.get? user = some documents ∧ documents.get? number = some ()

/-- Every user with an entry may see some document. -/
def Trim (a : AccessLists) : Prop :=
  ∀ user documents, a.byUser.get? user = some documents → ∃ number, documents.get? number = some ()

theorem not_sees_empty (user : String) (number : Nat) : ¬ (∅ : AccessLists).Sees user number := by
  rintro ⟨documents, h, _⟩
  cases h

theorem trim_empty : (∅ : AccessLists).Trim := by
  intro user documents h
  cases h

/-- The documents of a user, one entry or none. -/
theorem sees_iff_getD {a : AccessLists} {user : String} {number : Nat} :
    a.Sees user number ↔ (a.byUser.getD user ∅).get? number = some () := by
  unfold Sees SortedMap.getD
  cases a.byUser.get? user with
  | none => simp
  | some documents => simp

theorem Trim.ne_empty {a : AccessLists} (h : a.Trim) {user : String}
    {documents : SortedMap Nat Unit} (hget : a.byUser.get? user = some documents) :
    documents ≠ ∅ := by
  rintro rfl
  obtain ⟨number, hnumber⟩ := h user ∅ hget
  cases hnumber

/-- Trim access lists are determined by who sees what. -/
theorem Trim.ext {a b : AccessLists} (ha : a.Trim) (hb : b.Trim)
    (h : ∀ user number, a.Sees user number ↔ b.Sees user number) : a = b := by
  have hdocuments : ∀ user, a.byUser.getD user ∅ = b.byUser.getD user ∅ := by
    intro user
    apply SortedMap.ext_get?
    intro number
    have hsees := h user number
    rw [sees_iff_getD, sees_iff_getD] at hsees
    exact Option.ext fun _ => hsees
  have hmap := SortedMap.ext_getD (fun _ _ => ha.ne_empty) (fun _ _ => hb.ne_empty) hdocuments
  obtain ⟨byUser⟩ := a
  obtain ⟨byUser'⟩ := b
  exact congrArg _ hmap

/-! ## Granting -/

/-- One step of `grant`. -/
theorem sees_insert {a : AccessLists} {user u : String} {d x : Nat} :
    (AccessLists.mk (a.byUser.insert user ((a.byUser.getD user ∅).insert d ()))).Sees u x ↔
      a.Sees u x ∨ (x = d ∧ u = user) := by
  rw [sees_iff_getD, sees_iff_getD, SortedMap.getD, SortedMap.get?_insert]
  by_cases hu : u = user
  · subst hu
    rw [if_pos rfl, Option.getD_some, SortedMap.get?_insert]
    by_cases hx : x = d <;> simp [hx]
  · simp [hu, SortedMap.getD]

/-- Granting lets the given users see the document, and changes nothing else. -/
theorem sees_grant {a : AccessLists} {d x : Nat} {users : List String} {u : String} :
    (a.grant d users).Sees u x ↔ a.Sees u x ∨ (x = d ∧ u ∈ users) := by
  induction users generalizing a with
  | nil => simp [grant]
  | cons user rest ih =>
      rw [show a.grant d (user :: rest) =
        (AccessLists.mk (a.byUser.insert user ((a.byUser.getD user ∅).insert d ()))).grant d rest
        from rfl, ih, sees_insert, List.mem_cons]
      constructor
      · rintro ((h | ⟨hx, hu⟩) | ⟨hx, hu⟩)
        · exact .inl h
        · exact .inr ⟨hx, .inl hu⟩
        · exact .inr ⟨hx, .inr hu⟩
      · rintro (h | ⟨hx, hu | hu⟩)
        · exact .inl (.inl h)
        · exact .inl (.inr ⟨hx, hu⟩)
        · exact .inr ⟨hx, hu⟩

theorem Trim.grant {a : AccessLists} (h : a.Trim) (d : Nat) (users : List String) :
    (a.grant d users).Trim := by
  induction users generalizing a with
  | nil => exact h
  | cons user rest ih =>
      refine ih (a := ⟨a.byUser.insert user ((a.byUser.getD user ∅).insert d ())⟩) ?_
      intro u documents hu
      rw [SortedMap.get?_insert] at hu
      by_cases hne : u = user
      · rw [if_pos hne] at hu
        cases hu
        exact ⟨d, by rw [SortedMap.get?_insert, if_pos rfl]⟩
      · rw [if_neg hne] at hu
        exact h u documents hu

/-! ## Revoking -/

/-- What one revocation leaves each user: nothing where the last document went. -/
theorem getD_revokeOne {number : Nat} {lists : SortedMap String (SortedMap Nat Unit)}
    {user u : String} :
    (revokeOne number lists user).getD u ∅ =
      if u = user then (lists.getD user ∅).erase number else lists.getD u ∅ := by
  unfold revokeOne
  cases hget : lists.get? user with
  | none =>
      by_cases hu : u = user
      · subst hu
        rw [if_pos rfl, SortedMap.getD_of_none hget, SortedMap.erase_eq_self rfl]
      · rw [if_neg hu]
  | some documents =>
      dsimp only
      split
      · next hempty =>
          by_cases hu : u = user
          · subst hu
            rw [if_pos rfl, SortedMap.getD_of_some hget,
              SortedMap.getD_of_none (by rw [SortedMap.get?_erase, if_pos rfl])]
            exact SortedMap.ext_get? fun x => (SortedMap.isEmpty_iff.mp hempty x).symm
          · simp [hu, SortedMap.getD]
      · by_cases hu : u = user
        · subst hu
          rw [if_pos rfl, SortedMap.getD_of_some hget,
            SortedMap.getD_of_some (by rw [SortedMap.get?_insert, if_pos rfl])]
        · simp [hu, SortedMap.getD]

theorem sees_revokeOne {number x : Nat} {lists : SortedMap String (SortedMap Nat Unit)}
    {user u : String} :
    (AccessLists.mk (revokeOne number lists user)).Sees u x ↔
      (AccessLists.mk lists).Sees u x ∧ ¬ (x = number ∧ u = user) := by
  rw [sees_iff_getD, sees_iff_getD, getD_revokeOne]
  by_cases hu : u = user
  · subst hu
    rw [if_pos rfl, SortedMap.get?_erase]
    by_cases hx : x = number <;> simp [hx]
  · simp [hu]

/-- Revoking hides the document from the given users, and changes nothing else. -/
theorem sees_revoke {a : AccessLists} {d x : Nat} {users : List String} {u : String} :
    (a.revoke d users).Sees u x ↔ a.Sees u x ∧ ¬ (x = d ∧ u ∈ users) := by
  induction users generalizing a with
  | nil => simp [revoke]
  | cons user rest ih =>
      rw [show a.revoke d (user :: rest) =
        (AccessLists.mk (revokeOne d a.byUser user)).revoke d rest from rfl, ih, sees_revokeOne,
        List.mem_cons]
      constructor
      · rintro ⟨⟨hs, hne⟩, hrest⟩
        refine ⟨hs, ?_⟩
        rintro ⟨hx, hu | hu⟩
        · exact hne ⟨hx, hu⟩
        · exact hrest ⟨hx, hu⟩
      · rintro ⟨hs, hne⟩
        exact ⟨⟨hs, fun ⟨hx, hu⟩ => hne ⟨hx, .inl hu⟩⟩, fun ⟨hx, hu⟩ => hne ⟨hx, .inr hu⟩⟩

theorem trim_revokeOne {lists : SortedMap String (SortedMap Nat Unit)}
    (h : (AccessLists.mk lists).Trim) (number : Nat) (user : String) :
    (AccessLists.mk (revokeOne number lists user)).Trim := by
  intro u documents hu
  change (revokeOne number lists user).get? u = some documents at hu
  unfold revokeOne at hu
  split at hu
  · exact h u documents hu
  · next left hget =>
      rcases SortedMap.get?_erase_or_insert hu with ⟨hleft, rfl⟩ | hu
      · obtain ⟨k, _, hk⟩ := SortedMap.not_isEmpty_iff.mp hleft
        exact ⟨k, hk⟩
      · exact h u documents hu

theorem Trim.revoke {a : AccessLists} (h : a.Trim) (d : Nat) (users : List String) :
    (a.revoke d users).Trim := by
  induction users generalizing a with
  | nil => exact h
  | cons user rest ih => exact ih (a := ⟨revokeOne d a.byUser user⟩) (trim_revokeOne h d user)

/-! ## Dropping a user -/

/-- Dropping a user answers the documents that the user could see. -/
theorem mem_removeUser {a : AccessLists} {user : String} {x : Nat} :
    x ∈ (a.removeUser user).1 ↔ a.Sees user x := by
  rw [sees_iff_getD, removeUser, SortedMap.mem_keys]
  exact ⟨fun ⟨(), h⟩ => h, fun h => ⟨(), h⟩⟩

theorem sees_removeUser {a : AccessLists} {user u : String} {x : Nat} :
    (a.removeUser user).2.Sees u x ↔ a.Sees u x ∧ u ≠ user := by
  rw [sees_iff_getD, sees_iff_getD, removeUser, SortedMap.getD, SortedMap.get?_erase]
  by_cases hu : u = user <;> simp [hu, SortedMap.getD]

theorem Trim.removeUser {a : AccessLists} (h : a.Trim) (user : String) :
    (a.removeUser user).2.Trim := by
  intro u documents hu
  rw [AccessLists.removeUser, SortedMap.get?_erase] at hu
  by_cases hne : u = user
  · simp [hne] at hu
  · rw [if_neg hne] at hu
    exact h u documents hu

end Concordance.AccessLists
