import Concordance.Proofs.Catalog.Soundness

/-!
# What an operation leaves alone

An operation answers the terms whose posting lists it went through. Generation, timestamp and all
other posting lists stay as they were (`Frame`), whatever snapshot it is applied to: nothing here
needs the snapshot to be sound. Frames compose along a run of operations, and the lists of terms are
put one behind the other.
-/

namespace Concordance.Snapshot

variable {s s' s'' : Snapshot} {touched touched' : List Term} {t u : Term} {number : Nat}

/-- Two snapshots of one generation and timestamp that differ, in postings, in some terms only. -/
structure Frame (touched : List Term) (s s' : Snapshot) : Prop where
  generation : s'.generation = s.generation
  timestamp : s'.timestamp = s.timestamp
  postings : ∀ t, t ∉ touched → s'.postings.get? t = s.postings.get? t

namespace Frame

theorem refl (touched : List Term) (s : Snapshot) : Frame touched s s :=
  ⟨rfl, rfl, fun _ _ => rfl⟩

theorem trans (h : Frame touched s s') (h' : Frame touched' s' s'') :
    Frame (touched ++ touched') s s'' where
  generation := h'.generation.trans h.generation
  timestamp := h'.timestamp.trans h.timestamp
  postings t ht := by
    obtain ⟨hfirst, hsecond⟩ := not_or.mp fun hor => ht (List.mem_append.mpr hor)
    exact (h'.postings t hsecond).trans (h.postings t hfirst)

/-- A term that was not gone through is in as many documents as before. -/
theorem documentFrequency_eq (h : Frame touched s s') (ht : t ∉ touched) :
    s'.documentFrequency t = s.documentFrequency t := by
  rw [documentFrequency, documentFrequency, h.postings t ht]

end Frame

/-! ## Posting lists of other terms -/

theorem get?_foldl_erasePosting {terms : List Term} {postings : SortedMap Term Postings}
    (ht : t ∉ terms) :
    (terms.foldl (erasePosting number) postings).get? t = postings.get? t := by
  induction terms generalizing postings with
  | nil => rfl
  | cons u rest ih =>
      obtain ⟨hne, hrest⟩ := List.ne_and_not_mem_of_not_mem_cons ht
      rw [List.foldl_cons, ih hrest]
      unfold erasePosting
      split
      · rfl
      · dsimp only
        split
        · rw [SortedMap.get?_erase, if_neg hne]
        · rw [SortedMap.get?_insert, if_neg hne]

theorem get?_foldl_enterPosting {entries : List (Term × List Nat)}
    {postings : SortedMap Term Postings} (ht : t ∉ entries.map (·.1)) :
    (entries.foldl (enterPosting number) postings).get? t = postings.get? t := by
  induction entries generalizing postings with
  | nil => rfl
  | cons e rest ih =>
      rw [List.map_cons] at ht
      obtain ⟨hne, hrest⟩ := List.ne_and_not_mem_of_not_mem_cons ht
      rw [List.foldl_cons, ih hrest, enterPosting, SortedMap.get?_insert, if_neg hne]

/-! ## The frame of an operation -/

theorem frame_dropData (s : Snapshot) (d : Nat) : Frame (s.dropData d).1 s (s.dropData d).2 := by
  refine ⟨generation_dropData s d, timestamp_dropData s d, ?_⟩
  unfold dropData
  split
  · exact fun _ _ => rfl
  · exact fun t ht => get?_foldl_erasePosting ht

theorem frame_enterData (s : Snapshot) (d : Nat) (record : List UInt8) (stored : StoredDocument) :
    Frame stored.search.keys s (s.enterData d record stored) :=
  ⟨rfl, rfl, fun _ ht => get?_foldl_enterPosting ht⟩

theorem frame_insert {id : String} {doc : Document}
    (happly : s.insert number id doc = .ok (touched, s')) : Frame touched s s' := by
  obtain ⟨record, -, hrest⟩ := Fallible.bind_eq_ok.mp happly
  let stored := StoredDocument.ofDocument id doc s.accessControl
  -- what is dropped first is framed, and so is what is entered then
  have hentered : ∀ {dropped : List Term} {s₁ : Snapshot}, Frame dropped s s₁ →
      Frame (dropped ++ stored.search.keys) s
        (({ s₁ with numbering := s₁.numbering.assign id number } : Snapshot).enterData number record
          stored) := by
    intro dropped s₁ hdropped
    have hassigned : Frame dropped s { s₁ with numbering := s₁.numbering.assign id number } :=
      ⟨hdropped.generation, hdropped.timestamp, hdropped.postings⟩
    exact hassigned.trans (frame_enterData _ number record stored)
  split at hrest
  · cases hrest
    exact hentered (.refl [] s)
  · split at hrest
    · cases hrest
      exact hentered (frame_dropData s number)
    · cases hrest

/-- An operation changes no posting list but those of the terms that it answers. -/
theorem frame_apply {op : Operation} (happly : s.apply op = .ok (touched, s')) :
    Frame touched s s' := by
  cases op with
  | insert number id doc => exact frame_insert happly
  | delete id =>
      obtain ⟨d, numbering, -, rfl, rfl⟩ := delete_eq_ok.mp happly
      have hdropped := frame_dropData s d
      exact ⟨hdropped.generation, hdropped.timestamp, hdropped.postings⟩
  | deleteUser user =>
      cases happly
      exact ⟨rfl, rfl, fun _ _ => rfl⟩
  | define schema =>
      rw [Snapshot.apply] at happly
      split at happly <;> cases happly
      exact ⟨rfl, rfl, fun _ _ => rfl⟩
  | alter alterations =>
      obtain ⟨table, -, hs'⟩ := Fallible.bind_eq_ok.mp happly
      cases hs'
      exact ⟨rfl, rfl, fun _ _ => rfl⟩

end Concordance.Snapshot
