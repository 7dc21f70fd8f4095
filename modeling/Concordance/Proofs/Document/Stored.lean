import Concordance.Document.Stored
import Concordance.Proofs.SortedMap

/-!
# What stored documents keep

The positions of every search term and the users of a stored document ascend strictly, whatever the
document was like that it was made of (`StoredDocument.inOrder_ofDocument`).

The forward index of a stored document lists the supplied entries of each type by position, those of
one position in supply order, and loses or adds none; its search terms have the ascending set of the
supplied positions (`StoredDocument.renders_ofDocument`).
-/

/-! ## Order -/

namespace Concordance.StoredDocument

/-- Positions and users ascend strictly. -/
structure InOrder (stored : StoredDocument) : Prop where
  search : ∀ t positions, stored.search.get? t = some positions →
    positions.Pairwise fun a b => compare a b = .lt
  access : stored.access.Pairwise fun a b => compare a b = .lt

/-- A stored document without a user. -/
def withoutUser (user : String) (stored : StoredDocument) : StoredDocument :=
  { stored with access := stored.access.filter (· ≠ user) }

theorem inOrder_ofDocument (id : String) (doc : Document) (keepAccess : Bool) :
    (ofDocument id doc keepAccess).InOrder where
  search t positions h := by
    rw [ofDocument, SortedMap.get?_map] at h
    obtain ⟨collected, -, hsorted⟩ := Option.map_eq_some_iff.mp h
    rw [← hsorted]
    exact pairwise_ascending collected
  access := by
    show (if keepAccess = true then ascending doc.access else []).Pairwise _
    split
    · exact pairwise_ascending doc.access
    · exact List.Pairwise.nil

/-- The values that are collected under a key, in their order. -/
theorem get?_groupBy {κ α : Type} [DecidableEq κ] [Ord κ] [Std.TransOrd κ] [Std.LawfulEqOrd κ]
    (pairs : List (κ × α)) (k : κ) :
    (groupBy pairs).get? k =
      if pairs.filter (·.1 = k) = [] then none else some ((pairs.filter (·.1 = k)).map (·.2)) := by
  have hstep : ∀ (rest : List (κ × α)) (m : SortedMap κ (List α)),
      (rest.foldl (fun m p => m.insert p.1 (m.getD p.1 [] ++ [p.2])) m).get? k =
        if rest.filter (·.1 = k) = [] then m.get? k
        else some (m.getD k [] ++ (rest.filter (·.1 = k)).map (·.2)) := by
    intro rest
    induction rest with
    | nil => intro m; rfl
    | cons p rest ih =>
        intro m
        rw [List.foldl_cons, ih, SortedMap.get?_insert]
        by_cases hp : p.1 = k
        · have hkey : k = p.1 := hp.symm
          rw [List.filter_cons_of_pos (by simpa using hp), if_neg (List.cons_ne_nil _ _), if_pos hkey,
            List.map_cons]
          by_cases hrest : rest.filter (·.1 = k) = []
          · rw [if_pos hrest, hrest, hp]
            rfl
          · rw [if_neg hrest, SortedMap.getD, SortedMap.get?_insert, if_pos hkey, Option.getD_some, hp,
              List.append_assoc]
            rfl
        · have hkey : ¬ k = p.1 := fun h => hp h.symm
          rw [List.filter_cons_of_neg (by simpa using hp), if_neg hkey, SortedMap.getD,
            SortedMap.get?_insert, if_neg hkey]
          rfl
  have hall := hstep pairs ∅
  rw [SortedMap.getD, SortedMap.get?_empty, Option.getD_none, List.nil_append] at hall
  exact hall

/-- The positions of a search term are those of its occurrences, and there are some. -/
theorem search_ofDocument {id : String} {doc : Document} {keepAccess : Bool} {t : Term}
    {positions : List Nat} (h : (ofDocument id doc keepAccess).search.get? t = some positions) :
    positions ≠ [] ∧ ∀ p, p ∈ positions ↔ ∃ o ∈ doc.search, o.term = t ∧ o.position = p := by
  rw [ofDocument, SortedMap.get?_map, get?_groupBy] at h
  obtain ⟨collected, hcollected, rfl⟩ := Option.map_eq_some_iff.mp h
  split at hcollected
  · cases hcollected
  · next hsome =>
      cases hcollected
      have hmem : ∀ p, p ∈ ascending (((doc.search.map fun o => (o.term, o.position)).filter
          (·.1 = t)).map (·.2)) ↔ ∃ o ∈ doc.search, o.term = t ∧ o.position = p := by
        intro p
        simp only [mem_ascending, List.mem_map, List.mem_filter, decide_eq_true_eq]
        constructor
        · rintro ⟨_, ⟨⟨o, ho, rfl⟩, ht⟩, rfl⟩
          exact ⟨o, ho, ht, rfl⟩
        · rintro ⟨o, ho, ht, rfl⟩
          exact ⟨_, ⟨⟨o, ho, rfl⟩, ht⟩, rfl⟩
      refine ⟨?_, hmem⟩
      obtain ⟨e, he⟩ := List.exists_mem_of_ne_nil _ hsome
      exact List.ne_nil_of_mem (mem_ascending.mpr (List.mem_map_of_mem (f := (·.2)) he))

theorem InOrder.withoutUser {stored : StoredDocument} (h : stored.InOrder) (user : String) :
    (stored.withoutUser user).InOrder where
  search := h.search
  access := h.access.filter _

theorem mem_access_withoutUser {stored : StoredDocument} {user u : String} :
    u ∈ (stored.withoutUser user).access ↔ u ∈ stored.access ∧ u ≠ user := by
  simp [StoredDocument.withoutUser, List.mem_filter]

/-- A user who is not on the list is not missed. -/
theorem withoutUser_of_not_mem {stored : StoredDocument} {user : String}
    (h : user ∉ stored.access) : stored.withoutUser user = stored := by
  have hfilter : stored.access.filter (· ≠ user) = stored.access := by
    refine List.filter_eq_self.mpr fun u hu => ?_
    simpa using fun heq : u = user => h (heq ▸ hu)
  unfold StoredDocument.withoutUser
  rw [hfilter]

theorem withoutUser_withoutUser (user : String) (stored : StoredDocument) :
    (stored.withoutUser user).withoutUser user = stored.withoutUser user :=
  withoutUser_of_not_mem fun h => (mem_access_withoutUser.mp h).2 rfl

end Concordance.StoredDocument

/-! ## What is kept of the document -/

namespace Concordance

/-- The forward entries of a type that a document supplies, in supply order. -/
def Document.forwardOf (doc : Document) (type : String) : List ForwardEntry :=
  (doc.forward.filter (·.type = type)).map fun o => ⟨o.position, o.value⟩

/-- Entries are listed by position, those of one position in the order in which they were
supplied. -/
structure ListsByPosition (supplied listed : List ForwardEntry) : Prop where
  perm : listed.Perm supplied
  sorted : listed.Pairwise fun a b => a.position ≤ b.position
  stable : ∀ position, listed.filter (·.position = position) =
    supplied.filter (·.position = position)

/-- A stable sort lists by position. -/
theorem listsByPosition_mergeSort (entries : List ForwardEntry) :
    ListsByPosition entries (entries.mergeSort fun a b => a.position ≤ b.position) := by
  have hperm := List.mergeSort_perm entries fun a b => decide (a.position ≤ b.position)
  have htrans : ∀ a b c : ForwardEntry, decide (a.position ≤ b.position) = true →
      decide (b.position ≤ c.position) = true → decide (a.position ≤ c.position) = true := by
    simp only [decide_eq_true_eq]
    omega
  have htotal : ∀ a b : ForwardEntry,
      (decide (a.position ≤ b.position) || decide (b.position ≤ a.position)) = true := by
    simp only [Bool.or_eq_true, decide_eq_true_eq]
    omega
  refine ⟨hperm, ?_, fun position => ?_⟩
  · exact (List.pairwise_mergeSort htrans htotal entries).imp of_decide_eq_true
  · -- entries of one position are sorted as they are, so they stay one behind the other
    have htied : (entries.filter (·.position = position)).Pairwise
        fun a b => decide (a.position ≤ b.position) = true := by
      refine List.Pairwise.imp_of_mem (fun ha hb _ => ?_)
        (List.pairwise_of_forall (R := fun _ _ => True) fun _ _ => trivial)
      have ha := (List.mem_filter.mp ha).2
      have hb := (List.mem_filter.mp hb).2
      simp only [decide_eq_true_eq] at ha hb ⊢
      omega
    have hsublist := (List.sublist_mergeSort htrans htotal htied List.filter_sublist).filter
      (·.position = position)
    rw [List.filter_filter] at hsublist
    simp only [Bool.and_self] at hsublist
    exact (hsublist.eq_of_length (hperm.filter _).length_eq.symm).symm

namespace StoredDocument

/-- A stored document has what a document supplies. -/
structure Renders (stored : StoredDocument) (doc : Document) : Prop where
  forward : ∀ type, ListsByPosition (doc.forwardOf type) (stored.forwardTerms type)
  ascending : ∀ t, (stored.search.getD t []).Pairwise (· < ·)
  positions : ∀ t p, p ∈ stored.search.getD t [] ↔ ∃ o ∈ doc.search, o.term = t ∧ o.position = p

/-- What becomes of the values collected under a key; without values there is nothing. -/
theorem getD_map_groupBy {κ α β : Type} [DecidableEq κ] [Ord κ] [Std.TransOrd κ]
    [Std.LawfulEqOrd κ] (pairs : List (κ × α)) (k : κ) {f : List α → List β} (hnil : f [] = []) :
    ((groupBy pairs).map fun _ => f).getD k [] = f ((pairs.filter (·.1 = k)).map (·.2)) := by
  rw [SortedMap.getD, SortedMap.get?_map, get?_groupBy]
  split
  · next hnone =>
      rw [hnone]
      exact hnil.symm
  · rfl

theorem forwardTerms_ofDocument (id : String) (doc : Document) (keepAccess : Bool) (type : String) :
    (ofDocument id doc keepAccess).forwardTerms type =
      (doc.forwardOf type).mergeSort fun a b => a.position ≤ b.position := by
  rw [forwardTerms, ofDocument, getD_map_groupBy _ _ List.mergeSort_nil, List.filter_map,
    List.map_map]
  rfl

theorem search_getD_ofDocument (id : String) (doc : Document) (keepAccess : Bool) (t : Term) :
    (ofDocument id doc keepAccess).search.getD t [] =
      ascending ((doc.search.filter (·.term = t)).map (·.position)) := by
  rw [ofDocument, getD_map_groupBy _ _ rfl, List.filter_map, List.map_map]
  rfl

/-- The stored form of a document. -/
theorem renders_ofDocument (id : String) (doc : Document) (keepAccess : Bool) :
    (ofDocument id doc keepAccess).Renders doc where
  forward type := by
    rw [forwardTerms_ofDocument]
    exact listsByPosition_mergeSort _
  ascending t := by
    rw [search_getD_ofDocument]
    exact ascending_lt _
  positions t p := by
    rw [search_getD_ofDocument, mem_ascending]
    simp only [List.mem_map, List.mem_filter, decide_eq_true_eq, and_assoc]

/-- Who may see a document is not what it supplies. -/
theorem Renders.withoutUser {stored : StoredDocument} {doc : Document} (h : stored.Renders doc)
    (user : String) : (stored.withoutUser user).Renders doc :=
  ⟨h.forward, h.ascending, h.positions⟩

end StoredDocument

end Concordance
