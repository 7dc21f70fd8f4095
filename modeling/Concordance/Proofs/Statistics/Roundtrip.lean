import Concordance.Proofs.Statistics.Blob
import Mathlib.Data.List.Destutter

/-!
# What a blob gives back

A blob of the standard encoding gives its message back as it was; one of the compact encoding gives
it back with the changes `Arranged`: in term order, changes of one term in the order they had. There
is only one such list (`Arranged.unique`), so nothing is left open. The table of types that the
compact encoding looks types up in has every type at one place (`exists_unique_place`), and is what
is left of the types of the arranged changes when neighbours that are equal are dropped
(`typeTable_eq_destutter`).
-/

namespace Concordance.Statistics.Blob

/-- The order of changes that the compact encoding writes. -/
abbrev InOrder (changes : List Change) : Prop :=
  changes.Pairwise fun a b => (compare a.term b.term).isLE = true

/-- Changes in term order, changes of one term in the order they had. -/
structure Arranged (changes sorted : List Change) : Prop where
  perm : sorted.Perm changes
  ordered : InOrder sorted
  stable : ∀ t, sorted.filter (·.term == t) = changes.filter (·.term == t)

variable {changes : List Change}

theorem InOrder.head_isLE {c d : Change} {rest : List Change} (h : InOrder (c :: rest))
    (hd : d ∈ c :: rest) : (compare c.term d.term).isLE = true := by
  rcases List.mem_cons.mp hd with rfl | hd
  · exact Std.ReflOrd.isLE_rfl
  · exact (List.pairwise_cons.mp h).1 d hd

/-- Lists that agree on the changes of every term have the same members. -/
theorem mem_of_filter_term {a b : List Change}
    (h : ∀ t, a.filter (·.term == t) = b.filter (·.term == t)) {c : Change} (hc : c ∈ a) :
    c ∈ b := by
  have hkept : c ∈ a.filter (·.term == c.term) := List.mem_filter.mpr ⟨hc, beq_self_eq_true _⟩
  rw [h c.term] at hkept
  exact (List.mem_filter.mp hkept).1

/-- Lists in term order that agree on the changes of every term are equal. -/
theorem InOrder.eq_of_filter_term {a b : List Change} (ha : InOrder a) (hb : InOrder b)
    (h : ∀ t, a.filter (·.term == t) = b.filter (·.term == t)) : a = b := by
  induction a generalizing b with
  | nil =>
      cases b with
      | nil => rfl
      | cons d ds =>
          exact absurd (mem_of_filter_term (fun t => (h t).symm) List.mem_cons_self)
            List.not_mem_nil
  | cons c cs ih =>
      cases b with
      | nil => exact absurd (mem_of_filter_term h List.mem_cons_self) List.not_mem_nil
      | cons d ds =>
          -- each head is in the other list, so neither term comes before the other
          have hle := ha.head_isLE (mem_of_filter_term (fun t => (h t).symm) List.mem_cons_self)
          have hge := hb.head_isLE (mem_of_filter_term h List.mem_cons_self)
          have hterm : c.term = d.term :=
            Std.LawfulEqOrd.eq_of_compare (Std.OrientedCmp.isLE_antisymm hle hge)
          have hheads := h d.term
          simp only [List.filter_cons, hterm, beq_self_eq_true, if_true] at hheads
          obtain ⟨rfl, -⟩ := List.cons.inj hheads
          have htails : ∀ t, cs.filter (·.term == t) = ds.filter (·.term == t) := by
            intro t
            have hfilter := h t
            simp only [List.filter_cons] at hfilter
            split at hfilter
            · exact (List.cons.inj hfilter).2
            · exact hfilter
          rw [ih (List.pairwise_cons.mp ha).2 (List.pairwise_cons.mp hb).2 htails]

/-- Changes are arranged in one way only. -/
theorem Arranged.unique {a b : List Change} (ha : Arranged changes a) (hb : Arranged changes b) :
    a = b :=
  ha.ordered.eq_of_filter_term hb.ordered fun t => (ha.stable t).trans (hb.stable t).symm

theorem isLE_trans (a b c : Change) (hab : (compare a.term b.term).isLE = true)
    (hbc : (compare b.term c.term).isLE = true) : (compare a.term c.term).isLE = true :=
  Std.TransOrd.isLE_trans hab hbc

theorem isLE_total (a b : Change) :
    ((compare a.term b.term).isLE || (compare b.term a.term).isLE) = true := by
  rw [Std.OrientedOrd.eq_swap (a := b.term)]
  cases compare a.term b.term <;> rfl

theorem arranged_sortChanges (changes : List Change) : Arranged changes (sortChanges changes) where
  perm := sortChanges_perm changes
  ordered := List.pairwise_mergeSort isLE_trans isLE_total changes
  stable := by
    intro t
    -- the changes of one term are in order already, so sorting keeps them as a sublist
    have hordered : InOrder (changes.filter (·.term == t)) := by
      refine List.pairwise_of_forall_mem_list fun a ha b hb => ?_
      have hat : a.term = t := by simpa using (List.mem_filter.mp ha).2
      have hbt : b.term = t := by simpa using (List.mem_filter.mp hb).2
      rw [hat, hbt]
      exact Std.ReflOrd.isLE_rfl
    have hsublist : (changes.filter (·.term == t)).Sublist (sortChanges changes) :=
      List.sublist_mergeSort isLE_trans isLE_total hordered List.filter_sublist
    have hkept := hsublist.filter (·.term == t)
    rw [List.filter_filter] at hkept
    simp only [Bool.and_self] at hkept
    exact (hkept.eq_of_length ((sortChanges_perm changes).filter _).length_eq.symm).symm

/-! ## The table of types -/

/-- The type of a change has one place in the table, however it is searched for. -/
theorem exists_unique_place {c : Change} (hc : c ∈ changes) :
    ∃! i : Nat, (typeTable changes)[i]? = some c.term.type := by
  obtain ⟨i, hi⟩ := List.mem_iff_getElem?.mp (mem_typeTable.mpr ⟨c, hc, rfl⟩)
  refine ⟨i, hi, fun j hj => ?_⟩
  have hlt : j < (typeTable changes).length := (List.getElem?_eq_some_iff.mp hj).1
  exact (List.getElem?_inj hlt (nodup_typeTable changes)).mp (hj.trans hi.symm)

/-- Terms in order have their types in order. -/
theorem isLE_type {a b : Term} (h : (compare a b).isLE = true) :
    (compare a.type b.type).isLE = true := by
  change ((compare a.type b.type).then (compare a.value b.value)).isLE = true at h
  cases htype : compare a.type b.type with
  | lt => rfl
  | eq => rfl
  | gt => rw [htype] at h; cases h

/-- Dropping neighbours that are equal leaves every member. -/
theorem mem_destutter_ne {texts : List String} {text : String} :
    text ∈ texts.destutter (· ≠ ·) ↔ text ∈ texts := by
  cases texts with
  | nil => exact Iff.rfl
  | cons first rest =>
      rw [List.destutter_cons']
      induction rest generalizing first with
      | nil => exact Iff.rfl
      | cons second rest ih =>
          rw [List.destutter'_cons]
          split
          · rw [List.mem_cons, ih, List.mem_cons (a := text) (b := first)]
          · next hequal =>
              rw [ih, not_not.mp hequal]
              simp

/-- Dropping neighbours that are equal from texts in order leaves them ascending. -/
theorem pairwise_destutter_ne {texts : List String}
    (h : texts.Pairwise fun a b => (compare a b).isLE = true) :
    (texts.destutter (· ≠ ·)).Pairwise fun a b => compare a b = .lt := by
  cases texts with
  | nil => exact .nil
  | cons first rest =>
      induction rest generalizing first with
      | nil => exact List.pairwise_singleton _ _
      | cons second rest ih =>
          obtain ⟨hfirst, hrest⟩ := List.pairwise_cons.mp h
          rw [List.destutter_cons']
          rw [List.destutter'_cons]
          split
          · next hdiffer =>
              refine List.pairwise_cons.mpr ⟨fun text htext => ?_, ih second hrest⟩
              have hmem : text ∈ second :: rest := mem_destutter_ne.mp htext
              have hlt : compare first second = .lt := by
                cases horder : compare first second with
                | lt => rfl
                | eq => exact absurd (Std.LawfulEqOrd.eq_of_compare horder) hdiffer
                | gt =>
                    have := hfirst second List.mem_cons_self
                    rw [horder] at this
                    cases this
              rcases List.mem_cons.mp hmem with rfl | hlater
              · exact hlt
              · exact Std.TransCmp.lt_of_lt_of_isLE hlt ((List.pairwise_cons.mp hrest).1 text hlater)
          · next hequal =>
              rw [not_not.mp hequal] at h ⊢
              exact ih second hrest

/-- The table holds what is left of the types of the changes in term order when neighbours that are
equal are dropped. -/
theorem typeTable_eq_destutter (changes : List Change) :
    typeTable changes = ((sortChanges changes).map (·.term.type)).destutter (· ≠ ·) := by
  have hordered : ((sortChanges changes).map (·.term.type)).Pairwise
      fun a b => (compare a b).isLE = true :=
    List.pairwise_map.mpr ((arranged_sortChanges changes).ordered.imp isLE_type)
  refine eq_of_ascending (pairwise_ascending _) (pairwise_destutter_ne hordered) fun type => ?_
  rw [mem_destutter_ne, typeTable, mem_ascending, ((sortChanges_perm changes).map _).mem_iff]

/-! ## The way there and back -/

/-- A message whose numbers and lengths are words is read from its blob, with no change to it but
for the order of changes that the compact encoding puts them in. -/
theorem message_restored {m : Message} (h : m.InRange) :
    (m.encoding = .standard → read (encode m) = .ok m) ∧
      (m.encoding = .compact →
        ∃ sorted, Arranged m.changes sorted ∧
          (∀ other, Arranged m.changes other → other = sorted) ∧
          read (encode m) = .ok { m with changes := sorted }) := by
  have hread : read (encode m) = .ok (canonical m) := by
    rw [read, decode_encode h]
    rfl
  refine ⟨fun hencoding => ?_, fun hencoding => ?_⟩
  · rw [hread, canonical, hencoding]
    cases m
    cases hencoding
    rfl
  · have harranged := arranged_sortChanges m.changes
    refine ⟨sortChanges m.changes, harranged, fun other hother => hother.unique harranged, ?_⟩
    rw [hread, canonical, hencoding]

/-- A message with changes out of order, some of one term and some of one type. -/
def scrambled : Message where
  timestamp := ⟨3, 1⟩
  part := 2
  origin := .register
  encoding := .compact
  documents := -4
  changes := [⟨⟨"word", "crème"⟩, 5⟩, ⟨⟨"stem", "crate"⟩, 2⟩, ⟨⟨"word", "crème"⟩, -9⟩,
    ⟨⟨"word", "crèche"⟩, 1⟩, ⟨⟨"stem", "crate"⟩, 2⟩]

theorem scrambled_restored :
    scrambled.InRange ∧
      ∃ sorted, Arranged scrambled.changes sorted ∧
        (∀ other, Arranged scrambled.changes other → other = sorted) ∧
        read (encode scrambled) = .ok { scrambled with changes := sorted } := by
  have h : scrambled.InRange := by decide +kernel
  exact ⟨h, (message_restored h).2 rfl⟩

end Concordance.Statistics.Blob
