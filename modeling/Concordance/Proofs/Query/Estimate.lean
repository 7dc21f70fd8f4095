import Concordance.Proofs.Query.Listing
import Concordance.Proofs.Query.Window
import Mathlib.Data.List.Perm.Subperm

/-!
# Estimates of document frequencies

A plan says about how many documents are present without looking for them. For a term the number is
exact. For a structure it is made of those of the parts: where any part is enough they are added up
(`length_le_total`), and where all parts have to be there, that of any part will do
(`length_le_of_all`). Between these two, where so many of the parts are enough but not one is, the
number is that of a single part, though documents may differ in the parts that they have
(`exists_underestimate`). A pattern without such a node is `Gauged`, and its estimate is an upper
bound.
-/

namespace Concordance

namespace Operator

/-- The parts whose estimates an operator uses: not the delimiter, not what is dropped, not what is
around. -/
def counted {α : Type} (operator : Operator) (parts : List α) : List α :=
  match operator with
  | .difference | .inside => parts.take 1
  | .delimitedSequence | .delimitedWindow => parts.tail
  | _ => parts

/-- Whether an operator takes the estimate of a single part although a document need not have all
parts. -/
def Overlooks (operator : Operator) (cardinality count : Nat) : Prop :=
  match operator with
  | .presence => 2 ≤ cardinality ∧ cardinality < count
  | .window => 1 ≤ cardinality ∧ cardinality < count
  | .delimitedWindow => 1 ≤ cardinality ∧ cardinality < count - 1
  | _ => False

theorem forall₂_counted {α β : Type} {R : α → β → Prop} {l : List α} {r : List β}
    (h : List.Forall₂ R l r) (operator : Operator) :
    List.Forall₂ R (operator.counted l) (operator.counted r) := by
  cases operator with
  | difference | inside => exact List.forall₂_take 1 h
  | delimitedSequence | delimitedWindow =>
      simp only [counted, ← List.drop_one]
      exact List.forall₂_drop 1 h
  | _ => exact h

theorem mem_of_mem_counted {α : Type} {operator : Operator} {l : List α} {a : α}
    (h : a ∈ operator.counted l) : a ∈ l := by
  cases operator with
  | difference | inside => exact List.mem_of_mem_take h
  | delimitedSequence | delimitedWindow => exact List.mem_of_mem_tail h
  | _ => exact h

end Operator

/-- A pattern of which no node that is used for the estimate overlooks parts. -/
inductive Pattern.Gauged : Pattern → Prop
  | term (t : Term) : Gauged (.term t)
  | field (start stop : String) : Gauged (.field start stop)
  | node {operator : Operator} {range cardinality : Nat} {parts : List Pattern} :
    ¬ operator.Overlooks cardinality parts.length → (∀ p ∈ operator.counted parts, Gauged p) →
      Gauged (.structure operator range cardinality parts)

namespace Plan

variable {p : Plan} {parts : List Plan}

/-! ## Counting documents -/

/-- The documents of a plan. -/
def found (p : Plan) : List Nat := p.allMatches.map (·.1)

theorem length_found (p : Plan) : p.found.length = p.allMatches.length := List.length_map _

theorem mem_found (hp : p.Proper) {d : Nat} : d ∈ p.found ↔ 1 ≤ d ∧ p.presentAt d = true := by
  rw [found, List.mem_map]
  constructor
  · rintro ⟨⟨d, starts⟩, hentry, rfl⟩
    obtain ⟨hd, hpresent, -⟩ := (hp.allMatches_lists.entries d starts).mp hentry
    exact ⟨hd, hpresent⟩
  · rintro ⟨hd, hpresent⟩
    exact ⟨(d, _), (hp.allMatches_lists.entries d _).mpr ⟨hd, hpresent, rfl⟩, rfl⟩

theorem nodup_found (hp : p.Proper) : p.found.Nodup :=
  (List.pairwise_map.mpr hp.allMatches_lists.ascend).imp Nat.ne_of_lt

/-- There are no more documents than in a list that has them all. -/
theorem length_le (hp : p.Proper) {l : List Nat}
    (h : ∀ d, 1 ≤ d → p.presentAt d = true → d ∈ l) : p.allMatches.length ≤ l.length := by
  rw [← length_found]
  refine ((nodup_found hp).subperm fun d hd => ?_).length_le
  obtain ⟨hd, hpresent⟩ := (mem_found hp).mp hd
  exact h d hd hpresent

/-- There are no fewer documents than in a list of some of them. -/
theorem le_length (hp : p.Proper) {l : List Nat} (hl : l.Nodup)
    (h : ∀ d ∈ l, 1 ≤ d ∧ p.presentAt d = true) : l.length ≤ p.allMatches.length := by
  rw [← length_found]
  exact (hl.subperm fun d hd => (mem_found hp).mpr (h d hd)).length_le

theorem length_mono {q : Plan} (hp : p.Proper) (hq : q.Proper)
    (h : ∀ d, p.presentAt d = true → q.presentAt d = true) :
    p.allMatches.length ≤ q.allMatches.length := by
  rw [← length_found q]
  exact length_le hp fun d hd hpresent => (mem_found hq).mpr ⟨hd, h d hpresent⟩

theorem length_eq_zero (hp : p.Proper) (h : ∀ d, ¬ p.presentAt d = true) :
    p.allMatches.length = 0 :=
  Nat.le_zero.mp (length_le hp (l := []) fun d _ hpresent => absurd hpresent (h d))

/-! ## Estimates of the parts -/

theorem frequenciesOfAll_eq (parts : List Plan) :
    frequenciesOfAll parts = parts.map documentFrequency := by
  induction parts with
  | nil => rfl
  | cons p rest ih => rw [frequenciesOfAll, ih, List.map_cons]

theorem leastOf_mem {numbers : List Nat} (h : numbers ≠ []) : leastOf numbers ∈ numbers := by
  unfold leastOf
  cases hmin : numbers.min? with
  | none => exact absurd (List.min?_eq_none_iff.mp hmin) h
  | some n => exact (List.min?_eq_some_iff.mp hmin).1

theorem nthGreatest_mem {n : Nat} {numbers : List Nat} (hn : 1 ≤ n) (h : n ≤ numbers.length) :
    nthGreatest n numbers ∈ numbers := by
  have hlt : n - 1 < (numbers.mergeSort (· ≥ ·)).length := by
    rw [List.length_mergeSort]
    omega
  unfold nthGreatest
  rw [List.getElem?_eq_getElem hlt, Option.getD_some]
  exact List.mem_mergeSort.mp (List.getElem_mem hlt)

/-- Estimates of the parts that are upper bounds. -/
abbrev Bounded (parts : List Plan) : Prop :=
  ∀ q ∈ parts, q.Proper ∧ q.allMatches.length ≤ q.documentFrequency

/-- If documents have all parts, there are no more than any part has. -/
theorem length_le_of_all (hp : p.Proper) (hparts : Bounded parts)
    (hall : ∀ d, p.presentAt d = true → ∀ q ∈ parts, q.presentAt d = true) {n : Nat}
    (hn : n ∈ frequenciesOfAll parts) : p.allMatches.length ≤ n := by
  rw [frequenciesOfAll_eq] at hn
  obtain ⟨q, hq, rfl⟩ := List.mem_map.mp hn
  obtain ⟨hproper, hbound⟩ := hparts q hq
  exact Nat.le_trans (length_mono hp hproper fun d hpresent => hall d hpresent q hq) hbound

theorem length_le_leastOf (hp : p.Proper) (hparts : Bounded parts)
    (hall : ∀ d, p.presentAt d = true → parts ≠ [] ∧ ∀ q ∈ parts, q.presentAt d = true) :
    p.allMatches.length ≤ leastOf (frequenciesOfAll parts) := by
  by_cases hne : parts = []
  · rw [length_eq_zero hp fun d hpresent => (hall d hpresent).1 hne]
    exact Nat.zero_le _
  · refine length_le_of_all hp hparts (fun d hpresent => (hall d hpresent).2) (leastOf_mem ?_)
    rw [frequenciesOfAll_eq]
    exact fun hnil => hne (List.map_eq_nil_iff.mp hnil)

/-- If documents have as many parts as there are, they have all of them. -/
theorem length_le_nthGreatest (hp : p.Proper) (hparts : Bounded parts) {need : Nat}
    (hneed : parts.length ≤ need)
    (hcount : ∀ d, p.presentAt d = true → parts ≠ [] ∧ need ≤ parts.countP (·.presentAt d)) :
    p.allMatches.length ≤ nthGreatest need (frequenciesOfAll parts) := by
  by_cases hall : parts ≠ [] ∧ need = parts.length
  · obtain ⟨hne, rfl⟩ := hall
    have hpositive := List.length_pos_iff.mpr hne
    refine length_le_of_all hp hparts (fun d hpresent => ?_) (nthGreatest_mem hpositive ?_)
    · exact List.countP_eq_length.mp
        (Nat.le_antisymm List.countP_le_length (hcount d hpresent).2)
    · rw [frequenciesOfAll_eq, List.length_map]
  · rw [length_eq_zero hp fun d hpresent => ?_]
    · exact Nat.zero_le _
    · obtain ⟨hne, hle⟩ := hcount d hpresent
      exact hall ⟨hne, Nat.le_antisymm (Nat.le_trans hle List.countP_le_length) hneed⟩

/-- If documents have any of the parts, there are no more than the parts have together. -/
theorem length_le_total (hp : p.Proper) (hparts : Bounded parts)
    (hany : ∀ d, p.presentAt d = true → ∃ q ∈ parts, q.presentAt d = true) :
    p.allMatches.length ≤ Number.total (frequenciesOfAll parts) := by
  have hsum : ∀ {parts : List Plan}, Bounded parts →
      (parts.flatMap found).length ≤ Number.total (frequenciesOfAll parts) := by
    intro parts hparts
    induction parts with
    | nil => exact Nat.zero_le _
    | cons q rest ih =>
        obtain ⟨hq, hrest⟩ := List.forall_mem_cons.mp hparts
        rw [List.flatMap_cons, List.length_append, length_found, frequenciesOfAll, Number.total]
        exact Nat.add_le_add hq.2 (ih hrest)
  refine Nat.le_trans (length_le hp fun d hd hpresent => ?_) (hsum hparts)
  obtain ⟨q, hq, hfound⟩ := hany d hpresent
  exact List.mem_flatMap.mpr ⟨q, hq, (mem_found (hparts q hq).1).mpr ⟨hd, hfound⟩⟩

/-! ## How many parts a document has -/

/-- So many parts hold a document when so many of them are present. -/
theorem presentAt_presence {need d : Nat} :
    (presence need parts).presentAt d = true ↔ need ≤ parts.countP (·.presentAt d) := by
  rw [presentAt, matchesAt, matchesOfAll_eq, List.countP_eq_length_filter]
  unfold gather
  dsimp only
  rw [present_eq, List.length_map]
  split
  · next henough => simpa using henough
  · next hshort => simpa using hshort

theorem startsRise_spansAt (hparts : ∀ q ∈ parts, q.Proper) (d : Nat) :
    ∀ spans ∈ parts.map (·.spansAt d), Span.StartsRise spans := by
  intro spans hspans
  obtain ⟨q, hq, rfl⟩ := List.mem_map.mp hspans
  exact (areMatches_spansAt (hparts q hq) d).ascend.imp Nat.le_of_lt

/-- A part that has a span in range is present. -/
theorem partsNear_le (parts : List Plan) (d start range : Nat) :
    Window.partsNear (parts.map (·.spansAt d)) start range ≤ parts.countP (·.presentAt d) := by
  rw [Window.partsNear, List.countP_map]
  refine List.countP_mono_left fun q _ hany => ?_
  obtain ⟨t, ht, -⟩ := List.any_eq_true.mp hany
  exact presentAt_of_mem_spansAt ht

/-- A document of a window has a match in so many parts. -/
theorem count_of_window (hparts : ∀ q ∈ parts, q.Proper) {range need d : Nat}
    {delimiter : Option Plan} (h : (window range need parts delimiter).presentAt d = true) :
    parts ≠ [] ∧ need ≤ parts.countP (·.presentAt d) := by
  obtain ⟨q, hq, -⟩ := exists_part_of_window h
  refine ⟨List.ne_nil_of_mem hq, ?_⟩
  rw [presentAt, matchesAt, matchesOfAll_eq, getD_matchesAt] at h
  obtain ⟨s, hs⟩ := exists_mem_of_nonEmpty h
  obtain ⟨start, -, hmatch⟩ := List.mem_filterMap.mp hs
  obtain ⟨-, hnear, -⟩ := (Window.matchFrom?_iff (startsRise_spansAt hparts d)).mp hmatch
  exact Nat.le_trans hnear (partsNear_le parts d start range)

/-- So many parts that have a span near to that of one of them make a match. -/
theorem presentAt_window (hparts : ∀ q ∈ parts, q.Proper) {range need d start : Nat}
    {delimiter : Option Plan} (hneed : 1 ≤ need)
    (hnear : need ≤ Window.partsNear (parts.map (·.spansAt d)) start range)
    (hstart : ∃ q ∈ parts, ∃ t ∈ q.spansAt d, t.start = start) (hcuts : cutsAt d delimiter = []) :
    (window range need parts delimiter).presentAt d = true := by
  obtain ⟨q, hq, hspan⟩ := hstart
  obtain ⟨t, ht⟩ := Window.exists_mem_of_near (startsRise_spansAt hparts d) hneed hnear
    ⟨q.spansAt d, List.mem_map_of_mem hq, hspan⟩
  refine presentAt_of_mem_spansAt (s := t) ?_
  rw [spansAt, matchesAt, matchesOfAll_eq, getD_matchesAt, getD_nonEmpty, hcuts]
  exact ht

end Plan

namespace Pattern

open Concordance.Plan

variable {s : Snapshot} {operator : Operator} {range cardinality : Nat} {plans : List Plan}

/-! ## Estimates of structures -/

/-- The estimate of a structure is an upper bound if those of its parts are and it overlooks none. -/
theorem length_join_le (hjoin : (join operator range cardinality plans).Proper)
    (hproper : ∀ q ∈ plans, q.Proper) (hgauged : ¬ operator.Overlooks cardinality plans.length)
    (hparts : ∀ q ∈ operator.counted plans, q.allMatches.length ≤ q.documentFrequency) :
    (join operator range cardinality plans).allMatches.length ≤
      (join operator range cardinality plans).documentFrequency := by
  cases plans with
  | nil =>
      have hnone : ∀ d, ¬ (join operator range cardinality []).presentAt d = true := by
        intro d h
        rw [join] at h
        cases h
      rw [length_eq_zero hjoin hnone]
      exact Nat.zero_le _
  | cons first rest =>
      have hbounded : ∀ {parts : List Plan}, (∀ q ∈ parts, q ∈ first :: rest) →
          (∀ q ∈ parts, q.allMatches.length ≤ q.documentFrequency) → Bounded parts :=
        fun hsub hall q hq => ⟨hproper q (hsub q hq), hall q hq⟩
      have hself : ∀ q ∈ first :: rest, q ∈ first :: rest := fun _ hq => hq
      have hbehind : ∀ q ∈ rest, q ∈ first :: rest := fun _ => List.mem_cons_of_mem first
      cases operator with
      | sequence | adjacentSequence =>
          exact length_le_leastOf hjoin (hbounded hself hparts) fun d => all_parts_of_sequence
      | delimitedSequence =>
          exact length_le_leastOf hjoin (hbounded hbehind hparts) fun d => all_parts_of_sequence
      | intersection =>
          exact length_le_leastOf hjoin (hbounded hself hparts) fun d => all_parts_of_intersection
      | window =>
          refine length_le_nthGreatest hjoin (hbounded hself hparts) ?_ fun d =>
            count_of_window hproper
          simp only [Operator.Overlooks] at hgauged
          split <;> omega
      | delimitedWindow =>
          refine length_le_nthGreatest hjoin (hbounded hbehind hparts) ?_ fun d =>
            count_of_window fun q hq => hproper q (hbehind q hq)
          simp only [Operator.Overlooks, List.length_cons] at hgauged
          split <;> omega
      | union =>
          exact length_le_total hjoin (hbounded hself hparts) fun d => exists_part_of_join
      | presence =>
          show _ ≤ (Plan.presence (max cardinality 1) (first :: rest)).documentFrequency
          rw [documentFrequency]
          split
          · exact length_le_total hjoin (hbounded hself hparts) fun d => exists_part_of_join
          · next hneed =>
              refine length_le_nthGreatest hjoin (hbounded hself hparts) ?_ fun d hpresent =>
                ⟨List.cons_ne_nil first rest, presentAt_presence.mp hpresent⟩
              simp only [Operator.Overlooks] at hgauged
              omega
      | difference =>
          have hfirst := hparts first (by simp [Operator.counted])
          exact Nat.le_trans (length_mono hjoin (hproper first List.mem_cons_self) fun d =>
            kept_of_difference) hfirst
      | inside =>
          have hfirst := hparts first (by simp [Operator.counted])
          exact Nat.le_trans (length_mono hjoin (hproper first List.mem_cons_self) fun d hpresent =>
            (both_of_inside hpresent).1) hfirst

/-! ## Estimates of patterns -/

/-- The plan of a term. -/
abbrev termPlan (s : Snapshot) (t : Term) : Plan := ((s.postings.get? t).map Plan.term).getD .nothing

/-- The estimate of a term is exact. -/
theorem documentFrequency_term (h : s.Sound) (hpositioned : s.Positioned) (t : Term) :
    (termPlan s t).documentFrequency = (termPlan s t).allMatches.length := by
  have hrenders := renders_term h hpositioned t
  unfold termPlan
  cases hget : s.postings.get? t with
  | none =>
      have hnone : ∀ d, ¬ Plan.nothing.presentAt d = true := fun d hpresent => by cases hpresent
      exact (length_eq_zero (p := .nothing) trivial hnone).symm
  | some postings =>
      rw [hget, Option.map_some, Option.getD_some] at hrenders
      rw [Option.map_some, Option.getD_some]
      have hpresent : ∀ d, (Plan.term postings).presentAt d = true ↔ d ∈ postings.byNumber.keys := by
        intro d
        rw [presentAt, matchesAt, Option.isSome_map, SortedMap.mem_keys]
        exact Option.isSome_iff_exists
      have hsize : postings.byNumber.keys.length = (Plan.term postings).documentFrequency :=
        List.length_map _
      rw [← hsize]
      refine Nat.le_antisymm (le_length hrenders.proper ?_ fun d hd => ?_) ?_
      · exact SortedMap.nodup_keys _
      · obtain ⟨stored, hstored⟩ := hrenders.stored d ((hpresent d).mpr hd)
        exact ⟨h.one_le_of_stored hstored, (hpresent d).mpr hd⟩
      · exact length_le hrenders.proper fun d _ => (hpresent d).mp

/-- There are no more fields than documents. -/
theorem length_stored_le (h : s.Sound) {q : Plan} (hq : q.Proper)
    (hstored : ∀ d, q.presentAt d = true → ∃ stored, s.documents.get? d = some stored) :
    q.allMatches.length ≤ s.size := by
  have hnumbers : (s.numbering.numbers.toList.map (·.2)).length = s.size := List.length_map _
  rw [← hnumbers]
  refine length_le hq fun d _ hpresent => ?_
  obtain ⟨stored, hget⟩ := hstored d hpresent
  have hid := h.consistent.stored d
  rw [hget, Option.map_some] at hid
  have hnumber := (h.consistent.mapped stored.id d).mpr hid
  exact List.mem_map.mpr ⟨(stored.id, d), SortedMap.mem_toList.mpr hnumber, rfl⟩

/-- The estimate of a gauged pattern is an upper bound. -/
theorem length_plan_le (h : s.Sound) (hpositioned : s.Positioned) {p : Pattern} {q : Plan}
    (hplan : p.plan s = .ok q) (hp : p.Gauged) : q.allMatches.length ≤ q.documentFrequency := by
  have hrenders := renders_plan h hpositioned hplan
  induction p using Pattern.induct generalizing q with
  | term t =>
      cases hplan
      exact Nat.le_of_eq (documentFrequency_term h hpositioned t).symm
  | field start stop =>
      obtain ⟨first, -, hplan⟩ := Fallible.bind_eq_ok.mp hplan
      obtain ⟨last, -, hplan⟩ := Fallible.bind_eq_ok.mp hplan
      cases hplan
      exact length_stored_le h hrenders.proper hrenders.stored
  | node operator range cardinality parts ih =>
      obtain ⟨⟨⟩, -, hplan⟩ := Fallible.bind_eq_ok.mp hplan
      obtain ⟨plans, hplans, hplan⟩ := Fallible.bind_eq_ok.mp hplan
      cases hplan
      cases hp with
      | node hgauged hcounted =>
          have hparts : List.Forall₂ (fun p q => p.plan s = .ok q) parts plans :=
            planAll_eq_ok.mp hplans
          rw [hparts.length_eq] at hgauged
          refine length_join_le hrenders.proper (fun q hq => ?_) hgauged fun q hq => ?_
          · obtain ⟨p, -, hplan⟩ := exists_of_mem_right hparts hq
            exact (renders_plan h hpositioned hplan).proper
          · obtain ⟨p, hp, hplan⟩ :=
              exists_of_mem_right (Operator.forall₂_counted hparts operator) hq
            exact ih p (Operator.mem_of_mem_counted hp) hplan (hcounted p hp)
              (renders_plan h hpositioned hplan)

/-! ## Plans of terms and structures -/

theorem planAll_terms (s : Snapshot) (terms : List Term) :
    planAll s (terms.map .term) = .ok (terms.map (termPlan s)) := by
  rw [planAll_eq_ok, List.forall₂_map_left_iff, List.forall₂_map_right_iff, List.forall₂_same]
  exact fun _ _ => rfl

theorem plan_structure {parts : List Pattern}
    (hcheck : checkParts operator cardinality parts.length = .ok ())
    (hplans : planAll s parts = .ok plans) :
    (Pattern.structure operator range cardinality parts).plan s =
      .ok (join operator range cardinality plans) :=
  Fallible.bind_eq_ok.mpr ⟨(), hcheck, Fallible.bind_eq_ok.mpr ⟨plans, hplans, rfl⟩⟩

theorem join_presence (h : plans ≠ []) :
    join .presence range cardinality plans = ofPresence cardinality plans := by
  cases plans with
  | nil => exact absurd rfl h
  | cons first rest => rfl

theorem join_window (h : plans ≠ []) :
    join .window range cardinality plans = ofWindow range cardinality plans none := by
  cases plans with
  | nil => exact absurd rfl h
  | cons first rest => rfl

theorem checkParts_of_overlooks {count : Nat} (h : operator.Overlooks cardinality count) :
    checkParts operator cardinality count = .ok () := by
  cases operator with
  | presence | window =>
      obtain ⟨-, hless⟩ := h
      simp [checkParts, Operator.isDelimited]
      omega
  | delimitedWindow =>
      obtain ⟨hpositive, hless⟩ := h
      simp [checkParts, Operator.isDelimited]
      rw [if_neg (by omega), if_neg (by omega)]
  | _ => exact h.elim

end Pattern

namespace Snapshot

open Concordance.Pattern Concordance.Plan

variable {s : Snapshot} {operator : Operator} {cardinality count : Nat}

/-! ## Estimates that are too small -/

/-- Two documents with a word in common and a word for each of them, all at one position. -/
def sharing : List Client.Event := [
  .begin "writer" "t",
  .stage "writer" (.document "a" { search := [⟨"word", "u", 1⟩, ⟨"word", "x", 1⟩] } false),
  .stage "writer" (.document "b" { search := [⟨"word", "u", 1⟩, ⟨"word", "y", 1⟩] } false),
  .commit "writer" 7]

/-- The files of a storage that was just set up. -/
def setUp : Volume :=
  (Volume.memory.setContent configFile
    (Wire.textBytes (Json.renderPretty ({} : Config).toJson))).setContent journalFile []

/-- The snapshot with these documents. -/
def shared : Snapshot := ((Client.start (.fresh {} {}) setUp).run sharing).store.current

theorem published_shared : shared.Published := by
  have hwilling : Volume.memory.Willing storageFiles := ⟨rfl, rfl, fun _ _ => rfl⟩
  exact ⟨{}, .memory, _, setUp, sharing, Store.create_willing hwilling rfl {}, rfl⟩

def word (value : String) : Term := ⟨"word", value⟩

/-- The plan of a word. -/
abbrev wordPlan (s : Snapshot) (value : String) : Plan := termPlan s (word value)

/-- A document with the common word and one of the other two. -/
def HasOne (s : Snapshot) (d : Nat) : Prop :=
  (wordPlan s "u").spansAt d = [⟨1, 1⟩] ∧
    ((wordPlan s "x").spansAt d = [⟨1, 1⟩] ∧ (wordPlan s "y").spansAt d = [] ∨
      (wordPlan s "x").spansAt d = [] ∧ (wordPlan s "y").spansAt d = [⟨1, 1⟩]) ∧
    (wordPlan s "z").spansAt d = []

instance (s : Snapshot) (d : Nat) : Decidable (HasOne s d) := inferInstanceAs (Decidable (_ ∧ _))

/-- A snapshot of two documents that share a word. -/
structure Shares (s : Snapshot) : Prop where
  published : s.Published
  documents : HasOne s 1 ∧ HasOne s 2
  common : (wordPlan s "u").documentFrequency = 2
  own : (wordPlan s "x").documentFrequency = 1 ∧ (wordPlan s "y").documentFrequency = 1
  absent : (wordPlan s "z").documentFrequency = 0

theorem shares_shared : Shares shared where
  published := published_shared
  documents := by decide +kernel
  common := by decide +kernel
  own := by decide +kernel
  absent := by decide +kernel

/-- Words of which each document has so many: the common one several times and its own one once. -/
def sharedTerms (cardinality count : Nat) : List Term :=
  List.replicate (cardinality - 1) (word "u") ++
    word "x" :: word "y" :: List.replicate (count - cardinality - 1) (word "z")

theorem length_sharedTerms (hpositive : 1 ≤ cardinality) (hless : cardinality < count) :
    (sharedTerms cardinality count).length = count := by
  simp [sharedTerms]
  omega

theorem partsNear_sharedTerms (hpositive : 1 ≤ cardinality) {d : Nat} (h : HasOne s d)
    (count range : Nat) :
    Window.partsNear (((sharedTerms cardinality count).map (termPlan s)).map (·.spansAt d)) 1 range =
      cardinality := by
  obtain ⟨hcommon, hown, hnone⟩ := h
  rw [Window.partsNear, List.countP_map, List.countP_map, sharedTerms]
  simp only [List.countP_append, List.countP_cons, List.countP_replicate, Function.comp_apply,
    hcommon, hnone]
  rcases hown with ⟨hx, hy⟩ | ⟨hx, hy⟩
  · simp [hx, hy, Span.isNear]
    omega
  · simp [hx, hy, Span.isNear]
    omega

/-- The estimate is that of a word of a single document. -/
theorem nthGreatest_sharedTerms (h : Shares s) (cardinality count : Nat) :
    nthGreatest cardinality
      (frequenciesOfAll ((sharedTerms cardinality count).map (termPlan s))) = 1 := by
  rw [frequenciesOfAll_eq, List.map_map, sharedTerms]
  simp only [List.map_append, List.map_cons, List.map_replicate, Function.comp_apply, h.common,
    h.own, h.absent]
  rw [nthGreatest, List.mergeSort_of_pairwise]
  · rw [List.getElem?_append_right (by simp)]
    simp
  · simp [List.pairwise_append, List.pairwise_replicate]

/-- The plans of these words. -/
abbrev sharedPlans (s : Snapshot) (cardinality count : Nat) : List Plan :=
  (sharedTerms cardinality count).map (termPlan s)

theorem sharedPlans_ne_nil (s : Snapshot) (cardinality count : Nat) :
    sharedPlans s cardinality count ≠ [] := by
  simp [sharedTerms]

theorem proper_sharedPlans (h : Shares s) (cardinality count : Nat) :
    ∀ q ∈ sharedPlans s cardinality count, q.Proper := by
  obtain ⟨hsound, hpositioned⟩ := h.published.sound_and_positioned
  intro q hq
  obtain ⟨t, -, rfl⟩ := List.mem_map.mp hq
  exact (renders_term hsound hpositioned t).proper

/-- Plans that are present in both documents, while the estimate is that of one. -/
def Underestimates (s : Snapshot) (q : Plan) : Prop :=
  q.documentFrequency = 1 ∧ ∀ d, HasOne s d → q.presentAt d = true

theorem underestimates_presence (h : Shares s) (htwo : 2 ≤ cardinality) (count : Nat) :
    Underestimates s (.presence cardinality (sharedPlans s cardinality count)) := by
  constructor
  · rw [Plan.documentFrequency, if_neg (by omega)]
    exact nthGreatest_sharedTerms h cardinality count
  · intro d hd
    refine presentAt_presence.mpr (Nat.le_trans (Nat.le_of_eq ?_) (partsNear_le _ d 1 0))
    exact (partsNear_sharedTerms (by omega) hd count 0).symm

theorem underestimates_window (h : Shares s) (hpositive : 1 ≤ cardinality) (count range : Nat)
    {delimiter : Option Plan} (hcuts : ∀ d, HasOne s d → cutsAt d delimiter = []) :
    Underestimates s (.window range cardinality (sharedPlans s cardinality count) delimiter) := by
  constructor
  · exact nthGreatest_sharedTerms h cardinality count
  · intro d hd
    have hnear := Nat.le_of_eq (partsNear_sharedTerms hpositive hd count range).symm
    refine presentAt_window (proper_sharedPlans h cardinality count) hpositive hnear ?_ (hcuts d hd)
    obtain ⟨value, hvalue, hspan⟩ : ∃ value, word value ∈ sharedTerms cardinality count ∧
        (wordPlan s value).spansAt d = [⟨1, 1⟩] := by
      rcases hd.2.1 with ⟨hx, -⟩ | ⟨-, hy⟩
      · exact ⟨"x", by simp [sharedTerms], hx⟩
      · exact ⟨"y", by simp [sharedTerms], hy⟩
    exact ⟨_, List.mem_map_of_mem hvalue, ⟨1, 1⟩, by simp [hspan], rfl⟩

/-- Where an operator overlooks parts, so many words make it take the estimate of one. -/
theorem exists_overlooked (h : Shares s)
    (hoverlooks : operator.Overlooks cardinality count) (range : Nat) :
    ∃ terms : List Term, terms.length = count ∧
      Underestimates s (join operator range cardinality (terms.map (termPlan s))) := by
  cases operator with
  | presence =>
      obtain ⟨htwo, hless⟩ := hoverlooks
      refine ⟨sharedTerms cardinality count, length_sharedTerms (by omega) hless, ?_⟩
      rw [join_presence (sharedPlans_ne_nil s cardinality count), ofPresence,
        Nat.max_eq_left (by omega)]
      exact underestimates_presence h htwo count
  | window =>
      obtain ⟨hpositive, hless⟩ := hoverlooks
      refine ⟨sharedTerms cardinality count, length_sharedTerms hpositive hless, ?_⟩
      rw [join_window (sharedPlans_ne_nil s cardinality count), ofWindow, if_neg (by omega)]
      exact underestimates_window h hpositive count range fun _ _ => rfl
  | delimitedWindow =>
      obtain ⟨hpositive, hless⟩ := hoverlooks
      refine ⟨word "z" :: sharedTerms cardinality (count - 1), ?_, ?_⟩
      · rw [List.length_cons, length_sharedTerms hpositive hless]
        omega
      · show Underestimates s (ofWindow range cardinality (sharedPlans s cardinality (count - 1))
          (some (wordPlan s "z")))
        rw [ofWindow, if_neg (by omega)]
        exact underestimates_window h hpositive (count - 1) range fun d hd => hd.2.2
  | _ => exact hoverlooks.elim

/-- Both documents match, so an estimate of one is too small. -/
theorem underestimated {p : Pattern} {q : Plan} (hplan : p.plan shared = .ok q)
    (h : Underestimates shared q) : q.documentFrequency < q.allMatches.length := by
  obtain ⟨hsound, hpositioned⟩ := published_shared.sound_and_positioned
  obtain ⟨hfrequency, hpresent⟩ := h
  have hboth : ∀ d ∈ [1, 2], 1 ≤ d ∧ q.presentAt d = true := by
    simpa using ⟨hpresent 1 shares_shared.documents.1, hpresent 2 shares_shared.documents.2⟩
  have hproper := (renders_plan hsound hpositioned hplan).proper
  rw [hfrequency]
  exact le_length hproper (show [1, 2].Nodup by decide) hboth

/-- Where an operator overlooks parts, some documents match so many words that the estimate is too
small. -/
theorem exists_underestimate (hoverlooks : operator.Overlooks cardinality count) (range : Nat) :
    ∃ (s : Snapshot) (terms : List Term) (q : Plan), s.Published ∧ terms.length = count ∧
      (Pattern.structure operator range cardinality (terms.map .term)).plan s = .ok q ∧
      q.documentFrequency < q.allMatches.length := by
  obtain ⟨terms, hcount, hunder⟩ := exists_overlooked shares_shared hoverlooks range
  have hplan : (Pattern.structure operator range cardinality (terms.map .term)).plan shared =
      .ok (join operator range cardinality (terms.map (termPlan shared))) := by
    refine plan_structure ?_ (planAll_terms shared terms)
    rw [List.length_map, hcount]
    exact checkParts_of_overlooks hoverlooks
  exact ⟨shared, terms, _, published_shared, hcount, hplan, underestimated hplan hunder⟩

/-- In a published snapshot, the estimate of a pattern that is planned is exact for a term, and an
upper bound for the number of documents that match if no node of the pattern overlooks parts. Any
operator, cardinality and number of parts that are overlooked make for an estimate that is too
small. -/
theorem estimates_bound {s : Snapshot} (h : s.Published) {p : Pattern} {q : Plan}
    (hplan : p.plan s = .ok q) :
    (∀ t, p = .term t → q.documentFrequency = q.allMatches.length) ∧
    (p.Gauged → q.allMatches.length ≤ q.documentFrequency) ∧
    ∀ (operator : Operator) (cardinality count : Nat), operator.Overlooks cardinality count →
      ∀ range, ∃ (s : Snapshot) (terms : List Term) (q : Plan), s.Published ∧
        terms.length = count ∧
        (Pattern.structure operator range cardinality (terms.map .term)).plan s = .ok q ∧
        q.documentFrequency < q.allMatches.length := by
  obtain ⟨hsound, hpositioned⟩ := h.sound_and_positioned
  refine ⟨?_, Pattern.length_plan_le hsound hpositioned hplan, fun _ _ _ hoverlooks range =>
    exists_underestimate hoverlooks range⟩
  rintro t rfl
  cases hplan
  exact Pattern.documentFrequency_term hsound hpositioned t

/-- The common word where the first document does not have its own. -/
def apart : Pattern :=
  .structure .difference 0 0 [.term (word "u"), .term (word "x")]

theorem estimates_bound_apart :
    shared.Published ∧ ∃ q, apart.plan shared = .ok q ∧
      q.allMatches = [(2, [1])] ∧ 1 ≤ q.documentFrequency := by
  obtain ⟨q, hplan, hmatches⟩ := Fallible.exists_of_toOption_map
    (show (apart.plan shared).toOption.map (·.allMatches) = some [(2, [1])] by
      decide +kernel)
  have hgauged : apart.Gauged := by
    refine .node (fun h => h) fun p hp => ?_
    rw [List.mem_singleton.mp hp]
    exact .term _
  have hbound := (estimates_bound published_shared hplan).2.1 hgauged
  rw [hmatches] at hbound
  exact ⟨published_shared, q, hplan, hmatches, hbound⟩

/-- Two of three words are in both documents, but the estimate is one. -/
theorem estimate_too_small :
    shared.Published ∧ ∃ q,
      (Pattern.structure .presence 0 2 [.term (word "u"), .term (word "x"),
        .term (word "y")]).plan shared = .ok q ∧
      q.documentFrequency = 1 ∧ 2 ≤ q.allMatches.length := by
  have hunder := underestimates_presence shares_shared (Nat.le_refl 2) 3
  have hplan : (Pattern.structure .presence 0 2 ((sharedTerms 2 3).map .term)).plan
      shared = .ok (.presence 2 (sharedPlans shared 2 3)) :=
    plan_structure (by decide) (planAll_terms shared _)
  have hless := underestimated hplan hunder
  rw [hunder.1] at hless
  exact ⟨published_shared, _, hplan, hunder.1, hless⟩

end Snapshot

end Concordance
