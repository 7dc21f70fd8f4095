import Concordance.Proofs.Store.Execution
import Concordance.Proofs.Store.Crash

/-!
# Numbers that are given back

A commit parks the numbers of the documents that it deletes under its own generation, and hands out
free numbers only (`Numbering.Passes`). Before that it frees the parked numbers that no reader is
too old for. So as long as a view is `Leased`, a number that it maps is mapped to the same identifier
or waits, parked by a later generation, and is not handed out again (`Leased.prepare`).
-/

namespace Concordance

namespace Numbering

/-- What a commit of a generation does to a numbering when it hands out some numbers. -/
structure Passes (generation : Nat) (given : List Nat) (n n' : Numbering) : Prop where
  kept : ∀ d x, n.id? d = some x → n'.id? d = some x ∨ (generation, d) ∈ n'.parked
  parked : ∀ p ∈ n.parked, p ∈ n'.parked
  free : ∀ d, n.IsFree d → n'.IsFree d ∨ d ∈ given

variable {generation floor : Nat} {given given' : List Nat} {n n' n'' : Numbering}

theorem Passes.refl (generation : Nat) (given : List Nat) (n : Numbering) :
    Passes generation given n n :=
  ⟨fun _ _ h => .inl h, fun _ h => h, fun _ h => .inl h⟩

theorem Passes.trans (h : Passes generation given n n') (h' : Passes generation given' n' n'') :
    Passes generation (given ++ given') n n'' where
  kept d x hmap := by
    rcases h.kept d x hmap with hmap' | hparked
    · exact h'.kept d x hmap'
    · exact .inr (h'.parked _ hparked)
  parked p hp := h'.parked p (h.parked p hp)
  free d hfree := by
    rcases h.free d hfree with hfree' | hgiven
    · exact (h'.free d hfree').imp_right (List.mem_append_right given)
    · exact .inr (List.mem_append_left given' hgiven)

/-- A number that no document has is handed out. -/
theorem passes_assign {d : Nat} (hlive : ¬ n.IsLive d) (id : String) :
    Passes generation [d] n (n.assign id d) where
  kept e x hmap := by
    have hne : e ≠ d := fun heq => hlive (heq ▸ ⟨x, hmap⟩)
    rw [id?_assign, if_neg hne]
    exact .inl hmap
  parked p hp := hp
  free e hfree := by
    by_cases he : e = d
    · exact .inr (List.mem_singleton.mpr he)
    · exact .inl (isFree_assign.mpr (.inr ⟨he, hfree⟩))

/-- A number is given back. -/
theorem passes_release {id : String} {d : Nat} (h : n.release id generation = some (d, n')) :
    Passes generation [] n n' := by
  obtain ⟨-, -, hids, hparked, hfree, -⟩ := release_eq_some h
  refine ⟨fun e x hmap => ?_, fun p hp => ?_, fun e he => ?_⟩
  · by_cases he : e = d
    · rw [he, hparked]
      exact .inr (List.mem_append_right _ (List.mem_singleton.mpr rfl))
    · rw [hids, if_neg he]
      exact .inl hmap
  · rw [hparked]
    exact List.mem_append_left _ hp
  · rw [IsFree, hfree]
    exact .inl he

end Numbering

/-- The number that an operation gives to a document. -/
def Operation.given : Operation → List Nat
  | .insert number _ _ => [number]
  | _ => []

theorem Operation.mem_given {op : Operation} {d : Nat} :
    d ∈ op.given ↔ ∃ id document, op = .insert d id document := by
  cases op <;> simp [given, eq_comm]

namespace Snapshot

open Concordance.Numbering

variable {floor : Nat} {s s' view base : Snapshot} {touched : List Term}

/-- What the operation of a staged change does to the numbering. -/
theorem Ready.passes (h : Ready floor s) {staged : StagedOperation}
    (happly : s.apply (s.operationFor staged) = .ok (touched, s')) :
    Passes s.generation (s.operationFor staged).given s.numbering s'.numbering := by
  have hnumbering := numbering_of_apply h.sound (unclaimed_operationFor h.sound staged) happly
  cases staged with
  | insert id document update =>
      change s'.numbering = s.numbering.assign id (s.numbering.allocate id).1 at hnumbering
      rw [hnumbering]
      cases hid : s.numbering.number? id with
      | some d =>
          rw [allocate_of_mapped hid, Orderly.assign_eq_self h.sound.numbering hid]
          exact .refl _ _ _
      | none =>
          rw [operationFor, allocate_of_unmapped hid]
          exact passes_assign (candidate_not_live h.sound.numbering) id
  | delete id =>
      obtain ⟨d, hrel⟩ := hnumbering
      exact passes_release hrel
  | deleteUser user =>
      rw [show s'.numbering = s.numbering from hnumbering]
      exact .refl _ _ _
  | define schema =>
      rw [show s'.numbering = s.numbering from hnumbering]
      exact .refl _ _ _
  | alter alterations =>
      rw [show s'.numbering = s.numbering from hnumbering]
      exact .refl _ _ _

end Snapshot

namespace Store

open Snapshot Concordance.Numbering

variable {floor now : Nat} {base : Snapshot} {oldest : Option Nat} {staged : List StagedOperation}
  {s s' : Store} {v v' : Volume} {summary : CommitSummary}

/-- What staged changes do to the numbering, one after the other. -/
theorem passes_of_execution {e e' : Execution} (h : Ready floor e.snapshot)
    (hexec : staged.foldlM executeOne e = .ok e') :
    ∃ operations, e'.operations = e.operations ++ operations ∧
      Passes e.snapshot.generation (operations.flatMap Operation.given) e.snapshot.numbering
        e'.snapshot.numbering := by
  induction staged generalizing e with
  | nil =>
      cases hexec
      exact ⟨[], (List.append_nil _).symm, .refl _ _ _⟩
  | cons first rest ih =>
      rw [List.foldlM_cons] at hexec
      obtain ⟨e₁, hfirst, hrest⟩ := Fallible.bind_eq_ok.mp hexec
      obtain ⟨-, touched, s', happly, rfl⟩ := (executeOne_eq_ok h.sound).mp hfirst
      obtain ⟨operations, hoperations, hpasses⟩ := ih (h.apply happly) hrest
      have hgeneration : (e.extend first touched s').snapshot.generation = e.snapshot.generation :=
        (head_of_apply h.sound (unclaimed_operationFor h.sound first) happly).1
      rw [hgeneration] at hpasses
      refine ⟨e.snapshot.operationFor first :: operations, ?_, ?_⟩
      · rw [hoperations]
        exact List.append_assoc _ _ _
      · rw [List.flatMap_cons]
        exact (h.passes happly).trans hpasses

/-- What a commit does to the numbering that it starts from. -/
theorem passes_of_prepare {p : Prepared} (h : Ready floor base)
    (hold : ∀ g, oldest = some g → floor ≤ g)
    (hprepare : prepare base oldest now staged = .ok (.inr p)) :
    Passes p.next.generation (p.record.operations.flatMap Operation.given)
      (successor base oldest).numbering p.next.numbering := by
  have hgeneration := (head_of_prepare h hold hprepare).2.1
  unfold prepare execute at hprepare
  obtain ⟨e, hexec, hrest⟩ := Fallible.bind_eq_ok.mp hprepare
  obtain ⟨operations, hoperations, hpasses⟩ := passes_of_execution (ready_successor h hold) hexec
  rw [List.nil_append] at hoperations
  split at hrest
  · cases hrest
  · cases hrest
    rw [hgeneration]
    show Passes _ (e.operations.flatMap _) _ _
    rw [hoperations]
    exact hpasses

/-- Only a commit without changes has nothing to record. -/
theorem staged_of_prepare_inl (h : Ready floor base) (hold : ∀ g, oldest = some g → floor ≤ g)
    (hprepare : prepare base oldest now staged = .ok (.inl summary)) : staged = [] := by
  unfold prepare execute at hprepare
  obtain ⟨e, hexec, hrest⟩ := Fallible.bind_eq_ok.mp hprepare
  obtain ⟨-, -, -, -, hlength⟩ := head_of_execution (ready_successor h hold) hexec
  split at hrest
  · next hempty =>
      rw [List.isEmpty_iff.mp hempty] at hlength
      exact List.eq_nil_of_length_eq_zero (by simpa using hlength.symm)
  · cases hrest

/-- A commit with changes that succeeds publishes what it prepared. -/
theorem published_of_commit (h : Ready floor s.current) (hold : ∀ g, oldest = some g → floor ≤ g)
    (hne : staged ≠ []) (hrun : s.commit oldest now staged v = (.ok summary, s', v')) :
    ∃ p, prepare s.current oldest now staged = .ok (.inr p) ∧ s'.current = p.next := by
  unfold Store.commit at hrun
  split at hrun
  · cases hrun
  · next summary' hprepare =>
      obtain ⟨-, -, hprepare⟩ := Fallible.bind_eq_ok.mp hprepare
      exact absurd (staged_of_prepare_inl h hold hprepare) hne
  · next p hprepare =>
      obtain ⟨-, -, hprepare⟩ := Fallible.bind_eq_ok.mp hprepare
      rcases complete_cases hrun with ⟨e, j, -, hfailed, -⟩ | ⟨j, w, r, -, hsettle, -⟩
      · cases hfailed
      · obtain ⟨j', rfl, -⟩ := settle_leaves hsettle
        exact ⟨p, hprepare, rfl⟩

end Store

/-! ## Leased numbers -/

namespace Snapshot

open Concordance.Numbering Store

variable {floor now : Nat} {base s view : Snapshot} {oldest : Option Nat}
  {staged : List StagedOperation} {p : Prepared}

/-- A view and the current snapshot: what the view maps is mapped as it was, or its number was parked
by a commit after the view. -/
structure Leased (view s : Snapshot) : Prop where
  generation : view.generation ≤ s.generation
  kept : ∀ d x, view.id? d = some x →
    s.id? d = some x ∨ ∃ g, view.generation < g ∧ (g, d) ∈ s.numbering.parked

/-- No number that a view maps is another document's or is about to be. -/
def KeepsClear (view s : Snapshot) : Prop :=
  ∀ d x, view.id? d = some x →
    (s.id? d = some x ∨ s.id? d = none) ∧ ¬ s.numbering.IsFree d

theorem Leased.refl (s : Snapshot) : Leased s s := ⟨Nat.le_refl _, fun _ _ h => .inl h⟩

theorem Leased.keepsClear (h : Leased view s) (hready : Ready floor s) : view.KeepsClear s := by
  intro d x hmap
  rcases h.kept d x hmap with hkept | ⟨g, -, hparked⟩
  · exact ⟨.inl hkept, fun hfree => hready.sound.numbering.free_not_live d hfree ⟨x, hkept⟩⟩
  · have hnone := not_isLive_iff.mp (hready.orderly.parked_not_live d ⟨g, hparked⟩)
    exact ⟨.inr hnone, hready.sound.numbering.parked_not_free d ⟨g, hparked⟩⟩

/-- A commit that knows of the view leaves its numbers leased: it frees no number that was parked
after the oldest view, and parks under a later generation than that of any view. -/
theorem Leased.prepare (h : Leased view base) (hready : Ready floor base)
    (hold : ∀ g, oldest = some g → floor ≤ g) (hknown : ∃ g, oldest = some g ∧ g ≤ view.generation)
    (hprepare : Store.prepare base oldest now staged = .ok (.inr p)) : Leased view p.next := by
  obtain ⟨-, hgeneration, -⟩ := head_of_prepare hready hold hprepare
  have hpasses := passes_of_prepare hready hold hprepare
  obtain ⟨o, rfl, ho⟩ := hknown
  have hlater := h.generation
  refine ⟨by omega, fun d x hmap => ?_⟩
  rcases h.kept d x hmap with hkept | ⟨g, hg, hparked⟩
  · rcases hpasses.kept d x hkept with hkept' | hparked
    · exact .inl hkept'
    · exact .inr ⟨p.next.generation, by omega, hparked⟩
  · refine .inr ⟨g, hg, hpasses.parked _ (mem_parked_reclaim.mpr ⟨hparked, ?_⟩)⟩
    simp only [releasable, decide_eq_false_iff_not]
    omega

end Snapshot

end Concordance
