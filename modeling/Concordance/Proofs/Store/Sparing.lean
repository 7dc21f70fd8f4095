import Concordance.Proofs.Store.Execution

/-!
# What a commit leaves alone

A commit spares an identifier when it neither names it nor changes all documents. What a snapshot
says about the identifier, its number and the data under that number, is then the same behind the
commit (`sameFor_prepare`). This rests on the numbering: a number that was handed out twice would
let the change of one document reach the other.
-/

namespace Concordance

/-- A staged change that is about another identifier. -/
def StagedOperation.Spares (id : String) : StagedOperation → Prop
  | .insert other _ _ => other ≠ id
  | .delete other => other ≠ id
  | _ => False

namespace Snapshot

variable {s s' : Snapshot} {id : String} {floor : Nat}

/-- An identifier has the same number and the same data in two snapshots. -/
structure SameFor (id : String) (s s' : Snapshot) : Prop where
  number : s'.number? id = s.number? id
  data : ∀ d, s.number? id = some d → SameAt d s s'
  schema : s'.metadata.schema = s.metadata.schema

theorem SameFor.refl (id : String) (s : Snapshot) : SameFor id s s :=
  ⟨rfl, fun d _ => .refl d s, rfl⟩

theorem SameFor.trans {s'' : Snapshot} (h : SameFor id s s') (h' : SameFor id s' s'') :
    SameFor id s s'' := by
  refine ⟨h'.number.trans h.number, ?_, h'.schema.trans h.schema⟩
  intro d hd
  exact (h.data d hd).trans (h'.data d (h.number.trans hd))

theorem SameFor.of_eq (hnumber : s'.number? id = s.number? id)
    (hdocuments : s'.documents = s.documents) (hpostings : s'.postings = s.postings)
    (haccess : s'.access = s.access) (hmetadata : s'.metadata = s.metadata) : SameFor id s s' :=
  ⟨hnumber, fun d _ => .of_eq hdocuments hpostings haccess hmetadata d,
    congrArg Table.schema hmetadata⟩

/-- An operation on another identifier works on another number. -/
theorem sameFor_apply (h : s.Sound) {staged : StagedOperation} (hspares : staged.Spares id)
    {touched : List Term} (happly : s.apply (s.operationFor staged) = .ok (touched, s')) :
    SameFor id s s' := by
  have hop := unclaimed_operationFor h staged
  have hnumbering := numbering_of_apply h hop happly
  cases staged with
  | insert other document update =>
      have hother : id ≠ other := fun heq => hspares heq.symm
      refine ⟨?_, ?_, schema_insert happly⟩
      · rw [number?, hnumbering, Numbering.number?_assign, if_neg hother]
        rfl
      · intro d hd
        refine sameAt_insert h hop.1 hop.2 happly fun heq => ?_
        -- the number that is given is nobody else's
        subst heq
        exact hother (hop.2 id (h.mapped.mp hd))
  | delete other =>
      have hother : id ≠ other := fun heq => hspares heq.symm
      obtain ⟨d', hrelease⟩ := hnumbering
      obtain ⟨hnumber, hnumbers, -⟩ := Numbering.release_eq_some hrelease
      refine ⟨?_, ?_, schema_delete happly⟩
      · rw [number?, hnumbers, if_neg hother]
        rfl
      · intro d hd
        refine sameAt_delete h hnumber happly fun heq => ?_
        subst heq
        exact hother (h.numbering.number?_injective hd hnumber)
  | deleteUser user => exact hspares.elim
  | define schema => exact hspares.elim
  | alter alterations => exact hspares.elim

end Snapshot

namespace Store

open Snapshot

variable {floor : Nat} {id : String} {staged : List StagedOperation}

theorem sameFor_execution {e e' : Execution} (h : Ready floor e.snapshot)
    (hspares : ∀ op ∈ staged, op.Spares id) (hexec : staged.foldlM executeOne e = .ok e') :
    SameFor id e.snapshot e'.snapshot :=
  keeps_of_execution (fun hready hkeeps hop happly =>
    hkeeps.trans (sameFor_apply hready.sound hop happly)) h (.refl id _) hspares hexec

/-- A prepared commit leaves alone what it spares. -/
theorem sameFor_prepare {base : Snapshot} {oldest : Option Nat} {now : Nat} {p : Prepared}
    (h : Ready floor base) (hold : ∀ g, oldest = some g → floor ≤ g)
    (hspares : ∀ op ∈ staged, op.Spares id)
    (hprepare : prepare base oldest now staged = .ok (.inr p)) : SameFor id base p.next := by
  unfold prepare execute at hprepare
  obtain ⟨e, hexec, hrest⟩ := Fallible.bind_eq_ok.mp hprepare
  have hstart : SameFor id base (successor base oldest) := by
    refine .of_eq ?_ ?_ ?_ ?_ ?_ <;> rfl
  have hsame := hstart.trans (sameFor_execution (ready_successor h hold) hspares hexec)
  split at hrest
  · cases hrest
  · cases hrest
    refine hsame.trans (.of_eq ?_ ?_ ?_ ?_ ?_) <;> rfl

end Store

end Concordance
