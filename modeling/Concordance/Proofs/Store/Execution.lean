import Concordance.Proofs.Catalog.Soundness
import Concordance.Store.Commit

/-!
# Executing staged changes

A commit gives a new document its number before it applies the insertion, which then maps the
identifier once more. On a sound snapshot that makes no difference: executing a staged change is
applying the operation that it stands for (`executeOne_eq_ok`), the one that the journal keeps.
Execution keeps snapshots `Ready`: sound, with a numbering that hands out no number twice.
-/

namespace Concordance

namespace Snapshot

/-- A sound snapshot whose numbering is orderly. -/
structure Ready (floor : Nat) (s : Snapshot) : Prop where
  sound : s.Sound
  orderly : Numbering.Orderly floor s.numbering

/-- The operation that a staged change stands for. -/
def operationFor (s : Snapshot) : StagedOperation → Operation
  | .insert id document _ => .insert (s.numbering.allocate id).1 id document
  | .delete id => .delete id
  | .deleteUser user => .deleteUser user
  | .define schema => .define schema
  | .alter alterations => .alter alterations

/-- A document that is there is inserted, and not as an update. -/
def Clashes (s : Snapshot) : StagedOperation → Prop
  | .insert id _ update => s.number? id ≠ none ∧ update = false
  | _ => False

variable {s s' : Snapshot} {touched : List Term} {floor : Nat}

/-- The number that an insertion is given is free for it. -/
theorem unclaimed_operationFor (h : s.Sound) (staged : StagedOperation) :
    s.Unclaimed (s.operationFor staged) := by
  cases staged with
  | insert id document update =>
      cases hid : s.number? id with
      | some d =>
          rw [number?] at hid
          have hmap := (h.numbering.inverse id d).mp hid
          have hrange := h.numbering.live_range d ⟨id, hmap⟩
          rw [operationFor, Numbering.allocate_of_mapped hid]
          refine ⟨by dsimp only; omega, fun x hx => ?_⟩
          exact Option.some.inj (hx.symm.trans hmap)
      | none =>
          rw [number?] at hid
          have hrange := Numbering.candidate_range h.numbering
          rw [operationFor, Numbering.allocate_of_unmapped hid]
          refine ⟨by dsimp only; omega, fun x hx => ?_⟩
          exact absurd ⟨x, hx⟩ (Numbering.candidate_not_live h.numbering)
  | _ => trivial

/-- What an operation does to the numbering. -/
theorem numbering_of_apply (h : s.Sound) {op : Operation} (hop : s.Unclaimed op)
    (happly : s.apply op = .ok (touched, s')) :
    match op with
    | .insert number id _ => s'.numbering = s.numbering.assign id number
    | .delete id => ∃ d, s.numbering.release id s.generation = some (d, s'.numbering)
    | _ => s'.numbering = s.numbering := by
  cases op with
  | insert number id doc =>
      obtain ⟨-, record, -, -, rfl⟩ := (insert_eq_ok h hop.2).mp happly
      rfl
  | delete id =>
      obtain ⟨d, numbering, hrel, -, rfl⟩ := delete_eq_ok.mp happly
      exact ⟨d, hrel⟩
  | deleteUser user =>
      cases happly
      rfl
  | define schema =>
      rw [Snapshot.apply] at happly
      split at happly <;> cases happly
      rfl
  | alter alterations =>
      obtain ⟨table, -, hs'⟩ := Fallible.bind_eq_ok.mp happly
      cases hs'
      rfl

/-- Generation, timestamp and access control are none of an operation's business. -/
theorem head_of_apply (h : s.Sound) {op : Operation} (hop : s.Unclaimed op)
    (happly : s.apply op = .ok (touched, s')) :
    s'.generation = s.generation ∧ s'.timestamp = s.timestamp ∧
      s'.accessControl = s.accessControl := by
  cases op with
  | insert number id doc =>
      obtain ⟨-, record, -, -, rfl⟩ := (insert_eq_ok h hop.2).mp happly
      exact ⟨generation_dropData s number, timestamp_dropData s number,
        accessControl_dropData s number⟩
  | delete id =>
      obtain ⟨d, numbering, hrel, -, rfl⟩ := delete_eq_ok.mp happly
      exact ⟨generation_dropData s d, timestamp_dropData s d, accessControl_dropData s d⟩
  | deleteUser user =>
      cases happly
      exact ⟨rfl, rfl, rfl⟩
  | define schema =>
      rw [Snapshot.apply] at happly
      split at happly <;> cases happly
      exact ⟨rfl, rfl, rfl⟩
  | alter alterations =>
      obtain ⟨table, -, hs'⟩ := Fallible.bind_eq_ok.mp happly
      cases hs'
      exact ⟨rfl, rfl, rfl⟩

/-- The operation of a staged change keeps snapshots ready. -/
theorem Ready.apply (h : Ready floor s) {staged : StagedOperation}
    (happly : s.apply (s.operationFor staged) = .ok (touched, s')) : Ready floor s' := by
  have hop := unclaimed_operationFor h.sound staged
  refine ⟨h.sound.apply hop happly, ?_⟩
  have hnumbering := numbering_of_apply h.sound hop happly
  cases staged with
  | insert id document update =>
      change s'.numbering = s.numbering.assign id (s.numbering.allocate id).1 at hnumbering
      rw [hnumbering]
      cases hid : s.numbering.number? id with
      | some d =>
          -- a document that is there keeps its number
          rw [Numbering.allocate_of_mapped hid,
            Numbering.Orderly.assign_eq_self h.sound.numbering hid]
          exact h.orderly
      | none =>
          rw [Numbering.allocate_of_unmapped hid]
          exact h.orderly.assign (Numbering.candidate_range h.sound.numbering).1 hid
            (Numbering.candidate_not_live h.sound.numbering)
            (Numbering.candidate_not_parked h.sound.numbering)
  | delete id =>
      obtain ⟨d, hrel⟩ := hnumbering
      exact h.orderly.release hrel
  | deleteUser user =>
      rw [show s'.numbering = s.numbering from hnumbering]
      exact h.orderly
  | define schema =>
      rw [show s'.numbering = s.numbering from hnumbering]
      exact h.orderly
  | alter alterations =>
      rw [show s'.numbering = s.numbering from hnumbering]
      exact h.orderly

/-- Giving a new identifier its number first does not change the insertion that follows. -/
theorem insert_allocated (h : s.Sound) {id : String} (hid : s.number? id = none) (doc : Document) :
    ({ s with numbering := s.numbering.assign id s.numbering.candidate } : Snapshot).insert
      s.numbering.candidate id doc = s.insert s.numbering.candidate id doc := by
  have hlive := Numbering.candidate_not_live h.numbering
  have hsane : (s.numbering.assign id s.numbering.candidate).Sane :=
    h.numbering.assign (Numbering.candidate_range h.numbering).1
      (fun e he => by rw [number?] at hid; rw [hid] at he; cases he)
      (fun x hx => absurd ⟨x, hx⟩ hlive)
  have hnumber : (s.numbering.assign id s.numbering.candidate).number? id =
      some s.numbering.candidate := by simp
  -- the candidate carries nothing, so mapping it first leaves nothing to drop
  have hagain := Numbering.Orderly.assign_eq_self hsane hnumber
  have hnone : s.Holds s.numbering.candidate none :=
    h.holds_none (Numbering.not_isLive_iff.mp hlive)
  have hdrop := dropData_of_holds_none
    (s := { s with numbering := s.numbering.assign id s.numbering.candidate })
    ⟨hnone.stored, hnone.positions, hnone.sees, hnone.record, hnone.inOrder⟩
  unfold insert
  rw [show ({ s with numbering := s.numbering.assign id s.numbering.candidate } :
    Snapshot).number? id = some s.numbering.candidate from hnumber, hid]
  simp only [if_true, hdrop, hagain, pure_bind]

/-- The snapshot that the operation of a staged change is applied to: a new document has its number
already. -/
def numbered (s : Snapshot) : StagedOperation → Snapshot
  | .insert id _ _ => { s with numbering := (s.numbering.allocate id).2 }
  | _ => s

theorem apply_numbered (h : s.Sound) (staged : StagedOperation) :
    (s.numbered staged).apply (s.operationFor staged) = s.apply (s.operationFor staged) := by
  cases staged with
  | insert id document update =>
      cases hid : s.number? id with
      | some d =>
          rw [number?] at hid
          rw [numbered, Numbering.allocate_of_mapped hid]
      | none =>
          have hallocate := Numbering.allocate_of_unmapped hid
          rw [numbered, operationFor, hallocate]
          exact insert_allocated h hid document
  | _ => rfl

end Snapshot

namespace Store

open Snapshot

/-- The summary with one change more. -/
def counted (s : Snapshot) (summary : CommitSummary) : StagedOperation → CommitSummary
  | .insert id _ _ =>
    match s.number? id with
    | some _ => { summary with updated := summary.updated + 1 }
    | none => { summary with inserted := summary.inserted + 1 }
  | .delete _ => { summary with deleted := summary.deleted + 1 }
  | _ => summary

theorem resolve_of_not_clashes {s : Snapshot} {summary : CommitSummary} {staged : StagedOperation}
    (h : ¬ s.Clashes staged) :
    resolve s summary staged =
      .ok (counted s summary staged, s.numbered staged, s.operationFor staged) := by
  cases staged with
  | insert id document update =>
      cases hid : s.number? id with
      | some d =>
          have hallocate := Numbering.allocate_of_mapped hid
          cases update with
          | false => exact absurd ⟨by rw [hid]; nofun, rfl⟩ h
          | true => simp [resolve, counted, numbered, operationFor, hid, hallocate]
      | none => simp [resolve, counted, numbered, operationFor, hid]
  | _ => rfl

theorem resolve_eq_ok {s s' : Snapshot} {summary summary' : CommitSummary} {op : Operation}
    {staged : StagedOperation} :
    resolve s summary staged = .ok (summary', s', op) ↔
      ¬ s.Clashes staged ∧ summary' = counted s summary staged ∧ s' = s.numbered staged ∧
        op = s.operationFor staged := by
  constructor
  · intro h
    have hclash : ¬ s.Clashes staged := by
      intro hclash
      cases staged with
      | insert id document update =>
          obtain ⟨hid, rfl⟩ := hclash
          obtain ⟨d, hd⟩ := Option.ne_none_iff_exists'.mp hid
          simp [resolve, hd] at h
      | _ => exact hclash
    rw [resolve_of_not_clashes hclash] at h
    cases h
    exact ⟨hclash, rfl, rfl, rfl⟩
  · rintro ⟨hclash, rfl, rfl, rfl⟩
    exact resolve_of_not_clashes hclash

/-- What is executed so far, with one operation more. -/
def Execution.extend (e : Execution) (staged : StagedOperation) (touched : List Term)
    (s : Snapshot) : Execution where
  summary := counted e.snapshot e.summary staged
  operations := e.operations ++ [e.snapshot.operationFor staged]
  touched := e.touched ++ touched
  snapshot := s

/-- Executing a staged change is applying the operation that it stands for. -/
theorem executeOne_eq_ok {e e' : Execution} (h : e.snapshot.Sound) {staged : StagedOperation} :
    executeOne e staged = .ok e' ↔
      ¬ e.snapshot.Clashes staged ∧ ∃ touched s',
        e.snapshot.apply (e.snapshot.operationFor staged) = .ok (touched, s') ∧
        e' = e.extend staged touched s' := by
  unfold executeOne
  rw [Fallible.bind_eq_ok]
  constructor
  · rintro ⟨⟨summary, s, op⟩, hresolve, hrest⟩
    obtain ⟨hclash, rfl, rfl, rfl⟩ := resolve_eq_ok.mp hresolve
    obtain ⟨⟨touched, s'⟩, happly, heq⟩ := Fallible.bind_eq_ok.mp hrest
    rw [apply_numbered h, Fallible.mapError_eq_ok] at happly
    exact ⟨hclash, touched, s', happly, (Except.ok.inj heq).symm⟩
  · rintro ⟨hclash, touched, s', happly, rfl⟩
    refine ⟨_, resolve_eq_ok.mpr ⟨hclash, rfl, rfl, rfl⟩, Fallible.bind_eq_ok.mpr ?_⟩
    refine ⟨(touched, s'), ?_, rfl⟩
    rw [apply_numbered h, Fallible.mapError_eq_ok]
    exact happly

theorem timestamp_counted (s : Snapshot) (summary : CommitSummary) (staged : StagedOperation) :
    (counted s summary staged).timestamp = summary.timestamp := by
  cases staged with
  | insert id document update =>
      unfold counted
      dsimp only
      split <;> rfl
  | _ => rfl

/-- What a run of staged changes leaves alone, and how many operations it makes of them. -/
theorem head_of_execution {floor : Nat} {e e' : Execution} {staged : List StagedOperation}
    (h : Ready floor e.snapshot) (hexec : staged.foldlM executeOne e = .ok e') :
    Ready floor e'.snapshot ∧ e'.snapshot.generation = e.snapshot.generation ∧
      e'.snapshot.accessControl = e.snapshot.accessControl ∧
      e'.summary.timestamp = e.summary.timestamp ∧
      e'.operations.length = e.operations.length + staged.length := by
  induction staged generalizing e with
  | nil =>
      cases hexec
      exact ⟨h, rfl, rfl, rfl, rfl⟩
  | cons first rest ih =>
      rw [List.foldlM_cons] at hexec
      obtain ⟨e₁, hfirst, hrest⟩ := Fallible.bind_eq_ok.mp hexec
      obtain ⟨-, touched, s', happly, rfl⟩ := (executeOne_eq_ok h.sound).mp hfirst
      have hhead := head_of_apply h.sound (unclaimed_operationFor h.sound first) happly
      obtain ⟨hready, hgeneration, haccess, htimestamp, hlength⟩ := ih (h.apply happly) hrest
      refine ⟨hready, hgeneration.trans hhead.1, haccess.trans hhead.2.2,
        htimestamp.trans (timestamp_counted _ _ _), hlength.trans ?_⟩
      simp only [Execution.extend, List.length_append, List.length_cons, List.length_nil]
      omega

/-- What every change of a kind preserves holds after changes of the kind. -/
theorem keeps_of_execution {floor : Nat} {P : Snapshot → Prop} {Allowed : StagedOperation → Prop}
    (hstep : ∀ {s s' : Snapshot} {touched : List Term} {op : StagedOperation}, Ready floor s →
      P s → Allowed op → s.apply (s.operationFor op) = .ok (touched, s') → P s')
    {e e' : Execution} {staged : List StagedOperation} (h : Ready floor e.snapshot)
    (hkeeps : P e.snapshot) (hallowed : ∀ op ∈ staged, Allowed op)
    (hexec : staged.foldlM executeOne e = .ok e') : P e'.snapshot := by
  induction staged generalizing e with
  | nil =>
      cases hexec
      exact hkeeps
  | cons first rest ih =>
      rw [List.foldlM_cons] at hexec
      obtain ⟨e₁, hfirst, hrest⟩ := Fallible.bind_eq_ok.mp hexec
      obtain ⟨-, touched, s', happly, rfl⟩ := (executeOne_eq_ok h.sound).mp hfirst
      obtain ⟨hop, hops⟩ := List.forall_mem_cons.mp hallowed
      exact ih (h.apply happly) (hstep h hkeeps hop happly) hops hrest

/-- A commit starts from a ready snapshot: no reader is older than the session. -/
theorem ready_successor {floor : Nat} {base : Snapshot} (h : Ready floor base) {oldest : Option Nat}
    (hold : ∀ g, oldest = some g → floor ≤ g) : Ready floor (successor base oldest) := by
  have hnumbering := h.orderly.reclaim hold
  exact ⟨h.sound.of_eq hnumbering.toSane rfl rfl rfl rfl rfl, hnumbering⟩

/-- The head of a prepared commit. -/
theorem head_of_prepare {floor : Nat} {base : Snapshot} {oldest : Option Nat} {now : Nat}
    {staged : List StagedOperation} {p : Prepared} (h : Ready floor base)
    (hold : ∀ g, oldest = some g → floor ≤ g)
    (hprepare : prepare base oldest now staged = .ok (.inr p)) :
    Ready floor p.next ∧ p.next.generation = base.generation + 1 ∧
      p.record.generation = p.next.generation ∧ p.next.accessControl = base.accessControl := by
  unfold prepare execute at hprepare
  obtain ⟨e, hexec, hrest⟩ := Fallible.bind_eq_ok.mp hprepare
  obtain ⟨hready, hgeneration, haccess, -, -⟩ :=
    head_of_execution (ready_successor h hold) hexec
  split at hrest
  · cases hrest
  · cases hrest
    exact ⟨⟨hready.sound.of_eq hready.sound.numbering rfl rfl rfl rfl rfl, hready.orderly⟩,
      hgeneration, rfl, haccess⟩

end Store

end Concordance
