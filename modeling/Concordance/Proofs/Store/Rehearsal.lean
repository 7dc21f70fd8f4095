import Concordance.Proofs.Metadata.Conversion
import Concordance.Proofs.Store.Published

/-!
# Staging rehearses the commit

A transaction checks every document against a schema that it keeps itself, starting from the schema
of the storage and following the definitions and migrations that are staged. A commit does the same
changes to the real table. `Rehearsed` says how a list of changes leads from schema to schema; the
transaction follows it (`Transaction.run_cases`), and so does the commit, if it starts from the same
schema (`Store.schema_execute`). Then a change can be refused for four reasons only, the ones that
staging cannot know about (`Refused`).
-/

namespace Concordance

open Alteration (origin onColumns)

/-! ## Schemas that changes lead to -/

namespace StagedOperation

/-- A change passes the checks of staging against a schema, and leads to another. -/
inductive Leads : StagedOperation → Schema → Schema → Prop
  | insert {id : String} {document : Document} {update : Bool} {schema : Schema}
    {record : List UInt8} :
    schema.buildRecord document = .ok record → Leads (.insert id document update) schema schema
  | delete {id : String} {schema : Schema} : Leads (.delete id) schema schema
  | deleteUser {user : String} {schema : Schema} : Leads (.deleteUser user) schema schema
  | define {schema defined : Schema} : Leads (.define defined) schema defined
  | alter {alterations : List Alteration} {schema altered : Schema} {layout : List Descent} :
    Table.target schema alterations = .ok (layout, altered) →
    Leads (.alter alterations) schema altered

/-- A snapshot refuses a change that has passed the checks of staging, with an error. -/
inductive Refused (s : Snapshot) : StagedOperation → Error → Prop
  | duplicate {id : String} {document : Document} {number : Nat} : s.number? id = some number →
    Refused s (.insert id document false)
      (.transaction s!"document '{id}' already exists and was not inserted as an update")
  | absent {id : String} : s.number? id = none →
    Refused s (.delete id) (.transaction s!"document '{id}' does not exist")
  | notEmpty {schema : Schema} : s.size ≠ 0 →
    Refused s (.define schema)
      (.transaction "metadata table can only be defined while the storage is empty")
  /-- A stored value does not fit the type of the column that it would go to. -/
  | misfit {alterations : List Alteration} {number : Nat} {c : Column} {old : String} {v : Numeric}
    {reason : Misfit} : 1 ≤ number → number ≤ s.maxNumber →
    c ∈ alterations.foldl onColumns s.metadata.schema.columns →
    origin c.name alterations = some old → s.metadata.get? number old = some v →
    ¬ c.type.Fits v → c.type.encode v = .error reason →
    Refused s (.alter alterations)
      (.transaction (s!"cannot convert metadata column '{c.name}' of document {number}: " ++
        reason.message))

end StagedOperation

/-- How a list of changes that passes the checks of staging leads from schema to schema. -/
inductive Rehearsed : Schema → List StagedOperation → Schema → Prop
  | nil {schema : Schema} : Rehearsed schema [] schema
  | cons {op : StagedOperation} {rest : List StagedOperation} {schema mid last : Schema} :
    op.Leads schema mid → Rehearsed mid rest last → Rehearsed schema (op :: rest) last

namespace Rehearsed

variable {first last : Schema} {op : StagedOperation} {before after : List StagedOperation}

theorem append_iff :
    Rehearsed first (before ++ after) last ↔
      ∃ mid, Rehearsed first before mid ∧ Rehearsed mid after last := by
  constructor
  · intro h
    induction before generalizing first with
    | nil => exact ⟨first, .nil, h⟩
    | cons op rest ih =>
        cases h with
        | cons hop hrest =>
            obtain ⟨mid, hbefore, hafter⟩ := ih hrest
            exact ⟨mid, .cons hop hbefore, hafter⟩
  · rintro ⟨mid, hbefore, hafter⟩
    induction hbefore with
    | nil => exact hafter
    | cons hop _ ih => exact .cons hop (ih hafter)

/-- One change more. -/
theorem snoc {mid : Schema} (h : Rehearsed first before mid) (hop : op.Leads mid last) :
    Rehearsed first (before ++ [op]) last :=
  append_iff.mpr ⟨mid, h, .cons hop .nil⟩

/-- Every change of the list passes the checks against the schema that those before it lead to. -/
theorem exists_leads (h : Rehearsed first (before ++ op :: after) last) :
    ∃ mid next, Rehearsed first before mid ∧ op.Leads mid next := by
  obtain ⟨mid, hbefore, hrest⟩ := append_iff.mp h
  cases hrest with
  | @cons _ _ _ next _ hop _ => exact ⟨mid, next, hbefore, hop⟩

end Rehearsed

/-! ## The transaction -/

namespace Transaction

/-- An accepted call ends the transaction, or stages one change that leads to its new schema. -/
theorem run_cases {accessControl : Bool} {t t' : Transaction} {call : Staging}
    (hrun : call.run accessControl t = .ok t') :
    t'.state ≠ .active ∨ ∃ op, t'.staged = t.staged ++ [op] ∧ op.Leads t.schema t'.schema ∧
      t.state = .active := by
  have hactive : t.ensureActive = .ok () → t.state = .active := by
    intro h
    unfold ensureActive at h
    split at h
    · assumption
    · cases h
  cases call with
  | document id doc update =>
      unfold Staging.run stageDocument at hrun
      dsimp only at hrun
      obtain ⟨⟨⟩, hensure, hrun⟩ := Fallible.bind_eq_ok.mp hrun
      split at hrun
      · cases hrun
      · split at hrun
        · cases hrun
        · obtain ⟨record, hrecord, hrun⟩ := Fallible.bind_eq_ok.mp hrun
          cases hrun
          refine .inr ⟨_, rfl, .insert (Eq.trans ?_ (Fallible.mapError_eq_ok.mp hrecord)),
            hactive hensure⟩
          -- users are no part of the record
          split <;> rfl
  | delete id =>
      obtain ⟨⟨⟩, hensure, hrun⟩ := Fallible.bind_eq_ok.mp hrun
      cases hrun
      exact .inr ⟨_, rfl, .delete, hactive hensure⟩
  | deleteUser user =>
      obtain ⟨⟨⟩, hensure, hrun⟩ := Fallible.bind_eq_ok.mp hrun
      cases hrun
      exact .inr ⟨_, rfl, .deleteUser, hactive hensure⟩
  | define schema =>
      obtain ⟨⟨⟩, hensure, hrun⟩ := Fallible.bind_eq_ok.mp hrun
      cases hrun
      exact .inr ⟨_, rfl, .define, hactive hensure⟩
  | alter alterations =>
      obtain ⟨⟨⟩, hensure, hrun⟩ := Fallible.bind_eq_ok.mp hrun
      obtain ⟨altered, haltered, hrun⟩ := Fallible.bind_eq_ok.mp hrun
      cases hrun
      obtain ⟨layout, new, htarget, rfl, -, -⟩ :=
        Table.alter_eq_ok (Fallible.mapError_eq_ok.mp haltered)
      exact .inr ⟨_, rfl, .alter htarget, hactive hensure⟩
  | rollback =>
      obtain ⟨-, -, hrun⟩ := Fallible.bind_eq_ok.mp hrun
      cases hrun
      exact .inl nofun

end Transaction

/-! ## The commit -/

namespace Snapshot

variable {s : Snapshot}

/-- Storing a document under the number that it has fails for its record only. -/
theorem exists_insert {number : Nat} {id : String} {doc : Document} {record : List UInt8}
    (hnumber : s.number? id = some number)
    (hrecord : s.metadata.schema.buildRecord doc = .ok record) :
    ∃ r, s.insert number id doc = .ok r := by
  unfold insert
  rw [hrecord, hnumber]
  simp only [if_true]
  exact ⟨_, rfl⟩

theorem delete_eq_error {id : String} {fault : OperationFault}
    (h : s.delete id = .error fault) : s.number? id = none ∧ fault = .noDocument id := by
  unfold delete at h
  split at h
  · next hnone =>
      cases h
      exact ⟨Option.map_eq_none_iff.mp hnone, rfl⟩
  · cases h

end Snapshot

namespace Numbering

/-- A number that was allocated is mapped. -/
theorem number?_allocate (n : Numbering) (id : String) :
    (n.allocate id).2.number? id = some (n.allocate id).1 := by
  unfold allocate
  split
  · assumption
  · split <;> simp [assign, number?, SortedMap.get?_insert]

end Numbering

namespace Store

variable {s s' : Snapshot} {summary summary' : CommitSummary} {e e' : Execution}
  {op : StagedOperation} {schema : Schema}

/-- What a document is inserted as. -/
theorem resolve_insert {id : String} {document : Document} {update : Bool} {o : Operation}
    (h : resolve s summary (.insert id document update) = .ok (summary', s', o)) :
    s'.metadata = s.metadata ∧
      ∃ number, o = .insert number id document ∧ s'.number? id = some number := by
  unfold resolve at h
  dsimp only at h
  split at h
  · next number hnumber =>
      split at h <;> cases h
      exact ⟨rfl, number, rfl, hnumber⟩
  · cases h
    exact ⟨rfl, _, rfl, Numbering.number?_allocate _ _⟩

/-- A document is not inserted over another. -/
theorem resolve_insert_eq_error {id : String} {document : Document} {update : Bool} {err : Error}
    (h : resolve s summary (.insert id document update) = .error err) :
    StagedOperation.Refused s (.insert id document update) err := by
  unfold resolve at h
  dsimp only at h
  split at h
  · next number hnumber =>
      split at h
      · cases h
      · next hupdate =>
          cases h
          rw [Bool.not_eq_true] at hupdate
          subst hupdate
          exact .duplicate hnumber
  · cases h

/-- A change leads a commit to the schema that it led the transaction to. -/
theorem schema_executeOne (hop : op.Leads e.snapshot.metadata.schema schema)
    (hexec : executeOne e op = .ok e') : e'.snapshot.metadata.schema = schema := by
  obtain ⟨⟨summary, s, o⟩, hresolve, hrest⟩ := Fallible.bind_eq_ok.mp hexec
  obtain ⟨⟨touched, s'⟩, happly, heq⟩ := Fallible.bind_eq_ok.mp hrest
  cases heq
  replace happly := Fallible.mapError_eq_ok.mp happly
  cases hop with
  | insert _ =>
      obtain ⟨hmetadata, number, rfl, -⟩ := resolve_insert hresolve
      exact (Snapshot.schema_insert happly).trans (congrArg Table.schema hmetadata)
  | delete =>
      cases hresolve
      exact Snapshot.schema_delete happly
  | deleteUser =>
      cases hresolve
      cases happly
      rfl
  | define =>
      cases hresolve
      rw [Snapshot.apply] at happly
      split at happly <;> cases happly
      rfl
  | alter htarget =>
      cases hresolve
      obtain ⟨table, halter, hs'⟩ := Fallible.bind_eq_ok.mp happly
      cases hs'
      obtain ⟨layout, new, htarget', rfl, -, -⟩ :=
        Table.alter_eq_ok (Fallible.mapError_eq_ok.mp halter)
      -- the target depends on the schema only, and the schemas are the same
      cases htarget.symm.trans htarget'
      rfl

/-- What a change is refused for: it is not resolved, or its operation is not applied. -/
theorem executeOne_eq_error {err : Error} (hexec : executeOne e op = .error err) :
    resolve e.snapshot e.summary op = .error err ∨
      ∃ summary s o fault, resolve e.snapshot e.summary op = .ok (summary, s, o) ∧
        s.apply o = .error fault ∧ err = fault.toError := by
  rcases Fallible.bind_eq_error.mp hexec with hresolve | ⟨⟨summary, s, o⟩, hresolve, hrest⟩
  · exact .inl hresolve
  · rcases Fallible.bind_eq_error.mp hrest with happly | ⟨_, -, hrest⟩
    · obtain ⟨fault, hfault, rfl⟩ := Fallible.mapError_eq_error.mp happly
      exact .inr ⟨summary, s, o, fault, hresolve, hfault, rfl⟩
    · cases hrest

/-- A change that has passed the checks of staging against the schema that the commit meets is
refused for one of four reasons. -/
theorem refused_of_executeOne {err : Error} (hop : op.Leads e.snapshot.metadata.schema schema)
    (hexec : executeOne e op = .error err) : op.Refused e.snapshot err := by
  have hcases := executeOne_eq_error hexec
  cases hop with
  | @insert id document update _ record hrecord =>
      rcases hcases with hresolve | ⟨summary, s, o, fault, hresolve, happly, -⟩
      · exact resolve_insert_eq_error hresolve
      · -- the record can be made, and the number is the one that the document has
        obtain ⟨hmetadata, number, rfl, hnumber⟩ := resolve_insert hresolve
        rw [← hmetadata] at hrecord
        obtain ⟨r, hr⟩ := Snapshot.exists_insert hnumber hrecord
        cases hr.symm.trans happly
  | @delete id _ =>
      rcases hcases with hresolve | ⟨summary, s, o, fault, hresolve, happly, rfl⟩
      · cases hresolve
      · cases hresolve
        obtain ⟨hnone, rfl⟩ := Snapshot.delete_eq_error happly
        exact .absent hnone
  | deleteUser =>
      rcases hcases with hresolve | ⟨summary, s, o, fault, hresolve, happly, rfl⟩
      · cases hresolve
      · cases hresolve
        cases happly
  | define =>
      rcases hcases with hresolve | ⟨summary, s, o, fault, hresolve, happly, rfl⟩
      · cases hresolve
      · cases hresolve
        rw [Snapshot.apply] at happly
        split at happly
        · cases happly
        · next hsize =>
            cases happly
            exact .notEmpty hsize
  | alter htarget =>
      rcases hcases with hresolve | ⟨summary, s, o, fault, hresolve, happly, rfl⟩
      · cases hresolve
      · cases hresolve
        rcases Fallible.bind_eq_error.mp happly with halter | ⟨_, -, happly⟩
        · obtain ⟨fault, hfault, rfl⟩ := Fallible.mapError_eq_error.mp halter
          obtain ⟨number, c, old, v, reason, rfl, ⟨hlow, hhigh⟩, hc, hold, hv, hreason⟩ :=
            Table.misfit_of_alter_eq_error htarget hfault
          refine .misfit hlow hhigh hc hold hv (fun hfits => ?_) hreason
          obtain ⟨bytes, hbytes⟩ := (c.type.exists_encode_iff v).mpr hfits
          cases hreason.symm.trans hbytes
        · cases happly

/-- A list of changes leads a commit to the schema that it led the transaction to. -/
theorem schema_execute {staged : List StagedOperation}
    (hstaged : Rehearsed e.snapshot.metadata.schema staged schema)
    (hexec : staged.foldlM executeOne e = .ok e') : e'.snapshot.metadata.schema = schema := by
  induction staged generalizing e with
  | nil =>
      cases hstaged
      cases hexec
      rfl
  | cons op rest ih =>
      obtain ⟨mid, hfirst, hmore⟩ := Fallible.bind_eq_ok.mp hexec
      cases hstaged with
      | cons hop hrest =>
          rw [← schema_executeOne hop hfirst] at hrest
          exact ih hrest hmore

/-- No commit closes a store. -/
theorem closed_commit {s s' : Store} {v v' : Volume} {oldest : Option Nat} {now : Nat}
    {staged : List StagedOperation} {r : Except Error CommitSummary}
    (hrun : s.commit oldest now staged v = (r, s', v')) : s'.closed = s.closed := by
  rcases commit_cases hrun with ⟨rfl, -⟩ | ⟨p, -, ⟨e, j, -, -, rfl⟩ | ⟨j, w, r, -, hsettle, -⟩⟩
  · rfl
  · rfl
  · obtain ⟨j', rfl, -⟩ := settle_leaves hsettle
    rfl

/-- A commit of a store that is open fails while the changes are executed, or when it is recorded. -/
theorem commit_eq_error {s : Store} {v : Volume} {oldest : Option Nat} {now : Nat}
    {staged : List StagedOperation} {err : Error} (hopened : s.closed = false)
    (h : (s.commit oldest now staged v).1 = .error err) :
    execute s.current oldest staged = .error err ∨
      ∃ p, prepare s.current oldest now staged = .ok (.inr p) ∧ (s.complete p v).1 = .error err := by
  rw [commit_of_opened hopened] at h
  split at h
  · next hprepare =>
      cases h
      rcases Fallible.bind_eq_error.mp hprepare with hexec | ⟨e, -, hrest⟩
      · exact .inl hexec
      · split at hrest <;> cases hrest
  · cases h
  · next p hprepare => exact .inr ⟨p, hprepare, h⟩

end Store

end Concordance
