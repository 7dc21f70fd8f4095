import Concordance.Proofs.Document.Stored
import Concordance.Proofs.Store.Contents
import Concordance.Proofs.Store.Lifetime
import Concordance.Proofs.Store.Tenure

/-!
# Documents are served as they were supplied

A document that a commit has stored under an identifier keeps its forward entries and its positions
through every commit that does not name the identifier, removals of users and migrations of the
metadata among them, and through closing and opening the storage. That holds as long as commits
start from states without a clash (`served_as_supplied`); from another state the next commit can
give the number of the document to another one.
-/

namespace Concordance

open Disk

/-- A staged change that neither stores nor deletes the document of an identifier. -/
def StagedOperation.Leaves (id : String) : StagedOperation → Prop
  | .insert other _ _ => other ≠ id
  | .delete other => other ≠ id
  | _ => True

namespace Snapshot

variable {s s' : Snapshot} {id : String} {doc : Document} {touched : List Term} {floor : Nat}

/-- The document of an identifier is there, with a number, and what is read under the number is what
was supplied. -/
structure Serves (s : Snapshot) (id : String) (doc : Document) (d : Nat) : Prop where
  number : s.number? id = some d
  forward : ∀ type, ListsByPosition (doc.forwardOf type) (s.forwardTerms d type)
  ascending : ∀ t, ((positionsOf? s.postings t d).getD []).Pairwise (· < ·)
  positions : ∀ t p, p ∈ (positionsOf? s.postings t d).getD [] ↔
    ∃ o ∈ doc.search, o.term = t ∧ o.position = p

/-- The entry of an identifier renders a document. -/
def Indexes (s : Snapshot) (id : String) (doc : Document) : Prop :=
  ∃ e, s.entryFor? id = some e ∧ e.stored.Renders doc

/-- What the entry of an identifier renders is what is read under its number. -/
theorem Sound.serves (h : s.Sound) (hindexes : s.Indexes id doc) : ∃ d, s.Serves id doc d := by
  obtain ⟨e, he, hrenders⟩ := hindexes
  obtain ⟨d, hd, hentry⟩ := Option.bind_eq_some_iff.mp he
  have hholds := h.holds d
  rw [hentry] at hholds
  have hpositions : ∀ t, (positionsOf? s.postings t d).getD [] = e.stored.search.getD t [] := by
    intro t
    rw [hholds.positions, Option.bind_some, SortedMap.getD]
  refine ⟨d, hd, fun type => ?_, fun t => ?_, fun t p => ?_⟩
  · rw [forwardTerms, hholds.stored]
    exact hrenders.forward type
  · rw [hpositions]
    exact hrenders.ascending t
  · rw [hpositions]
    exact hrenders.positions t p

/-- Alike snapshots read the same. -/
theorem Indexes.alike (h : s.Indexes id doc) (halike : s.Alike s') : s'.Indexes id doc := by
  obtain ⟨e, he, hrenders⟩ := h
  refine ⟨e, ?_, hrenders⟩
  rw [← he, entryFor?, entryFor?, halike.number?_eq]
  exact congrArg _ (funext halike.entries)

theorem Indexes.of_eq (h : s.Indexes id doc) (hnumbers : s'.number? id = s.number? id)
    (hdocuments : s'.documents = s.documents) (hmetadata : s'.metadata = s.metadata) :
    s'.Indexes id doc := by
  obtain ⟨e, he, hrenders⟩ := h
  refine ⟨e, ?_, hrenders⟩
  rw [← he, entryFor?, entryFor?, hnumbers]
  refine congrArg _ (funext fun d => ?_)
  rw [entryAt?, entryAt?, hdocuments, hmetadata]

/-! ## What a change does to a document that it does not name -/

theorem Indexes.apply (hindexes : s.Indexes id doc) (h : s.Sound) {staged : StagedOperation}
    (hleaves : staged.Leaves id)
    (happly : s.apply (s.operationFor staged) = .ok (touched, s')) : s'.Indexes id doc := by
  obtain ⟨e, he, hrenders⟩ := hindexes
  have hop := unclaimed_operationFor h staged
  cases staged with
  | insert other document update =>
      obtain ⟨record, -, hentries⟩ := entryFor?_insert h hop.1 hop.2 happly
      refine ⟨e, ?_, hrenders⟩
      rw [hentries, if_neg (Ne.symm hleaves), he]
  | delete other =>
      refine ⟨e, ?_, hrenders⟩
      rw [entryFor?_delete h happly, if_neg (Ne.symm hleaves), he]
  | deleteUser user =>
      cases happly
      refine ⟨e.withoutUser user, ?_, hrenders.withoutUser user⟩
      rw [entryFor?_deleteUser h, he]
      rfl
  | define schema =>
      -- a storage with this document is not empty
      rw [operationFor, Snapshot.apply] at happly
      split at happly
      · next hsize =>
          have hnone : s.number? id = none := SortedMap.size_eq_zero_iff.mp hsize id
          rw [h.entryFor?_eq_none_iff.mpr hnone] at he
          cases he
      · cases happly
  | alter alterations =>
      obtain ⟨table, -, hs'⟩ := Fallible.bind_eq_ok.mp happly
      cases hs'
      obtain ⟨d, hd, hentry⟩ := Option.bind_eq_some_iff.mp he
      obtain ⟨stored, hstored, rfl⟩ := Option.map_eq_some_iff.mp hentry
      refine ⟨⟨stored, table.recordOf d⟩, ?_, hrenders⟩
      exact Option.bind_eq_some_iff.mpr ⟨d, hd, Option.map_eq_some_iff.mpr ⟨stored, hstored, rfl⟩⟩

/-- A document that is stored is rendered. -/
theorem indexes_insert (h : s.Sound) {update : Bool}
    (happly : s.apply (s.operationFor (.insert id doc update)) = .ok (touched, s')) :
    s'.Indexes id doc := by
  have hop := unclaimed_operationFor h (.insert id doc update)
  obtain ⟨record, -, hentries⟩ := entryFor?_insert h hop.1 hop.2 happly
  exact ⟨_, by rw [hentries, if_pos rfl], StoredDocument.renders_ofDocument _ _ _⟩

end Snapshot

namespace Store

open Snapshot

variable {config asked : Config} {id : String} {doc : Document} {floor now : Nat} {s s' : Store}
  {v v₁ v' : Volume} {base : Snapshot} {oldest : Option Nat} {staged : List StagedOperation}
  {summary : CommitSummary}

theorem indexes_execution {e e' : Execution} (h : Ready floor e.snapshot)
    (hindexes : e.snapshot.Indexes id doc) (hleaves : ∀ op ∈ staged, op.Leaves id)
    (hexec : staged.foldlM executeOne e = .ok e') : e'.snapshot.Indexes id doc :=
  keeps_of_execution (P := fun s => s.Indexes id doc)
    (fun hready hkeeps hop happly => hkeeps.apply hready.sound hop happly) h hindexes hleaves hexec

/-- A list of changes supplies a document: the last change that names the identifier stores it. -/
def Supplies (id : String) (doc : Document) (staged : List StagedOperation) : Prop :=
  ∃ before update after, staged = before ++ .insert id doc update :: after ∧
    ∀ op ∈ after, op.Leaves id

theorem indexes_of_supplies {e e' : Execution} (h : Ready floor e.snapshot)
    (hsupplies : Supplies id doc staged) (hexec : staged.foldlM executeOne e = .ok e') :
    e'.snapshot.Indexes id doc := by
  obtain ⟨before, update, after, rfl, hleaves⟩ := hsupplies
  rw [List.foldlM_append] at hexec
  obtain ⟨e₁, hbefore, hexec⟩ := Fallible.bind_eq_ok.mp hexec
  obtain ⟨e₂, hinsert, hafter⟩ := Fallible.bind_eq_ok.mp hexec
  obtain ⟨hready, -⟩ := head_of_execution h hbefore
  obtain ⟨-, touched, t, happly, rfl⟩ := (executeOne_eq_ok hready.sound).mp hinsert
  exact indexes_execution (hready.apply happly) (indexes_insert hready.sound happly) hleaves hafter

/-- What holds of the outcome of executing changes holds of the commit that is prepared. -/
theorem indexes_prepare {p : Prepared} (hprepare : prepare base oldest now staged = .ok (.inr p))
    (hexec : ∀ e, execute base oldest staged = .ok e → e.snapshot.Indexes id doc) :
    p.next.Indexes id doc := by
  obtain ⟨e, he, hrest⟩ := Fallible.bind_eq_ok.mp hprepare
  split at hrest
  · cases hrest
  · cases hrest
    exact (hexec e he).of_eq rfl rfl rfl

/-! ## The life of a document -/

/-- A document was supplied by a commit, and since then it has been neither updated nor deleted: all
further commits leave it, and in between the storage is closed and opened again, any number of
times. Commits go on from states without a clash; readers are not older than the session. -/
inductive Supplied (config : Config) (id : String) (doc : Document) : Nat → Store → Volume → Prop
  | supplied {floor now : Nat} {s s' : Store} {v v₁ v' : Volume} {oldest : Option Nat}
    {staged : List StagedOperation} {summary : CommitSummary} :
    Lifetime config floor s v → s.current.Clashless → v₁.files = v.files →
    (∀ g, oldest = some g → floor ≤ g) →
    (∀ p, prepare s.current oldest now staged = .ok (.inr p) → s.Fits p) →
    s.commit oldest now staged v₁ = (.ok summary, s', v') → Supplies id doc staged →
    Supplied config id doc floor s' v'
  | kept {floor now : Nat} {s s' : Store} {v v₁ v' : Volume} {oldest : Option Nat}
    {staged : List StagedOperation} {summary : CommitSummary} :
    Supplied config id doc floor s v → s.current.Clashless → v₁.files = v.files →
    (∀ g, oldest = some g → floor ≤ g) →
    (∀ p, prepare s.current oldest now staged = .ok (.inr p) → s.Fits p) →
    s.commit oldest now staged v₁ = (.ok summary, s', v') → (∀ op ∈ staged, op.Leaves id) →
    Supplied config id doc floor s' v'
  | reopened {floor : Nat} {s s' : Store} {v v₁ v' : Volume} {asked : Config} :
    Supplied config id doc floor s v → v₁.files = v.files →
    (Store.open asked).run v₁ = (.ok s', v') →
    Supplied config id doc s'.current.generation s' v'

theorem Supplied.lasting (h : Supplied config id doc floor s v) :
    Lasting config floor s v ∧ s.current.Indexes id doc := by
  induction h with
  | @supplied floor now s s' v v₁ v' oldest staged summary hlife hclash hfiles hold hfits hrun
      hsupplies =>
      have hlasting := hlife.lasting.of_files hfiles
      refine ⟨hlasting.commit hclash hold hfits hrun, ?_⟩
      have hready := (hlasting.steady hclash).ready
      -- a commit that stores a document publishes what it has executed
      have hne : staged ≠ [] := by
        obtain ⟨before, update, after, rfl, -⟩ := hsupplies
        simp
      obtain ⟨p, hprepare, hcurrent⟩ := published_of_commit hready hold hne hrun
      rw [hcurrent]
      exact indexes_prepare hprepare fun e hexec =>
        indexes_of_supplies (ready_successor hready hold) hsupplies hexec
  | kept _ hclash hfiles hold hfits hrun hleaves ih =>
      have hlasting := ih.1.of_files hfiles
      refine ⟨hlasting.commit hclash hold hfits hrun, ?_⟩
      have hready := (hlasting.steady hclash).ready
      -- an empty commit publishes nothing
      rcases current_of_commit hrun with hcurrent | ⟨p, hprepare, hcurrent⟩
      · rw [hcurrent]
        exact ih.2
      · rw [hcurrent]
        exact indexes_prepare hprepare fun e hexec =>
          indexes_execution (ready_successor hready hold) (ih.2.of_eq rfl rfl rfl) hleaves hexec
  | reopened _ hfiles hrun ih =>
      obtain ⟨htwin, hlasting⟩ := (ih.1.of_files hfiles).reopened hrun
      exact ⟨hlasting, ih.2.alike htwin.toAlike⟩

/-- A document that was supplied and has been neither updated nor deleted is served as it was
supplied, and again whenever the storage is opened. -/
theorem served_as_supplied (h : Supplied config id doc floor s v) :
    ∃ d, s.current.Serves id doc d ∧
      ∀ asked v₁, v₁.files = v.files → Accepts asked s.current.metadata.schema →
        ∃ s' v', (Store.open asked).run v₁ = (.ok s', v') ∧ s'.current.Serves id doc d := by
  obtain ⟨hlasting, hindexes⟩ := h.lasting
  obtain ⟨d, hserves⟩ := hlasting.sound.serves hindexes
  refine ⟨d, hserves, fun asked v₁ hfiles haccepts => ?_⟩
  obtain ⟨s', v', htwin, hlasting', hopen, -⟩ := (hlasting.of_files hfiles).opens asked
  obtain ⟨d', hserves'⟩ := hlasting'.sound.serves (hindexes.alike htwin.toAlike)
  -- the document is read under the number that it had
  have hnumber := hserves'.number
  rw [htwin.number?_eq, hserves.number] at hnumber
  cases hnumber
  exact ⟨s', v', hopen haccepts, hserves'⟩

set_option maxRecDepth 4000 in
/-- A storage of one document that is opened again. -/
theorem served_as_supplied_reopened :
    ∃ floor s v, Supplied {} "a" (wordDocument "x") floor s v ∧
      ∃ d, s.current.Serves "a" (wordDocument "x") d := by
  let bytes := Wire.textBytes (Json.renderPretty ({} : Config).toJson)
  let v₀ := (Volume.memory.setContent configFile bytes).setContent journalFile []
  let staged : List StagedOperation := [.insert "a" (wordDocument "x") false]
  let r := (fresh {} {}).commit none 7 staged v₀
  have hcreated : Lifetime {} 0 (fresh {} {}) v₀ :=
    .created ⟨by decide, by decide⟩ rfl (create_willing ⟨rfl, rfl, fun _ _ => rfl⟩ rfl {})
  obtain ⟨p, hprepare, hfits⟩ : ∃ p, prepare (fresh {} {}).current none 7 staged = .ok (.inr p) ∧
      (fresh {} {}).Fits p := ⟨_, rfl, by decide +kernel⟩
  obtain ⟨summary, hsummary, -⟩ := Fallible.exists_of_toOption_map
    (show (r.1.toOption.map fun _ => ()) = some () by decide +kernel)
  have hsupplied : Supplied {} "a" (wordDocument "x") 0 r.2.1 r.2.2 := by
    refine .supplied hcreated (by decide) rfl (fun _ _ => Nat.zero_le _) ?_
      (Prod.ext hsummary rfl) ⟨[], false, [], rfl, nofun⟩
    intro q hq
    rw [hprepare] at hq
    cases hq
    exact hfits
  obtain ⟨s, hs, -⟩ := Fallible.exists_of_toOption_map
    (show (((Store.open {}).run r.2.2).1.toOption.map fun _ => ()) = some () by decide +kernel)
  have hreopened := hsupplied.reopened rfl (Prod.ext hs rfl)
  obtain ⟨d, hserves, -⟩ := served_as_supplied hreopened
  exact ⟨_, s, _, hreopened, d, hserves⟩

/-- Two sessions of which the second gives the number of the second document to the third, and then
updates the second. -/
def updatedAfterwards : Disk Store := do
  let second ← twoSessions
  commitAll 7 [[.insert "b" (wordDocument "w") true]] second

set_option maxRecDepth 4000 in
/-- The update of the second document replaces the third, which no commit has named since it was
stored. -/
theorem replaced_by_another :
    ∃ s, (updatedAfterwards.run .memory).1 = .ok s ∧ s.current.number? "c" = some 1 ∧
      s.current.forwardTerms 1 "word" = [⟨1, "w"⟩] ∧
      ¬ ∃ d, s.current.Serves "c" (wordDocument "z") d := by
  obtain ⟨s, hs, hfacts⟩ := Fallible.exists_of_toOption_map
    (show ((updatedAfterwards.run .memory).1.toOption.map fun s =>
      (s.current.number? "c", s.current.forwardTerms 1 "word")) =
        some (some 1, [⟨1, "w"⟩]) by decide +kernel)
  obtain ⟨hnumber, hforward⟩ := Prod.mk.inj hfacts
  refine ⟨s, hs, hnumber, hforward, fun ⟨d, hserves⟩ => ?_⟩
  cases hserves.number.symm.trans hnumber
  have hperm := (hserves.forward "word").perm
  rw [hforward] at hperm
  exact absurd hperm (by decide)

end Store

end Concordance
