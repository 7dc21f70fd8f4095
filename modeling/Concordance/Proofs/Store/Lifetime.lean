import Concordance.Proofs.Store.Crash
import Concordance.Proofs.Store.Sparing

/-!
# Storages that are opened again

A storage lives through any number of sessions. In every state of its life identifiers and numbers
are mapped to each other. A commit, though, is safe only where no number that waits to be used again
is a document's: opening parks the numbers that the journal's commits gave back, also one that a
later commit of the journal has handed out again. The next commit then frees the number of a
document.

`numbers_kept_iff` says that this is the exact limit: from a state of such a life every commit keeps
the mapping, frees no number of a document and leaves alone what it spares, if and only if no
document's number is parked.
-/

namespace Concordance

open Disk

namespace Snapshot

/-- No number of a document waits to be used again. -/
def Clashless (s : Snapshot) : Prop :=
  ∀ d, s.numbering.IsParked d → ¬ s.numbering.IsLive d

instance (s : Snapshot) : Decidable s.Clashless :=
  decidable_of_iff (∀ e ∈ s.numbering.parked, s.id? e.2 = none) <| by
    constructor
    · rintro h d ⟨g, hg⟩
      exact Numbering.not_isLive_iff.mpr (h (g, d) hg)
    · rintro h ⟨g, d⟩ he
      exact Numbering.not_isLive_iff.mp (h d ⟨g, he⟩)

/-- What a commit has to keep of documents and their numbers. -/
structure KeepsNumbers (staged : List StagedOperation) (s s' : Snapshot) : Prop where
  inverse : ∀ id d, s'.number? id = some d ↔ s'.id? d = some id
  taken : ∀ d, s'.numbering.IsLive d → ¬ s'.numbering.IsFree d
  spared : ∀ id, (∀ op ∈ staged, op.Spares id) → SameFor id s s'

end Snapshot

theorem Statistics.History.InRange.restore {limit limit' : Nat} {horizon : Option TimeStamp}
    {records : List Record} (h : (⟨records, horizon, limit'⟩ : History).InRange) :
    (restore limit horizon records).InRange :=
  restore_keeps ⟨nofun, h.horizon⟩ fun _ r hr hg => hg.push (h.records r hr)

namespace Store

open Snapshot

variable {config asked : Config} {floor now : Nat} {s s' : Store} {v v₁ v' : Volume}
  {oldest : Option Nat} {staged : List StagedOperation} {summary : CommitSummary}

/-- The life of a storage: set up, committed to and opened again, any number of times. Commits go on
from states without a clash; readers are not older than the session. -/
inductive Lifetime (config : Config) : Nat → Store → Volume → Prop
  | created {v₀ v : Volume} {s : Store} : config.InRange → v₀.files = ∅ →
    (create config).run v₀ = (.ok s, v) → Lifetime config 0 s v
  | committed {floor now : Nat} {s s' : Store} {v v₁ v' : Volume} {oldest : Option Nat}
    {staged : List StagedOperation} {summary : CommitSummary} :
    Lifetime config floor s v → s.current.Clashless → v₁.files = v.files →
    (∀ g, oldest = some g → floor ≤ g) →
    (∀ p, prepare s.current oldest now staged = .ok (.inr p) → s.Fits p) →
    s.commit oldest now staged v₁ = (.ok summary, s', v') → Lifetime config floor s' v'
  | reopened {floor : Nat} {s s' : Store} {v v₁ v' : Volume} {asked : Config} :
    Lifetime config floor s v → v₁.files = v.files → (Store.open asked).run v₁ = (.ok s', v') →
    Lifetime config s'.current.generation s' v'

/-- What is known of every state in the life of a storage. -/
structure Lasting (stored : Config) (floor : Nat) (s : Store) (v : Volume) : Prop
    extends Accounted stored s v where
  sound : s.current.Sound
  parked : s.current.numbering.parked.Pairwise fun p q => p.2 = q.2 → p.1 ≤ floor ∧ q.1 ≤ floor
  clean : s.journal.needsRollback = false
  opened : s.closed = false

/-- Without a clash the numbering is orderly. -/
theorem Lasting.steady (h : Lasting config floor s v) (hclash : s.current.Clashless) :
    Steady config floor s v :=
  ⟨h.toAccounted, h.sound, ⟨h.sound.numbering, hclash, h.parked⟩⟩

theorem Steady.lasting (h : Steady config floor s v) (hclean : s.journal.needsRollback = false)
    (hopened : s.closed = false) : Lasting config floor s v :=
  ⟨h.toAccounted, h.ready.sound, h.ready.orderly.parked_once, hclean, hopened⟩

/-- A commit that succeeds had nothing to do, or its record is in the journal. -/
theorem commit_eq_ok (hrun : s.commit oldest now staged v = (.ok summary, s', v')) :
    (s' = s ∧ v' = v) ∨ ∃ p j w, prepare s.current oldest now staged = .ok (.inr p) ∧
      s.journal.append p.record v = (.ok (), j, w) ∧
      (({ s with journal := j } : Store).publish p).settle w = (.ok (), s', v') := by
  rcases commit_cases hrun with hsame | ⟨p, hprepare, ⟨e, j, -, hfailed, -⟩ |
    ⟨j, w, r, happend, hsettle, hsummary⟩⟩
  · exact .inl hsame
  · cases hfailed
  · cases r with
    | error e => cases hsummary
    | ok u => exact .inr ⟨p, j, w, hprepare, happend, hsettle⟩

/-- The snapshot that a commit leaves: the one before, or the one that it prepared. -/
theorem current_of_commit (hrun : s.commit oldest now staged v = (.ok summary, s', v')) :
    s'.current = s.current ∨
      ∃ p, prepare s.current oldest now staged = .ok (.inr p) ∧ s'.current = p.next := by
  rcases commit_eq_ok hrun with ⟨rfl, -⟩ | ⟨p, j, w, hprepare, -, hsettle⟩
  · exact .inl rfl
  · obtain ⟨j', rfl, -⟩ := settle_leaves hsettle
    exact .inr ⟨p, hprepare, rfl⟩

theorem Lasting.commit (h : Lasting config floor s v) (hclash : s.current.Clashless)
    (hold : ∀ g, oldest = some g → floor ≤ g)
    (hfits : ∀ p, prepare s.current oldest now staged = .ok (.inr p) → s.Fits p)
    (hrun : s.commit oldest now staged v = (.ok summary, s', v')) :
    Lasting config floor s' v' := by
  rcases commit_eq_ok hrun with ⟨rfl, rfl⟩ | ⟨p, j, w, hprepare, happend, hsettle⟩
  · exact h
  · have hfit := hfits p hprepare
    obtain ⟨hsteady, hclean⟩ := (h.steady hclash).append hold hprepare hfit happend
    obtain ⟨j', rfl, hclean', hsteady'⟩ :=
      hsteady.settle hclean hfit.snapshot hfit.checkpoint hsettle
    exact hsteady'.lasting hclean' h.opened

/-- Opening a storage again leaves its files as they are, and restores its state. -/
theorem Lasting.opens (h : Lasting config floor s v) (asked : Config) :
    ∃ s' v', s.current.Twin s'.current ∧ Lasting config s'.current.generation s' v' ∧
      (Accepts asked s.current.metadata.schema → (Store.open asked).run v = (.ok s', v')) ∧
      (¬ Accepts asked s.current.metadata.schema →
        ∃ e, (Store.open asked).run v = (.error e, v')) := by
  obtain ⟨commits, frames, content, haccounts, hscanned, hfile, hintact⟩ := h.account
  obtain ⟨rfl, -⟩ := hintact.clean h.clean
  obtain ⟨start, t, records, hstart, hleads, hhistory⟩ := haccounts.leads
  have hscan : CommitRecord.scan content = (commits, content.length) := by
    have hscan := hscanned []
    rwa [CommitRecord.scan_nil, List.append_nil, List.append_nil] at hscan
  obtain ⟨w, hfiles, hopen, hrefused⟩ := run_open haccounts.words haccounts.config hstart
    hfile hscan (Nat.le_refl _) (fun hlt => absurd hlt (Nat.lt_irrefl _)) hleads.replays
  rw [List.take_length, SortedMap.insert_eq_self hfile] at hfiles
  rw [hleads.twin.schema] at hopen hrefused
  refine ⟨_, w, hleads.twin, ⟨⟨Statistics.History.kept_restore _ _ _, hleads.words.restore, commits,
    content, content, ⟨haccounts.words, ?_, ?_, ?_, start, t, records, ?_, ⟨hleads.replays, .refl t,
      hleads.sound, hleads.parked, hleads.words⟩, rfl⟩, hscanned, ?_, ?_⟩, hleads.sound, ?_, rfl,
    rfl⟩, hopen, hrefused⟩
  · rw [hfiles]
    exact haccounts.config
  · exact hleads.twin.accessControl.trans haccounts.access
  · intro c hc
    rw [hleads.twin.generation]
    exact haccounts.known c hc
  · rw [hfiles]
    exact hstart
  · rw [hfiles]
    exact hfile
  · exact ⟨fun _ => ⟨rfl, Nat.le_refl _⟩, nofun⟩
  · -- repetitions park numbers under generations up to the restored one
    exact List.Pairwise.imp_of_mem (fun ha hb _ _ => ⟨hleads.parked _ ha, hleads.parked _ hb⟩)
      (List.pairwise_of_forall fun _ _ => trivial)

/-- What was opened has the state that the files stand for. -/
theorem Lasting.reopened (h : Lasting config floor s v)
    (hrun : (Store.open asked).run v = (.ok s', v')) :
    s.current.Twin s'.current ∧ Lasting config s'.current.generation s' v' := by
  obtain ⟨t, w, htwin, hlasting, hopen, hrefused⟩ := h.opens asked
  by_cases haccepts : Accepts asked s.current.metadata.schema
  · rw [hopen haccepts] at hrun
    cases hrun
    exact ⟨htwin, hlasting⟩
  · obtain ⟨e, he⟩ := hrefused haccepts
    rw [he] at hrun
    cases hrun

theorem Lasting.of_files (h : Lasting config floor s v) (hfiles : v₁.files = v.files) :
    Lasting config floor s v₁ :=
  ⟨h.toAccounted.of_files hfiles, h.sound, h.parked, h.clean, h.opened⟩

theorem Lifetime.lasting (h : Lifetime config floor s v) : Lasting config floor s v := by
  induction h with
  | created hwords hnew hrun =>
      obtain ⟨rfl, hsteady⟩ := steady_create hwords hnew hrun
      exact hsteady.lasting rfl rfl
  | committed _ hclash hfiles hold hfits hrun ih =>
      exact (ih.of_files hfiles).commit hclash hold hfits hrun
  | reopened _ hfiles hrun ih => exact ((ih.of_files hfiles).reopened hrun).2

/-! ## What commits keep -/

/-- From a state without a clash a commit keeps documents and their numbers. -/
theorem Lasting.keeps (h : Lasting config floor s v) (hclash : s.current.Clashless)
    (hold : ∀ g, oldest = some g → floor ≤ g)
    (hrun : s.commit oldest now staged v₁ = (.ok summary, s', v')) :
    KeepsNumbers staged s.current s'.current ∧ s'.current.Clashless := by
  have hready := (h.steady hclash).ready
  have htaken : ∀ {t : Snapshot}, t.Sound → ∀ d, t.numbering.IsLive d → ¬ t.numbering.IsFree d := by
    intro t ht d hlive hfree
    exact ht.numbering.free_not_live d hfree hlive
  rcases current_of_commit hrun with heq | ⟨p, hprepare, heq⟩
  · rw [heq]
    exact ⟨⟨fun id d => h.sound.mapped, htaken h.sound, fun id _ => .refl id _⟩, hclash⟩
  · obtain ⟨hready', -⟩ := head_of_prepare hready hold hprepare
    rw [heq]
    exact ⟨⟨fun id d => hready'.sound.mapped, htaken hready'.sound,
      fun id hspares => sameFor_prepare hready hold hspares hprepare⟩,
      hready'.orderly.parked_not_live⟩

/-- A commit that changes next to nothing: it takes a user off all access lists. -/
def userRemoval (base : Snapshot) (now : Nat) (user : String) : Prepared :=
  let timestamp := base.timestamp.next now
  let next := { (successor base none).deleteUser user with timestamp }
  { summary := { timestamp }
    record := {
      generation := next.generation
      timestamp
      operations := [.deleteUser user]
      statistics := statisticsOf base next [] timestamp }
    next }

theorem prepare_userRemoval (base : Snapshot) (now : Nat) (user : String) :
    prepare base none now [.deleteUser user] = .ok (.inr (userRemoval base now user)) :=
  rfl

theorem frame?_userRemoval (base : Snapshot) (now : Nat) :
    ∃ frame, (userRemoval base now "").record.frame? = some frame := by
  have hlength : (CommitRecord.codec.encode (userRemoval base now "").record).length <
      Wire.word32 := by
    have hbytes : ∃ a b c d e f, CommitRecord.codec.encode (userRemoval base now "").record =
        Wire.littleEndian 8 a ++ ((Wire.littleEndian 8 b ++ Wire.littleEndian 8 c) ++
          ((Wire.littleEndian 8 1 ++ (Wire.littleEndian 4 2 ++ Wire.littleEndian 8 0)) ++
            ((Wire.littleEndian 8 d ++ Wire.littleEndian 8 e) ++
              (Wire.littleEndian 8 f ++ Wire.littleEndian 8 0)))) :=
      ⟨_, _, _, _, _, _, rfl⟩
    obtain ⟨a, b, c, d, e, f, hbytes⟩ := hbytes
    rw [hbytes]
    simp only [List.length_append, Wire.length_littleEndian]
    decide
  unfold CommitRecord.frame?
  dsimp only
  rw [if_pos hlength]
  exact ⟨_, rfl⟩

/-- A clash makes the next commit free the number of a document. -/
theorem Lasting.exists_taken (h : Lasting config floor s v) {d : Nat}
    (hparked : s.current.numbering.IsParked d) (hlive : s.current.numbering.IsLive d) :
    ∃ v₁ summary s' v', v₁.files = v.files ∧
      s.commit none 0 [.deleteUser ""] v₁ = (.ok summary, s', v') ∧
      s'.current.numbering.IsLive d ∧ s'.current.numbering.IsFree d := by
  let v₁ : Volume := { place := .memory, files := v.files }
  have hcalm : s.Calm v₁ := ⟨⟨rfl, rfl, fun _ _ => rfl⟩, h.opened, h.clean⟩
  obtain ⟨frame, hframe⟩ := frame?_userRemoval s.current 0
  obtain ⟨s', v', hrun, -, hcurrent, -⟩ := complete_willing hcalm hframe
  refine ⟨v₁, (userRemoval s.current 0 "").summary, s', v', rfl, ?_, ?_⟩
  · rw [commit_of_opened h.opened, prepare_userRemoval]
    exact hrun
  · rw [hcurrent]
    obtain ⟨g, hg⟩ := hparked
    -- without readers every parked number is given free
    exact ⟨hlive, Numbering.isFree_reclaim.mpr (.inr ⟨g, hg, rfl⟩)⟩

/-- In the life of a storage numbers and identifiers are mapped to each other. Commits keep what they
have to keep, and go on to states without a clash, exactly where no document's number is parked. -/
theorem numbers_kept_iff (h : Lifetime config floor s v) :
    (∀ id d, s.current.number? id = some d ↔ s.current.id? d = some id) ∧
      ((∀ oldest now staged v₁ summary s' v', (∀ g, oldest = some g → floor ≤ g) →
          v₁.files = v.files → s.commit oldest now staged v₁ = (.ok summary, s', v') →
          KeepsNumbers staged s.current s'.current ∧ s'.current.Clashless) ↔
        s.current.Clashless) := by
  have hlasting := h.lasting
  refine ⟨fun id d => hlasting.sound.mapped, ?_, ?_⟩
  · intro hkeeps d hparked hlive
    obtain ⟨v₁, summary, s', v', hfiles, hrun, hlive', hfree'⟩ :=
      hlasting.exists_taken hparked hlive
    have hkept := (hkeeps none 0 [.deleteUser ""] v₁ summary s' v' nofun hfiles hrun).1
    exact hkept.taken d hlive' hfree'
  · intro hclash oldest now staged v₁ summary s' v' hold hfiles hrun
    exact hlasting.keeps hclash hold hrun

/-- Commits buffers one after the other, with no reader open. -/
def commitAll (now : Nat) : List (List StagedOperation) → Store → Disk Store
  | [], s => return s
  | staged :: rest, s => do
    match s.commit none now staged (← get) with
    | (.error e, _, _) => throw e
    | (.ok _, s, v) =>
      set v
      commitAll now rest s

/-- A document of one word. -/
def wordDocument (value : String) : Document where
  search := [⟨"word", value, 1⟩]
  forward := [⟨"word", value, 1⟩]

set_option maxRecDepth 4000 in
/-- A storage of one document that is opened again. -/
theorem numbers_kept_iff_reopened :
    ∃ floor s v, Lifetime {} floor s v ∧ s.current.number? "a" = some 1 ∧
      ∀ oldest now staged v₁ summary s' v', (∀ g, oldest = some g → floor ≤ g) →
        v₁.files = v.files → s.commit oldest now staged v₁ = (.ok summary, s', v') →
        KeepsNumbers staged s.current s'.current ∧ s'.current.Clashless := by
  let bytes := Wire.textBytes (Json.renderPretty ({} : Config).toJson)
  let v₀ := (Volume.memory.setContent configFile bytes).setContent journalFile []
  let staged : List StagedOperation := [.insert "a" (wordDocument "x") false]
  let r := (fresh {} {}).commit none 7 staged v₀
  have hcreated : Lifetime {} 0 (fresh {} {}) v₀ :=
    .created ⟨by decide, by decide⟩ rfl (create_willing ⟨rfl, rfl, fun _ _ => rfl⟩ rfl {})
  obtain ⟨p, hprepare, hfits⟩ : ∃ p, prepare (fresh {} {}).current none 7 staged = .ok (.inr p) ∧
      (fresh {} {}).Fits p := ⟨_, rfl, by decide +kernel⟩
  obtain ⟨summary, hsummary, -⟩ := Fallible.exists_of_toOption_map
    (show (r.1.toOption.map fun _ => ()) = some () by decide +kernel)
  have hcommitted : Lifetime {} 0 r.2.1 r.2.2 := by
    refine hcreated.committed (by decide) rfl (fun _ _ => Nat.zero_le _) ?_
      (Prod.ext hsummary rfl)
    intro q hq
    rw [hprepare] at hq
    cases hq
    exact hfits
  obtain ⟨s, hs, hfacts⟩ := Fallible.exists_of_toOption_map
    (show (((Store.open {}).run r.2.2).1.toOption.map fun s =>
      (s.current.number? "a", decide s.current.Clashless)) = some (some 1, true) by decide +kernel)
  have hreopened := hcommitted.reopened rfl (Prod.ext hs rfl)
  obtain ⟨hnumber, hclash⟩ := Prod.mk.inj hfacts
  exact ⟨_, s, _, hreopened, hnumber,
    (numbers_kept_iff hreopened).2.mpr (of_decide_eq_true hclash)⟩

/-- A session that gives a number back and uses it again, and one that opens the storage again. -/
def twoSessions : Disk Store := do
  let first ← create {}
  let _ ← commitAll 7 [[.insert "a" (wordDocument "x") false], [.delete "a"],
    [.insert "b" (wordDocument "y") false]] first
  let second ← Store.open {}
  commitAll 7 [[.insert "c" (wordDocument "z") false]] second

set_option maxRecDepth 4000 in
/-- Opening parks the number that the second document has, and the next commit gives it to the
third. -/
theorem number_given_twice :
    ∃ s, (twoSessions.run .memory).1 = .ok s ∧ s.current.number? "b" = some 1 ∧
      s.current.number? "c" = some 1 ∧ s.current.id? 1 = some "c" := by
  obtain ⟨s, hs, hfacts⟩ := Fallible.exists_of_toOption_map
    (show ((twoSessions.run .memory).1.toOption.map fun s =>
      (s.current.number? "b", s.current.number? "c", s.current.id? 1)) =
        some (some 1, some 1, some "c") by decide +kernel)
  obtain ⟨hb, hc, hid⟩ : _ ∧ _ ∧ _ := by simpa using hfacts
  exact ⟨s, hs, hb, hc, hid⟩

end Store

end Concordance
