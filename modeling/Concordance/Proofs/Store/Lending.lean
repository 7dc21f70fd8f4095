import Concordance.Proofs.Store.Lifetime
import Concordance.Proofs.Store.Published
import Concordance.Proofs.Store.Readers
import Concordance.Proofs.Store.Tenure
import Mathlib.Data.List.Perm.Basic

/-!
# Views and the numbers that they refer to

A `Lender` is a process with one open storage: transactions stage changes and commit, and views of
snapshots are taken, cloned and dropped in any order. A number that a view maps is not handed out
again while the view is held, and becomes available with the first commit after that
(`leased_numbers_kept_iff`). That is so in a session, however it goes on, exactly if it starts
without a clash: a session that opens a storage whose journal has handed a number out again does not.
-/

namespace Concordance

open Disk Snapshot

/-- A process with one open storage that hands out views. -/
structure Lender where
  store : Store
  volume : Volume
  transactions : SortedMap String Transaction := ∅
  /-- The snapshots that views are held of. -/
  views : List Snapshot := []
  readers : Readers := {}

/-- What a process may do. -/
inductive Lender.Event where
  | begin (name id : String)
  | stage (name : String) (call : Staging)
  /-- A transaction commits when the clock reads `now`. -/
  | commit (name : String) (now : Nat)
  /-- A view of the current snapshot is taken. -/
  | take
  | clone (place : Nat)
  | drop (place : Nat)

namespace Lender

/-- The process at the beginning of a session. -/
def start (s : Store) (v : Volume) : Lender := { store := s, volume := v }

/-- A commit of a transaction. -/
def commit (c : Lender) (now : Nat) (t : Transaction) :
    Except Error CommitSummary × Transaction × Store × Volume :=
  c.store.commitTransaction c.readers.oldest now t c.volume

/-- Holds one view more. -/
def hold (c : Lender) (view : Snapshot) : Lender :=
  { c with views := c.views ++ [view], readers := c.readers.acquire view.generation }

/-- One step of a process. A call that fails changes nothing but the transaction that ends. -/
def step (c : Lender) : Event → Lender
  | .begin name id =>
    match c.store.begin id with
    | .ok t => { c with transactions := c.transactions.insert name t }
    | .error _ => c
  | .stage name call =>
    match c.transactions.get? name with
    | none => c
    | some t =>
      match call.run c.store.config.accessControl t with
      | .ok t => { c with transactions := c.transactions.insert name t }
      | .error _ => c
  | .commit name now =>
    match c.transactions.get? name with
    | none => c
    | some t =>
      let (_, t, store, volume) := c.commit now t
      { c with store, volume, transactions := c.transactions.insert name t }
  | .take => c.hold c.store.current
  | .clone place =>
    match c.views[place]? with
    | none => c
    | some view => c.hold view
  | .drop place =>
    match c.views[place]? with
    | none => c
    | some view =>
      { c with views := c.views.eraseIdx place, readers := c.readers.release view.generation }

/-- The process after some steps. -/
def run (c : Lender) (events : List Event) : Lender := events.foldl step c

/-- Every number that a view in use maps is clear of other documents. -/
def KeepsClear (c : Lender) : Prop := ∀ view ∈ c.views, view.KeepsClear c.store.current

/-- What becomes of numbers that were given back when a commit publishes what it prepared. -/
structure GivesBack (c : Lender) (p : Store.Prepared) : Prop where
  /-- The commit parks the numbers of the documents that it deletes. -/
  deleted : ∀ d x, c.store.current.id? d = some x → p.next.id? d = none →
    (p.next.generation, d) ∈ p.next.numbering.parked
  /-- A number waits while a view is held that is older than the commit that parked it. -/
  waiting : ∀ g d, (g, d) ∈ c.store.current.numbering.parked →
    (∃ view ∈ c.views, view.generation < g) → (g, d) ∈ p.next.numbering.parked
  /-- After that the number is free for the commit, and stays so unless the commit uses it. -/
  available : ∀ g d, (g, d) ∈ c.store.current.numbering.parked →
    (∀ view ∈ c.views, g ≤ view.generation) →
    (Store.successor c.store.current c.readers.oldest).numbering.IsFree d ∧
      (p.next.numbering.IsFree d ∨ ∃ id document, .insert d id document ∈ p.record.operations)

/-! ## What a session keeps -/

/-- What holds of a process between its steps, if its session starts from generation `floor` without
a clash. -/
structure Lending (floor : Nat) (c : Lender) : Prop where
  ready : Ready floor c.store.current
  begun : floor ≤ c.store.current.generation
  leased : ∀ view ∈ c.views, floor ≤ view.generation ∧ Leased view c.store.current
  counts : c.readers.Counts (c.views.map (·.generation))

variable {floor : Nat} {c : Lender}

/-- No view is older than the session. -/
theorem Lending.floor_le_oldest (h : Lending floor c) :
    ∀ g, c.readers.oldest = some g → floor ≤ g := by
  intro g hg
  obtain ⟨view, hview, rfl⟩ := List.mem_map.mp (h.counts.oldest_mem hg)
  exact (h.leased view hview).1

/-- Whatever becomes of a commit, the store keeps the numbers of all views. -/
theorem Lending.store (h : Lending floor c) {now : Nat} {staged : List StagedOperation}
    {res : Except Error CommitSummary} {s' : Store} {v' : Volume}
    (hrun : c.store.commit c.readers.oldest now staged c.volume = (res, s', v')) :
    Lending floor { c with store := s', volume := v' } := by
  rcases Store.state_after hrun with ⟨hcurrent, -⟩ | ⟨p, hprepare, hcurrent, -⟩
  · exact ⟨hcurrent ▸ h.ready, hcurrent ▸ h.begun, hcurrent ▸ h.leased, h.counts⟩
  · have hold := h.floor_le_oldest
    obtain ⟨hready, hgeneration, -⟩ := Store.head_of_prepare h.ready hold hprepare
    have hbegun := h.begun
    refine ⟨hcurrent ▸ hready, ?_, ?_, h.counts⟩
    · dsimp only
      rw [hcurrent]
      omega
    · dsimp only
      rw [hcurrent]
      intro view hview
      obtain ⟨hlate, hleased⟩ := h.leased view hview
      have hknown := h.counts.oldest_le (List.mem_map.mpr ⟨view, hview, rfl⟩)
      exact ⟨hlate, hleased.prepare h.ready hold hknown hprepare⟩

theorem Lending.commit (h : Lending floor c) (now : Nat) (t : Transaction) :
    Lending floor { c with store := (c.commit now t).2.2.1, volume := (c.commit now t).2.2.2 } := by
  unfold Lender.commit Store.commitTransaction
  split
  · exact h
  · exact h.store rfl

theorem Lending.hold (h : Lending floor c) {view : Snapshot} (hfloor : floor ≤ view.generation)
    (hleased : Leased view c.store.current) : Lending floor (c.hold view) where
  ready := h.ready
  begun := h.begun
  leased w hw := by
    rcases List.mem_append.mp hw with hw | hw
    · exact h.leased w hw
    · rw [List.mem_singleton.mp hw]
      exact ⟨hfloor, hleased⟩
  counts := by
    refine (h.counts.acquire view.generation).perm ?_
    show (_ :: c.views.map (·.generation)).Perm ((c.views ++ [view]).map (·.generation))
    rw [List.map_append]
    exact (List.perm_append_singleton _ _).symm

theorem Lending.drop (h : Lending floor c) {place : Nat} {view : Snapshot}
    (hview : c.views[place]? = some view) :
    Lending floor { c with
      views := c.views.eraseIdx place, readers := c.readers.release view.generation } where
  ready := h.ready
  begun := h.begun
  leased w hw := h.leased w (List.mem_of_mem_eraseIdx hw)
  counts := by
    obtain ⟨hplace, rfl⟩ := List.getElem?_eq_some_iff.mp hview
    refine Readers.Counts.release (h.counts.perm ?_)
    exact (List.getElem_cons_eraseIdx_perm hplace).symm.map (·.generation)

theorem Lending.step (h : Lending floor c) (event : Event) : Lending floor (c.step event) := by
  cases event with
  | begin name id =>
      unfold Lender.step
      dsimp only
      split
      · exact ⟨h.ready, h.begun, h.leased, h.counts⟩
      · exact h
  | stage name call =>
      unfold Lender.step
      dsimp only
      split
      · exact h
      · split
        · exact ⟨h.ready, h.begun, h.leased, h.counts⟩
        · exact h
  | commit name now =>
      unfold Lender.step
      dsimp only
      split
      · exact h
      · next t _ =>
          have hcommit := h.commit now t
          exact ⟨hcommit.ready, hcommit.begun, hcommit.leased, hcommit.counts⟩
  | take => exact h.hold h.begun (.refl _)
  | clone place =>
      unfold Lender.step
      dsimp only
      split
      · exact h
      · next view hview =>
          obtain ⟨hfloor, hleased⟩ := h.leased view (List.mem_of_getElem? hview)
          exact h.hold hfloor hleased
  | drop place =>
      unfold Lender.step
      dsimp only
      split
      · exact h
      · next view hview => exact h.drop hview

theorem Lending.run (h : Lending floor c) (events : List Event) : Lending floor (c.run events) := by
  induction events generalizing c with
  | nil => exact h
  | cons event rest ih => exact ih (h.step event)

/-! ## What commits do with numbers that were given back -/

theorem Lending.keepsClear (h : Lending floor c) : c.KeepsClear :=
  fun view hview => (h.leased view hview).2.keepsClear h.ready

theorem Lending.givesBack (h : Lending floor c) {now : Nat} {staged : List StagedOperation}
    {p : Store.Prepared}
    (hprepare : Store.prepare c.store.current c.readers.oldest now staged = .ok (.inr p)) :
    c.GivesBack p := by
  have hold := h.floor_le_oldest
  have hpasses := Store.passes_of_prepare h.ready hold hprepare
  refine ⟨fun d x hmap hnone => ?_, fun g d hparked ⟨view, hview, hlt⟩ => ?_,
    fun g d hparked hlate => ?_⟩
  · refine (hpasses.kept d x hmap).resolve_left fun hkept => ?_
    change p.next.id? d = some x at hkept
    rw [hnone] at hkept
    cases hkept
  · obtain ⟨o, ho, hle⟩ := h.counts.oldest_le (List.mem_map.mpr ⟨view, hview, rfl⟩)
    refine hpasses.parked _ (Numbering.mem_parked_reclaim.mpr ⟨hparked, ?_⟩)
    rw [ho]
    simp only [Numbering.releasable, decide_eq_false_iff_not]
    omega
  · have hreleased : Numbering.releasable c.readers.oldest g = true := by
      cases ho : c.readers.oldest with
      | none => rfl
      | some o =>
          obtain ⟨view, hview, rfl⟩ := List.mem_map.mp (h.counts.oldest_mem ho)
          exact decide_eq_true (hlate view hview)
    have hfree : (Store.successor c.store.current c.readers.oldest).numbering.IsFree d :=
      Numbering.isFree_reclaim.mpr (.inr ⟨g, hparked, hreleased⟩)
    refine ⟨hfree, (hpasses.free d hfree).imp_right fun hgiven => ?_⟩
    obtain ⟨op, hop, hd⟩ := List.mem_flatMap.mp hgiven
    obtain ⟨id, document, rfl⟩ := Operation.mem_given.mp hd
    exact ⟨id, document, hop⟩

/-- A commit with changes that succeeds publishes what it prepared, and does with the numbers that
were given back what it has to. -/
theorem Lending.published (h : Lending floor c) {now : Nat} {t : Transaction}
    {summary : CommitSummary} (hcommit : (c.commit now t).1 = .ok summary) (hne : t.staged ≠ []) :
    ∃ p, Store.prepare c.store.current c.readers.oldest now t.staged = .ok (.inr p) ∧
      (c.commit now t).2.2.1.current = p.next ∧ c.GivesBack p := by
  unfold Lender.commit Store.commitTransaction at hcommit ⊢
  split at hcommit
  · cases hcommit
  · rcases hrun : c.store.commit c.readers.oldest now t.staged c.volume with ⟨r, s', v'⟩
    rw [hrun] at hcommit
    obtain rfl : r = .ok summary := hcommit
    obtain ⟨p, hprepare, hcurrent⟩ :=
      Store.published_of_commit h.ready h.floor_le_oldest hne hrun
    exact ⟨p, hprepare, hcurrent, h.givesBack hprepare⟩

/-! ## Sessions -/

/-- A session begins: a storage is set up, or one that has lived through other sessions is opened. -/
inductive Begins (config : Config) : Store → Volume → Prop
  | created {v₀ v : Volume} {s : Store} : config.InRange → v₀.files = ∅ →
    (Store.create config).run v₀ = (.ok s, v) → Begins config s v
  | opened {floor : Nat} {s s' : Store} {v v₁ v' : Volume} {asked : Config} :
    Store.Lifetime config floor s v → v₁.files = v.files →
    (Store.open asked).run v₁ = (.ok s', v') → Begins config s' v'

variable {config : Config} {s : Store} {v : Volume}

theorem Begins.lasting (h : Begins config s v) :
    Store.Lasting config s.current.generation s v := by
  cases h with
  | created hwords hnew hrun =>
      have hlasting := (Store.Lifetime.created hwords hnew hrun).lasting
      obtain ⟨journal, rfl⟩ := Store.fresh_of_create hrun
      exact hlasting
  | opened hlife hfiles hrun => exact (hlife.reopened hfiles hrun).lasting

theorem Begins.lending (h : Begins config s v) (hclash : s.current.Clashless) (v₁ : Volume) :
    Lending s.current.generation (start s v₁) where
  ready := (h.lasting.steady hclash).ready
  begun := Nat.le_refl _
  leased := nofun
  counts := Readers.counts_empty

theorem step_commit (c : Lender) {name : String} {t : Transaction}
    (hget : c.transactions.get? name = some t) (now : Nat) :
    c.step (.commit name now) = { c with
      store := (c.commit now t).2.2.1
      volume := (c.commit now t).2.2.2
      transactions := c.transactions.insert name (c.commit now t).2.1 } := by
  unfold step
  dsimp only
  rw [hget]

/-- What a process does to commit the removal of a user and take a view. -/
def removalAndView : List Event :=
  [.begin "t" "t", .stage "t" (.deleteUser ""), .commit "t" 0, .take]

theorem run_removalAndView {s' : Store} {v' : Volume} {summary : CommitSummary}
    (hopened : s.closed = false)
    (hrun : s.commit none 0 [.deleteUser ""] v = (.ok summary, s', v')) :
    ((start s v).run removalAndView).store = s' ∧
      ((start s v).run removalAndView).views = [s'.current] := by
  let t : Transaction := { id := "t", schema := s.current.metadata.schema }
  let begun : Lender := { start s v with transactions := (∅ : SortedMap _ _).insert "t" t }
  let staged : Lender := { begun with
    transactions := begun.transactions.insert "t" (t.stage (.deleteUser "")) }
  have hbegin : (start s v).step (.begin "t" "t") = begun := by
    have : s.begin "t" = .ok t := by
      unfold Store.begin Store.ensureOpen
      rw [hopened]
      rfl
    unfold Lender.step
    dsimp only [start]
    rw [this]
    rfl
  have hstage : begun.step (.stage "t" (.deleteUser "")) = staged := rfl
  have hcommit : staged.step (.commit "t" 0) = { staged with
      store := s', volume := v',
      transactions := staged.transactions.insert "t"
        { t.stage (.deleteUser "") with state := .committed, staged := [] } } := by
    have hended : staged.commit 0 (t.stage (.deleteUser "")) = _ :=
      Store.commitTransaction_of_active rfl hrun
    rw [staged.step_commit (t := t.stage (.deleteUser "")) rfl, hended]
    rfl
  unfold run removalAndView
  rw [List.foldl_cons, hbegin, List.foldl_cons, hstage, List.foldl_cons, hcommit]
  exact ⟨rfl, rfl⟩

/-- In a session, however transactions are staged and committed and views are taken, cloned and
dropped, a number that a held view maps stays with its identifier or with none, and is not about to
be handed out, if and only if the session starts without a clash. And then a number that was given
back waits for the views that are older, and is available to the first commit after them. -/
theorem leased_numbers_kept_iff (h : Begins config s v) :
    ((∀ v₁ events, v₁.files = v.files → ((start s v₁).run events).KeepsClear) ↔
        s.current.Clashless) ∧
      (s.current.Clashless → ∀ v₁ events, v₁.files = v.files →
        ∀ now t summary, (((start s v₁).run events).commit now t).1 = .ok summary → t.staged ≠ [] →
          ∃ p, (((start s v₁).run events).commit now t).2.2.1.current = p.next ∧
            ((start s v₁).run events).GivesBack p) := by
  refine ⟨⟨fun hkeeps d hparked hlive => ?_, fun hclash v₁ events _ => ?_⟩,
    fun hclash v₁ events _ now t summary hcommit hne => ?_⟩
  · obtain ⟨v₁, summary, s', v', hfiles, hrun, ⟨x, hx⟩, hfree⟩ :=
      h.lasting.exists_taken hparked hlive
    obtain ⟨hstore, hviews⟩ := run_removalAndView h.lasting.opened hrun
    have hclear := hkeeps v₁ removalAndView hfiles s'.current
      (by rw [hviews]; exact List.mem_singleton.mpr rfl) d x hx
    rw [hstore] at hclear
    exact hclear.2 hfree
  · exact ((h.lending hclash v₁).run events).keepsClear
  · obtain ⟨p, -, hcurrent, hback⟩ := ((h.lending hclash v₁).run events).published hcommit hne
    exact ⟨p, hcurrent, hback⟩

/-- A storage that was just set up starts without a clash. -/
theorem leased_numbers_kept_set_up :
    ∃ s v, Begins {} s v ∧
      ∀ v₁ events, v₁.files = v.files → ((start s v₁).run events).KeepsClear := by
  let bytes := Wire.textBytes (Json.renderPretty ({} : Config).toJson)
  have hbegins : Begins {} (Store.fresh {} {})
      ((Volume.memory.setContent configFile bytes).setContent journalFile []) :=
    .created ⟨by decide, by decide⟩ rfl
      (Store.create_willing ⟨rfl, rfl, fun _ _ => rfl⟩ rfl {})
  exact ⟨_, _, hbegins, (leased_numbers_kept_iff hbegins).1.mpr (by decide)⟩

/-- A storage that has given a number back and used it again is opened. -/
def openedAgain : Disk Store := do
  let first ← Store.create {}
  let _ ← Store.commitAll 7 [[.insert "a" (Store.wordDocument "x") false], [.delete "a"],
    [.insert "b" (Store.wordDocument "y") false]] first
  Store.open {}

/-- A view is taken, and then a document is inserted. -/
def viewAndInsertion : List Event :=
  [.take, .begin "t" "t", .stage "t" (.document "c" (Store.wordDocument "z") false),
    .commit "t" 7]

set_option maxRecDepth 4000 in
/-- The view has the second document under number 1, and the commit gives 1 to the third. -/
theorem leased_number_given_away :
    ∃ s v, openedAgain.run .memory = (.ok s, v) ∧
      ∃ view ∈ ((start s v).run viewAndInsertion).views, view.id? 1 = some "b" ∧
        ((start s v).run viewAndInsertion).store.current.id? 1 = some "c" := by
  obtain ⟨s, hs, hfacts⟩ := Fallible.exists_of_toOption_map
    (show ((openedAgain.run .memory).1.toOption.map fun s =>
      let c := (start s (openedAgain.run .memory).2).run viewAndInsertion
      (c.views.map (·.id? 1), c.store.current.id? 1)) =
        some ([some "b"], some "c") by decide +kernel)
  generalize openedAgain.run .memory = r at hs hfacts ⊢
  obtain ⟨answer, v⟩ := r
  obtain rfl : answer = .ok s := hs
  obtain ⟨hviews, hcurrent⟩ := Prod.mk.inj hfacts
  obtain ⟨view, hview, hid⟩ : ∃ view ∈ ((start s v).run viewAndInsertion).views,
      view.id? 1 = some "b" := by
    apply List.mem_map.mp
    rw [hviews]
    exact List.mem_singleton.mpr rfl
  exact ⟨s, v, rfl, view, hview, hid, hcurrent⟩

end Lender

end Concordance
