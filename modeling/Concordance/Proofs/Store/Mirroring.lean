import Concordance.Proofs.Store.Lending
import Concordance.Proofs.Store.Rehearsal
import Mathlib.Data.List.Induction

/-!
# Commits mirror staging

In a process that begins a transaction, stages changes and commits them, the commit starts from the
schema that the transaction began with, if nothing has been published in between. So it meets at
every change the schema that the change was checked against when it was staged, however other
transactions and views come and go (`Lender.commit_mirrors_staging`).
-/

namespace Concordance

namespace Lender

/-- No step publishes a snapshot. -/
def Undisturbed (c : Lender) (events : List Event) : Prop :=
  ∀ before event after, events = before ++ event :: after →
    ((c.run before).step event).store.current = (c.run before).store.current

variable {c : Lender} {name id : String} {events : List Event} {event : Event}
  {t t' : Transaction}

theorem run_snoc (c : Lender) (events : List Event) (event : Event) :
    c.run (events ++ [event]) = (c.run events).step event := by
  rw [run, List.foldl_append]
  rfl

theorem Undisturbed.init {later : List Event} (h : c.Undisturbed (events ++ later)) :
    c.Undisturbed events :=
  fun before event after heq => h before event (after ++ later) (by rw [heq]; simp)

theorem Undisturbed.current (h : c.Undisturbed events) :
    (c.run events).store.current = c.store.current := by
  induction events using List.reverseRecOn with
  | nil => rfl
  | append_singleton events event ih =>
      rw [run_snoc, h events event [] rfl, ih h.init]

/-- Only commits publish. -/
theorem undisturbed_of_quiet (h : ∀ name now, .commit name now ∉ events) :
    c.Undisturbed events := by
  rintro before event after rfl
  unfold step
  cases event with
  | commit name now => exact absurd (by simp) (h name now)
  | _ =>
      dsimp only
      repeat' split
      all_goals rfl

/-- A transaction that has tried to commit has ended. -/
theorem commit_ends (c : Lender) (now : Nat) (t : Transaction) :
    (c.commit now t).2.1.state ≠ .active := by
  unfold commit Store.commitTransaction Transaction.ensureActive
  split
  · next hensure =>
      split at hensure
      · cases hensure
      · assumption
  · dsimp only
    split <;> nofun

theorem get?_insert_cases {transactions : SortedMap String Transaction} {other : String}
    (hget : (transactions.insert other t).get? name = some t') :
    (other = name ∧ t = t') ∨ transactions.get? name = some t' := by
  rw [SortedMap.get?_insert] at hget
  split at hget
  · next heq => exact .inl ⟨heq.symm, Option.some.inj hget⟩
  · exact .inr hget

/-- Where a transaction that is active has come from in one step. -/
theorem get?_step (hget : (c.step event).transactions.get? name = some t')
    (hactive : t'.state = .active) :
    c.transactions.get? name = some t' ∨
      (∃ id, event = .begin name id ∧ c.store.begin id = .ok t') ∨
      ∃ call t, event = .stage name call ∧ c.transactions.get? name = some t ∧
        call.run c.store.config.accessControl t = .ok t' := by
  cases event with
  | begin other id =>
      unfold step at hget
      dsimp only at hget
      split at hget
      · next t hbegin =>
          rcases get?_insert_cases hget with ⟨rfl, rfl⟩ | hget
          · exact .inr (.inl ⟨id, rfl, hbegin⟩)
          · exact .inl hget
      · exact .inl hget
  | stage other call =>
      unfold step at hget
      dsimp only at hget
      split at hget
      · exact .inl hget
      · next t ht =>
          split at hget
          · next t₁ hrun =>
              rcases get?_insert_cases hget with ⟨rfl, rfl⟩ | hget
              · exact .inr (.inr ⟨call, t, rfl, ht, hrun⟩)
              · exact .inl hget
          · exact .inl hget
  | commit other now =>
      unfold step at hget
      dsimp only at hget
      split at hget
      · exact .inl hget
      · next t ht =>
          rcases get?_insert_cases hget with ⟨rfl, rfl⟩ | hget
          · exact absurd hactive (c.commit_ends now t)
          · exact .inl hget
  | take => exact .inl hget
  | clone place =>
      unfold step at hget
      dsimp only at hget
      split at hget <;> exact .inl hget
  | drop place =>
      unfold step at hget
      dsimp only at hget
      split at hget <;> exact .inl hget

theorem closed_step (c : Lender) (event : Event) :
    (c.step event).store.closed = c.store.closed := by
  unfold step
  cases event with
  | commit name now =>
      dsimp only
      split
      · rfl
      · next t ht =>
          unfold commit Store.commitTransaction
          split
          · rfl
          · exact Store.closed_commit rfl
  | _ =>
      dsimp only
      repeat' split
      all_goals rfl

theorem closed_run (c : Lender) (events : List Event) :
    (c.run events).store.closed = c.store.closed := by
  induction events using List.reverseRecOn with
  | nil => rfl
  | append_singleton events event ih => rw [run_snoc, closed_step, ih]

/-- The beginning of a transaction on a store that is open. -/
theorem step_begin (hopened : c.store.closed = false) (name id : String) :
    c.step (.begin name id) = { c with
      transactions := c.transactions.insert name
        { id, schema := c.store.current.metadata.schema } } := by
  have hbegin : c.store.begin id = .ok { id, schema := c.store.current.metadata.schema } := by
    unfold Store.begin Store.ensureOpen
    rw [hopened]
    rfl
  unfold step
  dsimp only
  rw [hbegin]

theorem begin_eq_ok {s : Store} (h : s.begin id = .ok t) :
    t.staged = [] ∧ t.schema = s.current.metadata.schema := by
  obtain ⟨-, -, h⟩ := Fallible.bind_eq_ok.mp h
  cases h
  exact ⟨rfl, rfl⟩

theorem get?_step_begin (hopened : c.store.closed = false)
    (hget : (c.step (.begin name id)).transactions.get? name = some t) :
    t.staged = [] ∧ t.schema = c.store.current.metadata.schema := by
  rw [step_begin hopened] at hget
  change (c.transactions.insert name _).get? name = some t at hget
  rw [SortedMap.get?_insert, if_pos rfl] at hget
  cases hget
  exact ⟨rfl, rfl⟩

/-- While nothing is published, what a transaction has staged leads from the schema of the storage to
its own. -/
theorem rehearsed_of_run (hopened : c.store.closed = false)
    (hquiet : (c.step (.begin name id)).Undisturbed events)
    (hget : ((c.step (.begin name id)).run events).transactions.get? name = some t)
    (hactive : t.state = .active) :
    Rehearsed c.store.current.metadata.schema t.staged t.schema := by
  induction events using List.reverseRecOn generalizing t with
  | nil =>
      obtain ⟨hstaged, hschema⟩ := get?_step_begin hopened hget
      rw [hstaged, hschema]
      exact .nil
  | append_singleton events event ih =>
      rw [run_snoc] at hget
      rcases get?_step hget hactive with hget | ⟨id', rfl, hbegin⟩ | ⟨call, t₀, rfl, hget, hrun⟩
      · exact ih hquiet.init hget hactive
      · -- another transaction has begun under the name, from the same snapshot
        obtain ⟨hstaged, hschema⟩ := begin_eq_ok hbegin
        rw [hstaged, hschema, hquiet.init.current, step_begin hopened]
        exact .nil
      · rcases Transaction.run_cases hrun with hended | ⟨op, hstaged, hop, hactive₀⟩
        · exact absurd hactive hended
        · rw [hstaged]
          exact (ih hquiet.init hget hactive₀).snoc hop

/-- At some point of a run, a call staged a change on top of those before it. -/
structure StagedAt (c : Lender) (name : String) (events earlier : List Event) (t₀ : Transaction)
    (op : StagedOperation) : Prop where
  within : ∃ call later, events = earlier ++ .stage name call :: later ∧
    ∃ t₁, call.run (c.run earlier).store.config.accessControl t₀ = .ok t₁ ∧
      t₁.staged = t₀.staged ++ [op]
  held : (c.run earlier).transactions.get? name = some t₀
  active : t₀.state = .active

theorem StagedAt.append {earlier later : List Event} {t₀ : Transaction} {op : StagedOperation}
    (h : StagedAt c name events earlier t₀ op) : StagedAt c name (events ++ later) earlier t₀ op := by
  obtain ⟨⟨call, after, rfl, hcall⟩, hheld, hactive⟩ := h
  exact ⟨⟨call, after ++ later, by simp, hcall⟩, hheld, hactive⟩

/-- Every change that a transaction has staged was accepted at some point, on top of those before
it. -/
theorem exists_stagedAt {before after : List StagedOperation} {op : StagedOperation}
    (hopened : c.store.closed = false)
    (hget : ((c.step (.begin name id)).run events).transactions.get? name = some t)
    (hactive : t.state = .active) (hstaged : t.staged = before ++ op :: after) :
    ∃ earlier t₀, StagedAt (c.step (.begin name id)) name events earlier t₀ op ∧
      t₀.staged = before := by
  induction events using List.reverseRecOn generalizing t after with
  | nil =>
      rw [(get?_step_begin hopened hget).1] at hstaged
      simp at hstaged
  | append_singleton events event ih =>
      rw [run_snoc] at hget
      rcases get?_step hget hactive with hget | ⟨id', rfl, hbegin⟩ | ⟨call, t₀, rfl, hget, hrun⟩
      · obtain ⟨earlier, t₀, hat, hbefore⟩ := ih hget hactive hstaged
        exact ⟨earlier, t₀, hat.append, hbefore⟩
      · rw [(begin_eq_ok hbegin).1] at hstaged
        simp at hstaged
      · rcases Transaction.run_cases hrun with hended | ⟨op', hstaged', -, hactive₀⟩
        · exact absurd hactive hended
        · -- the last change was staged by this call, the others were staged before it
          rw [hstaged'] at hstaged
          rcases List.eq_nil_or_concat' after with rfl | ⟨after, last, rfl⟩
          · obtain ⟨rfl, hop⟩ := List.append_inj' hstaged rfl
            cases hop
            exact ⟨events, t₀, ⟨⟨call, [], rfl, t, hrun, hstaged'⟩, hget, hactive₀⟩, rfl⟩
          · rw [show before ++ op :: (after ++ [last]) = (before ++ op :: after) ++ [last] by simp]
              at hstaged
            obtain ⟨earlier, t₁, hat, hbefore⟩ := ih hget hactive₀ (List.append_inj' hstaged rfl).1
            exact ⟨earlier, t₁, hat.append, hbefore⟩

/-- The commit of a transaction, after some steps of a process that has begun it, does what was
rehearsed. -/
structure MirrorsStaging (begun : Lender) (name : String) (events : List Event) (t : Transaction)
    (now : Nat) : Prop where
  /-- Every staged change meets the schema that the transaction had when it was staged, and every
  document has its record. -/
  meets : ∀ before op after, t.staged = before ++ op :: after →
    ∃ earlier t₀, begun.StagedAt name events earlier t₀ op ∧ t₀.staged = before ∧
      ∀ e, Store.execute (begun.run events).store.current (begun.run events).readers.oldest before =
          .ok e →
        e.snapshot.metadata.schema = t₀.schema ∧
        ∀ id document update, op = .insert id document update →
          ∃ record, e.snapshot.metadata.schema.buildRecord document = .ok record
  /-- The commit fails only where a change is refused that staging could not check, or else where it
  is recorded. -/
  fails : ∀ err, ((begun.run events).commit now t).1 = .error err →
    (∃ before op after e, t.staged = before ++ op :: after ∧
      Store.execute (begun.run events).store.current (begun.run events).readers.oldest before =
        .ok e ∧ op.Refused e.snapshot err) ∨
    ∃ p, Store.prepare (begun.run events).store.current (begun.run events).readers.oldest now
        t.staged = .ok (.inr p) ∧
      ((begun.run events).store.complete p (begun.run events).volume).1 = .error err

/-- Changes that lead from the schema of the storage somewhere lead the commit there. -/
theorem schema_of_execute (hopened : c.store.closed = false)
    (hquiet : (c.step (.begin name id)).Undisturbed events) {staged : List StagedOperation}
    {schema : Schema} {oldest : Option Nat} {e : Store.Execution}
    (hstaged : Rehearsed c.store.current.metadata.schema staged schema)
    (hexec : Store.execute ((c.step (.begin name id)).run events).store.current oldest staged =
      .ok e) :
    e.snapshot.metadata.schema = schema := by
  refine Store.schema_execute ?_ hexec
  rw [hquiet.current, step_begin hopened]
  exact hstaged

/-- A failure of the commit of an active transaction is one of the commit of what it has staged. -/
theorem commit_eq_error {now : Nat} {err : Error} (hopened : c.store.closed = false)
    (hactive : t.state = .active) (h : (c.commit now t).1 = .error err) :
    Store.execute c.store.current c.readers.oldest t.staged = .error err ∨
      ∃ p, Store.prepare c.store.current c.readers.oldest now t.staged = .ok (.inr p) ∧
        (c.store.complete p c.volume).1 = .error err := by
  apply Store.commit_eq_error hopened
  rcases hrun : c.store.commit c.readers.oldest now t.staged c.volume with ⟨r, s', v'⟩
  have hended : c.commit now t = _ := Store.commitTransaction_of_active hactive hrun
  rw [hended] at h
  exact h

/-- If nothing is published between the beginning of a transaction and its commit, the commit does
what staging has rehearsed. -/
theorem commit_mirrors_staging (hopened : c.store.closed = false)
    (hquiet : (c.step (.begin name id)).Undisturbed events)
    (hget : ((c.step (.begin name id)).run events).transactions.get? name = some t)
    (hactive : t.state = .active) (now : Nat) :
    (c.step (.begin name id)).MirrorsStaging name events t now := by
  have hrehearsed := rehearsed_of_run hopened hquiet hget hactive
  refine ⟨fun before op after hstaged => ?_, fun err herr => ?_⟩
  · obtain ⟨earlier, t₀, hat, rfl⟩ := exists_stagedAt hopened hget hactive hstaged
    refine ⟨earlier, t₀, hat, rfl, fun e hexec => ⟨?_, ?_⟩⟩
    · -- the run up to the call that staged the change is undisturbed as well
      obtain ⟨call, later, hevents, -⟩ := hat.within
      have hquiet₀ := hquiet
      rw [hevents] at hquiet₀
      exact schema_of_execute hopened hquiet
        (rehearsed_of_run hopened hquiet₀.init hat.held hat.active) hexec
    · rintro id' document update rfl
      rw [hstaged] at hrehearsed
      obtain ⟨mid, next, hbefore, hop⟩ := hrehearsed.exists_leads
      rw [schema_of_execute hopened hquiet hbefore hexec]
      cases hop with
      | insert hrecord => exact ⟨_, hrecord⟩
  · have hclosed : ((c.step (.begin name id)).run events).store.closed = false := by
      rw [closed_run, closed_step, hopened]
    rcases commit_eq_error hclosed hactive herr with hexec | hcomplete
    · obtain ⟨before, op, after, e, hstaged, hbefore, hop⟩ :=
        Fallible.exists_of_foldlM_eq_error hexec
      rw [hstaged] at hrehearsed
      obtain ⟨mid, next, hfirst, hleads⟩ := hrehearsed.exists_leads
      rw [← schema_of_execute hopened hquiet hfirst hbefore] at hleads
      exact .inl ⟨before, op, after, e, hstaged, hbefore, Store.refused_of_executeOne hleads hop⟩
    · exact .inr hcomplete

/-- A migration and a document that needs it. -/
def columnAndDocument : List Event := [
  .stage "t" (.alter [.add "n" .uint8]),
  .stage "t" (.document "a" { metadata := (∅ : SortedMap _ _).insert "n" (.uint 7) } false)]

theorem commit_mirrors_staging_column_and_document :
    ∃ t, (((start (Store.fresh {} {}) .memory).step (.begin "t" "t")).run
        columnAndDocument).transactions.get? "t" = some t ∧ t.staged.length = 2 ∧
      ((start (Store.fresh {} {}) .memory).step (.begin "t" "t")).MirrorsStaging "t"
        columnAndDocument t 7 := by
  obtain ⟨t, hget, hfacts⟩ := Option.map_eq_some_iff.mp
    (show ((((start (Store.fresh {} {}) .memory).step (.begin "t" "t")).run
        columnAndDocument).transactions.get? "t").map (fun t => (t.staged.length, t.state)) =
      some (2, .active) by decide +kernel)
  obtain ⟨hlength, hactive⟩ := Prod.mk.inj hfacts
  refine ⟨t, hget, hlength, commit_mirrors_staging rfl (undisturbed_of_quiet ?_) hget hactive 7⟩
  simp [columnAndDocument]

end Lender

end Concordance
