import Concordance.Console.Perform
import Concordance.Proofs.Query.Evaluation
import Mathlib.Data.List.Induction

/-!
# The query command and the library

What a query file asks for can be had from the library by one call after the other, on the snapshot
that the storage is opened with (`QueryFile.session`). There the variables of the file are known
when its formula is defined. The command makes the scheme first and comes to the variables later: it
answers what the session does, errors included, if the file has no formula or no variables
(`QueryFile.answer_eq_session`), and refuses every file that has both
(`QueryFile.exists_error_of_answer`).
-/

namespace Concordance

/-! ## Queries that are being built -/

namespace Query

/-- A query of a scheme that may still be changed. -/
structure Building (scheme : Scheme) (q : Query) : Prop where
  state : q.state = .built
  scheme : q.scheme = scheme

/-- The query with another page, as far as one is given, and with explanations or without. -/
def asked (q : Query) (minRank maxRanks : Option Nat) (debug : Bool) : Query :=
  { q.paged (minRank.getD q.minRank) (maxRanks.getD q.maxRanks) with debug }

/-- Sets the page, as far as one is given, and whether functions explain their results. -/
def setPage (q : Query) (minRank maxRanks : Option Nat) (debug : Bool) : Except Error Query := do
  let started ← match minRank with
    | some n => q.setMinRank n
    | none => pure q
  let limited ← match maxRanks with
    | some n => started.setMaxRanks n
    | none => pure started
  limited.setDebug debug

variable {scheme : Scheme} {s : Snapshot} {q q' : Query}

theorem building_create (h : create scheme s = .ok q) : q.Building scheme := by
  obtain ⟨-, -, heq⟩ := Fallible.bind_eq_ok.mp h
  cases heq
  exact ⟨rfl, rfl⟩

theorem evaluate_fst (q : Query) : q.evaluate.1 = q.run := by
  unfold evaluate
  cases q.run <;> rfl

/-- Variables are taken if the formula of the scheme takes them. -/
theorem setVariables_eq_ok {bindings : SortedMap String Double}
    (h : q.setVariables bindings = .ok q') : q' = { q with bindings } ∧
      ∀ f, q.scheme.formula = some f → ∃ values, f.bind bindings = .ok values := by
  obtain ⟨-, -, hrest⟩ := Fallible.bind_eq_ok.mp h
  cases hformula : q.scheme.formula with
  | some f =>
      rw [hformula] at hrest
      obtain ⟨values, hvalues, heq⟩ := Fallible.bind_eq_ok.mp hrest
      cases heq
      refine ⟨rfl, ?_⟩
      rintro _ ⟨⟩
      exact ⟨values, hvalues⟩
  | none =>
      rw [hformula] at hrest
      cases hkeys : bindings.keys with
      | nil =>
          rw [hkeys] at hrest
          cases hrest
          exact ⟨rfl, nofun⟩
      | cons name others =>
          rw [hkeys] at hrest
          cases hrest

namespace Building

theorem ensureBuilt (h : q.Building scheme) (operation : String) :
    q.ensureBuilt operation = .ok () := if_pos h.state

theorem addFeature (h : q.Building scheme) {f : Feature} (hadd : q.addFeature f = .ok q') :
    q'.Building scheme := by
  obtain ⟨-, -, hrest⟩ := Fallible.bind_eq_ok.mp hadd
  obtain ⟨-, -, heq⟩ := Fallible.bind_eq_ok.mp hrest
  cases heq
  exact ⟨h.state, h.scheme⟩

theorem addCondition_eq (h : q.Building scheme) (c : Condition) (newGroup : Bool) :
    q.addCondition c newGroup = .ok { q with restriction := q.restriction.add c newGroup } :=
  Fallible.bind_of_ok (h.ensureBuilt _) _

theorem restricted (h : q.Building scheme) (restriction : Restriction) :
    { q with restriction }.Building scheme := ⟨h.state, h.scheme⟩

theorem addUser (h : q.Building scheme) {user : String} (hadd : q.addUser user = .ok q') :
    q'.Building scheme := by
  obtain ⟨-, -, heq⟩ := Fallible.bind_eq_ok.mp hadd
  cases heq
  exact ⟨h.state, h.scheme⟩

theorem setVariables (h : q.Building scheme) {bindings : SortedMap String Double}
    (hset : q.setVariables bindings = .ok q') : q'.Building scheme := by
  obtain ⟨rfl, -⟩ := setVariables_eq_ok hset
  exact ⟨h.state, h.scheme⟩

theorem setPage_eq (h : q.Building scheme) (minRank maxRanks : Option Nat) (debug : Bool) :
    q.setPage minRank maxRanks debug = .ok (q.asked minRank maxRanks debug) := by
  have hstate := h.state
  cases minRank <;> cases maxRanks <;>
    simp [setPage, setMinRank, setMaxRanks, setDebug, Query.ensureBuilt, hstate, asked, paged,
      Bind.bind, Except.bind, pure, Except.pure]

end Building

end Query

/-- A formula without variables takes none. -/
theorem Formula.exists_error_of_bind {f : Formula} (hdefaults : f.defaults = ∅)
    {given : SortedMap String Double} (hgiven : given ≠ ∅) : ∃ e, f.bind given = .error e := by
  unfold Formula.bind
  cases hfind : given.keys.find? fun name => !f.defaults.contains name with
  | some name => exact ⟨_, rfl⟩
  | none =>
      refine absurd (SortedMap.ext ?_) hgiven
      rw [List.find?_eq_none] at hfind
      cases hlist : given.toList with
      | nil => rfl
      | cons entry rest =>
          have hkey : entry.1 ∈ given.keys := by simp [SortedMap.keys, hlist]
          have hunknown := hfind entry.1 hkey
          rw [hdefaults] at hunknown
          simp [SortedMap.contains] at hunknown

namespace Console

/-! ## What a file asks of the library -/

namespace QueryFile

/-- A scheme with the sets of a file, one call for each. -/
def sets (q : QueryFile) : Scheme :=
  let selecting := q.selection.foldl Scheme.select {}
  let restricting := q.restriction.foldl Scheme.restrict selecting
  q.exclusion.foldl Scheme.exclude restricting

/-- The scheme of a file, whose formula knows the variables of the file by their values. -/
def boundScheme (q : QueryFile) : Except Error Scheme := do
  let weighted ← q.weights.foldlM Scheme.addWeight q.sets
  let combined ← match q.formula with
    | some source => weighted.defineFormula source q.bindings
    | none => pure weighted
  q.summarizers.foldlM Scheme.addSummarizer combined

/-- Adds a condition of a file, if its value is a number. -/
def addEntry (query : Query) (e : ConditionEntry) : Except Error Query := do
  let (c, newGroup) ← e.condition
  query.addCondition c newGroup

/-- Fills a query with what a file holds, one call after the other. -/
def fill (q : QueryFile) (query : Query) : Except Error Query := do
  let featured ← q.features.foldlM Query.addFeature query
  let restricted ← q.conditions.foldlM addEntry featured
  let entitled ← q.users.foldlM Query.addUser restricted
  if q.bindings.toList.isEmpty then return entitled else entitled.setVariables q.bindings

/-- A session with the library that does what a file says. A page that is asked for besides comes
before that of the file. -/
def session (q : QueryFile) (minRank maxRanks : Option Nat) (debug : Bool) (s : Snapshot) :
    Except Error QueryResult := do
  let query ← q.fill (← Query.create (← q.boundScheme) s)
  let asked ← query.setPage (minRank <|> q.minRank) (maxRanks <|> q.maxRanks) debug
  asked.evaluate.1

/-- What the command answers for a file. -/
def answer (q : QueryFile) (minRank maxRanks : Option Nat) (debug : Bool) (s : Snapshot) :
    Except Error QueryResult := do
  let query ← (do q.query (← q.scheme) s)
  (query.asked (minRank <|> q.minRank) (maxRanks <|> q.maxRanks) debug).run

variable {q : QueryFile} {scheme : Scheme} {s : Snapshot} {query query' : Query}

/-! ## The same scheme -/

theorem foldl_eq_put {α σ : Type} (put : List α → σ) {step : σ → α → σ}
    (hstep : ∀ l a, step (put l) a = put (l ++ [a])) (l : List α) :
    l.foldl step (put []) = put l := by
  induction l using List.reverseRec with
  | nil => rfl
  | append_singleton before a ih =>
      rw [List.foldl_append, ih, List.foldl_cons, List.foldl_nil, hstep]

theorem sets_eq (q : QueryFile) : q.sets = {
    selection := q.selection
    restriction := q.restriction
    exclusion := q.exclusion } := by
  have hselect : q.selection.foldl Scheme.select {} = { selection := q.selection } :=
    foldl_eq_put (fun l : List String => ({ selection := l } : Scheme)) (fun _ _ => rfl) _
  have hrestrict : q.restriction.foldl Scheme.restrict { selection := q.selection } =
      { selection := q.selection, restriction := q.restriction } :=
    foldl_eq_put (fun l : List String =>
      ({ selection := q.selection, restriction := l } : Scheme)) (fun _ _ => rfl) _
  rw [sets, hselect, hrestrict]
  exact foldl_eq_put (fun l : List String =>
    ({ selection := q.selection, restriction := q.restriction, exclusion := l } : Scheme))
    (fun _ _ => rfl) _

/-- Without a formula there is nothing to bind, and without variables nothing is bound. -/
theorem boundScheme_eq (h : q.formula = none ∨ q.bindings = ∅) : q.boundScheme = q.scheme := by
  unfold boundScheme scheme
  rw [sets_eq]
  cases hformula : q.formula with
  | none => rfl
  | some source =>
      have hbindings : q.bindings = ∅ := h.resolve_left (hformula ▸ Option.some_ne_none source)
      simp only [hbindings]

/-- The formula of the command's scheme has no variables. -/
theorem exists_formula_of_scheme {source : String} (hformula : q.formula = some source)
    (h : q.scheme = .ok scheme) : ∃ f, scheme.formula = some f ∧ f.defaults = ∅ := by
  unfold QueryFile.scheme at h
  rw [hformula] at h
  obtain ⟨weighted, -, hrest⟩ := Fallible.bind_eq_ok.mp h
  obtain ⟨combined, hcombined, hsummarizers⟩ := Fallible.bind_eq_ok.mp hrest
  obtain ⟨f, hf, heq⟩ := Fallible.bind_eq_ok.mp hcombined
  cases heq
  obtain ⟨program, -, heq⟩ := Fallible.bind_eq_ok.mp (Fallible.mapError_eq_ok.mp hf)
  cases heq
  refine ⟨⟨source, program, ∅⟩, ?_, rfl⟩
  refine Fallible.foldlM_keeps (P := fun x => x.formula = some ⟨source, program, ∅⟩)
    (fun x c _ x' hadd hx => ?_) hsummarizers rfl
  obtain ⟨summarizer, -, heq⟩ := Fallible.bind_eq_ok.mp hadd
  cases heq
  exact hx

/-! ## The same query -/

/-- Conditions can be read all at once, before the first one is added. -/
theorem foldlM_addEntry (h : query.Building scheme) (entries : List ConditionEntry) :
    entries.foldlM addEntry query = (do
      let conditions ← entries.mapM ConditionEntry.condition
      conditions.foldlM (fun r (c, newGroup) => r.addCondition c newGroup) query) := by
  induction entries generalizing query with
  | nil => rfl
  | cons e rest ih =>
      rw [List.foldlM_cons, List.mapM_cons]
      cases hcondition : e.condition with
      | error fault => simp [addEntry, hcondition, Bind.bind, Except.bind]
      | ok entry =>
          have hadd : addEntry query e = .ok { query with
              restriction := query.restriction.add entry.1 entry.2 } := by
            rw [addEntry, hcondition]
            exact h.addCondition_eq entry.1 entry.2
          rw [Fallible.bind_of_ok hadd, ih (h.restricted _)]
          cases rest.mapM ConditionEntry.condition with
          | error fault => rfl
          | ok more =>
              show _ = (entry :: more).foldlM
                (fun r (c, newGroup) => r.addCondition c newGroup) query
              rw [List.foldlM_cons, Fallible.bind_of_ok (h.addCondition_eq entry.1 entry.2)]
              rfl

theorem building_of_addEntry {e : ConditionEntry} (h : query.Building scheme)
    (hadd : addEntry query e = .ok query') : query'.Building scheme := by
  obtain ⟨entry, -, hadd⟩ := Fallible.bind_eq_ok.mp hadd
  cases hadd.symm.trans (h.addCondition_eq entry.1 entry.2)
  exact h.restricted _

theorem building_of_features (h : query.Building scheme)
    (hfeatures : q.features.foldlM Query.addFeature query = .ok query') : query'.Building scheme :=
  Fallible.foldlM_keeps (fun _ _ _ _ hadd hq => hq.addFeature hadd) hfeatures h

/-- The query of the command is filled as in a session. -/
theorem query_eq_fill (q : QueryFile) (scheme : Scheme) (s : Snapshot) :
    q.query scheme s = (do q.fill (← Query.create scheme s)) := by
  refine Fallible.bind_congr_ok fun created hcreate => ?_
  refine Fallible.bind_congr_ok fun featured hfeatures => ?_
  have hbuilding := building_of_features (Query.building_create hcreate) hfeatures
  rw [foldlM_addEntry hbuilding, bind_assoc]
  rfl

/-- What fills a query leaves it its scheme; variables were taken by the formula. -/
theorem building_of_fill (h : query.Building scheme) (hfill : q.fill query = .ok query') :
    query'.Building scheme ∧ (q.bindings ≠ ∅ → ∀ f, scheme.formula = some f →
      ∃ values, f.bind q.bindings = .ok values) := by
  obtain ⟨featured, hfeatures, hrest⟩ := Fallible.bind_eq_ok.mp hfill
  obtain ⟨restricted, hconditions, hrest⟩ := Fallible.bind_eq_ok.mp hrest
  obtain ⟨entitled, husers, hlast⟩ := Fallible.bind_eq_ok.mp hrest
  have hrestricted : restricted.Building scheme :=
    Fallible.foldlM_keeps (fun _ _ _ _ hadd hq => building_of_addEntry hq hadd) hconditions
      (building_of_features h hfeatures)
  have hentitled : entitled.Building scheme :=
    Fallible.foldlM_keeps (fun _ _ _ _ hadd hq => hq.addUser hadd) husers hrestricted
  split at hlast
  · next hempty =>
      cases hlast
      exact ⟨hentitled, fun hne => absurd (SortedMap.ext (List.isEmpty_iff.mp hempty)) hne⟩
  · refine ⟨hentitled.setVariables hlast, fun _ f hf => ?_⟩
    rw [← hentitled.scheme] at hf
    exact (Query.setVariables_eq_ok hlast).2 f hf

/-! ## The same answer -/

/-- Setting the page of a query that may be changed, and evaluating it, is evaluating it with that
page. -/
theorem session_eq (q : QueryFile) (minRank maxRanks : Option Nat) (debug : Bool) (s : Snapshot) :
    q.session minRank maxRanks debug s = (do
      let query ← (do q.query (← q.boundScheme) s)
      (query.asked (minRank <|> q.minRank) (maxRanks <|> q.maxRanks) debug).run) := by
  unfold session
  simp only [query_eq_fill, bind_assoc]
  refine Fallible.bind_congr_ok fun scheme _ => ?_
  refine Fallible.bind_congr_ok fun created hcreate => ?_
  refine Fallible.bind_congr_ok fun query hfill => ?_
  have hbuilding := (building_of_fill (Query.building_create hcreate) hfill).1
  rw [Fallible.bind_of_ok (hbuilding.setPage_eq _ _ _), Query.evaluate_fst]

/-- Whether a file has a formula and variables for it. -/
def bindsFormula (q : QueryFile) : Bool := q.formula.isSome && !q.bindings.toList.isEmpty

theorem answer_eq_session (h : q.bindsFormula = false) (minRank maxRanks : Option Nat)
    (debug : Bool) (s : Snapshot) :
    q.answer minRank maxRanks debug s = q.session minRank maxRanks debug s := by
  have hunbound : q.formula = none ∨ q.bindings = ∅ := by
    rcases Bool.and_eq_false_iff.mp h with hformula | hbindings
    · exact .inl (by simpa using hformula)
    · refine .inr (SortedMap.ext (List.isEmpty_iff.mp ?_))
      simpa using hbindings
  rw [session_eq, boundScheme_eq hunbound]
  rfl

/-- A formula that was compiled without variables refuses those of the file, if not something before
it does. -/
theorem exists_error_of_answer (h : q.bindsFormula = true) (minRank maxRanks : Option Nat)
    (debug : Bool) (s : Snapshot) : ∃ e, q.answer minRank maxRanks debug s = .error e := by
  obtain ⟨hformula, hbindings⟩ := Bool.and_eq_true_iff.mp h
  obtain ⟨source, hsource⟩ := Option.isSome_iff_exists.mp hformula
  have hne : q.bindings ≠ ∅ := by
    rintro heq
    rw [heq] at hbindings
    cases hbindings
  rw [Fallible.exists_error_iff]
  rintro ⟨result, hanswer⟩
  obtain ⟨query, hquery, -⟩ := Fallible.bind_eq_ok.mp hanswer
  obtain ⟨scheme, hscheme, hquery⟩ := Fallible.bind_eq_ok.mp hquery
  rw [query_eq_fill] at hquery
  obtain ⟨created, hcreate, hfill⟩ := Fallible.bind_eq_ok.mp hquery
  obtain ⟨f, hf, hdefaults⟩ := exists_formula_of_scheme hsource hscheme
  obtain ⟨values, hvalues⟩ := (building_of_fill (Query.building_create hcreate) hfill).2 hne f hf
  obtain ⟨e, he⟩ := Formula.exists_error_of_bind hdefaults hne
  rw [hvalues] at he
  cases he

end QueryFile

/-! ## The command -/

namespace Job

variable {α β : Type}

theorem run_ofExcept (r : Except Error α) (b : Bench) : (ofExcept r : Job α).run b = (r, b) := by
  cases r <;> rfl

theorem run_onFiles (work : Filing α) (b : Bench) : (onFiles work).run b =
    ((work.run b.files).1, { b with files := (work.run b.files).2 }) :=
  Job.run_ofExcept _ _

/-- Work goes on from what the work before it has answered and left. -/
theorem run_bind_fst {x : Job α} {r : Except Error α} {b b' : Bench} (h : x.run b = (r, b'))
    (f : α → Job β) : ((x >>= f).run b).1 = (do ((f (← r)).run b').1) := by
  rw [ExceptT.run_bind]
  simp only [Bind.bind, StateT.bind, h]
  cases r <;> rfl

end Job

/-- The text of a file. -/
def textOf (file : String) (bytes : List UInt8) : Except Error String :=
  match Wire.textOfBytes? bytes with
  | some text => .ok text
  | none => .error (.io s!"{file} is not UTF-8")

/-- What a query is about: the snapshot that the storage is opened with, and what the file describes
then. -/
def Bench.subject (b : Bench) (config : Config) (file : String) :
    Except Error (Snapshot × QueryFile) := do
  let (opened, files) := (LocatedStore.open config).run b.files
  let s := (← opened).store.current
  let bytes ← (files.read file).mapError PathFault.toError
  return (s, ← QueryFile.read (← textOf file bytes))

theorem run_report_of_run (query : Query) (id? : Nat → Option String) (b : Bench) :
    ((do return .ranking (← ofExcept query.run) id? : Job Report).run b).1 =
      query.run.map (Report.ranking · id?) := by
  rw [Job.run_bind_fst (Job.run_ofExcept query.run b)]
  cases query.run <;> rfl

/-- The report on a query that is built, after its text if that is wanted. -/
theorem run_report (query : Query) (dump : Bool) (id? : Nat → Option String) (b : Bench) :
    ((do
      if dump then modify fun bench => { bench with notes := bench.notes ++ query.display }
      return .ranking (← ofExcept query.run) id? : Job Report).run b).1 =
      query.run.map (Report.ranking · id?) := by
  cases dump with
  | false =>
      rw [if_neg (Bool.false_ne_true)]
      exact run_report_of_run query id? b
  | true =>
      let noted : Bench := { b with notes := b.notes ++ query.display }
      have hnoted : (modify fun bench => { bench with notes := bench.notes ++ query.display } :
          Job PUnit).run b = (.ok ⟨⟩, noted) := rfl
      rw [if_pos rfl, Job.run_bind_fst hnoted]
      exact run_report_of_run query id? noted

theorem run_evaluateQuery (b : Bench) (config : Config) (file : String)
    (minRank maxRanks : Option Nat) (debug dump : Bool) :
    ((evaluateQuery config file minRank maxRanks debug dump).run b).1 = (do
      let (s, q) ← b.subject config file
      (q.answer minRank maxRanks debug s).map (Report.ranking · s.id?)) := by
  rcases hopened : (LocatedStore.open config).run b.files with ⟨opened, files⟩
  have hstore : (openStore config).run b = (opened, { b with files }) := by
    rw [openStore, Job.run_onFiles, hopened]
  have hbytes : (readFile file).run { b with files } =
      ((files.read file).mapError PathFault.toError, { b with files }) :=
    Job.run_ofExcept _ _
  unfold evaluateQuery Bench.subject QueryFile.answer
  rw [Job.run_bind_fst hstore, hopened]
  simp only [bind_assoc, pure_bind]
  refine Fallible.bind_congr_ok fun l _ => ?_
  rw [Job.run_bind_fst hbytes]
  refine Fallible.bind_congr_ok fun bytes _ => ?_
  rw [Job.run_bind_fst (Job.run_ofExcept _ _)]
  refine Fallible.bind_congr_ok fun text _ => ?_
  rw [Job.run_bind_fst (Job.run_ofExcept _ _)]
  refine Fallible.bind_congr_ok fun q _ => ?_
  rw [Job.run_bind_fst (Job.run_ofExcept _ _)]
  simp only [bind_assoc, Fallible.map_bind]
  refine Fallible.bind_congr_ok fun scheme _ => ?_
  refine Fallible.bind_congr_ok fun query _ => ?_
  exact run_report (query.asked _ _ debug) dump _ _

/-- The report of the session that a query file describes. -/
def Bench.sessionReport (b : Bench) (config : Config) (file : String)
    (minRank maxRanks : Option Nat) (debug : Bool) : Except Error Report := do
  let (s, q) ← b.subject config file
  (q.session minRank maxRanks debug s).map (Report.ranking · s.id?)

/-- A file that describes a query with a formula, and variables for it. -/
def Bench.BindsFormula (b : Bench) (config : Config) (file : String) : Prop :=
  ∃ s q, b.subject config file = .ok (s, q) ∧ q.bindsFormula = true

/-- The command answers a query file as the session with the library, errors included, unless the
file has a formula and variables for it. Such a file it refuses, so it agrees with the session
exactly if that fails too. -/
theorem query_command_agrees_iff (b : Bench) (config : Config) (file : String)
    (minRank maxRanks : Option Nat) (debug dump : Bool) :
    let answered := ((evaluateQuery config file minRank maxRanks debug dump).run b).1
    let expected := b.sessionReport config file minRank maxRanks debug
    (¬ b.BindsFormula config file → answered = expected) ∧
    (b.BindsFormula config file → ∃ e, answered = .error e) ∧
    (answered.toOption = expected.toOption ↔
      ¬ b.BindsFormula config file ∨ expected.toOption = none) := by
  intro answered expected
  have hanswered : answered = _ := run_evaluateQuery b config file minRank maxRanks debug dump
  have hagrees : ¬ b.BindsFormula config file → answered = expected := by
    intro hnot
    rw [hanswered]
    refine Fallible.bind_congr_ok fun (s, q) hsubject => ?_
    have hunbound : q.bindsFormula = false := by
      by_contra hbinds
      exact hnot ⟨s, q, hsubject, by simpa using hbinds⟩
    dsimp only
    rw [QueryFile.answer_eq_session hunbound]
  have hrefuses : b.BindsFormula config file → ∃ e, answered = .error e := by
    rintro ⟨s, q, hsubject, hbinds⟩
    obtain ⟨e, he⟩ := QueryFile.exists_error_of_answer hbinds minRank maxRanks debug s
    refine ⟨e, ?_⟩
    rw [hanswered, Fallible.bind_of_ok hsubject]
    dsimp only
    rw [he]
    rfl
  refine ⟨hagrees, hrefuses, ?_⟩
  constructor
  · intro heq
    by_cases hbinds : b.BindsFormula config file
    · obtain ⟨e, he⟩ := hrefuses hbinds
      rw [he] at heq
      exact .inr heq.symm
    · exact .inl hbinds
  · rintro (hnot | hnone)
    · rw [hagrees hnot]
    · by_cases hbinds : b.BindsFormula config file
      · obtain ⟨e, he⟩ := hrefuses hbinds
        rw [he, hnone]
        rfl
      · rw [hagrees hbinds]

/-! ## A file with a formula -/

/-- The configuration of a storage beside a query file. -/
def besideConfig : Config := { path := some "s" }

/-- A storage of one document beside a query file. -/
def deskWith (query : String) : Bench :=
  ((do
    let l ← onFiles (LocatedStore.create besideConfig)
    let (_, l) ← commitStaged 7
      (·.stageDocument false "a" { search := [⟨"word", "x", 1⟩] } false) l
    closeStore l : Job Unit).run
      { files := { entries := .ofList [("q", .file (Wire.textBytes query))] } }).2

/-- A query file that looks for a word; it ends with a formula and what comes behind that. -/
def fileText (rest : String) : String :=
  "\x7b\"selection\":[\"f\"],\"features\":[\x7b\"set\":\"f\",\"expression\":" ++
    "\x7b\"term\":\x7b\"type\":\"word\",\"value\":\"x\"\x7d\x7d\x7d]," ++
    "\"weighting\":[\x7b\"name\":\"constant\"\x7d],\"formula\":" ++ rest ++ "\x7d"

/-- A file whose page starts behind the only document. -/
def pagedDesk : Bench := deskWith (fileText "\"_0*2\",\"min_rank\":1")

/-- A file that gives the variable of its formula a value. -/
def boundDesk : Bench := deskWith (fileText "\"_0*b\",\"variables\":\x7b\"b\":2\x7d")

/-- The counts of a result, and the numbers and weights of its page. -/
def countsAndPage (r : QueryResult) : (Nat × Nat) × List (Nat × Double) :=
  ((r.ranked, r.visited), r.ranks.map fun rank => (rank.number, rank.weight))

set_option maxRecDepth 20000 in
/-- The page that is asked for comes before that of the file. -/
theorem query_command_agrees_iff_paged :
    ∃ s q r, pagedDesk.subject besideConfig "q" = .ok (s, q) ∧ q.minRank = some 1 ∧
      q.session (some 0) none false s = .ok r ∧ countsAndPage r = ((1, 1), [(1, 2.0)]) ∧
      ((evaluateQuery besideConfig "q" (some 0) none false true).run pagedDesk).1 =
        .ok (.ranking r s.id?) := by
  obtain ⟨⟨s, q⟩, hsubject, hfound⟩ := Fallible.exists_of_toOption_map
    (show (pagedDesk.subject besideConfig "q").toOption.map (fun (s, q) =>
        ((q.bindsFormula, q.minRank),
          (q.session (some 0) none false s).toOption.map countsAndPage)) =
      some ((false, some 1), some ((1, 1), [(1, 2.0)])) by decide +kernel)
  obtain ⟨hfile, hpage⟩ := Prod.mk.inj hfound
  obtain ⟨hunbound, hminRank⟩ := Prod.mk.inj hfile
  obtain ⟨r, hsession, hr⟩ := Fallible.exists_of_toOption_map hpage
  have hnot : ¬ pagedDesk.BindsFormula besideConfig "q" := by
    rintro ⟨s', q', hsubject', hbinds⟩
    cases hsubject.symm.trans hsubject'
    rw [hunbound] at hbinds
    cases hbinds
  refine ⟨s, q, r, hsubject, hminRank, hsession, hr, ?_⟩
  rw [(query_command_agrees_iff _ _ _ _ _ _ _).1 hnot, Bench.sessionReport,
    Fallible.bind_of_ok hsubject]
  dsimp only
  rw [hsession]
  rfl

set_option maxRecDepth 20000 in
/-- The session finds the document and doubles its weight; the command refuses the file. -/
theorem given_variable_refused :
    ∃ s q r, boundDesk.subject besideConfig "q" = .ok (s, q) ∧
      q.session none none false s = .ok r ∧ countsAndPage r = ((1, 1), [(1, 2.0)]) ∧
      ∃ e, ((evaluateQuery besideConfig "q" none none false false).run boundDesk).1 = .error e := by
  obtain ⟨⟨s, q⟩, hsubject, hfound⟩ := Fallible.exists_of_toOption_map
    (show (boundDesk.subject besideConfig "q").toOption.map (fun (s, q) =>
        (q.bindsFormula, (q.session none none false s).toOption.map countsAndPage)) =
      some (true, some ((1, 1), [(1, 2.0)])) by decide +kernel)
  obtain ⟨hbinds, hpage⟩ := Prod.mk.inj hfound
  obtain ⟨r, hsession, hr⟩ := Fallible.exists_of_toOption_map hpage
  obtain ⟨e, he⟩ := QueryFile.exists_error_of_answer hbinds none none false s
  refine ⟨s, q, r, hsubject, hsession, hr, e, ?_⟩
  rw [run_evaluateQuery, Fallible.bind_of_ok hsubject]
  dsimp only
  rw [he]
  rfl

end Console

end Concordance
