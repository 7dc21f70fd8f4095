import Concordance.Query.Phrase
import Mathlib.Data.List.Chain

/-!
# Marked text

A text is written token by token, and whether a mark is open is carried from one token to the next.
What comes out is best said by runs: the tokens fall into the longest runs that are covered or not
covered (`AreRuns`), a covered run is written between marks (`writeRun`), and all runs are joined by
blanks (`renderTokens_eq`). So marks are closed before the next one is opened.
-/

namespace Concordance.Phrase

variable {mark : Marker} {hit : Nat → Bool} {covered : ForwardEntry → Bool}
  {tokens run rest : List ForwardEntry} {runs : List (List ForwardEntry)}

/-! ## Runs -/

/-- The longest runs of tokens that are all covered, or all not covered. -/
structure AreRuns (covered : ForwardEntry → Bool) (tokens : List ForwardEntry)
    (runs : List (List ForwardEntry)) : Prop where
  joined : runs.flatten = tokens
  nonempty : ∀ run ∈ runs, run ≠ []
  alike : ∀ run ∈ runs, ∀ t ∈ run, ∀ u ∈ run, covered t = covered u
  longest : runs.IsChain fun a b => ∀ t ∈ a, ∀ u ∈ b, covered t ≠ covered u

/-- A token that is like the first run belongs to it. -/
theorem AreRuns.cons_alike {t u : ForwardEntry} (h : AreRuns covered tokens (run :: runs))
    (hu : u ∈ run) (hsame : covered t = covered u) :
    AreRuns covered (t :: tokens) ((t :: run) :: runs) := by
  obtain ⟨-, hnonempty⟩ := List.forall_mem_cons.mp h.nonempty
  obtain ⟨halike, hrest⟩ := List.forall_mem_cons.mp h.alike
  have hall : ∀ x ∈ t :: run, covered x = covered u :=
    List.forall_mem_cons.mpr ⟨hsame, fun x hx => halike x hx u hu⟩
  refine ⟨by rw [← h.joined]; rfl,
    List.forall_mem_cons.mpr ⟨List.cons_ne_nil _ _, hnonempty⟩,
    List.forall_mem_cons.mpr ⟨fun x hx y hy => (hall x hx).trans (hall y hy).symm, hrest⟩,
    h.longest.imp_head ?_⟩
  intro next hdiffer x hx y hy
  rw [hall x hx]
  exact hdiffer u hu y hy

/-- A token that differs from the first run is a run of its own. -/
theorem AreRuns.cons_other {t : ForwardEntry} (h : AreRuns covered tokens runs)
    (hdiffer : ∀ run ∈ runs.head?, ∀ u ∈ run, covered t ≠ covered u) :
    AreRuns covered (t :: tokens) ([t] :: runs) := by
  refine ⟨by rw [← h.joined]; rfl,
    List.forall_mem_cons.mpr ⟨List.cons_ne_nil _ _, h.nonempty⟩,
    List.forall_mem_cons.mpr ⟨by simp, h.alike⟩,
    List.isChain_cons.mpr ⟨?_, h.longest⟩⟩
  intro run hrun x hx
  rw [List.mem_singleton.mp hx]
  exact hdiffer run hrun

/-- All tokens fall into runs. -/
theorem exists_runs (covered : ForwardEntry → Bool) (tokens : List ForwardEntry) :
    ∃ runs, AreRuns covered tokens runs := by
  induction tokens with
  | nil => exact ⟨[], rfl, nofun, nofun, .nil⟩
  | cons t tokens ih =>
      obtain ⟨runs, hruns⟩ := ih
      cases runs with
      | nil => exact ⟨_, hruns.cons_other nofun⟩
      | cons run runs =>
          obtain ⟨u, hu⟩ := List.exists_mem_of_ne_nil run (hruns.nonempty run List.mem_cons_self)
          by_cases hsame : covered t = covered u
          · exact ⟨_, hruns.cons_alike hu hsame⟩
          · refine ⟨_, hruns.cons_other ?_⟩
            rintro _ ⟨⟩ x hx
            rwa [hruns.alike run List.mem_cons_self x hx u hu]

/-- The text of a run: a covered one stands between marks. -/
def writeRun (mark : Marker) (covered : ForwardEntry → Bool) (run : List ForwardEntry) : String :=
  let text := " ".intercalate (run.map (·.value))
  if run.all covered then mark.opening ++ text ++ mark.closing else text

/-! ## Writing -/

/-- Words behind other ones. -/
def following (words : List String) : String :=
  words.foldr (fun word text => " " ++ word ++ text) ""

@[simp] theorem following_nil : following [] = "" := rfl

@[simp] theorem following_cons (word : String) (words : List String) :
    following (word :: words) = " " ++ word ++ following words := rfl

theorem intercalate_cons (word : String) (words : List String) :
    " ".intercalate (word :: words) = word ++ following words := by
  induction words generalizing word with
  | nil => simp
  | cons next words ih =>
      rw [String.intercalate_cons_cons, ih, following_cons]
      simp only [String.append_assoc]

/-- While nothing changes, words are written. -/
theorem renderFrom_append {marked : Bool} (h : ∀ t ∈ run, hit t.position = marked) :
    renderFrom mark hit marked (run ++ rest) =
      following (run.map (·.value)) ++ renderFrom mark hit marked rest := by
  induction run with
  | nil => simp
  | cons t run ih =>
      obtain ⟨ht, hrun⟩ := List.forall_mem_cons.mp h
      rw [List.cons_append, renderFrom, ht, ih hrun, List.map_cons, following_cons]
      simp [String.append_assoc]

/-- The text of a run, by its first token. -/
theorem writeRun_cons {t : ForwardEntry} (h : ∀ u ∈ run, covered t = covered u) :
    writeRun mark covered (t :: run) =
      (if covered t then mark.opening else "") ++ t.value ++ following (run.map (·.value)) ++
        (if covered t then mark.closing else "") := by
  have hall : (t :: run).all covered = covered t := by
    cases ht : covered t with
    | false => simp [ht]
    | true => simpa [ht] using fun u hu => (h u hu).symm.trans ht
  unfold writeRun
  rw [hall, List.map_cons, intercalate_cons]
  split <;> simp [String.append_assoc]

theorem AreRuns.tail (h : AreRuns covered tokens (run :: runs)) :
    AreRuns covered runs.flatten runs :=
  ⟨rfl, fun r hr => h.nonempty r (List.mem_cons_of_mem _ hr),
    fun r hr => h.alike r (List.mem_cons_of_mem _ hr), h.longest.tail⟩

/-- Behind a token the runs are written, after the mark is closed if it is open. -/
theorem renderFrom_eq {marked : Bool} (h : AreRuns (fun t => hit t.position) tokens runs)
    (hchange : ∀ run ∈ runs.head?, ∀ t ∈ run, hit t.position = !marked) :
    renderFrom mark hit marked tokens = (if marked then mark.closing else "") ++
      following (runs.map (writeRun mark fun t => hit t.position)) := by
  induction runs generalizing tokens marked with
  | nil =>
      rw [← h.joined]
      simp [renderFrom]
  | cons run runs ih =>
      obtain ⟨t, run, rfl⟩ := List.exists_cons_of_ne_nil (h.nonempty run List.mem_cons_self)
      have halike := h.alike _ List.mem_cons_self t List.mem_cons_self
      have ht : hit t.position = !marked := hchange _ rfl t List.mem_cons_self
      have hrun : ∀ u ∈ run, hit u.position = !marked := by
        intro u hu
        rw [← ht]
        exact (halike u (List.mem_cons_of_mem _ hu)).symm
      have hnext : ∀ next ∈ runs.head?, ∀ u ∈ next, hit u.position = !!marked := by
        intro next hnext u hu
        have hdiffer := List.isChain_cons.mp h.longest |>.1 next hnext t List.mem_cons_self u hu
        rw [ht] at hdiffer
        cases marked <;> simpa using hdiffer
      rw [← h.joined, List.flatten_cons, List.cons_append, renderFrom, ht, renderFrom_append hrun,
        ih h.tail hnext, List.map_cons, following_cons,
        writeRun_cons fun u hu => halike u (List.mem_cons_of_mem _ hu), ht]
      cases marked <;> simp [String.append_assoc]

/-- Tokens are written run by run, with blanks between the runs. -/
theorem renderTokens_eq (h : AreRuns (fun t => hit t.position) tokens runs) :
    renderTokens mark hit tokens =
      " ".intercalate (runs.map (writeRun mark fun t => hit t.position)) := by
  cases runs with
  | nil =>
      rw [← h.joined]
      rfl
  | cons run runs =>
      obtain ⟨t, run, rfl⟩ := List.exists_cons_of_ne_nil (h.nonempty run List.mem_cons_self)
      have halike := h.alike _ List.mem_cons_self t List.mem_cons_self
      have hnext : ∀ next ∈ runs.head?, ∀ u ∈ next, hit u.position = !hit t.position := by
        intro next hnext u hu
        have hdiffer := List.isChain_cons.mp h.longest |>.1 next hnext t List.mem_cons_self u hu
        cases ht : hit t.position <;> simpa [ht] using hdiffer
      rw [← h.joined, List.flatten_cons, List.cons_append, renderTokens,
        renderFrom_append fun u hu => (halike u (List.mem_cons_of_mem _ hu)).symm,
        renderFrom_eq h.tail hnext, List.map_cons, intercalate_cons,
        writeRun_cons fun u hu => halike u (List.mem_cons_of_mem _ hu)]
      simp only [String.append_assoc]

end Concordance.Phrase
