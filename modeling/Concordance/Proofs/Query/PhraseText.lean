import Concordance.Proofs.Query.Excerpt
import Concordance.Proofs.Query.Markup
import Concordance.Proofs.Query.Plan
import Concordance.Query.Summary

/-!
# The text of a phrase

What a phrase summarizer shows of a document, computed by places (`PhraseSettings.presentSteps`): every
look at a place, every piece that is cut out and every difference is checked. For tokens in order all of
them succeed, and what comes out is what is shown. A phrase has the tokens of its window and no more
than it may have, in runs of which those that a hit covers are marked (`phrase_is_well_formed`).

The one difference that is not guarded is the last position of the title. No match ends at position 0,
since every match starts behind it (`one_le_stop_of_titleSpan?`).
-/

namespace Concordance

theorem Span.one_le_stop {s : Span} (h : 1 ≤ s.start) : 1 ≤ s.stop :=
  Nat.le_min.mpr ⟨Nat.le_add_right_of_le h, by decide⟩

namespace PhraseSettings

open Phrase

variable {p : PhraseSettings} {hits : List Hit} {title : Option Span} {doc : StoredDocument}
  {tokens : List ForwardEntry}

theorem one_le_stop_of_titleSpan? {features : List PlannedFeature} {number : Nat} {span : Span}
    (h : titleSpan? features number = some span) : 1 ≤ span.stop := by
  have hmem := List.mem_mergeSort.mp (List.mem_of_mem_head? h)
  obtain ⟨f, -, hfirst⟩ := List.mem_filterMap.mp hmem
  exact Span.one_le_stop (Plan.one_le_start (List.mem_of_mem_head? hfirst))

/-! ## Steps with checked places -/

/-- The window that starts with the hit at a place. -/
def windowSteps (size : Nat) (hits : List Hit) (place : Nat) : Option Window := do
  let first ← hits[place]?
  let behind ← if place ≤ hits.length then some (hits.drop place) else none
  some (windowAt size first behind.tail)

/-- The best window, tried place by place. -/
def bestWindowSteps (p : PhraseSettings) (hits : List Hit) : Option (Option Window) := do
  let windows ← (List.range hits.length).mapM (windowSteps (p.windowSize % Wire.word32) hits)
  some ((best? windows).filter fun w => max p.cardinality 1 ≤ w.features)

/-- The hits that start in a window. -/
def hitsIn (w : Window) (hits : List Hit) : List Hit :=
  hits.filter fun h => w.start ≤ h.span.start && h.span.start < w.stop

/-- Writes the tokens from one place to another one. -/
def renderSteps (p : PhraseSettings) (hits : List Hit) (tokens : List ForwardEntry)
    (first last : Nat) : Option String := do
  let shown ← slice? tokens first last
  some (render p.matchMark p.floatingMark hits ⟨shown, 0 < first, last + 1 < tokens.length⟩)

/-- The start of a document. -/
def openingSteps (p : PhraseSettings) (tokens : List ForwardEntry) : Option (List SummaryElement) :=
  if tokens.isEmpty then some []
  else do
    let last ← walkOn p.sentenceSize tokens 0 0
    let value ← renderSteps p [] tokens 0 last
    some [{ name := p.openingName, value }]

/-- The title of a document, if a phrase that starts at a position belongs to it. -/
def titleSteps (p : PhraseSettings) (doc : StoredDocument) (title : Option Span)
    (phraseStart : Nat) : Option (List SummaryElement) :=
  match title with
  | none => some []
  | some span =>
    if span.stop ≤ phraseStart then do
      let distance ← phraseStart.psub span.stop
      if distance ≤ p.paragraphSize then do
        let last ← span.stop.psub 1
        let value := doc.textBetween p.type span.start last
        some (if value.isEmpty then [] else [{ name := p.titleName, value }])
      else some []
    else some []

/-- What is shown of a document that has some hits. -/
def presentSteps (p : PhraseSettings) (hits : List Hit) (title : Option Span)
    (doc : StoredDocument) : Option (List SummaryElement) := do
  let tokens := doc.forwardTerms p.type
  match ← bestWindowSteps p hits with
  | none => openingSteps p tokens
  | some w =>
    match ← rangeSteps p.sentenceSize w tokens with
    | none => openingSteps p tokens
    | some (first, last) => do
      let start ← tokens[first]?
      let titleElements ← titleSteps p doc title start.position
      let value ← renderSteps p (hitsIn w hits) tokens first last
      some (titleElements ++ [{
        name := p.phraseName
        value
        weight := Double.ofNat (distinctFeatures (hitsIn w hits)) }])

/-! ## No step fails -/

/-- Tried place by place, the windows are those of the hits. -/
theorem mapM_windowSteps (size : Nat) (hits : List Hit) :
    (List.range hits.length).mapM (windowSteps size hits) = some (windows size hits) := by
  have hstep : ∀ rest before : List Hit, hits = before ++ rest →
      (List.range' before.length rest.length).mapM (windowSteps size hits) =
        some (windows size rest) := by
    intro rest
    induction rest with
    | nil => exact fun before _ => rfl
    | cons h rest ih =>
        intro before hsplit
        have hget : hits[before.length]? = some h := by
          rw [hsplit, List.getElem?_append_right (Nat.le_refl _), Nat.sub_self]
          rfl
        have hdrop : hits.drop before.length = h :: rest := by
          rw [hsplit, List.drop_left]
        have hle : before.length ≤ hits.length := by
          rw [hsplit, List.length_append]
          exact Nat.le_add_right _ _
        have hwindow : windowSteps size hits before.length = some (windowAt size h rest) := by
          rw [windowSteps, hget, Option.bind_eq_bind, Option.bind_some, if_pos hle, hdrop]
          rfl
        have hrest := ih (before ++ [h]) (by rw [hsplit, List.append_assoc]; rfl)
        rw [List.length_append, List.length_singleton] at hrest
        rw [List.length_cons, List.range'_succ, List.mapM_cons, hwindow, hrest]
        rfl
  rw [List.range_eq_range']
  exact hstep hits [] rfl

theorem bestWindowSteps_eq (p : PhraseSettings) (hits : List Hit) :
    bestWindowSteps p hits = some (p.bestWindow? hits) := by
  rw [bestWindowSteps, mapM_windowSteps]
  rfl

theorem renderSteps_eq {e : Excerpt} {first last : Nat} (h : e.Shows tokens first last) :
    renderSteps p hits tokens first last =
      some (render p.matchMark p.floatingMark hits e) := by
  obtain ⟨shown, cutBefore, cutBehind⟩ := e
  rw [renderSteps, h.slice?, Option.bind_eq_bind, Option.bind_some, ← h.before, ← h.behind]

theorem openingSteps_eq (p : PhraseSettings) (tokens : List ForwardEntry) :
    openingSteps p tokens = some (p.openingElement tokens) := by
  unfold openingSteps openingElement
  by_cases hnil : tokens = []
  · subst hnil
    rfl
  · obtain ⟨last, e, hwalk, hopening, hshows⟩ := opening?_spec p.sentenceSize hnil
    rw [if_neg (by simpa using hnil), hwalk, hopening, Option.bind_eq_bind, Option.bind_some,
      renderSteps_eq hshows]
    rfl

theorem titleSteps_eq (p : PhraseSettings) (doc : StoredDocument) (phraseStart : Nat)
    (htitle : ∀ span, title = some span → 1 ≤ span.stop) :
    titleSteps p doc title phraseStart = some (p.titleElement doc title phraseStart) := by
  cases title with
  | none => rfl
  | some span =>
      unfold titleSteps titleElement
      dsimp only
      by_cases hbehind : span.stop ≤ phraseStart
      · rw [if_pos hbehind, Nat.psub_eq_sub hbehind, Nat.psub_eq_sub (htitle span rfl),
          Option.bind_eq_bind, Option.bind_some]
        by_cases hnear : phraseStart - span.stop ≤ p.paragraphSize
        · rw [if_pos hnear, if_pos ⟨hbehind, hnear⟩]
          rfl
        · rw [if_neg hnear, if_neg fun h => hnear h.2]
      · rw [if_neg hbehind, if_neg fun h => hbehind h.1]

/-! ## What is shown -/

/-- The text of tokens in runs between two places: the runs are joined by blanks, the covered ones marked,
and there are marks where tokens are left out. -/
def phraseText (p : PhraseSettings) (covered : ForwardEntry → Bool) (tokens : List ForwardEntry)
    (first last : Nat) (runs : List (List ForwardEntry)) : String :=
  (if 0 < first then p.floatingMark.opening else "") ++
    " ".intercalate (runs.map (writeRun p.matchMark covered)) ++
    (if last + 1 < tokens.length then p.floatingMark.closing else "")

theorem render_eq (p : PhraseSettings) {e : Excerpt} {first last : Nat}
    {runs : List (List ForwardEntry)} (h : e.Shows tokens first last)
    (hruns : AreRuns (fun t => covers hits t.position) e.tokens runs) :
    render p.matchMark p.floatingMark hits e =
      phraseText p (fun t => covers hits t.position) tokens first last runs := by
  rw [render, renderTokens_eq hruns, h.before, h.behind, phraseText]
  simp only [decide_eq_true_eq]

/-- Without a window, and behind all tokens, the start of the document is shown. -/
theorem present_opening (title : Option Span) (h : ∀ w, p.bestWindow? hits = some w →
    rangeSteps p.sentenceSize w (doc.forwardTerms p.type) = some none ∧
      excerpt? p.sentenceSize w (doc.forwardTerms p.type) = none) :
    p.present hits title doc = p.openingElement (doc.forwardTerms p.type) ∧
      p.presentSteps hits title doc = some (p.openingElement (doc.forwardTerms p.type)) := by
  unfold present presentSteps
  rw [bestWindowSteps_eq, Option.bind_eq_bind, Option.bind_some]
  cases hbest : p.bestWindow? hits with
  | none => exact ⟨rfl, openingSteps_eq p _⟩
  | some w =>
      obtain ⟨hrange, hexcerpt⟩ := h w hbest
      dsimp only
      rw [hrange, hexcerpt]
      exact ⟨rfl, openingSteps_eq p _⟩

/-- From a window the phrase is shown, behind the title if that is near. -/
theorem present_phrase (htitle : ∀ span, title = some span → 1 ≤ span.stop) {w : Window}
    {first last : Nat} {e : Excerpt} (hbest : p.bestWindow? hits = some w)
    (hrange : rangeSteps p.sentenceSize w (doc.forwardTerms p.type) = some (some (first, last)))
    (hexcerpt : excerpt? p.sentenceSize w (doc.forwardTerms p.type) = some e)
    (hshows : e.Shows (doc.forwardTerms p.type) first last) {start : ForwardEntry}
    (hstart : (doc.forwardTerms p.type)[first]? = some start) :
    p.present hits title doc = p.titleElement doc title start.position ++ [{
        name := p.phraseName
        value := render p.matchMark p.floatingMark (hitsIn w hits) e
        weight := Double.ofNat (distinctFeatures (hitsIn w hits)) }] ∧
      p.presentSteps hits title doc = some (p.present hits title doc) := by
  have hhead : e.tokens.head? = some start := by
    rw [hshows.shown, List.head?_drop, List.getElem?_take_of_lt (Nat.lt_succ_of_le hshows.ordered),
      hstart]
  have hpresent : p.present hits title doc = p.titleElement doc title start.position ++ [{
      name := p.phraseName
      value := render p.matchMark p.floatingMark (hitsIn w hits) e
      weight := Double.ofNat (distinctFeatures (hitsIn w hits)) }] := by
    unfold present
    dsimp only
    rw [hbest]
    dsimp only
    rw [hexcerpt]
    dsimp only
    rw [hhead]
    rfl
  refine ⟨hpresent, ?_⟩
  rw [hpresent]
  unfold presentSteps
  rw [bestWindowSteps_eq, hbest, Option.bind_eq_bind, Option.bind_some]
  dsimp only
  rw [hrange, Option.bind_eq_bind, Option.bind_some]
  dsimp only
  rw [hstart, Option.bind_eq_bind, Option.bind_some, titleSteps_eq p doc _ htitle, Option.bind_eq_bind,
    Option.bind_some, renderSteps_eq hshows]
  rfl

/-- What is shown of a document whose tokens are in order, whatever hits there are: all steps with
checked places succeed and come to it. If there is a window and a token in it or behind it, the phrase is
shown, behind the title if that is near. Its text is that of the tokens between two places, in runs that
the hits of the window cover or do not cover. Otherwise the start of the document is shown. -/
theorem phrase_is_well_formed (p : PhraseSettings) (hits : List Hit) (title : List PlannedFeature)
    (number : Nat) (doc : StoredDocument) (horder : InOrder (doc.forwardTerms p.type)) :
    p.presentSteps hits (titleSpan? title number) doc =
        some (p.present hits (titleSpan? title number) doc) ∧
      (∀ w, p.bestWindow? hits = some w →
        (∃ t ∈ doc.forwardTerms p.type, w.start ≤ t.position) →
        ∃ first last runs start,
          IsRange p.sentenceSize w (doc.forwardTerms p.type) first last ∧
          AreRuns (fun t => covers (hitsIn w hits) t.position)
            (((doc.forwardTerms p.type).take (last + 1)).drop first) runs ∧
          (doc.forwardTerms p.type)[first]? = some start ∧
          p.present hits (titleSpan? title number) doc =
            p.titleElement doc (titleSpan? title number) start.position ++ [{
              name := p.phraseName
              value := p.phraseText (fun t => covers (hitsIn w hits) t.position)
                (doc.forwardTerms p.type) first last runs
              weight := Double.ofNat (distinctFeatures (hitsIn w hits)) }]) ∧
      ((∀ w, p.bestWindow? hits = some w →
          ∀ t ∈ doc.forwardTerms p.type, t.position < w.start) →
        p.present hits (titleSpan? title number) doc =
          p.openingElement (doc.forwardTerms p.type)) := by
  have htitle : ∀ span, titleSpan? title number = some span → 1 ≤ span.stop :=
    fun span => one_le_stop_of_titleSpan?
  by_cases hshown : ∃ w, p.bestWindow? hits = some w ∧
      ∃ t ∈ doc.forwardTerms p.type, w.start ≤ t.position
  · obtain ⟨w, hbest, t, ht, hbehind⟩ := hshown
    rcases rangeSteps_spec horder p.sentenceSize w with
      ⟨-, -, hall⟩ | ⟨first, last, e, hrange, hexcerpt, hshows, hisRange, -⟩
    · exact absurd (hall t ht) (Nat.not_lt.mpr hbehind)
    · have hstart := List.getElem?_eq_getElem (Nat.lt_of_le_of_lt hshows.ordered hshows.inside)
      obtain ⟨runs, hruns⟩ := exists_runs (fun t => covers (hitsIn w hits) t.position) e.tokens
      obtain ⟨hpresent, hsteps⟩ := present_phrase htitle hbest hrange hexcerpt hshows hstart
      rw [render_eq p hshows hruns] at hpresent
      rw [hshows.shown] at hruns
      refine ⟨hsteps, ?_, ?_⟩
      · intro w' hbest' _
        rw [hbest] at hbest'
        cases hbest'
        exact ⟨first, last, runs, _, hisRange, hruns, hstart, hpresent⟩
      · intro hall
        exact absurd (hall w hbest t ht) (Nat.not_lt.mpr hbehind)
  · have hopening : ∀ w, p.bestWindow? hits = some w →
        rangeSteps p.sentenceSize w (doc.forwardTerms p.type) = some none ∧
          excerpt? p.sentenceSize w (doc.forwardTerms p.type) = none := by
      intro w hbest
      rcases rangeSteps_spec horder p.sentenceSize w with
        ⟨hrange, hexcerpt, -⟩ | ⟨-, -, -, -, -, -, -, hthere⟩
      · exact ⟨hrange, hexcerpt⟩
      · exact absurd ⟨w, hbest, hthere⟩ hshown
    obtain ⟨hpresent, hsteps⟩ := present_opening (titleSpan? title number) hopening
    refine ⟨hsteps.trans (congrArg some hpresent.symm), ?_, fun _ => hpresent⟩
    intro w hbest hthere
    exact absurd ⟨w, hbest, hthere⟩ hshown

/-- A document of words at the positions from 1 on. -/
def documentOf (words : List String) : StoredDocument where
  id := "a"
  attributes := ∅
  forward := .ofList [("word", words.zipIdx.map fun (value, i) => ⟨i + 1, value⟩)]
  search := ∅
  access := []

/-- Phrases of words, the matches in boldface. -/
def boldWords : PhraseSettings :=
  { (default : PhraseSettings) with
    type := "word"
    windowSize := 3
    sentenceSize := 6
    matchMark := ⟨"<b>", "</b>"⟩
    floatingMark := ⟨"... ", " ..."⟩ }

/-- The seventh and the eighth of twelve words match. -/
theorem phrase_is_well_formed_bold :
    ∃ (doc : StoredDocument) (w : Window) (first last : Nat) (runs : List (List ForwardEntry)),
      doc = documentOf ["One", "day", "in", "Tokyo.", "Tokyo", "is", "a", "city", "that", "is",
        "very", "large"] ∧
      InOrder (doc.forwardTerms boldWords.type) ∧
      boldWords.bestWindow? (hitsAt [(7, 0), (8, 1)]) = some w ∧
      (∃ t ∈ doc.forwardTerms boldWords.type, w.start ≤ t.position) ∧
      IsRange boldWords.sentenceSize w (doc.forwardTerms boldWords.type) first last ∧
      (boldWords.present (hitsAt [(7, 0), (8, 1)]) none doc).map (·.value) =
        [boldWords.phraseText (fun t => covers (hitsAt [(7, 0), (8, 1)]) t.position)
          (doc.forwardTerms boldWords.type) first last runs] := by
  let doc := documentOf ["One", "day", "in", "Tokyo.", "Tokyo", "is", "a", "city", "that", "is",
    "very", "large"]
  have horder : InOrder (doc.forwardTerms boldWords.type) := by decide +kernel
  have hwindow : boldWords.bestWindow? (hitsAt [(7, 0), (8, 1)]) = some ⟨7, 9, 2, 2⟩ := by
    decide +kernel
  have hthere : ∃ t ∈ doc.forwardTerms boldWords.type, 7 ≤ t.position := by decide +kernel
  obtain ⟨first, last, runs, start, hrange, -, -, hpresent⟩ :=
    (phrase_is_well_formed boldWords (hitsAt [(7, 0), (8, 1)]) [] 1 doc horder).2.1 _ hwindow hthere
  have htitle : titleSpan? [] 1 = none := by simp [titleSpan?]
  have hhits : hitsIn ⟨7, 9, 2, 2⟩ (hitsAt [(7, 0), (8, 1)]) = hitsAt [(7, 0), (8, 1)] := by
    decide +kernel
  rw [htitle, hhits] at hpresent
  exact ⟨doc, _, first, last, runs, rfl, horder, hwindow, hthere, hrange,
    congrArg (List.map (·.value)) hpresent⟩

example : (boldWords.present (hitsAt [(7, 0), (8, 1)]) none (documentOf
    ["One", "day", "in", "Tokyo.", "Tokyo", "is", "a", "city", "that", "is", "very", "large"])).map
      (·.value) = ["... Tokyo is <b>a city</b> that is ..."] := by decide +kernel

end PhraseSettings

end Concordance
