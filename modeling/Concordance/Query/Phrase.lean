import Concordance.Document.Stored
import Concordance.Error
import Concordance.Query.Arrangement
import Concordance.Text.Split

/-!
# Phrases

The piece of a text that shows best why a document was found: the window with the most different
matches, widened up to the borders of its sentence, with the matches marked.
-/

namespace Concordance

/-- What is written before and behind a marked region. -/
structure Marker where
  opening : String := ""
  closing : String := ""
  deriving DecidableEq, Repr, Inhabited

/-- Reads a marker: the first character stands before both parts. -/
def Marker.parse (s : String) : Except Error Marker :=
  match s.toList with
  | [] => .ok {}
  | separator :: rest =>
    match Text.splitOnceChars separator rest with
    | some (opening, closing) => .ok ⟨String.ofList opening, String.ofList closing⟩
    | none => .error (.config s!"marker '{s}' must have the form <sep>open<sep>close")

namespace Phrase

/-- A match of a feature, the feature given by its place. -/
structure Hit where
  span : Span
  feature : Nat
  deriving DecidableEq, Repr, Inhabited

/-- Hits in the order of their starts, those with one start in the order of their features. -/
def sortHits (hits : List Hit) : List Hit :=
  hits.mergeSort fun a b =>
    a.span.start < b.span.start || (a.span.start = b.span.start && a.feature ≤ b.feature)

/-! ## The best window -/

/-- A window that starts with a hit. -/
structure Window where
  start : Nat
  stop : Nat
  /-- The number of different features in the window. -/
  features : Nat
  /-- The number of hits in the window. -/
  hits : Nat
  deriving DecidableEq, Repr, Inhabited

/-- The number of different features of hits. -/
def distinctFeatures (hits : List Hit) : Nat := (ascending (hits.map (·.feature))).length

/-- The window of a size that starts with the first of some hits. -/
def windowAt (size : Nat) (first : Hit) (rest : List Hit) : Window :=
  let start := first.span.start
  let limit := saturatingAdd start size
  let inside := (first :: rest).takeWhile fun h => h.span.start < limit
  let stop := if inside.isEmpty then saturatingAdd start 1 else (inside.map (·.span.stop)).foldl max 0
  ⟨start, min stop limit, distinctFeatures inside, inside.length⟩

/-- The windows of sorted hits, one for each hit. -/
def windows (size : Nat) : List Hit → List Window
  | [] => []
  | h :: rest => windowAt size h rest :: windows size rest

/-- Whether a window is better than another one: more features, or as many and more hits. -/
def Window.beats (a b : Window) : Bool :=
  b.features < a.features || (a.features = b.features && b.hits < a.hits)

/-- The best of some windows, of equally good ones the first. -/
def best? : List Window → Option Window
  | [] => none
  | w :: rest => some (rest.foldl (fun best w => if w.beats best then w else best) w)

/-- The best window of sorted hits, if it has enough features. -/
def bestWindow? (size cardinality : Nat) (hits : List Hit) : Option Window :=
  (best? (windows size hits)).filter fun w => max cardinality 1 ≤ w.features

/-! ## The text of a window -/

/-- Whether a token ends a sentence. -/
def endsSentence (t : ForwardEntry) : Bool :=
  match t.value.toList.getLast? with
  | some c => c = '.' || c = '!' || c = '?' || c = ';'
  | none => false

/-- The tokens that go on behind a token up to the end of its sentence, at most `budget`. -/
def sentenceRest (previous : ForwardEntry) : (budget : Nat) → List ForwardEntry → List ForwardEntry
  | 0, _ | _, [] => []
  | budget + 1, t :: rest =>
    if endsSentence previous then [] else t :: sentenceRest t budget rest

/-- The tokens in front of a token back to the start of its sentence, at most `budget`; the tokens
are given and answered backwards. -/
def sentenceStart (budget : Nat) (before : List ForwardEntry) : List ForwardEntry :=
  (before.takeWhile fun t => !endsSentence t).take budget

/-- A piece of a text. -/
structure Excerpt where
  tokens : List ForwardEntry
  /-- Whether tokens in front of the piece are left out. -/
  cutBefore : Bool
  /-- Whether tokens behind the piece are left out. -/
  cutBehind : Bool
  deriving DecidableEq, Repr, Inhabited

/-- The start of a text up to the end of its first sentence. -/
def opening? (size : Nat) : List ForwardEntry → Option Excerpt
  | [] => none
  | first :: rest =>
    let ahead := sentenceRest first (size - 1) rest
    some ⟨first :: ahead, false, ahead.length < rest.length⟩

/-- The tokens of a window with those around it that belong to its sentence, up to a size. Nothing
if all tokens are in front of the window. -/
def excerpt? (size : Nat) (w : Window) (tokens : List ForwardEntry) : Option Excerpt :=
  let before := (tokens.takeWhile fun t => t.position < w.start).reverse
  match tokens.dropWhile fun t => t.position < w.start with
  | [] => none
  | first :: rest =>
    let core := first :: rest.takeWhile fun t => t.position < w.stop
    let behind := rest.dropWhile fun t => t.position < w.stop
    let back := sentenceStart (size - core.length) before
    let ahead := sentenceRest (core.getLastD first) (size - core.length - back.length) behind
    some ⟨back.reverse ++ core ++ ahead, back.length < before.length, ahead.length < behind.length⟩

def covers (hits : List Hit) (position : Nat) : Bool :=
  hits.any fun h => h.span.start ≤ position && position < h.span.stop

/-- Writes the tokens behind another one; `marked` says whether a mark is open. -/
def renderFrom (mark : Marker) (hit : Nat → Bool) (marked : Bool) : List ForwardEntry → String
  | [] => if marked then mark.closing else ""
  | t :: rest =>
    let h := hit t.position
    (if marked && !h then mark.closing else "") ++ " " ++
      (if h && !marked then mark.opening else "") ++ t.value ++ renderFrom mark hit h rest

/-- Writes tokens with a blank between two of them and a mark around every run of hit tokens. -/
def renderTokens (mark : Marker) (hit : Nat → Bool) : List ForwardEntry → String
  | [] => ""
  | t :: rest =>
    let h := hit t.position
    (if h then mark.opening else "") ++ t.value ++ renderFrom mark hit h rest

/-- Writes a piece of a text, with marks where tokens are left out. -/
def render (mark floating : Marker) (hits : List Hit) (e : Excerpt) : String :=
  (if e.cutBefore then floating.opening else "") ++ renderTokens mark (covers hits) e.tokens ++
    (if e.cutBehind then floating.closing else "")

end Phrase

end Concordance
