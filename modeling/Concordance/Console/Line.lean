/-!
# Command lines

The arguments of a command are options and words. An option is written with two dashes and its name,
or with one dash and its letter; flags may share a dash. The value of an option follows it, behind
an equals sign, directly behind the letter, or as the next argument. Behind `--` everything is a
word.
-/

namespace Concordance.Console

/-- An option that a command understands. -/
structure Choice where
  name : String
  letter : Option Char := none
  /-- Whether a value comes with it; a flag has none. -/
  valued : Bool := false
  /-- Whether it may be given more than once. -/
  repeatable : Bool := false
  deriving DecidableEq, Repr, Inhabited

/-- An option that was given; the value of a flag is empty. -/
structure Setting where
  choice : Choice
  value : String := ""
  deriving DecidableEq, Repr, Inhabited

/-- What an argument with dashes says: the settings that are complete, and the option whose value
comes next. -/
structure Reading where
  settings : List Setting := []
  awaiting : Option Choice := none
  deriving DecidableEq, Repr, Inhabited

/-- The arguments of a command. -/
structure Line where
  settings : List Setting := []
  words : List String := []
  deriving DecidableEq, Repr, Inhabited

def readName (choices : List Choice) (cs : List Char) : Option Reading := do
  let choice ← choices.find? (·.name.toList == cs.takeWhile (· ≠ '='))
  match cs.dropWhile (· ≠ '=') with
  | [] => if choice.valued then some { awaiting := choice } else some { settings := [⟨choice, ""⟩] }
  | _ :: value => if choice.valued then some { settings := [⟨choice, .ofList value⟩] } else none

/-- Reads options by their letters. The first one with a value takes all that follows it. -/
def readLetters (choices : List Choice) : List Char → Option Reading
  | [] => some {}
  | c :: rest => do
    let choice ← choices.find? (·.letter == some c)
    if choice.valued then
      match rest with
      | [] => some { awaiting := choice }
      | '=' :: value | value => some { settings := [⟨choice, .ofList value⟩] }
    else
      let more ← readLetters choices rest
      return { more with settings := ⟨choice, ""⟩ :: more.settings }

/-- Whether an argument is a word: it has no dash in front, or is only a dash. -/
def isWord (argument : String) : Bool :=
  match argument.toList with
  | '-' :: _ :: _ => false
  | _ => true

/-- Reads an argument with dashes in front. -/
def readOptions (choices : List Choice) (argument : String) : Option Reading :=
  match argument.toList with
  | '-' :: '-' :: name => readName choices name
  | '-' :: letters => readLetters choices letters
  | _ => none

/-- Reads settings up to the first word; answers what is left from there on. -/
def readSettings (choices : List Choice) :
    (awaiting : Option Choice) → List String → Option (List Setting × List String)
  | none, [] => some ([], [])
  | some _, [] => none
  | some choice, value :: rest => do
    if !isWord value then none
    let (settings, rest) ← readSettings choices none rest
    return (⟨choice, value⟩ :: settings, rest)
  | none, argument :: rest => do
    if isWord argument then return ([], argument :: rest)
    let reading ← readOptions choices argument
    let (settings, rest) ← readSettings choices reading.awaiting rest
    return (reading.settings ++ settings, rest)

def readLine (choices : List Choice) : (awaiting : Option Choice) → List String → Option Line
  | none, [] => some {}
  | some _, [] => none
  | some choice, value :: rest => do
    if !isWord value then none
    let line ← readLine choices none rest
    return { line with settings := ⟨choice, value⟩ :: line.settings }
  | none, argument :: rest => do
    if argument = "--" then return { words := rest }
    else if isWord argument then
      let line ← readLine choices none rest
      return { line with words := argument :: line.words }
    else
      let reading ← readOptions choices argument
      let line ← readLine choices reading.awaiting rest
      return { line with settings := reading.settings ++ line.settings }

/-- How often an option was given. -/
def timesGiven (name : String) (settings : List Setting) : Nat :=
  settings.countP (·.choice.name == name)

/-- Whether every option was given as often as it may be. -/
def wellGiven (settings : List Setting) : Bool :=
  settings.all fun s => s.choice.repeatable || timesGiven s.choice.name settings ≤ 1

/-- Whether an option was given. -/
def isGiven (name : String) (settings : List Setting) : Bool := 0 < timesGiven name settings

/-- The values that an option was given. -/
def valuesOf (name : String) (settings : List Setting) : List String :=
  (settings.filter (·.choice.name == name)).map (·.value)

/-- The value of an option that is given at most once. -/
def value? (name : String) (settings : List Setting) : Option String :=
  (valuesOf name settings).head?

end Concordance.Console
