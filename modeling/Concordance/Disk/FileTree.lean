import Concordance.Disk.Volume
import Concordance.Text.Split

/-!
# File trees

A path is a text of steps with slashes between them. Followed from where it starts, each step leads
from one directory to the next: empty steps and `.` stay, `..` goes up. A place is a path in its
shortest form, `Path.canonical`: the root `/`, the empty path for the directory that relative paths
start from, or one of them with steps behind it. At the root `..` goes nowhere, a relative place may
begin with it.

A file tree is the part of the file system that storages live in: files and directories at their
places. A path is followed step by step, and every step but the last has to lead to a directory that
is there (`locate`). The directory of a storage is taken out as a volume (`volume`) and put back
when the work on it is done (`put`).
-/

/-! ## Paths -/

namespace Concordance.Path

/-- The step that takes back the one before it. -/
def up : String := ".."

/-- Whether a step stays where it is. -/
def isStay (step : String) : Bool := step = "" || step = "."

/-- Whether a path starts at the root. -/
def isAbsolute (path : String) : Bool := path.startsWith "/"

/-- The place where a path starts. -/
def start (path : String) : String := if isAbsolute path then "/" else ""

/-- The steps of a path that lead somewhere. -/
def steps (path : String) : List String := (Text.splitAll '/' path).filter (!isStay ·)

/-- Adds a step to steps that are kept last one first. -/
def goOn (absolute : Bool) (done : List String) (step : String) : List String :=
  if step = up ∧ (absolute ∨ done.any (· ≠ up)) then done.tail else step :: done

def ofSteps (absolute : Bool) (steps : List String) : String :=
  (if absolute then "/" else "") ++ "/".intercalate steps

/-- The shortest form of a path. -/
def canonical (path : String) : String :=
  ofSteps (isAbsolute path) ((steps path).foldl (goOn (isAbsolute path)) []).reverse

/-- A path behind a directory; one that starts at the root stands for itself. -/
def join (directory path : String) : String :=
  if directory = "" ∨ isAbsolute path then path
  else if directory.endsWith "/" then directory ++ path
  else directory ++ "/" ++ path

/-- The place that a step leads to. -/
def below (place step : String) : String := canonical (join place step)

/-- Whether a place is one that paths start from, or above it. Such a directory is always there. -/
def isBase (place : String) : Bool := (steps place).all (· = up)

/-- The rest of a place below another one. -/
def relativeTo? (directory place : String) : Option String :=
  let lead := if directory = "" ∨ directory = "/" then directory else directory ++ "/"
  let rest := String.ofList (place.toList.drop lead.length)
  let isBelow := rest ≠ "" ∧ !isAbsolute rest ∧ (steps rest).head? ≠ some up
  if place.startsWith lead ∧ isBelow then some rest else none

/-- A path without the slashes at its end; the root keeps one. -/
def trimSlashes (path : String) : String :=
  let kept := (path.toList.reverse.dropWhile (· = '/')).reverse
  if kept.isEmpty then start path else String.ofList kept

/-- The last step of a path, slashes at its end apart. -/
def lastStep (path : String) : String := (Text.splitAll '/' (trimSlashes path)).getLastD ""

/-- The lists that a list continues, itself and the empty one apart, longest first. -/
def properBeginnings (steps : List String) : List (List String) :=
  ((List.range steps.length).drop 1).reverse.map steps.take

/-- A path and the paths of the directories that it goes through, longest first. Here `..` counts as
a directory of its own. -/
def ancestry (path : String) : List String :=
  path :: (properBeginnings (steps path)).map (ofSteps (isAbsolute path))

end Concordance.Path

/-! ## Trees -/

namespace Concordance

/-- What stands at a place. -/
inductive TreeEntry where
  | file (bytes : List UInt8)
  | folder
  deriving DecidableEq, Inhabited

/-- Why nothing can be done with a path. -/
inductive PathFault where
  | missing
  /-- Something has the place already. -/
  | exists
  | notFolder
  | isFolder
  | notEmpty
  /-- A directory cannot go below itself, or be taken away by the name `.`. -/
  | invalid
  /-- The name `.` or `..`, or the root, cannot be given away. -/
  | busy
  | tooLong
  /-- The path has the character that ends names. -/
  | terminator
  deriving DecidableEq, Repr, Inhabited

def PathFault.message : PathFault → String
  | .missing => "No such file or directory (os error 2)"
  | .exists => "File exists (os error 17)"
  | .notFolder => "Not a directory (os error 20)"
  | .isFolder => "Is a directory (os error 21)"
  | .notEmpty => "Directory not empty (os error 39)"
  | .invalid => "Invalid argument (os error 22)"
  | .busy => "Device or resource busy (os error 16)"
  | .tooLong => "File name too long (os error 36)"
  | .terminator => "file name contained an unexpected NUL byte"

/-- The error of a call on a path. -/
def PathFault.toError (f : PathFault) : Error := .io f.message

/-- Files and directories at their places. -/
structure FileTree where
  entries : SortedMap String TreeEntry := ∅
  deriving DecidableEq, Inhabited

/-- Work on a file tree: it may fail, and what it did up to there stays done. -/
abbrev Filing (α : Type) := ExceptT Error (StateM FileTree) α

namespace FileTree

/-! ## Following paths -/

/-- How many bytes a step may have. -/
def maxStep : Nat := 255

/-- How many bytes a path may have. -/
def maxPath : Nat := 4095

def entryAt? (t : FileTree) (place : String) : Option TreeEntry :=
  if Path.isBase place then some .folder else t.entries.get? place

/-- The directory that steps lead to. -/
def walk (t : FileTree) (place : String) : List String → Except PathFault String
  | [] => .ok place
  | step :: rest =>
    if Path.isStay step then t.walk place rest
    else if maxStep < step.utf8ByteSize then .error .tooLong
    else
      match t.entryAt? (Path.below place step) with
      | some .folder => t.walk (Path.below place step) rest
      | some (.file _) => .error .notFolder
      | none => .error .missing

/-- The place that a path leads to. It is in a directory that is there; whether something stands at
the place itself is left open. -/
def locate (t : FileTree) (path : String) : Except PathFault String := do
  if path.toList.contains '\x00' then throw .terminator
  if path = "" then throw .missing
  if maxPath < path.utf8ByteSize then throw .tooLong
  let steps := Text.splitAll '/' path
  let folder ← t.walk (Path.start path) steps.dropLast
  let last := steps.getLastD ""
  if Path.isStay last then return folder
  if maxStep < last.utf8ByteSize then throw .tooLong
  return Path.below folder last

def find (t : FileTree) (path : String) : Except PathFault TreeEntry := do
  match t.entryAt? (← t.locate path) with
  | some entry => return entry
  | none => throw .missing

/-- The content of the file that a path names. -/
def read (t : FileTree) (path : String) : Except PathFault (List UInt8) := do
  match ← t.find path with
  | .file bytes => return bytes
  | .folder => throw .isFolder

/-- Whether a path names a file. -/
def isFile (t : FileTree) (path : String) : Bool := (t.read path).isOk

/-- Whether a path names a directory. -/
def isFolder (t : FileTree) (path : String) : Bool :=
  match t.find path with
  | .ok .folder => true
  | _ => false

/-- The content of a file, taken to be empty if there is none at the place. -/
def contentAt (t : FileTree) (place : String) : List UInt8 :=
  match t.entryAt? place with
  | some (.file bytes) => bytes
  | _ => []

/-- The tree with something at a place. -/
def insertAt (t : FileTree) (place : String) (entry : TreeEntry) : FileTree :=
  { t with entries := t.entries.insert place entry }

/-- What is below a place, with the rest of its own place. -/
def below (t : FileTree) (place : String) : List (String × TreeEntry) :=
  t.entries.toList.filterMap fun (p, entry) => (Path.relativeTo? place p).map (·, entry)

/-! ## Changes -/

/-- Opens a file for writing, which makes it if it is missing; answers its place. -/
def openFile (t : FileTree) (path : String) : Except PathFault (String × FileTree) := do
  let place ← t.locate path
  match t.entryAt? place with
  | some .folder => throw .isFolder
  | some (.file _) => return (place, t)
  | none => return (place, t.insertAt place (.file []))

/-- Gives a file a content. -/
def write (t : FileTree) (path : String) (bytes : List UInt8) : Except PathFault FileTree := do
  let (place, t) ← t.openFile path
  return t.insertAt place (.file bytes)

/-- Makes a directory unless it is there. -/
def makeFolder (t : FileTree) (path : String) : Except PathFault FileTree := do
  let place ← t.locate (Path.trimSlashes path)
  match t.entryAt? place with
  | some .folder => return t
  | some (.file _) => throw .exists
  | none => return t.insertAt place .folder

/-- Makes the first one of some directories; if a directory is missing on the way there, the others
are made before. What was made stays also when this fails. -/
def makeFirst : List String → FileTree → Except PathFault Unit × FileTree
  | [], t => (.ok (), t)
  | path :: others, t =>
    match t.makeFolder path with
    | .ok t => (.ok (), t)
    | .error .missing =>
      match makeFirst others t with
      | (.error fault, t) => (.error fault, t)
      | (.ok (), t) =>
        match t.makeFolder path with
        | .ok t => (.ok (), t)
        | .error fault => (.error fault, t)
    | .error fault => (.error fault, t)

/-- Makes a directory and those that it is in. -/
def makeFolders (path : String) : Filing Unit := fun t =>
  if path = "" then (.ok (), t)
  else
    let (r, t) := makeFirst (Path.ancestry path) t
    (r.mapError fun fault => .storage s!"cannot create {path}: {fault.message}", t)

/-- Makes sure that a directory is there. -/
def openFolder (path : String) : Filing Unit := do
  makeFolders path
  if !(← get).isFolder path then throw (.storage s!"{path} is not a directory")

/-- The tree without what stands below a place. -/
def empty (t : FileTree) (place : String) : FileTree :=
  { t with entries := t.entries.filter fun p _ => (Path.relativeTo? place p).isNone }

/-- Takes a directory away with all that is in it. By the name `..` only what is in it is taken
away, and so it is by `.`, which is refused besides. -/
def removeFolder (t : FileTree) (path : String) : Except PathFault Unit × FileTree :=
  match do return (← t.locate path, ← t.find path) with
  | .error fault => (.error fault, t)
  | .ok (_, .file _) => (.error .notFolder, t)
  | .ok (place, .folder) =>
    let t := t.empty place
    if Path.lastStep path = "." then (.error .invalid, t)
    else if Path.lastStep path = Path.up then (.ok (), t)
    else (.ok (), { t with entries := t.entries.erase place })

/-- Takes a file away. -/
def removeFile (t : FileTree) (path : String) : Except PathFault FileTree := do
  let place ← t.locate path
  match ← t.find path with
  | .file _ => return { t with entries := t.entries.erase place }
  | .folder => throw .isFolder

/-- The place of a name that can be given to something else. -/
def nameSlot (t : FileTree) (path : String) : Except PathFault String :=
  if Path.isStay (Path.lastStep path) ∨ Path.lastStep path = Path.up then .error .busy
  else t.locate (Path.trimSlashes path)

/-- A place after a file or directory was moved together with all that is in it. -/
def movedPlace (old new place : String) : String :=
  if place = old then new
  else
    match Path.relativeTo? old place with
    | some rest => Path.join new rest
    | none => place

/-- Whether what stands at a place may be moved to another one. -/
def checkMove (t : FileTree) (old new : String) (slashed : Bool) : Except PathFault Unit :=
  match t.entryAt? old, t.entryAt? new with
  | none, _ => .error .missing
  | some (.file _), target =>
    if slashed then .error .notFolder
    else if target = some .folder then .error .isFolder
    else .ok ()
  | some .folder, target =>
    if old = new then .ok ()
    else if (Path.relativeTo? old new).isSome then .error .invalid
    else
      match target with
      | some (.file _) => .error .notFolder
      | some .folder => if (t.below new).isEmpty then .ok () else .error .notEmpty
      | none => .ok ()

/-- Gives a file or a directory another name, in the place of the file or the empty directory that
had it; answers both places. -/
def rename (t : FileTree) (old new : String) :
    Except PathFault ((String × String) × FileTree) := do
  let oldPlace ← t.nameSlot old
  let newPlace ← t.nameSlot new
  t.checkMove oldPlace newPlace (old.endsWith "/" || new.endsWith "/")
  let others := if oldPlace = newPlace then t.entries else t.entries.erase newPlace
  return ((oldPlace, newPlace), { t with entries := .ofList (others.toList.map fun (p, entry) =>
    (movedPlace oldPlace newPlace p, entry)) })

/-! ## Volumes -/

/-- What stands right in the directory at a place, with its names. -/
def children (t : FileTree) (place : String) : List (String × TreeEntry) :=
  (t.below place).filter fun entry => !entry.1.toList.contains '/'

def volume (t : FileTree) (path : String) : Volume :=
  match t.locate path with
  | .error _ => { place := .directory path, present := false }
  | .ok place => {
      place := .directory path
      files := .ofList <| (t.children place).filterMap fun (name, entry) =>
        match entry with
        | .file bytes => some (name, bytes)
        | .folder => none
      folders := (t.children place).filterMap fun (name, entry) =>
        if entry = .folder then some name else none
      present := t.entryAt? place = some .folder }

/-- The tree with the files of a volume in the place of those that were in its directory. -/
def put (t : FileTree) (v : Volume) : FileTree :=
  match v.place with
  | .memory => t
  | .directory path =>
    match t.locate path with
    | .error _ => t
    | .ok place =>
      let others := t.entries.filter fun p entry =>
        entry = .folder || ((Path.relativeTo? place p).map (·.toList.contains '/')).getD true
      { t with entries := v.files.foldl (fun m name bytes =>
          m.insert (Path.below place name) (.file bytes)) others }

/-- The volume as it is now: that of its directory, or itself if it is in memory. -/
def refresh (t : FileTree) (v : Volume) : Volume :=
  match v.place with
  | .memory => v
  | .directory path => { t.volume path with plan := v.plan }

/-- Opens the volume of a storage: its directory, which is made if missing, or memory if there is no
path. -/
def openVolume : Option String → Filing Volume
  | none => return .memory
  | some path => do
    openFolder path
    return (← get).volume path

end FileTree

end Concordance
