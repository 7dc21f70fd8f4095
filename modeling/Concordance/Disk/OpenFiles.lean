import Concordance.Disk.Backing

/-!
# Open files

Files are written through outputs, each with a name of its own. What is written waits in the output
until it is flushed, synced, closed or dropped. In memory an output adds to the file that has its
name at that time, and takes nothing any more once it is closed. In a directory an output stays with
its file when the file, or a directory that it is in, is renamed; it holds back at most `bufferSize`
bytes, and goes on taking bytes after it is closed.
-/

namespace Concordance

/-- Where an output writes. -/
inductive WritePoint where
  /-- Behind the content. -/
  | atEnd
  /-- From an offset on. -/
  | offset (n : Nat)
  deriving DecidableEq, Repr, Inhabited

/-- An open file. -/
structure Output where
  /-- The file; nothing if another file has taken its place. -/
  file : Option String
  point : WritePoint
  /-- The bytes that wait. -/
  pending : List UInt8 := []
  closed : Bool := false
  deriving DecidableEq, Repr, Inhabited

/-- Files with their outputs. -/
structure OpenFiles where
  backing : Backing
  outputs : SortedMap String Output := ∅
  deriving Inhabited

namespace OpenFiles

/-- How many bytes an output in a directory holds back. -/
def bufferSize : Nat := 64 * 1024

/-- Content with bytes written over it from an offset on. -/
def overwrite (content : List UInt8) (offset : Nat) (bytes : List UInt8) : List UInt8 :=
  Volume.resize content offset ++ bytes ++ content.drop (offset + bytes.length)

def hand (b : Backing) (o : Output) (bytes : List UInt8) : Backing × Output :=
  match bytes, o.file with
  | [], _ | _, none => (b, o)
  | _, some file =>
    match o.point with
    | .atEnd => (b.setContent file (b.contentOf file ++ bytes), o)
    | .offset n =>
      (b.setContent file (overwrite (b.contentOf file) n bytes),
        { o with point := .offset (n + bytes.length) })

/-- Hands what waits in an output to its file. -/
def publish (b : Backing) (o : Output) : Backing × Output :=
  let (b, o) := hand b o o.pending
  (b, { o with pending := [] })

/-- Takes an output away, after handing over what waits in it; answers whether there was one. -/
def drop (f : OpenFiles) (output : String) : Bool × OpenFiles :=
  match f.outputs.get? output with
  | none => (false, f)
  | some o =>
    (true, { backing := (publish f.backing o).1, outputs := f.outputs.erase output })

/-- Opens a file. An output that had the name is dropped afterwards. -/
def openWith (f : OpenFiles) (output : String) (opening : Backed String) (point : WritePoint) :
    Except Error Unit × OpenFiles :=
  match opening.run f.backing with
  | (.error e, backing) => (.error e, { f with backing })
  | (.ok file, backing) =>
    let f := ({ f with backing }.drop output).2
    (.ok (), { f with outputs := f.outputs.insert output { file := some file, point } })

/-- Opens a file and empties it. -/
def create (f : OpenFiles) (output name : String) : Except Error Unit × OpenFiles :=
  f.openWith output (Backing.create name) (if f.backing.inMemory then .atEnd else .offset 0)

/-- Opens a file to write behind its content. -/
def append (f : OpenFiles) (output name : String) : Except Error Unit × OpenFiles :=
  f.openWith output (Backing.openAppend name) .atEnd

def changeOutput (f : OpenFiles) (output : String) (o : Backing × Output) : OpenFiles :=
  { backing := o.1, outputs := f.outputs.insert output o.2 }

/-- Takes bytes into an output of a directory: what does not fit in goes to the file. -/
def take (b : Backing) (o : Output) (bytes : List UInt8) : Backing × Output :=
  let (b, o) := if bufferSize < o.pending.length + bytes.length then publish b o else (b, o)
  if bufferSize ≤ bytes.length then hand b o bytes
  else (b, { o with pending := o.pending ++ bytes })

def write (f : OpenFiles) (output : String) (o : Output) (bytes : List UInt8) :
    Except Error Unit × OpenFiles :=
  if bytes.isEmpty then (.ok (), f)
  else if !f.backing.inMemory then (.ok (), f.changeOutput output (take f.backing o bytes))
  else if o.closed then (.error (.io "output is closed"), f)
  else (.ok (), f.changeOutput output (f.backing, { o with pending := o.pending ++ bytes }))

/-- Hands over what waits in an output. -/
def flush (f : OpenFiles) (output : String) (o : Output) : OpenFiles :=
  f.changeOutput output (publish f.backing o)

/-- Hands over what waits in an output and closes it. -/
def close (f : OpenFiles) (output : String) (o : Output) : OpenFiles :=
  let (b, o) := publish f.backing o
  f.changeOutput output (b, { o with closed := true })

/-- An output after what stood at one place was moved to another. -/
def followMove (old new : String) (o : Output) : Output :=
  match o.file with
  | none => o
  | some file =>
    if file = new ∧ old ≠ new then { o with file := none }
    else { o with file := some (FileTree.movedPlace old new file) }

/-- Gives a file another name. -/
def rename (f : OpenFiles) (old new : String) : Except Error Unit × OpenFiles :=
  match (Backing.rename old new).run f.backing with
  | (.error e, backing) => (.error e, { f with backing })
  | (.ok none, backing) => (.ok (), { f with backing })
  | (.ok (some (old, new)), backing) =>
    (.ok (), { backing, outputs := f.outputs.map fun _ => followMove old new })

/-- Runs work on the files. -/
def onFiles {α : Type} (f : OpenFiles) (work : Backed α) : Except Error α × OpenFiles :=
  let (r, backing) := work.run f.backing
  (r, { f with backing })

end OpenFiles

end Concordance
