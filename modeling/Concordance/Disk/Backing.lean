import Concordance.Disk.FileTree

/-!
# Where files are kept

The files of a storage are kept in memory or in a directory of a file tree. In memory they are known
by their names alone; in a directory a name is a path from there, so it may lead anywhere in the
tree, and the file is known by its place.
-/

namespace Concordance

/-- Where files are kept. -/
inductive Backing where
  | memory (volume : Volume)
  | directory (path : String) (tree : FileTree)
  deriving Inhabited

/-- Work on the files: it may fail, and what it did up to there stays done. -/
abbrev Backed (α : Type) := ExceptT Error (StateM Backing) α

namespace Backing

/-- The size that a directory is reported with. -/
def folderSize : Nat := 4096

def inMemory : Backing → Bool
  | memory _ => true
  | directory _ _ => false

/-- Runs work in memory, or in the directory at a path. -/
def run {α : Type} (inMemory : Disk α) (inDirectory : String → Filing α) : Backed α := fun b =>
  match b with
  | memory volume =>
    let (r, volume) := inMemory.run volume
    (r, memory volume)
  | directory path tree =>
    let (r, tree) := (inDirectory path).run tree
    (r, directory path tree)

/-- A change of a tree that may not be possible. -/
def change {α : Type} (g : FileTree → Except PathFault (α × FileTree)) : Filing α := do
  let (a, t) ← ofExcept ((g (← get)).mapError PathFault.toError)
  set t
  return a

/-- What a tree says, if it can. -/
def ask {α : Type} (g : FileTree → Except PathFault α) : Filing α := do
  ofExcept ((g (← get)).mapError PathFault.toError)

/-- Opens a file for writing and empties it; answers the file. -/
def create (name : String) : Backed String :=
  run (do Disk.create name; return name) fun path => change fun t => do
    let (place, t) ← t.openFile (Path.join path name)
    return (place, t.insertAt place (.file []))

/-- Opens a file for writing behind its content; answers the file. -/
def openAppend (name : String) : Backed String :=
  run (do Disk.openAppend name; return name) fun path => change (·.openFile (Path.join path name))

/-- The content of a file by its name. -/
def read (name : String) : Backed (List UInt8) :=
  run (Disk.read name) fun path => do
    match (← get).read (Path.join path name) with
    | .ok bytes => return bytes
    | .error .missing => throw ((Place.directory path).missing name)
    | .error fault => throw fault.toError

/-- Whether there is a file of a name. -/
def exists? (name : String) : Backed Bool :=
  run (Disk.exists? name) fun path => return (← get).isFile (Path.join path name)

def size (name : String) : Backed Nat :=
  run (Disk.size name) fun path => ask fun t => do
    match ← t.find (Path.join path name) with
    | .file bytes => return bytes.length
    | .folder => return folderSize

/-- Gives a file another size. In memory a file only shrinks. -/
def truncate (name : String) (size : Nat) : Backed Unit :=
  run (Disk.truncate name size) fun path => change fun t => do
    let bytes ← t.read (Path.join path name)
    return ((), ← t.write (Path.join path name) (Volume.resize bytes size))

/-- Gives a file another name. In a directory this answers the places before and after, and a
directory can be renamed as well. -/
def rename (old new : String) : Backed (Option (String × String)) :=
  run (do Disk.rename old new; return none) fun path => change fun t => do
    let (places, t) ← t.rename (Path.join path old) (Path.join path new)
    return (some places, t)

/-- Makes the names of the files durable. -/
def syncDirectory : Backed Unit :=
  run Disk.syncDirectory fun path => do let _ ← ask (·.find path)

/-- Makes a directory, given by its path from the files, and those that it is in. In memory there
are none. -/
def makeFolder (name : String) : Backed Unit :=
  run (pure ()) fun path => FileTree.openFolder (Path.join path name)

/-- The content of an open file. -/
def contentOf (b : Backing) (file : String) : List UInt8 :=
  match b with
  | memory volume => volume.contentOf file
  | directory _ tree => tree.contentAt file

/-- The files with another content of an open one. -/
def setContent (b : Backing) (file : String) (bytes : List UInt8) : Backing :=
  match b with
  | memory volume => memory (volume.setContent file bytes)
  | directory path tree => directory path (tree.insertAt file (.file bytes))

end Backing

end Concordance
