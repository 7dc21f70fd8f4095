import Concordance.Error
import Concordance.SortedMap

/-!
# Volumes

A volume is the place where one storage keeps its files: a directory, or the memory of the process.
Work on a volume is a `Disk` computation: it may fail, and what it did up to there stays done.

Which calls fail is part of the volume. Its plan is a queue of outcomes; every call takes the first
outcome of its kind, and passes if there is none. A write may run out of room: then the bytes that
fit are kept.
-/

namespace Concordance

/-- Where a volume is. -/
inductive Place where
  | memory
  | directory (path : String)
  deriving DecidableEq, Repr, Inhabited

/-- The calls that a volume may refuse. -/
inductive DiskCall where
  /-- Opens a file for writing and empties it. -/
  | create
  /-- Opens a file for writing behind its content. -/
  | append
  | write
  | sync
  | close
  | truncate
  | rename
  | syncDirectory
  deriving DecidableEq, Repr, Inhabited

/-- What becomes of a call. -/
inductive Outcome where
  | passes
  | fails (error : Error)
  /-- A write has room for so many bytes and fails if it has more. -/
  | room (bytes : Nat) (error : Error)
  deriving DecidableEq, Repr, Inhabited

/-- The error of a file that is not there, where it is reported by name. -/
def Place.missing (p : Place) (name : String) : Error :=
  match p with
  | .memory => .storage s!"no file named '{name}' in memory storage"
  | .directory path => .storage s!"no file named '{name}' in {path}"

/-- The files of one storage, by their names. -/
structure Volume where
  place : Place
  files : SortedMap String (List UInt8) := ∅
  /-- The names in the volume's directory that are taken by directories. -/
  folders : List String := []
  /-- Whether the volume's own directory exists. -/
  present : Bool := true
  /-- The outcomes of calls to come. -/
  plan : List (DiskCall × Outcome) := []
  deriving DecidableEq, Inhabited

abbrev Disk (α : Type) := ExceptT Error (StateM Volume) α

namespace Volume

/-- The empty volume in memory. -/
def memory : Volume := { place := .memory }

/-- Whether there is a file of a name. -/
def hasFile (v : Volume) (name : String) : Bool := v.files.contains name

/-- The content of a file that is taken to be empty if it is missing. -/
def contentOf (v : Volume) (name : String) : List UInt8 := v.files.getD name []

/-- The volume with another content of a file. -/
def setContent (v : Volume) (name : String) (bytes : List UInt8) : Volume :=
  { v with files := v.files.insert name bytes }

/-- Whether a file of a name can be opened for writing. -/
def accepts (v : Volume) (name : String) : Bool :=
  match v.place with
  | .memory => true
  | .directory _ => v.present && !v.folders.contains name

/-- The error of a file that is not there, as the calls on files report it. -/
def missingFile (v : Volume) (name : String) : Error :=
  match v.place with
  | .memory => v.place.missing name
  | .directory _ => .io "No such file or directory"

/-- Bytes of another length: the first ones, or zeros behind all of them. -/
def resize (bytes : List UInt8) (size : Nat) : List UInt8 :=
  bytes.take size ++ List.replicate (size - bytes.length) 0

/-- The outcome of a call and the plan that is left. -/
def takeOutcome (call : DiskCall) : List (DiskCall × Outcome) → Outcome × List (DiskCall × Outcome)
  | [] => (.passes, [])
  | entry :: rest =>
    if entry.1 = call then (entry.2, rest)
    else
      let (outcome, left) := takeOutcome call rest
      (outcome, entry :: left)

end Volume

namespace Disk

def outcome (call : DiskCall) : Disk Outcome := fun v =>
  let (outcome, plan) := Volume.takeOutcome call v.plan
  (.ok outcome, { v with plan })

/-- Goes on unless the plan says that a call fails. -/
def pass (call : DiskCall) : Disk Unit := do
  match ← outcome call with
  | .passes | .room _ _ => pure ()
  | .fails error => throw error

/-- Opens a file for writing and empties it. -/
def create (name : String) : Disk Unit := do
  pass .create
  let v ← get
  if v.accepts name then set (v.setContent name []) else throw (.io "Is a directory")

/-- Opens a file for writing behind its content. -/
def openAppend (name : String) : Disk Unit := do
  pass .append
  let v ← get
  if v.accepts name then set (v.setContent name (v.contentOf name))
  else throw (.io "Is a directory")

/-- Writes bytes behind the content of an open file. -/
def write (name : String) (bytes : List UInt8) : Disk Unit := do
  let append (bytes : List UInt8) : Disk Unit :=
    modify fun v => v.setContent name (v.contentOf name ++ bytes)
  match ← outcome .write with
  | .passes => append bytes
  | .fails error => throw error
  | .room room error =>
    append (bytes.take room)
    if room < bytes.length then throw error

/-- Makes what was written to an open file durable. -/
def sync (_name : String) : Disk Unit := pass .sync

/-- Makes what was written to an open file durable and closes it. -/
def close (_name : String) : Disk Unit := pass .close

/-- Gives a file another size. In memory a file only shrinks. -/
def truncate (name : String) (size : Nat) : Disk Unit := do
  pass .truncate
  let v ← get
  match v.files.get? name with
  | none => throw (v.missingFile name)
  | some bytes =>
    match v.place with
    | .memory => set (v.setContent name (bytes.take size))
    | .directory _ => set (v.setContent name (Volume.resize bytes size))

/-- Gives a file another name, in the place of the file that had it. -/
def rename (old new : String) : Disk Unit := do
  pass .rename
  let v ← get
  match v.files.get? old with
  | none => throw (v.missingFile old)
  | some bytes =>
    if v.accepts new then set { v with files := (v.files.erase old).insert new bytes }
    else throw (.io "Is a directory")

/-- Makes the names of the files durable. -/
def syncDirectory : Disk Unit := do
  pass .syncDirectory
  if !(← get).present then throw (.io "No such file or directory")

/-- Whether there is a file of a name. -/
def exists? (name : String) : Disk Bool := return (← get).hasFile name

/-- The content of a file. -/
def read (name : String) : Disk (List UInt8) := do
  let v ← get
  match v.files.get? name with
  | some bytes => return bytes
  | none => throw (if v.folders.contains name then .io "Is a directory" else v.place.missing name)

def size (name : String) : Disk Nat := do
  let v ← get
  match v.files.get? name with
  | some bytes => return bytes.length
  | none => throw (v.missingFile name)

end Disk

end Concordance
