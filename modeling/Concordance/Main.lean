import Concordance.Console.Perform
import Std.Time

/-!
# The program

Takes the files that a command is about from the disk into a file tree, does the task there, and
writes back what it changed.
-/

namespace Concordance.Console

/-- What a path names on the disk, if there is a directory for it. -/
def probe (path : String) : IO (Option TreeEntry) := do
  match ← (IO.FS.readBinFile path).toBaseIO with
  | .ok bytes => return some (.file bytes.toList)
  | .error (.inappropriateType ..) => return some .folder
  | .error _ => return none

/-- Takes a path into a tree, with the directories that lead to it. -/
def takePath (t : FileTree) (path : String) : IO FileTree := do
  let mut t := t
  let mut place := Path.start path
  for step in Path.steps path do
    place := Path.below place step
    unless Path.isBase place do
      match ← probe place with
      | some entry =>
        t := t.insertAt place entry
        if entry ≠ .folder then return t
      | none => return t
  return t

/-- The paths that a command is about. -/
def pathsOf (i : Invocation) : List String :=
  let storage := match configOf i.storage with
    | .ok config => config.path.toList.flatMap fun path =>
        [configFile, journalFile, checkpointFile, checkpointDraft].map (Path.join path)
    | .error _ => []
  match i.task with
  | .insert file .. | .query file .. => storage ++ [file]
  | _ => storage

/-- Writes what is new or changed to the disk. -/
def writeChanges (before after : FileTree) : IO Unit := do
  for (path, entry) in after.entries.toList do
    if before.entries.get? path ≠ some entry then
      match entry with
      | .folder => IO.FS.createDir path
      | .file bytes => IO.FS.writeBinFile path ⟨bytes.toArray⟩

/-- Removes what is gone from the disk, files before their directories. -/
def removeGone (before after : FileTree) : IO Unit := do
  for (path, entry) in before.entries.toList.reverse do
    if (after.entries.get? path).isNone then
      match entry with
      | .folder => IO.FS.removeDirAll path
      | .file _ => IO.FS.removeFile path

/-- Does a command; answers the exit code. -/
def runInvocation (i : Invocation) : IO UInt32 := do
  let files ← (pathsOf i).foldlM takePath {}
  let now := (← Std.Time.Timestamp.now).toSecondsSinceUnixEpoch.val.toNat
  let start ← IO.monoMsNow
  let (result, bench) := (perform now i).run { files }
  writeChanges files bench.files
  removeGone files bench.files
  let elapsed := (← IO.monoMsNow) - start
  IO.eprint bench.notes
  match result with
  | .ok report =>
    IO.print (report.print i.presentation elapsed)
    return 0
  | .error e =>
    IO.eprintln ("Error: " ++ e.message)
    return 1

/-- The proper use of the program. -/
def usage : String :=
  "usage: concordance [-v] [-q] [-f human|json] [--pretty] TASK STORAGE [OPTIONS] [WORDS]\n" ++
  "tasks: " ++ Text.join ", " (taskForms.map (·.name))

end Concordance.Console

/-- Reads the command line and does what it says. -/
def main (arguments : List String) : IO UInt32 := do
  match Concordance.Console.Invocation.read? arguments with
  | some i => Concordance.Console.runInvocation i
  | none =>
    IO.eprintln Concordance.Console.usage
    return 2
