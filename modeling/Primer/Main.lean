import Primer.CommandLine.Command
import Primer.History.Archive
import Std.Time.DateTime.Timestamp

/-!
# The program

Reads what a command line needs from the file system, lets the command do its work on it, and writes back
what came out.
-/

set_option autoImplicit false

namespace Primer.Program

/-- The content of a file, if it can be read. -/
def readIfThere (path : String) : IO (Option String) := do
  try
    return some (← IO.FS.readFile path)
  catch _ =>
    return none

/-- The files among some paths that can be read, with their paths from the root on. -/
def readAll (current : String) (paths : List String) : IO (List (String × String)) := do
  let mut files := []
  for path in paths do
    if let some text ← readIfThere (Path.resolve current path) then
      files := (Path.resolve current path, text) :: files
  return files

/-- An id that nobody else has. -/
def freshId : IO String := do
  let bytes ← IO.getRandomBytes 16
  let digits := bytes.toList.flatMap fun b => Text.hexDigits 2 b.toNat
  let part (start count : Nat) : String := String.ofList ((digits.drop start).take count)
  return part 0 8 ++ "-" ++ part 8 4 ++ "-4" ++ part 13 3 ++ "-8" ++ part 17 3 ++ "-" ++ part 20 12

/-- The surroundings of an invocation. -/
def workplace (i : Invocation) : IO Workplace := do
  let current := (← IO.currentDir).toString
  let files ← readAll current (CommandLine.filesToRead current i)
  let database := Path.resolve current i.common.database
  let kept := ((← readIfThere database).bind Archive.read).map fun h => (database, h)
  let now ← Std.Time.Timestamp.now
  return ⟨current, files, kept.toList, ← freshId, now.toNanosecondsSinceUnixEpoch.val⟩

/-- Writes the histories of a workplace back. -/
def keep (w : Workplace) : IO Unit := do
  for (path, h) in w.databases do
    IO.FS.createDirAll (Path.directory path)
    IO.FS.writeFile path (Archive.write h)

/-- Where runs are recorded unless told otherwise. -/
def usualDatabase : IO String := do
  let home := (← IO.getEnv "HOME").getD "/tmp"
  return ((← IO.getEnv "XDG_CACHE_HOME").getD (home ++ "/.cache")) ++ "/jsmm/history.db"

/-- Shows a report and gives the exit code. -/
def showReport (r : CommandReport) : IO UInt32 := do
  IO.print r.output
  IO.eprint r.errors
  match r.ending with
  | .success => return 0
  | .failed => return 1
  | .error text =>
    IO.eprintln ("Error: " ++ text)
    return 1

/-- Answers a command line. -/
def answer (args : List String) : IO UInt32 := do
  match Invocation.ofArguments (← usualDatabase) args with
  | .error text => showReport (CommandReport.blank.endWith text)
  | .ok i =>
    let (report, w) := CommandLine.perform (← workplace i) i
    keep w
    showReport report

end Primer.Program

/-- The entry point. -/
def main (args : List String) : IO UInt32 := Primer.Program.answer args
