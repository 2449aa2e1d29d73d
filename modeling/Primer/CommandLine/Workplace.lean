import Primer.CommandLine.Path
import Primer.History

/-!
# The workplace

What a command finds around it: a current directory, files with their contents, and the histories that were
kept in databases. Histories are opened by the path of their database; the path `:memory:` gives one that
nobody else sees.
-/

set_option autoImplicit false

namespace Primer

/-- The surroundings of a command. Paths of files and databases start at the root. -/
structure Workplace where
  current : String
  files : List (String × String)
  databases : List (String × History)
  /-- The id and the time for the next record. -/
  nextId : String
  now : Int
  deriving Inhabited

namespace Workplace

/-- The content of a file. -/
def content? (w : Workplace) (path : String) : Option String := w.files.lookup (Path.resolve w.current path)

/-- Whether something lies below a path. -/
def isDirectory (w : Workplace) (path : String) : Bool :=
  let below := (Path.resolve w.current path) ++ "/"
  path ≠ "" && (w.files.any (fun f => f.1.startsWith below) || Path.resolve w.current path = w.current)

/-- Whether a path names a file of any kind. -/
def isFile (w : Workplace) (path : String) : Bool :=
  (w.content? path).isSome || (w.databases.lookup (Path.resolve w.current path)).isSome ||
    Path.resolve w.current path = "/dev/null"

/-- Whether there is something at a path. -/
def has (w : Workplace) (path : String) : Bool := w.isFile path || w.isDirectory path

/-- Reads a file. -/
def readFile (w : Workplace) (path : String) : Except String String :=
  match if path = "" then none else w.content? path with
  | some text => .ok text
  | none =>
    if w.isDirectory path then .error ("read " ++ path ++ ": is a directory")
    else if (Path.ancestors (Path.resolve w.current path)).tail.any w.isFile then
      .error ("open " ++ path ++ ": not a directory")
    else .error ("open " ++ path ++ ": no such file or directory")

/-- Whether the database at a path is seen by nobody else. -/
def isPrivate (path : String) : Bool := path = ":memory:" || path = ""

/-- Opens the history in a database, which is made if it is not there. -/
def openHistory (w : Workplace) (path : String) : Except String History :=
  if isPrivate path then .ok History.empty
  else
    match (Path.ancestors (Path.directory path)).find? w.isFile with
    | some blocked => .error ("failed to create directory: mkdir " ++ blocked ++ ": not a directory")
    | none =>
      match w.databases.lookup (Path.resolve w.current path) with
      | some h => .ok h
      | none =>
        if w.content? path = some "" then .ok History.empty
        else if w.isFile path then .error "failed to initialize schema: file is not a database (26)"
        else if w.isDirectory path then
          .error "failed to initialize schema: unable to open database file: is a directory (14)"
        else .ok History.empty

/-- Keeps a history in its database. -/
def keepHistory (w : Workplace) (path : String) (h : History) : Workplace :=
  if isPrivate path then w
  else
    let key := Path.resolve w.current path
    { w with databases := (key, h) :: w.databases.filter fun d => d.1 ≠ key }

end Workplace

end Primer
