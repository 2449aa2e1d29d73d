/-!
# Paths

Paths of files, with `/` between their parts. A path is cleaned by dropping empty parts and `.`, and by
letting `..` take back the part before it.
-/

set_option autoImplicit false

namespace Primer.Path

/-- Whether a path starts at the root. -/
def isAbsolute (path : String) : Bool := path.toList.head? = some '/'

/-- Adds a part to cleaned parts, which are kept in reverse. -/
def addPart (absolute : Bool) (done : List String) (part : String) : List String :=
  if part = "" || part = "." then done
  else if part = ".." then
    match done with
    | [] => if absolute then [] else [".."]
    | last :: rest => if last = ".." then ".." :: last :: rest else rest
  else part :: done

/-- The cleaned parts of a path. -/
def parts (path : String) : List String :=
  ((path.splitOn "/").foldl (addPart (isAbsolute path)) []).reverse

/-- A path made of cleaned parts. -/
def ofParts (absolute : Bool) (parts : List String) : String :=
  let joined := String.intercalate "/" parts
  if absolute then "/" ++ joined else if parts.isEmpty then "." else joined

/-- A cleaned path. -/
def clean (path : String) : String := ofParts (isAbsolute path) (parts path)

/-- A path below another one. -/
def join (directory path : String) : String := clean (directory ++ "/" ++ path)

/-- The directory of what a path names. -/
def directory (path : String) : String :=
  let last := (path.toList.reverse.takeWhile (· ≠ '/')).length
  clean (String.ofList (path.toList.take (path.length - last)))

/-- A path from the root on, seen from a directory. -/
def resolve (current path : String) : String := if isAbsolute path then clean path else join current path

/-- A directory and those above it, up to the root. -/
def ancestors (path : String) : List String :=
  let absolute := isAbsolute path
  let all := parts path
  (List.range (all.length + 1)).reverse.map fun n => ofParts absolute (all.take n)

end Primer.Path
