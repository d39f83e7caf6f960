/-!
# Files

What a path leads to.  A path is a row of names with slashes between them; the name `.` and the empty
name lead nowhere else.
-/

namespace ProtoLisp

/-- What a path leads to. -/
inductive Entry where
  | file (bytes : ByteArray)
  | directory
  | missing
  /-- the path goes through a file as if that were a directory -/
  | blocked

namespace Entry

/-- The bytes of the file at `path`, or why there are none. -/
def read (path : String) : Entry → Except String ByteArray
  | .file bytes => .ok bytes
  | .directory => .error ("read " ++ path ++ ": is a directory")
  | .missing => .error ("open " ++ path ++ ": no such file or directory")
  | .blocked => .error ("open " ++ path ++ ": not a directory")

end Entry

/-- The files below a directory, by their paths. -/
abbrev Files := List (String × ByteArray)

namespace Files

/-- The names of a path that lead somewhere. -/
def names (path : String) : List String :=
  (path.splitOn "/").filter fun name => name != "" && name != "."

/-- What a path leads to from the directory.  Outside of it there is nothing. -/
def find (files : Files) (path : String) : Entry :=
  if path = "" ∨ path.startsWith "/" then .missing
  else
    let wanted := names path
    match files.find? fun (file, _) => names file == wanted with
    | some (_, bytes) => if path.endsWith "/" || path.endsWith "/." then .blocked else .file bytes
    | none =>
      if wanted.isEmpty || files.any (fun (file, _) => wanted.isPrefixOf (names file)) then .directory
      else if files.any (fun (file, _) => (names file).isPrefixOf wanted) then .blocked
      else .missing

end Files

end ProtoLisp
