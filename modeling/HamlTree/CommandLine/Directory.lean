/-!
# A directory of templates

What a path names, seen from inside a directory that holds files and empty directories and nothing
else. The way to a file may pass through the directory itself (`./a`) and in and out of an empty
directory (`d/../a`), but a file is no place to pass through, and what lies outside is unknown.
-/

namespace HamlTree.CommandLine

/-- What is found when a path is to be read. -/
inductive Content where
  /-- Nothing bears this name. -/
  | missing
  /-- It cannot be read, and why. -/
  | unreadable (reason : String)
  /-- The bytes of a file. -/
  | bytes (b : ByteArray)

/-- The content of a directory. -/
def Content.ofDirectory : Content := .unreadable "Is a directory (os error 21)"

/-- An entry of the directory. -/
inductive Entry where
  /-- A file with its bytes. -/
  | file (b : ByteArray)
  /-- An empty directory. -/
  | folder

/-- A directory: its entries by name. -/
structure Directory where
  /-- The entries. -/
  entries : List (String × Entry)

namespace Directory

/-- How far a path has led. -/
inductive Position where
  /-- The directory itself. -/
  | here
  /-- An empty directory in it. -/
  | inFolder
  /-- Above the directory. -/
  | outside
  /-- A file. -/
  | atFile (b : ByteArray)
  /-- Nowhere. -/
  | nowhere

/-- One component of a path further. -/
def follow (d : Directory) (position : Position) (component : String) : Position :=
  match position, component with
  | .here, "" => .here
  | .here, "." => .here
  | .here, ".." => .outside
  | .here, name =>
    match d.entries.lookup name with
    | some (.file b) => .atFile b
    | some .folder => .inFolder
    | none => .nowhere
  | .inFolder, "" => .inFolder
  | .inFolder, "." => .inFolder
  | .inFolder, ".." => .here
  | .outside, "" => .outside
  | .outside, "." => .outside
  | .outside, ".." => .outside
  | _, _ => .nowhere

/-- The components of a path: what stands between its slashes. -/
def components (path : List Char) : List String :=
  match _h : path.dropWhile (· != '/') with
  | [] => [String.ofList path]
  | _ :: rest => String.ofList (path.takeWhile (· != '/')) :: components rest
termination_by path.length
decreasing_by
  have h := (List.dropWhile_suffix (l := path) (· != '/')).length_le
  rw [_h, List.length_cons] at h
  omega

/-- What is found under a path. The empty path and a path with a null character name nothing. -/
def read (d : Directory) (path : String) : Content :=
  if path.isEmpty ∨ path.toList.contains '\x00' then
    .missing
  else
    let start : Position := if path.toList.head? = some '/' then .outside else .here
    match (components path.toList).foldl d.follow start with
    | .atFile b => .bytes b
    | .nowhere => .missing
    | _ => .ofDirectory

end Directory

end HamlTree.CommandLine
