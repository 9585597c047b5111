import HamlTree.CommandLine.Help

/-!
# Arguments

A single argument of a command line is told by its hyphens: two of them begin the name of a flag or
an option, one begins letters, and two alone end both. Everything else, a lone hyphen and the empty
argument included, is plain.

The value of an option is a pair written `key=value`. The key ends at the first equals sign and may
not be empty.
-/

namespace HamlTree.CommandLine

/-- What can be wrong with the value of an option. -/
inductive PairFault where
  /-- There is no equals sign. -/
  | missingEquals
  /-- Nothing stands before the equals sign. -/
  | emptyKey
deriving DecidableEq

/-- What a command line gets in place of a run. -/
inductive Reply where
  /-- The version was asked for. -/
  | version
  /-- An explanation was asked for. -/
  | help (topic : Topic)
  /-- The value of an option is malformed. -/
  | malformed (value : String) (fault : PairFault)
  /-- The command line cannot be understood otherwise. -/
  | usage
deriving DecidableEq

/-- An argument by its form. -/
inductive Argument where
  /-- Two hyphens alone. -/
  | escape
  /-- Two hyphens and a name, with a value after an equals sign or without one. -/
  | long (name : List Char) (value? : Option String)
  /-- A hyphen and letters. -/
  | short (letters : List Char)
  /-- Anything else. -/
  | plain
deriving DecidableEq

/-- A text before its first equals sign, and what follows the sign if there is one. -/
def splitEquals (s : List Char) : List Char × Option String :=
  (s.takeWhile (· != '='),
    match s.dropWhile (· != '=') with
    | [] => none
    | _ :: value => some (String.ofList value))

/-- The form of an argument. -/
def Argument.ofText (text : String) : Argument :=
  match text.toList with
  | ['-', '-'] => .escape
  | '-' :: '-' :: rest =>
    let (name, value?) := splitEquals rest
    .long name value?
  | '-' :: c :: rest => .short (c :: rest)
  | _ => .plain

/-- The key and the value of an option. -/
def pairOf (text : String) : Except Reply (String × String) :=
  match splitEquals text.toList with
  | (_, none) => .error (.malformed text .missingEquals)
  | ([], some _) => .error (.malformed text .emptyKey)
  | (key, some value) => .ok (String.ofList key, value)

end HamlTree.CommandLine
