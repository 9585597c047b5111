import HamlTree.CommandLine.Argument

/-!
# Scopes

Flags and options may stand before the command and after it, and each of the two places is a *scope*
with rules of its own: a flag may be given once, an option any number of times, and after `--` every
argument is a path.

A value that stands apart from its option is only examined when the next argument of the scope has
been understood, or at the end of the scope. So an argument that is not understood is reported
instead of a malformed value before it, while a request for help or for the version comes after it.
-/

namespace HamlTree.CommandLine

/-- An option whose value has not been examined yet. -/
inductive Pending where
  /-- There is none. -/
  | nothing
  /-- Its value is still to come. -/
  | awaited
  /-- Its value is known. -/
  | value (text : String)
deriving DecidableEq

/-- Where arguments stand. -/
inductive Place where
  /-- Before the command. -/
  | outer
  /-- After `check`. -/
  | check
  /-- After `tree`. -/
  | tree
deriving DecidableEq

/-- What a request for help is about. -/
def Place.topic : Place → Topic
  | outer => .program
  | check => .check
  | tree => .tree

/-- What the arguments of a scope have said so far. -/
structure Scope where
  /-- The flag `-v` was given. -/
  verbose : Bool := false
  /-- The flag `--json` was given. -/
  json : Bool := false
  /-- The options examined so far, in order. -/
  options : List (String × String) := []
  /-- The option still to be examined. -/
  pending : Pending := .nothing
  /-- Two hyphens alone were given. -/
  escaped : Bool := false
  /-- The path. -/
  path? : Option String := none
deriving DecidableEq

namespace Scope

/-- Examine the pending option. -/
def settle (s : Scope) : Except Reply Scope :=
  match s.pending with
  | .nothing => .ok s
  | .awaited => .error .usage
  | .value text => (pairOf text).map fun pair ↦
      { s with options := s.options ++ [pair], pending := .nothing }

/-- The flag `-v`. -/
def addVerbose (s : Scope) : Except Reply Scope := do
  let s ← s.settle
  if s.verbose then .error .usage else .ok { s with verbose := true }

/-- The flag `--json`. -/
def addJson (s : Scope) : Except Reply Scope := do
  let s ← s.settle
  if s.json then .error .usage else .ok { s with json := true }

/-- The option `-o`, with a value attached to it or without one. -/
def addOption (attached? : Option String) (s : Scope) : Except Reply Scope := do
  let s ← s.settle
  match attached? with
  | none => .ok { s with pending := .awaited }
  | some text => (pairOf text).map fun pair ↦ { s with options := s.options ++ [pair] }

/-- A path; the scope of a command takes one. -/
def addPath (place : Place) (text : String) (s : Scope) : Except Reply Scope :=
  if place = .outer ∨ s.path?.isSome then
    .error .usage
  else do
    let s ← s.settle
    .ok { s with path? := some text }

/-- The request for the version, which only stands before the command. -/
def askVersion (place : Place) (s : Scope) : Except Reply Scope :=
  if place = .outer then do
    let _ ← s.settle
    .error .version
  else
    .error .usage

/-- The request for help. -/
def askHelp (place : Place) (s : Scope) : Except Reply Scope := do
  let _ ← s.settle
  .error (.help place.topic)

/-- An argument with two hyphens. -/
def addLong (place : Place) (name : List Char) (value? : Option String) (s : Scope) :
    Except Reply Scope :=
  match String.ofList name, value? with
  | "option", value? => s.addOption value?
  | "verbose", none => s.addVerbose
  | "version", none => s.askVersion place
  | "help", none => s.askHelp place
  | "json", none => if place = .tree then s.addJson else .error .usage
  | _, _ => .error .usage

/-- What is attached to the letter of an option: an equals sign between them is left out. -/
def attached? : List Char → Option String
  | [] => none
  | '=' :: rest => some (String.ofList rest)
  | text => some (String.ofList text)

/-- Letters after one hyphen. -/
def addShort (place : Place) : List Char → Scope → Except Reply Scope
  | [], s => .ok s
  | c :: letters, s =>
    match c with
    | 'v' => s.addVerbose.bind (addShort place letters)
    | 'o' => s.addOption (attached? letters)
    | 'V' => s.askVersion place
    | 'h' => s.askHelp place
    | _ => .error .usage

/-- One argument of a scope. -/
def add (place : Place) (text : String) (s : Scope) : Except Reply Scope :=
  if s.escaped then
    s.addPath place text
  else
    match Argument.ofText text with
    | .escape => .ok { s with escaped := true }
    | .long name value? => s.addLong place name value?
    | .short letters => s.addShort place letters
    | .plain =>
      if s.pending = .awaited then .ok { s with pending := .value text }
      else s.addPath place text

/-- All arguments of a scope. -/
def addAll (place : Place) (s : Scope) : List String → Except Reply Scope
  | [] => s.settle
  | text :: rest => (s.add place text).bind (addAll place · rest)

/-- Whether the next argument may be the name of a command. -/
def admitsCommand (s : Scope) : Bool := !s.escaped && s.pending ≠ .awaited

/-- The scope that an argument opens, if it names a command where one may stand. -/
def opens? (s : Scope) (text : String) : Option Place :=
  if !s.admitsCommand then none
  else if text = "check" then some .check
  else if text = "tree" then some .tree
  else none

end Scope

end HamlTree.CommandLine
