import HamlTree.CommandLine.Scope

/-!
# Command lines

There are two commands, each with the path of a template, and one that explains them:

    [-v] [-o key=value]... check PATH
    [-v] [-o key=value]... tree PATH [--json]
    [-v] [-o key=value]... help [COMMAND]

The flag `-v` (or `--verbose`) and the option `-o` (or `--option`) may stand before the command,
after it, or both. A flag counts wherever it stands. When options stand in both scopes, those of the
command replace those before it. A fault in the scope of the command comes before one in the scope
around it. After `help` there is no such scope: the words that follow name what is to be explained.
-/

namespace HamlTree.CommandLine

/-- What to do with a template. -/
inductive Command where
  /-- Look for faults. -/
  | check
  /-- Print the tree, as an outline or as JSON. -/
  | tree (json : Bool)
deriving DecidableEq

/-- A command line that has been understood. -/
structure Invocation where
  /-- What to do. -/
  command : Command
  /-- The template. -/
  path : String
  /-- Whether to report the main steps. -/
  verbose : Bool
  /-- The options, in order. -/
  options : List (String × String)
deriving DecidableEq

/-- The command that stands before a scope. -/
def Scope.command? (inner : Scope) : Place → Option Command
  | .outer => none
  | .check => some .check
  | .tree => some (.tree inner.json)

namespace Invocation

/-- The invocation that two scopes describe. The command has to have a path. -/
def ofScopes (place : Place) (outer inner : Scope) : Except Reply Invocation :=
  match inner.command? place, inner.path? with
  | some command, some path =>
    .ok
      { command := command
        path := path
        verbose := outer.verbose || inner.verbose
        options := if inner.options.isEmpty then outer.options else inner.options }
  | _, _ => .error .usage

/-- The reply to the command `help` with the words after it. -/
def helpReply (words : List String) : Reply :=
  match Topic.ofWords? words with
  | some topic => .help topic
  | none => .usage

/-- Read the arguments before the command, the command and its arguments. -/
def ofArgsFrom (outer : Scope) : List String → Except Reply Invocation
  | [] => outer.settle.bind fun _ ↦ .error .usage
  | text :: rest =>
    match outer.opens? text with
    | none =>
      if outer.admitsCommand && text = "help" then .error (helpReply rest)
      else (outer.add .outer text).bind (ofArgsFrom · rest)
    | some place => do
      let inner ← Scope.addAll place {} rest
      if inner.path?.isNone then
        .error .usage
      else do
        let outer ← outer.settle
        ofScopes place outer inner

/-- Read a command line. -/
def ofArgs (args : List String) : Except Reply Invocation := ofArgsFrom {} args

end Invocation

end HamlTree.CommandLine
