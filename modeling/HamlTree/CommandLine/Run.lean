import HamlTree.CommandLine.Directory
import HamlTree.CommandLine.Invocation
import HamlTree.Node.Json
import HamlTree.Options
import HamlTree.Parsing
import HamlTree.Text.Displayed

/-!
# Running a command

A run reads one file, parses it and says how that went: by its exit code, by what it prints and by
what it reports. `check` only reports, `tree` prints the outline or the JSON of the tree. A run is a
function of the files and of the command line. Nothing else of its surroundings counts, as the
environment variable that filters the report is taken to be unset: then `-v` alone decides whether
the main steps are reported.

A line of the report and a complaint about an option quote the command line, and only what a
terminal would show of it. The closing lines name the path as it was given.
-/

namespace HamlTree.CommandLine

open Text (displayed)

/-- What a run leaves behind. -/
structure Outcome where
  /-- The exit code. -/
  code : Nat
  /-- What is printed. -/
  stdout : String := ""
  /-- What is reported. -/
  stderr : String := ""
deriving DecidableEq

/-- The name of the program. -/
def programName : String := "hamlite"

/-- The version of the program. -/
def version : String := "0.1.0"

/-- What is said about the value of an option. -/
def PairFault.message (value : String) : PairFault → String
  | missingEquals => s!"invalid option '{value}': expected key=value"
  | emptyKey => s!"invalid option '{value}': empty key"

/-- The outcome of a command line that is not run. -/
def Reply.outcome : Reply → Outcome
  | version => { code := 0, stdout := s!"{programName} {CommandLine.version}\n" }
  | help topic => { code := 0, stdout := topic.text }
  | malformed value fault => { code := 2, stderr := displayed (fault.message value) }
  | usage => { code := 2 }

/-! ### The report -/

/-- A message with its further lines indented by four spaces. -/
def hanging (message : String) : String :=
  String.ofList (message.toList.flatMap fun c ↦
    if c = '\n' then ['\n', ' ', ' ', ' ', ' '] else [c])

/-- A line of the report. -/
def reportLine (origin message : String) : String :=
  displayed s!"[{Event.Level.debug.name} {origin}] {hanging message}\n"

/-- The part of the program that a main step belongs to. -/
def originOf : Event → String
  | .ignoredOption _ => "hamlite_parser::options"
  | _ => "hamlite_parser::parser"

/-- The main steps among events, as a report. -/
def report (events : List Event) : String :=
  String.join ((events.filter (·.level = .debug)).map fun e ↦ reportLine (originOf e) e.message)

/-! ### Runs -/

/-- What a command prints of a tree. -/
def Command.print (t : Template) : Command → String
  | check => ""
  | tree false => t.outline
  | tree true => t.toJson.pretty ++ "\n"

/-- What a command reports at its end. -/
def Command.farewell (path : String) : Command → String
  | check => s!"OK: {path}\n"
  | tree _ => ""

/-- Parse a text and carry out a command. -/
def Invocation.runText (i : Invocation) (source : String) : Outcome :=
  let options := Options.ofPairs i.options
  let traced := trace source
  let steps :=
    if i.verbose then
      reportLine programName s!"read {source.utf8ByteSize} byte(s) from {i.path}" ++
        report (options.events ++ traced.events)
    else
      ""
  match traced.result with
  | .ok t =>
    { code := 0
      stdout := i.command.print t
      stderr := steps ++ i.command.farewell i.path }
  | .error e => { code := 1, stderr := steps ++ s!"{i.path}: {e.display}\n" }

/-- Why a file that can be read is no text. -/
def notText : String := "stream did not contain valid UTF-8"

/-- Carry out a command, given what its path names. -/
def Invocation.run (i : Invocation) (content : Content) : Outcome :=
  match content with
  | .missing => { code := 1, stderr := s!"Error: file not found: {i.path}\n" }
  | .unreadable reason => { code := 1, stderr := s!"Error reading {i.path}: {reason}\n" }
  | .bytes b =>
    match String.fromUTF8? b with
    | none => { code := 1, stderr := s!"Error reading {i.path}: {notText}\n" }
    | some source => i.runText source

/-- Run a command line in a directory. -/
def runIn (d : Directory) (args : List String) : Outcome :=
  match Invocation.ofArgs args with
  | .error reply => reply.outcome
  | .ok i => i.run (d.read i.path)

end HamlTree.CommandLine
