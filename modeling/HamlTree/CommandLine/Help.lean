/-!
# Help

The program explains itself: as a whole, each of its commands, and the command `help` that asks for
these explanations. A request names at most one topic, so `help check` explains `check` and there is
nothing to explain below that.
-/

namespace HamlTree.CommandLine

/-- What can be explained. -/
inductive Topic where
  /-- The program as a whole. -/
  | program
  /-- The command `check`. -/
  | check
  /-- The command `tree`. -/
  | tree
  /-- The command `help`. -/
  | help
deriving DecidableEq

namespace Topic

/-- The topic that the words after `help` name. -/
def ofWords? : List String → Option Topic
  | [] => some program
  | ["check"] => some check
  | ["tree"] => some tree
  | ["help"] => some help
  | _ => none

/-- The lines on the path of a template. -/
def pathLines : List String :=
  ["Arguments:",
   "  <PATH>  Input template file",
   ""]

/-- The lines on what may stand in every scope. -/
def sharedLines : List String :=
  ["  -v, --verbose           Log parser decisions",
   "  -o, --option <OPTIONS>  Parser option as key=value (may be repeated)",
   "  -h, --help              Print help"]

/-- The lines of an explanation. -/
def lines : Topic → List String
  | program =>
    ["hamlite: indentation-sensitive HTML template parser",
     "",
     "Usage: hamlite [OPTIONS] <COMMAND>",
     "",
     "Commands:",
     "  check  Check a template for errors without printing the tree",
     "  tree   Print the parsed tree of a template",
     "  help   Print this message or the help of the given subcommand(s)",
     "",
     "Options:"] ++ sharedLines ++
    ["  -V, --version           Print version"]
  | check =>
    ["Check a template for errors without printing the tree",
     "",
     "Usage: hamlite check [OPTIONS] <PATH>",
     ""] ++ pathLines ++ ["Options:"] ++ sharedLines
  | tree =>
    ["Print the parsed tree of a template",
     "",
     "Usage: hamlite tree [OPTIONS] <PATH>",
     ""] ++ pathLines ++
    ["Options:",
     "      --json              Print the tree as JSON instead of an outline"] ++ sharedLines
  | help =>
    ["Print this message or the help of the given subcommand(s)",
     "",
     "Usage: hamlite help [COMMAND]...",
     "",
     "Arguments:",
     "  [COMMAND]...  Print help for the subcommand(s)"]

/-- An explanation as it is printed. -/
def text (t : Topic) : String := String.join (t.lines.map (· ++ "\n"))

end Topic

end HamlTree.CommandLine
