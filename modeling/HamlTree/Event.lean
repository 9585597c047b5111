import HamlTree.Line.Logical
import HamlTree.Node.Outline

/-!
# Events

What a parse reports while it runs. An event is data — the line read, the block opened or closed,
the keyword looked for — and its wording is in one place (`Event.message`). The main steps are of
level *debug*, all the others of level *trace*.
-/

namespace HamlTree

open Text

/-- How much detail an event belongs to. -/
inductive Event.Level where
  /-- A main step. -/
  | debug
  /-- A detail. -/
  | trace
deriving DecidableEq

/-- How an event's level is written. -/
def Event.Level.name : Event.Level → String
  | debug => "DEBUG"
  | trace => "TRACE"

/-- Something that happened during a parse. -/
inductive Event where
  /-- An option is known to no part of the parser. -/
  | ignoredOption (key : String)
  /-- A run of raw lines became one logical line. -/
  | joinedLines (first last : Nat)
  /-- The logical lines are known and nothing else has been done. -/
  | started (lines : Nat)
  /-- A logical line is about to be placed. -/
  | line (line : LogicalLine)
  /-- A block was opened under a node. -/
  | indent (width : Nat) (kind : Node.Kind) (line : Nat)
  /-- A line was examined for a keyword that carries on the construct above it. -/
  | keywordCheck (text : String) (mid : Bool)
  /-- The block under a node was closed on the way to a width. -/
  | dedent (width : Nat) (kind : Node.Kind)
  /-- An element line was read. -/
  | element (declaration : Declaration) (line : Nat)
  /-- The template is complete, so many blocks having been opened. -/
  | finished (nodes blocks : Nat)
deriving DecidableEq

namespace Event

/-- The level of an event. -/
def level : Event → Level
  | ignoredOption _ => .debug
  | started _ => .debug
  | finished _ _ => .debug
  | _ => .trace

/-- How a truth value is written. -/
def flagName : Bool → String
  | true => "true"
  | false => "false"

/-- How an id that may be missing is written. -/
def idName : Option String → String
  | none => "None"
  | some id => "Some(" ++ quote id ++ ")"

/-- The text of an event. -/
def message : Event → String
  | ignoredOption key => s!"ignoring unknown parser option '{key}'"
  | joinedLines first last => s!"joined raw lines {first}..={last} into one logical line"
  | started lines => s!"parsing {lines} logical line(s)"
  | line l => s!"line {l.line} (indent {l.indent}): {l.text}"
  | indent width kind number => s!"indent to {width} under {kind.name} at line {number}"
  | keywordCheck text mid => s!"block keyword check {quote text}: mid_block={flagName mid}"
  | dedent width kind => s!"dedent to {width}, closing {kind.name}"
  | element d number =>
    s!"element %{d.tag} at line {number}: {d.classNames.length} class(es), id={idName d.id}"
  | finished nodes blocks => s!"parsed {nodes} node(s), {blocks} indent level change(s)"

end Event

/-- The joinings of a list of groups, in order. -/
def Line.Group.events : List Line.Group → List Event
  | [] => []
  | .single _ _ :: groups => events groups
  | .joined line _ more :: groups => .joinedLines line (line + more.length) :: events groups

end HamlTree
