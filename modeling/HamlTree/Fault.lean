import HamlTree.Node

/-!
# Faults

What can be wrong with a template. A fault is its cause with the data that its message names; the
wording is in one place (`Fault.message`), and the number of the line at fault is added where the
line is known (`ParseError`). A parse stops at its first fault, so there is never more than one.
-/

namespace HamlTree

/-- The two kinds of attribute block. -/
inductive Delimiter where
  /-- A block in braces. -/
  | brace
  /-- A block in parentheses. -/
  | paren
deriving DecidableEq

namespace Delimiter

/-- The character that opens a block. -/
def opening : Delimiter → Char
  | brace => '{'
  | paren => '('

/-- The character that closes a block. -/
def closing : Delimiter → Char
  | brace => '}'
  | paren => ')'

/-- How messages call the delimiter. -/
def name : Delimiter → String
  | brace => "brace"
  | paren => "parenthesis"

end Delimiter

/-- Why a template is refused. -/
inductive Fault where
  /-- A line begins with `!` but not with `!!!`. -/
  | invalidDoctype (text : String)
  /-- An element line has no tag name. -/
  | invalidElement (text : String)
  /-- A script marker has no code after it. -/
  | emptyCode (mode : ScriptMode)
  /-- An attribute block is never closed. -/
  | unmatched (delimiter : Delimiter)
  /-- The first line is indented. -/
  | indentAtStart
  /-- A line returns to a width at which no line of an open block stands. -/
  | inconsistentIndent (width : Nat)
  /-- A line is nested under a node that cannot have children. -/
  | illegalNesting (kind : Node.Kind)
deriving DecidableEq

/-- The categories of faults that callers tell apart. -/
inductive Fault.Category where
  /-- A doctype declaration is malformed. -/
  | invalidDoctype
  /-- An element declaration is malformed. -/
  | invalidElementDeclaration
  /-- Code is missing. -/
  | emptyCodeExpression
  /-- An attribute block is not closed. -/
  | unmatchedBrace
  /-- The indentation fits no enclosing block. -/
  | unexpectedIndentLevel
  /-- A node without children is given some. -/
  | illegalNesting
deriving DecidableEq

namespace Fault

/-- The category of a fault. -/
def category : Fault → Category
  | invalidDoctype _ => .invalidDoctype
  | invalidElement _ => .invalidElementDeclaration
  | emptyCode _ => .emptyCodeExpression
  | unmatched _ => .unmatchedBrace
  | indentAtStart => .unexpectedIndentLevel
  | inconsistentIndent _ => .unexpectedIndentLevel
  | illegalNesting _ => .illegalNesting

/-- The text of a fault. -/
def message : Fault → String
  | invalidDoctype text => s!"Invalid doctype declaration '{text}'"
  | invalidElement text => s!"Invalid element declaration '{text}'"
  | emptyCode mode => s!"There's no code for {mode.marker} to evaluate"
  | unmatched delimiter => s!"Unmatched {delimiter.name} in attribute list"
  | indentAtStart => "Indenting at the beginning of the document is illegal"
  | inconsistentIndent width =>
    s!"Inconsistent indentation: {width} spaces do not match any outer level"
  | illegalNesting kind => s!"Illegal nesting: nesting within {kind.name} is illegal"

end Fault

/-- A message with the number of the line it is about. -/
def atLine (message : String) (line : Nat) : String := s!"{message} at line {line}"

/-- The fault that ended a parse and the number of the line at fault. -/
structure ParseError where
  /-- The fault. -/
  fault : Fault
  /-- The number of the line, counted from 1. -/
  line : Nat
deriving DecidableEq

/-- The error as it is shown. -/
def ParseError.display (e : ParseError) : String := atLine e.fault.message e.line

end HamlTree
