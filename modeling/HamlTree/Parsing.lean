import HamlTree.Draft
import HamlTree.Node.OfText
import HamlTree.Traced

/-!
# Parsing a template

The logical lines of a source are placed one after the other: the draft moves to the indentation of
the line, the text of the line becomes a node, and the node is added. The indentation is checked
before the text, and the first fault ends the parse. At the end of the source all open blocks are
closed.

`trace` does this and reports its events; `parse` is its result alone.
-/

namespace HamlTree

/-- What is reported when a node has been made from a line. -/
def Node.events (line : Nat) : Node → List Event
  | .element declaration _ _ => [.element declaration line]
  | _ => []

/-- The node that a line stands for, or its fault. -/
def LogicalLine.toNode (l : LogicalLine) : Traced Node :=
  match Node.ofText l.text.toList with
  | .ok node => ⟨node.events l.line, .ok node⟩
  | .error fault => ⟨[], .error ⟨fault, l.line⟩⟩

namespace Draft

/-- Move to where a line belongs, or stop at its fault. -/
def seek (d : Draft) (l : LogicalLine) : Traced Draft :=
  let move := d.moveTo l
  match move.fault? with
  | none => ⟨move.events, .ok move.draft⟩
  | some fault => ⟨move.events, .error ⟨fault, l.line⟩⟩

/-- Place a line. -/
def place (d : Draft) (l : LogicalLine) : Traced Draft := do
  Traced.report [.line l]
  let d ← d.seek l
  let node ← l.toNode
  return d.add node

/-- Place lines one after the other. -/
def placeAll (d : Draft) : List LogicalLine → Traced Draft
  | [] => pure d
  | l :: ls => do
    let d ← d.place l
    d.placeAll ls

/-- Place the lines that are not blank, leaving the blocks of the last one open. -/
def ofLines (lines : List LogicalLine) : Traced Draft :=
  placeAll {} (lines.filter (!·.isBlank))

end Draft

/-- Parse a source and report what happens. -/
def trace (source : String) : Traced Template := do
  Traced.report (Line.Group.events (lineGroups source))
  Traced.report [.started (logicalLines source).length]
  let d ← Draft.ofLines (logicalLines source)
  Traced.report (d.closingEvents 0 "")
  Traced.report [.finished d.toTemplate.size d.opened]
  return d.toTemplate

/-- Parse a source. -/
def parse (source : String) : Except ParseError Template := (trace source).result

end HamlTree
