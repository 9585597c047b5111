import HamlTree.Event
import HamlTree.Fault
import HamlTree.Keyword

/-!
# Drafts

A draft is a template whose last blocks are still open. It grows by nodes and by indentation: an
indented line opens a block under the newest node, a dedented one closes every block deeper than its
width, and closing hands the node, now with its children, back to the block around it.

A draft keeps the open blocks, innermost first. Each block knows its width, the node it belongs to —
its *owner* — and the siblings before that node; the nodes of the innermost block are collected
apart, newest first. Two facts are built into this representation: an open node is an owner, which a
leaf can never be, and there is always one width more than there are open nodes. What remains to be
an invariant is that the widths increase.

A line that fits no width is a fault, but the blocks it has closed stay closed.
-/

namespace HamlTree

/-- A node whose children are still being collected: all of it but the children and the flag, which
are not known before it is closed. -/
inductive Owner where
  /-- An element. -/
  | element (declaration : Declaration) (inline : Option Node)
  /-- A script. -/
  | script (mode : ScriptMode) (code : String)
deriving DecidableEq

namespace Owner

/-- The kind of the node. -/
def kind : Owner → Node.Kind
  | element _ _ => .element
  | script mode _ => .script mode

/-- The finished node; the flag counts for scripts only. -/
def close (midBlock : Bool) (children : List Node) : Owner → Node
  | element declaration inline => .element declaration inline children
  | script mode code => .script mode code midBlock children

/-- A finished node is of the kind it had while it was open. -/
@[simp] theorem kind_close (midBlock : Bool) (children : List Node) (o : Owner) :
    (o.close midBlock children).kind = o.kind := by
  cases o <;> rfl

/-- A finished node has the children that were collected for it. -/
@[simp] theorem children_close (midBlock : Bool) (children : List Node) (o : Owner) :
    (o.close midBlock children).children = children := by
  cases o <;> rfl

end Owner

/-- The owner that a node becomes when a block is opened under it, with the children that it has
already; nothing for a leaf. -/
def Node.reopen? : Node → Option (Owner × List Node)
  | element declaration inline children => some (.element declaration inline, children)
  | script mode code _ children => some (.script mode code, children)
  | leaf _ _ => none

/-! ### Open blocks -/

/-- A block that is still open. -/
structure OpenBlock where
  /-- The width at which the lines of the block stand. -/
  width : Nat
  /-- The node that the block belongs to. -/
  owner : Owner
  /-- The siblings before that node, newest first. -/
  before : List Node
deriving DecidableEq

namespace OpenBlock

/-- Close a block whose nodes have been collected, newest first. The result is the collected nodes
of the block around it, newest first. -/
def close (midBlock : Bool) (collected : List Node) (block : OpenBlock) : List Node :=
  block.owner.close midBlock collected.reverse :: block.before

/-- What is reported when a block is closed for a line with this width and text. -/
def closingEvents (width : Nat) (text : String) (block : OpenBlock) : List Event :=
  match block.owner with
  | .element _ _ => [.dedent width .element]
  | .script mode _ => [.keywordCheck text (continuesBlock text), .dedent width (.script mode)]

end OpenBlock

/-! ### Drafts -/

/-- A template under construction. -/
structure Draft where
  /-- The open blocks, innermost first. -/
  blocks : List OpenBlock := []
  /-- The nodes of the innermost block, newest first. -/
  collected : List Node := []
  /-- How many blocks have been opened so far. -/
  opened : Nat := 0
deriving DecidableEq, Inhabited

namespace Draft

/-- The widths of the open blocks, outermost first; the template itself is a block of width 0. -/
def widths (d : Draft) : List Nat := 0 :: (d.blocks.map (·.width)).reverse

/-- The width of the innermost block. -/
def width (d : Draft) : Nat :=
  match d.blocks with
  | [] => 0
  | block :: _ => block.width

@[simp] theorem widths_empty : ({} : Draft).widths = [0] := rfl

@[simp] theorem width_empty : ({} : Draft).width = 0 := rfl

/-- The width of the innermost block is the last of the widths. -/
theorem getLast?_widths (d : Draft) : d.widths.getLast? = some d.width := by
  rw [widths, width]
  cases d.blocks <;> simp [List.getLast?_cons]

/-- Add a node to the innermost block. -/
def add (d : Draft) (n : Node) : Draft := { d with collected := n :: d.collected }

/-! ### Closing blocks -/

/-- The open blocks deeper than a width, innermost first. -/
def deeper (d : Draft) (width : Nat) : List OpenBlock :=
  d.blocks.takeWhile fun block ↦ decide (width < block.width)

/-- Close every block deeper than a width. The text is that of the line which closes them. -/
def closeDeeper (d : Draft) (width : Nat) (text : String) : Draft where
  blocks := d.blocks.dropWhile fun block ↦ decide (width < block.width)
  collected := (d.deeper width).foldl (OpenBlock.close (continuesBlock text)) d.collected
  opened := d.opened

/-- What is reported when every block deeper than a width is closed. -/
def closingEvents (d : Draft) (width : Nat) (text : String) : List Event :=
  (d.deeper width).flatMap (OpenBlock.closingEvents width text)

/-- Close every block. No line causes it, so no script is carried on. -/
def closeAll (d : Draft) : Draft := d.closeDeeper 0 ""

/-- The template that a draft becomes when nothing more is added. -/
def toTemplate (d : Draft) : Template := ⟨d.closeAll.collected.reverse⟩

/-! ### Placing a line -/

/-- Where a line has led a draft. -/
structure Move where
  /-- The draft afterwards, also after a fault. -/
  draft : Draft
  /-- What was reported. -/
  events : List Event := []
  /-- What is wrong with the line, if anything. -/
  fault? : Option Fault := none

/-- Open a block under the newest node. A fault changes nothing. -/
def openBlock (d : Draft) (width line : Nat) : Move :=
  match d.collected with
  | [] => { draft := d, fault? := some .indentAtStart }
  | node :: before =>
    match node.reopen? with
    | none => { draft := d, fault? := some (.illegalNesting node.kind) }
    | some (owner, children) =>
      { draft :=
          { blocks := ⟨width, owner, before⟩ :: d.blocks
            collected := children.reverse
            opened := d.opened + 1 }
        events := [.indent width owner.kind line] }

/-- Close the blocks deeper than a width, after which it has to be the width of the innermost. -/
def returnTo (d : Draft) (width : Nat) (text : String) : Move :=
  let closed := d.closeDeeper width text
  { draft := closed
    events := d.closingEvents width text
    fault? := if closed.width = width then none else some (.inconsistentIndent width) }

/-- Move to where a line belongs. A line at the width of the innermost block closes nothing. -/
def moveTo (d : Draft) (l : LogicalLine) : Move :=
  if d.width < l.indent then d.openBlock l.indent l.line else d.returnTo l.indent l.text

end Draft

end HamlTree
