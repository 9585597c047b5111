import HamlTree.Node.Order
import HamlTree.Text.Blank
import HamlTree.Text.Quoted

/-!
# Outlines

The outline shows how a template nested: one line per node in document order, two spaces per level,
then a label. The label of an element repeats its declaration in shorthand form and ends with the
label of its inline node; a script shows its marker and its code; plain text is quoted, so blanks at
its ends can be seen. It is a view for people and not a template.
-/

namespace HamlTree

open Text

/-- The class names of a declaration. -/
def Declaration.classNames (d : Declaration) : List String :=
  (words d.classes.toList).map String.ofList

/-- A declaration in shorthand form. -/
def Declaration.label (d : Declaration) : String :=
  "%" ++ d.tag ++ String.join (d.classNames.map ("." ++ ·)) ++
    (d.id.map ("#" ++ ·)).getD "" ++
    (d.braceAttributes.map ("\x7b" ++ · ++ "\x7d")).getD "" ++
    (d.parenAttributes.map ("(" ++ · ++ ")")).getD ""

namespace Node

/-- The label of a node, its inline node included. -/
def label : Node → String
  | element declaration none _ => declaration.label
  | element declaration (some inline) _ => declaration.label ++ " " ++ inline.label
  | script mode code midBlock _ =>
    mode.marker.toString ++ " " ++ code ++ if midBlock then " [mid-block]" else ""
  | leaf .doctype text => text
  | leaf .comment text => "/ " ++ text
  | leaf .plainText text => quote text

/-- The indentation of a line of the outline. -/
def outlineIndent (depth : Nat) : String := String.ofList (List.replicate (2 * depth) ' ')

mutual

/-- The lines of the outline of a tree whose root stands at the given depth. -/
def outlineLines (depth : Nat) : Node → List String
  | element declaration inline children =>
    (outlineIndent depth ++ (element declaration inline []).label) ::
      outlineLinesAll (depth + 1) children
  | script mode code midBlock children =>
    (outlineIndent depth ++ (script mode code midBlock []).label) ::
      outlineLinesAll (depth + 1) children
  | leaf kind text => [outlineIndent depth ++ (leaf kind text).label]

/-- The lines of the outlines of a list of trees. -/
def outlineLinesAll (depth : Nat) : List Node → List String
  | [] => []
  | n :: ns => outlineLines depth n ++ outlineLinesAll depth ns

end

/-- The outline of a tree is its own line, then the outlines of its children one level deeper. -/
theorem outlineLines_eq (depth : Nat) (n : Node) :
    n.outlineLines depth =
      (outlineIndent depth ++ n.label) :: outlineLinesAll (depth + 1) n.children := by
  match n with
  | element _ none _ => simp [outlineLines, label, children]
  | element _ (some _) _ => simp [outlineLines, label, children]
  | script _ _ _ _ => simp [outlineLines, label, children]
  | leaf _ _ => simp [outlineLines, children, outlineLinesAll]

end Node

namespace Template

/-- The outline of a template, every line ended by a line feed. -/
def outline (t : Template) : String :=
  String.join ((Node.outlineLinesAll 0 t.nodes).map (· ++ "\n"))

instance : ToString Template := ⟨outline⟩

end Template

end HamlTree
