import HamlTree.Json.Reader
import HamlTree.Json.Writer
import HamlTree.Node

/-!
# Trees as JSON

A node is an object with one member, named after the kind of the node. Elements and scripts have an
object of fields there, in a fixed order and with every field written, and leaves have their text.
Whatever is missing is `null`.

Reading is more lenient than writing: fields may come in any order, and a field that is missing or
`null` has its default — no text, no flag, no children. Only the tag of an element and the code of a
script have to be there.
-/

namespace HamlTree

open Json

namespace Node

/-! ### Writing -/

/-- The name under which a kind of node is written. -/
def Kind.jsonName : Kind → String
  | element => "Element"
  | script .output => "Script"
  | script .silent => "SilentScript"
  | leaf .doctype => "Doctype"
  | leaf .comment => "HtmlComment"
  | leaf .plainText => "Text"

/-- A text that may be missing. -/
def jsonText : Option String → Value
  | none => .null
  | some s => .string s

mutual

/-- A node as JSON. -/
def toJson : Node → Value
  | element d inline children =>
    .object [(Kind.element.jsonName, .object
      [("tag", .string d.tag),
       ("static_class", .string d.classes),
       ("static_id", jsonText d.id),
       ("old_attributes", jsonText d.braceAttributes),
       ("new_attributes", jsonText d.parenAttributes),
       ("inline", inlineToJson inline),
       ("children", .array (allToJson children))])]
  | script mode code midBlock children =>
    .object [((Kind.script mode).jsonName, .object
      [("code", .string code),
       ("mid_block_keyword", .bool midBlock),
       ("children", .array (allToJson children))])]
  | leaf kind text => .object [((Kind.leaf kind).jsonName, .string text)]

/-- An inline node as JSON. -/
def inlineToJson : Option Node → Value
  | none => .null
  | some n => toJson n

/-- Nodes as JSON, one by one. -/
def allToJson : List Node → List Value
  | [] => []
  | n :: ns => toJson n :: allToJson ns

end

/-! ### Reading -/

/-- The value of a field; a missing field is `null`. -/
def field (name : String) : List (String × Value) → Value
  | [] => .null
  | (key, v) :: fields => if key = name then v else field name fields

theorem sizeOf_field_le (name : String) (fields : List (String × Value)) :
    sizeOf (field name fields) ≤ sizeOf fields := by
  induction fields with
  | nil => simp [field]
  | cons f fields ih =>
    obtain ⟨key, v⟩ := f
    simp only [field]
    split
    · simp
      omega
    · simp
      omega

/-- A text that may be missing. -/
def textOf? : Value → Option (Option String)
  | .null => some none
  | .string s => some (some s)
  | _ => none

/-- A flag that may be missing. -/
def flagOf? : Value → Option Bool
  | .null => some false
  | .bool b => some b
  | _ => none

/-- The declaration that fields describe. -/
def declarationOf? (fields : List (String × Value)) : Option Declaration := do
  let tag ← (← textOf? (field "tag" fields))
  let classes ← textOf? (field "static_class" fields)
  let id ← textOf? (field "static_id" fields)
  let braces ← textOf? (field "old_attributes" fields)
  let parens ← textOf? (field "new_attributes" fields)
  return ⟨tag, classes.getD "", id, braces, parens⟩

/-- The script mode that a name stands for. -/
def scriptModeOf? : String → Option ScriptMode
  | "Script" => some .output
  | "SilentScript" => some .silent
  | _ => none

/-- The kind of leaf that a name stands for. -/
def leafKindOf? : String → Option LeafKind
  | "Doctype" => some .doctype
  | "HtmlComment" => some .comment
  | "Text" => some .plainText
  | _ => none

mutual

/-- The node that a value describes, if it describes one. -/
def ofJson? : Value → Option Node
  | .object [(name, .string text)] => do
    return .leaf (← leafKindOf? name) text
  | .object [(name, .object fields)] =>
    if name = Kind.element.jsonName then do
      let declaration ← declarationOf? fields
      let inline ← inlineOfJson? (field "inline" fields)
      let children ← allOfJson? (field "children" fields)
      return .element declaration inline children
    else do
      let mode ← scriptModeOf? name
      let code ← (← textOf? (field "code" fields))
      let midBlock ← flagOf? (field "mid_block_keyword" fields)
      let children ← allOfJson? (field "children" fields)
      return .script mode code midBlock children
  | _ => none
termination_by v => (sizeOf v, 0)
decreasing_by
  · have h := sizeOf_field_le "inline" fields
    simp_wf
    omega
  · have h := sizeOf_field_le "children" fields
    simp_wf
    omega
  · have h := sizeOf_field_le "children" fields
    simp_wf
    omega

/-- The inline node that a value describes; `null` describes none. -/
def inlineOfJson? (v : Value) : Option (Option Node) :=
  match v with
  | .null => some none
  | v => (ofJson? v).map some
termination_by (sizeOf v, 1)

/-- The nodes that a value describes; `null` describes none. -/
def allOfJson? (v : Value) : Option (List Node) :=
  match v with
  | .null => some []
  | .array items => itemsOfJson? items
  | _ => none
termination_by (sizeOf v, 1)

/-- The nodes that values describe. -/
def itemsOfJson? : List Value → Option (List Node)
  | [] => some []
  | v :: items => do
    let n ← ofJson? v
    let ns ← itemsOfJson? items
    return n :: ns
termination_by items => (sizeOf items, 1)

end

end Node

namespace Template

/-- A template as JSON. -/
def toJson (t : Template) : Value := .object [("children", .array (Node.allToJson t.nodes))]

/-- The template that a value describes, if it describes one. -/
def ofJson? : Value → Option Template
  | .object fields => (Node.allOfJson? (Node.field "children" fields)).map (⟨·⟩)
  | _ => none

end Template

end HamlTree
