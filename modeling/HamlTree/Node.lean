/-!
# Template trees

A parsed template is a forest of nodes. Three shapes suffice: an *element* with its declaration, an
optional inline node and nested children; a *script*, whose code is either output or evaluated
silently, with nested children; and a *leaf* (doctype, comment or plain text), which is only text.

Nothing is assumed of the strings or of the inline node: a tree is any value of the type, and what
the parser guarantees beyond that is a matter of theorems about the parser.
-/

namespace HamlTree

/-- What an element line declares before its content. -/
structure Declaration where
  /-- The tag name. -/
  tag : String
  /-- The shorthand classes in source order, joined by spaces; empty when there are none. -/
  classes : String := ""
  /-- The last shorthand id. -/
  id : Option String := none
  /-- The interior of the attribute block in braces, verbatim. -/
  braceAttributes : Option String := none
  /-- The interior of the attribute block in parentheses, verbatim. -/
  parenAttributes : Option String := none
deriving DecidableEq, Inhabited

/-- What becomes of the value of a script. -/
inductive ScriptMode where
  /-- It is written into the page. -/
  | output
  /-- It is dropped; only the effect counts. -/
  | silent
deriving DecidableEq

/-- The character that introduces a script of this mode. -/
def ScriptMode.marker : ScriptMode → Char
  | output => '='
  | silent => '-'

/-- The nodes that cannot have children. -/
inductive LeafKind where
  /-- A doctype declaration, stored as written. -/
  | doctype
  /-- A comment, stored without its marker. -/
  | comment
  /-- Any other text. -/
  | plainText
deriving DecidableEq

/-- A node of a template. -/
inductive Node where
  /-- An element, with the node written on its own line, if any. -/
  | element (declaration : Declaration) (inline : Option Node) (children : List Node)
  /-- A script. The flag says that the line after its nested block carries on the construct. -/
  | script (mode : ScriptMode) (code : String) (midBlock : Bool) (children : List Node)
  /-- A node without children. -/
  | leaf (kind : LeafKind) (text : String)

/-- A whole template: its top-level nodes, in order. -/
structure Template where
  /-- The top-level nodes. -/
  nodes : List Node := []

namespace Node

instance : Inhabited Node := ⟨.leaf .plainText ""⟩

/-! ### Kinds -/

/-- The kinds of node that a message can name. -/
inductive Kind where
  /-- An element. -/
  | element
  /-- A script of either mode. -/
  | script (mode : ScriptMode)
  /-- A node without children. -/
  | leaf (kind : LeafKind)
deriving DecidableEq

/-- How messages call a kind. -/
def Kind.name : Kind → String
  | element => "element"
  | script .output => "script"
  | script .silent => "silent script"
  | leaf .doctype => "doctype"
  | leaf .comment => "comment"
  | leaf .plainText => "plain text"

/-- The kind of a node. -/
def kind : Node → Kind
  | element _ _ _ => .element
  | script mode _ _ _ => .script mode
  | leaf kind _ => .leaf kind

/-! ### Parts of a node -/

/-- The nested children; none at all for a leaf. -/
def children? : Node → Option (List Node)
  | element _ _ children => some children
  | script _ _ _ children => some children
  | leaf _ _ => none

/-- The nested children, none for a leaf. -/
def children : Node → List Node
  | element _ _ children => children
  | script _ _ _ children => children
  | leaf _ _ => []

/-- The code of a script. -/
def code? : Node → Option String
  | script _ code _ _ => some code
  | _ => none

/-- Change the children of a node that can have some. -/
def modifyChildren (f : List Node → List Node) : Node → Node
  | element declaration inline children => element declaration inline (f children)
  | script mode code midBlock children => script mode code midBlock (f children)
  | leaf kind text => leaf kind text

/-- Change the flag of a script. -/
def modifyMidBlock (f : Bool → Bool) : Node → Node
  | script mode code midBlock children => script mode code (f midBlock) children
  | node => node

theorem children_eq_getD (n : Node) : n.children = n.children?.getD [] := by
  cases n <;> rfl

theorem children?_modifyChildren (f : List Node → List Node) (n : Node) :
    (n.modifyChildren f).children? = n.children?.map f := by
  cases n <;> rfl

@[simp] theorem children?_modifyMidBlock (f : Bool → Bool) (n : Node) :
    (n.modifyMidBlock f).children? = n.children? := by
  cases n <;> rfl

/-! ### Equality -/

mutual

/-- Equality of nodes, decided part by part. -/
def decEq : (m n : Node) → Decidable (m = n)
  | element d i cs, element d' i' cs' =>
    if hd : d = d' then
      match decEqInline i i' with
      | isTrue hi =>
        match decEqAll cs cs' with
        | isTrue hc => isTrue (by rw [hd, hi, hc])
        | isFalse hc => isFalse fun h ↦ hc (by injection h)
      | isFalse hi => isFalse fun h ↦ hi (by injection h)
    else
      isFalse fun h ↦ hd (by injection h)
  | script m c b cs, script m' c' b' cs' =>
    if hs : m = m' ∧ c = c' ∧ b = b' then
      match decEqAll cs cs' with
      | isTrue hc => isTrue (by rw [hs.1, hs.2.1, hs.2.2, hc])
      | isFalse hc => isFalse fun h ↦ hc (by injection h)
    else
      isFalse fun h ↦ hs (by injection h with hm hc hb; exact ⟨hm, hc, hb⟩)
  | leaf k s, leaf k' s' =>
    if h : k = k' ∧ s = s' then
      isTrue (by rw [h.1, h.2])
    else
      isFalse fun e ↦ h (by injection e with hk hs; exact ⟨hk, hs⟩)
  | element _ _ _, script _ _ _ _ => isFalse nofun
  | element _ _ _, leaf _ _ => isFalse nofun
  | script _ _ _ _, element _ _ _ => isFalse nofun
  | script _ _ _ _, leaf _ _ => isFalse nofun
  | leaf _ _, element _ _ _ => isFalse nofun
  | leaf _ _, script _ _ _ _ => isFalse nofun

/-- Equality of inline nodes. -/
def decEqInline : (m n : Option Node) → Decidable (m = n)
  | none, none => isTrue rfl
  | some m, some n =>
    match decEq m n with
    | isTrue h => isTrue (by rw [h])
    | isFalse h => isFalse fun e ↦ h (by injection e)
  | none, some _ => isFalse nofun
  | some _, none => isFalse nofun

/-- Equality of lists of nodes. -/
def decEqAll : (ms ns : List Node) → Decidable (ms = ns)
  | [], [] => isTrue rfl
  | m :: ms, n :: ns =>
    match decEq m n with
    | isTrue h =>
      match decEqAll ms ns with
      | isTrue hs => isTrue (by rw [h, hs])
      | isFalse hs => isFalse fun e ↦ hs (by injection e)
    | isFalse h => isFalse fun e ↦ h (by injection e)
  | [], _ :: _ => isFalse nofun
  | _ :: _, [] => isFalse nofun

end

instance : DecidableEq Node := decEq

end Node

deriving instance DecidableEq, Inhabited for Template

end HamlTree
