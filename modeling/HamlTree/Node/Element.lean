import HamlTree.Node.Code

/-!
# Element lines

An element line is read from left to right in four stages, each of which takes the longest piece it
can and leaves the rest to the next:

1. the tag name, which may not be empty;
2. any number of shorthands, `.class` or `#id` — a shorthand without a name counts for nothing, and
   the last id wins;
3. at most one attribute block in braces and one in parentheses, in either order, whose interiors
   are kept verbatim (`balanced?` counts the block's own delimiter only);
4. the content: code after `=`, or text, or nothing.

A second block of a kind already read is content. Of two faults on one line the leftmost stage wins.
-/

namespace HamlTree.Node

open Text

/-! ### The tag and the shorthands -/

/-- Whether a character can be part of a tag name. -/
def isTagChar (c : Char) : Bool := c.isAlphanum || c == '-' || c == ':' || c == '_'

/-- Whether a character can be part of a class name or an id. -/
def isNameChar (c : Char) : Bool := c.isAlphanum || c == '-' || c == '_'

/-- A shorthand attribute, whose name may be empty. -/
inductive Shorthand where
  /-- A class, introduced by a full stop. -/
  | ofClass (name : List Char)
  /-- An id, introduced by a number sign. -/
  | ofId (name : List Char)
deriving DecidableEq

/-- The name of a class shorthand that has one. -/
def Shorthand.class? : Shorthand → Option (List Char)
  | ofClass (c :: name) => some (c :: name)
  | _ => none

/-- The name of an id shorthand that has one. -/
def Shorthand.id? : Shorthand → Option (List Char)
  | ofId (c :: name) => some (c :: name)
  | _ => none

/-- The shorthands at the beginning of a text, and the rest. -/
def shorthands (s : List Char) : List Shorthand × List Char :=
  match s with
  | '.' :: rest =>
    let after := shorthands (rest.dropWhile isNameChar)
    (.ofClass (rest.takeWhile isNameChar) :: after.1, after.2)
  | '#' :: rest =>
    let after := shorthands (rest.dropWhile isNameChar)
    (.ofId (rest.takeWhile isNameChar) :: after.1, after.2)
  | s => ([], s)
termination_by s.length
decreasing_by
  all_goals
    have h := (List.dropWhile_suffix (l := rest) isNameChar).length_le
    simp only [List.length_cons]
    omega

theorem shorthands_class (rest : List Char) :
    shorthands ('.' :: rest) =
      (.ofClass (rest.takeWhile isNameChar) :: (shorthands (rest.dropWhile isNameChar)).1,
        (shorthands (rest.dropWhile isNameChar)).2) := by
  rw [shorthands]

theorem shorthands_id (rest : List Char) :
    shorthands ('#' :: rest) =
      (.ofId (rest.takeWhile isNameChar) :: (shorthands (rest.dropWhile isNameChar)).1,
        (shorthands (rest.dropWhile isNameChar)).2) := by
  rw [shorthands]

/-- A text that begins otherwise has no shorthands. -/
theorem shorthands_of_head {s : List Char} (hclass : s.head? ≠ some '.')
    (hid : s.head? ≠ some '#') : shorthands s = ([], s) := by
  rw [shorthands.eq_def]
  split
  · simp at hclass
  · simp at hid
  · rfl

/-! ### Attribute blocks -/

/-- From inside a block, at the given depth below it: the interior up to the delimiter that closes
the block, after what has been read of it already (last character first), and the rest. -/
def balanced? (d : Delimiter) (depth : Nat) (read : List Char) :
    List Char → Option (List Char × List Char)
  | [] => none
  | c :: rest =>
    if c = d.opening then
      balanced? d (depth + 1) (c :: read) rest
    else if c = d.closing then
      match depth with
      | 0 => some (read.reverse, rest)
      | depth + 1 => balanced? d depth (c :: read) rest
    else
      balanced? d depth (c :: read) rest

/-- What has been read only goes in front of the interior. -/
theorem balanced?_eq_map (d : Delimiter) (depth : Nat) (read s : List Char) :
    balanced? d depth read s =
      (balanced? d depth [] s).map fun p ↦ (read.reverse ++ p.1, p.2) := by
  induction s generalizing depth read with
  | nil => rfl
  | cons c s ih =>
    simp only [balanced?]
    split
    · rw [ih _ (c :: read), ih _ [c]]
      simp [Option.map_map, Function.comp_def]
    · split
      · cases depth with
        | zero => simp
        | succ depth =>
          simp only
          rw [ih _ (c :: read), ih _ [c]]
          simp [Option.map_map, Function.comp_def]
      · rw [ih _ (c :: read), ih _ [c]]
        simp [Option.map_map, Function.comp_def]

/-- The block of one kind at the beginning of a text, if there is one, and the rest. -/
def attributeBlock (d : Delimiter) (s : List Char) :
    Except Fault (Option (List Char) × List Char) :=
  match s with
  | [] => .ok (none, [])
  | c :: rest =>
    if c = d.opening then
      match balanced? d 0 [] rest with
      | some (interior, rest) => .ok (some interior, rest)
      | none => .error (.unmatched d)
    else
      .ok (none, c :: rest)

/-- What the attribute blocks of an element line hold. -/
structure AttributeBlocks where
  /-- The interior of the block in braces. -/
  braces : Option (List Char)
  /-- The interior of the block in parentheses. -/
  parens : Option (List Char)
deriving DecidableEq

/-- The attribute blocks at the beginning of a text, in either order, and the rest. -/
def attributeBlocks (s : List Char) : Except Fault (AttributeBlocks × List Char) :=
  if s.head? = some '(' then do
    let (parens, rest) ← attributeBlock .paren s
    let (braces, rest) ← attributeBlock .brace rest
    return (⟨braces, parens⟩, rest)
  else do
    let (braces, rest) ← attributeBlock .brace s
    let (parens, rest) ← attributeBlock .paren rest
    return (⟨braces, parens⟩, rest)

/-! ### The content and the whole line -/

/-- The node that the content of an element line stands for. -/
def inlineContent (s : List Char) : Except Fault (Option Node) :=
  match trimStart s with
  | [] => .ok none
  | '=' :: code => (ofScript .output code).map some
  | text => .ok (some (.leaf .plainText (String.ofList text)))

/-- An element line without its marker; the marker may be missing. -/
def dropElementMarker : List Char → List Char
  | '%' :: rest => rest
  | s => s

/-- The declaration that the pieces of an element line make up. -/
def declaration (tag : List Char) (names : List Shorthand) (blocks : AttributeBlocks) :
    Declaration where
  tag := String.ofList tag
  classes := String.ofList ([' '].intercalate (names.filterMap Shorthand.class?))
  id := (names.filterMap Shorthand.id?).getLast?.map String.ofList
  braceAttributes := blocks.braces.map String.ofList
  parenAttributes := blocks.parens.map String.ofList

/-- Read an element line. -/
def ofElement (text : List Char) : Except Fault Node :=
  let s := dropElementMarker text
  let tag := s.takeWhile isTagChar
  if tag.isEmpty then
    .error (.invalidElement (String.ofList text))
  else do
    let (names, rest) := shorthands (s.dropWhile isTagChar)
    let (blocks, rest) ← attributeBlocks rest
    let inline ← inlineContent rest
    return .element (declaration tag names blocks) inline []

end HamlTree.Node
