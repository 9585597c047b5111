import HamlTree.Text.Blank
import HamlTree.Text.WordChar

/-!
# Block keywords

A code line can begin with a keyword of the template's scripting language that says how it relates
to the block before it: `else`, `when` or `end` carry on an open construct (**mid** keywords), while
`if` or `case` start one (**start** keywords), also as the value of an assignment, as in
`a, b = case v`. Nothing else of the language is understood.

The leading hyphen of a code line is optional here, a keyword must end where a word ends, and mid
keywords are tried first. The assignment is tried before the bare start keyword, so `if = begin`
starts with `begin`; when the assigned value is no keyword the bare reading still counts.
-/

namespace HamlTree

open Text

/-- A keyword found at the beginning of a line. -/
inductive Keyword where
  /-- The line carries on the construct above it. -/
  | mid (word : String)
  /-- The line starts a construct. -/
  | start (word : String)
deriving DecidableEq

namespace Keyword

/-- The keywords that carry on a construct. -/
def midWords : List String := ["else", "elsif", "rescue", "ensure", "end", "when"]

/-- The keywords that start a construct. -/
def startWords : List String := ["if", "begin", "case", "unless"]

/-- The keyword itself. -/
def word : Keyword → String
  | mid word => word
  | start word => word

/-- Whether the keyword carries on a construct. -/
def isMid : Keyword → Bool
  | mid _ => true
  | start _ => false

/-! ### Recognition -/

/-- Whether a text begins with a keyword that ends where a word ends. -/
def leads (s : List Char) (word : String) : Bool :=
  word.toList.isPrefixOf s && atWordEnd (s.drop word.length)

/-- What follows the words, commas and equals sign of an assignment at the beginning of a text. -/
def assigned? (s : List Char) : Option (List Char) :=
  if (s.takeWhile isWord).isEmpty then
    none
  else
    match _h : trimStart (s.dropWhile isWord) with
    | '=' :: rest => some (trimStart rest)
    | ',' :: rest => assigned? (trimStart rest)
    | _ => none
termination_by s.length
decreasing_by
  have h₁ := length_trimStart_le (s.dropWhile isWord)
  have h₂ := (List.dropWhile_suffix (l := s) isWord).length_le
  have h₃ := length_trimStart_le rest
  simp only [_h, List.length_cons] at h₁
  omega

/-- A code line without its hyphen and the blanks after it. -/
def body : List Char → List Char
  | '-' :: rest => trimStart rest
  | s => trimStart s

/-- The keyword at the beginning of a line, if there is one. -/
def find? (text : String) : Option Keyword :=
  let s := body text.toList
  let value := (assigned? s).bind fun rest ↦ startWords.find? (leads rest)
  ((midWords.find? (leads s)).map mid) <|>
    ((value <|> startWords.find? (leads s)).map start)

end Keyword

/-- Whether a line carries on the construct above it. -/
def continuesBlock (text : String) : Bool := (Keyword.find? text).any (·.isMid)

end HamlTree
