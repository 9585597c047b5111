import HamlTree.Json.Token

/-!
# Writing JSON

A value has one sequence of tokens (`Value.tokens`) and two layouts of it. The compact text is the
tokens with nothing between them. The pretty text puts every item and every member on a line of its
own, indented by two spaces per level, and a space after each colon; an empty container stays on one
line.
-/

namespace HamlTree.Json

namespace Value

/-! ### Tokens -/

mutual

/-- The tokens of a value. -/
def tokens : Value → List Token
  | null => [.null]
  | bool b => [.bool b]
  | number n => [.number n]
  | string s => [.string s]
  | array items => .openBracket :: itemTokens items ++ [.closeBracket]
  | object members => .openBrace :: memberTokens members ++ [.closeBrace]

/-- The tokens of all items, with commas between them. -/
def itemTokens : List Value → List Token
  | [] => []
  | v :: items => tokens v ++ moreItemTokens items

/-- The tokens of items that follow another one. -/
def moreItemTokens : List Value → List Token
  | [] => []
  | v :: items => .comma :: tokens v ++ moreItemTokens items

/-- The tokens of all members, with commas between them. -/
def memberTokens : List (String × Value) → List Token
  | [] => []
  | (name, v) :: members => .string name :: .colon :: tokens v ++ moreMemberTokens members

/-- The tokens of members that follow another one. -/
def moreMemberTokens : List (String × Value) → List Token
  | [] => []
  | (name, v) :: members =>
    .comma :: .string name :: .colon :: tokens v ++ moreMemberTokens members

end

/-- The text of a value without any blanks. -/
def compact (v : Value) : String := String.ofList (v.tokens.flatMap Token.text)

end Value

/-! ### The pretty layout -/

/-- A piece of a pretty text. -/
inductive Piece where
  /-- A token. -/
  | token (t : Token)
  /-- The space after a colon. -/
  | space
  /-- A line end and the indentation of a level. -/
  | newline (level : Nat)

namespace Piece

/-- The text of a piece. -/
def text : Piece → List Char
  | token t => t.text
  | space => [' ']
  | newline level => '\n' :: List.replicate (2 * level) ' '

/-- The token that a piece is. -/
def token? : Piece → Option Token
  | token t => some t
  | _ => none

end Piece

namespace Value

mutual

/-- The pieces of a value whose first line stands at a level. -/
def pieces (level : Nat) : Value → List Piece
  | null => [.token .null]
  | bool b => [.token (.bool b)]
  | number n => [.token (.number n)]
  | string s => [.token (.string s)]
  | array [] => [.token .openBracket, .token .closeBracket]
  | array (v :: items) =>
    .token .openBracket :: .newline (level + 1) :: pieces (level + 1) v ++
      morePieces (level + 1) items ++ [.newline level, .token .closeBracket]
  | object [] => [.token .openBrace, .token .closeBrace]
  | object ((name, v) :: members) =>
    .token .openBrace :: .newline (level + 1) :: .token (.string name) :: .token .colon ::
      .space :: pieces (level + 1) v ++
      moreMemberPieces (level + 1) members ++ [.newline level, .token .closeBrace]

/-- The pieces of items that follow another one. -/
def morePieces (level : Nat) : List Value → List Piece
  | [] => []
  | v :: items => .token .comma :: .newline level :: pieces level v ++ morePieces level items

/-- The pieces of members that follow another one. -/
def moreMemberPieces (level : Nat) : List (String × Value) → List Piece
  | [] => []
  | (name, v) :: members =>
    .token .comma :: .newline level :: .token (.string name) :: .token .colon :: .space ::
      pieces level v ++ moreMemberPieces level members

end

/-- The text of a value laid out over lines, without a final line end. -/
def pretty (v : Value) : String := String.ofList ((v.pieces 0).flatMap Piece.text)

end Value

end HamlTree.Json
