import HamlTree.Json.Literal
import HamlTree.Json.Text
import HamlTree.Json.Value

/-!
# JSON tokens

A JSON text is a sequence of tokens with blanks between them. `Token.text` writes a token and
`tokenize` cuts a text into tokens; which sequences of tokens are values is the business of
`HamlTree.Json.Reader`. A number literal that denotes no number is no token.
-/

namespace HamlTree.Json

/-- A token of a JSON text. -/
inductive Token where
  /-- An opening brace. -/
  | openBrace
  /-- A closing brace. -/
  | closeBrace
  /-- An opening bracket. -/
  | openBracket
  /-- A closing bracket. -/
  | closeBracket
  /-- A colon. -/
  | colon
  /-- A comma. -/
  | comma
  /-- The literal `null`. -/
  | null
  /-- A truth value. -/
  | bool (b : Bool)
  /-- A number. -/
  | number (n : Number)
  /-- A string. -/
  | string (s : String)
deriving Inhabited

/-- The text of a token. -/
def Token.text : Token → List Char
  | openBrace => ['{']
  | closeBrace => ['}']
  | openBracket => ['[']
  | closeBracket => [']']
  | colon => [':']
  | comma => [',']
  | null => "null".toList
  | bool true => "true".toList
  | bool false => "false".toList
  | number n => n.text.toList
  | string s => quoteString s

/-! ### Reading -/

/-- Whether a character may stand between tokens. -/
def isSpace (c : Char) : Bool := c == ' ' || c == '\n' || c == '\r' || c == '\t'

/-- The token at the beginning of a text, and the rest. -/
def token? (s : List Char) : Option (Token × List Char) :=
  match s with
  | '{' :: rest => some (.openBrace, rest)
  | '}' :: rest => some (.closeBrace, rest)
  | '[' :: rest => some (.openBracket, rest)
  | ']' :: rest => some (.closeBracket, rest)
  | ':' :: rest => some (.colon, rest)
  | ',' :: rest => some (.comma, rest)
  | '"' :: rest => (stringBody? [] rest).map fun p ↦ (.string (String.ofList p.1), p.2)
  | 'n' :: 'u' :: 'l' :: 'l' :: rest => some (.null, rest)
  | 't' :: 'r' :: 'u' :: 'e' :: rest => some (.bool true, rest)
  | 'f' :: 'a' :: 'l' :: 's' :: 'e' :: rest => some (.bool false, rest)
  | s => do
    let (literal, rest) ← literal? s
    let n ← literal.toNumber?
    return (.number n, rest)

theorem length_of_token? {s rest : List Char} {t : Token} (h : token? s = some (t, rest)) :
    rest.length < s.length := by
  unfold token? at h
  split at h
  case h_7 =>
    simp only [Option.map_eq_some_iff, Prod.mk.injEq, Prod.exists] at h
    obtain ⟨_, _, hb, _, rfl⟩ := h
    have := length_of_stringBody? hb
    simp only [List.length_cons]
    omega
  case h_11 =>
    simp only [Option.bind_eq_bind, Option.bind_eq_some_iff, Option.pure_def, Option.some.injEq,
      Prod.mk.injEq, Prod.exists] at h
    obtain ⟨_, _, hl, _, _, _, rfl⟩ := h
    exact length_of_literal? hl
  all_goals
    simp only [Option.some.injEq, Prod.mk.injEq] at h
    simp only [List.length_cons, h.2]
    omega

/-- The tokens of a text, or nothing if it cannot be cut into tokens. -/
def tokenize (s : List Char) : Option (List Token) :=
  match _hs : s.dropWhile isSpace with
  | [] => some []
  | c :: s' =>
    match _ht : token? (c :: s') with
    | some (t, rest) => (tokenize rest).map (t :: ·)
    | none => none
termination_by s.length
decreasing_by
  have h₁ := length_of_token? _ht
  have h₂ := (List.dropWhile_suffix (l := s) isSpace).length_le
  rw [_hs] at h₂
  omega

end HamlTree.Json
