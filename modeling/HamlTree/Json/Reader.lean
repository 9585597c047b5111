import HamlTree.Json.Token

/-!
# Reading JSON

The tokens of a text are read one by one by a machine with a stack of the containers that are still
open. The state says what may come next: after an opening bracket a value or the closing bracket,
after a comma only a value, and so on. A text is one value, with nothing after it.

The machine takes one step per token, so there is no limit on nesting here; a limit is a condition
on the value (`Value.depth`).
-/

namespace HamlTree.Json

/-- A container that waits for the value of its next item or member. Items and members read so far
are kept newest first. -/
inductive Frame where
  /-- An array. -/
  | array (items : List Value)
  /-- An object, with the name of the member. -/
  | object (members : List (String × Value)) (name : String)
deriving Inhabited

/-- What the reader expects next, with the containers around it, innermost first. -/
inductive State where
  /-- A value. -/
  | value (outer : List Frame)
  /-- The first item of an array, or its end. -/
  | firstItem (outer : List Frame)
  /-- The first name of an object, or its end. -/
  | firstName (outer : List Frame)
  /-- The name of a further member. -/
  | nextName (members : List (String × Value)) (outer : List Frame)
  /-- The colon after a name. -/
  | colon (members : List (String × Value)) (name : String) (outer : List Frame)
  /-- A comma after an item, or the end of the array. -/
  | afterItem (items : List Value) (outer : List Frame)
  /-- A comma after a member, or the end of the object. -/
  | afterMember (members : List (String × Value)) (outer : List Frame)
  /-- Nothing: the text is complete. -/
  | done (v : Value)
deriving Inhabited

namespace State

/-- The state after a complete value. -/
def complete (v : Value) : List Frame → State
  | [] => done v
  | .array items :: outer => afterItem (v :: items) outer
  | .object members name :: outer => afterMember ((name, v) :: members) outer

/-- The state after a token where a value has to begin. -/
def begin? (outer : List Frame) : Token → Option State
  | .null => some (complete .null outer)
  | .bool b => some (complete (.bool b) outer)
  | .number n => some (complete (.number n) outer)
  | .string s => some (complete (.string s) outer)
  | .openBracket => some (firstItem outer)
  | .openBrace => some (firstName outer)
  | _ => none

/-- The state after a token. -/
def step? : State → Token → Option State
  | value outer, t => begin? outer t
  | firstItem outer, .closeBracket => some (complete (.array []) outer)
  | firstItem outer, t => begin? (.array [] :: outer) t
  | firstName outer, .closeBrace => some (complete (.object []) outer)
  | firstName outer, .string s => some (colon [] s outer)
  | nextName members outer, .string s => some (colon members s outer)
  | colon members s outer, .colon => some (value (.object members s :: outer))
  | afterItem items outer, .comma => some (value (.array items :: outer))
  | afterItem items outer, .closeBracket => some (complete (.array items.reverse) outer)
  | afterMember members outer, .comma => some (nextName members outer)
  | afterMember members outer, .closeBrace => some (complete (.object members.reverse) outer)
  | _, _ => none

/-- The state after a list of tokens. -/
def run? (s : State) : List Token → Option State
  | [] => some s
  | t :: ts => (s.step? t).bind (run? · ts)

@[simp] theorem run?_nil (s : State) : s.run? [] = some s := rfl

theorem run?_cons (s : State) (t : Token) (ts : List Token) :
    s.run? (t :: ts) = (s.step? t).bind (run? · ts) := rfl

/-- Reading one list of tokens after another is reading them in turn. -/
theorem run?_append (s : State) (ts us : List Token) :
    s.run? (ts ++ us) = (s.run? ts).bind (run? · us) := by
  induction ts generalizing s with
  | nil => rfl
  | cons t ts ih =>
    simp only [List.cons_append, run?_cons]
    cases s.step? t with
    | none => rfl
    | some s' => exact ih s'

end State

/-- The value that a list of tokens is, if it is one. -/
def Value.ofTokens? (ts : List Token) : Option Value :=
  match (State.value []).run? ts with
  | some (.done v) => some v
  | _ => none

/-- The value that a text is, if it is one. -/
def Value.parse? (s : String) : Option Value := (tokenize s.toList).bind ofTokens?

end HamlTree.Json
