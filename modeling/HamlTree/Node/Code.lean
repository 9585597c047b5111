import HamlTree.Fault
import HamlTree.Text.Blank

/-!
# Script code

The code of a script is what follows its marker, without leading blanks. Code has to be there: a
marker with nothing after it is a fault, wherever the marker stands.
-/

namespace HamlTree.Node

open Text

/-- The code after a script marker. -/
def scriptCode (mode : ScriptMode) (s : List Char) : Except Fault String :=
  match trimStart s with
  | [] => .error (.emptyCode mode)
  | c :: code => .ok (String.ofList (c :: code))

/-- The script whose marker is followed by this text. -/
def ofScript (mode : ScriptMode) (s : List Char) : Except Fault Node :=
  (scriptCode mode s).map fun code ↦ .script mode code false []

end HamlTree.Node
