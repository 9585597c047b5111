import HamlTree.Node.Element

/-!
# The node of a line

The first character of a logical line decides what the line is:

| first character | node |
|---|---|
| `%` | element |
| `.` or `#` | element with the tag `div` |
| `!` | doctype, which must begin with `!!!` |
| `/` | comment |
| `=` | script whose value is output |
| `-` | silent script |
| any other | plain text |

The node is built from the text alone: no other line and no indentation has a say, and it has no
children yet.
-/

namespace HamlTree.Node

open Text

/-- The node that a logical line stands for. -/
def ofText (text : List Char) : Except Fault Node :=
  match text with
  | '%' :: _ => ofElement text
  | '.' :: _ => ofElement ("%div".toList ++ text)
  | '#' :: _ => ofElement ("%div".toList ++ text)
  | '!' :: _ =>
    if "!!!".toList.isPrefixOf text then
      .ok (.leaf .doctype (String.ofList text))
    else
      .error (.invalidDoctype (String.ofList text))
  | '/' :: rest => .ok (.leaf .comment (String.ofList (trim rest)))
  | '=' :: code => ofScript .output code
  | '-' :: code => ofScript .silent code
  | _ => .ok (.leaf .plainText (String.ofList text))

end HamlTree.Node
