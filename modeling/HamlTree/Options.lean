import HamlTree.Event
import HamlTree.Json.Reader
import HamlTree.Json.Writer

/-!
# Parser options

No option changes how a template is parsed. Options are accepted and kept, so that settings meant
for a later stage can be passed through, and each key is reported as ignored, in order.

They come as pairs of texts or as the members of a JSON object. There a string is taken as it is and
any other value as its compact JSON text, so a value read from JSON once is the same when it is read
again as a text.
-/

namespace HamlTree

/-- Options: a text for each key. -/
abbrev Options := Dictionary String

namespace Options

open Json

/-- How deeply a JSON text with options may be nested, the outermost object counted. -/
def nestingLimit : Nat := 127

/-- The text of an option given as a JSON value. -/
def textOf : Value → String
  | .string s => s
  | v => v.normalize.compact

/-- The options of a list of pairs; of several values for one key the last counts. -/
def ofPairs (pairs : List (String × String)) : Options := .ofList pairs

/-- The options of a JSON object. -/
def ofMembers (members : List (String × Value)) : Options :=
  .ofList (members.map fun m ↦ (m.1, textOf m.2))

/-- The options of a JSON text, or nothing if it is no object or nested too deeply. -/
def ofJson? (text : String) : Option Options :=
  match Value.parse? text with
  | some (.object members) =>
    if (Value.object members).depth ≤ nestingLimit then some (ofMembers members) else none
  | _ => none

/-- One report for each key. -/
def events (o : Options) : List Event := o.keys.map .ignoredOption

end Options

end HamlTree
