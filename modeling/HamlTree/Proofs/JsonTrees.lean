import HamlTree.Node.Json
import HamlTree.Proofs.JsonTexts

/-!
# The JSON form of a template is lossless

Whatever a template holds, be it read from a source or not, its JSON form says all of it: the value
describes that template and no other (`Template.ofJson?_toJson`), and as there are no numbers in it,
the value can be read back from either layout. So nothing is lost on the way to the text
(`Template.json_lossless`).
-/

namespace HamlTree

open Json

namespace Node

/-! ### The value of a node -/

theorem textOf?_string (s : String) : textOf? (.string s) = some (some s) := rfl

/-- A text that may be missing is described by its value. -/
theorem textOf?_jsonText (s : Option String) : textOf? (jsonText s) = some s := by
  cases s <;> rfl

/-- A declaration is described by the first fields of its element. -/
theorem declarationOf?_fields (d : Declaration) (more : List (String × Value)) :
    declarationOf? (("tag", .string d.tag) :: ("static_class", .string d.classes) ::
      ("static_id", jsonText d.id) :: ("old_attributes", jsonText d.braceAttributes) ::
      ("new_attributes", jsonText d.parenAttributes) :: more) = some d := by
  simp [declarationOf?, field, textOf?_string, textOf?_jsonText]

/-- The value of a node is an object. -/
theorem exists_toJson_eq_object (n : Node) : ∃ members, n.toJson = .object members := by
  cases n <;> exact ⟨_, rfl⟩

mutual

/-- **A node is described by its value.** -/
theorem ofJson?_toJson : (n : Node) → ofJson? n.toJson = some n
  | element d inline children => by
    have hinline := inlineOfJson?_inlineToJson inline
    have hchildren : allOfJson? (.array (allToJson children)) = some children := by
      rw [allOfJson?, itemsOfJson?_allToJson children]
    simp [toJson, ofJson?, declarationOf?_fields, field, hinline, hchildren]
  | script mode code midBlock children => by
    have hchildren : allOfJson? (.array (allToJson children)) = some children := by
      rw [allOfJson?, itemsOfJson?_allToJson children]
    have hmode : (Kind.script mode).jsonName ≠ Kind.element.jsonName ∧
        scriptModeOf? (Kind.script mode).jsonName = some mode := by
      cases mode <;> simp [Kind.jsonName, scriptModeOf?]
    simp [toJson, ofJson?, field, hmode, textOf?_string, flagOf?, hchildren]
  | leaf kind text => by
    have hkind : leafKindOf? (Kind.leaf kind).jsonName = some kind := by
      cases kind <;> simp [Kind.jsonName, leafKindOf?]
    simp [toJson, ofJson?, hkind]

/-- So is an inline node, be there one or not, -/
theorem inlineOfJson?_inlineToJson :
    (inline : Option Node) → inlineOfJson? (inlineToJson inline) = some inline
  | none => by rw [inlineToJson, inlineOfJson?]
  | some n => by
    obtain ⟨members, hmembers⟩ := n.exists_toJson_eq_object
    have hn := ofJson?_toJson n
    rw [hmembers] at hn
    rw [inlineToJson, hmembers, inlineOfJson?, hn, Option.map_some]
    simp

/-- and so are nodes in a row. -/
theorem itemsOfJson?_allToJson : (ns : List Node) → itemsOfJson? (allToJson ns) = some ns
  | [] => by rw [allToJson, itemsOfJson?]
  | n :: ns => by simp [allToJson, itemsOfJson?, ofJson?_toJson n, itemsOfJson?_allToJson ns]

end

/-! ### There are no numbers in it -/

theorem number_not_mem_jsonText (k : Number) (s : Option String) :
    .number k ∉ (jsonText s).tokens := by
  cases s <;> simp [jsonText, Value.tokens]

mutual

/-- There is no number in the value of a node, -/
theorem number_not_mem_toJson (k : Number) : (n : Node) → .number k ∉ n.toJson.tokens
  | element d inline children => by
    simp [toJson, Value.tokens, Value.memberTokens, Value.moreMemberTokens,
      number_not_mem_jsonText, number_not_mem_inlineToJson k inline,
      (number_not_mem_allToJson k children).1]
  | script mode code midBlock children => by
    simp [toJson, Value.tokens, Value.memberTokens, Value.moreMemberTokens,
      (number_not_mem_allToJson k children).1]
  | leaf kind text => by simp [toJson, Value.tokens, Value.memberTokens, Value.moreMemberTokens]

/-- nor in that of an inline node, -/
theorem number_not_mem_inlineToJson (k : Number) :
    (inline : Option Node) → .number k ∉ (inlineToJson inline).tokens
  | none => by simp [inlineToJson, Value.tokens]
  | some n => by
    rw [inlineToJson]
    exact number_not_mem_toJson k n

/-- nor in those of nodes in a row, be they the first of an array or not. -/
theorem number_not_mem_allToJson (k : Number) : (ns : List Node) →
    .number k ∉ Value.itemTokens (allToJson ns) ∧ .number k ∉ Value.moreItemTokens (allToJson ns)
  | [] => by simp [allToJson, Value.itemTokens, Value.moreItemTokens]
  | n :: ns => by
    simp [allToJson, Value.itemTokens, Value.moreItemTokens, number_not_mem_toJson k n,
      (number_not_mem_allToJson k ns).2]

end

end Node

namespace Template

/-- **A template is described by its value.** -/
theorem ofJson?_toJson (t : Template) : ofJson? t.toJson = some t := by
  simp [toJson, ofJson?, Node.field, Node.allOfJson?, Node.itemsOfJson?_allToJson]

theorem number_not_mem_toJson (t : Template) (k : Number) : .number k ∉ t.toJson.tokens := by
  simp [toJson, Value.tokens, Value.memberTokens, Value.moreMemberTokens,
    (Node.number_not_mem_allToJson k t.nodes).1]

/-- **The JSON form of a template is lossless.** Both texts are read back as the value that was
written, and the value describes the template. So no other template has the same compact text or the
same pretty one, and the pretty text without the white space outside of its strings is the compact
text. -/
theorem json_lossless (t : Template) :
    (Value.parse? t.toJson.compact).bind ofJson? = some t ∧
    (Value.parse? t.toJson.pretty).bind ofJson? = some t ∧
    (∀ u : Template, u.toJson.compact = t.toJson.compact → u = t) ∧
    (∀ u : Template, u.toJson.pretty = t.toJson.pretty → u = t) ∧
    String.ofList (dropLayout .outside t.toJson.pretty.toList) = t.toJson.compact := by
  have hcompact : ∀ u : Template, (Value.parse? u.toJson.compact).bind ofJson? = some u := by
    intro u
    rw [Value.parse?_compact u.number_not_mem_toJson, Option.bind_some, ofJson?_toJson]
  have hpretty : ∀ u : Template, (Value.parse? u.toJson.pretty).bind ofJson? = some u := by
    intro u
    rw [Value.parse?_pretty u.number_not_mem_toJson, Option.bind_some, ofJson?_toJson]
  refine ⟨hcompact t, hpretty t, fun u hu ↦ ?_, fun u hu ↦ ?_, ?_⟩
  · have h := hcompact u
    rw [hu, hcompact t] at h
    exact (Option.some.inj h).symm
  · have h := hpretty u
    rw [hu, hpretty t] at h
    exact (Option.some.inj h).symm
  · exact Value.dropLayout_pretty t.number_not_mem_toJson

/-- Each level is indented by two spaces, and an empty array stays on its line. -/
example : (Template.mk [.script .output "x" false []]).toJson.pretty =
    "\x7b\n" ++
    "  \"children\": [\n" ++
    "    \x7b\n" ++
    "      \"Script\": \x7b\n" ++
    "        \"code\": \"x\",\n" ++
    "        \"mid_block_keyword\": false,\n" ++
    "        \"children\": []\n" ++
    "      \x7d\n" ++
    "    \x7d\n" ++
    "  ]\n" ++
    "\x7d" := by
  decide +kernel

end Template

end HamlTree
