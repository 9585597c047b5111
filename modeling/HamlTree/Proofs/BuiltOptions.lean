import HamlTree.Options
import HamlTree.Proofs.Dictionaries
import HamlTree.Proofs.JsonSpellings

/-!
# Two ways to build options

Options are built from pairs or read from JSON. A JSON object whose members are strings is nothing
but a list of pairs, so it gives the options of these pairs, however its text is spelled
(`Options.ofJson?_of_spells`). A value of another type counts as its text, and a text that was made
of a value is a string ever after; so the entries of options, taken as pairs or as the members of an
object, give the same options again (`Options.ofPairs_entries`). From this, and from what a
dictionary keeps of its entries, follows that both ways agree (`Options.built_alike`).
-/

namespace HamlTree.Options

open Json

/-- The JSON object whose members are pairs of texts. -/
def objectOf (pairs : List (String × String)) : Value :=
  .object (pairs.map fun p ↦ (p.1, .string p.2))

/-- Objects of texts are not nested. -/
theorem depth_objectOf (pairs : List (String × String)) : (objectOf pairs).depth = 1 := by
  have hmembers : ∀ pairs : List (String × String),
      Value.depthMembers (pairs.map fun p ↦ (p.1, .string p.2)) = 0 := by
    intro pairs
    induction pairs with
    | nil => rfl
    | cons p pairs ih => simp [Value.depthMembers, Value.depth, ih]
  rw [objectOf, Value.depth, hmembers]

/-- There are no numbers in an object of texts. -/
theorem number_notMem_objectOf (pairs : List (String × String)) (n : Number) :
    .number n ∉ (objectOf pairs).tokens := by
  have hmore : ∀ pairs : List (String × String),
      .number n ∉ Value.moreMemberTokens (pairs.map fun p ↦ (p.1, .string p.2)) := by
    intro pairs
    induction pairs with
    | nil => simp [Value.moreMemberTokens]
    | cons p pairs ih => simp [Value.moreMemberTokens, Value.tokens, ih]
  cases pairs with
  | nil => simp [objectOf, Value.tokens, Value.memberTokens]
  | cons p pairs => simp [objectOf, Value.tokens, Value.memberTokens, hmore]

/-- The members of an object of texts are pairs. -/
theorem ofMembers_string (pairs : List (String × String)) :
    ofMembers (pairs.map fun p ↦ (p.1, .string p.2)) = ofPairs pairs := by
  rw [ofMembers, List.map_map]
  exact congrArg Dictionary.ofList (List.map_id pairs)

/-- **Every spelling of an object of texts gives the options of its members.** -/
theorem ofJson?_of_spells {pairs : List (String × String)} {text : String}
    (h : Spells (objectOf pairs).tokens text.toList) : ofJson? text = some (ofPairs pairs) := by
  have hparse := (Value.parse?_eq_some_iff (number_notMem_objectOf pairs)).2 h
  have hdepth : (objectOf pairs).depth ≤ nestingLimit := by
    rw [depth_objectOf]
    decide
  rw [ofJson?, hparse]
  exact (if_pos hdepth).trans (congrArg some (ofMembers_string pairs))

/-- **The entries of options give them again.** -/
theorem ofPairs_entries (o : Options) : ofPairs o.entries = o := Dictionary.ofList_entries o

/-- The keys of options are reported as ignored. -/
theorem messages_events (o : Options) :
    o.events.map (fun e ↦ (e.level, e.message)) =
      o.keys.map fun key ↦ (.debug, s!"ignoring unknown parser option '{key}'") := by
  rw [events, List.map_map]
  rfl

/-- **Options are the same whichever way they are built.** Every spelling of a JSON object of texts
gives the options that the pairs give which are its members, in their order and with repeated keys.
In these options a key has the last of its values; pairs with different keys may change their
places; and there is one message for each key, in the order of the keys. Whatever values the members
of a JSON object have, the texts that they become give the same options again, as pairs and as JSON
strings. -/
theorem built_alike :
    (∀ pairs : List (String × String),
      (∀ text : String, Spells (objectOf pairs).tokens text.toList →
        ofJson? text = some (ofPairs pairs)) ∧
      (∀ key, (ofPairs pairs).get? key = pairs.reverse.lookup key) ∧
      (∀ pairs' : List (String × String),
        (∀ key, pairs'.filter (·.1 = key) = pairs.filter (·.1 = key)) →
          ofPairs pairs' = ofPairs pairs) ∧
      ∃ keys : List String, keys.Pairwise (· < ·) ∧
        (∀ key, key ∈ keys ↔ key ∈ pairs.map (·.1)) ∧
        (ofPairs pairs).events.map (fun e ↦ (e.level, e.message)) =
          keys.map fun key ↦ (.debug, s!"ignoring unknown parser option '{key}'")) ∧
    ∀ (text : String) (o : Options), ofJson? text = some o →
      ofPairs o.entries = o ∧
      ∀ text' : String, Spells (objectOf o.entries).tokens text'.toList →
        ofJson? text' = some o := by
  refine ⟨fun pairs ↦ ⟨fun _ ↦ ofJson?_of_spells, Dictionary.get?_ofList pairs,
    fun _ ↦ Dictionary.ofList_eq_ofList_of_filter, (ofPairs pairs).keys,
    (ofPairs pairs).pairwise_keys, fun _ ↦ Dictionary.mem_keys_ofList,
    messages_events (ofPairs pairs)⟩, fun _ o _ ↦ ⟨ofPairs_entries o, fun _ h ↦ ?_⟩⟩
  rw [ofJson?_of_spells h, ofPairs_entries]

/-- An escape for a letter, a pair of codes for one character and an escaped slash, blanks of two
kinds, and a key that occurs twice. -/
theorem built_alike_escaped :
    ofJson? "\x7b \"\\u0061\" :\n\"\\uD83d\\uDE00\\/\",\"a\":\"\\n\"\x7d\n" =
        some (ofPairs [("a", "😀/"), ("a", "\n")]) ∧
      (ofPairs [("a", "😀/"), ("a", "\n")]).get? "a" = some "\n" := by
  have hcode : HexCode 'a'.toNat "0061".toList :=
    .digits (a := 0) (b := 0) (c := 6) (d := 1) (by decide) (by decide) (by decide) (by decide)
  have hhigh : HexCode (0xd800 + 0x3d) "D83d".toList :=
    .digits (a := 13) (b := 8) (c := 3) (d := 13) (by decide) (by decide) (by decide) (by decide)
  have hlow : HexCode (0xdc00 + 0x200) "DE00".toList :=
    .digits (a := 13) (b := 14) (c := 0) (d := 0) (by decide) (by decide) (by decide) (by decide)
  have hkey : SpellsString ['a'] "\\u0061".toList := .cons (.code hcode) .nil
  have hvalue : SpellsString ['😀', '/'] "\\uD83d\\uDE00\\/".toList :=
    .cons (.halves (by decide) (by decide) (by decide) hhigh hlow)
      (.cons (.letter (by decide)) .nil)
  have hkey' : SpellsString ['a'] ['a'] := .cons (.raw (by decide) (by decide) (by decide)) .nil
  have hvalue' : SpellsString ['\n'] "\\n".toList := .cons (.letter (by decide)) .nil
  refine ⟨(built_alike.1 _).1 _ ?_, (built_alike.1 _).2.1 "a"⟩
  refine @Spells.token .openBrace _ [] _ _ (by simp) (.fixed (by simp) (by simp)) ?_
  refine @Spells.token (.string "a") _ [' '] _ _ (by simp [isSpace]) (.string hkey) ?_
  refine @Spells.token .colon _ [' '] _ _ (by simp [isSpace]) (.fixed (by simp) (by simp)) ?_
  refine @Spells.token (.string "😀/") _ ['\n'] _ _ (by simp [isSpace]) (.string hvalue) ?_
  refine @Spells.token .comma _ [] _ _ (by simp) (.fixed (by simp) (by simp)) ?_
  refine @Spells.token (.string "a") _ [] _ _ (by simp) (.string hkey') ?_
  refine @Spells.token .colon _ [] _ _ (by simp) (.fixed (by simp) (by simp)) ?_
  refine @Spells.token (.string "\n") _ [] _ _ (by simp) (.string hvalue') ?_
  refine @Spells.token .closeBrace _ [] _ _ (by simp) (.fixed (by simp) (by simp)) ?_
  exact @Spells.blank ['\n'] (by simp [isSpace])

end HamlTree.Options
