import HamlTree.Parsing

/-!
# What a line says about its node

The node that a line stands for is made from the text of the line alone, so it has no children and
no flag yet: it is *bare*. Everything that nesting adds to it later can be taken away again, and
`Node.bare` does so.

Only three facts about the reading of a line are used elsewhere: its node is bare
(`LogicalLine.bare_of_toNode`), so is the inline node of an element (`Node.bare_inline_of_ofText`),
and the faults of a text are none of the faults of an indentation (`Node.category_of_ofText`).
-/

namespace HamlTree

namespace Node

/-! ### Bare nodes -/

/-- The flag of a script; no other node has one. -/
def midBlock : Node → Bool
  | script _ _ midBlock _ => midBlock
  | _ => false

/-- The node without its children and its flag: what its own line says about it. -/
def bare (n : Node) : Node := (n.modifyChildren fun _ ↦ []).modifyMidBlock fun _ ↦ false

/-- A bare node has no children. -/
theorem children_of_bare {n : Node} (h : n.bare = n) : n.children = [] := by
  rw [← h]
  cases n <;> rfl

/-- A bare node has no flag. -/
theorem midBlock_of_bare {n : Node} (h : n.bare = n) : n.midBlock = false := by
  rw [← h]
  cases n <;> rfl

/-- What a line says about its node includes the kind. -/
theorem kind_bare (n : Node) : n.bare.kind = n.kind := by
  cases n <;> rfl

/-! ### The readings of one text -/

/-- A script that was read from a text has code and nothing else. -/
theorem ofScript_eq_ok_iff {mode : ScriptMode} {s : List Char} {n : Node} :
    ofScript mode s = .ok n ↔
      Text.trimStart s ≠ [] ∧ n = script mode (String.ofList (Text.trimStart s)) false [] := by
  rw [ofScript, scriptCode]
  rcases Text.trimStart s with - | ⟨c, code⟩
  · simp [Except.map]
  · simp only [Except.map, Except.ok.injEq, ne_eq, reduceCtorEq, not_false_eq_true, true_and]
    exact eq_comm

/-- Without code the marker is at fault. -/
theorem ofScript_eq_error_iff {mode : ScriptMode} {s : List Char} {f : Fault} :
    ofScript mode s = .error f ↔ Text.trimStart s = [] ∧ f = .emptyCode mode := by
  rw [ofScript, scriptCode]
  rcases Text.trimStart s with - | ⟨c, code⟩
  · simp only [Except.map, Except.error.injEq, true_and]
    exact eq_comm
  · simp [Except.map]

/-- The content of an element line is nothing, a script that outputs its code, or a text that
begins neither with a blank nor with the marker of a script. -/
theorem inlineContent_eq_ok_iff {s : List Char} {inline : Option Node} :
    inlineContent s = .ok inline ↔
      (Text.trimStart s = [] ∧ inline = none) ∨
      (∃ code, Text.trimStart s = '=' :: code ∧ Text.trimStart code ≠ [] ∧
        inline = some (script .output (String.ofList (Text.trimStart code)) false [])) ∨
      (Text.trimStart s ≠ [] ∧ (Text.trimStart s).head? ≠ some '=' ∧
        inline = some (leaf .plainText (String.ofList (Text.trimStart s)))) := by
  rw [inlineContent]
  split
  · next h =>
    simp only [h, Except.ok.injEq, true_and, reduceCtorEq, false_and, exists_false, ne_eq,
      not_true_eq_false, or_false]
    exact eq_comm
  · next code h =>
    rcases hs : ofScript .output code with f | n
    · obtain ⟨hnil, -⟩ := ofScript_eq_error_iff.1 hs
      simp [h, hnil, Except.map]
    · obtain ⟨hne, rfl⟩ := ofScript_eq_ok_iff.1 hs
      simp only [h, Except.map, Except.ok.injEq, reduceCtorEq, false_and, List.cons.injEq,
        true_and, List.head?_cons, ne_eq, not_true_eq_false, and_false, or_false, false_or,
        exists_eq_left', hne, not_false_eq_true]
      exact eq_comm
  · next hnil hmark =>
    rcases ht : Text.trimStart s with - | ⟨c, rest⟩
    · exact absurd ht hnil
    · have hc : c ≠ '=' := fun hc ↦ hmark rest (hc ▸ ht)
      simp only [Except.ok.injEq, reduceCtorEq, false_and, List.cons.injEq, hc, exists_false,
        ne_eq, not_false_eq_true, List.head?_cons, Option.some.injEq, true_and, false_or]
      exact eq_comm

/-- An element line is read in its four stages, and its element is what they found. -/
theorem ofElement_eq_ok_iff {text : List Char} {n : Node} :
    ofElement text = .ok n ↔
      (dropElementMarker text).takeWhile isTagChar ≠ [] ∧
      ∃ blocks rest inline,
        attributeBlocks (shorthands ((dropElementMarker text).dropWhile isTagChar)).2 =
          .ok (blocks, rest) ∧
        inlineContent rest = .ok inline ∧
        n = element (declaration ((dropElementMarker text).takeWhile isTagChar)
          (shorthands ((dropElementMarker text).dropWhile isTagChar)).1 blocks) inline [] := by
  rw [ofElement]
  by_cases htag : (dropElementMarker text).takeWhile isTagChar = []
  · simp [htag]
  · simp only [List.isEmpty_iff, htag, if_false, ne_eq, not_false_eq_true, true_and]
    rcases hb : attributeBlocks (shorthands ((dropElementMarker text).dropWhile isTagChar)).2
      with f | ⟨blocks, rest⟩
    · simp [bind, Except.bind]
    · rcases hi : inlineContent rest with f | inline
      · simp [bind, Except.bind, hi]
      · simp only [bind, Except.bind, hi, pure, Except.pure]
        constructor
        · intro h
          exact ⟨blocks, rest, inline, rfl, hi, (Except.ok.inj h).symm⟩
        · rintro ⟨_, _, _, hb', hi', rfl⟩
          obtain ⟨rfl, rfl⟩ := Prod.mk.inj (Except.ok.inj hb')
          obtain rfl := Except.ok.inj (hi.symm.trans hi')
          rfl

/-- **The readings of a text, by its first character.** -/
theorem ofText_cases {text : List Char} {n : Node} (h : ofText text = .ok n) :
    (text.head? = some '%' ∧ ofElement text = .ok n) ∨
    ((text.head? = some '.' ∨ text.head? = some '#') ∧
      ofElement ("%div".toList ++ text) = .ok n) ∨
    ("!!!".toList <+: text ∧ n = leaf .doctype (String.ofList text)) ∨
    (∃ rest, text = '/' :: rest ∧ n = leaf .comment (String.ofList (Text.trim rest))) ∨
    (∃ mode code, text = ScriptMode.marker mode :: code ∧ ofScript mode code = .ok n) ∨
    ((∀ c ∈ text.head?, c ∉ ['%', '.', '#', '!', '/', '=', '-']) ∧
      n = leaf .plainText (String.ofList text)) := by
  rw [ofText.eq_def] at h
  split at h
  · exact .inl ⟨rfl, h⟩
  · exact .inr (.inl ⟨.inl rfl, h⟩)
  · exact .inr (.inl ⟨.inr rfl, h⟩)
  · split at h
    · next hmarks =>
      exact .inr (.inr (.inl ⟨List.isPrefixOf_iff_prefix.1 hmarks, (Except.ok.inj h).symm⟩))
    · exact absurd h (by simp)
  · exact .inr (.inr (.inr (.inl ⟨_, rfl, (Except.ok.inj h).symm⟩)))
  · exact .inr (.inr (.inr (.inr (.inl ⟨.output, _, rfl, h⟩))))
  · exact .inr (.inr (.inr (.inr (.inl ⟨.silent, _, rfl, h⟩))))
  · refine .inr (.inr (.inr (.inr (.inr ⟨?_, (Except.ok.inj h).symm⟩))))
    rcases text with - | ⟨c, rest⟩
    · simp
    · simp_all

/-- The node that a text stands for is bare. -/
theorem bare_of_ofText {text : List Char} {n : Node} (h : ofText text = .ok n) : n.bare = n := by
  have helement : ∀ {text}, ofElement text = .ok n → n.bare = n := by
    intro text h
    obtain ⟨-, _, _, _, -, -, rfl⟩ := ofElement_eq_ok_iff.1 h
    rfl
  rcases ofText_cases h with ⟨-, h⟩ | ⟨-, h⟩ | ⟨-, rfl⟩ | ⟨_, -, rfl⟩ | ⟨_, _, -, h⟩ | ⟨-, rfl⟩
  · exact helement h
  · exact helement h
  · rfl
  · rfl
  · obtain ⟨-, rfl⟩ := ofScript_eq_ok_iff.1 h
    rfl
  · rfl

/-- The inline node of an element that was read from a text is bare. -/
theorem bare_inline_of_ofText {text : List Char} {d : Declaration} {inline : Node}
    {children : List Node} (h : ofText text = .ok (element d (some inline) children)) :
    inline.bare = inline := by
  have helement : ∀ {text}, ofElement text = .ok (element d (some inline) children) →
      inline.bare = inline := by
    intro text h
    obtain ⟨-, _, _, _, -, hi, heq⟩ := ofElement_eq_ok_iff.1 h
    obtain ⟨-, rfl, -⟩ := element.inj heq
    rcases inlineContent_eq_ok_iff.1 hi with ⟨-, h⟩ | ⟨_, -, -, h⟩ | ⟨-, -, h⟩
    · exact absurd h (by simp)
    · obtain rfl := Option.some.inj h
      rfl
    · obtain rfl := Option.some.inj h
      rfl
  rcases ofText_cases h with ⟨-, h⟩ | ⟨-, h⟩ | ⟨-, h⟩ | ⟨_, -, h⟩ | ⟨_, _, -, h⟩ | ⟨-, h⟩
  · exact helement h
  · exact helement h
  · exact absurd h (by simp)
  · exact absurd h (by simp)
  · exact absurd (ofScript_eq_ok_iff.1 h).2 (by simp)
  · exact absurd h (by simp)

/-! ### The faults of a text -/

/-- An attribute block can only be unmatched. -/
theorem attributeBlock_eq_error {d : Delimiter} {s : List Char} {f : Fault}
    (h : attributeBlock d s = .error f) : f = .unmatched d := by
  rw [attributeBlock.eq_def] at h
  split at h
  · exact absurd h (by simp)
  · split at h
    · split at h
      · exact absurd h (by simp)
      · exact (Except.error.inj h).symm
    · exact absurd h (by simp)

/-- **The attribute blocks of a text, by what becomes of them.** One of the two blocks is at fault,
or both are read, one after the other. -/
theorem attributeBlocks_cases (s : List Char) :
    (∃ d t f, attributeBlock d t = .error f ∧ attributeBlocks s = .error f) ∨
    (∃ parens braces mid rest, attributeBlock .paren s = .ok (parens, mid) ∧
      attributeBlock .brace mid = .ok (braces, rest) ∧
      attributeBlocks s = .ok (⟨braces, parens⟩, rest)) ∨
    ∃ parens braces mid rest, attributeBlock .brace s = .ok (braces, mid) ∧
      attributeBlock .paren mid = .ok (parens, rest) ∧
      attributeBlocks s = .ok (⟨braces, parens⟩, rest) := by
  rw [attributeBlocks]
  split
  · rcases h₁ : attributeBlock .paren s with f | ⟨parens, mid⟩
    · exact .inl ⟨_, _, f, h₁, rfl⟩
    · rcases h₂ : attributeBlock .brace mid with f | ⟨braces, rest⟩
      · exact .inl ⟨_, _, f, h₂, by simp [bind, Except.bind, h₂]⟩
      · refine .inr (.inl ⟨parens, braces, mid, rest, rfl, h₂, ?_⟩)
        simp [bind, Except.bind, pure, Except.pure, h₂]
  · rcases h₁ : attributeBlock .brace s with f | ⟨braces, mid⟩
    · exact .inl ⟨_, _, f, h₁, rfl⟩
    · rcases h₂ : attributeBlock .paren mid with f | ⟨parens, rest⟩
      · exact .inl ⟨_, _, f, h₂, by simp [bind, Except.bind, h₂]⟩
      · refine .inr (.inr ⟨parens, braces, mid, rest, rfl, h₂, ?_⟩)
        simp [bind, Except.bind, pure, Except.pure, h₂]

theorem attributeBlocks_eq_error {s : List Char} {f : Fault} (h : attributeBlocks s = .error f) :
    ∃ d, f = .unmatched d := by
  rcases attributeBlocks_cases s with
    ⟨d, _, f', hf, hs⟩ | ⟨_, _, _, _, -, -, hs⟩ | ⟨_, _, _, _, -, -, hs⟩
  · obtain rfl := Except.error.inj (h.symm.trans hs)
    exact ⟨d, attributeBlock_eq_error hf⟩
  · exact absurd (h.symm.trans hs) (by simp)
  · exact absurd (h.symm.trans hs) (by simp)

/-- The content of an element line can only lack its code. -/
theorem inlineContent_eq_error {s : List Char} {f : Fault} (h : inlineContent s = .error f) :
    f = .emptyCode .output := by
  rw [inlineContent] at h
  split at h
  · exact absurd h (by simp)
  · next code _ =>
    rcases hs : ofScript .output code with e | n
    · obtain rfl : e = f := by simpa [hs, Except.map] using h
      exact (ofScript_eq_error_iff.1 hs).2
    · simp [hs, Except.map] at h
  · exact absurd h (by simp)

/-- **No fault of a text is taken for a fault of an indentation.** -/
theorem category_of_ofText {text : List Char} {f : Fault} (h : ofText text = .error f) :
    f.category ≠ .unexpectedIndentLevel ∧ f.category ≠ .illegalNesting := by
  have helement : ∀ {text}, ofElement text = .error f →
      f.category ≠ .unexpectedIndentLevel ∧ f.category ≠ .illegalNesting := by
    intro text h
    rw [ofElement] at h
    split at h
    · obtain rfl := Except.error.inj h
      simp [Fault.category]
    · rcases hb : attributeBlocks (shorthands ((dropElementMarker text).dropWhile isTagChar)).2
        with e | ⟨blocks, rest⟩
      · obtain rfl : e = f := by simpa [hb, bind, Except.bind] using h
        obtain ⟨_, rfl⟩ := attributeBlocks_eq_error hb
        simp [Fault.category]
      · rcases hi : inlineContent rest with e | inline
        · obtain rfl : e = f := by simpa [hb, hi, bind, Except.bind] using h
          rw [inlineContent_eq_error hi]
          simp [Fault.category]
        · simp [hb, hi, bind, Except.bind, pure, Except.pure] at h
  have hscript : ∀ {mode code}, ofScript mode code = .error f →
      f.category ≠ .unexpectedIndentLevel ∧ f.category ≠ .illegalNesting := by
    intro mode code h
    rw [(ofScript_eq_error_iff.1 h).2]
    simp [Fault.category]
  rw [ofText.eq_def] at h
  split at h
  · exact helement h
  · exact helement h
  · exact helement h
  · split at h
    · exact absurd h (by simp)
    · obtain rfl := Except.error.inj h
      simp [Fault.category]
  · exact absurd h (by simp)
  · exact hscript h
  · exact hscript h
  · exact absurd h (by simp)

end Node

namespace LogicalLine

/-! ### The node of a line -/

/-- A line stands for the node of its text, -/
theorem toNode_eq_ok_iff {l : LogicalLine} {n : Node} :
    l.toNode.result = .ok n ↔ Node.ofText l.text.toList = .ok n := by
  rw [toNode]
  split
  · next h => simp [h]
  · next h => simp [h]

/-- or it has the fault of its text. -/
theorem toNode_eq_error_iff {l : LogicalLine} {e : ParseError} :
    l.toNode.result = .error e ↔ Node.ofText l.text.toList = .error e.fault ∧ e.line = l.line := by
  rw [toNode]
  split
  · next h => simp [h]
  · next f h =>
    obtain ⟨f', n⟩ := e
    simp [h, eq_comm (a := n)]

/-- The node of a line is bare. -/
theorem bare_of_toNode {l : LogicalLine} {n : Node} (h : l.toNode.result = .ok n) : n.bare = n :=
  Node.bare_of_ofText (toNode_eq_ok_iff.1 h)

end LogicalLine

end HamlTree
