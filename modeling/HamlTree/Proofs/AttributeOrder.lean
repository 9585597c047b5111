import Mathlib.Data.List.Infix
import HamlTree.Proofs.ElementGrammar

/-!
# The order of attributes

An element line may give its classes, its id and its attribute blocks in more than one order. Of the
shorthands, the order of the classes counts and which id is the last, and nothing else: where the id
stands among the classes, and shorthands without a name, change nothing. Of the attribute blocks the
order counts for nothing at all. Each of them ends at the delimiter that closes it, whatever
delimiters of the other kind it holds, so each is found in either place, and what follows the second
of them is content, even where it could be a block.

So two lines that differ in these ways only stand for the same node or have the same fault
(`toNode_attributesText`), and if the tag is `div`, it may be left out in front of shorthands.
-/

namespace HamlTree

open Text

namespace Node

variable {tag after rest : List Char} {names names' : List Shorthand}

/-! ### Pieces of a line -/

/-- **A line that begins with these pieces is an element, if its content is one of an element.** -/
theorem ofElement_of_cut {text : List Char} {blocks : AttributeBlocks}
    (htag : TagCut (dropElementMarker text) tag names after)
    (hblocks : BlocksCut after blocks rest) :
    ofElement text =
      (inlineContent rest).map fun inline ↦ .element (declaration tag names blocks) inline [] := by
  obtain ⟨hne, rfl, hnames⟩ := tagCut_iff.1 htag
  rw [ofElement, if_neg (by simpa using hne)]
  simp only [hnames, attributeBlocks_eq_ok_iff.2 hblocks, bind, Except.bind]
  cases inlineContent rest <;> rfl

/-- The declaration of an element depends on its shorthands only in the names of its classes and in
its last id. -/
theorem declaration_congr
    (hclasses : names.filterMap Shorthand.class? = names'.filterMap Shorthand.class?)
    (hid : (names.filterMap Shorthand.id?).getLast? = (names'.filterMap Shorthand.id?).getLast?)
    (tag : List Char) (blocks : AttributeBlocks) :
    declaration tag names blocks = declaration tag names' blocks := by
  rw [declaration, declaration, hclasses, hid]

/-- A tag and shorthands are cut off in front of an attribute block. -/
theorem tagCut_of_opening {d : Delimiter} (hne : tag ≠ []) (htag : ∀ c ∈ tag, isTagChar c = true)
    (hnames : ∀ x ∈ names, ∀ c ∈ x.name, isNameChar c = true)
    (hafter : after.head? = some d.opening) :
    TagCut (tag ++ (names.flatMap Shorthand.text ++ after)) tag names after := by
  have hopening : ∀ c ∈ after.head?, c ∈ ['{', '('] := fun c hc ↦ by
    obtain rfl := Option.some.inj (hafter.symm.trans hc)
    cases d <;> decide
  have hhead : ∀ c ∈ (names.flatMap Shorthand.text ++ after).head?, c ∈ ['.', '#', '{', '('] :=
    forall_head?_append (fun c hc ↦ List.mem_append_left ['{', '('] (head?_text names c hc))
      fun c hc ↦ List.mem_append_right ['.', '#'] (hopening c hc)
  have htagEnd : ∀ c ∈ ['.', '#', '{', '('], isTagChar c = false :=
    List.forall_iff_forall_mem.1 (by decide)
  have hnameEnd : ∀ c ∈ ['{', '('], isNameChar c = false ∧ c ≠ '.' ∧ c ≠ '#' :=
    List.forall_iff_forall_mem.1 (by decide)
  obtain ⟨htake, hdrop⟩ := takeWhile_piece htag fun c hc ↦ htagEnd c (hhead c hc)
  refine tagCut_iff.2 ⟨hne, htake, ?_⟩
  rw [hdrop, shorthands_append hnames fun c hc ↦ hnameEnd c (hopening c hc)]

/-! ### Lines with both attribute blocks -/

/-- Shorthands and both attribute blocks as they are written, the block of kind `d` first. -/
def attributesText (names : List Shorthand) (d : Delimiter) (interior : Delimiter → List Char) :
    List Char :=
  names.flatMap Shorthand.text ++
    (blockText d (some (interior d)) ++ blockText d.other (some (interior d.other)))

variable {interior : Delimiter → List Char}

/-- Both attribute blocks are read in either order. -/
theorem blocksCut_both (hpaired : ∀ d : Delimiter, Paired d.opening d.closing (interior d))
    (d : Delimiter) (rest : List Char) :
    BlocksCut (blockText d (some (interior d)) ++
        (blockText d.other (some (interior d.other)) ++ rest))
      ⟨some (interior .brace), some (interior .paren)⟩ rest := by
  have hinterior : ∀ d, AttributeBlocks.interior?
      ⟨some (interior .brace), some (interior .paren)⟩ d = some (interior d) := by
    rintro (- | -) <;> rfl
  refine ⟨⟨d, by rw [hinterior, hinterior]⟩, fun e i hi ↦ ?_, fun e hnone ↦ ?_⟩
  · rw [hinterior] at hi
    exact Option.some.inj hi ▸ hpaired e
  · exact absurd ((hinterior e).symm.trans hnone) (by simp)

/-- **An element line with both attribute blocks** says the same in whatever order they are. -/
theorem ofElement_attributesText (hne : tag ≠ []) (htag : ∀ c ∈ tag, isTagChar c = true)
    (hnames : ∀ x ∈ names, ∀ c ∈ x.name, isNameChar c = true)
    (hpaired : ∀ d : Delimiter, Paired d.opening d.closing (interior d)) (d : Delimiter)
    (rest : List Char) :
    ofElement ('%' :: (tag ++ (attributesText names d interior ++ rest))) =
      (inlineContent rest).map fun inline ↦ .element
        (declaration tag names ⟨some (interior .brace), some (interior .paren)⟩) inline [] := by
  rw [attributesText, List.append_assoc, List.append_assoc]
  exact ofElement_of_cut (tagCut_of_opening hne htag hnames rfl) (blocksCut_both hpaired d rest)

/-- **The tag `div` may be left out** in front of shorthands. -/
theorem ofText_attributesText (hne : names ≠ []) (d : Delimiter) (rest : List Char) :
    ofText (attributesText names d interior ++ rest) =
      ofText ('%' :: ("div".toList ++ (attributesText names d interior ++ rest))) := by
  obtain ⟨x, names, rfl⟩ := List.exists_cons_of_ne_nil hne
  cases x <;> rfl

end Node

/-- The node of a line depends on its text and on its number. -/
theorem LogicalLine.toNode_congr {l l' : LogicalLine} (hline : l.line = l'.line)
    (h : Node.ofText l.text.toList = Node.ofText l'.text.toList) : l.toNode = l'.toNode := by
  rw [toNode, toNode, h, hline]

open Node in
/-- **The order of attributes does not matter.** Two lines with the same tag, the same content and
the same two attribute blocks stand for the same node or have the same fault, and report the same,
if their shorthands have the same classes in the same order and the same last id: the id may stand
anywhere, and either block may come first. The tag `div` may be left out in front of shorthands. The
node, if there is one, says what the pieces of the line say. -/
theorem toNode_attributesText {tag : List Char} {names names' : List Shorthand}
    {interior : Delimiter → List Char} (hne : tag ≠ []) (htag : ∀ c ∈ tag, isTagChar c = true)
    (hnames : ∀ x ∈ names, ∀ c ∈ x.name, isNameChar c = true)
    (hnames' : ∀ x ∈ names', ∀ c ∈ x.name, isNameChar c = true)
    (hclasses : names.filterMap Shorthand.class? = names'.filterMap Shorthand.class?)
    (hid : (names.filterMap Shorthand.id?).getLast? = (names'.filterMap Shorthand.id?).getLast?)
    (hpaired : ∀ d : Delimiter, Paired d.opening d.closing (interior d)) (rest : List Char)
    (d d' : Delimiter) (indent number : Nat) :
    let line (text : List Char) : LogicalLine := ⟨String.ofList text, indent, number⟩
    let first := attributesText names d interior ++ rest
    let second := attributesText names' d' interior ++ rest
    (line ('%' :: (tag ++ first))).toNode = (line ('%' :: (tag ++ second))).toNode ∧
    (tag = "div".toList →
      (names ≠ [] → (line first).toNode = (line ('%' :: (tag ++ first))).toNode) ∧
      (names' ≠ [] → (line second).toNode = (line ('%' :: (tag ++ second))).toNode)) ∧
    ofText ('%' :: (tag ++ first)) = (inlineContent rest).map fun inline ↦ .element
      { tag := String.ofList tag
        classes := String.ofList ([' '].intercalate (names.filterMap Shorthand.class?))
        id := (names.filterMap Shorthand.id?).getLast?.map String.ofList
        braceAttributes := some (String.ofList (interior .brace))
        parenAttributes := some (String.ofList (interior .paren)) } inline [] := by
  intro line first second
  have hfirst := ofElement_attributesText hne htag hnames hpaired d rest
  have hsecond := ofElement_attributesText hne htag hnames' hpaired d' rest
  have hline : ∀ text, (line text).text.toList = text := fun text ↦ String.toList_ofList
  refine ⟨LogicalLine.toNode_congr rfl ?_, ?_, hfirst⟩
  · rw [hline, hline]
    show ofElement _ = ofElement _
    rw [hfirst, hsecond, declaration_congr hclasses hid]
  · rintro rfl
    refine ⟨fun hshort ↦ LogicalLine.toNode_congr rfl ?_,
      fun hshort ↦ LogicalLine.toNode_congr rfl ?_⟩
    · rw [hline, hline]
      exact ofText_attributesText hshort d rest
    · rw [hline, hline]
      exact ofText_attributesText hshort d' rest

/-- The block in braces holds parentheses that do not pair up, the block in parentheses holds a
brace, and what follows them could be a block. One line has an id without a name and a class without
a name, the other has no tag and one id more: they stand for the same node. -/
theorem toNode_attributesText_div :
    (LogicalLine.mk "%div.a##x.\x7b:t => '(('\x7d(u='\x7d')\x7bz\x7d" 0 1).toNode =
        (LogicalLine.mk "#y..a#x(u='\x7d')\x7b:t => '(('\x7d\x7bz\x7d" 0 1).toNode ∧
      Node.ofText "%div.a##x.\x7b:t => '(('\x7d(u='\x7d')\x7bz\x7d".toList = .ok (.element
        ⟨"div", "a", some "x", some ":t => '(('", some "u='\x7d'"⟩
        (some (.leaf .plainText "\x7bz\x7d")) []) := by
  let interior (d : Delimiter) : List Char :=
    if d = .brace then ":t => '(('".toList else "u='\x7d'".toList
  have hpaired : ∀ d : Delimiter, Paired d.opening d.closing (interior d) := by
    intro d
    have hle : ∀ t ∈ (interior d).inits, t.count d.closing ≤ t.count d.opening := by
      cases d <;> decide
    exact ⟨fun t ht ↦ hle t (List.mem_inits t _ |>.2 ht), by cases d <;> decide⟩
  let names : List Node.Shorthand := [.ofClass ['a'], .ofId [], .ofId ['x'], .ofClass []]
  let names' : List Node.Shorthand := [.ofId ['y'], .ofClass [], .ofClass ['a'], .ofId ['x']]
  have hfirst : '%' :: ("div".toList ++ (Node.attributesText names .brace interior ++
      "\x7bz\x7d".toList)) = "%div.a##x.\x7b:t => '(('\x7d(u='\x7d')\x7bz\x7d".toList := by decide
  have hsecond : Node.attributesText names' .paren interior ++ "\x7bz\x7d".toList =
      "#y..a#x(u='\x7d')\x7b:t => '(('\x7d\x7bz\x7d".toList := by decide
  have hchars : ∀ x ∈ names ++ names', ∀ c ∈ x.name, Node.isNameChar c = true := by
    simp [names, names', Node.Shorthand.name]
    decide
  obtain ⟨hnames, hnames'⟩ := List.forall_mem_append.1 hchars
  obtain ⟨hsame, hdiv, hnode⟩ := @toNode_attributesText "div".toList names names' interior
    (by decide) (List.forall_iff_forall_mem.1 (by decide)) hnames hnames' (by decide) (by decide)
    hpaired "\x7bz\x7d".toList .brace .paren 0 1
  have hshort := (hdiv rfl).2 (by decide)
  rw [← hshort] at hsame
  simp only [hfirst, hsecond, String.ofList_toList] at hsame
  rw [hfirst] at hnode
  exact ⟨hsame, hnode⟩

end HamlTree
