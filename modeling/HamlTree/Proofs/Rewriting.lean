import HamlTree.Proofs.Acceptance
import HamlTree.Proofs.Depths
import HamlTree.Proofs.SourceText

/-!
# A template written as a source

A template can be written as a source again: one line for each node in document order, indented by
two spaces for each level (`Template.toSource`). The flags are not written, nor is anything left of
the indentation and of the blanks of the source that was parsed.

Parsing what was written gives the template back (`parse_toSource`), unless a line happens to end
like a continued one. The lines that were written nest into the same trees as the lines that were
parsed: they stand for the same nodes, a line is deeper exactly when its node is, and the line after
a block carries it on in the one source when it does so in the other (`Nests.rewrite`).
-/

namespace HamlTree

open Text

/-! ### Writing a template -/

namespace Template

/-- The lines of a template: the lines of its nodes, indented by two spaces for each level. -/
def sourceLines (t : Template) : List (List Char) :=
  (withDepths 0 t.nodes).map fun p ↦ List.replicate (2 * p.1) ' ' ++ p.2.sourceText

/-- A template written as a source. -/
def toSource (t : Template) : String := String.ofList (['\n'].intercalate t.sourceLines)

end Template

/-! ### The written lines nest like the parsed ones -/

namespace Nests

variable {next : String} {width : Nat} {lines : List LogicalLine} {trees : List Node}

/-- The nodes of lines that can stand alone are readable. -/
theorem readable (h : Nests next width lines trees)
    (hclean : ∀ l ∈ lines, Line.Clean l.text.toList) :
    ∀ n ∈ documentOrder trees, n.bare.Readable := by
  have hnodes := h.forall₂_documentOrder
  clear h
  generalize documentOrder trees = nodes at hnodes ⊢
  induction hnodes with
  | nil => simp
  | cons hnode _ ih =>
    have hfirst := Node.readable_of_ofText (hclean _ List.mem_cons_self)
      (LogicalLine.toNode_eq_ok_iff.1 hnode)
    exact List.forall_mem_cons.2 ⟨hfirst, ih fun x hx ↦ hclean x (List.mem_cons_of_mem _ hx)⟩

/-- The line after a block carries it on in what was written when it does so in what was parsed. -/
theorem continuesBlock_closingText (h : Nests next width lines trees)
    (hclean : ∀ l ∈ lines, Line.Clean l.text.toList) {next' : String}
    (hnext : continuesBlock next' = continuesBlock next) {depth : Nat} {written : List LogicalLine}
    (hwritten : written.map (fun l ↦ (l.indent, l.text)) = (withDepths depth trees).map
      fun p ↦ (2 * p.1, String.ofList (trimEnd p.2.sourceText))) :
    continuesBlock (closingText next' written) = continuesBlock (closingText next lines) := by
  cases h with
  | nil =>
    obtain rfl : written = [] := by simpa using hwritten
    exact hnext
  | @cons _ _ deeper l inner outer n children siblings _ hnode =>
    rw [withDepths_cons, List.map_cons] at hwritten
    obtain ⟨l', rest, rfl, hl', -⟩ := List.map_eq_cons_iff.1 hwritten
    obtain ⟨-, htext⟩ := Prod.mk.inj hl'
    rw [← Node.sourceText_bare, Node.bare_enclose, Node.sourceText_bare] at htext
    have hfind := Node.find?_sourceText (hclean l List.mem_cons_self)
      (LogicalLine.toNode_eq_ok_iff.1 hnode)
    rw [String.ofList_toList] at hfind
    rw [closingText_cons, closingText_cons, continuesBlock, continuesBlock, htext, hfind]

/-- **The written lines of nested trees nest into the same trees.** -/
theorem rewrite (h : Nests next width lines trees)
    (hclean : ∀ l ∈ lines, Line.Clean l.text.toList) {next' : String}
    (hnext : continuesBlock next' = continuesBlock next) {depth : Nat} {written : List LogicalLine}
    (hwritten : written.map (fun l ↦ (l.indent, l.text)) = (withDepths depth trees).map
      fun p ↦ (2 * p.1, String.ofList (trimEnd p.2.sourceText))) :
    Nests next' (2 * depth) written trees := by
  -- the induction follows the parsed lines; what was written is cut where the trees are
  induction h generalizing next' depth written with
  | nil =>
    obtain rfl : written = [] := by simpa using hwritten
    exact .nil _ _
  | @cons next width deeper l inner outer n children siblings hindent hnode hblock hinner houter
      ihinner ihouter =>
    have hchildren := hinner.children_enclose hnode (fun h ↦ (hblock h).2)
      (continuesBlock (closingText next outer))
    have hcleanInner : ∀ x ∈ inner, Line.Clean x.text.toList :=
      fun x hx ↦ hclean x (List.mem_cons_of_mem l (List.mem_append_left outer hx))
    have hcleanOuter : ∀ x ∈ outer, Line.Clean x.text.toList :=
      fun x hx ↦ hclean x (List.mem_cons_of_mem l (List.mem_append_right inner hx))
    rw [withDepths_cons, List.map_cons, List.map_append, hchildren] at hwritten
    -- the line of the node, the lines of its block, and the lines after the block
    obtain ⟨l', rest, rfl, hl', hrest⟩ := List.map_eq_cons_iff.1 hwritten
    obtain ⟨inner', outer', rfl, hinner', houter'⟩ := List.map_eq_append_iff.1 hrest
    obtain ⟨hindent', htext⟩ := Prod.mk.inj hl'
    have hclosing := houter.continuesBlock_closingText hcleanOuter hnext houter'
    have hnode' : l'.toNode.result = .ok n := by
      rw [← Node.sourceText_bare, Node.bare_enclose, Node.sourceText_bare] at htext
      rw [LogicalLine.toNode_eq_ok_iff, htext, String.toList_ofList]
      exact (Node.readable_of_ofText (hclean l List.mem_cons_self)
        (LogicalLine.toNode_eq_ok_iff.1 hnode)).ofText_sourceText
    have hblock' : inner' ≠ [] → 2 * depth < 2 * (depth + 1) ∧ n.children?.isSome := by
      intro hne'
      refine ⟨by omega, (hblock fun hnil ↦ hne' ?_).2⟩
      obtain rfl := hinner.eq_nil_iff.1 hnil
      simpa using hinner'
    rw [← hclosing]
    exact .cons hindent' hnode' hblock' (ihinner hcleanInner hclosing hinner')
      (ihouter hcleanOuter hnext houter')

end Nests

/-! ### Parsing what was written -/

/-- The line of a node at some depth is read with its text and its indentation. -/
theorem ofIndented_sourceText {n : Node} (h : n.bare.Readable) (depth line : Nat) :
    LogicalLine.ofIndented (trimEnd (List.replicate (2 * depth) ' ' ++ n.sourceText)) line =
      ⟨String.ofList (trimEnd n.sourceText), 2 * depth, line⟩ := by
  have hclean := h.clean
  rw [Node.sourceText_bare] at hclean
  rw [trimEnd_append hclean.ne_nil, LogicalLine.ofIndented_spaces hclean.unindented]

/-- The logical lines of a written template are the lines of its nodes. -/
theorem logicalLines_toSource {t : Template}
    (hreadable : ∀ n ∈ t.inOrder, n.bare.Readable)
    (hlines : ∀ s ∈ t.sourceLines, Line.isContinued (trimEnd s) = false) :
    (logicalLines t.toSource).map (fun l ↦ (l.indent, l.text)) =
      (withDepths 0 t.nodes).map fun p ↦ (2 * p.1, String.ofList (trimEnd p.2.sourceText)) := by
  have hmem : ∀ p ∈ withDepths 0 t.nodes, p.2.bare.Readable := by
    intro p hp
    refine hreadable p.2 ?_
    rw [Template.inOrder, ← map_snd_withDepths 0]
    exact List.mem_map_of_mem hp
  have hunbroken : ∀ s ∈ t.sourceLines, ∀ c ∈ s, Line.isLineEnd c = false := by
    intro s hs c hc
    obtain ⟨p, hp, rfl⟩ := List.mem_map.1 hs
    rcases List.mem_append.1 hc with hc | hc
    · rw [List.eq_of_mem_replicate hc]
      decide
    · exact (hmem p hp).unbroken c (by rwa [Node.sourceText_bare])
  have hwritten : (t.sourceLines.zipIdx 1).map
      (fun p ↦ LogicalLine.ofIndented (trimEnd p.1) p.2) =
        ((withDepths 0 t.nodes).zipIdx 1).map fun q ↦
          ⟨String.ofList (trimEnd q.1.2.sourceText), 2 * q.1.1, q.2⟩ := by
    rw [Template.sourceLines, List.zipIdx_map, List.map_map]
    exact List.map_congr_left fun q hq ↦
      ofIndented_sourceText (hmem q.1 (List.fst_mem_of_mem_zipIdx hq)) q.1.1 q.2
  rw [Template.toSource, logicalLines_intercalate hunbroken hlines, hwritten, List.filter_eq_self.2]
  · -- the numbers of the lines do not matter
    rw [List.map_map]
    calc ((withDepths 0 t.nodes).zipIdx 1).map
          (fun q ↦ (2 * q.1.1, String.ofList (trimEnd q.1.2.sourceText)))
        = (((withDepths 0 t.nodes).zipIdx 1).map Prod.fst).map
          fun p ↦ (2 * p.1, String.ofList (trimEnd p.2.sourceText)) := by rw [List.map_map]; rfl
      _ = _ := by rw [List.zipIdx_map_fst]
  · intro l hl
    obtain ⟨q, hq, rfl⟩ := List.mem_map.1 hl
    have hclean := (hmem q.1 (List.fst_mem_of_mem_zipIdx hq)).clean
    rw [Node.sourceText_bare] at hclean
    simpa [LogicalLine.isBlank] using hclean.ne_nil

/-- **Parsing undoes writing.** If no line of a parsed template ends like a continued line, what was
written is parsed as the same template, flags included. -/
theorem parse_toSource {source : String} {t : Template} (h : parse source = .ok t)
    (hlines : ∀ s ∈ t.sourceLines, Line.isContinued (trimEnd s) = false) :
    parse t.toSource = .ok t := by
  have hnests := parse_eq_ok_iff.1 h
  have hclean : ∀ l ∈ logicalLines source, Line.Clean l.text.toList :=
    fun l hl ↦ clean_of_mem_logicalLines hl
  rw [parse_eq_ok_iff]
  exact hnests.rewrite hclean rfl (logicalLines_toSource (hnests.readable hclean) hlines)

/-- A `div` left out, an id before a class, four spaces for a level: the written source says the
same in its own way, and the `else` carries on the `if` in both. -/
theorem parse_toSource_div :
    parse (Template.toSource ⟨[.element ⟨"div", "b", some "a", none, none⟩ none
        [.script .silent "if x" true [.leaf .comment ""], .script .silent "else" false []],
        .leaf .plainText "c"]⟩) =
      .ok ⟨[.element ⟨"div", "b", some "a", none, none⟩ none
        [.script .silent "if x" true [.leaf .comment ""], .script .silent "else" false []],
        .leaf .plainText "c"]⟩ := by
  have h : parse "#a.b\n    - if x\n        /\n    -else\nc" =
      .ok ⟨[.element ⟨"div", "b", some "a", none, none⟩ none
        [.script .silent "if x" true [.leaf .comment ""], .script .silent "else" false []],
        .leaf .plainText "c"]⟩ := by decide +kernel
  exact parse_toSource h (by decide +kernel)

end HamlTree
