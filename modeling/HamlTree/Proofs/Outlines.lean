import HamlTree.Proofs.Labels
import HamlTree.Proofs.Rewriting

/-!
# The outline of a parsed template determines it

No two parsed templates have the same outline (`eq_of_outline_eq`), although outlines are ambiguous
on other trees: the code of a script may end like the mark for its flag. The lines of an outline
give the depths and the labels of all nodes. What a label says of a script depends on its flag, so
the trees are found from the last to the first: whether a block is carried on depends on the line
after it, and the node of that line is known already when the block is reached
(`Nests.eq_of_labels_eq`).
-/

namespace HamlTree

open Text

/-! ### Labels with their depths -/

/-- The labels of a list of trees at some depth, in document order, each with its depth. -/
def labels (depth : Nat) (ns : List Node) : List (Nat × String) :=
  (withDepths depth ns).map fun p ↦ (p.1, p.2.label)

@[simp] theorem labels_nil (depth : Nat) : labels depth [] = [] := by
  rw [labels, withDepths_nil, List.map_nil]

theorem labels_cons (depth : Nat) (n : Node) (ns : List Node) :
    labels depth (n :: ns) =
      (depth, n.label) :: (labels (depth + 1) n.children ++ labels depth ns) := by
  simp only [labels, withDepths_cons, List.map_cons, List.map_append]

/-- No node lies above the trees. -/
theorem le_of_mem_labels {depth : Nat} {ns : List Node} :
    ∀ p ∈ labels depth ns, depth ≤ p.1 := by
  rw [labels]
  fun_induction withDepths depth ns with
  | case1 => simp
  | case2 depth n ns ihinner ihouter =>
    rw [List.map_cons, List.map_append, List.forall_mem_cons, List.forall_mem_append]
    exact ⟨Nat.le_refl depth, fun p hp ↦ Nat.le_of_succ_le (ihinner p hp), ihouter⟩

/-- **Where the children end and the siblings begin** can be seen from the depths. -/
theorem labels_append_inj {depth : Nat} {children children' siblings siblings' : List Node}
    (h : labels (depth + 1) children ++ labels depth siblings =
      labels (depth + 1) children' ++ labels depth siblings') :
    labels (depth + 1) children = labels (depth + 1) children' ∧
      labels depth siblings = labels depth siblings' := by
  have hcut : ∀ children siblings : List Node,
      (labels (depth + 1) children ++ labels depth siblings).takeWhile
        (fun p ↦ decide (depth < p.1)) = labels (depth + 1) children ∧
      (labels (depth + 1) children ++ labels depth siblings).dropWhile
        (fun p ↦ decide (depth < p.1)) = labels depth siblings := by
    intro children siblings
    refine Node.takeWhile_piece (fun p hp ↦ decide_eq_true (le_of_mem_labels p hp)) ?_
    rcases siblings with - | ⟨n, siblings⟩
    · simp
    · simp [labels_cons]
  obtain ⟨hinner, houter⟩ := hcut children siblings
  obtain ⟨hinner', houter'⟩ := hcut children' siblings'
  rw [h] at hinner houter
  exact ⟨hinner.symm.trans hinner', houter.symm.trans houter'⟩

/-! ### The lines of an outline -/

/-- The lines of an outline are the labels with their indentation. -/
theorem outlineLinesAll_eq (depth : Nat) (ns : List Node) :
    Node.outlineLinesAll depth ns =
      (labels depth ns).map fun p ↦ Node.outlineIndent p.1 ++ p.2 := by
  rw [labels]
  fun_induction withDepths depth ns with
  | case1 => rfl
  | case2 depth n ns ihinner ihouter =>
    rw [Node.outlineLinesAll, Node.outlineLines_eq, ihinner, ihouter, List.map_cons, List.map_cons,
      List.map_append, List.map_append, List.cons_append]

/-- Lines that end with line feeds begin with the first line and its line feed. -/
theorem toList_join_cons (s : String) (lines : List String) :
    (String.join ((s :: lines).map (· ++ "\n"))).toList =
      s.toList ++ '\n' :: (String.join (lines.map (· ++ "\n"))).toList := by
  simp [String.toList_join]

/-- A text made of lines, each ended by a line feed, is cut into these lines. -/
theorem splitLines_join {lines : List String}
    (h : ∀ s ∈ lines, ∀ c ∈ s.toList, Line.isLineEnd c = false) :
    Line.splitLines (String.join (lines.map (· ++ "\n"))).toList =
      lines.map String.toList ++ [[]] := by
  induction lines with
  | nil => exact Line.splitLines_of_unbroken (List.forall_mem_nil _)
  | cons s lines ih =>
    obtain ⟨hs, hlines⟩ := List.forall_mem_cons.1 h
    rw [toList_join_cons, Line.splitLines_append hs, ih hlines, List.map_cons, List.cons_append]

/-- A line of an outline is read like a line of a source: its indentation tells the depth. -/
theorem ofIndented_outline {label : String} (h : label.toList.head? ≠ some ' ') (depth : Nat) :
    LogicalLine.ofIndented (Node.outlineIndent depth ++ label).toList 0 =
      ⟨label, 2 * depth, 0⟩ := by
  rw [Node.outlineIndent, String.toList_append, String.toList_ofList,
    LogicalLine.ofIndented_spaces h, String.ofList_toList]

/-- Every label is that of a node. -/
theorem exists_of_mem_labels {depth : Nat} {ns : List Node} {p : Nat × String}
    (h : p ∈ labels depth ns) : ∃ n ∈ documentOrder ns, p.2 = n.label := by
  obtain ⟨q, hq, rfl⟩ := List.mem_map.1 h
  refine ⟨q.2, ?_, rfl⟩
  rw [← map_snd_withDepths depth]
  exact List.mem_map_of_mem hq

/-- The lines of the outline of readable nodes can be found in it again, since no label has a line
end in it. -/
theorem splitLines_outline {t : Template} (h : ∀ n ∈ t.inOrder, n.bare.Readable) :
    Line.splitLines t.outline.toList =
      (Node.outlineLinesAll 0 t.nodes).map String.toList ++ [[]] := by
  refine splitLines_join fun s hs ↦ ?_
  rw [outlineLinesAll_eq] at hs
  obtain ⟨p, hp, rfl⟩ := List.mem_map.1 hs
  obtain ⟨n, hn, hlabel⟩ := exists_of_mem_labels hp
  rw [Node.outlineIndent, String.toList_append, String.toList_ofList, List.forall_mem_append,
    hlabel]
  exact ⟨List.forall_mem_replicate.2 (.inr (by decide)), Node.unbroken_label (h n hn)⟩

/-- The depth and the label that a line of an outline stands for. -/
def readOutlineLine (s : List Char) : Nat × String :=
  ((LogicalLine.ofIndented s 0).indent / 2, (LogicalLine.ofIndented s 0).text)

/-- The labels of readable nodes can be read from the lines of their outline, since none begins with
a space. -/
theorem map_readOutlineLine {t : Template} (h : ∀ n ∈ t.inOrder, n.bare.Readable) :
    ((Node.outlineLinesAll 0 t.nodes).map String.toList).map readOutlineLine =
      labels 0 t.nodes := by
  rw [outlineLinesAll_eq, List.map_map, List.map_map]
  refine (List.map_congr_left fun p hp ↦ ?_).trans (List.map_id _)
  obtain ⟨n, hn, hlabel⟩ := exists_of_mem_labels hp
  have hhead : p.2.toList.head? ≠ some ' ' := by
    rw [hlabel, Node.head?_label (h n hn)]
    exact fun heq ↦ n.kind.initial_ne_space (Option.some.inj heq)
  show readOutlineLine (Node.outlineIndent p.1 ++ p.2).toList = p
  rw [readOutlineLine, ofIndented_outline hhead, Nat.mul_div_cancel_left p.1 (by decide)]

/-- **The outline tells the depths and the labels** of readable nodes. -/
theorem labels_eq_of_outline_eq {t t' : Template}
    (h : ∀ n ∈ t.inOrder, n.bare.Readable) (h' : ∀ n ∈ t'.inOrder, n.bare.Readable)
    (heq : t.outline = t'.outline) : labels 0 t.nodes = labels 0 t'.nodes := by
  have hlines := splitLines_outline h
  rw [heq, splitLines_outline h'] at hlines
  rw [← map_readOutlineLine h, ← map_readOutlineLine h', List.append_cancel_right hlines]

/-! ### Trees with the same labels -/

/-- Two lines stand for the same node when they have the same label with the same block under them,
carried on or not. -/
theorem LogicalLine.eq_of_label_enclose_eq {l l' : LogicalLine} {n n' : Node}
    (hclean : Line.Clean l.text.toList) (hclean' : Line.Clean l'.text.toList)
    (hnode : l.toNode.result = .ok n) (hnode' : l'.toNode.result = .ok n') {midBlock : Bool}
    {children : List Node}
    (h : (n.enclose midBlock children).label = (n'.enclose midBlock children).label) : n = n' := by
  have hbare := bare_of_toNode hnode
  have hbare' := bare_of_toNode hnode'
  have hreadable := Node.readable_of_ofText hclean (toNode_eq_ok_iff.1 hnode)
  have hreadable' := Node.readable_of_ofText hclean' (toNode_eq_ok_iff.1 hnode')
  have hsame := Node.bare_eq_of_label_eq (by rwa [Node.bare_enclose, hbare])
    (by rwa [Node.bare_enclose, hbare']) (fun hkind ↦ ?_) h
  · rwa [Node.bare_enclose, Node.bare_enclose, hbare, hbare'] at hsame
  · rw [Node.kind_enclose, Node.kind_enclose] at hkind
    rw [Bool.eq_iff_iff, Node.midBlock_enclose hbare, Node.midBlock_enclose hbare', hkind]

namespace Nests

variable {next next' : String} {width width' depth : Nat} {lines lines' : List LogicalLine}
  {trees trees' : List Node}

/-- The line after a block carries it on when another does that stands for the same node. -/
theorem continuesBlock_closingText_eq (h : Nests next width lines trees)
    (h' : Nests next' width' lines' trees) (hclean : ∀ l ∈ lines, Line.Clean l.text.toList)
    (hclean' : ∀ l ∈ lines', Line.Clean l.text.toList)
    (hnext : continuesBlock next = continuesBlock next') :
    continuesBlock (closingText next lines) = continuesBlock (closingText next' lines') := by
  -- both are compared with the lines that are written for the trees
  let written : List LogicalLine := (withDepths 0 trees).map fun p ↦
    ⟨String.ofList (trimEnd p.2.sourceText), 2 * p.1, 0⟩
  have hwritten : written.map (fun l ↦ (l.indent, l.text)) = (withDepths 0 trees).map
      fun p ↦ (2 * p.1, String.ofList (trimEnd p.2.sourceText)) := List.map_map
  rw [← h.continuesBlock_closingText hclean hnext.symm hwritten,
    ← h'.continuesBlock_closingText hclean' rfl hwritten]

/-- **Lines that nest into trees with the same labels nest into the same trees.** -/
theorem eq_of_labels_eq (h : Nests next width lines trees) (h' : Nests next' width' lines' trees')
    (hclean : ∀ l ∈ lines, Line.Clean l.text.toList)
    (hclean' : ∀ l ∈ lines', Line.Clean l.text.toList)
    (hnext : continuesBlock next = continuesBlock next')
    (hlabels : labels depth trees = labels depth trees') : trees = trees' := by
  induction h generalizing next' width' depth lines' trees' with
  | nil =>
    rcases trees' with - | ⟨n', trees'⟩
    · rfl
    · simp [labels_cons] at hlabels
  | @cons next width deeper l inner outer n children siblings hindent hnode hblock hinner houter
      ihinner ihouter =>
    cases h' with
    | nil => simp [labels_cons] at hlabels
    | @cons _ _ deeper' l' inner' outer' n' children' siblings' hindent' hnode' hblock' hinner'
        houter' =>
      obtain ⟨hcleanLine, hrest⟩ := List.forall_mem_cons.1 hclean
      obtain ⟨hcleanInner, hcleanOuter⟩ := List.forall_mem_append.1 hrest
      obtain ⟨hcleanLine', hrest'⟩ := List.forall_mem_cons.1 hclean'
      obtain ⟨hcleanInner', hcleanOuter'⟩ := List.forall_mem_append.1 hrest'
      rw [labels_cons, labels_cons, hinner.children_enclose hnode fun h ↦ (hblock h).2,
        hinner'.children_enclose hnode' fun h ↦ (hblock' h).2] at hlabels
      obtain ⟨hfirst, hnodes⟩ := List.cons.inj hlabels
      obtain ⟨hchildren, hsiblings⟩ := labels_append_inj hnodes
      -- the trees after this one come first, since they decide its flag
      obtain rfl := ihouter houter' hcleanOuter hcleanOuter' hnext hsiblings
      have hclosing := houter.continuesBlock_closingText_eq houter' hcleanOuter hcleanOuter' hnext
      obtain rfl := ihinner hinner' hcleanInner hcleanInner' hclosing hchildren
      rw [hclosing] at hfirst ⊢
      have hn := LogicalLine.eq_of_label_enclose_eq hcleanLine hcleanLine' hnode hnode'
        (Prod.mk.inj hfirst).2
      rw [hn]

end Nests

/-- **The outline of a parsed template determines it**: templates that were parsed from any two
sources and have the same outline are equal, flags included. -/
theorem eq_of_outline_eq {s s' : String} {t t' : Template} (h : parse s = .ok t)
    (h' : parse s' = .ok t') (heq : t.outline = t'.outline) : t = t' := by
  have hclean : ∀ s, ∀ l ∈ logicalLines s, Line.Clean l.text.toList :=
    fun s l hl ↦ clean_of_mem_logicalLines hl
  have hnests := parse_eq_ok_iff.1 h
  have hnests' := parse_eq_ok_iff.1 h'
  have hlabels := labels_eq_of_outline_eq (hnests.readable (hclean s))
    (hnests'.readable (hclean s')) heq
  have hnodes := hnests.eq_of_labels_eq hnests' (hclean s) (hclean s') rfl hlabels
  obtain ⟨nodes⟩ := t
  exact congrArg Template.mk hnodes

/-- An implicit `div`, other blanks and another indentation: the outlines are the same, and so are
the trees, in which the code that ends like the mark for the flag has none. -/
theorem eq_of_outline_eq_div :
    parse "#a.b= c\n  - if d\n    e\n  - else\n  - [mid-block]" =
      parse "%div.b#a  =c\n -  if d\n  e\n -else\n\n -[mid-block]" := by
  have h : parse "#a.b= c\n  - if d\n    e\n  - else\n  - [mid-block]" =
      .ok ⟨[.element ⟨"div", "b", some "a", none, none⟩ (some (.script .output "c" false []))
        [.script .silent "if d" true [.leaf .plainText "e"], .script .silent "else" false [],
          .script .silent "[mid-block]" false []]]⟩ := by decide +kernel
  have h' : parse "%div.b#a  =c\n -  if d\n  e\n -else\n\n -[mid-block]" =
      .ok ⟨[.element ⟨"div", "b", some "a", none, none⟩ (some (.script .output "c" false []))
        [.script .silent "if d" true [.leaf .plainText "e"], .script .silent "else" false [],
          .script .silent "[mid-block]" false []]]⟩ := by decide +kernel
  have hsame := eq_of_outline_eq h h' rfl
  exact h.trans ((congrArg Except.ok hsame).trans h'.symm)

end HamlTree
