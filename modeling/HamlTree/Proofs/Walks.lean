import HamlTree.Proofs.Outlines

/-!
# Walks and outlines

A walk over a template visits one node after the other. It keeps the nodes that it has still to
visit in a stack with the next one last, and when it visits a node, the children of that node take
its place, the first of them last (`walkStep?`). It knows neither how deep a node lies nor where the
children of another one end. Still it visits the nodes in the order that the nesting gives, each
node before its children and these before its next sibling (`withDepths`), and then it ends
(`walks_iff`).

The outline follows the nesting and writes a line for each node. So the lines of the outline and the
nodes of the walk correspond, the indentation of a line being the depth of its node
(`Template.walk_outline`) — as long as a node takes one line only. Labels quote plain text and cut
classes into words, and show all else as it is, so a label is on one line when the texts that it
shows as they are have no line feed in them (`Node.lineFeed_notMem_label_iff`).
-/

namespace HamlTree

open Text

/-! ### The steps of a walk -/

/-- The node that is visited next, and what is still to be visited after it; nothing at the end. -/
def walkStep? (stack : List Node) : Option (Node × List Node) :=
  stack.getLast?.map fun n ↦ (n, stack.dropLast ++ n.children.reverse)

@[simp] theorem walkStep?_nil : walkStep? [] = none := rfl

@[simp] theorem walkStep?_concat (stack : List Node) (n : Node) :
    walkStep? (stack ++ [n]) = some (n, stack ++ n.children.reverse) := by
  rw [walkStep?, List.getLast?_concat, Option.map_some, List.dropLast_concat]

/-- From a stack on, a walk visits these nodes and ends. -/
inductive Walks : (stack visited : List Node) → Prop
  /-- The walk ends. -/
  | ended {stack : List Node} (hend : walkStep? stack = none) : Walks stack []
  /-- The walk visits a node and goes on. -/
  | visit {stack rest visited : List Node} {n : Node} (hstep : walkStep? stack = some (n, rest))
      (hrest : Walks rest visited) : Walks stack (n :: visited)

/-- A walk visits the nodes in document order. -/
theorem walks_documentOrder (ns : List Node) : Walks ns.reverse (documentOrder ns) := by
  fun_induction documentOrder ns with
  | case1 => exact .ended rfl
  | case2 n ns ih =>
    rw [List.reverse_append] at ih
    refine .visit ?_ ih
    rw [List.reverse_cons, walkStep?_concat]

/-- No step of a walk has two outcomes, so it visits one sequence of nodes only. -/
theorem Walks.unique {stack visited visited' : List Node} (h : Walks stack visited)
    (h' : Walks stack visited') : visited = visited' := by
  induction h generalizing visited' with
  | ended hend =>
    cases h' with
    | ended => rfl
    | visit hstep => exact absurd (hend.symm.trans hstep) (by simp)
  | visit hstep _ ih =>
    cases h' with
    | ended hend => exact absurd (hend.symm.trans hstep) (by simp)
    | visit hstep' hrest' =>
      obtain ⟨rfl, rfl⟩ := Prod.mk.inj (Option.some.inj (hstep.symm.trans hstep'))
      rw [ih hrest']

/-- **A walk visits the nodes in document order, and ends.** -/
theorem walks_iff {ns visited : List Node} :
    Walks ns.reverse visited ↔ visited = documentOrder ns :=
  ⟨fun h ↦ h.unique (walks_documentOrder ns), fun h ↦ h ▸ walks_documentOrder ns⟩

/-- There is one depth for each node that is visited. -/
theorem length_withDepths (depth : Nat) (ns : List Node) :
    (withDepths depth ns).length = (documentOrder ns).length := by
  rw [← map_snd_withDepths depth, List.length_map]

/-! ### Labels on one line -/

/-- No word has a blank in it. -/
theorem Text.isBlank_of_mem_words (s : List Char) : ∀ w ∈ words s, ∀ c ∈ w, isBlank c = false := by
  fun_induction words s with
  | case1 => simp
  | case2 s c rest h ih =>
    refine List.forall_mem_cons.2 ⟨List.forall_mem_cons.2 ⟨?_, fun d hd ↦ ?_⟩, ih⟩
    · exact isBlank_of_trimStart_eq_cons h
    · simpa using List.mem_takeWhile_imp hd

/-- The texts of a declaration that its label shows as they are. -/
def Declaration.shownTexts (d : Declaration) : List String :=
  d.tag :: (d.id.toList ++ d.braceAttributes.toList ++ d.parenAttributes.toList)

/-- The texts of a node and its inline node that their label shows as they are. -/
def Node.shownTexts : Node → List String
  | element d none _ => d.shownTexts
  | element d (some inline) _ => d.shownTexts ++ inline.shownTexts
  | script _ code _ _ => [code]
  | leaf .doctype text => [text]
  | leaf .comment text => [text]
  | leaf .plainText _ => []

/-- The classes of a declaration are on one line, whatever blanks are between them. -/
theorem Declaration.lineFeed_notMem_classes (d : Declaration) :
    '\n' ∉ (String.join (d.classNames.map ("." ++ ·))).toList := by
  intro h
  rw [String.toList_join, List.flatMap_map, classNames, List.flatMap_map] at h
  obtain ⟨w, hw, hc⟩ := List.mem_flatMap.1 h
  rw [String.toList_append] at hc
  rcases List.mem_append.1 hc with hc | hc
  · exact absurd hc (by decide)
  · rw [String.toList_ofList] at hc
    exact absurd (isBlank_of_mem_words _ w hw '\n' hc) (by decide)

/-- The label of a declaration is on one line when the texts are that it shows as they are. -/
theorem Declaration.lineFeed_notMem_label_iff (d : Declaration) :
    '\n' ∉ d.label.toList ↔ ∀ s ∈ d.shownTexts, '\n' ∉ s.toList := by
  have hclasses := d.lineFeed_notMem_classes
  rw [label, shownTexts]
  generalize String.join (d.classNames.map ("." ++ ·)) = classes at hclasses
  rcases d.id with - | id <;> rcases d.braceAttributes with - | braces <;>
    rcases d.parenAttributes with - | parens <;>
    simp [String.toList_append, hclasses]

namespace Node

/-- **A label is on one line when the texts are that it shows as they are.** -/
theorem lineFeed_notMem_label_iff : (n : Node) →
    ('\n' ∉ n.label.toList ↔ ∀ s ∈ n.shownTexts, '\n' ∉ s.toList)
  | element d none _ => d.lineFeed_notMem_label_iff
  | element d (some inline) _ => by
    have hinline := lineFeed_notMem_label_iff inline
    rw [shownTexts, List.forall_mem_append, ← hinline, ← d.lineFeed_notMem_label_iff, label]
    simp [String.toList_append]
  | script mode code midBlock _ => by
    cases mode <;> cases midBlock <;> simp [label, shownTexts, ScriptMode.marker]
  | leaf .doctype text => by simp [label, shownTexts]
  | leaf .comment text => by simp [label, shownTexts]
  | leaf .plainText text => by
    have hquote : '\n' ∉ (quote text).toList := fun h ↦
      absurd (unbroken_quote text '\n' h) (by decide)
    rw [label, shownTexts]
    exact iff_of_true hquote (List.forall_mem_nil _)

end Node

/-! ### The lines of an outline -/

/-- Lines that end with line feeds are pieces with line feeds between them, the last piece being
empty. -/
theorem toList_join_lines (lines : List String) :
    (String.join (lines.map (· ++ "\n"))).toList =
      ['\n'].intercalate (lines.map String.toList ++ [[]]) := by
  induction lines with
  | nil => rfl
  | cons line lines ih =>
    obtain ⟨next, more, hnext⟩ := List.exists_cons_of_ne_nil
      (List.append_ne_nil_of_right_ne_nil (lines.map String.toList) (List.cons_ne_nil [] []))
    rw [toList_join_cons, ih, List.map_cons, List.cons_append, hnext,
      List.intercalate_cons_cons, List.append_assoc, List.singleton_append]

namespace Template

/-- **The lines of an outline** can be found in it again, if each label is on one line. -/
theorem splitOn_outline {t : Template}
    (h : ∀ n ∈ t.inOrder, ∀ s ∈ n.shownTexts, '\n' ∉ s.toList) :
    t.outline.toList.splitOn '\n' = (withDepths 0 t.nodes).map (fun p ↦
      List.replicate (2 * p.1) ' ' ++ p.2.label.toList) ++ [[]] := by
  have hlines : (Node.outlineLinesAll 0 t.nodes).map String.toList = (withDepths 0 t.nodes).map
      fun p ↦ List.replicate (2 * p.1) ' ' ++ p.2.label.toList := by
    rw [outlineLinesAll_eq, labels, List.map_map, List.map_map]
    refine List.map_congr_left fun p _ ↦ ?_
    simp [Node.outlineIndent]
  rw [outline, toList_join_lines, hlines]
  refine List.splitOn_intercalate '\n' ?_ (by simp)
  rw [List.forall_mem_append, List.forall_mem_map]
  refine ⟨fun p hp ↦ ?_, by simp⟩
  have hn : p.2 ∈ t.inOrder := by
    rw [inOrder, ← map_snd_withDepths 0]
    exact List.mem_map_of_mem hp
  rw [List.mem_append, not_or]
  exact ⟨fun hspace ↦ absurd (List.eq_of_mem_replicate hspace) (by decide),
    p.2.lineFeed_notMem_label_iff.2 (h p.2 hn)⟩

/-- **The walk and the outline agree.** Whatever the nodes of a template are, a walk over it ends,
and it visits the nodes as they are nested, each before its children and these before its next
sibling, inline nodes left out; their number is that of all nodes. If no text that the labels show
as it is has a line feed in it, the outline has one line for each of them, in the same order, which
begins with two spaces for each level and goes on with the label. -/
theorem walk_outline (t : Template) :
    (∀ visited, Walks t.nodes.reverse visited ↔ visited = t.inOrder) ∧
    t.inOrder = (withDepths 0 t.nodes).map (·.2) ∧
    t.size = Node.weights t.nodes ∧ (withDepths 0 t.nodes).length = t.size ∧
    ((∀ n ∈ t.inOrder, ∀ s ∈ n.shownTexts, '\n' ∉ s.toList) →
      t.outline.toList.splitOn '\n' = (withDepths 0 t.nodes).map (fun p ↦
        List.replicate (2 * p.1) ' ' ++ p.2.label.toList) ++ [[]]) :=
  ⟨fun _ ↦ walks_iff, (map_snd_withDepths 0 t.nodes).symm, length_documentOrder t.nodes,
    length_withDepths 0 t.nodes, splitOn_outline⟩

/-- Line feeds in classes and in plain text break no line. -/
theorem walk_outline_lineFeeds :
    (Template.outline ⟨[.element ⟨"p", "a\nb", some "c", none, none⟩
        (some (.leaf .plainText "x\ny")) [.script .silent "if d" true [.leaf .comment "e"]],
        .leaf .plainText "f\ng"]⟩).toList.splitOn '\n' =
      ["%p.a.b#c \"x\\ny\"", "  - if d [mid-block]", "    / e", "\"f\\ng\"", ""].map
        String.toList := by
  refine ((walk_outline _).2.2.2.2 ?_).trans ?_
  · simp [inOrder, documentOrder_cons, Node.children, Node.shownTexts, Declaration.shownTexts]
  · simp only [withDepths_cons, withDepths_nil, Node.children, List.append_nil, List.nil_append,
      List.cons_append]
    decide +kernel

end Template

end HamlTree
