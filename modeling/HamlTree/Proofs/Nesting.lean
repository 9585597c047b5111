import Mathlib.Data.List.Forall2
import HamlTree.Proofs.LineNode

/-!
# How lines nest

A template is its lines read by their indentation, and `Nests` says how without a draft: a block is
a sequence of trees, the first line of a tree stands at the width of the block, the deeper lines
after it form a block of their own under its node, and the next line that is not deeper begins the
next tree. Such a line also decides the flag of the node before it, so the relation carries the text
of the line that comes after the block; at the end of a template that text is empty.

The relation mentions no state and no order of events. `parse_eq_ok_iff` says that a parse ends well
exactly when the lines nest, and then with the trees they nest into; nesting is where everything
said of the shape of a parsed template is proved, by induction on the derivation.
-/

namespace HamlTree

namespace Node

/-- The node with a block under it: its children, and the flag that the line after the block
decides. A node without a block is left alone, and so is a leaf. -/
def enclose (midBlock : Bool) (n : Node) : List Node → Node
  | [] => n
  | child :: children =>
    (n.modifyChildren fun _ ↦ child :: children).modifyMidBlock fun _ ↦ midBlock

@[simp] theorem enclose_nil (midBlock : Bool) (n : Node) : n.enclose midBlock [] = n := rfl

/-- A block that nothing carries on leaves the flag of a bare node alone. -/
theorem enclose_false {n : Node} (hbare : n.bare = n) (children : List Node) :
    n.enclose false children = n.modifyChildren fun _ ↦ children := by
  rw [← hbare]
  cases children <;> cases n <;> rfl

/-- A block adds nothing to what the own line of a node says. -/
@[simp] theorem bare_enclose (midBlock : Bool) (n : Node) (children : List Node) :
    (n.enclose midBlock children).bare = n.bare := by
  cases children <;> cases n <;> rfl

@[simp] theorem kind_enclose (midBlock : Bool) (n : Node) (children : List Node) :
    (n.enclose midBlock children).kind = n.kind := by
  cases children <;> cases n <;> rfl

/-- A bare node gets the children of the block under it, if it can have any. -/
theorem children_enclose {n : Node} (hbare : n.bare = n) (midBlock : Bool)
    {children : List Node} (hopen : children ≠ [] → n.children?.isSome) :
    (n.enclose midBlock children).children = children := by
  rcases children with - | ⟨child, children⟩
  · exact children_of_bare hbare
  · have := hopen (by simp)
    cases n with
    | element => rfl
    | script => rfl
    | leaf => simp [children?] at this

/-- A bare node is flagged when it is a script with a block under it whose end carries it on. -/
theorem midBlock_enclose {n : Node} (hbare : n.bare = n) (midBlock : Bool)
    (children : List Node) :
    (n.enclose midBlock children).midBlock = true ↔
      (∃ mode, n.kind = .script mode) ∧ children ≠ [] ∧ midBlock = true := by
  rcases children with - | ⟨child, children⟩
  · simp [midBlock_of_bare hbare]
  · cases n <;> simp [enclose, modifyChildren, modifyMidBlock, Node.midBlock, kind]

/-- A node that can be opened is its owner, closed with the children that it had. -/
theorem eq_close_of_reopen? {n : Node} {o : Owner} {children : List Node}
    (h : n.reopen? = some (o, children)) : ∃ midBlock, n = o.close midBlock children := by
  cases n with
  | element =>
    obtain ⟨rfl, rfl⟩ := Prod.mk.inj (Option.some.inj h)
    exact ⟨false, rfl⟩
  | script mode code midBlock =>
    obtain ⟨rfl, rfl⟩ := Prod.mk.inj (Option.some.inj h)
    exact ⟨midBlock, rfl⟩
  | leaf => simp [reopen?] at h

/-- Opening a block under a bare node and closing it again encloses what was collected. -/
theorem close_eq_enclose {n : Node} {o : Owner} {old : List Node}
    (h : n.reopen? = some (o, old)) (midBlock : Bool) {children : List Node}
    (hne : children ≠ []) : o.close midBlock children = n.enclose midBlock children := by
  obtain ⟨flag, rfl⟩ := eq_close_of_reopen? h
  obtain ⟨child, children, rfl⟩ := List.exists_cons_of_ne_nil hne
  cases o <;> rfl

end Node

/-- The document order of two lists of trees is that of the first, then that of the second. -/
theorem documentOrder_append (ms ns : List Node) :
    documentOrder (ms ++ ns) = documentOrder ms ++ documentOrder ns := by
  fun_induction documentOrder ms with
  | case1 => rfl
  | case2 m ms ih =>
    rw [List.cons_append, documentOrder_cons, ← List.append_assoc, ih, List.cons_append]

/-- The text of the line after a block: that of the first line that follows, or else that of the
line after all of them. -/
def closingText (next : String) : List LogicalLine → String
  | [] => next
  | l :: _ => l.text

@[simp] theorem closingText_nil (next : String) : closingText next [] = next := rfl

@[simp] theorem closingText_cons (next : String) (l : LogicalLine) (lines : List LogicalLine) :
    closingText next (l :: lines) = l.text := rfl

/-- What comes after a block is the first line that follows, also when its lines are given in two
parts. -/
theorem closingText_append (next : String) (lines more : List LogicalLine) :
    closingText next (lines ++ more) = closingText (closingText next more) lines := by
  cases lines <;> rfl

/-- The end of a source carries nothing on. -/
theorem continuesBlock_empty : continuesBlock "" = false := by cbv

/-- **Lines nest into trees.** The lines of a block of width `width`, before a line with the text
`next`, make up these trees. -/
inductive Nests : (next : String) → (width : Nat) → List LogicalLine → List Node → Prop
  /-- A block may have no lines left. -/
  | nil (next : String) (width : Nat) : Nests next width [] []
  /-- A line begins a tree, the deeper lines after it are the block under its node, and the lines
  after those are the rest of its own block. -/
  | cons {next : String} {width deeper : Nat} {l : LogicalLine} {inner outer : List LogicalLine}
      {n : Node} {children siblings : List Node} (hindent : l.indent = width)
      (hnode : l.toNode.result = .ok n)
      (hblock : inner ≠ [] → width < deeper ∧ n.children?.isSome)
      (hinner : Nests (closingText next outer) deeper inner children)
      (houter : Nests next width outer siblings) :
      Nests next width (l :: (inner ++ outer))
        (n.enclose (continuesBlock (closingText next outer)) children :: siblings)

namespace Nests

variable {next : String} {width : Nat} {lines : List LogicalLine} {trees : List Node}

/-- A line with a block under it, and nothing after the block, is a tree. -/
theorem block {l : LogicalLine} {n : Node} {deeper : Nat} (hnode : l.toNode.result = .ok n)
    (hblock : lines ≠ [] → l.indent < deeper ∧ n.children?.isSome)
    (h : Nests next deeper lines trees) :
    Nests next l.indent (l :: lines) [n.enclose (continuesBlock next) trees] := by
  have hcons : Nests next l.indent (l :: (lines ++ []))
      [n.enclose (continuesBlock (closingText next [])) trees] :=
    .cons rfl hnode hblock h (.nil _ _)
  rwa [List.append_nil] at hcons

/-- A line alone is a tree. -/
theorem single (next : String) {l : LogicalLine} {n : Node} (hnode : l.toNode.result = .ok n) :
    Nests next l.indent [l] [n] :=
  block hnode (fun h ↦ absurd rfl h) (.nil _ 0)

/-- No line of a block stands left of it. -/
theorem le_indent (h : Nests next width lines trees) : ∀ l ∈ lines, width ≤ l.indent := by
  induction h with
  | nil => simp
  | cons hindent _ hblock _ _ ihinner ihouter =>
    intro x hx
    rcases List.mem_cons.1 hx with rfl | hx
    · exact Nat.le_of_eq hindent.symm
    · rcases List.mem_append.1 hx with hx | hx
      · have hlt := (hblock (List.ne_nil_of_mem hx)).1
        exact Nat.le_trans (Nat.le_of_lt hlt) (ihinner x hx)
      · exact ihouter x hx

/-- The first line of a block stands at its width. -/
theorem indent_head {l : LogicalLine} (h : Nests next width (l :: lines) trees) :
    l.indent = width := by
  cases h with
  | cons hindent => exact hindent

/-- Lines make up trees exactly when there are lines. -/
theorem eq_nil_iff (h : Nests next width lines trees) : lines = [] ↔ trees = [] := by
  cases h <;> simp

/-- The tree of a line alone is the node of that line. -/
theorem of_singleton {l : LogicalLine} {n : Node} (h : Nests next width [l] [n]) :
    l.indent = width ∧ l.toNode.result = .ok n := by
  generalize hlines : [l] = lines at h
  cases h with
  | @cons _ _ _ _ inner outer _ _ _ hindent hnode _ hinner _ =>
    obtain ⟨rfl, hrest⟩ := List.cons.inj hlines
    obtain ⟨rfl, rfl⟩ := List.append_eq_nil_iff.1 hrest.symm
    obtain rfl := hinner.eq_nil_iff.1 rfl
    exact ⟨hindent, hnode⟩

/-- The node of a line gets the trees of the block under it as its children. -/
theorem children_enclose {l : LogicalLine} {n : Node} (h : Nests next width lines trees)
    (hnode : l.toNode.result = .ok n) (hopen : lines ≠ [] → n.children?.isSome)
    (midBlock : Bool) : (n.enclose midBlock trees).children = trees :=
  Node.children_enclose (LogicalLine.bare_of_toNode hnode) midBlock
    fun hne ↦ hopen fun hnil ↦ hne (h.eq_nil_iff.1 hnil)

/-- **A block can be cut before a line at its width**: that line is what follows the first part. -/
theorem append {l : LogicalLine} {more : List LogicalLine} {moreTrees : List Node}
    (h : Nests l.text width lines trees) (hmore : Nests next width (l :: more) moreTrees) :
    Nests next width (lines ++ l :: more) (trees ++ moreTrees) := by
  generalize hnext : l.text = t at h
  induction h with
  | nil => exact hmore
  | @cons _ _ _ x inner outer n children siblings hindent hnode hblock hinner _ _ ihouter =>
    subst hnext
    -- the lines after the first tree are followed by `l` as before, be they none at all
    rw [List.cons_append, List.append_assoc, List.cons_append]
    rw [← closingText_cons next l more, ← closingText_append] at hinner ⊢
    exact .cons hindent hnode hblock hinner (ihouter hmore rfl)

/-- **The trees have one node for each line, in the same order**, and a node is that of its line as
far as the line goes. -/
theorem forall₂_documentOrder (h : Nests next width lines trees) :
    List.Forall₂ (fun l n ↦ l.toNode.result = .ok n.bare) lines (documentOrder trees) := by
  induction h with
  | nil => simp
  | cons hindent hnode hblock hinner houter ihinner ihouter =>
    have hbare := LogicalLine.bare_of_toNode hnode
    rw [documentOrder_cons, documentOrder_append,
      hinner.children_enclose hnode fun h ↦ (hblock h).2]
    refine .cons ?_ (List.rel_append ihinner ihouter)
    rw [Node.bare_enclose, hbare]
    exact hnode

/-- There are as many nodes as lines. -/
theorem weights_eq (h : Nests next width lines trees) : Node.weights trees = lines.length := by
  rw [← length_documentOrder, h.forall₂_documentOrder.length_eq]

end Nests

end HamlTree
