import HamlTree.Proofs.Depths
import HamlTree.Proofs.Steps

/-!
# Nothing is lost

A draft takes trees apart and puts them together again: opening a block takes a node away from its
siblings and its children away from it, closing a block hands all of them back. Neither changes the
*contents* of the draft (`Draft.contents`), the entries of all nodes in it, whether they are open,
wait beside an open node or have been collected. Only an added node does: its entries come last, as
deep as the innermost block.

So the template that any steps lead to consists of what was added, in this order and at these
depths (`entries_toTemplate_after`).
-/

namespace HamlTree

/-- Closing does not change what the own line of an open node says. -/
theorem Owner.bare_close (o : Owner) (midBlock : Bool) (children : List Node) :
    (o.close midBlock children).bare = o.close false [] := by
  cases o <;> rfl

/-! ### The contents of a draft -/

/-- The entries around the innermost block: for each block the siblings before its owner, then the
owner, from the outermost block inwards. -/
def OpenBlock.contents : List OpenBlock → List (Nat × Node)
  | [] => []
  | block :: blocks =>
    contents blocks ++ (entries blocks.length block.before.reverse ++
      [(blocks.length, block.owner.close false [])])

namespace Draft

/-- The entries of all nodes in a draft, in the order of the document. -/
def contents (d : Draft) : List (Nat × Node) :=
  OpenBlock.contents d.blocks ++ entries d.blocks.length d.collected.reverse

/-- **Closing a block keeps the contents.** -/
theorem contents_close (midBlock : Bool) (block : OpenBlock) (blocks : List OpenBlock)
    (collected : List Node) (opened : Nat) :
    contents ⟨blocks, block.close midBlock collected, opened⟩ =
      contents ⟨block :: blocks, collected, opened⟩ := by
  simp only [contents, OpenBlock.contents, OpenBlock.close, List.reverse_cons, List.length_cons,
    entries_append, entries_singleton, Owner.bare_close, Owner.children_close, List.append_assoc,
    List.singleton_append]

/-- **Opening a block keeps the contents.** -/
theorem contents_open {node : Node} {owner : Owner} {children : List Node}
    (h : node.reopen? = some (owner, children)) (blocks : List OpenBlock) (before : List Node)
    (width opened : Nat) :
    contents ⟨⟨width, owner, before⟩ :: blocks, children.reverse, opened + 1⟩ =
      contents ⟨blocks, node :: before, opened⟩ := by
  obtain ⟨midBlock, rfl⟩ := Node.eq_close_of_reopen? h
  simp only [contents, OpenBlock.contents, List.reverse_cons, List.length_cons, entries_append,
    entries_singleton, Owner.bare_close, Owner.children_close, List.reverse_reverse,
    List.append_assoc, List.singleton_append]

@[simp] theorem contents_empty : contents {} = [] := by simp [contents, OpenBlock.contents]

/-- An added node comes last, as deep as the innermost block. -/
theorem contents_add (d : Draft) (n : Node) :
    (d.add n).contents = d.contents ++ entries d.blocks.length [n] := by
  simp only [add, contents, List.reverse_cons, entries_append, List.append_assoc]

/-- Moving to a line keeps the contents, whether or not the line is at fault. -/
theorem contents_moveTo (d : Draft) (l : LogicalLine) :
    (d.moveTo l).draft.contents = d.contents := by
  refine moveTo_induction (P := fun d' ↦ d'.contents = d.contents) ?_ ?_ rfl l
  · intro midBlock block blocks collected opened h
    rw [contents_close, h]
  · intro width node before blocks owner children opened _ hreopen h
    rw [contents_open hreopen, h]

/-- Closing all blocks keeps the contents. -/
theorem contents_closeAll (d : Draft) : d.closeAll.contents = d.contents := by
  refine closeDeeper_induction (P := fun d' ↦ d'.contents = d.contents) ?_ rfl 0 ""
  intro midBlock block blocks collected opened h
  rw [contents_close, h]

/-- **The template of a draft has the contents of the draft.** -/
theorem Increasing.entries_toTemplate {d : Draft} (h : d.Increasing) :
    entries 0 d.toTemplate.nodes = d.contents := by
  rw [← contents_closeAll, contents, h.blocks_closeAll]
  rfl

/-! ### What steps add -/

/-- What a step adds to a draft: the entries of the added node, deeper by the number of open
blocks. -/
def Step.added (d : Draft) : Step → List (Nat × Node)
  | .add n => (entries 0 [n]).map fun p ↦ (d.widths.length - 1 + p.1, p.2)
  | .moveTo _ => []
  | .closeAll => []

/-- What a list of steps adds to a draft, one step after the other. -/
def added (d : Draft) : List Step → List (Nat × Node)
  | [] => []
  | x :: steps => x.added d ++ (d.step x).added steps

/-- A step changes the contents by what it adds. -/
theorem contents_step (d : Draft) (x : Step) : (d.step x).contents = d.contents ++ x.added d := by
  cases x with
  | moveTo l => rw [step, contents_moveTo, Step.added, List.append_nil]
  | add n =>
    rw [step, contents_add, Step.added, length_widths, Nat.add_sub_cancel, map_entries,
      Nat.add_zero]
  | closeAll => rw [step, contents_closeAll, Step.added, List.append_nil]

/-- Steps change the contents by what they add. -/
theorem contents_after (d : Draft) (steps : List Step) :
    (d.after steps).contents = d.contents ++ d.added steps := by
  induction steps generalizing d with
  | nil => rw [after_nil, added, List.append_nil]
  | cons x steps ih => rw [after_cons, ih, contents_step, added, List.append_assoc]

/-- **Nothing is lost, doubled or moved.** Whatever steps are taken from the empty draft, the nodes
of the template are those that were added, in the same order. Each is as deep as it was in the tree
it was added with, below the block that was the innermost at that moment. -/
theorem entries_toTemplate_after (steps : List Step) :
    entries 0 (after {} steps).toTemplate.nodes = added {} steps := by
  rw [(increasing_after steps).entries_toTemplate, contents_after, contents_empty, List.nil_append]

/-- An element with a child takes a text at the depth of the child, and after a line that fits
nowhere another one beside itself. -/
example : entries 0 (after {} [.add (.element ⟨"p", "", none, none, none⟩ none
      [.leaf .plainText "a"]), .moveTo ⟨"b", 4, 2⟩, .add (.leaf .plainText "b"),
      .moveTo ⟨"c", 2, 3⟩, .add (.leaf .plainText "c")]).toTemplate.nodes =
    [(0, .element ⟨"p", "", none, none, none⟩ none []), (1, .leaf .plainText "a"),
      (1, .leaf .plainText "b"), (0, .leaf .plainText "c")] := by
  cbv

end Draft

end HamlTree
