import HamlTree.Node

/-!
# Document order

The nodes of a template in document order: every node comes before its children, and the children
before the next sibling. Inline nodes are part of their element and are not visited.

The order is computed from the list of nodes still to be visited: the first of them is next, and its
children take its place. Each step takes one node away for good, so it ends after as many steps as
the list has nodes, nested ones counted (`Node.weights`).
-/

namespace HamlTree

namespace Node

mutual

/-- The number of nodes in a tree, the node itself counted. -/
def weight : Node → Nat
  | element _ _ children => weights children + 1
  | script _ _ _ children => weights children + 1
  | leaf _ _ => 1

/-- The number of nodes in a list of trees. -/
def weights : List Node → Nat
  | [] => 0
  | n :: ns => weight n + weights ns

end

theorem weight_eq (n : Node) : n.weight = weights n.children + 1 := by
  cases n <;> simp [weight, children, weights]

theorem weights_append (ms ns : List Node) : weights (ms ++ ns) = weights ms + weights ns := by
  induction ms with
  | nil => simp [weights]
  | cons m ms ih => rw [List.cons_append, weights, weights, ih, Nat.add_assoc]

end Node

/-- The nodes of a list of trees in document order, nested ones included. -/
def documentOrder : List Node → List Node
  | [] => []
  | n :: ns => n :: documentOrder (n.children ++ ns)
termination_by ns => Node.weights ns
decreasing_by
  rw [Node.weights_append, Node.weights, Node.weight_eq]
  omega

@[simp] theorem documentOrder_nil : documentOrder [] = [] := by rw [documentOrder]

theorem documentOrder_cons (n : Node) (ns : List Node) :
    documentOrder (n :: ns) = n :: documentOrder (n.children ++ ns) := by
  rw [documentOrder]

/-- **The order visits every node once**: as many nodes as there are. -/
theorem length_documentOrder (ns : List Node) : (documentOrder ns).length = Node.weights ns := by
  fun_induction documentOrder ns with
  | case1 => simp [Node.weights]
  | case2 n ns ih =>
    rw [List.length_cons, ih, Node.weights_append, Node.weights, Node.weight_eq]
    omega

namespace Template

/-- All nodes of a template in document order. -/
def inOrder (t : Template) : List Node := documentOrder t.nodes

/-- The number of nodes of a template. -/
def size (t : Template) : Nat := t.inOrder.length

end Template

end HamlTree
