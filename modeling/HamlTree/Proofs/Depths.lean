import HamlTree.Proofs.Nesting

/-!
# Depths in a tree

The nodes of a list of trees in document order, each with its depth (`withDepths`). A node whose own
children and flag are left out is an *entry* (`entries`), and the entries of trees determine where
every node is: what comes before it, how deep it lies, and what its own line says about it.
-/

namespace HamlTree

/-- The nodes of a list of trees in document order, each with its depth below the trees, which
themselves have the given depth. -/
def withDepths (depth : Nat) : List Node → List (Nat × Node)
  | [] => []
  | n :: ns => (depth, n) :: (withDepths (depth + 1) n.children ++ withDepths depth ns)
termination_by ns => Node.weights ns
decreasing_by
  · rw [Node.weights, Node.weight_eq]
    omega
  · rw [Node.weights, Node.weight_eq]
    omega

@[simp] theorem withDepths_nil (depth : Nat) : withDepths depth [] = [] := by rw [withDepths]

theorem withDepths_cons (depth : Nat) (n : Node) (ns : List Node) :
    withDepths depth (n :: ns) =
      (depth, n) :: (withDepths (depth + 1) n.children ++ withDepths depth ns) := by
  rw [withDepths]

/-- The nodes are those of the document order. -/
theorem map_snd_withDepths (depth : Nat) (ns : List Node) :
    (withDepths depth ns).map (·.2) = documentOrder ns := by
  fun_induction withDepths depth ns with
  | case1 => simp
  | case2 depth n ns ihinner ihouter =>
    rw [List.map_cons, List.map_append, ihinner, ihouter, documentOrder_cons, documentOrder_append]

/-! ### Entries -/

/-- The entries of a list of trees at some depth: their nodes in document order, each with its depth
and without its children and its flag. -/
def entries (depth : Nat) (ns : List Node) : List (Nat × Node) :=
  (withDepths depth ns).map fun p ↦ (p.1, p.2.bare)

@[simp] theorem entries_nil (depth : Nat) : entries depth [] = [] := by
  rw [entries, withDepths_nil, List.map_nil]

theorem entries_cons (depth : Nat) (n : Node) (ns : List Node) :
    entries depth (n :: ns) =
      (depth, n.bare) :: (entries (depth + 1) n.children ++ entries depth ns) := by
  simp only [entries, withDepths_cons, List.map_cons, List.map_append]

/-- The entries of two lists of trees are those of the first, then those of the second. -/
theorem entries_append (depth : Nat) (ms ns : List Node) :
    entries depth (ms ++ ns) = entries depth ms ++ entries depth ns := by
  induction ms with
  | nil => simp
  | cons m ms ih => simp only [List.cons_append, entries_cons, ih, List.append_assoc]

/-- The entries of one tree. -/
theorem entries_singleton (depth : Nat) (n : Node) :
    entries depth [n] = (depth, n.bare) :: entries (depth + 1) n.children := by
  simp [entries_cons]

/-- **Deeper trees have the same entries**, each as much deeper as the trees are. -/
theorem map_entries (shift depth : Nat) (ns : List Node) :
    (entries depth ns).map (fun p ↦ (shift + p.1, p.2)) = entries (shift + depth) ns := by
  rw [entries, entries]
  fun_induction withDepths depth ns with
  | case1 => simp
  | case2 depth n ns ihinner ihouter =>
    simp only [withDepths_cons, List.map_cons, List.map_append, ihinner, ihouter, Nat.add_assoc]

end HamlTree
