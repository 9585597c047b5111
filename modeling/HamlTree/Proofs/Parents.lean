import Mathlib.Order.Bounds.Basic
import HamlTree.Proofs.Acceptance

/-!
# Nesting mirrors indentation

Who is the parent of a node is a question about the tree, and who encloses a line is a question
about the lines. Both are answered by a number here: that of the parent in document order
(`Template.parents`), and that of the last earlier line that stands further left (`encloser`). For a
parsed template the answers agree (`Nests.parents_eq`), and with them everything that indentation
says about the shape of the tree (`nesting_mirrors_indentation`).
-/

namespace HamlTree

/-! ### Parents in a tree -/

/-- The nodes of a list of trees in document order, each with the number of its parent. The numbers
start from `number`, and the trees themselves belong to `parent`. -/
def withParents (parent : Option Nat) (number : Nat) : List Node → List (Option Nat × Node)
  | [] => []
  | n :: ns =>
    (parent, n) :: (withParents (some number) (number + 1) n.children ++
      withParents parent (number + n.weight) ns)
termination_by ns => Node.weights ns
decreasing_by
  · rw [Node.weights, Node.weight_eq]
    omega
  · rw [Node.weights, Node.weight_eq]
    omega

@[simp] theorem withParents_nil (parent : Option Nat) (number : Nat) :
    withParents parent number [] = [] := by rw [withParents]

theorem withParents_cons (parent : Option Nat) (number : Nat) (n : Node) (ns : List Node) :
    withParents parent number (n :: ns) =
      (parent, n) :: (withParents (some number) (number + 1) n.children ++
        withParents parent (number + n.weight) ns) := by rw [withParents]

/-- The nodes are those of the document order. -/
theorem map_snd_withParents (parent : Option Nat) (number : Nat) (ns : List Node) :
    (withParents parent number ns).map (·.2) = documentOrder ns := by
  fun_induction withParents parent number ns with
  | case1 => simp
  | case2 parent number n ns ihinner ihouter =>
    rw [List.map_cons, List.map_append, ihinner, ihouter, documentOrder_cons, documentOrder_append]

theorem length_withParents (parent : Option Nat) (number : Nat) (ns : List Node) :
    (withParents parent number ns).length = Node.weights ns := by
  rw [← List.length_map, map_snd_withParents, length_documentOrder]

/-- A parent is the one that was given, or a node of the trees. -/
theorem parent_of_mem_withParents {parent : Option Nat} {number : Nat} {ns : List Node}
    {p : Option Nat × Node} (h : p ∈ withParents parent number ns) :
    p.1 = parent ∨ ∃ j, p.1 = some j ∧ number ≤ j ∧ j < number + Node.weights ns := by
  fun_induction withParents parent number ns with
  | case1 => simp at h
  | case2 parent number n ns ihinner ihouter =>
    rw [Node.weights, Node.weight_eq]
    rcases List.mem_cons.1 h with rfl | h
    · exact .inl rfl
    · rcases List.mem_append.1 h with h | h
      · rcases ihinner h with hp | ⟨j, hp, hle, hlt⟩
        · exact .inr ⟨number, hp, by omega, by omega⟩
        · exact .inr ⟨j, hp, by omega, by omega⟩
      · rcases ihouter h with hp | ⟨j, hp, hle, hlt⟩
        · exact .inl hp
        · rw [Node.weight_eq] at hle hlt
          exact .inr ⟨j, hp, by omega, by omega⟩

/-- Nothing belongs to a number that is neither the given parent nor that of a node. -/
theorem filter_withParents_eq_nil {parent q : Option Nat} {number : Nat} {ns : List Node}
    (hparent : parent ≠ q)
    (hq : ∀ j, q = some j → j < number ∨ number + Node.weights ns ≤ j) :
    (withParents parent number ns).filter (·.1 = q) = [] := by
  simp only [List.filter_eq_nil_iff, decide_eq_true_eq]
  rintro p hp rfl
  rcases parent_of_mem_withParents hp with hp | ⟨j, hp, hle, hlt⟩
  · exact hparent hp.symm
  · rcases hq j hp with h | h <;> omega

/-- The trees are the nodes that belong to the given parent. -/
theorem filter_withParents {parent : Option Nat} {number : Nat} (ns : List Node)
    (h : ∀ j, parent = some j → j < number) :
    (withParents parent number ns).filter (·.1 = parent) = ns.map (parent, ·) := by
  fun_induction withParents parent number ns with
  | case1 => simp
  | case2 parent number n ns ihinner ihouter =>
    -- below the first tree the parents are its own nodes, which have greater numbers
    have hinner : (withParents (some number) (number + 1) n.children).filter (·.1 = parent) =
        [] := by
      refine filter_withParents_eq_nil (fun heq ↦ ?_) fun j hj ↦ .inl ?_
      · have := h number heq.symm
        omega
      · have := h j hj
        omega
    rw [List.filter_cons_of_pos (by simp), List.filter_append, hinner, List.nil_append,
      ihouter fun j hj ↦ Nat.lt_of_lt_of_le (h j hj) (Nat.le_add_right _ _), List.map_cons]

/-- **Parents are parents**: the nodes that belong to a node are its children, in order. -/
theorem filter_withParents_some {parent : Option Nat} {number : Nat} (ns : List Node)
    (h : ∀ j, parent = some j → j < number) {i : Nat} {p : Option Nat × Node}
    (hi : (withParents parent number ns)[i]? = some p) :
    (withParents parent number ns).filter (·.1 = some (number + i)) =
      p.2.children.map (some (number + i), ·) := by
  fun_induction withParents parent number ns generalizing i p with
  | case1 => simp at hi
  | case2 parent number n ns ihinner ihouter =>
    have hparent : ∀ k, parent ≠ some (number + k) := fun k heq ↦ by
      have := h _ heq
      omega
    have hlength := length_withParents (some number) (number + 1) n.children
    have hweight := Node.weight_eq n
    rw [List.filter_cons_of_neg (by simpa using hparent i), List.filter_append]
    rcases i with - | i
    · -- the first node: its children come right after it
      obtain rfl : (parent, n) = p := by simpa using hi
      have houter : (withParents parent (number + n.weight) ns).filter (·.1 = some (number + 0)) =
          [] := by
        refine filter_withParents_eq_nil (hparent 0) fun j hj ↦ .inl ?_
        have := Option.some.inj hj
        omega
      have hinner : (withParents (some number) (number + 1) n.children).filter (·.1 = some number) =
          n.children.map (some number, ·) := filter_withParents n.children fun j hj ↦ by
        have := Option.some.inj hj
        omega
      rw [houter, List.append_nil]
      exact hinner
    · rw [List.getElem?_cons_succ] at hi
      by_cases hlt : i < (withParents (some number) (number + 1) n.children).length
      · -- a node below the first one
        rw [List.getElem?_append_left hlt] at hi
        have houter : (withParents parent (number + n.weight) ns).filter
            (·.1 = some (number + (i + 1))) = [] := by
          refine filter_withParents_eq_nil (hparent _) fun j hj ↦ .inl ?_
          have := Option.some.inj hj
          omega
        have hinner := ihinner (fun j hj ↦ by
          have := Option.some.inj hj
          omega) hi
        rw [houter, List.append_nil, show number + (i + 1) = number + 1 + i by omega]
        exact hinner
      · -- a node of the trees after the first one
        rw [List.getElem?_append_right (Nat.le_of_not_lt hlt)] at hi
        have hinner : (withParents (some number) (number + 1) n.children).filter
            (·.1 = some (number + (i + 1))) = [] := by
          refine filter_withParents_eq_nil (fun heq ↦ ?_) fun j hj ↦ .inr ?_
          · have := Option.some.inj heq
            omega
          · have := Option.some.inj hj
            omega
        have houter := ihouter (fun j hj ↦ by
          have := h j hj
          omega) hi
        rw [hinner, List.nil_append, show number + (i + 1) = number + n.weight +
          (i - (withParents (some number) (number + 1) n.children).length) by omega]
        exact houter

namespace Template

/-- The parents of the nodes of a template in document order, by their numbers; a top-level node has
none. -/
def parents (t : Template) : List (Option Nat) := (withParents none 0 t.nodes).map (·.1)

/-- The nodes of a template that have this parent, in order. -/
def childrenOf (t : Template) (parent : Option Nat) : List Node :=
  ((t.parents.zip t.inOrder).filter (·.1 = parent)).map (·.2)

theorem zip_parents_inOrder (t : Template) :
    t.parents.zip t.inOrder = withParents none 0 t.nodes :=
  (List.zip_of_prod rfl (map_snd_withParents none 0 t.nodes)).symm

/-- The top-level nodes are those without a parent, -/
theorem childrenOf_none (t : Template) : t.childrenOf none = t.nodes := by
  rw [childrenOf, zip_parents_inOrder, filter_withParents _ (by simp), List.map_map]
  exact List.map_id _

/-- and the children of any node are those that have it as their parent. -/
theorem childrenOf_some {t : Template} {i : Nat} {n : Node} (h : t.inOrder[i]? = some n) :
    t.childrenOf (some i) = n.children := by
  have hsnd : ((withParents none 0 t.nodes)[i]?).map (·.2) = some n := by
    rw [← List.getElem?_map, map_snd_withParents]
    exact h
  obtain ⟨p, hp, rfl⟩ := Option.map_eq_some_iff.1 hsnd
  have hfilter := filter_withParents_some t.nodes (by simp) hp
  rw [Nat.zero_add] at hfilter
  rw [childrenOf, zip_parents_inOrder, hfilter, List.map_map]
  exact List.map_id _

end Template

/-! ### Enclosing lines -/

/-- The number of the last line that stands left of `width`. The lines are given latest first and
numbered from the other end. -/
def encloser (width : Nat) : List LogicalLine → Option Nat
  | [] => none
  | l :: before => if l.indent < width then some before.length else encloser width before

/-- Lines that do not stand left of `width` enclose nothing there. -/
theorem encloser_append {width : Nat} {skipped : List LogicalLine}
    (h : ∀ l ∈ skipped, width ≤ l.indent) (before : List LogicalLine) :
    encloser width (skipped ++ before) = encloser width before := by
  induction skipped with
  | nil => rfl
  | cons l skipped ih =>
    have hl := h l List.mem_cons_self
    rw [List.cons_append, encloser, if_neg (by omega)]
    exact ih fun x hx ↦ h x (List.mem_cons_of_mem l hx)

/-- **The encloser is the last line that stands further left.** -/
theorem encloser_reverse_eq_some_iff {width j : Nat} (lines : List LogicalLine) :
    encloser width lines.reverse = some j ↔
      IsGreatest {k | ∃ l, lines[k]? = some l ∧ l.indent < width} j := by
  induction lines using List.reverseRecOn with
  | nil => simp [encloser, IsGreatest]
  | append_singleton lines last ih =>
    rw [List.reverse_append, List.reverse_singleton, List.singleton_append, encloser,
      List.length_reverse]
    have hlast : (lines ++ [last])[lines.length]? = some last := by simp
    have hbefore : ∀ {k}, k < lines.length → (lines ++ [last])[k]? = lines[k]? :=
      fun hk ↦ List.getElem?_append_left hk
    have hbound : ∀ {k x}, (lines ++ [last])[k]? = some x → k ≤ lines.length := fun hx ↦ by
      have := (List.getElem?_eq_some_iff.1 hx).1
      simpa [Nat.lt_succ_iff] using this
    by_cases hleft : last.indent < width
    · -- the last line of all is the greatest candidate
      rw [if_pos hleft]
      have hgreatest : IsGreatest {k | ∃ l, (lines ++ [last])[k]? = some l ∧ l.indent < width}
          lines.length := ⟨⟨last, hlast, hleft⟩, fun k ⟨_, hx, _⟩ ↦ hbound hx⟩
      refine ⟨fun h ↦ Option.some.inj h ▸ hgreatest, fun h ↦ ?_⟩
      rw [h.unique hgreatest]
    · -- the last line is no candidate, so the candidates are those before it
      rw [if_neg hleft, ih]
      have hsame :
          {k : Nat | ∃ l : LogicalLine, (lines ++ [last])[k]? = some l ∧ l.indent < width} =
            {k : Nat | ∃ l : LogicalLine, lines[k]? = some l ∧ l.indent < width} := by
        ext k
        refine ⟨fun ⟨x, hx, hindent⟩ ↦ ⟨x, ?_, hindent⟩, fun ⟨x, hx, hindent⟩ ↦ ⟨x, ?_, hindent⟩⟩
        · rcases Nat.lt_or_eq_of_le (hbound hx) with hk | rfl
          · rwa [← hbefore hk]
          · obtain rfl := Option.some.inj (hlast.symm.trans hx)
            exact absurd hindent hleft
        · rwa [hbefore (List.getElem?_eq_some_iff.1 hx).1]
      rw [hsame]

/-- Nothing encloses a width that no line stands left of. -/
theorem encloser_eq_none_iff {width : Nat} {before : List LogicalLine} :
    encloser width before = none ↔ ∀ l ∈ before, width ≤ l.indent := by
  induction before with
  | nil => simp [encloser]
  | cons l before ih =>
    rw [encloser, List.forall_mem_cons, ← ih]
    split
    · simp only [reduceCtorEq, false_iff, not_and]
      omega
    · simp only [iff_and_self]
      omega

/-- Lines with their enclosers, after some earlier lines (latest first). -/
def enclosed (earlier : List LogicalLine) : List LogicalLine → List (Option Nat × LogicalLine)
  | [] => []
  | l :: lines => (encloser l.indent earlier, l) :: enclosed (l :: earlier) lines

theorem enclosed_append (earlier xs ys : List LogicalLine) :
    enclosed earlier (xs ++ ys) = enclosed earlier xs ++ enclosed (xs.reverse ++ earlier) ys := by
  induction xs generalizing earlier with
  | nil => rfl
  | cons x xs ih => simp [enclosed, ih]

theorem getElem?_enclosed (earlier lines : List LogicalLine) (i : Nat) :
    (enclosed earlier lines)[i]? =
      lines[i]?.map fun l ↦ (encloser l.indent ((lines.take i).reverse ++ earlier), l) := by
  induction lines generalizing earlier i with
  | nil => rfl
  | cons l lines ih =>
    rcases i with - | i
    · rfl
    · simp [enclosed, ih]

namespace Nests

variable {next : String} {width : Nat} {lines : List LogicalLine} {trees : List Node}

/-- Under a line that stands further left, the lines of a block are enclosed by that line. -/
theorem encloser_cons {deeper : Nat} {l : LogicalLine} {earlier : List LogicalLine}
    (h : l.indent < deeper) : encloser deeper (l :: earlier) = some earlier.length :=
  if_pos h

/-- The lines after a tree are enclosed by what encloses the tree. -/
theorem encloser_block {deeper : Nat} {l : LogicalLine} {children : List Node}
    {inner : List LogicalLine} (earlier : List LogicalLine) (hindent : l.indent = width)
    (hdeeper : inner ≠ [] → width < deeper) (hinner : Nests next deeper inner children) :
    encloser width (inner.reverse ++ l :: earlier) = encloser width earlier := by
  rw [encloser_append, encloser, if_neg (by omega)]
  intro x hx
  have hx := List.mem_reverse.1 hx
  exact Nat.le_trans (Nat.le_of_lt (hdeeper (List.ne_nil_of_mem hx))) (hinner.le_indent x hx)

/-- **Parents are enclosers.** -/
theorem parents_eq (h : Nests next width lines trees) (earlier : List LogicalLine) :
    (withParents (encloser width earlier) earlier.length trees).map (·.1) =
      (enclosed earlier lines).map (·.1) := by
  induction h generalizing earlier with
  | nil => simp [enclosed]
  | @cons next width deeper l inner outer n children siblings hindent hnode hblock hinner houter
      ihinner ihouter =>
    have hchildren := hinner.children_enclose hnode (fun h ↦ (hblock h).2)
      (continuesBlock (closingText next outer))
    rw [withParents_cons, hchildren, Node.weight_eq, hchildren, hinner.weights_eq, enclosed,
      enclosed_append, hindent]
    simp only [List.map_cons, List.map_append, List.cons.injEq, true_and]
    congr 1
    · -- below the node of `l`
      by_cases hinner_nil : inner = []
      · obtain rfl := hinner.eq_nil_iff.1 hinner_nil
        simp [hinner_nil, enclosed]
      · have hlt : l.indent < deeper := hindent ▸ (hblock hinner_nil).1
        rw [← ihinner (l :: earlier), encloser_cons hlt, List.length_cons]
    · -- after the tree of `l`
      have hblock_encloser := encloser_block earlier hindent (fun h ↦ (hblock h).1) hinner
      rw [← ihouter (inner.reverse ++ l :: earlier), hblock_encloser, List.length_append,
        List.length_reverse, List.length_cons]
      congr 2
      omega

/-- **A line stands at the width of its block**, which for a line with an encloser is where the line
right after the encloser stands. -/
theorem indent_of_mem_enclosed (h : Nests next width lines trees) (earlier : List LogicalLine) :
    ∀ p ∈ enclosed earlier lines, (p.1 = encloser width earlier ∧ p.2.indent = width) ∨
      ∃ j x, p.1 = some (earlier.length + j) ∧ lines[j + 1]? = some x ∧ x.indent = p.2.indent := by
  induction h generalizing earlier with
  | nil => simp [enclosed]
  | @cons next width deeper l inner outer n children siblings hindent hnode hblock hinner houter
      ihinner ihouter =>
    intro p hp
    rw [enclosed, enclosed_append, List.mem_cons, List.mem_append] at hp
    rcases hp with rfl | hp | hp
    · exact .inl ⟨by rw [hindent], hindent⟩
    · obtain ⟨x, inner, rfl⟩ : ∃ x rest, inner = x :: rest :=
        List.exists_cons_of_ne_nil fun hnil ↦ by simp [hnil, enclosed] at hp
      have hlt : l.indent < deeper := hindent ▸ (hblock (by simp)).1
      rcases ihinner (l :: earlier) p hp with ⟨hparent, hp⟩ | ⟨j, y, hparent, hy, hp⟩
      · -- directly below `l`, like the line after it
        refine .inr ⟨0, x, by rw [hparent, encloser_cons hlt, Nat.add_zero], by simp, ?_⟩
        rw [hinner.indent_head, hp]
      · refine .inr ⟨j + 1, y, ?_, ?_, hp⟩
        · rw [hparent, List.length_cons]
          congr 1
          omega
        · rw [List.getElem?_cons_succ,
            List.getElem?_append_left (List.getElem?_eq_some_iff.1 hy).1]
          exact hy
    · rcases ihouter (inner.reverse ++ l :: earlier) p hp with
        ⟨hparent, hp⟩ | ⟨j, y, hparent, hy, hp⟩
      · refine .inl ⟨?_, hp⟩
        rw [hparent, encloser_block earlier hindent (fun h ↦ (hblock h).1) hinner]
      · refine .inr ⟨inner.length + 1 + j, y, ?_, ?_, hp⟩
        · rw [hparent, List.length_append, List.length_reverse, List.length_cons]
          congr 1
          omega
        · rw [List.getElem?_cons_succ, List.getElem?_append_right (by omega),
            show inner.length + 1 + j - inner.length = j + 1 by omega]
          exact hy

end Nests

/-! ### Parsed templates -/

/-- The shape of a template is the one that the indentation of these lines draws. -/
structure MirrorsIndentation (lines : List LogicalLine) (t : Template) : Prop where
  /-- There is one node for each line, -/
  size_eq : t.inOrder.length = lines.length
  /-- in the order of the lines, and it is the node of its line up to its children and its flag. -/
  nodes : List.Forall₂ (fun l n ↦ l.toNode.result = .ok n.bare) lines t.inOrder
  /-- The parent of a node is that of the last earlier line that stands further left, -/
  parent : ∀ (i : Nat) (l : LogicalLine), lines[i]? = some l → ∀ j,
    t.parents[i]? = some (some j) ↔
      IsGreatest {k | k < i ∧ ∃ m, lines[k]? = some m ∧ m.indent < l.indent} j
  /-- and a node stands at the top when there is no such line. -/
  top : ∀ (i : Nat) (l : LogicalLine), lines[i]? = some l →
    (t.parents[i]? = some none ↔ ∀ k < i, ∀ m, lines[k]? = some m → l.indent ≤ m.indent)
  /-- The nodes under one parent, like those at the top, come from lines of one indentation, -/
  siblings : ∀ (i j : Nat) (l m : LogicalLine), lines[i]? = some l → lines[j]? = some m →
    ∀ p, t.parents[i]? = some p → t.parents[j]? = some p → l.indent = m.indent
  /-- which is greater than that of the parent. -/
  deeper : ∀ (i j : Nat) (l m : LogicalLine), lines[i]? = some l → lines[j]? = some m →
    t.parents[i]? = some (some j) → m.indent < l.indent
  /-- Having a parent is being one of its children; the others are the nodes at the top. -/
  children : (∀ i n, t.inOrder[i]? = some n → n.children = t.childrenOf (some i)) ∧
    t.nodes = t.childrenOf none

/-- The parent of a node is what encloses its line. -/
theorem getElem?_parents {source : String} {t : Template} (h : parse source = .ok t) (i : Nat) :
    t.parents[i]? = (logicalLines source)[i]?.map fun l ↦
      encloser l.indent ((logicalLines source).take i).reverse := by
  have hparents := (parse_eq_ok_iff.1 h).parents_eq []
  rw [encloser, List.length_nil] at hparents
  rw [Template.parents, hparents, List.getElem?_map, getElem?_enclosed, Option.map_map]
  simp [Function.comp_def]

/-- A line of a source stands at the width of the line after its encloser, and without an encloser
it is not indented. -/
theorem indent_eq_of_parents {source : String} {t : Template} (h : parse source = .ok t) {i : Nat}
    {l : LogicalLine} {p : Option Nat} (hl : (logicalLines source)[i]? = some l)
    (hp : t.parents[i]? = some p) :
    (p = none ∧ l.indent = 0) ∨
      ∃ j x, p = some j ∧ (logicalLines source)[j + 1]? = some x ∧ x.indent = l.indent := by
  rw [getElem?_parents h, hl, Option.map_some, Option.some.injEq] at hp
  have hmem : (p, l) ∈ enclosed [] (logicalLines source) := by
    refine List.mem_of_getElem? (i := i) ?_
    rw [getElem?_enclosed, hl, Option.map_some, List.append_nil, hp]
  simpa [encloser] using (parse_eq_ok_iff.1 h).indent_of_mem_enclosed [] (p, l) hmem

/-- **Nesting mirrors indentation.** -/
theorem nesting_mirrors_indentation {source : String} {t : Template} (h : parse source = .ok t) :
    MirrorsIndentation (logicalLines source) t := by
  have hnodes := (parse_eq_ok_iff.1 h).forall₂_documentOrder
  have htake : ∀ {i k : Nat} {m : LogicalLine}, ((logicalLines source).take i)[k]? = some m ↔
      k < i ∧ (logicalLines source)[k]? = some m := by
    intro i k m
    rw [List.getElem?_take]
    split <;> simp_all
  have hparent : ∀ (i : Nat) (l : LogicalLine), (logicalLines source)[i]? = some l → ∀ j,
      t.parents[i]? = some (some j) ↔ IsGreatest
        {k | k < i ∧ ∃ m, (logicalLines source)[k]? = some m ∧ m.indent < l.indent} j := by
    intro i l hl j
    rw [getElem?_parents h, hl, Option.map_some, Option.some.injEq, encloser_reverse_eq_some_iff]
    simp only [htake, and_assoc, exists_and_left]
  refine ⟨hnodes.length_eq.symm, hnodes, hparent, ?_, ?_, ?_,
    fun i n hn ↦ (Template.childrenOf_some hn).symm, t.childrenOf_none.symm⟩
  · intro i l hl
    rw [getElem?_parents h, hl, Option.map_some, Option.some.injEq, encloser_eq_none_iff]
    refine ⟨fun hall k hk m hm ↦ ?_, fun hall m hm ↦ ?_⟩
    · exact hall m (List.mem_reverse.2 (List.mem_of_getElem? (htake.2 ⟨hk, hm⟩)))
    · obtain ⟨k, hk⟩ := List.mem_iff_getElem?.1 (List.mem_reverse.1 hm)
      exact hall k (htake.1 hk).1 m (htake.1 hk).2
  · intro i j l m hl hm p hi hj
    rcases indent_eq_of_parents h hl hi with ⟨rfl, hl⟩ | ⟨k, x, rfl, hx, hl⟩
    · rcases indent_eq_of_parents h hm hj with ⟨-, hm⟩ | ⟨k, x, hk, -, -⟩
      · rw [hl, hm]
      · exact absurd hk (by simp)
    · rcases indent_eq_of_parents h hm hj with ⟨hk, -⟩ | ⟨k', x', hk, hx', hm⟩
      · exact absurd hk (by simp)
      · obtain rfl := Option.some.inj hk
        obtain rfl := Option.some.inj (hx.symm.trans hx')
        rw [← hl, hm]
  · intro i j l m hl hm hj
    obtain ⟨-, m', hm', hlt⟩ := ((hparent i l hl j).1 hj).1
    obtain rfl := Option.some.inj (hm.symm.trans hm')
    exact hlt

/-- A paragraph with two lines under it, and a line that is back at the top. -/
theorem mirrors_indentation_paragraph :
    MirrorsIndentation (logicalLines "%p\n   one\n   = two\nthree\n")
      ⟨[.element ⟨"p", "", none, none, none⟩ none
        [.leaf .plainText "one", .script .output "two" false []], .leaf .plainText "three"]⟩ :=
  nesting_mirrors_indentation (by decide +kernel)

end HamlTree
