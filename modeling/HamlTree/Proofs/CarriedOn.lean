import HamlTree.Proofs.Parents

/-!
# Which scripts are carried on

The flag of a script says that the line after its block carries the construct on, as `else` does
after `if`. A block can be closed many lines after its script and together with others, so the flag
is read off where the tree of the script lies among the lines (`Spans`): its own line, the deeper
lines of its block, and then a line that is not deeper, if there is one. That line decides
(`midBlock_iff_carried_on`).
-/

namespace HamlTree

/-- The tree of a node lies among lines that are followed by a line with the text `next`: the line
with the given number is its own, the lines `inner` are the block under it, and the first line of
`after` does not belong to it. -/
inductive Spans (next : String) : List LogicalLine → Nat → Node → Prop
  /-- The lines before the tree, those of the tree, and those after it. -/
  | intro {before inner after : List LogicalLine} {l : LogicalLine} {n : Node}
      {children : List Node} {deeper : Nat} (hnode : l.toNode.result = .ok n)
      (hblock : inner ≠ [] → l.indent < deeper ∧ n.children?.isSome)
      (hinner : Nests (closingText next after) deeper inner children)
      (hafter : ∀ x ∈ after.head?, x.indent ≤ l.indent) :
      Spans next (before ++ l :: (inner ++ after)) before.length
        (n.enclose (continuesBlock (closingText next after)) children)

namespace Spans

variable {next : String} {lines : List LogicalLine} {i : Nat} {n : Node}

/-- More lines may come before the tree. -/
theorem append_left (h : Spans next lines i n) (more : List LogicalLine) :
    Spans next (more ++ lines) (more.length + i) n := by
  cases h with
  | @intro before inner after l =>
    rw [← List.append_assoc, ← List.length_append]
    exact .intro ‹_› ‹_› ‹_› ‹_›

/-- More lines may come after the tree, if the first of them stands left of all lines here. -/
theorem append_right {more : List LogicalLine} (h : Spans (closingText next more) lines i n)
    (hmore : ∀ x ∈ more.head?, ∀ l ∈ lines, x.indent ≤ l.indent) :
    Spans next (lines ++ more) i n := by
  cases h with
  | @intro before inner after l n children deeper hnode hblock hinner hafter =>
    rw [List.append_assoc, List.cons_append, List.append_assoc]
    rw [← closingText_append] at hinner ⊢
    refine .intro hnode hblock hinner fun x hx ↦ ?_
    rcases after with - | ⟨y, after⟩
    · exact hmore x hx l (by simp)
    · exact hafter x (by simpa using hx)

/-- The tree takes one line for each of its nodes. -/
theorem weight_eq (h : Spans next lines i n) :
    ∃ before inner after l, lines = before ++ l :: (inner ++ after) ∧ i = before.length ∧
      n.weight = inner.length + 1 ∧ (∀ x ∈ inner, l.indent < x.indent) ∧
      ∀ x ∈ after.head?, x.indent ≤ l.indent := by
  cases h with
  | @intro before inner after l n children deeper hnode hblock hinner hafter =>
    have hchildren := hinner.children_enclose hnode (fun h ↦ (hblock h).2)
      (continuesBlock (closingText next after))
    refine ⟨before, inner, after, l, rfl, rfl, ?_, fun x hx ↦ ?_, hafter⟩
    · rw [Node.weight_eq, hchildren, hinner.weights_eq]
    · exact Nat.lt_of_lt_of_le (hblock (List.ne_nil_of_mem hx)).1 (hinner.le_indent x hx)

/-- The own line of the tree says what its node is. -/
theorem toNode (h : Spans next lines i n) : ∃ l : LogicalLine, l.toNode.result = .ok n.bare := by
  cases h with
  | @intro before inner after l n children deeper hnode =>
    rw [Node.bare_enclose, LogicalLine.bare_of_toNode hnode]
    exact ⟨l, hnode⟩

/-- **A script is flagged when the line after its block carries it on.** -/
theorem midBlock_iff (h : Spans next lines i n) :
    n.midBlock = true ↔ (∃ mode, n.kind = .script mode) ∧ n.children ≠ [] ∧
      continuesBlock (closingText next (lines.drop (i + n.weight))) = true := by
  cases h with
  | @intro before inner after l n children deeper hnode hblock hinner hafter =>
    have hbare := LogicalLine.bare_of_toNode hnode
    have hchildren := hinner.children_enclose hnode (fun h ↦ (hblock h).2)
      (continuesBlock (closingText next after))
    have hdrop : (before ++ l :: (inner ++ after)).drop (before.length + (inner.length + 1)) =
        after := by simp
    rw [Node.midBlock_enclose hbare, Node.kind_enclose, Node.weight_eq, hchildren,
      hinner.weights_eq, hdrop]

/-- **The first line outside a tree** is the first after its own that does not stand further
right. -/
theorem isLeast_iff (h : Spans next lines i n) {l : LogicalLine} (hl : lines[i]? = some l)
    (k : Nat) :
    IsLeast {k | i < k ∧ ∃ x, lines[k]? = some x ∧ x.indent ≤ l.indent} k ↔
      k = i + n.weight ∧ k < lines.length := by
  obtain ⟨before, inner, after, l', rfl, rfl, hweight, hinner, hafter⟩ := h.weight_eq
  obtain rfl : l' = l := by simpa using hl
  have hget : ∀ j, (before ++ l' :: (inner ++ after))[before.length + (j + 1)]? =
      (inner ++ after)[j]? := fun j ↦ by
    rw [List.getElem?_append_right (by omega), Nat.add_sub_cancel_left, List.getElem?_cons_succ]
  -- a candidate does not lie in the block
  have hlower : ∀ k, before.length < k → ∀ x, (before ++ l' :: (inner ++ after))[k]? = some x →
      x.indent ≤ l'.indent → before.length + n.weight ≤ k := by
    intro k hk x hx hindent
    obtain ⟨j, rfl⟩ := Nat.exists_eq_add_of_lt hk
    rw [Nat.add_assoc, hget] at hx
    refine Nat.le_of_not_lt fun hlt ↦ ?_
    rw [List.getElem?_append_left (by omega)] at hx
    have := hinner x (List.mem_of_getElem? hx)
    omega
  have hfirst : (before ++ l' :: (inner ++ after))[before.length + n.weight]? = after.head? := by
    rw [hweight, hget, List.getElem?_append_right (Nat.le_refl _), Nat.sub_self,
      List.head?_eq_getElem?]
  have hlength : before.length + n.weight < (before ++ l' :: (inner ++ after)).length ↔
      ∃ x, after.head? = some x := by
    rw [← hfirst, ← Option.isSome_iff_exists, isSome_getElem?]
  constructor
  · rintro ⟨⟨hk, x, hx, hindent⟩, hleast⟩
    have hle := hlower k hk x hx hindent
    have hlt := Nat.lt_of_le_of_lt hle (List.getElem?_eq_some_iff.1 hx).1
    obtain ⟨y, hy⟩ := hlength.1 hlt
    have hge := hleast ⟨by omega, y, hfirst.trans hy, hafter y hy⟩
    exact ⟨Nat.le_antisymm hge hle, (List.getElem?_eq_some_iff.1 hx).1⟩
  · rintro ⟨rfl, hlt⟩
    obtain ⟨y, hy⟩ := hlength.1 hlt
    exact ⟨⟨by omega, y, hfirst.trans hy, hafter y hy⟩, fun k ⟨hk, x, hx, hindent⟩ ↦
      hlower k hk x hx hindent⟩

end Spans

/-- **Every tree of nested lines spans its lines.** -/
theorem Nests.spans {next : String} {width : Nat} {lines : List LogicalLine} {trees : List Node}
    (h : Nests next width lines trees) {i : Nat} {n : Node}
    (hn : (documentOrder trees)[i]? = some n) : Spans next lines i n := by
  induction h generalizing i n with
  | nil => simp at hn
  | @cons next width deeper l inner outer m children siblings hindent hnode hblock hinner houter
      ihinner ihouter =>
    have hhead : ∀ x ∈ outer.head?, x.indent = width := by
      cases houter with
      | nil => simp
      | cons hindent => simpa using hindent
    rw [documentOrder_cons, documentOrder_append,
      hinner.children_enclose hnode fun h ↦ (hblock h).2] at hn
    rcases i with - | i
    · -- the first tree
      obtain rfl := Option.some.inj hn
      have hafter : ∀ x ∈ outer.head?, x.indent ≤ l.indent :=
        fun x hx ↦ Nat.le_of_eq ((hhead x hx).trans hindent.symm)
      show Spans next ([] ++ l :: (inner ++ outer)) ([] : List LogicalLine).length _
      exact .intro hnode (fun h ↦ hindent ▸ hblock h) hinner hafter
    · rw [List.getElem?_cons_succ] at hn
      have hlength : (documentOrder children).length = inner.length := by
        rw [length_documentOrder, hinner.weights_eq]
      by_cases hlt : i < inner.length
      · -- a tree in the block under it
        rw [List.getElem?_append_left (hlength ▸ hlt)] at hn
        have hmore : ∀ x ∈ outer.head?, ∀ y ∈ inner, x.indent ≤ y.indent := fun x hx y hy ↦ by
          have hdeeper := (hblock (List.ne_nil_of_mem hy)).1
          have hy := hinner.le_indent y hy
          have hx := hhead x hx
          omega
        have hspans := ((ihinner hn).append_right hmore).append_left [l]
        rwa [List.length_singleton, Nat.add_comm] at hspans
      · -- a tree after it
        rw [List.getElem?_append_right (by omega), hlength] at hn
        have hspans := (ihouter hn).append_left (l :: inner)
        have hnumber : inner.length + 1 + (i - inner.length) = i + 1 := by omega
        rwa [List.length_cons, hnumber] at hspans

/-- A line carries on the construct above it when it begins with a mid keyword. -/
theorem continuesBlock_iff {text : String} :
    continuesBlock text = true ↔ ∃ word, Keyword.find? text = some (.mid word) := by
  rw [continuesBlock]
  rcases Keyword.find? text with - | ⟨word⟩ | ⟨word⟩ <;> simp [Keyword.isMid]

/-- **The meaning of the flag.** The node of a line is flagged exactly when it is a script with a
block under it, and the first later line that does not stand further right begins with a mid
keyword. This line is the one after the tree of the node. The inline node of an element is never
flagged. -/
theorem midBlock_iff_carried_on {source : String} {t : Template} (h : parse source = .ok t)
    {i : Nat} {l : LogicalLine} {n : Node} (hl : (logicalLines source)[i]? = some l)
    (hn : t.inOrder[i]? = some n) :
    (n.midBlock = true ↔ (∃ mode, n.kind = .script mode) ∧ n.children ≠ [] ∧
      ∃ k x word,
        IsLeast {k | i < k ∧ ∃ x, (logicalLines source)[k]? = some x ∧ x.indent ≤ l.indent} k ∧
        (logicalLines source)[k]? = some x ∧ Keyword.find? x.text = some (.mid word)) ∧
    (∀ k, IsLeast {k | i < k ∧ ∃ x, (logicalLines source)[k]? = some x ∧ x.indent ≤ l.indent} k ↔
      k = i + n.weight ∧ k < (logicalLines source).length) ∧
    ∀ d inline children, n = .element d (some inline) children → inline.midBlock = false := by
  have hspans := (parse_eq_ok_iff.1 h).spans hn
  refine ⟨?_, hspans.isLeast_iff hl, ?_⟩
  · rw [hspans.midBlock_iff]
    simp only [hspans.isLeast_iff hl]
    have hnext :
        continuesBlock (closingText "" ((logicalLines source).drop (i + n.weight))) = true ↔
          ∃ x word, (logicalLines source)[i + n.weight]? = some x ∧
            Keyword.find? x.text = some (.mid word) := by
      rw [← List.head?_drop]
      rcases (logicalLines source).drop (i + n.weight) with - | ⟨x, rest⟩
      · simp [continuesBlock_empty]
      · simp [continuesBlock_iff]
    rw [hnext]
    refine and_congr_right fun _ ↦ and_congr_right fun _ ↦ ⟨?_, ?_⟩
    · rintro ⟨x, word, hx, hword⟩
      exact ⟨_, x, word, ⟨rfl, (List.getElem?_eq_some_iff.1 hx).1⟩, hx, hword⟩
    · rintro ⟨_, x, word, ⟨rfl, -⟩, hx, hword⟩
      exact ⟨x, word, hx, hword⟩
  · rintro d inline children rfl
    obtain ⟨l, hnode⟩ := hspans.toNode
    exact Node.midBlock_of_bare (Node.bare_inline_of_ofText (LogicalLine.toNode_eq_ok_iff.1 hnode))

/-- A line that goes back two levels can carry on the inner one of two scripts: here the `else` is
what comes after the block of `if b`. -/
theorem carried_on_two_levels_left :
    ∃ k x word, IsLeast {k | 1 < k ∧ ∃ x,
        (logicalLines "- if a\n  - if b\n    c\n- else\n  d")[k]? = some x ∧ x.indent ≤ 2} k ∧
      (logicalLines "- if a\n  - if b\n    c\n- else\n  d")[k]? = some x ∧
      Keyword.find? x.text = some (.mid word) := by
  have h : parse "- if a\n  - if b\n    c\n- else\n  d" =
      .ok ⟨[.script .silent "if a" true [.script .silent "if b" true [.leaf .plainText "c"]],
        .script .silent "else" false [.leaf .plainText "d"]]⟩ := by decide +kernel
  have hl : (logicalLines "- if a\n  - if b\n    c\n- else\n  d")[1]? = some ⟨"- if b", 2, 2⟩ := by
    decide +kernel
  have hn : (documentOrder
      [.script .silent "if a" true [.script .silent "if b" true [.leaf .plainText "c"]],
        .script .silent "else" false [.leaf .plainText "d"]])[1]? =
      some (.script .silent "if b" true [.leaf .plainText "c"]) := by
    simp [documentOrder_cons, Node.children]
  exact ((midBlock_iff_carried_on h hl hn).1.1 rfl).2.2

end HamlTree
