import HamlTree.Proofs.Steps

/-!
# A draft in two stacks

A draft holds the width and the owner of an open block in one place, and an owner is a node that can
have children. Nothing of this has to be so: an open template can be kept in two stacks as well, one
of widths and one of open nodes, which are pushed and popped apart from each other, the nodes being
nodes of any kind (`Stacks`). Then two things can go wrong. A level is to be closed and no node is
open, or a node is to be added and the innermost open node cannot have children. The operations on
the stacks have no result in these two cases.

They never arise. Whatever steps are taken from the empty stacks, the stacks keep what a draft keeps
(`Stacks.Agrees.after?`), and what ties them together is an invariant of all reachable states
(`stacks_wellKept`).
-/

namespace HamlTree

/-! ### Open nodes as nodes -/

namespace Node

variable {n : Node} {o : Owner} {children : List Node}

/-- A node that can be opened can have children. -/
theorem children?_of_reopen? (h : n.reopen? = some (o, children)) :
    n.children? = some children := by
  rw [children?_eq_map_reopen?, h]
  rfl

/-- An open node stays the same while its children change. -/
theorem reopen?_modifyChildren (h : n.reopen? = some (o, children))
    (f : List Node → List Node) : (n.modifyChildren f).reopen? = some (o, f children) := by
  obtain ⟨_, rfl⟩ := eq_close_of_reopen? h
  cases o <;> rfl

/-- Closing an open node decides its flag and nothing else. -/
theorem modifyMidBlock_of_reopen? (h : n.reopen? = some (o, children)) (midBlock : Bool) :
    n.modifyMidBlock (fun _ ↦ midBlock) = o.close midBlock children := by
  obtain ⟨_, rfl⟩ := eq_close_of_reopen? h
  cases o <;> rfl

end Node

/-! ### The stacks -/

/-- A template under construction, in two stacks. -/
structure Stacks where
  /-- The widths, innermost first. -/
  widths : List Nat := [0]
  /-- The open nodes, innermost first, with the children collected so far. -/
  nodes : List Node := []
  /-- The nodes at the top that are not open. -/
  top : List Node := []
  /-- How many levels have been opened so far. -/
  opened : Nat := 0

namespace Stacks

/-- The innermost width, 0 if there is none. -/
def width (s : Stacks) : Nat := s.widths.head?.getD 0

/-- The siblings of the next node: the children of the innermost open node, and the nodes at the top
when no node is open. An open node that cannot have children has no place for it. -/
def level? (s : Stacks) : Option (List Node) :=
  match s.nodes with
  | [] => some s.top
  | node :: _ => node.children?

/-- Change the siblings of the next node. -/
def modifyLevel (f : List Node → List Node) (s : Stacks) : Stacks :=
  match s.nodes with
  | [] => { s with top := f s.top }
  | node :: nodes => { s with nodes := node.modifyChildren f :: nodes }

/-- Add a node, if there is a place for it. -/
def add? (s : Stacks) (n : Node) : Option Stacks :=
  s.level?.map fun _ ↦ s.modifyLevel (· ++ [n])

/-- Open a level under the newest node, which leaves its place to become an open node. -/
def openLevel? (s : Stacks) (width : Nat) : Option (Stacks × Option Fault) :=
  s.level?.map fun level ↦
    match level.getLast? with
    | none => (s, some .indentAtStart)
    | some node =>
      match node.children? with
      | none => (s, some (.illegalNesting node.kind))
      | some _ =>
        let rest := s.modifyLevel List.dropLast
        (⟨width :: rest.widths, node :: rest.nodes, rest.top, rest.opened + 1⟩, none)

/-- Close the innermost level: its width and its node leave their stacks, and the node is added to
the level around it. -/
def close? (s : Stacks) (midBlock : Bool) : Option Stacks :=
  match s.nodes with
  | [] => none
  | node :: nodes =>
    add? ⟨s.widths.tail, nodes, s.top, s.opened⟩ (node.modifyMidBlock fun _ ↦ midBlock)

/-- The widths stay when a node is added. -/
theorem widths_of_add? {s s' : Stacks} {n : Node} (h : s.add? n = some s') :
    s'.widths = s.widths := by
  obtain ⟨_, -, rfl⟩ := Option.map_eq_some_iff.1 h
  rw [modifyLevel]
  split <;> rfl

/-- A width is gone when a level is closed. -/
theorem widths_of_close? {s s' : Stacks} {midBlock : Bool} (h : s.close? midBlock = some s') :
    s'.widths = s.widths.tail := by
  rw [close?] at h
  split at h
  · exact absurd h (by simp)
  · exact widths_of_add? h

/-- Close every level deeper than a width, one after the other. -/
def closeDeeper? (s : Stacks) (width : Nat) (text : String) : Option Stacks :=
  if _hdeeper : width < s.width then
    match _hclose : s.close? (continuesBlock text) with
    | none => none
    | some closed => closed.closeDeeper? width text
  else
    some s
termination_by s.widths.length
decreasing_by
  rw [widths_of_close? _hclose]
  rcases hwidths : s.widths with - | ⟨w, widths⟩
  · rw [Stacks.width, hwidths] at _hdeeper
    exact absurd _hdeeper (Nat.not_lt_zero width)
  · exact Nat.lt_succ_self _

/-- At a level that is not deeper nothing is closed. -/
theorem closeDeeper?_of_le {s : Stacks} {width : Nat} (text : String) (h : s.width ≤ width) :
    s.closeDeeper? width text = some s := by
  rw [closeDeeper?, dif_neg (Nat.not_lt.2 h)]

/-- A deeper level is closed first. -/
theorem closeDeeper?_of_lt {s closed : Stacks} {width : Nat} {text : String} (h : width < s.width)
    (hclose : s.close? (continuesBlock text) = some closed) :
    s.closeDeeper? width text = closed.closeDeeper? width text := by
  rw [closeDeeper?, dif_pos h]
  split
  · next hnone => exact absurd (hclose.symm.trans hnone) (by simp)
  · next hsome => rw [Option.some.inj (hclose.symm.trans hsome)]

/-- Close every level. -/
def closeAll? (s : Stacks) : Option Stacks := s.closeDeeper? 0 ""

/-- Move to where a line belongs. -/
def moveTo? (s : Stacks) (l : LogicalLine) : Option (Stacks × Option Fault) :=
  if s.width < l.indent then
    s.openLevel? l.indent
  else if l.indent < s.width then
    (s.closeDeeper? l.indent l.text).map fun closed ↦
      (closed, if closed.width = l.indent then none else some (.inconsistentIndent l.indent))
  else
    some (s, none)

/-- The stacks after a step. -/
def step? (s : Stacks) : Draft.Step → Option Stacks
  | .moveTo l => (s.moveTo? l).map (·.1)
  | .add n => s.add? n
  | .closeAll => s.closeAll?

/-- The stacks after a list of steps. -/
def after? (s : Stacks) : List Draft.Step → Option Stacks
  | [] => some s
  | x :: steps => (s.step? x).bind (after? · steps)

/-! ### What the stacks keep of a draft -/

/-- The open nodes and the nodes at the top are what the open blocks and the collected nodes of a
draft say. -/
inductive Keeps : (nodes top : List Node) → List OpenBlock → (collected : List Node) → Prop
  /-- No node is open. -/
  | top (siblings : List Node) : Keeps [] siblings [] siblings.reverse
  /-- The innermost open node has the collected nodes as its children. -/
  | block {nodes top before : List Node} {blocks : List OpenBlock} {node : Node} {owner : Owner}
      (width : Nat) (houter : Keeps nodes top blocks before) {children : List Node}
      (hnode : node.reopen? = some (owner, children)) :
      Keeps (node :: nodes) top (⟨width, owner, before⟩ :: blocks) children.reverse

namespace Keeps

variable {nodes top collected : List Node} {blocks : List OpenBlock}

/-- There is an open node for each open block. -/
theorem length_eq (h : Keeps nodes top blocks collected) : nodes.length = blocks.length := by
  induction h with
  | top => rfl
  | block _ _ _ ih => rw [List.length_cons, List.length_cons, ih]

/-- Every open node can have children. -/
theorem isSome_children? (h : Keeps nodes top blocks collected) :
    ∀ n ∈ nodes, n.children?.isSome := by
  induction h with
  | top => simp
  | block _ _ hnode ih =>
    refine List.forall_mem_cons.2 ⟨?_, ih⟩
    rw [Node.children?_of_reopen? hnode]
    rfl

/-- Without an open block, the nodes at the top are the collected nodes. -/
theorem top_eq (h : Keeps nodes top [] collected) : top = collected.reverse := by
  cases h with
  | top => rw [List.reverse_reverse]

end Keeps

/-- The stacks and a draft are in the same state. -/
structure Agrees (s : Stacks) (d : Draft) : Prop where
  /-- They have the same widths, -/
  widths : s.widths.reverse = d.widths
  /-- the same nodes in the same places, -/
  nodes : Keeps s.nodes s.top d.blocks d.collected
  /-- and have opened as many levels. -/
  opened : s.opened = d.opened

namespace Agrees

variable {s : Stacks} {d : Draft}

/-- At the beginning they agree. -/
theorem empty : Agrees {} {} := ⟨rfl, .top [], rfl⟩

/-- The innermost width is the width of the innermost block. -/
theorem width_eq (h : Agrees s d) : s.width = d.width := by
  rw [width, ← List.getLast?_reverse, h.widths, Draft.getLast?_widths]
  rfl

/-- The siblings of the next node are the collected nodes. -/
theorem level? (h : Agrees s d) : s.level? = some d.collected.reverse := by
  obtain ⟨widths, nodes, top, opened⟩ := s
  obtain ⟨blocks, collected, opened'⟩ := d
  obtain ⟨-, hnodes, -⟩ := h
  cases hnodes with
  | top => simp [Stacks.level?]
  | block _ _ hnode => simp [Stacks.level?, Node.children?_of_reopen? hnode]

/-- Changing the siblings of the next node is changing the collected nodes. -/
theorem modifyLevel (h : Agrees s d) (f : List Node → List Node) :
    Agrees (s.modifyLevel f) { d with collected := (f d.collected.reverse).reverse } := by
  obtain ⟨widths, nodes, top, opened⟩ := s
  obtain ⟨blocks, collected, opened'⟩ := d
  obtain ⟨hwidths, hnodes, hopened⟩ := h
  cases hnodes with
  | top =>
    refine ⟨hwidths, ?_, hopened⟩
    simpa [Stacks.modifyLevel] using Keeps.top (f top)
  | block width houter hnode =>
    refine ⟨hwidths, ?_, hopened⟩
    simpa [Stacks.modifyLevel] using Keeps.block width houter (Node.reopen?_modifyChildren hnode f)

/-- **There is a place for every node**, and it is the one in the draft. -/
theorem add? (h : Agrees s d) (n : Node) : ∃ s', s.add? n = some s' ∧ Agrees s' (d.add n) := by
  refine ⟨s.modifyLevel (· ++ [n]), by rw [Stacks.add?, h.level?]; rfl, ?_⟩
  simpa [Draft.add] using h.modifyLevel (· ++ [n])

/-- **A node that can have children is opened in both.** -/
theorem openLevel? {node : Node} {before children : List Node} {owner : Owner} (h : Agrees s d)
    (hcollected : d.collected = node :: before) (hnode : node.reopen? = some (owner, children))
    (width : Nat) :
    ∃ s', s.openLevel? width = some (s', none) ∧
      Agrees s' ⟨⟨width, owner, before⟩ :: d.blocks, children.reverse, d.opened + 1⟩ := by
  -- the node leaves its siblings
  have hrest := h.modifyLevel List.dropLast
  rw [hcollected, List.reverse_cons, List.dropLast_concat, List.reverse_reverse] at hrest
  let rest := s.modifyLevel List.dropLast
  refine ⟨⟨width :: rest.widths, node :: rest.nodes, rest.top, rest.opened + 1⟩, ?_, ?_⟩
  · have hlast : (node :: before).reverse.getLast? = some node := by simp
    simp only [Stacks.openLevel?, h.level?, hcollected, Option.map_some, hlast,
      Node.children?_of_reopen? hnode, rest]
  · refine ⟨?_, .block width hrest.nodes hnode, by rw [hrest.opened]⟩
    rw [List.reverse_cons, hrest.widths]
    exact (Draft.widths_cons ⟨width, owner, before⟩ _ _ _ _ _).symm

/-- **A level that is closed has an open node.** -/
theorem close? {block : OpenBlock} {blocks : List OpenBlock} {collected : List Node} {opened : Nat}
    (h : Agrees s ⟨block :: blocks, collected, opened⟩) (midBlock : Bool) :
    ∃ s', s.close? midBlock = some s' ∧
      Agrees s' ⟨blocks, block.close midBlock collected, opened⟩ := by
  obtain ⟨widths, nodes, top, opened'⟩ := s
  obtain ⟨hwidths, hnodes, hopened⟩ := h
  cases hnodes with
  | @block nodes _ before _ node owner width houter children hnode =>
    have houter : Agrees ⟨widths.tail, nodes, top, opened'⟩ ⟨blocks, before, opened⟩ := by
      refine ⟨?_, houter, hopened⟩
      rw [Draft.widths_cons _ blocks _ before opened opened] at hwidths
      have htail := congrArg List.dropLast hwidths
      rwa [List.dropLast_concat, List.dropLast_reverse] at htail
    obtain ⟨s', hs', hagrees⟩ := houter.add? (owner.close midBlock children)
    refine ⟨s', ?_, ?_⟩
    · rw [← Node.modifyMidBlock_of_reopen? hnode] at hs'
      exact hs'
    · simpa [OpenBlock.close, Draft.add] using hagrees

/-- **The levels deeper than a width can all be closed.** -/
theorem closeDeeper? (h : Agrees s d) (width : Nat) (text : String) :
    ∃ s', s.closeDeeper? width text = some s' ∧ Agrees s' (d.closeDeeper width text) := by
  obtain ⟨blocks, collected, opened⟩ := d
  have hwidth := h.width_eq
  induction blocks generalizing s collected with
  | nil =>
    refine ⟨s, closeDeeper?_of_le text (hwidth.trans_le (Nat.zero_le width)), ?_⟩
    rwa [Draft.closeDeeper_of_le text (Nat.zero_le width)]
  | cons block blocks ih =>
    by_cases hdeeper : width < block.width
    · obtain ⟨closed, hclosed, hagrees⟩ := h.close? (continuesBlock text)
      obtain ⟨s', hs', hagrees'⟩ := ih _ hagrees hagrees.width_eq
      refine ⟨s', ?_, ?_⟩
      · rw [closeDeeper?_of_lt (hdeeper.trans_eq hwidth.symm) hclosed, hs']
      · rwa [Draft.closeDeeper_of_lt text hdeeper]
    · have hle : block.width ≤ width := Nat.le_of_not_lt hdeeper
      refine ⟨s, closeDeeper?_of_le text (hwidth.trans_le hle), ?_⟩
      rwa [Draft.closeDeeper_of_le text hle]

/-- **A line leads the stacks where it leads the draft**, with the same fault. -/
theorem moveTo? (h : Agrees s d) (l : LogicalLine) :
    ∃ s', s.moveTo? l = some (s', (d.moveTo l).fault?) ∧ Agrees s' (d.moveTo l).draft := by
  rw [Stacks.moveTo?, h.width_eq]
  rcases d.moveTo_cases l with ⟨hdeeper, hcase⟩ | ⟨hback, hmove⟩
  · rw [if_pos hdeeper]
    rcases hcase with ⟨hcollected, hmove⟩ | ⟨node, before, hcollected, hreopen, hmove⟩ |
      ⟨node, before, owner, children, hcollected, hreopen, hmove⟩
    · refine ⟨s, ?_, by rwa [hmove]⟩
      simp [Stacks.openLevel?, h.level?, hcollected, hmove]
    · refine ⟨s, ?_, by rwa [hmove]⟩
      simp [Stacks.openLevel?, h.level?, hcollected, hmove, Node.children?_eq_map_reopen?, hreopen]
    · rw [hmove]
      exact h.openLevel? hcollected hreopen l.indent
  · rw [if_neg (Nat.not_lt.2 hback), hmove, Draft.returnTo]
    by_cases hlt : l.indent < d.width
    · obtain ⟨s', hs', hagrees⟩ := h.closeDeeper? l.indent l.text
      refine ⟨s', ?_, hagrees⟩
      rw [if_pos hlt, hs', Option.map_some, hagrees.width_eq]
    · have heq : d.width = l.indent := Nat.le_antisymm (Nat.le_of_not_lt hlt) hback
      rw [if_neg hlt, Draft.closeDeeper_of_le l.text (Nat.le_of_eq heq), if_pos heq]
      exact ⟨s, rfl, h⟩

/-- A step has a result, and the stacks and the draft agree after it. -/
theorem step? (h : Agrees s d) (x : Draft.Step) :
    ∃ s', s.step? x = some s' ∧ Agrees s' (d.step x) := by
  cases x with
  | moveTo l =>
    obtain ⟨s', hs', hagrees⟩ := h.moveTo? l
    exact ⟨s', by rw [Stacks.step?, hs']; rfl, hagrees⟩
  | add n => exact h.add? n
  | closeAll => exact h.closeDeeper? 0 ""

/-- **Steps have a result, and the stacks and the draft agree after them.** -/
theorem after? (h : Agrees s d) (steps : List Draft.Step) :
    ∃ s', s.after? steps = some s' ∧ Agrees s' (d.after steps) := by
  induction steps generalizing s d with
  | nil => exact ⟨s, rfl, h⟩
  | cons x steps ih =>
    obtain ⟨s', hs', hagrees⟩ := h.step? x
    obtain ⟨s'', hs'', hagrees'⟩ := ih hagrees
    exact ⟨s'', by rw [Stacks.after?, hs']; exact hs'', hagrees'⟩

end Agrees

end Stacks

/-! ### The invariant of the stacks -/

/-- The two stacks fit together, and they keep what the draft keeps. -/
structure WellKept (steps : List Draft.Step) (s : Stacks) (d : Draft) : Prop where
  /-- Both have the same widths, -/
  widths_eq : s.widths.reverse = d.widths
  /-- which begin with that of the template -/
  head_widths : d.widths.head? = some 0
  /-- and increase. -/
  increasing : d.widths.Pairwise (· < ·)
  /-- A node is open for each width but the first, -/
  length_nodes : s.nodes.length = d.widths.length - 1
  /-- and it can have children. -/
  containers : ∀ n ∈ s.nodes, n.children?.isSome
  /-- So there is a place for every node, at the top only when no node is open. -/
  add : ∀ n, ∃ s', s.add? n = some s' ∧ (s'.top ≠ s.top → s.nodes = [])
  /-- As many levels have been opened as steps have led deeper. -/
  opened : s.opened = d.opened ∧ d.opened = Draft.descents {} steps
  /-- A line closes no level without an open node and has the same fault in both; without a fault it
  leads to its own width. -/
  moveTo : ∀ l, ∃ s', s.moveTo? l = some (s', (d.moveTo l).fault?) ∧
    s'.widths.reverse = (d.moveTo l).draft.widths ∧
    ((d.moveTo l).fault? = none → s'.widths.head? = some l.indent)
  /-- When all levels are closed, which never fails, the width of the template is left, and the
  nodes at the top are the template. -/
  closeAll : d.closeAll.widths = [0] ∧
    ∃ s', s.closeAll? = some s' ∧ s'.widths = [0] ∧ s'.top = d.toTemplate.nodes

/-- **The stacks never part.** After any steps from the beginning they have a result, and they are
well kept. -/
theorem stacks_wellKept (steps : List Draft.Step) :
    ∃ s, Stacks.after? {} steps = some s ∧ WellKept steps s (Draft.after {} steps) := by
  have hincreasing := Draft.increasing_after steps
  obtain ⟨s, hs, hagrees⟩ := Stacks.Agrees.empty.after? steps
  refine ⟨s, hs, hagrees.widths, rfl, hincreasing, ?_, hagrees.nodes.isSome_children?, ?_,
    ⟨hagrees.opened, ?_⟩, ?_, hincreasing.widths_closeAll, ?_⟩
  · rw [Draft.length_widths, Nat.add_sub_cancel, hagrees.nodes.length_eq]
  · intro n
    obtain ⟨s', hs', -⟩ := hagrees.add? n
    refine ⟨s', hs', fun htop ↦ ?_⟩
    obtain ⟨_, -, rfl⟩ := Option.map_eq_some_iff.1 hs'
    rcases hnodes : s.nodes with - | ⟨node, nodes⟩
    · rfl
    · exact absurd (by simp [Stacks.modifyLevel, hnodes]) htop
  · rw [Draft.opened_after, Nat.zero_add]
  · intro l
    obtain ⟨s', hs', hagrees'⟩ := hagrees.moveTo? l
    refine ⟨s', hs', hagrees'.widths, fun hnone ↦ ?_⟩
    rw [← List.getLast?_reverse, hagrees'.widths, Draft.getLast?_widths, Draft.width_moveTo hnone]
  · obtain ⟨s', hs', hagrees'⟩ := hagrees.closeDeeper? 0 ""
    have hwidths : s'.widths.reverse = [0] := hagrees'.widths.trans hincreasing.widths_closeAll
    refine ⟨s', hs', by simpa using hwidths, ?_⟩
    have hnodes := hagrees'.nodes
    rw [show (Draft.closeDeeper _ 0 "").blocks = [] from hincreasing.blocks_closeAll] at hnodes
    exact hnodes.top_eq

end HamlTree
