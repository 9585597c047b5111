import Mathlib.Logic.Relation
import HamlTree.Proofs.TwoStacks

/-!
# What a line at fault leaves

A line at fault does not undo what it has done before its fault was found, and whoever builds a
template by hand may go on from there. What is left depends on where the line stands. A line that is
too deep has done nothing yet: the siblings of the next node are only looked at before a level is
opened. A line between two widths has closed levels, one after the other, until no open level is
deeper than the line. Each of them has handed its node back to the level around it, flagged for the
text of the line (`Stacks.HandsBack`).

No further state can come about in this way: a line with the same text at the width that is left
would have done the same, without a fault (`Stacks.LeftAtFault`). From every reachable state the
stacks and the draft behave like this (`stacks_leftAtFault`).
-/

namespace HamlTree

namespace Stacks

/-! ### Closing levels -/

/-- The innermost level is closed: its width is gone, and its node, flagged if it is a script, is the
last one in the level around it. Nothing else changes. -/
inductive HandsBack (midBlock : Bool) : Stacks → Stacks → Prop
  /-- The only open node goes back to the top. -/
  | top (width : Nat) (widths : List Nat) (node : Node) (top : List Node) (opened : Nat) :
      HandsBack midBlock ⟨width :: widths, [node], top, opened⟩
        ⟨widths, [], top ++ [node.modifyMidBlock fun _ ↦ midBlock], opened⟩
  /-- Any other open node becomes a child of the one around it. -/
  | child (width : Nat) (widths : List Nat) (node outer : Node) (nodes top : List Node)
      (opened : Nat) (houter : outer.children?.isSome) :
      HandsBack midBlock ⟨width :: widths, node :: outer :: nodes, top, opened⟩
        ⟨widths, outer.modifyChildren (· ++ [node.modifyMidBlock fun _ ↦ midBlock]) :: nodes, top,
          opened⟩

variable {s s' : Stacks} {width : Nat} {text : String}

/-- Without a width nothing is deeper than another width. -/
theorem ne_nil_of_lt_width (h : width < s.width) : s.widths ≠ [] := by
  intro hnil
  rw [Stacks.width, hnil] at h
  exact absurd h (Nat.not_lt_zero width)

/-- A level that is closed hands its node back. -/
theorem handsBack_of_close? {midBlock : Bool} (h : s.close? midBlock = some s')
    (hwidths : s.widths ≠ []) : HandsBack midBlock s s' := by
  obtain ⟨widths, nodes, top, opened⟩ := s
  obtain ⟨width, widths, rfl⟩ := List.exists_cons_of_ne_nil hwidths
  rcases nodes with - | ⟨node, - | ⟨outer, nodes⟩⟩
  · exact absurd h (by simp [close?])
  · obtain rfl := Option.some.inj h
    exact .top width widths node top opened
  · obtain ⟨children, hchildren, rfl⟩ := Option.map_eq_some_iff.1 h
    exact .child width widths node outer nodes top opened (Option.isSome_of_eq_some hchildren)

/-- **The deeper levels are closed one after the other**, the innermost first. -/
theorem handsBack_of_closeDeeper? (h : s.closeDeeper? width text = some s') :
    Relation.ReflTransGen (HandsBack (continuesBlock text)) s s' := by
  fun_induction closeDeeper? s width text with
  | case1 => exact absurd h (by simp)
  | case2 s hdeeper closed hclose ih =>
    exact .head (handsBack_of_close? hclose (ne_nil_of_lt_width hdeeper)) (ih h)
  | case3 s => exact Option.some.inj h ▸ .refl

/-- No level stays open that is deeper than the width. -/
theorem width_le_of_closeDeeper? (h : s.closeDeeper? width text = some s') : s'.width ≤ width := by
  fun_induction closeDeeper? s width text with
  | case1 => exact absurd h (by simp)
  | case2 s hdeeper closed hclose ih => exact ih h
  | case3 s hle => exact Option.some.inj h ▸ Nat.le_of_not_lt hle

/-- **Levels are closed in any number of steps**: closing those deeper than a width, and then those
deeper than a smaller width, is closing the latter. -/
theorem closeDeeper?_trans {smaller : Nat} (hle : smaller ≤ width)
    (h : s.closeDeeper? width text = some s') :
    s.closeDeeper? smaller text = s'.closeDeeper? smaller text := by
  fun_induction closeDeeper? s width text with
  | case1 => exact absurd h (by simp)
  | case2 s hdeeper closed hclose ih =>
    rw [closeDeeper?_of_lt (Nat.lt_of_le_of_lt hle hdeeper) hclose, ih h]
  | case3 s => rw [Option.some.inj h]

/-- The levels deeper than a width are those deeper than the width that is left. -/
theorem closeDeeper?_width (h : s.closeDeeper? width text = some s') :
    s.closeDeeper? s'.width text = some s' := by
  rw [closeDeeper?_trans (width_le_of_closeDeeper? h) h]
  exact closeDeeper?_of_le text (Nat.le_refl _)

/-- Where the widths decrease, the first one is the largest. -/
theorem le_width_of_mem (hsorted : s.widths.Pairwise (· > ·)) : ∀ w ∈ s.widths, w ≤ s.width := by
  rw [Stacks.width]
  rcases hwidths : s.widths with - | ⟨w, widths⟩
  · exact List.forall_mem_nil _
  · have hlt := (List.pairwise_cons.1 (hwidths ▸ hsorted)).1
    exact List.forall_mem_cons.2 ⟨Nat.le_refl w, fun v hv ↦ (hlt v hv).le⟩

/-- Where the widths decrease, those that are not deeper are left. -/
theorem widths_of_closeDeeper? (hsorted : s.widths.Pairwise (· > ·))
    (h : s.closeDeeper? width text = some s') : s'.widths = s.widths.filter (· ≤ width) := by
  fun_induction closeDeeper? s width text with
  | case1 => exact absurd h (by simp)
  | case2 s hdeeper closed hclose ih =>
    have htail := widths_of_close? hclose
    obtain ⟨w, widths, hwidths⟩ := List.exists_cons_of_ne_nil (ne_nil_of_lt_width hdeeper)
    rw [Stacks.width, hwidths] at hdeeper
    rw [hwidths] at hsorted htail
    rw [ih (htail ▸ hsorted.of_cons) h, htail, hwidths, List.tail_cons, List.filter_cons_of_neg]
    simpa using hdeeper
  | case3 s hle =>
    obtain rfl := Option.some.inj h
    refine (List.filter_eq_self.2 fun w hw ↦ decide_eq_true ?_).symm
    exact (le_width_of_mem hsorted w hw).trans (Nat.le_of_not_lt hle)

/-! ### Lines at fault -/

/-- What a line at fault leaves. -/
inductive LeftAtFault (s : Stacks) (l : LogicalLine) : Stacks → Prop
  /-- A line that is too deep changes nothing. -/
  | deeper (hdeeper : s.width < l.indent) : LeftAtFault s l s
  /-- A line between two widths has closed the deeper levels, innermost first. It has done what a
  line with its text does at the width that is left, where this is no fault. -/
  | back {s' : Stacks} (hback : l.indent < s.width)
      (hwidths : s'.widths = s.widths.filter (· ≤ l.indent)) (hwidth : s'.width < l.indent)
      (hclosed : Relation.ReflTransGen (HandsBack (continuesBlock l.text)) s s')
      (hmove : ∀ line, s.moveTo? ⟨l.text, s'.width, line⟩ = some (s', none)) : LeftAtFault s l s'

/-- A fault is found before a level is opened. -/
theorem eq_of_openLevel? {f : Fault} (h : s.openLevel? width = some (s', some f)) : s' = s := by
  obtain ⟨level, -, h⟩ := Option.map_eq_some_iff.1 h
  split at h
  · exact (Prod.mk.inj h).1.symm
  · split at h
    · exact (Prod.mk.inj h).1.symm
    · exact absurd h (by simp)

/-- **What a line at fault leaves of the stacks.** -/
theorem leftAtFault_of_moveTo? {l : LogicalLine} {f : Fault}
    (hsorted : s.widths.Pairwise (· > ·)) (h : s.moveTo? l = some (s', some f)) :
    LeftAtFault s l s' := by
  rw [moveTo?] at h
  split at h
  · next hdeeper =>
    obtain rfl := eq_of_openLevel? h
    exact .deeper hdeeper
  · split at h
    · next hback =>
      obtain ⟨closed, hclosed, hfault⟩ := Option.map_eq_some_iff.1 h
      obtain ⟨rfl, hfault⟩ := Prod.mk.inj hfault
      have hne : closed.width ≠ l.indent := fun heq ↦ by simp [heq] at hfault
      have hlt := Nat.lt_of_le_of_ne (width_le_of_closeDeeper? hclosed) hne
      refine .back hback (widths_of_closeDeeper? hsorted hclosed) hlt
        (handsBack_of_closeDeeper? hclosed) fun line ↦ ?_
      have hleft : closed.width < s.width := hlt.trans hback
      rw [moveTo?, if_neg (Nat.not_lt.2 hleft.le), if_pos hleft, closeDeeper?_width hclosed]
      simp
    · exact absurd h (by simp)

/-! ### What the draft has to do with it -/

/-- The open nodes and the nodes at the top tell all of a draft but the widths. -/
theorem Keeps.unique {nodes top collected collected' : List Node} {blocks blocks' : List OpenBlock}
    (h : Keeps nodes top blocks collected) (h' : Keeps nodes top blocks' collected')
    (hwidths : blocks.map (·.width) = blocks'.map (·.width)) :
    blocks = blocks' ∧ collected = collected' := by
  induction h generalizing blocks' collected' with
  | top =>
    cases h'
    exact ⟨rfl, rfl⟩
  | block width _ hnode ih =>
    cases h' with
    | block width' houter' hnode' =>
      obtain ⟨hwidth, hrest⟩ := List.cons.inj hwidths
      obtain rfl : width = width' := hwidth
      obtain ⟨rfl, rfl⟩ := ih houter' hrest
      obtain ⟨rfl, rfl⟩ := Prod.mk.inj (Option.some.inj (hnode.symm.trans hnode'))
      exact ⟨rfl, rfl⟩

/-- **The stacks agree with one draft only.** -/
theorem Agrees.unique {d d' : Draft} (h : Agrees s d) (h' : Agrees s d') : d = d' := by
  obtain ⟨blocks, collected, opened⟩ := d
  obtain ⟨blocks', collected', opened'⟩ := d'
  have hwidths : blocks.map (·.width) = blocks'.map (·.width) :=
    List.reverse_injective (List.cons.inj (h.widths.symm.trans h'.widths)).2
  obtain ⟨rfl, rfl⟩ := h.nodes.unique h'.nodes hwidths
  obtain rfl : opened = opened' := h.opened.symm.trans h'.opened
  rfl

/-- What a line at fault leaves of the stacks and of a draft in the same state. -/
structure BothLeftAtFault (s : Stacks) (d : Draft) (l : LogicalLine) (s' : Stacks) (d' : Draft) :
    Prop where
  /-- They are in the same state before -/
  before : Agrees s d
  /-- and after. -/
  after : Agrees s' d'
  /-- The stacks are left as they were, or levels have been closed. -/
  levels : LeftAtFault s l s'
  /-- So the draft is left as it was -/
  deeper : d.width < l.indent → d' = d
  /-- or as a line with the same text leaves it that stands at the width of the innermost block. -/
  back : l.indent < d.width → ∀ line, (d.moveTo ⟨l.text, d'.width, line⟩).fault? = none ∧
    (d.moveTo ⟨l.text, d'.width, line⟩).draft = d'

end Stacks

/-- **A line at fault leaves a state that lines without a fault leave.** From every reachable state,
it changes nothing when it is too deep. Otherwise it stands between two widths, and it has closed
the levels deeper than itself, as a line at the next smaller width does. -/
theorem stacks_leftAtFault (steps : List Draft.Step) {l : LogicalLine} {f : Fault}
    (h : ((Draft.after {} steps).moveTo l).fault? = some f) :
    ∃ s s', Stacks.after? {} steps = some s ∧ s.moveTo? l = some (s', some f) ∧
      Stacks.BothLeftAtFault s (Draft.after {} steps) l s'
        ((Draft.after {} steps).moveTo l).draft := by
  have hincreasing := Draft.increasing_after steps
  obtain ⟨s, hs, hbefore⟩ := Stacks.Agrees.empty.after? steps
  obtain ⟨s', hs', hafter⟩ := hbefore.moveTo? l
  rw [h] at hs'
  have hsorted : s.widths.Pairwise (· > ·) := by
    rw [← List.pairwise_reverse, hbefore.widths]
    exact hincreasing
  have hleft := Stacks.leftAtFault_of_moveTo? hsorted hs'
  refine ⟨s, s', hs, hs', hbefore, hafter, hleft, fun hdeeper ↦ ?_, fun hback line ↦ ?_⟩
  · cases hleft with
    | deeper => exact hafter.unique hbefore
    | back hback => exact absurd hdeeper (Nat.not_lt.2 (hbefore.width_eq ▸ hback.le))
  · cases hleft with
    | deeper hdeeper => exact absurd hback (Nat.not_lt.2 (hbefore.width_eq ▸ hdeeper.le))
    | back _ _ _ _ hmove =>
      rw [← hafter.width_eq]
      obtain ⟨s'', hs'', hagrees⟩ := hbefore.moveTo? ⟨l.text, s'.width, line⟩
      obtain ⟨rfl, hfault⟩ := Prod.mk.inj (Option.some.inj ((hmove line).symm.trans hs''))
      exact ⟨hfault.symm, hagrees.unique hafter⟩

/-- A line that carries on a construct, but stands between two widths, closes two levels. -/
theorem stacks_leftAtFault_else :
    ∃ s s', Stacks.after? {} [.moveTo ⟨"- if a", 0, 1⟩, .add (.script .silent "if a" false []),
        .moveTo ⟨"- if b", 4, 2⟩, .add (.script .silent "if b" false []),
        .moveTo ⟨"c", 8, 3⟩, .add (.leaf .plainText "c")] = some s ∧
      s.moveTo? ⟨"- else", 2, 4⟩ = some (s', some (.inconsistentIndent 2)) ∧
      Stacks.BothLeftAtFault s
        ⟨[⟨8, .script .silent "if b", []⟩, ⟨4, .script .silent "if a", []⟩],
          [.leaf .plainText "c"], 2⟩ ⟨"- else", 2, 4⟩ s'
        ⟨[], [.script .silent "if a" true
          [.script .silent "if b" true [.leaf .plainText "c"]]], 2⟩ :=
  stacks_leftAtFault [.moveTo ⟨"- if a", 0, 1⟩, .add (.script .silent "if a" false []),
    .moveTo ⟨"- if b", 4, 2⟩, .add (.script .silent "if b" false []),
    .moveTo ⟨"c", 8, 3⟩, .add (.leaf .plainText "c")] (by decide +kernel)

end HamlTree
