import Mathlib.Data.List.TakeWhile
import HamlTree.Proofs.OpenBlocks

/-!
# Steps of a draft

Whoever builds a template by hand can do three things to a draft: move to where a line belongs, add
a node, and close all blocks (`Draft.Step`). A line at fault is no end of it, the draft goes on from
what the line has left. So a draft is *reachable* when some list of steps leads to it from the empty
one (`Draft.after`), in whatever order, with any nodes and any lines.

All that a step does comes down to three events: a node is added, a block is opened under the newest
node, and the innermost block is closed. A property that survives these three holds of every
reachable draft (`Draft.after_induction`); that the widths increase is the first of them.
-/

namespace HamlTree

namespace Draft

/-- What can be done to a draft. -/
inductive Step where
  /-- Move to where a line belongs, as far as that goes. -/
  | moveTo (l : LogicalLine)
  /-- Add a node, which may have children already. -/
  | add (n : Node)
  /-- Close every block. -/
  | closeAll

/-- The draft after a step. -/
def step (d : Draft) : Step → Draft
  | .moveTo l => (d.moveTo l).draft
  | .add n => d.add n
  | .closeAll => d.closeAll

/-- The draft after a list of steps. -/
def after (d : Draft) (steps : List Step) : Draft := steps.foldl step d

@[simp] theorem after_nil (d : Draft) : d.after [] = d := rfl

@[simp] theorem after_cons (d : Draft) (x : Step) (steps : List Step) :
    d.after (x :: steps) = (d.step x).after steps := rfl

/-! ### What a step can do -/

/-- **Where a line can lead.** A deeper line finds no node to open, or a leaf, or opens a block; any
other line returns. -/
theorem moveTo_cases (d : Draft) (l : LogicalLine) :
    (d.width < l.indent ∧
      ((d.collected = [] ∧ d.moveTo l = { draft := d, fault? := some .indentAtStart }) ∨
        (∃ node before, d.collected = node :: before ∧ node.reopen? = none ∧
          d.moveTo l = { draft := d, fault? := some (.illegalNesting node.kind) }) ∨
        ∃ node before owner children, d.collected = node :: before ∧
          node.reopen? = some (owner, children) ∧
          d.moveTo l =
            { draft := ⟨⟨l.indent, owner, before⟩ :: d.blocks, children.reverse, d.opened + 1⟩
              events := [.indent l.indent owner.kind l.line] })) ∨
      (l.indent ≤ d.width ∧ d.moveTo l = d.returnTo l.indent l.text) := by
  rw [moveTo]
  by_cases hdeeper : d.width < l.indent
  · refine .inl ⟨hdeeper, ?_⟩
    rw [if_pos hdeeper, openBlock]
    rcases hcollected : d.collected with - | ⟨node, before⟩
    · exact .inl ⟨rfl, rfl⟩
    · rcases hreopen : node.reopen? with - | ⟨owner, children⟩
      · exact .inr (.inl ⟨node, before, rfl, hreopen, by simp only [hreopen]⟩)
      · exact .inr (.inr ⟨node, before, owner, children, rfl, hreopen, by simp only [hreopen]⟩)
  · exact .inr ⟨Nat.le_of_not_lt hdeeper, if_neg hdeeper⟩

section Induction

variable {P : Draft → Prop}
  (hclose : ∀ midBlock block blocks collected opened, P ⟨block :: blocks, collected, opened⟩ →
    P ⟨blocks, block.close midBlock collected, opened⟩)
  (hopen : ∀ {width node before blocks owner children opened},
    Draft.width ⟨blocks, node :: before, opened⟩ < width → node.reopen? = some (owner, children) →
    P ⟨blocks, node :: before, opened⟩ →
    P ⟨⟨width, owner, before⟩ :: blocks, children.reverse, opened + 1⟩)

include hclose

/-- What survives the closing of one block survives the closing of all that are deeper than a
width. -/
theorem closeDeeper_induction {d : Draft} (h : P d) (width : Nat) (text : String) :
    P (d.closeDeeper width text) := by
  obtain ⟨blocks, collected, opened⟩ := d
  induction blocks generalizing collected with
  | nil => rwa [closeDeeper_of_le text (Nat.zero_le width)]
  | cons block blocks ih =>
    by_cases hdeeper : width < block.width
    · rw [closeDeeper_of_lt text hdeeper]
      exact ih _ (hclose _ _ _ _ _ h)
    · rwa [closeDeeper_of_le text (Nat.le_of_not_lt hdeeper)]

include hopen

/-- What also survives the opening of a block survives the move to a line. -/
theorem moveTo_induction {d : Draft} (h : P d) (l : LogicalLine) : P (d.moveTo l).draft := by
  rcases d.moveTo_cases l with ⟨hdeeper, hcase⟩ | ⟨-, hreturn⟩
  · rcases hcase with ⟨-, hmove⟩ | ⟨_, _, -, -, hmove⟩ |
      ⟨node, before, owner, children, hcollected, hreopen, hmove⟩
    · rwa [hmove]
    · rwa [hmove]
    · obtain ⟨blocks, collected, opened⟩ := d
      obtain rfl : collected = node :: before := hcollected
      rw [hmove]
      exact hopen hdeeper hreopen h
  · rw [hreturn]
    exact closeDeeper_induction hclose h l.indent l.text

/-- **An invariant has three things to survive**: an added node, an opened block, a closed one. -/
theorem after_induction (hadd : ∀ d n, P d → P (d.add n)) {d : Draft} (h : P d)
    (steps : List Step) : P (d.after steps) := by
  induction steps generalizing d with
  | nil => exact h
  | cons x steps ih =>
    refine ih ?_
    cases x with
    | moveTo l => exact moveTo_induction hclose hopen h l
    | add n => exact hadd d n h
    | closeAll => exact closeDeeper_induction hclose h 0 ""

end Induction

/-- A line without a fault leads into a block of its width. -/
theorem width_moveTo {d : Draft} {l : LogicalLine} (h : (d.moveTo l).fault? = none) :
    (d.moveTo l).draft.width = l.indent := by
  rcases d.moveTo_cases l with ⟨-, hcase⟩ | ⟨-, hmove⟩
  · rcases hcase with ⟨-, hmove⟩ | ⟨_, _, -, -, hmove⟩ | ⟨_, _, _, _, -, -, hmove⟩
    · simp [hmove] at h
    · simp [hmove] at h
    · rw [hmove]
      rfl
  · rw [hmove, returnTo] at h ⊢
    by_contra hne
    simp [hne] at h

/-! ### The number of opened blocks -/

/-- Whether a step leads deeper: it is a line right of the innermost block that finds a node to open
there. -/
def Step.descends (d : Draft) : Step → Bool
  | .moveTo l => decide (d.width < l.indent) && (d.moveTo l).fault?.isNone
  | .add _ => false
  | .closeAll => false

/-- How many steps of a list lead deeper. -/
def descents (d : Draft) : List Step → Nat
  | [] => 0
  | x :: steps => (x.descends d).toNat + (d.step x).descents steps

/-- A block is opened by each step that leads deeper, and by no other. -/
theorem opened_step (d : Draft) (x : Step) :
    (d.step x).opened = d.opened + (x.descends d).toNat := by
  cases x with
  | moveTo l =>
    rw [step, Step.descends]
    rcases d.moveTo_cases l with ⟨hdeeper, hcase⟩ | ⟨hback, hmove⟩
    · rcases hcase with ⟨-, hmove⟩ | ⟨_, _, -, -, hmove⟩ | ⟨_, _, _, _, -, -, hmove⟩
      · simp [hmove]
      · simp [hmove]
      · simp [hmove, hdeeper]
    · rw [hmove, decide_eq_false (Nat.not_lt.2 hback)]
      rfl
  | add n => rfl
  | closeAll => rfl

/-- **The number of opened blocks is the number of steps that led deeper.** -/
theorem opened_after (d : Draft) (steps : List Step) :
    (d.after steps).opened = d.opened + d.descents steps := by
  induction steps generalizing d with
  | nil => rfl
  | cons x steps ih => rw [after_cons, ih, opened_step, descents, Nat.add_assoc]

/-! ### The widths of the open blocks -/

/-- The innermost block adds its width to those around it. -/
theorem widths_cons (block : OpenBlock) (blocks : List OpenBlock) (collected collected' : List Node)
    (opened opened' : Nat) :
    widths ⟨block :: blocks, collected, opened⟩ =
      widths ⟨blocks, collected', opened'⟩ ++ [block.width] := by
  simp [widths]

/-- There is one width more than there are open blocks. -/
theorem length_widths (d : Draft) : d.widths.length = d.blocks.length + 1 := by
  simp [widths]

/-- Each open block is deeper than the one around it. -/
def Increasing (d : Draft) : Prop := d.widths.Pairwise (· < ·)

/-- No block is deeper than the innermost. -/
theorem Increasing.le_width {d : Draft} (h : d.Increasing) : ∀ w ∈ d.widths, w ≤ d.width := by
  obtain ⟨- | ⟨block, blocks⟩, collected, opened⟩ := d
  · simp [widths]
  · rw [Increasing, widths_cons block blocks collected collected opened opened,
      List.pairwise_append] at h
    intro w hw
    rw [widths_cons block blocks collected collected opened opened] at hw
    rcases List.mem_append.1 hw with hw | hw
    · exact Nat.le_of_lt (h.2.2 w hw block.width List.mem_cons_self)
    · exact Nat.le_of_eq (List.mem_singleton.1 hw)

/-- A block is opened and closed at the deep end. -/
theorem increasing_cons_iff {block : OpenBlock} {blocks : List OpenBlock} {collected : List Node}
    {opened : Nat} (collected' : List Node) (opened' : Nat) :
    Increasing ⟨block :: blocks, collected, opened⟩ ↔
      Increasing ⟨blocks, collected', opened'⟩ ∧
        width ⟨blocks, collected', opened'⟩ < block.width := by
  rw [Increasing, widths_cons block blocks collected collected' opened opened',
    List.pairwise_append]
  constructor
  · rintro ⟨h, -, hlt⟩
    refine ⟨h, hlt _ (List.mem_of_getLast? (getLast?_widths _)) _ List.mem_cons_self⟩
  · rintro ⟨h, hlt⟩
    refine ⟨h, List.pairwise_singleton _ _, fun w hw v hv ↦ ?_⟩
    rw [List.mem_singleton.1 hv]
    exact Nat.lt_of_le_of_lt (h.le_width w hw) hlt

/-- **The widths of a reachable draft increase.** -/
theorem increasing_after (steps : List Step) : (after {} steps).Increasing := by
  refine after_induction ?_ ?_ (fun d n h ↦ h) (List.pairwise_singleton _ 0) steps
  · intro midBlock block blocks collected opened h
    exact ((increasing_cons_iff _ opened).1 h).1
  · intro width node before blocks owner children opened hdeeper _ h
    exact (increasing_cons_iff (node :: before) opened).2 ⟨h, hdeeper⟩

/-- Where the widths increase, nothing stays open when all blocks are closed. -/
theorem Increasing.blocks_closeAll {d : Draft} (h : d.Increasing) : d.closeAll.blocks = [] := by
  refine List.dropWhile_eq_nil_iff.2 fun block hblock ↦ decide_eq_true ?_
  refine (List.pairwise_cons.1 h).1 block.width ?_
  exact List.mem_reverse.2 (List.mem_map_of_mem hblock)

/-- Where the widths increase, only that of the template is left when all blocks are closed. -/
theorem Increasing.widths_closeAll {d : Draft} (h : d.Increasing) : d.closeAll.widths = [0] := by
  rw [widths, h.blocks_closeAll]
  rfl

end Draft

end HamlTree
