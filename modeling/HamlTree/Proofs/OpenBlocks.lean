import HamlTree.Proofs.Nesting

/-!
# The open blocks of a draft

What a draft knows of the lines it has read. Its open blocks cut these lines into pieces: before the
node that owns a block come the earlier lines of the block around it, which have nested into the
siblings kept with the owner, and after the owner come the lines of the block itself.

`Around` says this of the blocks around the innermost one, and `Stands` adds the innermost block,
whose lines have nested into the collected nodes. Closing a block keeps the second statement: the
lines of the closed block become the block under its owner (`Stands.close`). Hence closing blocks
down to a width leaves a draft that stands at the last earlier line not deeper than that width
(`Stands.closeDeeper`), which is where the rule for consistent indentation comes from.
-/

namespace HamlTree

/-- The nodes that can be opened again are those that can have children. -/
theorem Node.children?_eq_map_reopen? (n : Node) : n.children? = n.reopen?.map (·.2) := by
  cases n <;> rfl

namespace Draft

/-! ### Closing one block at a time -/

/-- A draft that is not deeper than a width has nothing to close. -/
theorem closeDeeper_of_le {d : Draft} {width : Nat} (text : String) (h : d.width ≤ width) :
    d.closeDeeper width text = d := by
  rcases d with ⟨- | ⟨block, blocks⟩, collected, opened⟩
  · rfl
  · have hblock : ¬ width < block.width := Nat.not_lt.2 h
    simp [closeDeeper, deeper, hblock]

/-- Otherwise its innermost block is closed first. -/
theorem closeDeeper_of_lt {block : OpenBlock} {blocks : List OpenBlock} {collected : List Node}
    {opened width : Nat} (text : String) (h : width < block.width) :
    closeDeeper ⟨block :: blocks, collected, opened⟩ width text =
      closeDeeper ⟨blocks, block.close (continuesBlock text) collected, opened⟩ width text := by
  simp [closeDeeper, deeper, h]

end Draft

/-! ### The lines behind the open blocks -/

/-- The open blocks that are around a block of width `width`, which begins after these lines. -/
inductive Around : List OpenBlock → (width : Nat) → List LogicalLine → Prop
  /-- The template itself is a block of width 0 and begins before any line. -/
  | top : Around [] 0 []
  /-- A deeper block begins after the line of its owner. -/
  | block {blocks : List OpenBlock} {outer width : Nat} {earlier level : List LogicalLine}
      {o : LogicalLine} {n : Node} {owner : Owner} {before : List Node}
      (haround : Around blocks outer earlier)
      (hlevel : Nests o.text outer level before.reverse)
      (hindent : o.indent = outer) (hdeeper : outer < width)
      (hnode : o.toNode.result = .ok n) (howner : n.reopen? = some (owner, [])) :
      Around (⟨width, owner, before⟩ :: blocks) width (earlier ++ level ++ [o])

/-- A draft stands in a block of width `width`, which began after the lines `earlier`: of the block
itself the lines `level` have been read, and a line with the text `next` is to come. -/
structure Stands (next : String) (width : Nat) (earlier level : List LogicalLine) (d : Draft) :
    Prop where
  /-- The open blocks are around this one. -/
  around : Around d.blocks width earlier
  /-- The lines of this block have nested into the collected nodes. -/
  nests : Nests next width level d.collected.reverse

namespace Stands

variable {next : String} {width : Nat} {earlier level : List LogicalLine} {d : Draft}

/-- Before any line a draft stands in the template. -/
theorem empty (next : String) : Stands next 0 [] [] {} := ⟨.top, .nil _ _⟩

/-- The width at which a draft stands is that of its innermost block. -/
theorem width_eq (h : Stands next width earlier level d) : d.width = width := by
  obtain ⟨blocks, collected, opened⟩ := d
  cases h.around <;> rfl

/-- A draft that stands at width 0 has no open block. -/
theorem earlier_eq_nil (h : Stands next 0 earlier level d) : earlier = [] ∧ d.blocks = [] := by
  obtain ⟨blocks, collected, opened⟩ := d
  cases h.around with
  | top => exact ⟨rfl, rfl⟩
  | block _ _ _ hdeeper => exact absurd hdeeper (by omega)

/-- **Closing a block**: its lines become the block under its owner. -/
theorem close {block : OpenBlock} {blocks : List OpenBlock} {collected : List Node}
    {opened : Nat} (h : Stands next width earlier level ⟨block :: blocks, collected, opened⟩)
    (hne : level ≠ []) :
    ∃ earlier' level' o, earlier' ++ (level' ++ o :: level) = earlier ++ level ∧
      o.indent < width ∧ Stands next o.indent earlier' (level' ++ o :: level)
        ⟨blocks, block.close (continuesBlock next) collected, opened⟩ := by
  obtain ⟨haround, hnests⟩ := h
  rcases haround with - | @⟨_, _, _, earlier', level', o, n, owner, before, haround, hlevel, rfl,
    hdeeper, hnode, howner⟩
  have hcollected : collected.reverse ≠ [] := fun h ↦ hne (hnests.eq_nil_iff.2 h)
  have hopen : n.children?.isSome := by rw [Node.children?_eq_map_reopen?, howner]; rfl
  refine ⟨earlier', level', o, by simp, hdeeper, haround, ?_⟩
  rw [OpenBlock.close, Node.close_eq_enclose howner _ hcollected, List.reverse_cons]
  exact hlevel.append (hnests.block hnode fun _ ↦ ⟨hdeeper, hopen⟩)

/-- **Closing blocks down to a width**: the draft then stands at the last earlier line that is not
deeper than the width. -/
theorem closeDeeper {target : Nat} (h : Stands next width earlier level d) (hne : level ≠ [])
    (hlt : target < width) :
    ∃ earlier' level' k, earlier' ++ level' = earlier ++ level ∧
      (earlier ++ level).reverse.find? (·.indent ≤ target) = some k ∧
      Stands next k.indent earlier' level' (d.closeDeeper target next) := by
  obtain ⟨blocks, collected, opened⟩ := d
  -- each block that is closed adds its lines to the block around it
  induction blocks generalizing width earlier level collected with
  | nil =>
    have hwidth : 0 = width := h.width_eq
    exact absurd hlt (by omega)
  | cons block blocks ih =>
    have hblock : block.width = width := h.width_eq
    obtain ⟨earlier', level', o, hlines, hindent, hstands⟩ := h.close hne
    rw [Draft.closeDeeper_of_lt _ (hblock ▸ hlt), ← hlines]
    by_cases ho : o.indent ≤ target
    · refine ⟨earlier', level' ++ o :: level, o, rfl, ?_, ?_⟩
      · -- the lines of the closed block are all deeper than the width
        have hlevel : level.reverse.find? (·.indent ≤ target) = none := by
          simp only [List.find?_eq_none, List.mem_reverse, decide_eq_true_eq, Nat.not_le]
          exact fun x hx ↦ Nat.lt_of_lt_of_le hlt (h.nests.le_indent x hx)
        simp [hlevel, ho]
      · rwa [Draft.closeDeeper_of_le _ (hstands.width_eq ▸ ho)]
    · exact ih (by simp) (Nat.lt_of_not_le ho) _ hstands

end Stands

end HamlTree
