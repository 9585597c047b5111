import HamlTree.Proofs.Indentation
import HamlTree.Proofs.OpenBlocks

/-!
# A parse reads its lines one after the other

The draft that lines leave is described by `Reads`: it stands in the block of the last line, whose
node is the newest. One more line either fits, and then the draft reads it (`Reads.place`), or it is
the first line at fault and its error ends the parse.

The run of a whole source follows (`parse_cases`): either its lines fit, and the template is what
they nest into, or the parse ends with the error of the first line that does not.
-/

namespace HamlTree

/-- A draft has read these lines. -/
inductive Reads : List LogicalLine → Draft → Prop
  /-- Nothing has been read. -/
  | nil : Reads [] {}
  /-- The node of the last line has been added where its indentation led. -/
  | add {earlier level : List LogicalLine} {l : LogicalLine} {n : Node} {d : Draft}
      (h : Stands l.text l.indent earlier level d) (hnode : l.toNode.result = .ok n) :
      Reads (earlier ++ level ++ [l]) (d.add n)

namespace Reads

variable {lines : List LogicalLine} {d : Draft}

/-! ### The draft after the last line -/

/-- Whatever line is to come, the draft stands in the block of the last line. -/
theorem stands_add {earlier level : List LogicalLine} {l : LogicalLine} {n : Node}
    (h : Stands l.text l.indent earlier level d) (hnode : l.toNode.result = .ok n)
    (next : String) : Stands next l.indent earlier (level ++ [l]) (d.add n) := by
  refine ⟨h.around, ?_⟩
  rw [Draft.add, List.reverse_cons]
  exact h.nests.append (.single next hnode)

/-- At the end of the source all blocks are closed, and the lines have nested into the template. -/
theorem nests (h : Reads lines d) : Nests "" 0 lines d.toTemplate.nodes := by
  cases h with
  | nil => exact .nil _ _
  | @add earlier level l n d hstands hnode =>
    have h := stands_add hstands hnode ""
    by_cases hindent : l.indent = 0
    · rw [hindent] at h
      rw [h.earlier_eq_nil.1, Draft.toTemplate, Draft.closeAll,
        Draft.closeDeeper_of_le _ (Nat.le_of_eq h.width_eq)]
      exact h.nests
    · obtain ⟨earlier', level', k, hlines, hlast, hclosed⟩ :=
        h.closeDeeper (by simp) (Nat.pos_of_ne_zero hindent)
      have hk : k.indent = 0 := by simpa using List.find?_some hlast
      rw [hk] at hclosed
      rw [hclosed.earlier_eq_nil.1, List.nil_append] at hlines
      rw [List.append_assoc, ← hlines]
      exact hclosed.nests

/-! ### Where a line leads -/

/-- The first line leads into the template when it is not indented. -/
theorem moveTo_nil (l : LogicalLine) :
    (l.indent = 0 ∧ (Draft.moveTo {} l).fault? = none ∧
        Stands l.text l.indent [] [] (Draft.moveTo {} l).draft) ∨
      ∃ f, (Draft.moveTo {} l).fault? = some f ∧ IndentFault [] l f := by
  by_cases h : l.indent = 0
  · have hclosed : Draft.closeDeeper {} 0 l.text = {} :=
      Draft.closeDeeper_of_le _ (Nat.le_refl 0)
    refine .inl ⟨h, ?_, ?_⟩
    · simp [Draft.moveTo, Draft.returnTo, hclosed, h]
    · simpa [Draft.moveTo, Draft.returnTo, hclosed, h] using Stands.empty l.text
  · have hpos : 0 < l.indent := Nat.pos_of_ne_zero h
    exact .inr ⟨.indentAtStart, by simp [Draft.moveTo, Draft.openBlock, hpos], .start hpos⟩

/-- A deeper line opens a block under the line before it, if that one can have children. -/
theorem moveTo_deeper {earlier level : List LogicalLine} {last l : LogicalLine} {n : Node}
    (h : Stands last.text last.indent earlier level d) (hnode : last.toNode.result = .ok n)
    (hdeeper : last.indent < l.indent) :
    (n.children?.isSome ∧ ((d.add n).moveTo l).fault? = none ∧
        Stands l.text l.indent (earlier ++ level ++ [last]) [] ((d.add n).moveTo l).draft) ∨
      (n.children? = none ∧ ((d.add n).moveTo l).fault? = some (.illegalNesting n.kind)) := by
  have hwidth : (d.add n).width < l.indent := h.width_eq ▸ hdeeper
  have hbare := LogicalLine.bare_of_toNode hnode
  rw [Draft.moveTo, if_pos hwidth, Draft.openBlock, Draft.add]
  rcases hreopen : n.reopen? with - | ⟨owner, old⟩
  · have hleaf : n.children? = none := by rw [Node.children?_eq_map_reopen?, hreopen]; rfl
    exact .inr ⟨hleaf, by simp [hreopen]⟩
  · have hopen : n.children? = some old := by rw [Node.children?_eq_map_reopen?, hreopen]; rfl
    -- the node of the line is bare, so nothing is in the block yet
    obtain rfl : old = [] := by
      have hnone := Node.children_of_bare hbare
      rwa [Node.children_eq_getD, hopen] at hnone
    refine .inl ⟨by rw [hopen]; rfl, by simp [hreopen], ?_⟩
    simp only [hreopen]
    exact ⟨.block h.around h.nests rfl hdeeper hnode hreopen, .nil _ _⟩

/-- Any other line closes the blocks that are deeper, and has to meet the last earlier line that is
not. -/
theorem moveTo_back {earlier level : List LogicalLine} {last l : LogicalLine} {n : Node}
    (h : Stands last.text last.indent earlier level d) (hnode : last.toNode.result = .ok n)
    (hback : l.indent ≤ last.indent) :
    ∃ k, (earlier ++ level ++ [last]).reverse.find? (·.indent ≤ l.indent) = some k ∧
      ((k.indent = l.indent ∧ ((d.add n).moveTo l).fault? = none ∧
          ∃ earlier' level', earlier' ++ level' = earlier ++ level ++ [last] ∧
            Stands l.text l.indent earlier' level' ((d.add n).moveTo l).draft) ∨
        (k.indent ≠ l.indent ∧
          ((d.add n).moveTo l).fault? = some (.inconsistentIndent l.indent))) := by
  have hstands := stands_add h hnode l.text
  rw [Draft.moveTo, if_neg (by rw [hstands.width_eq]; omega), Draft.returnTo]
  -- where the draft stands once the deeper blocks are closed
  obtain ⟨earlier', level', k, hlines, hlast, hclosed⟩ : ∃ earlier' level' k,
      earlier' ++ level' = earlier ++ level ++ [last] ∧
      (earlier ++ level ++ [last]).reverse.find? (·.indent ≤ l.indent) = some k ∧
      Stands l.text k.indent earlier' level' ((d.add n).closeDeeper l.indent l.text) := by
    rcases Nat.lt_or_eq_of_le hback with hlt | heq
    · simpa using hstands.closeDeeper (by simp) hlt
    · refine ⟨earlier, level ++ [last], last, by simp, by simp [heq], ?_⟩
      rwa [Draft.closeDeeper_of_le _ (Nat.le_of_eq (hstands.width_eq.trans heq.symm))]
  refine ⟨k, hlast, ?_⟩
  have hwidth := hclosed.width_eq
  by_cases hk : k.indent = l.indent
  · exact .inl ⟨hk, by simp [hwidth, hk], earlier', level', hlines, hk ▸ hclosed⟩
  · exact .inr ⟨hk, by simp [hwidth, hk]⟩

/-- **Where a line leads.** A well indented line leads into a block of its width; any other line has
the fault of its indentation. -/
theorem moveTo (h : Reads lines d) (l : LogicalLine) :
    (WellIndented lines.reverse l ∧ (d.moveTo l).fault? = none ∧
        ∃ earlier level, earlier ++ level = lines ∧
          Stands l.text l.indent earlier level (d.moveTo l).draft) ∨
      ∃ f, (d.moveTo l).fault? = some f ∧ IndentFault lines.reverse l f := by
  cases h with
  | nil =>
    rcases moveTo_nil l with ⟨hindent, hnone, hstands⟩ | hfault
    · exact .inl ⟨hindent, hnone, [], [], rfl, hstands⟩
    · exact .inr hfault
  | @add earlier level last n d hstands hnode =>
    have hreverse : (earlier ++ level ++ [last]).reverse = last :: (earlier ++ level).reverse := by
      simp
    by_cases hdeeper : last.indent < l.indent
    · rcases moveTo_deeper hstands hnode hdeeper with ⟨hopen, hnone, h⟩ | ⟨hleaf, hfault⟩
      · refine .inl ⟨?_, hnone, _, [], by simp, h⟩
        rw [hreverse]
        exact .inl ⟨hdeeper, n, hnode, hopen⟩
      · refine .inr ⟨_, hfault, ?_⟩
        rw [hreverse]
        exact .nesting hdeeper hnode hleaf
    · have hback : l.indent ≤ last.indent := Nat.le_of_not_lt hdeeper
      obtain ⟨k, hlast, ⟨hk, hnone, h⟩ | ⟨hk, hfault⟩⟩ := moveTo_back hstands hnode hback
      · refine .inl ⟨?_, hnone, h⟩
        rw [hreverse] at hlast ⊢
        exact .inr ⟨hback, k, hlast, hk⟩
      · refine .inr ⟨_, hfault, ?_⟩
        rw [hreverse] at hlast ⊢
        have hlt : l.indent < last.indent := by
          refine Nat.lt_of_le_of_ne hback fun heq ↦ hk ?_
          obtain rfl : last = k := by simpa [heq] using hlast
          exact heq.symm
        exact .dedent hlt hlast hk

end Reads

/-! ### Placing lines -/

namespace Draft

/-- Placing a line moves to where it belongs and adds its node there. -/
theorem result_place (d : Draft) (l : LogicalLine) :
    (d.place l).result =
      match (d.moveTo l).fault? with
      | none => l.toNode.result.map (d.moveTo l).draft.add
      | some fault => .error ⟨fault, l.line⟩ := by
  rw [place, seek]
  simp only [Traced.result_bind, Traced.result_report, Traced.result_pure]
  rcases (d.moveTo l).fault? with - | fault
  · rcases l.toNode.result with e | n <;> rfl
  · rfl

@[simp] theorem result_placeAll_nil (d : Draft) : (d.placeAll []).result = .ok d := rfl

theorem result_placeAll_cons (d : Draft) (l : LogicalLine) (lines : List LogicalLine) :
    (d.placeAll (l :: lines)).result =
      (d.place l).result.bind fun d ↦ (d.placeAll lines).result := by
  rw [placeAll, Traced.result_bind]
  rfl

end Draft

namespace Reads

variable {lines : List LogicalLine} {d : Draft}

/-- **A line that fits is read, and any other line ends the parse with its error.** -/
theorem place (h : Reads lines d) (l : LogicalLine) :
    (Fits lines.reverse l ∧ ∃ d', (d.place l).result = .ok d' ∧ Reads (lines ++ [l]) d') ∨
      ∃ e, (d.place l).result = .error e ∧ LineError lines.reverse l e := by
  rw [Draft.result_place]
  rcases h.moveTo l with ⟨hindent, hnone, earlier, level, rfl, hstands⟩ | ⟨f, hfault, hindent⟩
  · rw [hnone]
    rcases hnode : l.toNode.result with e | n
    · exact .inr ⟨e, rfl, .text hindent hnode⟩
    · exact .inl ⟨⟨hindent, n, hnode⟩, _, rfl, .add hstands hnode⟩
  · rw [hfault]
    exact .inr ⟨_, rfl, .indentation hindent⟩

/-- **Lines that all fit are read; otherwise the first that does not ends the parse.** -/
theorem placeAll (h : Reads lines d) (more : List LogicalLine) :
    (AllFit lines.reverse more ∧
        ∃ d', (d.placeAll more).result = .ok d' ∧ Reads (lines ++ more) d') ∨
      ∃ before l after e, more = before ++ l :: after ∧ AllFit lines.reverse before ∧
        LineError (lines ++ before).reverse l e ∧ (d.placeAll more).result = .error e := by
  induction more generalizing lines d with
  | nil => exact .inl ⟨trivial, d, rfl, by rwa [List.append_nil]⟩
  | cons l more ih =>
    rw [Draft.result_placeAll_cons]
    rcases h.place l with ⟨hfits, d', hd', hreads⟩ | ⟨e, he, herror⟩
    · rw [hd']
      have hreverse : (lines ++ [l]).reverse = l :: lines.reverse := by simp
      rcases ih hreads with
        ⟨hall, d'', hd'', hreads'⟩ | ⟨before, x, after, e, rfl, hall, herror, he⟩
      · rw [hreverse] at hall
        exact .inl ⟨⟨hfits, hall⟩, d'', hd'', by simpa using hreads'⟩
      · rw [hreverse] at hall
        exact .inr ⟨l :: before, x, after, e, rfl, ⟨hfits, hall⟩, by simpa using herror, he⟩
    · rw [he]
      exact .inr ⟨[], l, more, e, rfl, trivial, by simpa using herror, rfl⟩

end Reads

/-! ### Whole sources -/

/-- No logical line is blank. -/
theorem filter_logicalLines (source : String) :
    (logicalLines source).filter (!·.isBlank) = logicalLines source := by
  rw [logicalLines, List.filter_filter]
  simp

/-- A parse places the logical lines and takes what has been drafted. -/
theorem parse_eq (source : String) :
    parse source = (Draft.placeAll {} (logicalLines source)).result.map Draft.toTemplate := by
  rw [parse, trace]
  simp only [Traced.result_bind, Traced.result_report, Traced.result_pure, Draft.ofLines,
    filter_logicalLines]
  rcases (Draft.placeAll {} (logicalLines source)).result with e | d <;> rfl

/-- **A parse of lines that fit is what they nest into; any other parse ends with the error of the
first line that does not fit.** -/
theorem parse_cases (source : String) :
    (AllFit [] (logicalLines source) ∧
        ∃ t, parse source = .ok t ∧ Nests "" 0 (logicalLines source) t.nodes) ∨
      ∃ before l after e, logicalLines source = before ++ l :: after ∧ AllFit [] before ∧
        LineError before.reverse l e ∧ parse source = .error e := by
  rw [parse_eq]
  rcases Reads.nil.placeAll (logicalLines source) with
    ⟨hall, d, hd, hreads⟩ | ⟨before, l, after, e, hlines, hall, herror, he⟩
  · exact .inl ⟨hall, d.toTemplate, by rw [hd]; rfl, hreads.nests⟩
  · exact .inr ⟨before, l, after, e, hlines, hall, herror, by rw [he]; rfl⟩

end HamlTree
