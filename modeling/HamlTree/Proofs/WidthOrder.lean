import HamlTree.Proofs.Relocation

/-!
# Only the order of the widths counts

A draft compares widths with each other and does nothing else with them. So when its open blocks
stand in other columns (`Draft.relocate`), and their order from left to right is the same, a line in
its new place leads it where the line has led the draft before, in the new columns and with the same
fault (`Draft.moveTo_relocate`). From one line this goes over to all of them
(`Draft.result_placeAll_relocate`), and from there to sources whose logical lines differ in their
places only (`parse_relocate`).

Nothing is asked of the map of the rows, for rows are never compared.
-/

namespace HamlTree

variable {column row : Nat → Nat}

/-- A fault is of the same category in every place, -/
@[simp] theorem Fault.category_relocate (column : Nat → Nat) (f : Fault) :
    (f.relocate column).category = f.category := by
  cases f <;> rfl

/-- and says the same unless it names a width. -/
theorem Fault.message_relocate (column : Nat → Nat) {f : Fault}
    (h : ∀ width, f ≠ .inconsistentIndent width) : (f.relocate column).message = f.message := by
  cases f with
  | inconsistentIndent width => exact absurd rfl (h width)
  | _ => rfl

/-- The block in another column. -/
def OpenBlock.relocate (column : Nat → Nat) (block : OpenBlock) : OpenBlock :=
  { block with width := column block.width }

/-! ### A draft in other columns -/

namespace Draft

/-- The draft with its open blocks in other columns. -/
def relocate (column : Nat → Nat) (d : Draft) : Draft :=
  { d with blocks := d.blocks.map (·.relocate column) }

@[simp] theorem relocate_empty (column : Nat → Nat) : relocate column {} = {} := rfl

@[simp] theorem collected_relocate (column : Nat → Nat) (d : Draft) :
    (d.relocate column).collected = d.collected := rfl

/-- A block is opened under the same node, or refused for the same reason. -/
theorem openBlock_relocate (column : Nat → Nat) (d : Draft) (width line line' : Nat) :
    ((d.relocate column).openBlock (column width) line').draft =
        (d.openBlock width line).draft.relocate column ∧
      ((d.relocate column).openBlock (column width) line').fault? =
        (d.openBlock width line).fault?.map (·.relocate column) := by
  rw [openBlock, openBlock, collected_relocate]
  rcases d.collected with - | ⟨node, before⟩
  · exact ⟨rfl, rfl⟩
  · rcases hreopen : node.reopen? with - | ⟨owner, children⟩ <;>
      simp [hreopen, relocate, OpenBlock.relocate, Fault.relocate]

section

variable (hzero : column 0 = 0)

include hzero

/-- The widths are those in the new columns, the template staying at the left margin. -/
theorem widths_relocate (d : Draft) : (d.relocate column).widths = d.widths.map column := by
  simp [widths, relocate, hzero, OpenBlock.relocate]

/-- So is the width of the innermost block. -/
theorem width_relocate (d : Draft) : (d.relocate column).width = column d.width := by
  obtain ⟨- | ⟨block, blocks⟩, collected, opened⟩ := d
  · exact hzero.symm
  · rfl

end

variable (hcolumn : StrictMono column)

include hcolumn

/-- **The same blocks are closed.** -/
theorem closeDeeper_relocate (d : Draft) (width : Nat) (text : String) :
    (d.relocate column).closeDeeper (column width) text =
      (d.closeDeeper width text).relocate column := by
  obtain ⟨blocks, collected, opened⟩ := d
  induction blocks generalizing collected with
  | nil => rfl
  | cons block blocks ih =>
    by_cases hdeeper : width < block.width
    · rw [closeDeeper_of_lt text hdeeper, ← ih]
      exact closeDeeper_of_lt text (hcolumn hdeeper)
    · have hle : Draft.width ⟨block :: blocks, collected, opened⟩ ≤ width :=
        Nat.le_of_not_lt hdeeper
      have hle' : (relocate column ⟨block :: blocks, collected, opened⟩).width ≤ column width :=
        hcolumn.monotone hle
      rw [closeDeeper_of_le text hle', closeDeeper_of_le text hle]

variable (hzero : column 0 = 0)

include hzero

/-- The template is the same in all columns. -/
theorem toTemplate_relocate (d : Draft) : (d.relocate column).toTemplate = d.toTemplate := by
  have hclose := closeDeeper_relocate hcolumn d 0 ""
  rw [hzero] at hclose
  rw [toTemplate, closeAll, hclose]
  rfl

/-- The same blocks are closed for a line, and its width fits or does not as before. -/
theorem returnTo_relocate (d : Draft) (width : Nat) (text : String) :
    ((d.relocate column).returnTo (column width) text).draft =
        (d.returnTo width text).draft.relocate column ∧
      ((d.relocate column).returnTo (column width) text).fault? =
        (d.returnTo width text).fault?.map (·.relocate column) := by
  have hclose := closeDeeper_relocate hcolumn d width text
  have hclosed : ((d.relocate column).closeDeeper (column width) text).width =
      column (d.closeDeeper width text).width := by
    rw [hclose, width_relocate hzero]
  refine ⟨hclose, ?_⟩
  simp only [returnTo, hclosed, hcolumn.injective.eq_iff]
  split <;> rfl

/-- **A line in its new place leads to where it has led before**, in the new columns, and has the
fault that it has had, where a width that is named is the new one. -/
theorem moveTo_relocate (row : Nat → Nat) (d : Draft) (l : LogicalLine) :
    ((d.relocate column).moveTo (l.relocate column row)).draft =
        (d.moveTo l).draft.relocate column ∧
      ((d.relocate column).moveTo (l.relocate column row)).fault? =
        (d.moveTo l).fault?.map (·.relocate column) := by
  have hdeeper : (d.relocate column).width < (l.relocate column row).indent ↔
      d.width < l.indent := by
    rw [width_relocate hzero]
    exact hcolumn.lt_iff_lt
  simp only [moveTo, hdeeper]
  split
  · exact openBlock_relocate column d l.indent l.line (row l.line)
  · exact returnTo_relocate hcolumn hzero d l.indent l.text

/-! ### Lines in other places -/

/-- Placing a line in its new place. -/
theorem result_place_relocate (row : Nat → Nat) (d : Draft) (l : LogicalLine) :
    ((d.relocate column).place (l.relocate column row)).result =
      ((d.place l).result.map (relocate column)).mapError (·.relocate column row) := by
  obtain ⟨hdraft, hfault⟩ := moveTo_relocate hcolumn hzero row d l
  rw [result_place, result_place, hdraft, hfault]
  rcases (d.moveTo l).fault? with - | fault
  · rcases hnode : l.toNode.result with e | n
    · simp only [Option.map_none, LogicalLine.toNode_relocate_eq_error hnode]
      rfl
    · simp only [Option.map_none, LogicalLine.toNode_relocate_eq_ok_iff.2 hnode]
      rfl
  · rfl

/-- **Lines in their new places are placed like before**, and the first that does not fit is the
same one. -/
theorem result_placeAll_relocate (row : Nat → Nat) (d : Draft) (lines : List LogicalLine) :
    ((d.relocate column).placeAll (lines.map (·.relocate column row))).result =
      ((d.placeAll lines).result.map (relocate column)).mapError (·.relocate column row) := by
  induction lines generalizing d with
  | nil => rfl
  | cons l lines ih =>
    rw [List.map_cons, result_placeAll_cons, result_placeAll_cons,
      result_place_relocate hcolumn hzero]
    rcases (d.place l).result with e | d'
    · rfl
    · exact ih d'

/-- The same for lines some of which are blank. -/
theorem result_ofLines_relocate (row : Nat → Nat) (lines : List LogicalLine) :
    (ofLines (lines.map (·.relocate column row))).result =
      ((ofLines lines).result.map (relocate column)).mapError (·.relocate column row) := by
  rw [ofLines, ofLines, List.filter_map,
    ← result_placeAll_relocate hcolumn hzero row {} (lines.filter (!·.isBlank))]
  rfl

end Draft

/-- **Sources whose lines are the same in other places** have the same template, or the same error
in another place. -/
theorem parse_relocate (hcolumn : StrictMono column) (hzero : column 0 = 0) {s s' : String}
    (h : logicalLines s' = (logicalLines s).map (·.relocate column row)) :
    parse s' = (parse s).mapError (·.relocate column row) := by
  have hplaced := Draft.result_placeAll_relocate hcolumn hzero row {} (logicalLines s)
  rw [parse_eq, parse_eq, h, ← Draft.relocate_empty column, hplaced, Draft.relocate_empty]
  rcases (Draft.placeAll {} (logicalLines s)).result with e | d
  · rfl
  · exact congrArg Except.ok (Draft.toTemplate_relocate hcolumn hzero d)

/-- **Only the order of the widths counts.** Let each line of a list stand at another width, so that
deeper lines stay deeper than others and the left margin stays where it is. The lines are placed as
before, and the draft that they leave has the same template, has opened as many blocks, and stands
at the widths that have taken the place of the old ones. Or the same line has a fault as before, of
the same category and with the same message, but for a width that does not fit: where it is named,
the message names the new one. -/
theorem ofLines_widths (hcolumn : StrictMono column) (hzero : column 0 = 0)
    (lines : List LogicalLine) :
    (∀ d, (Draft.ofLines lines).result = .ok d →
      ∃ d', (Draft.ofLines (lines.map (·.relocate column id))).result = .ok d' ∧
        d'.toTemplate = d.toTemplate ∧ d'.opened = d.opened ∧
        d'.widths = d.widths.map column) ∧
    ∀ e, (Draft.ofLines lines).result = .error e →
      ∃ f, (Draft.ofLines (lines.map (·.relocate column id))).result = .error ⟨f, e.line⟩ ∧
        f.category = e.fault.category ∧
        (∀ width, e.fault = .inconsistentIndent width → f = .inconsistentIndent (column width)) ∧
        ((∀ width, e.fault ≠ .inconsistentIndent width) → f.message = e.fault.message) := by
  have hresult := Draft.result_ofLines_relocate hcolumn hzero id lines
  constructor
  · intro d hd
    rw [hd] at hresult
    exact ⟨d.relocate column, hresult, Draft.toTemplate_relocate hcolumn hzero d, rfl,
      Draft.widths_relocate hzero d⟩
  · intro e he
    rw [he] at hresult
    refine ⟨e.fault.relocate column, hresult, Fault.category_relocate column e.fault, ?_,
      Fault.message_relocate column⟩
    intro width hwidth
    rw [hwidth]
    rfl

/-- The widths 0, 1, 3 become 0, 1, 9: the blocks stay the same, and so does the fault of a line at
width 2, where 4 is named. The blank line has no say. -/
theorem ofLines_widths_squared :
    (∃ d', (Draft.ofLines [⟨"- if a", 0, 1⟩, ⟨"%p", 1, 2⟩, ⟨"b", 9, 3⟩, ⟨"", 4, 4⟩,
        ⟨"- else", 0, 5⟩, ⟨"c", 9, 6⟩]).result = .ok d' ∧
      d'.toTemplate = ⟨[.script .silent "if a" true
          [.element { tag := "p" } none [.leaf .plainText "b"]],
        .script .silent "else" false [.leaf .plainText "c"]]⟩ ∧
      d'.opened = 3 ∧ d'.widths = [0, 9]) ∧
    ∃ f, (Draft.ofLines [⟨"- if a", 0, 1⟩, ⟨"%p", 1, 2⟩, ⟨"b", 9, 3⟩, ⟨"c", 4, 4⟩]).result =
        .error ⟨f, 4⟩ ∧ f = .inconsistentIndent 4 := by
  have hcolumn : StrictMono fun w : Nat ↦ w * w := fun _ _ h ↦ Nat.mul_self_lt_mul_self h
  have hok : (Draft.ofLines [⟨"- if a", 0, 1⟩, ⟨"%p", 1, 2⟩, ⟨"b", 3, 3⟩, ⟨"", 2, 4⟩,
      ⟨"- else", 0, 5⟩, ⟨"c", 3, 6⟩]).result =
      .ok ⟨[⟨3, .script .silent "else", [.script .silent "if a" true
          [.element { tag := "p" } none [.leaf .plainText "b"]]]⟩], [.leaf .plainText "c"], 3⟩ := by
    decide +kernel
  have herror : (Draft.ofLines [⟨"- if a", 0, 1⟩, ⟨"%p", 1, 2⟩, ⟨"b", 3, 3⟩, ⟨"c", 2, 4⟩]).result =
      .error ⟨.inconsistentIndent 2, 4⟩ := by decide +kernel
  constructor
  · obtain ⟨d', hd', htemplate, hopened, hwidths⟩ := (ofLines_widths hcolumn rfl _).1 _ hok
    exact ⟨d', hd', htemplate.trans (by decide +kernel), hopened, hwidths⟩
  · obtain ⟨f, hf, -, hwidth, -⟩ := (ofLines_widths hcolumn rfl _).2 _ herror
    exact ⟨f, hf, hwidth 2 rfl⟩

end HamlTree
