import Mathlib.Order.Monotone.Basic
import HamlTree.Proofs.Acceptance

/-!
# Lines in other places

What lines nest into depends on their texts and on which of them stand further right, and on nothing
else: neither on the widths themselves nor on the numbers of the lines. So lines can be moved to
other columns and to other rows (`LogicalLine.relocate`), and as long as their order from left to
right is kept they nest into the same trees (`Nests.relocate`). A line that does not fit has the
same fault in its new place, apart from the width and the number that its error names
(`LineError.relocate`).
-/

namespace HamlTree

/-- The line in another place: a column and a row for every other one. -/
def LogicalLine.relocate (column row : Nat → Nat) (l : LogicalLine) : LogicalLine :=
  ⟨l.text, column l.indent, row l.line⟩

/-- The fault of a line in another place: a width that it names is the width there. -/
def Fault.relocate (column : Nat → Nat) : Fault → Fault
  | inconsistentIndent width => inconsistentIndent (column width)
  | fault => fault

/-- The error of a line in another place. -/
def ParseError.relocate (column row : Nat → Nat) (e : ParseError) : ParseError :=
  ⟨e.fault.relocate column, row e.line⟩

/-- A fault that is not about a width is the same in every place. -/
theorem Fault.relocate_eq_self {f : Fault} (h : f.category ≠ .unexpectedIndentLevel)
    (column : Nat → Nat) : f.relocate column = f := by
  cases f with
  | inconsistentIndent => exact absurd rfl h
  | _ => rfl

@[simp] theorem Fault.relocate_id (f : Fault) : f.relocate id = f := by
  cases f <;> rfl

variable {column row : Nat → Nat}

namespace LogicalLine

/-- A line stands for the same node in every place, -/
theorem toNode_relocate_eq_ok_iff {l : LogicalLine} {n : Node} :
    (l.relocate column row).toNode.result = .ok n ↔ l.toNode.result = .ok n := by
  rw [toNode_eq_ok_iff, toNode_eq_ok_iff]
  rfl

/-- and its text has the same fault. -/
theorem toNode_relocate_eq_error {l : LogicalLine} {e : ParseError}
    (h : l.toNode.result = .error e) :
    (l.relocate column row).toNode.result = .error (e.relocate column row) := by
  obtain ⟨hfault, hline⟩ := toNode_eq_error_iff.1 h
  have hsame := Fault.relocate_eq_self (Node.category_of_ofText hfault).1 column
  rw [toNode_eq_error_iff, ParseError.relocate, hsame]
  exact ⟨hfault, congrArg row hline⟩

end LogicalLine

@[simp] theorem closingText_relocate (column row : Nat → Nat) (next : String)
    (lines : List LogicalLine) :
    closingText next (lines.map (·.relocate column row)) = closingText next lines := by
  cases lines <;> rfl

variable (row)

/-- **Lines that keep their order from left to right nest into the same trees.** -/
theorem Nests.relocate (hcolumn : StrictMono column) {next : String} {width : Nat}
    {lines : List LogicalLine} {trees : List Node} (h : Nests next width lines trees) :
    Nests next (column width) (lines.map (·.relocate column row)) trees := by
  induction h with
  | nil => exact .nil _ _
  | @cons next width deeper l inner outer n children siblings hindent hnode hblock _ _ ihinner
      ihouter =>
    rw [← closingText_relocate column row next outer] at ihinner ⊢
    rw [List.map_cons, List.map_append]
    refine .cons (congrArg column hindent) (LogicalLine.toNode_relocate_eq_ok_iff.2 hnode) ?_
      ihinner ihouter
    intro hne
    obtain ⟨hlt, hopen⟩ := hblock fun hnil ↦ hne (by rw [hnil, List.map_nil])
    exact ⟨hcolumn hlt, hopen⟩

/-! ### Lines that fit, and lines that do not -/

/-- The last earlier line that is not deeper is the same one. -/
theorem find?_relocate (hcolumn : StrictMono column) (width : Nat) (earlier : List LogicalLine) :
    (earlier.map (·.relocate column row)).find? (·.indent ≤ column width) =
      (earlier.find? (·.indent ≤ width)).map (·.relocate column row) := by
  rw [List.find?_map]
  congr 2
  funext l
  simp [LogicalLine.relocate, hcolumn.le_iff_le]

variable {earlier : List LogicalLine} {l : LogicalLine}

/-- A well indented line is well indented in its new place. -/
theorem WellIndented.relocate (hcolumn : StrictMono column) (hzero : column 0 = 0)
    (h : WellIndented earlier l) :
    WellIndented (earlier.map (·.relocate column row)) (l.relocate column row) := by
  rcases earlier with - | ⟨last, before⟩
  · have hindent : l.indent = 0 := h
    exact (congrArg column hindent).trans hzero
  · rcases h with ⟨hdeeper, n, hnode, hopen⟩ | ⟨hback, k, hk, hsame⟩
    · exact .inl ⟨hcolumn hdeeper, n, LogicalLine.toNode_relocate_eq_ok_iff.2 hnode, hopen⟩
    · refine .inr ⟨hcolumn.monotone hback, k.relocate column row, ?_, congrArg column hsame⟩
      have hfind := find?_relocate row hcolumn l.indent (last :: before)
      rw [hk] at hfind
      exact hfind

/-- A fault of the indentation is found in the new place as well. -/
theorem IndentFault.relocate (hcolumn : StrictMono column) (hzero : column 0 = 0) {f : Fault}
    (h : IndentFault earlier l f) :
    IndentFault (earlier.map (·.relocate column row)) (l.relocate column row)
      (f.relocate column) := by
  cases h with
  | start hindent => exact .start (hzero ▸ hcolumn hindent)
  | nesting hdeeper hnode hleaf =>
    exact .nesting (hcolumn hdeeper) (LogicalLine.toNode_relocate_eq_ok_iff.2 hnode) hleaf
  | @dedent last _ k before hback hlast hother =>
    have hfind := find?_relocate row hcolumn l.indent (last :: before)
    rw [hlast] at hfind
    exact .dedent (hcolumn hback) hfind fun hsame ↦ hother (hcolumn.injective hsame)

/-- **The error of a line moves with the line.** -/
theorem LineError.relocate (hcolumn : StrictMono column) (hzero : column 0 = 0) {e : ParseError}
    (h : LineError earlier l e) :
    LineError (earlier.map (·.relocate column row)) (l.relocate column row)
      (e.relocate column row) := by
  cases h with
  | indentation hfault => exact .indentation (hfault.relocate row hcolumn hzero)
  | text hindent hnode =>
    exact .text (hindent.relocate row hcolumn hzero) (LogicalLine.toNode_relocate_eq_error hnode)

/-- Lines that fit do so in their new places. -/
theorem AllFit.relocate (hcolumn : StrictMono column) (hzero : column 0 = 0)
    {lines : List LogicalLine} (h : AllFit earlier lines) :
    AllFit (earlier.map (·.relocate column row)) (lines.map (·.relocate column row)) := by
  induction lines generalizing earlier with
  | nil => trivial
  | cons l lines ih =>
    obtain ⟨⟨hindent, n, hnode⟩, hlines⟩ := h
    refine ⟨⟨hindent.relocate row hcolumn hzero, n, ?_⟩, ih hlines⟩
    exact LogicalLine.toNode_relocate_eq_ok_iff.2 hnode

end HamlTree
