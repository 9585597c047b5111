import HamlTree.Proofs.BlankLines
import HamlTree.Proofs.NestedBlock

/-!
# A bar alone on a line

The mark of a continued line needs a blank before it, and a line with nothing but a bar has none. So
such a line is text. It should not matter how far right the line stands, but the blank is looked for
before the indentation is taken off: once the bar is indented, the space before it makes it a mark.
The line is then continued with an empty text, and the bar is dropped.

This is the only line that does not count the same at every depth (`sameAtDepth_iff`).
-/

namespace HamlTree

open Text

/-! ### Lines that are not continued -/

/-- A raw line that is not continued is a group of its own, with its number. -/
theorem Line.single_mem_groups {n i : Nat} {raw : List Char} {raws : List (List Char)}
    (h : raws[i]? = some raw) (hraw : isContinued raw = false) :
    .single (n + i) raw ∈ groups n raws := by
  obtain ⟨hi, -⟩ := List.getElem?_eq_some_iff.1 h
  obtain ⟨g, hg, hle, hlt⟩ := exists_mem_groups (Nat.le_add_right n i) (Nat.add_lt_add_left hi n)
  obtain ⟨before, after, rfl, hline, -, -, hproper⟩ := exists_eq_append_of_mem_groups hg
  have hbefore : before.length ≤ i := by omega
  -- the line is in the group, and then the group cannot be a run
  have hin : g.raws[i - before.length]? = some raw := by
    rwa [List.getElem?_append_right hbefore, List.getElem?_append_left (by omega)] at h
  cases g with
  | single line raw' =>
    obtain ⟨hzero, rfl⟩ : i - before.length = 0 ∧ raw' = raw := by
      simpa [Group.raws, List.getElem?_singleton] using hin
    rw [Group.line_single] at hline
    rwa [show n + i = line by omega]
  | joined line first more =>
    have hcontinued := hproper raw (List.mem_of_getElem? hin)
    exact absurd (hraw.symm.trans hcontinued) Bool.false_ne_true

/-- **A raw line that is not continued is a logical line**, unless it is blank. -/
theorem ofIndented_mem_logicalLines {source : String} {row : Nat} {raw : List Char}
    (h : (Line.rawLines source)[row]? = some raw) (hraw : Line.isContinued raw = false)
    (hblank : (LogicalLine.ofIndented raw (row + 1)).isBlank = false) :
    LogicalLine.ofIndented raw (row + 1) ∈ logicalLines source := by
  refine List.mem_filter.2 ⟨List.mem_map.2 ⟨_, Line.single_mem_groups h hraw, ?_⟩, ?_⟩
  · rw [Line.Group.toLogical, Line.Group.text_single, Line.Group.line_single, Nat.add_comm]
  · rw [hblank]
    rfl

/-- A logical line of an accepted source has a node in its place. -/
theorem exists_node_of_mem_logicalLines {source : String} {t : Template} {l : LogicalLine}
    (ht : parse source = .ok t) (h : l ∈ logicalLines source) :
    ∃ (i : Nat) (n : Node), (logicalLines source)[i]? = some l ∧ t.inOrder[i]? = some n ∧
      l.toNode.result = .ok n.bare := by
  obtain ⟨hlength, hnodes⟩ :=
    List.forall₂_iff_get.1 (parse_eq_ok_iff.1 ht).forall₂_documentOrder
  obtain ⟨i, hi, rfl⟩ := List.getElem_of_mem h
  have hi' : i < t.inOrder.length := hlength ▸ hi
  exact ⟨i, t.inOrder[i], List.getElem?_eq_getElem hi, List.getElem?_eq_getElem hi',
    hnodes i hi hi'⟩

/-! ### Depth -/

/-- A line counts the same when it is indented as without indentation. -/
structure SameAtDepth (k : Nat) (line : List Char) : Prop where
  /-- It is continued or not. -/
  continued : Line.isContinued (List.replicate k ' ' ++ line) = Line.isContinued line
  /-- If it is a bar alone, it is not continued; -/
  not_continued : line = ['|'] → Line.isContinued (List.replicate k ' ' ++ line) = false
  /-- it is a logical line of its own, and its node is the bar as text. -/
  node : line = ['|'] → ∀ (source : String) (row : Nat) (t : Template),
    (Line.rawLines source)[row]? = some (List.replicate k ' ' ++ line) → parse source = .ok t →
    ∃ i : Nat, (logicalLines source)[i]? = some ⟨"|", k, row + 1⟩ ∧
      t.inOrder[i]? = some (.leaf .plainText "|")

/-- A line of spaces has no mark. -/
theorem isContinued_spaces (k : Nat) : Line.isContinued (List.replicate k ' ') = false := by
  cases k with
  | zero => rfl
  | succ k =>
    rw [List.replicate_succ', Line.isContinued, List.getLast?_concat]
    rfl

/-- A bar after spaces is the mark of a line without text. -/
theorem isContinued_spaces_bar {k : Nat} (hk : k ≠ 0) :
    Line.isContinued (List.replicate k ' ' ++ ['|']) = true := by
  obtain ⟨k, rfl⟩ := Nat.exists_eq_succ_of_ne_zero hk
  have hends : endsBlank (List.replicate (k + 1) ' ') = true := by
    rw [List.replicate_succ', endsBlank, List.getLast?_concat]
    rfl
  rw [Line.isContinued, Line.hasBlockSignature_spaces, List.getLast?_concat, List.dropLast_concat,
    hends]
  rfl

/-- A bar after spaces, where no run goes on before it or after it, is no logical line. -/
theorem linesFrom_spaces_bar (n : Nat) {k : Nat} (hk : k ≠ 0) :
    Line.linesFrom n [List.replicate k ' ' ++ ['|']] = [] := by
  have htext : trimEnd (List.replicate k ' ') = [] := by
    have hspaces := Line.trimEnd_spaces k []
    rwa [List.append_nil] at hspaces
  have hjoined : (Line.Group.joined n (List.replicate k ' ' ++ ['|']) []).text = [] := by
    rw [Line.Group.text, List.flatMap_nil, List.append_nil]
    exact (congrArg trimEnd (Line.dropMark_append_mark _)).trans htext
  rw [Line.linesFrom, Line.groups_cons_of_continued n [] (isContinued_spaces_bar hk),
    List.takeWhile_nil, List.dropWhile_nil, Line.groups_nil, List.map_singleton,
    Line.Group.toLogical, hjoined]
  rfl

/-- **An indented bar is lost.** Where the lines next to it are not continued, the source is read as
if there were nothing on the line. -/
theorem parse_spaces_bar {s s' : String} {before after : List (List Char)} {k : Nat} (hk : k ≠ 0)
    (hs : Line.rawLines s = before ++ ([List.replicate k ' ' ++ ['|']] ++ after))
    (hs' : Line.rawLines s' = before ++ ([[]] ++ after))
    (hbefore : ∀ raw ∈ before.getLast?, Line.isContinued raw = false)
    (hafter : ∀ raw ∈ after.head?, Line.isContinued raw = false) : parse s = parse s' := by
  have hseam := Line.Seam.of_getLast? hbefore
  have hseam' := Line.Seam.of_head? hafter
  have hblank : ∀ n, Line.linesFrom n [[]] = [] :=
    Line.linesFrom_eq_nil fun raw hraw ↦ List.mem_singleton.1 hraw
  have hlines : logicalLines s = logicalLines s' := by
    show Line.linesFrom 1 (Line.rawLines s) = Line.linesFrom 1 (Line.rawLines s')
    rw [hs, hs', Line.linesFrom_append 1 (hseam _), Line.linesFrom_append _ (hseam' _),
      Line.linesFrom_append 1 (hseam _), Line.linesFrom_append _ (hseam' _),
      linesFrom_spaces_bar _ hk, hblank]
    rfl
  rw [parse_eq, parse_eq, hlines]

/-- A bar without indentation is text. -/
theorem exists_node_of_bar {source : String} {row : Nat} {t : Template}
    (hraw : (Line.rawLines source)[row]? = some ['|']) (ht : parse source = .ok t) :
    ∃ i : Nat, (logicalLines source)[i]? = some ⟨"|", 0, row + 1⟩ ∧
      t.inOrder[i]? = some (.leaf .plainText "|") := by
  obtain ⟨i, n, hi, hn, hnode⟩ :=
    exists_node_of_mem_logicalLines ht (ofIndented_mem_logicalLines hraw rfl rfl)
  have hbar : Node.ofText "|".toList = .ok (.leaf .plainText "|") := by decide +kernel
  have hbare : n.bare = .leaf .plainText "|" :=
    Except.ok.inj ((LogicalLine.toNode_eq_ok_iff.1 hnode).symm.trans hbar)
  refine ⟨i, hi, hn.trans (congrArg some ?_)⟩
  cases n with
  | leaf => exact hbare
  | element | script => exact absurd hbare (by rintro ⟨⟩)

/-- **Every line but the bar counts the same at every depth.** A bar alone counts as text where it
is not indented, and is taken for a mark everywhere else. -/
theorem sameAtDepth_iff (k : Nat) (line : List Char) :
    SameAtDepth k line ↔ k = 0 ∨ line ≠ ['|'] := by
  constructor
  · intro h
    by_contra hno
    obtain ⟨hk, hbar⟩ := not_or.1 hno
    have hnot := h.not_continued (not_not.1 hbar)
    rw [not_not.1 hbar, isContinued_spaces_bar hk] at hnot
    exact Bool.false_ne_true hnot.symm
  · rintro (rfl | hline)
    · refine ⟨rfl, ?_, ?_⟩
      · rintro rfl
        rfl
      · rintro rfl source row t hraw ht
        exact exists_node_of_bar hraw ht
    · refine ⟨?_, fun h ↦ absurd h hline, fun h ↦ absurd h hline⟩
      by_cases hnil : line = []
      · rw [hnil, List.append_nil, isContinued_spaces, Line.isContinued_nil]
      · rw [← Line.indentRaw_of_ne_nil k hnil, Line.isContinued_indentRaw k hline]

/-- Two spaces before a bar make it a mark, and the bar is lost. The line after it, if it is
continued, is joined to the spaces. -/
theorem not_sameAtDepth_two_bar :
    Line.isContinued "|".toList = false ∧ Line.isContinued "  |".toList = true ∧
      parse "%p\n  |" = parse "%p\n" ∧ logicalLines "  |\na |" = [⟨"a", 2, 1⟩] ∧
      ¬ SameAtDepth 2 "|".toList := by
  have hbar : Line.rawLines "%p\n  |" =
      ["%p".toList] ++ ([List.replicate 2 ' ' ++ ['|']] ++ []) := by decide +kernel
  have hblank : Line.rawLines "%p\n" = ["%p".toList] ++ ([[]] ++ []) := by decide +kernel
  refine ⟨by decide +kernel, by decide +kernel, ?_, by decide +kernel, fun h ↦ ?_⟩
  · exact parse_spaces_bar two_ne_zero hbar hblank (by decide +kernel) (by decide +kernel)
  · exact absurd h.continued (by decide +kernel)

end HamlTree
