import HamlTree.Proofs.LineSequences

/-!
# A source as a block

A source that is moved to the right as a whole (`indentSource`) and put under a line becomes the
block of that line. Moving it does not touch what the lines are made of: a blank line stays blank, a
continued line stays continued (`Line.isContinued_indentRaw`), and the lines after the first of a
run lose their indentation anyway (`Line.Group.text_mapRaws`). Only a bar that stands alone on a
line would be taken for a mark once there are blanks before it. So every logical line keeps its text
and stands further right (`Line.linesFrom_map`), the lines nest as before, and `parse_nested_block`
puts what they nest into under its parent.
-/

namespace HamlTree

open Text

namespace Line

/-! ### Raw lines that are indented -/

/-- A trimmed raw line when it stands further right. Where nothing is on the line, the blanks are
trimmed away. -/
def indentRaw (k : Nat) : List Char → List Char
  | [] => []
  | c :: raw => List.replicate k ' ' ++ c :: raw

@[simp] theorem indentRaw_nil (k : Nat) : indentRaw k [] = [] := rfl

theorem indentRaw_of_ne_nil (k : Nat) {raw : List Char} (h : raw ≠ []) :
    indentRaw k raw = List.replicate k ' ' ++ raw := by
  obtain ⟨c, raw, rfl⟩ := List.exists_cons_of_ne_nil h
  rfl

/-- A line that is indented and then trimmed. -/
theorem trimEnd_spaces (k : Nat) (s : List Char) :
    trimEnd (List.replicate k ' ' ++ s) = indentRaw k (trimEnd s) := by
  by_cases h : trimEnd s = []
  · have hdrop : s.reverse.dropWhile isBlank = [] := by simpa [trimEnd] using h
    have hspaces : (List.replicate k ' ').dropWhile isBlank = [] :=
      List.dropWhile_eq_nil_iff.2 (List.forall_mem_replicate.2 (.inr rfl))
    rw [h, indentRaw_nil, trimEnd, List.reverse_append, List.dropWhile_append,
      if_pos (by simp [hdrop]), List.reverse_replicate, hspaces, List.reverse_nil]
  · rw [trimEnd_append h, indentRaw_of_ne_nil k h]

/-- Trimming at the start takes the indentation away again. -/
@[simp] theorem trimStart_indentRaw (k : Nat) (raw : List Char) :
    trimStart (indentRaw k raw) = trimStart raw := by
  rcases raw with - | ⟨c, raw⟩
  · rfl
  · rw [indentRaw_of_ne_nil k (List.cons_ne_nil c raw), trimStart, trimStart,
      List.dropWhile_append_of_pos (List.forall_mem_replicate.2 (.inr rfl))]

/-- No block signature begins with a space. -/
theorem hasBlockSignature_spaces (k : Nat) (s : List Char) :
    hasBlockSignature (List.replicate k ' ' ++ s) = hasBlockSignature s := by
  induction k with
  | zero => rfl
  | succ k ih =>
    rw [List.replicate_succ, List.cons_append, hasBlockSignature_cons, ih]
    simp [isBlockSignature]

/-- **A line stays continued or not when it is indented**, unless it is nothing but a bar. -/
theorem isContinued_indentRaw (k : Nat) {raw : List Char} (h : raw ≠ ['|']) :
    isContinued (indentRaw k raw) = isContinued raw := by
  rcases List.eq_nil_or_concat raw with rfl | ⟨s, c, rfl⟩
  · rfl
  · rw [List.concat_eq_append] at h ⊢
    rw [indentRaw_of_ne_nil k (by simp), isContinued, isContinued, hasBlockSignature_spaces,
      ← List.append_assoc, List.getLast?_concat, List.getLast?_concat, List.dropLast_concat,
      List.dropLast_concat]
    by_cases hc : c = mark
    · subst hc
      obtain ⟨d, s, rfl⟩ := List.exists_cons_of_ne_nil (l := s) (by rintro rfl; exact h rfl)
      have hends : endsBlank (List.replicate k ' ' ++ d :: s) = endsBlank (d :: s) := by
        simp [endsBlank, List.getLast?_append, List.getLast?_cons]
      rw [hends]
    · simp [beq_false_of_ne hc]

/-- The mark at the end of a line does not depend on its indentation. -/
theorem dropMark_indentRaw (k : Nat) {raw : List Char} (h : raw ≠ []) :
    dropMark (indentRaw k raw) = List.replicate k ' ' ++ dropMark raw := by
  have hlast : (List.replicate k ' ' ++ raw).getLast? = raw.getLast? := by
    rw [List.getLast?_append, List.getLast?_eq_some_getLast h, Option.some_or]
  rw [indentRaw_of_ne_nil k h, dropMark, dropMark, hlast]
  split
  · rw [List.dropLast_append_of_ne_nil h]
  · rfl

/-! ### Groups of lines that are indented -/

/-- The group with each of its raw lines changed. -/
def Group.mapRaws (f : List Char → List Char) : Group → Group
  | single line raw => single line (f raw)
  | joined line first more => joined line (f first) (more.map f)

/-- A run ends where it did. -/
theorem takeWhile_map_isContinued {f : List Char → List Char} {raws : List (List Char)}
    (h : ∀ raw ∈ raws, isContinued (f raw) = isContinued raw) :
    (raws.map f).takeWhile isContinued = (raws.takeWhile isContinued).map f ∧
      (raws.map f).dropWhile isContinued = (raws.dropWhile isContinued).map f := by
  induction raws with
  | nil => exact ⟨rfl, rfl⟩
  | cons raw raws ih =>
    obtain ⟨htake, hdrop⟩ := ih fun x hx ↦ h x (List.mem_cons_of_mem raw hx)
    have hraw := h raw List.mem_cons_self
    rw [List.map_cons, List.takeWhile_cons, List.takeWhile_cons, List.dropWhile_cons,
      List.dropWhile_cons, hraw, htake, hdrop]
    split <;> exact ⟨rfl, rfl⟩

/-- **Lines that stay continued or not are grouped as before.** -/
theorem groups_map {f : List Char → List Char} {raws : List (List Char)} (n : Nat)
    (h : ∀ raw ∈ raws, isContinued (f raw) = isContinued raw) :
    groups n (raws.map f) = (groups n raws).map (Group.mapRaws f) := by
  fun_induction groups n raws with
  | case1 => simp
  | case2 n raw rest hraw run ih =>
    obtain ⟨htake, hdrop⟩ := takeWhile_map_isContinued fun x hx ↦ h x (List.mem_cons_of_mem raw hx)
    have hfirst : isContinued (f raw) = true := (h raw List.mem_cons_self).trans hraw
    have hrest : ∀ x ∈ rest.dropWhile isContinued, isContinued (f x) = isContinued x :=
      fun x hx ↦ h x (List.mem_cons_of_mem raw ((List.dropWhile_suffix _).mem hx))
    rw [List.map_cons, groups_cons_of_continued n _ hfirst, htake, hdrop, List.length_map,
      ih hrest]
    rfl
  | case3 n raw rest hraw ih =>
    have hfirst : isContinued (f raw) = false :=
      (h raw List.mem_cons_self).trans (by simpa using hraw)
    rw [List.map_cons, groups_cons_of_not n _ hfirst,
      ih fun x hx ↦ h x (List.mem_cons_of_mem raw hx)]
    rfl

/-- A group that is a run begins with a continued line. -/
def Group.BeginsRun : Group → Prop
  | single _ _ => True
  | joined _ first _ => isContinued first = true

/-- Raw lines are cut into groups of this kind. -/
theorem beginsRun_of_mem_groups {n : Nat} {g : Group} {raws : List (List Char)}
    (h : g ∈ groups n raws) : g.BeginsRun := by
  fun_induction groups n raws with
  | case1 => simp at h
  | case2 n raw rest hraw run ih =>
    rcases List.mem_cons.1 h with rfl | h
    · exact hraw
    · exact ih h
  | case3 n raw rest hraw ih =>
    rcases List.mem_cons.1 h with rfl | h
    · trivial
    · exact ih h

/-- **The text of a group is indented like its first line**; the other lines of a run have lost
their indentation. -/
theorem Group.text_mapRaws (k : Nat) {g : Group} (h : g.BeginsRun) :
    (g.mapRaws (indentRaw k)).text = indentRaw k g.text := by
  cases g with
  | single => rfl
  | joined line first more =>
    have hne : first ≠ [] := by
      rintro rfl
      exact absurd h (by simp [BeginsRun])
    rw [mapRaws, text, text, dropMark_indentRaw k hne, List.append_assoc, trimEnd_spaces,
      List.flatMap_map]
    simp only [trimStart_indentRaw]

/-! ### Logical lines that are indented -/

/-- A group that is indented is still blank, or its line stands further right. -/
theorem Group.toLogical_mapRaws (k : Nat) {g : Group} (h : g.BeginsRun) :
    (g.mapRaws (indentRaw k)).toLogical.isBlank = g.toLogical.isBlank ∧
      (g.toLogical.isBlank = false →
        (g.mapRaws (indentRaw k)).toLogical = g.toLogical.relocate (k + ·) id) := by
  have hlogical : (g.mapRaws (indentRaw k)).toLogical =
      LogicalLine.ofIndented (indentRaw k g.text) g.line := by
    rw [← text_mapRaws k h]
    cases g <;> rfl
  rw [hlogical]
  by_cases htext : g.text = []
  · have hblank : g.toLogical.isBlank = true := by
      rw [toLogical, htext]
      rfl
    rw [htext, indentRaw_nil, hblank]
    exact ⟨rfl, fun hfalse ↦ absurd hfalse (by simp)⟩
  · rw [indentRaw_of_ne_nil k htext, LogicalLine.ofIndented_spaces_append]
    exact ⟨rfl, fun _ ↦ rfl⟩

/-- **The logical lines of raw lines that are indented** stand further right by so much. -/
theorem linesFrom_map (k n : Nat) {raws : List (List Char)} (h : ['|'] ∉ raws) :
    linesFrom n (raws.map (indentRaw k)) = (linesFrom n raws).map (·.relocate (k + ·) id) := by
  have hkept : (groups n raws).filter
      ((!·.isBlank) ∘ Group.toLogical ∘ Group.mapRaws (indentRaw k)) =
      (groups n raws).filter ((!·.isBlank) ∘ Group.toLogical) :=
    List.filter_congr fun g hg ↦
      congrArg Bool.not (Group.toLogical_mapRaws k (beginsRun_of_mem_groups hg)).1
  rw [linesFrom, groups_map n fun raw hraw ↦ isContinued_indentRaw k fun heq ↦ h (heq ▸ hraw),
    linesFrom, List.map_map, List.filter_map, List.filter_map, List.map_map, hkept]
  refine List.map_congr_left fun g hg ↦ ?_
  obtain ⟨hmem, hblank⟩ := List.mem_filter.1 hg
  exact (Group.toLogical_mapRaws k (beginsRun_of_mem_groups hmem)).2 (by simpa using hblank)

end Line

/-! ### A source under a line -/

/-- The source with so many spaces before each of its raw lines, and a line feed between them. -/
def indentSource (k : Nat) (source : String) : String :=
  .ofList (['\n'].intercalate
    ((Line.splitLines source.toList).map (List.replicate k ' ' ++ ·)))

/-- The raw lines of a source that is indented. -/
theorem rawLines_indentSource (k : Nat) (source : String) :
    Line.rawLines (indentSource k source) = (Line.rawLines source).map (Line.indentRaw k) := by
  have hne : (Line.splitLines source.toList).map (List.replicate k ' ' ++ ·) ≠ [] := by
    simpa using Line.splitLines_ne_nil source.toList
  have hunbroken : ∀ s ∈ (Line.splitLines source.toList).map (List.replicate k ' ' ++ ·),
      ∀ c ∈ s, Line.isLineEnd c = false := by
    intro s hs
    obtain ⟨l, hl, rfl⟩ := List.mem_map.1 hs
    exact List.forall_mem_append.2 ⟨List.forall_mem_replicate.2 (.inr rfl),
      Line.unbroken_of_mem_splitLines hl⟩
  rw [Line.rawLines, indentSource, String.toList_ofList, Line.splitLines_intercalate hne hunbroken,
    Line.rawLines, List.map_map, List.map_map]
  exact List.map_congr_left fun l _ ↦ Line.trimEnd_spaces k l

/-- The logical lines of a source that is indented stand further right by so much. -/
theorem logicalLines_indentSource (k : Nat) {source : String} (h : ['|'] ∉ Line.rawLines source) :
    logicalLines (indentSource k source) =
      (logicalLines source).map (·.relocate (k + ·) id) := by
  have hlines : logicalLines (indentSource k source) =
      Line.linesFrom 1 (Line.rawLines (indentSource k source)) := rfl
  rw [hlines, rawLines_indentSource, Line.linesFrom_map k 1 h]
  rfl

/-- A text without line ends is one raw line. -/
theorem rawLines_of_unbroken {c : String} (h : ∀ x ∈ c.toList, Line.isLineEnd x = false) :
    Line.rawLines c = [trimEnd c.toList] := by
  rw [Line.rawLines, Line.splitLines_of_unbroken h, List.map_singleton]

/-- A line that is a source of one node has one logical line, and it stands for that node. -/
theorem logicalLines_of_parse_singleton {c : String} {n : Node}
    (hunbroken : ∀ x ∈ c.toList, Line.isLineEnd x = false)
    (hcontinued : Line.isContinued (trimEnd c.toList) = false) (h : parse c = .ok ⟨[n]⟩) :
    ∃ l, logicalLines c = [l] ∧ l.indent = 0 ∧ l.toNode.result = .ok n := by
  have hlines : logicalLines c =
      [(Line.Group.single 1 (trimEnd c.toList)).toLogical].filter (!·.isBlank) := by
    rw [logicalLines, lineGroups, rawLines_of_unbroken hunbroken,
      Line.groups_cons_of_not 1 [] hcontinued, Line.groups_nil, List.map_singleton]
  have hnests : Nests "" 0 (logicalLines c) [n] := parse_eq_ok_iff.1 h
  have hne : logicalLines c ≠ [] := fun hnil ↦ absurd (hnests.eq_nil_iff.1 hnil) (by simp)
  have hlength : (logicalLines c).length ≤ 1 := hlines ▸ List.length_filter_le _ _
  obtain ⟨l, hl⟩ := List.length_eq_one_iff.1
    (Nat.le_antisymm hlength (List.length_pos_iff.2 hne))
  exact ⟨l, hl, (hl ▸ hnests).of_singleton⟩

/-- **A source under a line is the block of that line.** Let a line that is not continued be a
source of one node, which can have children, and let another source be accepted, no raw line of
which is a bar alone. When the second source is put under the line, with the same number of spaces
before each of its raw lines, the node has its nodes as children and is otherwise the same. That the
line is not indented need not be said: it would not be a source by itself. -/
theorem parse_nested_block {c b : String} {n : Node} {t : Template} {k : Nat}
    (hunbroken : ∀ x ∈ c.toList, Line.isLineEnd x = false)
    (hcontinued : Line.isContinued (trimEnd c.toList) = false)
    (hc : parse c = .ok ⟨[n]⟩) (hopen : n.children?.isSome)
    (hb : parse b = .ok t) (hbar : ['|'] ∉ Line.rawLines b) (hk : 0 < k) :
    parse (c ++ "\n" ++ indentSource k b) = .ok ⟨[n.modifyChildren fun _ ↦ t.nodes]⟩ := by
  obtain ⟨l, hl, hmargin, hnode⟩ := logicalLines_of_parse_singleton hunbroken hcontinued hc
  have hraws := rawLines_of_unbroken hunbroken
  have hlast : c.toList.getLast? ≠ some '\r' :=
    fun h ↦ absurd (hunbroken _ (List.mem_of_getLast? h)) (by decide)
  have hseam : Line.Seam (Line.rawLines c) (Line.rawLines (indentSource k b)) := by
    rw [hraws]
    exact fun h ↦ absurd h.1 (by simp [hcontinued])
  have hlines : logicalLines (c ++ "\n" ++ indentSource k b) =
      l :: (logicalLines b).map (·.relocate (k + ·) (· + 1)) := by
    rw [logicalLines_append hlast hseam, hl, logicalLines_indentSource k hbar, hraws,
      List.map_map]
    rfl
  -- the lines of the second source nest as before, and the line above them has them as its block
  have hcolumn : StrictMono (k + ·) := fun _ _ hlt ↦ Nat.add_lt_add_left hlt k
  have hinner := (parse_eq_ok_iff.1 hb).relocate (· + 1) hcolumn
  have hblock := hinner.block hnode fun _ ↦ ⟨by omega, hopen⟩
  rw [hmargin, continuesBlock_empty, Node.enclose_false (LogicalLine.bare_of_toNode hnode)]
    at hblock
  rw [parse_eq_ok_iff, hlines]
  exact hblock

/-- A loop around a conditional: the bar that closes its parameters is not a mark, and the run and
the blank line in the block are what they were without the spaces. -/
theorem parse_nested_block_each :
    parse ("- rows.each do | row |" ++ "\n" ++
        indentSource 3 "- if a\n  b |\n    c |\n\n- else\n  d") =
      .ok ⟨[.script .silent "rows.each do | row |" false
        [.script .silent "if a" true [.leaf .plainText "b c"],
          .script .silent "else" false [.leaf .plainText "d"]]]⟩ := by
  have hc : parse "- rows.each do | row |" =
      .ok ⟨[.script .silent "rows.each do | row |" false []]⟩ := by decide +kernel
  have hb : parse "- if a\n  b |\n    c |\n\n- else\n  d" =
      .ok ⟨[.script .silent "if a" true [.leaf .plainText "b c"],
        .script .silent "else" false [.leaf .plainText "d"]]⟩ := by decide +kernel
  have hunbroken : ∀ x ∈ "- rows.each do | row |".toList, Line.isLineEnd x = false := by
    simp [Line.isLineEnd]
  exact parse_nested_block hunbroken (by decide +kernel) hc rfl hb (by decide +kernel) (by decide)

end HamlTree
