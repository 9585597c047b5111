import Mathlib.Algebra.BigOperators.Intervals
import HamlTree.Proofs.FoldedLines
import HamlTree.Proofs.LineEndings

/-!
# Blank lines

Blank lines can stand before, between and after the lines of a source (`Line.withGaps`). A blank
line is a group of its own without any text, so no logical line comes from it; it could only take a
run of continued lines apart, and where no two lines of a run are parted, the logical lines are the
same and have moved down by the gaps before them (`Line.linesFrom_withGaps`). To a parse this is
nothing, but for the number of the line in an error, which is the new number of the old line.
-/

namespace HamlTree

open Text

namespace Line

/-! ### Lines with gaps -/

/-- Raw lines with others before, between and after them: the gap `gap (k + i)` stands before the
line with index `i`, and one more after the last line. -/
def withGaps (gap : Nat → List (List Char)) (k : Nat) : List (List Char) → List (List Char)
  | [] => gap k
  | raw :: raws => gap k ++ raw :: withGaps gap (k + 1) raws

/-- The number that the line with number `n` has after gaps were put in: it has moved down by the
gaps before it, from the index `k` on. -/
def numberWithGaps (gap : Nat → List (List Char)) (k n : Nat) : Nat :=
  n + ∑ j ∈ Finset.Ico k n, (gap j).length

variable {gap : Nat → List (List Char)}

/-- The line with number `n` has the index `n - 1`, so the gap `k` only moves it when it is not one
of the first `k` lines. -/
theorem numberWithGaps_eq (gap : Nat → List (List Char)) (k n : Nat) :
    numberWithGaps gap k n =
      if numberWithGaps gap (k + 1) n ≤ k then numberWithGaps gap (k + 1) n
      else numberWithGaps gap (k + 1) n + (gap k).length := by
  rw [numberWithGaps, numberWithGaps]
  by_cases hle : n ≤ k
  · rw [Finset.Ico_eq_empty_of_le (Nat.le_succ_of_le hle), Finset.Ico_eq_empty_of_le hle,
      Finset.sum_empty, Nat.add_zero, if_pos hle]
  · rw [if_neg (by omega), Finset.sum_eq_sum_Ico_succ_bot (Nat.lt_of_not_le hle)]
    omega

/-- What is done to each line is done to the lines and to the gaps. -/
theorem map_withGaps (f : List Char → List Char) (gap : Nat → List (List Char)) (k : Nat)
    (raws : List (List Char)) :
    (withGaps gap k raws).map f = withGaps (fun j ↦ (gap j).map f) k (raws.map f) := by
  induction raws generalizing k with
  | nil => rfl
  | cons raw raws ih =>
    rw [withGaps, List.map_append, List.map_cons, ih (k + 1), List.map_cons, withGaps]

/-- Each line is found again below the gaps before it. -/
theorem getElem?_withGaps {raws : List (List Char)} {i : Nat} (hi : i < raws.length) (k : Nat) :
    (withGaps gap k raws)[i + ∑ j ∈ Finset.Ico k (k + i + 1), (gap j).length]? = raws[i]? := by
  induction raws generalizing k i with
  | nil => exact absurd hi (Nat.not_lt_zero i)
  | cons raw raws ih =>
    rw [withGaps, Finset.sum_eq_sum_Ico_succ_bot (show k < k + i + 1 by omega)]
    rcases i with - | i
    · simp
    · have hindex : i + 1 + ((gap k).length +
          ∑ j ∈ Finset.Ico (k + 1) (k + (i + 1) + 1), (gap j).length) = (gap k).length +
          (i + ∑ j ∈ Finset.Ico (k + 1) (k + 1 + i + 1), (gap j).length + 1) := by
        rw [show k + (i + 1) + 1 = k + 1 + i + 1 by omega]
        omega
      rw [hindex, List.getElem?_append_right (Nat.le_add_right _ _), Nat.add_sub_cancel_left,
        List.getElem?_cons_succ, List.getElem?_cons_succ]
      exact ih (Nat.lt_of_succ_lt_succ hi) (k + 1)

/-- **The new number of a line is its number.** -/
theorem getElem?_withGaps_number {raws : List (List Char)} {n : Nat} (hpos : 0 < n)
    (hn : n ≤ raws.length) :
    (withGaps gap 0 raws)[numberWithGaps gap 0 n - 1]? = raws[n - 1]? := by
  obtain ⟨i, rfl⟩ := Nat.exists_eq_succ_of_ne_zero hpos.ne'
  have hindex : numberWithGaps gap 0 (i + 1) - 1 =
      i + ∑ j ∈ Finset.Ico 0 (0 + i + 1), (gap j).length := by
    rw [numberWithGaps, Nat.zero_add]
    omega
  rw [Nat.succ_eq_add_one, hindex, getElem?_withGaps (by omega) 0, Nat.add_sub_cancel]

/-! ### Logical lines -/

/-- No logical line comes from lines without text. -/
theorem linesFrom_eq_nil {raws : List (List Char)} (h : ∀ raw ∈ raws, raw = []) (n : Nat) :
    linesFrom n raws = [] := by
  have hcontinued : ∀ raw ∈ raws, isContinued raw = false := fun raw hraw ↦ by
    rw [h raw hraw, isContinued_nil]
  rw [linesFrom, groups_eq_map n hcontinued, List.filter_eq_nil_iff]
  intro l hl
  obtain ⟨g, hg, rfl⟩ := List.mem_map.1 hl
  obtain ⟨p, hp, rfl⟩ := List.mem_map.1 hg
  have hraw : p.1 = [] := h _ (List.fst_mem_of_mem_zipIdx hp)
  simp [Group.toLogical, hraw, LogicalLine.ofIndented, LogicalLine.isBlank]

/-- Lines without text part no run, wherever they stand. -/
theorem seam_of_eq_nil {raws : List (List Char)} (h : ∀ raw ∈ raws, raw = [])
    (after : List (List Char)) : Seam raws after := by
  rintro ⟨hlast, -⟩
  obtain ⟨raw, hraw, hcontinued⟩ := (Option.any_eq_true _ _).1 hlast
  rw [h raw (List.mem_of_getLast? hraw), isContinued_nil] at hcontinued
  exact Bool.false_ne_true hcontinued

/-- **One gap moves down the lines after it**, if it parts no run. -/
theorem linesFrom_gap {before blanks after : List (List Char)} (hblanks : ∀ raw ∈ blanks, raw = [])
    (hseam : blanks ≠ [] → Seam before after) :
    linesFrom 1 (before ++ (blanks ++ after)) =
      (linesFrom 1 (before ++ after)).map (·.relocate id fun n ↦
        if n ≤ before.length then n else n + blanks.length) := by
  by_cases hne : blanks = []
  · subst hne
    exact (map_relocate_eq_self fun l _ ↦ ite_self l.line).symm
  · have hbefore : Seam before (blanks ++ after) := by
      obtain ⟨raw, more, rfl⟩ := List.exists_cons_of_ne_nil hne
      rw [hblanks raw List.mem_cons_self]
      exact fun h ↦ Bool.false_ne_true h.2
    have hnone : ∀ n, linesFrom n blanks = linesFrom n [] := fun n ↦ by
      rw [linesFrom_eq_nil hblanks, linesFrom_eq_nil (List.forall_mem_nil _)]
    have hreplace := linesFrom_replace (hseam hne) (seam_of_eq_nil (List.forall_mem_nil _) after)
      hbefore (seam_of_eq_nil hblanks after) (hnone (1 + before.length))
      (Nat.zero_add blanks.length).symm
    simpa only [List.nil_append, List.length_nil, Nat.add_zero, Nat.add_comm 1,
      Nat.lt_succ_iff] using hreplace

/-- No gap stands between two continued lines. -/
def Apart (gap : Nat → List (List Char)) (raws : List (List Char)) : Prop :=
  ∀ k x y, raws[k]? = some x → raws[k + 1]? = some y → isContinued x = true →
    isContinued y = true → gap (k + 1) = []

/-- So where a gap stands there is a seam. -/
theorem Apart.seam {before raws : List (List Char)} (h : Apart gap (before ++ raws))
    (hne : gap before.length ≠ []) : Seam before raws := by
  rintro ⟨hlast, hhead⟩
  obtain ⟨x, hx, hcontinued⟩ := (Option.any_eq_true _ _).1 hlast
  obtain ⟨y, hy, hcontinued'⟩ := (Option.any_eq_true _ _).1 hhead
  obtain ⟨before, rfl⟩ := List.getLast?_eq_some_iff.1 hx
  obtain ⟨raws, rfl⟩ := List.head?_eq_some_iff.1 hy
  rw [List.length_append, List.length_singleton] at hne
  exact hne (h before.length x y (by simp) (by simp) hcontinued hcontinued')

/-- **Gaps only move the logical lines down**, each by the gaps before it, if no gap stands between
two continued lines. -/
theorem linesFrom_withGaps {before raws : List (List Char)}
    (hgap : ∀ k, ∀ raw ∈ gap k, raw = []) (hapart : Apart gap (before ++ raws)) :
    linesFrom 1 (before ++ withGaps gap before.length raws) =
      (linesFrom 1 (before ++ raws)).map (·.relocate id (numberWithGaps gap before.length)) := by
  -- the gaps are put in from the last to the first
  induction raws generalizing before with
  | nil =>
    rw [withGaps, ← List.append_nil (gap before.length),
      linesFrom_gap (hgap before.length) hapart.seam]
    refine map_relocate_congr fun l hl ↦ ?_
    have hle : l.line ≤ before.length := by
      have hlt := (bounds_of_mem_linesFrom hl).2
      rw [List.append_nil] at hlt
      omega
    rw [if_pos hle, numberWithGaps, Finset.Ico_eq_empty_of_le hle, Finset.sum_empty, Nat.add_zero]
  | cons raw raws ih =>
    have hmoved : before ++ raw :: raws = before ++ [raw] ++ raws := by
      rw [List.append_assoc, List.singleton_append]
    have hrest := ih (hmoved ▸ hapart)
    rw [List.append_assoc, List.append_assoc, List.length_append, List.length_singleton] at hrest
    have hseam : gap before.length ≠ [] →
        Seam before (raw :: withGaps gap (before.length + 1) raws) := hapart.seam
    rw [withGaps, linesFrom_gap (hgap before.length) hseam]
    show (linesFrom 1 (before ++ ([raw] ++ withGaps gap (before.length + 1) raws))).map _ =
      (linesFrom 1 (before ++ ([raw] ++ raws))).map _
    rw [hrest, List.map_map]
    refine List.map_congr_left fun l _ ↦ ?_
    exact congrArg (LogicalLine.mk l.text l.indent) (numberWithGaps_eq gap _ l.line).symm

end Line

/-- **The logical lines of a source with blank lines put in.** -/
theorem logicalLines_withGaps {s s' : String} {gap : Nat → List (List Char)}
    (hs' : Line.splitLines s'.toList = Line.withGaps gap 0 (Line.splitLines s.toList))
    (hblank : ∀ k, ∀ raw ∈ gap k, ∀ c ∈ raw, isBlank c = true)
    (hapart : Line.Apart gap (Line.rawLines s)) :
    logicalLines s' = (logicalLines s).map (·.relocate id (Line.numberWithGaps gap 0)) := by
  have hraws : Line.rawLines s' =
      Line.withGaps (fun k ↦ (gap k).map trimEnd) 0 (Line.rawLines s) := by
    rw [Line.rawLines, hs', Line.map_withGaps]
    rfl
  have htrimmed : ∀ k, ∀ raw ∈ (gap k).map trimEnd, raw = [] := by
    intro k raw hraw
    obtain ⟨raw, hmem, rfl⟩ := List.mem_map.1 hraw
    exact trimEnd_append_blanks [] (hblank k raw hmem)
  have hapart' : Line.Apart (fun k ↦ (gap k).map trimEnd) ([] ++ Line.rawLines s) :=
    fun k x y hx hy hxc hyc ↦ List.map_eq_nil_iff.2 (hapart k x y hx hy hxc hyc)
  show Line.linesFrom 1 (Line.rawLines s') = (Line.linesFrom 1 ([] ++ Line.rawLines s)).map _
  rw [hraws]
  refine (Line.linesFrom_withGaps htrimmed hapart').trans (map_relocate_congr fun l _ ↦ ?_)
  exact congrArg (l.line + ·) (Finset.sum_congr rfl fun j _ ↦ List.length_map trimEnd)

/-- **Blank lines never change the parse.** Let blank lines be put before, between and after the
lines of a source, but not between two continued lines. The new source is accepted when the old one
is, with the same template. Otherwise it is refused for the same fault, in the line that the fault
was in before. -/
theorem parse_withGaps {s s' : String} {gap : Nat → List (List Char)}
    (hs' : Line.splitLines s'.toList = Line.withGaps gap 0 (Line.splitLines s.toList))
    (hblank : ∀ k, ∀ raw ∈ gap k, ∀ c ∈ raw, isBlank c = true)
    (hapart : Line.Apart gap (Line.rawLines s)) :
    (∀ t, parse s = .ok t → parse s' = .ok t) ∧
    ∀ e, parse s = .error e →
      parse s' = .error ⟨e.fault, Line.numberWithGaps gap 0 e.line⟩ ∧
      ∃ raw, (Line.splitLines s.toList)[e.line - 1]? = some raw ∧
        (Line.splitLines s'.toList)[Line.numberWithGaps gap 0 e.line - 1]? = some raw := by
  have hparse := parse_relocate strictMono_id rfl (logicalLines_withGaps hs' hblank hapart)
  refine ⟨fun t ht ↦ by rw [hparse, ht]; rfl, fun e he ↦ ⟨?_, ?_⟩⟩
  · rw [hparse, he, Except.mapError, ParseError.relocate, Fault.relocate_id]
  · obtain ⟨before, l, after, hlines, -, herror⟩ := parse_eq_error_iff.1 he
    have hmem : l ∈ Line.linesFrom 1 (Line.rawLines s) := by
      show l ∈ logicalLines s
      rw [hlines]
      exact List.mem_append_right before List.mem_cons_self
    obtain ⟨hpos, hlt⟩ := Line.bounds_of_mem_linesFrom hmem
    rw [Line.rawLines, List.length_map, Nat.add_comm, Nat.lt_succ_iff,
      ← herror.explains.line] at hlt
    rw [← herror.explains.line] at hpos
    rw [hs', Line.getElem?_withGaps_number hpos hlt]
    exact ⟨_, List.getElem?_eq_getElem (by omega), List.getElem?_eq_getElem (by omega)⟩

/-- A gap above the lines and one above `- else`, which a continued line follows. The block below it
is still closed by `- else`, and an error is found two and one rows further down. -/
theorem parse_withGaps_else :
    parse "   \n- if a\n  b\n\n\t\n- else\n  = f(c, |\n  d) |" =
        .ok ⟨[.script .silent "if a" true [.leaf .plainText "b"],
          .script .silent "else" false [.script .output "f(c, d)" false []]]⟩ ∧
      parse "   \n- if a\n  b\n\n\t\n- else\n  / c\n    d" =
        .error ⟨.illegalNesting (.leaf .comment), 8⟩ := by
  let gap : Nat → List (List Char) := fun k ↦
    if k = 0 then ["   ".toList] else if k = 2 then [[], ['\t']] else []
  have hblank : ∀ k, ∀ raw ∈ gap k, ∀ c ∈ raw, isBlank c = true := by
    rintro (- | - | - | k)
    · exact List.forall_mem_singleton.2 (List.forall_iff_forall_mem.1 (by decide))
    · exact List.forall_mem_nil _
    · exact List.forall_mem_cons.2 ⟨List.forall_mem_nil _,
        List.forall_mem_singleton.2 (List.forall_mem_singleton.2 (by decide))⟩
    · exact List.forall_mem_nil _
  have hapart : ∀ {raws : List (List Char)},
      raws[1]?.any Line.isContinued = false → Line.Apart gap raws := by
    intro raws hb k x y hx _ hxc _
    rcases k with - | - | k
    · rfl
    · rw [hx] at hb
      exact absurd (hxc.symm.trans hb) (by simp)
    · rfl
  have hok : parse "- if a\n  b\n- else\n  = f(c, |\n  d) |" =
      .ok ⟨[.script .silent "if a" true [.leaf .plainText "b"],
        .script .silent "else" false [.script .output "f(c, d)" false []]]⟩ := by decide +kernel
  have herror : parse "- if a\n  b\n- else\n  / c\n    d" =
      .error ⟨.illegalNesting (.leaf .comment), 5⟩ := by decide +kernel
  constructor
  · exact (parse_withGaps (by decide +kernel) hblank (hapart (by decide +kernel))).1 _ hok
  · exact ((parse_withGaps (by decide +kernel) hblank (hapart (by decide +kernel))).2 _ herror).1

end HamlTree
