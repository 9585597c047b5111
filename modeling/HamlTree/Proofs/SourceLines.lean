import Mathlib.Data.List.TakeWhile
import HamlTree.Line.Logical

/-!
# From sources to lines and back

What reaches a logical line is *tidy*: no line end is left in it, and no blank at its end
(`Line.Tidy`). Such a text, if it is not empty and not indented, can stand on a line of its own
(`Line.Clean`), and every logical line is of this kind (`clean_of_mem_logicalLines`).

In the other direction, a source that is put together from lines that are not continued has one
logical line for each of them (`logicalLines_intercalate`).
-/

namespace HamlTree

open Text

namespace Text

/-! ### Blanks at the end -/

/-- A text without a blank at its end is left alone. -/
theorem trimEnd_eq_self {s : List Char} (h : endsBlank s = false) : trimEnd s = s := by
  rcases List.eq_nil_or_concat s with rfl | ⟨s, c, rfl⟩
  · rfl
  · have hc : isBlank c = false := by simpa [endsBlank] using h
    simp [trimEnd, hc]

/-- Trimming does not reach what stands before a text that is not blank. -/
theorem trimEnd_append {s : List Char} (h : trimEnd s ≠ []) (before : List Char) :
    trimEnd (before ++ s) = before ++ trimEnd s := by
  have hdrop : s.reverse.dropWhile isBlank ≠ [] := fun hnil ↦ h (by rw [trimEnd, hnil]; rfl)
  rw [trimEnd, trimEnd, List.reverse_append, List.dropWhile_append,
    if_neg (by simpa using hdrop), List.reverse_append, List.reverse_reverse]

/-- Where two texts meet does not matter for the end. -/
theorem endsBlank_append {s t : List Char} (hs : endsBlank s = false) (ht : endsBlank t = false) :
    endsBlank (s ++ t) = false := by
  rcases List.eq_nil_or_concat t with rfl | ⟨t, c, rfl⟩
  · rwa [List.append_nil]
  · simpa [endsBlank, ← List.append_assoc] using ht

/-- An end of a text ends like the text. -/
theorem endsBlank_of_suffix {s t : List Char} (h : t <:+ s) (hs : endsBlank s = false) :
    endsBlank t = false := by
  obtain ⟨before, rfl⟩ := h
  rcases List.eq_nil_or_concat t with rfl | ⟨t, c, rfl⟩
  · rfl
  · simpa [endsBlank, ← List.append_assoc] using hs

end Text

namespace Line

/-! ### Texts of lines -/

/-- A text without line ends and without a blank at its end. -/
structure Tidy (s : List Char) : Prop where
  /-- No character ends a line. -/
  unbroken : ∀ c ∈ s, isLineEnd c = false
  /-- The last character is no blank. -/
  ends : endsBlank s = false

/-- A text that can stand on a line of its own. -/
structure Clean (s : List Char) : Prop extends Tidy s where
  /-- There is something on the line, -/
  ne_nil : s ≠ []
  /-- and its indentation has been taken off. -/
  unindented : s.head? ≠ some ' '

namespace Tidy

theorem nil : Tidy [] := ⟨by simp, rfl⟩

theorem append {s t : List Char} (hs : Tidy s) (ht : Tidy t) : Tidy (s ++ t) where
  unbroken c hc := (List.mem_append.1 hc).elim (hs.unbroken c) (ht.unbroken c)
  ends := endsBlank_append hs.ends ht.ends

theorem of_suffix {s t : List Char} (hs : Tidy s) (h : t <:+ s) : Tidy t where
  unbroken c hc := hs.unbroken c (h.mem hc)
  ends := endsBlank_of_suffix h hs.ends

/-- A text without line ends is tidy once it is trimmed. -/
theorem trimEnd {s : List Char} (h : ∀ c ∈ s, isLineEnd c = false) : Tidy (trimEnd s) where
  unbroken c hc := by
    have hsub := trimEnd_prefix s
    exact h c (hsub.mem hc)
  ends := endsBlank_trimEnd s

end Tidy

/-! ### The lines of a source -/

/-- The lines of a text have no line ends. -/
theorem unbroken_of_mem_splitLines {s l : List Char} (h : l ∈ splitLines s) :
    ∀ c ∈ l, isLineEnd c = false := by
  have htake : ∀ s : List Char, ∀ c ∈ s.takeWhile (!isLineEnd ·), isLineEnd c = false :=
    fun s c hc ↦ by simpa using List.mem_takeWhile_imp hc
  fun_induction splitLines s with
  | case1 s hs =>
    obtain rfl := List.mem_singleton.1 h
    intro c hc
    simpa using List.dropWhile_eq_nil_iff.1 hs c hc
  | case2 s rest hs ih | case3 s c rest hs hne ih =>
    rcases List.mem_cons.1 h with rfl | h
    · exact htake s
    · exact ih h

/-- The raw lines of a group. -/
def Group.raws : Group → List (List Char)
  | single _ raw => [raw]
  | joined _ first more => first :: more

/-- **Every raw line is in one group**, and the groups keep their order. -/
theorem flatMap_raws_groups (n : Nat) (raws : List (List Char)) :
    (groups n raws).flatMap Group.raws = raws := by
  fun_induction groups n raws with
  | case1 => rfl
  | case2 n raw rest hraw more ih =>
    rw [List.flatMap_cons, ih, Group.raws, List.cons_append, List.takeWhile_append_dropWhile]
  | case3 n raw rest hraw ih => rw [List.flatMap_cons, ih, Group.raws, List.singleton_append]

/-- Without its mark a line has no other characters than before. -/
theorem mem_of_mem_dropMark {s : List Char} {c : Char} (h : c ∈ dropMark s) : c ∈ s := by
  rw [dropMark] at h
  split at h
  · exact (List.dropLast_prefix s).mem h
  · exact h

/-- The text of a group of tidy lines is tidy. -/
theorem Group.tidy_text {g : Group} (h : ∀ raw ∈ g.raws, Tidy raw) : Tidy g.text := by
  cases g with
  | single n raw => exact h raw List.mem_cons_self
  | joined n first more =>
    refine .trimEnd fun c hc ↦ ?_
    rcases List.mem_append.1 hc with hc | hc
    · exact (h first List.mem_cons_self).unbroken c (mem_of_mem_dropMark hc)
    · obtain ⟨raw, hraw, hc⟩ := List.mem_flatMap.1 hc
      have hmem := (trimStart_suffix raw).mem (mem_of_mem_dropMark hc)
      exact (h raw (List.mem_cons_of_mem first hraw)).unbroken c hmem

/-- The text of every group of a source is tidy. -/
theorem Group.tidy_text_of_mem {source : String} {g : Group} (h : g ∈ lineGroups source) :
    Tidy g.text := by
  refine tidy_text fun raw hraw ↦ ?_
  have hmem : raw ∈ rawLines source := by
    rw [← flatMap_raws_groups 1 (rawLines source)]
    exact List.mem_flatMap.2 ⟨g, h, hraw⟩
  obtain ⟨s, hs, rfl⟩ := List.mem_map.1 hmem
  exact .trimEnd (unbroken_of_mem_splitLines hs)

end Line

/-- **The text of a logical line can stand on a line of its own.** -/
theorem clean_of_mem_logicalLines {source : String} {l : LogicalLine}
    (h : l ∈ logicalLines source) : Line.Clean l.text.toList := by
  obtain ⟨hmem, hblank⟩ := List.mem_filter.1 h
  obtain ⟨g, hg, rfl⟩ := List.mem_map.1 hmem
  have htidy : Line.Tidy g.text := Line.Group.tidy_text_of_mem hg
  have htext : (Line.Group.toLogical g).text.toList = g.text.dropWhile (· == ' ') := by
    simp [Line.Group.toLogical, LogicalLine.ofIndented]
  refine ⟨?_, fun hnil ↦ ?_, ?_⟩
  · rw [htext]
    exact htidy.of_suffix (List.dropWhile_suffix _)
  · simp [LogicalLine.isBlank, String.toList_eq_nil_iff.1 hnil] at hblank
  · rw [htext]
    intro hhead
    have := List.head?_dropWhile_not (· == ' ') g.text
    simp [hhead] at this

/-! ### A source made of lines -/

namespace Line

/-- A text without line ends is one line, -/
theorem splitLines_of_unbroken {s : List Char} (h : ∀ c ∈ s, isLineEnd c = false) :
    splitLines s = [s] := by
  have hdrop : s.dropWhile (!isLineEnd ·) = [] :=
    List.dropWhile_eq_nil_iff.2 fun c hc ↦ by simp [h c hc]
  rw [splitLines]
  split
  · rfl
  · next hs => simp [hdrop] at hs
  · next hs => simp [hdrop] at hs

/-- and a line feed ends it. -/
theorem splitLines_append {s : List Char} (h : ∀ c ∈ s, isLineEnd c = false) (rest : List Char) :
    splitLines (s ++ '\n' :: rest) = s :: splitLines rest := by
  have hnot : ∀ c ∈ s, (!isLineEnd c) = true := fun c hc ↦ by simp [h c hc]
  have hdrop : (s ++ '\n' :: rest).dropWhile (!isLineEnd ·) = '\n' :: rest := by
    rw [List.dropWhile_append_of_pos hnot]
    rfl
  have htake : (s ++ '\n' :: rest).takeWhile (!isLineEnd ·) = s := by
    rw [List.takeWhile_append_of_pos hnot]
    exact List.append_nil s
  rw [splitLines]
  split
  · next hs => simp [hdrop] at hs
  · next hs => simp [hdrop] at hs
  · next hs =>
    rw [hdrop] at hs
    rw [htake, (List.cons.inj hs).2]

/-- **Lines that are put together are the lines of the result.** -/
theorem splitLines_intercalate {lines : List (List Char)} (hne : lines ≠ [])
    (h : ∀ s ∈ lines, ∀ c ∈ s, isLineEnd c = false) :
    splitLines (['\n'].intercalate lines) = lines := by
  induction lines with
  | nil => exact absurd rfl hne
  | cons s lines ih =>
    have hs := h s List.mem_cons_self
    rcases lines with - | ⟨t, lines⟩
    · rw [List.intercalate_singleton]
      exact splitLines_of_unbroken hs
    · rw [List.intercalate_cons_cons, List.append_assoc, List.singleton_append,
        splitLines_append hs, ih (by simp) fun x hx ↦ h x (List.mem_cons_of_mem s hx)]

/-- Lines that are not continued are groups of their own. -/
theorem groups_eq_map {raws : List (List Char)} (n : Nat)
    (h : ∀ raw ∈ raws, isContinued raw = false) :
    groups n raws = (raws.zipIdx n).map fun p ↦ .single p.2 p.1 := by
  induction raws generalizing n with
  | nil => simp
  | cons raw raws ih =>
    rw [groups_cons_of_not n raws (h raw List.mem_cons_self),
      ih (n + 1) fun x hx ↦ h x (List.mem_cons_of_mem raw hx)]
    rfl

end Line

/-- **A source made of lines that are not continued** has a logical line for each that is not
blank. -/
theorem logicalLines_intercalate {lines : List (List Char)}
    (hunbroken : ∀ s ∈ lines, ∀ c ∈ s, Line.isLineEnd c = false)
    (hcontinued : ∀ s ∈ lines, Line.isContinued (trimEnd s) = false) :
    logicalLines (String.ofList (['\n'].intercalate lines)) =
      ((lines.zipIdx 1).map fun p ↦ LogicalLine.ofIndented (trimEnd p.1) p.2).filter
        (!·.isBlank) := by
  by_cases hne : lines = []
  · subst hne
    decide +kernel
  · have hraws : Line.rawLines (String.ofList (['\n'].intercalate lines)) = lines.map trimEnd := by
      rw [Line.rawLines, String.toList_ofList, Line.splitLines_intercalate hne hunbroken]
    rw [logicalLines, lineGroups, hraws, Line.groups_eq_map 1 (by simpa using hcontinued),
      List.zipIdx_map, List.map_map, List.map_map]
    rfl

/-- Spaces before a text indent it further. -/
theorem LogicalLine.ofIndented_spaces_append (k : Nat) (s : List Char) (line : Nat) :
    ofIndented (List.replicate k ' ' ++ s) line =
      ⟨(ofIndented s line).text, k + (ofIndented s line).indent, line⟩ := by
  have hspaces : ∀ c ∈ List.replicate k ' ', (c == ' ') = true :=
    List.forall_mem_replicate.2 (.inr rfl)
  rw [ofIndented, List.dropWhile_append_of_pos hspaces, List.takeWhile_append_of_pos hspaces,
    List.length_append, List.length_replicate]
  rfl

/-- A text after spaces is a line that is indented by them. -/
theorem LogicalLine.ofIndented_spaces {s : List Char} (h : s.head? ≠ some ' ') (width line : Nat) :
    ofIndented (List.replicate width ' ' ++ s) line = ⟨String.ofList s, width, line⟩ := by
  have hs : s.takeWhile (· == ' ') = [] ∧ s.dropWhile (· == ' ') = s := by
    rcases s with - | ⟨c, s⟩
    · simp
    · have hc : (c == ' ') = false := by simpa using h
      simp [hc]
  rw [ofIndented_spaces_append, ofIndented, hs.1, hs.2, List.length_nil, Nat.add_zero]

end HamlTree
