import HamlTree.Proofs.ContinuedRuns
import HamlTree.Proofs.WidthOrder

/-!
# Folding a line

A long line can be folded (`Line.FoldsInto`): it is cut into pieces, each at a blank, and each piece
gets a mark and a line of its own. The pieces make up one run of continued lines, unless the line
before them or the line after them is continued as well, and the text of the run is the line
(`Line.text_folded`). So folding changes no logical line; those that come later have moved down
(`logicalLines_fold`). A parse sees nothing of it but the numbers of the lines.
-/

namespace HamlTree

open Text

/-! ### Lines that stay in their rows -/

/-- Only the rows of the lines matter to where they move. -/
theorem map_relocate_congr {row row' : Nat → Nat} {lines : List LogicalLine}
    (h : ∀ l ∈ lines, row l.line = row' l.line) :
    lines.map (·.relocate id row) = lines.map (·.relocate id row') :=
  List.map_congr_left fun l hl ↦ by rw [LogicalLine.relocate, h l hl, LogicalLine.relocate]

/-- Lines whose rows stay are the same. -/
theorem map_relocate_eq_self {row : Nat → Nat} {lines : List LogicalLine}
    (h : ∀ l ∈ lines, row l.line = l.line) : lines.map (·.relocate id row) = lines := by
  have hsame : ∀ l ∈ lines, l.relocate id row = l := fun l hl ↦ by
    rw [LogicalLine.relocate, h l hl]
    rfl
  exact (List.map_congr_left hsame).trans (List.map_id' lines)

namespace Line

/-- The numbers of logical lines are numbers of raw lines. -/
theorem bounds_of_mem_linesFrom {n : Nat} {raws : List (List Char)} {l : LogicalLine}
    (h : l ∈ linesFrom n raws) : n ≤ l.line ∧ l.line < n + raws.length := by
  obtain ⟨g, hg, rfl⟩ := List.mem_map.1 (List.mem_filter.1 h).1
  obtain ⟨hle, hlt⟩ := bounds_of_mem_groups hg
  have hpos := g.length_raws_pos
  rw [Group.toLogical, LogicalLine.line_ofIndented]
  omega

/-- **Raw lines in place of others** that stand for the same logical lines: those that come later
move down, by as many rows as there are more of them. -/
theorem linesFrom_replace {before raws raws' after : List (List Char)} {n rows : Nat}
    (hbefore : Seam before (raws ++ after)) (hafter : Seam raws after)
    (hbefore' : Seam before (raws' ++ after)) (hafter' : Seam raws' after)
    (hsame : linesFrom (n + before.length) raws' = linesFrom (n + before.length) raws)
    (hlength : raws'.length = raws.length + rows) :
    linesFrom n (before ++ (raws' ++ after)) =
      (linesFrom n (before ++ (raws ++ after))).map (·.relocate id fun row ↦
        if row < n + before.length + raws.length then row else row + rows) := by
  have hshift := linesFrom_add (n + before.length + raws.length) rows after
  rw [linesFrom_append n hbefore, linesFrom_append _ hafter, linesFrom_append n hbefore',
    linesFrom_append _ hafter', hsame, hlength, ← Nat.add_assoc, hshift, List.map_append,
    List.map_append]
  congr 1
  · refine (map_relocate_eq_self fun l hl ↦ if_pos ?_).symm
    have hlt := (bounds_of_mem_linesFrom hl).2
    omega
  · congr 1
    · exact (map_relocate_eq_self fun l hl ↦ if_pos (bounds_of_mem_linesFrom hl).2).symm
    · refine map_relocate_congr fun l hl ↦ ?_
      have hle := (bounds_of_mem_linesFrom hl).1
      rw [if_neg (Nat.not_lt.2 hle)]

/-! ### The pieces of a line -/

/-- A line is folded into pieces, to each of which a mark can be added. -/
structure FoldsInto (line : List Char) (pieces : List (List Char)) : Prop where
  /-- The pieces make up the line. -/
  flatten : pieces.flatten = line
  /-- There is a piece, be it the whole line. -/
  ne_nil : pieces ≠ []
  /-- With its mark, each piece is a continued line; so there is a blank at its end. -/
  continued : ∀ p ∈ pieces, isContinued (p ++ [mark]) = true
  /-- Each piece but the first begins with something else than a blank, which would be taken for its
  indentation. -/
  starts : ∀ p ∈ pieces.tail, p.head?.any (!isBlank ·) = true

/-- A mark is no blank, so nothing is trimmed from a line with a mark. -/
theorem trimEnd_append_mark (s : List Char) : trimEnd (s ++ [mark]) = s ++ [mark] :=
  trimEnd_eq_self (by simp [endsBlank, show isBlank mark = false by decide])

/-- The mark that a line was given is dropped again. -/
theorem dropMark_append_mark (s : List Char) : dropMark (s ++ [mark]) = s := by
  simp [dropMark]

/-- **The text of a run of pieces is the line**, trimmed at its end. -/
theorem text_folded (n : Nat) (first : List Char) (more : List (List Char))
    (hstarts : ∀ p ∈ more, p.head?.any (!isBlank ·) = true) :
    (Group.joined n (first ++ [mark]) (more.map (· ++ [mark]))).text =
      trimEnd (first :: more).flatten := by
  have hmore : more.flatMap (fun p ↦ dropMark (trimStart (p ++ [mark]))) = more.flatMap id := by
    refine List.flatMap_congr fun p hp ↦ ?_
    obtain ⟨c, hhead, hc⟩ := (Option.any_eq_true _ _).1 (hstarts p hp)
    obtain ⟨rest, rfl⟩ := List.head?_eq_some_iff.1 hhead
    rw [List.cons_append, trimStart_cons, if_neg (by simpa using hc), ← List.cons_append,
      dropMark_append_mark]
    rfl
  rw [Group.text, dropMark_append_mark, List.flatMap_map, hmore, List.flatMap_id,
    List.flatten_cons]

/-- **The pieces of a line are one run, which stands for the same logical line.** -/
theorem FoldsInto.linesFrom_eq {line : List Char} {pieces : List (List Char)}
    (h : FoldsInto line pieces) (hline : isContinued (trimEnd line) = false) (n : Nat) :
    linesFrom n (pieces.map (· ++ [mark])) = linesFrom n [trimEnd line] := by
  obtain ⟨rfl, hne, hcontinued, hstarts⟩ := h
  obtain ⟨first, more, rfl⟩ := List.exists_cons_of_ne_nil hne
  have hfirst := hcontinued first List.mem_cons_self
  have hmore : ∀ raw ∈ more.map (· ++ [mark]), isContinued raw = true :=
    List.forall_mem_map.2 fun p hp ↦ hcontinued p (List.mem_cons_of_mem first hp)
  rw [linesFrom, linesFrom, groups_cons_of_not n [] hline, List.map_cons,
    groups_cons_of_continued n _ hfirst, List.takeWhile_eq_self_iff.2 hmore,
    List.dropWhile_eq_nil_iff.2 hmore, groups_nil, groups_nil, List.map_singleton,
    List.map_singleton, Group.toLogical, text_folded n first more hstarts]
  rfl

end Line

/-! ### A source with a folded line -/

/-- **Folding a line moves the lines after it** down, by as many rows as there are new ones, and
changes nothing else. -/
theorem logicalLines_fold {s s' : String} {before after pieces : List (List Char)}
    {line : List Char} (hs : Line.splitLines s.toList = before ++ line :: after)
    (hs' : Line.splitLines s'.toList = before ++ (pieces.map (· ++ [Line.mark]) ++ after))
    (hfold : Line.FoldsInto line pieces) (hline : Line.isContinued (trimEnd line) = false)
    (hbefore : ∀ raw ∈ before.getLast?, Line.isContinued (trimEnd raw) = false)
    (hafter : ∀ raw ∈ after.head?, Line.isContinued (trimEnd raw) = false) :
    logicalLines s' = (logicalLines s).map (·.relocate id fun row ↦
      if row ≤ before.length + 1 then row else row + (pieces.length - 1)) := by
  have hraws : Line.rawLines s =
      before.map trimEnd ++ ([trimEnd line] ++ after.map trimEnd) := by
    rw [Line.rawLines, hs, List.map_append, List.map_cons, List.singleton_append]
  have hraws' : Line.rawLines s' =
      before.map trimEnd ++ (pieces.map (· ++ [Line.mark]) ++ after.map trimEnd) := by
    rw [Line.rawLines, hs', List.map_append, List.map_append, List.map_map]
    congr 2
    exact List.map_congr_left fun p _ ↦ Line.trimEnd_append_mark p
  -- no run goes on into the line from either side
  have hend : ∀ {raw? : Option (List Char)},
      (∀ raw ∈ raw?, Line.isContinued (trimEnd raw) = false) →
      (raw?.map trimEnd).any Line.isContinued = false := by
    rintro (- | raw) h
    · rfl
    · exact h raw rfl
  have hseam : ∀ more, Line.Seam (before.map trimEnd) more := by
    rintro more ⟨hlast, -⟩
    rw [List.getLast?_map, hend hbefore] at hlast
    exact Bool.false_ne_true hlast
  have hseam' : ∀ raws, Line.Seam raws (after.map trimEnd) := by
    rintro raws ⟨-, hhead⟩
    rw [List.head?_map, hend hafter] at hhead
    exact Bool.false_ne_true hhead
  have hlength : (pieces.map (· ++ [Line.mark])).length =
      [trimEnd line].length + (pieces.length - 1) := by
    have hpos := List.length_pos_iff.2 hfold.ne_nil
    rw [List.length_map, List.length_singleton]
    omega
  have hreplace := Line.linesFrom_replace (hseam _) (hseam' _) (hseam _) (hseam' _)
    (hfold.linesFrom_eq hline (1 + (before.map trimEnd).length)) hlength
  have hrow : ∀ row, row < 1 + (before.map trimEnd).length + [trimEnd line].length ↔
      row ≤ before.length + 1 := by
    intro row
    rw [List.length_map, List.length_singleton]
    omega
  simp only [hrow, ← hraws, ← hraws'] at hreplace
  exact hreplace

/-- **A folded line is read like the line.** Let a line of a source that is not continued be cut
into pieces as above, and let neither the line before it nor the line after it be continued. A
source with the pieces in its place, a mark at the end of each, is accepted when the first one is,
with the same template. Otherwise it is refused for the same fault, in the same line if that is not
after the folded one, and else further down by the number of new lines. -/
theorem parse_fold {s s' : String} {before after pieces : List (List Char)} {line : List Char}
    (hs : Line.splitLines s.toList = before ++ line :: after)
    (hs' : Line.splitLines s'.toList = before ++ (pieces.map (· ++ [Line.mark]) ++ after))
    (hfold : Line.FoldsInto line pieces) (hline : Line.isContinued (trimEnd line) = false)
    (hbefore : ∀ raw ∈ before.getLast?, Line.isContinued (trimEnd raw) = false)
    (hafter : ∀ raw ∈ after.head?, Line.isContinued (trimEnd raw) = false) :
    (∀ t, parse s = .ok t → parse s' = .ok t) ∧
    ∀ e, parse s = .error e → parse s' = .error ⟨e.fault,
      if e.line ≤ before.length + 1 then e.line else e.line + (pieces.length - 1)⟩ := by
  have hlines := logicalLines_fold hs hs' hfold hline hbefore hafter
  have hparse := parse_relocate strictMono_id rfl hlines
  constructor
  · intro t ht
    rw [hparse, ht]
    rfl
  · intro e he
    rw [hparse, he, Except.mapError, ParseError.relocate, Fault.relocate_id]

/-- A call on three lines. Where a line after it is at fault, it is two rows further down. -/
theorem parse_fold_call :
    parse "%p\n  = f(a, |\nb, |\nc) |\n  d" =
        .ok ⟨[.element { tag := "p" } none
          [.script .output "f(a, b, c)" false [], .leaf .plainText "d"]]⟩ ∧
      parse "%p\n  = f(a, |\nb, |\nc) |\n  d\n   e" =
        .error ⟨.illegalNesting (.leaf .plainText), 6⟩ := by
  have hfold : Line.FoldsInto "  = f(a, b, c) ".toList
      ["  = f(a, ".toList, "b, ".toList, "c) ".toList] :=
    ⟨by decide +kernel, by simp, by decide +kernel, by decide +kernel⟩
  have hline : Line.isContinued (trimEnd "  = f(a, b, c) ".toList) = false := by decide +kernel
  have hok : parse "%p\n  = f(a, b, c) \n  d" = .ok ⟨[.element { tag := "p" } none
      [.script .output "f(a, b, c)" false [], .leaf .plainText "d"]]⟩ := by decide +kernel
  have hsource : Line.splitLines "%p\n  = f(a, b, c) \n  d".toList =
      ["%p".toList] ++ "  = f(a, b, c) ".toList :: ["  d".toList] := by decide +kernel
  have herror : parse "%p\n  = f(a, b, c) \n  d\n   e" =
      .error ⟨.illegalNesting (.leaf .plainText), 4⟩ := by decide +kernel
  have hsource' : Line.splitLines "%p\n  = f(a, b, c) \n  d\n   e".toList =
      ["%p".toList] ++ "  = f(a, b, c) ".toList :: ["  d".toList, "   e".toList] := by
    decide +kernel
  constructor
  · exact (parse_fold hsource (by decide +kernel) hfold hline (by decide +kernel)
      (by decide +kernel)).1 _ hok
  · exact (parse_fold hsource' (by decide +kernel) hfold hline (by decide +kernel)
      (by decide +kernel)).2 _ herror

end HamlTree
