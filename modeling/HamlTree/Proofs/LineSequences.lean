import HamlTree.Proofs.Relocation
import HamlTree.Proofs.SourceLines

/-!
# Lines of one source after those of another

When one source is put after another, with a line feed between them, the raw lines of the first are
followed by those of the second (`Line.rawLines_append`); only a carriage return at the end of the
first would take the line feed for a part of itself. The groups of raw lines stay the same unless a
run of continued lines goes on across the seam (`Line.groups_append`). So the logical lines of both
are those of the first and then those of the second, which have moved down
(`logicalLines_append`).
-/

namespace HamlTree

namespace Line

open Text

/-! ### Raw lines -/

/-- A text ends a line that the rest of the source follows: it is a line feed, a carriage return, or
the two together as one. -/
def EndsLine (ending rest : List Char) : Prop :=
  ending = ['\n'] ∨ ending = ['\r', '\n'] ∨ (ending = ['\r'] ∧ rest.head? ≠ some '\n')

/-- **A line is cut off where it ends.** -/
theorem splitLines_append_ending {s ending rest : List Char} (h : ∀ c ∈ s, isLineEnd c = false)
    (hending : EndsLine ending rest) :
    splitLines (s ++ (ending ++ rest)) = s :: splitLines rest := by
  have hnot : ∀ c ∈ s, (!isLineEnd c) = true := fun c hc ↦ by simp [h c hc]
  have hstop : (ending ++ rest).takeWhile (!isLineEnd ·) = [] ∧
      (ending ++ rest).dropWhile (!isLineEnd ·) = ending ++ rest := by
    rcases hending with rfl | rfl | ⟨rfl, -⟩ <;> exact ⟨rfl, rfl⟩
  have htake : (s ++ (ending ++ rest)).takeWhile (!isLineEnd ·) = s := by
    rw [List.takeWhile_append_of_pos hnot, hstop.1, List.append_nil]
  have hdrop : (s ++ (ending ++ rest)).dropWhile (!isLineEnd ·) = ending ++ rest := by
    rw [List.dropWhile_append_of_pos hnot, hstop.2]
  rw [splitLines, htake]
  rcases hending with rfl | rfl | ⟨rfl, hhead⟩ <;> split <;> grind

/-- A text is one line, or its first line ends somewhere and the others follow. -/
theorem unbroken_or_endsLine (s : List Char) :
    (∀ c ∈ s, isLineEnd c = false) ∨ ∃ first ending rest, s = first ++ (ending ++ rest) ∧
      (∀ c ∈ first, isLineEnd c = false) ∧ EndsLine ending rest := by
  have htake : ∀ c ∈ s.takeWhile (!isLineEnd ·), isLineEnd c = false :=
    fun c hc ↦ by simpa using List.mem_takeWhile_imp hc
  have hsplit := List.takeWhile_append_dropWhile (p := (!isLineEnd ·)) (l := s)
  rcases hdrop : s.dropWhile (!isLineEnd ·) with - | ⟨c, rest⟩
  · rw [hdrop, List.append_nil] at hsplit
    exact .inl (hsplit ▸ htake)
  · have hc : c = '\n' ∨ c = '\r' := by
      have hend := List.head?_dropWhile_not (!isLineEnd ·) s
      rw [hdrop] at hend
      have hend : isLineEnd c = true := by simpa using hend
      simpa [isLineEnd] using hend
    rw [hdrop] at hsplit
    by_cases hpair : c = '\r' ∧ rest.head? = some '\n'
    · obtain ⟨rfl, hhead⟩ := hpair
      obtain ⟨rest, rfl⟩ := List.head?_eq_some_iff.1 hhead
      exact .inr ⟨_, ['\r', '\n'], rest, hsplit.symm, htake, .inr (.inl rfl)⟩
    · refine .inr ⟨_, [c], rest, hsplit.symm, htake, ?_⟩
      rcases hc with rfl | rfl
      · exact .inl rfl
      · exact .inr (.inr ⟨rfl, fun hhead ↦ hpair ⟨rfl, hhead⟩⟩)

/-- More text does not change where a line ends, unless a carriage return was the last of all. -/
theorem EndsLine.append {ending rest : List Char} (h : EndsLine ending rest)
    (hlast : (ending ++ rest).getLast? ≠ some '\r') (more : List Char) :
    EndsLine ending (rest ++ more) := by
  rcases h with h | h | ⟨rfl, hhead⟩
  · exact .inl h
  · exact .inr (.inl h)
  · rcases rest with - | ⟨c, rest⟩
    · exact absurd rfl hlast
    · exact .inr (.inr ⟨rfl, hhead⟩)

/-- **The lines of a text after a line feed follow those of the text before it.** -/
theorem splitLines_append_lineFeed {s : List Char} (hlast : s.getLast? ≠ some '\r')
    (t : List Char) : splitLines (s ++ '\n' :: t) = splitLines s ++ splitLines t := by
  induction hlength : s.length using Nat.strong_induction_on generalizing s with
  | _ length ih =>
    rcases unbroken_or_endsLine s with hs | ⟨first, ending, rest, rfl, hfirst, hending⟩
    · rw [splitLines_append hs, splitLines_of_unbroken hs, List.singleton_append]
    · have hlast' : (ending ++ rest).getLast? ≠ some '\r' := fun h ↦ hlast (by simp [h])
      have hrest : rest.getLast? ≠ some '\r' := fun h ↦ hlast (by simp [h])
      have hlt : rest.length < length := by
        rcases hending with rfl | rfl | ⟨rfl, -⟩ <;> simp at hlength <;> omega
      rw [List.append_assoc, List.append_assoc,
        splitLines_append_ending hfirst (hending.append hlast' _),
        splitLines_append_ending hfirst hending, ih _ hlt hrest rfl, List.cons_append]

/-- **The raw lines of two sources with a line feed between them.** -/
theorem rawLines_append {s t : String} (hlast : s.toList.getLast? ≠ some '\r') :
    rawLines (s ++ "\n" ++ t) = rawLines s ++ rawLines t := by
  have hlist : (s ++ "\n" ++ t).toList = s.toList ++ '\n' :: t.toList := by
    simp [String.toList_append]
  rw [rawLines, hlist, splitLines_append_lineFeed hlast, List.map_append]
  rfl

/-! ### Groups of raw lines -/

/-- Raw lines can follow others without making one run of the continued lines on both sides. -/
def Seam (raws more : List (List Char)) : Prop :=
  ¬ (raws.getLast?.any isContinued = true ∧ more.head?.any isContinued = true)

instance (raws more : List (List Char)) : Decidable (Seam raws more) := instDecidableNot

/-- The raw lines far from a seam do not matter to it. -/
theorem Seam.of_append_left (before : List (List Char)) {raws more : List (List Char)}
    (h : Seam (before ++ raws) more) : Seam raws more := by
  rintro ⟨hlast, hmore⟩
  obtain ⟨x, hx, hcontinued⟩ := (Option.any_eq_true _ _).1 hlast
  exact h ⟨by rw [List.getLast?_append, hx]; exact hcontinued, hmore⟩

/-- After a line that is not continued any lines can follow. -/
theorem Seam.of_getLast? {raws : List (List Char)}
    (h : ∀ raw ∈ raws.getLast?, isContinued raw = false) (more : List (List Char)) :
    Seam raws more := by
  rintro ⟨hlast, -⟩
  obtain ⟨raw, hraw, hcontinued⟩ := (Option.any_eq_true _ _).1 hlast
  exact Bool.false_ne_true ((h raw hraw).symm.trans hcontinued)

/-- A line that is not continued can follow any lines. -/
theorem Seam.of_head? {more : List (List Char)}
    (h : ∀ raw ∈ more.head?, isContinued raw = false) (raws : List (List Char)) :
    Seam raws more := by
  rintro ⟨-, hhead⟩
  obtain ⟨raw, hraw, hcontinued⟩ := (Option.any_eq_true _ _).1 hhead
  exact Bool.false_ne_true ((h raw hraw).symm.trans hcontinued)

/-- Where the last raw lines are a run, it ends at the seam. -/
theorem Seam.head?_any {raws more : List (List Char)} (h : Seam raws more) (hne : raws ≠ [])
    (hall : ∀ x ∈ raws, isContinued x = true) : more.head?.any isContinued = false := by
  refine Bool.eq_false_iff.2 fun hmore ↦ h ⟨?_, hmore⟩
  rw [List.getLast?_eq_some_getLast hne]
  exact hall _ (List.getLast_mem hne)

/-- **Groups do not reach across a seam.** -/
theorem groups_append (n : Nat) {raws more : List (List Char)} (h : Seam raws more) :
    groups n (raws ++ more) = groups n raws ++ groups (n + raws.length) more := by
  fun_induction groups n raws with
  | case1 => simp
  | case2 n raw rest hraw run ih =>
    have hsplit : run ++ rest.dropWhile isContinued = rest := List.takeWhile_append_dropWhile
    have hcount : run.length + (rest.dropWhile isContinued).length = rest.length := by
      rw [← List.length_append, hsplit]
    rw [List.cons_append, groups_cons_of_continued n (rest ++ more) hraw, List.takeWhile_append,
      List.dropWhile_append, List.length_cons]
    by_cases hdrop : rest.dropWhile isContinued = []
    · -- the run ends at the seam, so what follows begins with a line that is not continued
      have hrun : rest.takeWhile isContinued = rest := by rwa [hdrop, List.append_nil] at hsplit
      have hall : ∀ x ∈ raw :: rest, isContinued x = true :=
        List.forall_mem_cons.2 ⟨hraw, List.dropWhile_eq_nil_iff.1 hdrop⟩
      have hmore : more.takeWhile isContinued = [] ∧ more.dropWhile isContinued = more := by
        rcases more with - | ⟨y, more⟩
        · exact ⟨rfl, rfl⟩
        · have hy : isContinued y = false := h.head?_any (List.cons_ne_nil raw rest) hall
          simp [hy]
      simp [run, hrun, hdrop, hmore.1, hmore.2, Nat.add_assoc, Nat.add_comm 1]
    · -- the run ends before it
      have hafter : Seam (rest.dropWhile isContinued) more :=
        Seam.of_append_left (raw :: run) (by rwa [List.cons_append, hsplit])
      have hlength : run.length ≠ rest.length := fun heq ↦
        hdrop (List.length_eq_zero_iff.1 (by omega))
      rw [if_neg hlength, if_neg (by simpa using hdrop), ih hafter, List.cons_append]
      congr 3
      omega
  | case3 n raw rest hraw ih =>
    have hrest : Seam rest more := Seam.of_append_left [raw] h
    rw [List.cons_append, groups_cons_of_not n (rest ++ more) (by simpa using hraw), ih hrest,
      List.length_cons, List.cons_append, Nat.add_assoc, Nat.add_comm 1]

/-! ### Logical lines -/

/-- The logical lines of raw lines, the first of which has the number `n`. -/
def linesFrom (n : Nat) (raws : List (List Char)) : List LogicalLine :=
  ((groups n raws).map Group.toLogical).filter (!·.isBlank)

/-- Logical lines move down with their raw lines. -/
theorem linesFrom_add (n rows : Nat) (raws : List (List Char)) :
    linesFrom (n + rows) raws = (linesFrom n raws).map (·.relocate id (· + rows)) := by
  have hgroups : (groups (n + rows) raws).map Group.toLogical =
      ((groups n raws).map Group.toLogical).map (·.relocate id (· + rows)) := by
    fun_induction groups n raws with
    | case1 => simp
    | case2 n raw rest hraw run ih =>
      rw [groups_cons_of_continued (n + rows) rest hraw, List.map_cons, List.map_cons,
        List.map_cons, ← ih, Nat.add_right_comm n rows 1,
        Nat.add_right_comm (n + 1) rows]
      rfl
    | case3 n raw rest hraw ih =>
      rw [groups_cons_of_not (n + rows) rest (by simpa using hraw), List.map_cons, List.map_cons,
        List.map_cons, ← ih, Nat.add_right_comm n rows 1]
      rfl
  rw [linesFrom, linesFrom, hgroups, List.filter_map]
  rfl

/-- The logical lines on the two sides of a seam. -/
theorem linesFrom_append (n : Nat) {raws more : List (List Char)} (h : Seam raws more) :
    linesFrom n (raws ++ more) = linesFrom n raws ++ linesFrom (n + raws.length) more := by
  rw [linesFrom, groups_append n h, List.map_append, List.filter_append]
  rfl

end Line

/-- **The logical lines of two sources with a line feed between them** are those of the first, then
those of the second, which have moved down by the raw lines of the first. -/
theorem logicalLines_append {s t : String} (hlast : s.toList.getLast? ≠ some '\r')
    (hseam : Line.Seam (Line.rawLines s) (Line.rawLines t)) :
    logicalLines (s ++ "\n" ++ t) = logicalLines s ++
      (logicalLines t).map (·.relocate id (· + (Line.rawLines s).length)) := by
  have happend : logicalLines (s ++ "\n" ++ t) =
      Line.linesFrom 1 (Line.rawLines s ++ Line.rawLines t) := by
    rw [← Line.rawLines_append hlast]
    rfl
  rw [happend, Line.linesFrom_append 1 hseam, Line.linesFrom_add]
  rfl

end HamlTree
