import HamlTree.Proofs.LineSequences

/-!
# Maximal runs of continued lines

Which raw lines make up a logical line, said by their numbers and without telling how they are
found: the continued lines among them form maximal runs, and every other line stands alone
(`Line.Part.Belongs`). Two such parts that share a line are the same (`Line.Part.Belongs.unique`),
every line is in one of them, and so there is only one way to cut the lines into parts
(`Line.IsPartition`). The groups of a source are exactly these parts, in order
(`Line.isPartition_groups`), and each gives its logical line unless nothing is left of it
(`logicalLines_eq_parts`).
-/

namespace HamlTree

open Text

namespace Line

/-! ### The lines of a text -/

/-- A text, cut into lines where lines end. -/
inductive CutAtEnds : List Char → List (List Char) → Prop
  /-- Nothing ends the last line. -/
  | last {s : List Char} (h : ∀ c ∈ s, isLineEnd c = false) : CutAtEnds s [s]
  /-- A line is ended, and others follow. -/
  | ended {s ending rest : List Char} {lines : List (List Char)}
      (h : ∀ c ∈ s, isLineEnd c = false) (hending : EndsLine ending rest)
      (hrest : CutAtEnds rest lines) : CutAtEnds (s ++ (ending ++ rest)) (s :: lines)

/-- The only way to cut a text is that of `splitLines`. -/
theorem cutAtEnds_iff {s : List Char} {lines : List (List Char)} :
    CutAtEnds s lines ↔ splitLines s = lines := by
  constructor
  · intro h
    induction h with
    | last h => exact splitLines_of_unbroken h
    | ended h hending _ ih => rw [splitLines_append_ending h hending, ih]
  · rintro rfl
    induction hlength : s.length using Nat.strong_induction_on generalizing s with
    | _ length ih =>
      rcases unbroken_or_endsLine s with hs | ⟨first, ending, rest, rfl, hfirst, hending⟩
      · rw [splitLines_of_unbroken hs]
        exact .last hs
      · have hlt : rest.length < length := by
          rcases hending with rfl | rfl | ⟨rfl, -⟩ <;> simp at hlength <;> omega
        rw [splitLines_append_ending hfirst hending]
        exact .ended hfirst hending (ih _ hlt rfl)

/-! ### Parts of the raw lines -/

/-- The raw line with the number `k`, counted from 1, is continued. -/
def ContinuedAt (raws : List (List Char)) (k : Nat) : Prop :=
  1 ≤ k ∧ ∃ raw, raws[k - 1]? = some raw ∧ isContinued raw = true

/-- Raw lines that follow one another. -/
structure Part where
  /-- The number of the first line, counted from 1. -/
  first : Nat
  /-- The number of the last line. -/
  last : Nat
deriving DecidableEq

namespace Part

/-- All lines of a part are continued. -/
def Continued (raws : List (List Char)) (p : Part) : Prop :=
  ∀ k, p.first ≤ k → k ≤ p.last → ContinuedAt raws k

/-- A part is a maximal run of continued lines. -/
structure IsRun (raws : List (List Char)) (p : Part) : Prop where
  /-- There are lines in it. -/
  nonempty : p.first ≤ p.last
  /-- They are continued. -/
  continued : p.Continued raws
  /-- No lines with more on either side are continued. -/
  maximal : ∀ q : Part, q.first ≤ p.first → p.last ≤ q.last → q.Continued raws → q = p

/-- A part is a single line that is not continued. -/
structure IsSingle (raws : List (List Char)) (p : Part) : Prop where
  /-- There is one line in it, -/
  single : p.first = p.last
  /-- which is there -/
  mem : 1 ≤ p.first ∧ p.first ≤ raws.length
  /-- and is not continued. -/
  not_continued : ¬ ContinuedAt raws p.first

/-- The lines of a part belong together. -/
def Belongs (raws : List (List Char)) (p : Part) : Prop := p.IsRun raws ∨ p.IsSingle raws

/-- **Parts that share a line are the same.** -/
theorem Belongs.unique {raws : List (List Char)} {p q : Part} (hp : p.Belongs raws)
    (hq : q.Belongs raws) {k : Nat} (hkp : p.first ≤ k ∧ k ≤ p.last)
    (hkq : q.first ≤ k ∧ k ≤ q.last) : p = q := by
  rcases hp with hp | hp <;> rcases hq with hq | hq
  · -- the lines of both are continued, so neither has fewer of them than both together
    have hboth : Part.Continued raws ⟨min p.first q.first, max p.last q.last⟩ := by
      intro j hfirst hlast
      by_cases hj : p.first ≤ j ∧ j ≤ p.last
      · exact hp.continued j hj.1 hj.2
      · exact hq.continued j (by grind) (by grind)
    exact (hp.maximal _ (by grind) (by grind) hboth).symm.trans
      (hq.maximal _ (by grind) (by grind) hboth)
  · obtain rfl : q.first = k := by have := hq.single; omega
    exact absurd (hp.continued _ hkp.1 hkp.2) hq.not_continued
  · obtain rfl : p.first = k := by have := hp.single; omega
    exact absurd (hq.continued _ hkq.1 hkq.2) hp.not_continued
  · obtain ⟨first, last⟩ := p
    obtain ⟨first', last'⟩ := q
    obtain rfl : first = last := hp.single
    obtain rfl : first' = last' := hq.single
    obtain rfl : first = first' := by grind
    rfl

/-- The lines of a part are there. -/
theorem Belongs.bounds {raws : List (List Char)} {p : Part} (h : p.Belongs raws) :
    1 ≤ p.first ∧ p.last ≤ raws.length ∧ p.first ≤ p.last := by
  rcases h with h | h
  · obtain ⟨hone, -⟩ := h.continued p.first (Nat.le_refl _) h.nonempty
    obtain ⟨-, raw, hraw, -⟩ := h.continued p.last h.nonempty (Nat.le_refl _)
    obtain ⟨hlt, -⟩ := List.getElem?_eq_some_iff.1 hraw
    exact ⟨hone, by omega, h.nonempty⟩
  · obtain ⟨hone, hlength⟩ := h.mem
    exact ⟨hone, h.single ▸ hlength, Nat.le_of_eq h.single⟩

/-- The raw lines of a part. -/
def lines (raws : List (List Char)) (p : Part) : List (List Char) :=
  (raws.drop (p.first - 1)).take (p.last + 1 - p.first)

/-- The text of a part. A line that is not continued is a text by itself. The lines of a run are put
together without their marks and, from the second line on, without their indentation; blanks at the
end of them all are dropped. -/
def text (raws : List (List Char)) (p : Part) : List Char :=
  match p.lines raws with
  | [] => []
  | first :: more =>
    if isContinued first then
      trimEnd (dropMark first ++ more.flatMap fun raw ↦ dropMark (trimStart raw))
    else
      first

end Part

/-- The raw lines, cut into parts that belong together. -/
structure IsPartition (raws : List (List Char)) (parts : List Part) : Prop where
  /-- The parts are those that belong together. -/
  mem_iff : ∀ p, p ∈ parts ↔ p.Belongs raws
  /-- They are in order and do not overlap. -/
  ordered : parts.Pairwise (·.last < ·.first)
  /-- Each line is in one of them. -/
  cover : ∀ k, 1 ≤ k → k ≤ raws.length → ∃! p, p ∈ parts ∧ p.first ≤ k ∧ k ≤ p.last

/-! ### The groups are parts -/

/-- The lines of a group are continued when there is more than one of them, or could be. -/
def Group.Proper : Group → Prop
  | single _ raw => isContinued raw = false
  | joined _ first more => ∀ raw ∈ first :: more, isContinued raw = true

/-- A seam with more lines before it. -/
theorem Seam.append_left {before raws more : List (List Char)} (h : Seam raws more)
    (hnil : raws = [] → Seam before more) : Seam (before ++ raws) more := by
  by_cases hraws : raws = []
  · rw [hraws, List.append_nil]
    exact hnil hraws
  · rwa [Seam, List.getLast?_append_of_ne_nil _ hraws]

/-- **A group is cut out of the raw lines at seams.** -/
theorem exists_eq_append_of_mem_groups {n : Nat} {g : Group} {raws : List (List Char)}
    (h : g ∈ groups n raws) :
    ∃ before after, raws = before ++ (g.raws ++ after) ∧ g.line = n + before.length ∧
      Seam before (g.raws ++ after) ∧ Seam g.raws after ∧ g.Proper := by
  have hempty : ∀ more, Seam [] more := fun more h ↦ absurd h.1 (by simp)
  fun_induction groups n raws with
  | case1 => simp at h
  | case2 n raw rest hraw run ih =>
    have hsplit : run ++ rest.dropWhile isContinued = rest := List.takeWhile_append_dropWhile
    -- the line after the run is not continued
    have hafter : ∀ lines, Seam lines (rest.dropWhile isContinued) := by
      rintro lines ⟨-, hhead⟩
      have hnot := List.head?_dropWhile_not isContinued rest
      rcases hdrop : (rest.dropWhile isContinued).head? with - | x
      · simp [hdrop] at hhead
      · rw [hdrop] at hhead hnot
        exact absurd hhead (by simpa using hnot)
    rcases List.mem_cons.1 h with rfl | h
    · refine ⟨[], rest.dropWhile isContinued, ?_, rfl, hempty _, hafter _, ?_⟩
      · rw [Group.raws, List.nil_append, List.cons_append, hsplit]
      · exact List.forall_mem_cons.2 ⟨hraw, fun x hx ↦ List.mem_takeWhile_imp hx⟩
    · obtain ⟨before, after, hrest, hline, hbefore, hseam, hproper⟩ := ih h
      refine ⟨raw :: run ++ before, after, ?_, ?_, ?_, hseam, hproper⟩
      · rw [List.append_assoc, ← hrest, List.cons_append, hsplit]
      · rw [hline, List.length_append, List.length_cons]
        omega
      · exact hbefore.append_left fun hnil ↦ by
          rw [hnil, List.nil_append] at hrest
          rw [← hrest]
          exact hafter _
  | case3 n raw rest hraw ih =>
    have hraw : isContinued raw = false := by simpa using hraw
    have hsingle : ∀ more, Seam [raw] more := fun more h ↦ absurd h.1 (by simp [hraw])
    rcases List.mem_cons.1 h with rfl | h
    · exact ⟨[], rest, rfl, rfl, hempty _, hsingle rest, hraw⟩
    · obtain ⟨before, after, rfl, hline, hbefore, hseam, hproper⟩ := ih h
      refine ⟨raw :: before, after, rfl, ?_, ?_, hseam, hproper⟩
      · rw [hline, List.length_cons]
        omega
      · exact hbefore.append_left fun _ ↦ hsingle _

/-- **Every raw line is in a group.** -/
theorem exists_mem_groups {n k : Nat} {raws : List (List Char)} (hle : n ≤ k)
    (hlt : k < n + raws.length) :
    ∃ g ∈ groups n raws, g.line ≤ k ∧ k < g.line + g.raws.length := by
  fun_induction groups n raws with
  | case1 => simp at hlt; omega
  | case2 n raw rest hraw run ih =>
    have hcount : run.length + (rest.dropWhile isContinued).length = rest.length := by
      rw [← List.length_append, List.takeWhile_append_dropWhile]
    rw [List.length_cons] at hlt
    by_cases hk : k < n + 1 + run.length
    · refine ⟨_, List.mem_cons_self, hle, ?_⟩
      rw [Group.line_joined, Group.raws, List.length_cons]
      omega
    · obtain ⟨g, hg, hmem⟩ := ih (by omega) (by omega)
      exact ⟨g, List.mem_cons_of_mem _ hg, hmem⟩
  | case3 n raw rest hraw ih =>
    rw [List.length_cons] at hlt
    by_cases hk : k = n
    · exact ⟨_, List.mem_cons_self, hle, by rw [hk]; exact Nat.lt_succ_self n⟩
    · obtain ⟨g, hg, hmem⟩ := ih (by omega) (by omega)
      exact ⟨g, List.mem_cons_of_mem _ hg, hmem⟩

/-- The numbers of a group are numbers of raw lines. -/
theorem bounds_of_mem_groups {n : Nat} {g : Group} {raws : List (List Char)}
    (h : g ∈ groups n raws) : n ≤ g.line ∧ g.line + g.raws.length ≤ n + raws.length := by
  obtain ⟨before, after, rfl, hline, -⟩ := exists_eq_append_of_mem_groups h
  rw [hline, List.length_append, List.length_append]
  omega

/-- **The groups do not overlap.** -/
theorem pairwise_groups (n : Nat) (raws : List (List Char)) :
    (groups n raws).Pairwise fun g g' ↦ g.line + g.raws.length ≤ g'.line := by
  fun_induction groups n raws with
  | case1 => exact .nil
  | case2 n raw rest hraw run ih =>
    refine .cons (fun g hg ↦ ?_) ih
    have hle := (bounds_of_mem_groups hg).1
    rw [Group.raws, Group.line_joined, List.length_cons]
    omega
  | case3 n raw rest hraw ih => exact .cons (fun g hg ↦ (bounds_of_mem_groups hg).1) ih

/-- There is a line in each group. -/
theorem Group.length_raws_pos (g : Group) : 0 < g.raws.length := by
  cases g <;> simp [raws]

/-- The part that a group is. -/
def Group.part (g : Group) : Part := ⟨g.line, g.line + g.raws.length - 1⟩

/-- Whether a line is continued can be asked of the lines from some line on. -/
theorem continuedAt_append_right (before raws : List (List Char)) (i : Nat) :
    ContinuedAt (before ++ raws) (before.length + 1 + i) ↔
      ∃ raw, raws[i]? = some raw ∧ isContinued raw = true := by
  have hindex : before.length + 1 + i - 1 = before.length + i := by omega
  rw [ContinuedAt, hindex, List.getElem?_append_right (Nat.le_add_right _ i),
    Nat.add_sub_cancel_left]
  exact and_iff_right (by omega)

/-- The line before others is continued when the last of the earlier ones is. -/
theorem continuedAt_length (before raws : List (List Char)) :
    ContinuedAt (before ++ raws) before.length ↔ before.getLast?.any isContinued = true := by
  rcases List.eq_nil_or_concat before with rfl | ⟨before, raw, rfl⟩
  · simp [ContinuedAt]
  · have h := continuedAt_append_right before ([raw] ++ raws) 0
    simpa [List.concat_eq_append] using h

/-- Continued lines between two seams are a maximal run. -/
theorem Part.isRun_of_seams {before raws after : List (List Char)} (hne : raws ≠ [])
    (hall : ∀ raw ∈ raws, isContinued raw = true) (hbefore : Seam before (raws ++ after))
    (hafter : Seam raws after) :
    Part.IsRun (before ++ (raws ++ after)) ⟨before.length + 1, before.length + raws.length⟩ := by
  have hpos : 0 < raws.length := List.length_pos_iff.2 hne
  refine ⟨by simp only; omega, fun k hfirst hlast ↦ ?_, fun q hfirst hlast hq ↦ ?_⟩
  · obtain ⟨i, rfl⟩ := Nat.exists_eq_add_of_le hfirst
    have hi : i < raws.length := by simp only at hlast; omega
    rw [continuedAt_append_right, List.getElem?_append_left hi]
    exact ⟨raws[i], List.getElem?_eq_getElem hi, hall _ (List.getElem_mem hi)⟩
  · simp only at hfirst hlast
    have hhead : (raws ++ after).head?.any isContinued = true := by
      obtain ⟨raw, more, rfl⟩ := List.exists_cons_of_ne_nil hne
      exact hall raw List.mem_cons_self
    have hend : raws.getLast?.any isContinued = true := by
      rw [List.getLast?_eq_some_getLast hne]
      exact hall _ (List.getLast_mem hne)
    -- more lines would reach over one of the seams
    have hleft : before.length < q.first := by
      by_contra hle
      have hlength := hq before.length (by omega) (by omega)
      exact hbefore ⟨(continuedAt_length before _).1 hlength, hhead⟩
    have hright : q.last ≤ before.length + raws.length := by
      by_contra hlt
      have hnext := hq (before.length + raws.length + 1) (by omega) (by omega)
      have happend := continuedAt_append_right (before ++ raws) after 0
      rw [List.append_assoc, List.length_append, Nat.add_zero] at happend
      obtain ⟨raw, hraw, hcontinued⟩ := happend.1 hnext
      rw [← List.head?_eq_getElem?] at hraw
      exact hafter ⟨hend, by rw [hraw]; exact hcontinued⟩
    obtain ⟨first, last⟩ := q
    simp only at hfirst hlast hleft hright
    obtain rfl : first = before.length + 1 := by omega
    obtain rfl : last = before.length + raws.length := by omega
    rfl

/-- A line that is not continued is a part by itself. -/
theorem Part.isSingle_of_not {raw : List Char} (h : isContinued raw = false)
    (before after : List (List Char)) :
    Part.IsSingle (before ++ (raw :: after)) ⟨before.length + 1, before.length + 1⟩ := by
  refine ⟨rfl, by simp, ?_⟩
  rw [continuedAt_append_right before (raw :: after) 0]
  rintro ⟨x, hx, hcontinued⟩
  obtain rfl : raw = x := by simpa using hx
  simp [h] at hcontinued

/-- **A group is a part.** -/
theorem belongs_of_mem_groups {g : Group} {raws : List (List Char)} (h : g ∈ groups 1 raws) :
    g.part.Belongs raws := by
  obtain ⟨before, after, rfl, hline, hbefore, hafter, hproper⟩ := exists_eq_append_of_mem_groups h
  have hpart : g.part = ⟨before.length + 1, before.length + g.raws.length⟩ := by
    rw [Group.part, hline, Nat.add_comm 1, Nat.add_right_comm]
    rfl
  rw [hpart]
  cases g with
  | single line raw => exact .inr (Part.isSingle_of_not hproper before after)
  | joined line first more =>
    exact .inl (Part.isRun_of_seams (List.cons_ne_nil first more) hproper hbefore hafter)

/-- **The groups are a partition**, and so they are the only one. -/
theorem isPartition_groups (raws : List (List Char)) :
    IsPartition raws ((groups 1 raws).map Group.part) := by
  have hmem : ∀ g ∈ groups 1 raws, ∀ k, g.line ≤ k → k < g.line + g.raws.length →
      g.part.first ≤ k ∧ k ≤ g.part.last := by
    intro g _ k hle hlt
    simp only [Group.part]
    omega
  refine ⟨fun p ↦ ⟨fun hp ↦ ?_, fun hp ↦ ?_⟩, ?_, fun k hle hlt ↦ ?_⟩
  · obtain ⟨g, hg, rfl⟩ := List.mem_map.1 hp
    exact belongs_of_mem_groups hg
  · obtain ⟨hone, hlength, hle⟩ := hp.bounds
    have hlt : p.first < 1 + raws.length := by omega
    obtain ⟨g, hg, hk⟩ := exists_mem_groups hone hlt
    have hsame := (belongs_of_mem_groups hg).unique hp (hmem g hg _ hk.1 hk.2) ⟨Nat.le_refl _, hle⟩
    exact List.mem_map.2 ⟨g, hg, hsame⟩
  · rw [List.pairwise_map]
    refine (pairwise_groups 1 raws).imp fun {g g'} h ↦ ?_
    have hpos := g.length_raws_pos
    simp only [Group.part]
    omega
  · have hlt : k < 1 + raws.length := by omega
    obtain ⟨g, hg, hk⟩ := exists_mem_groups hle hlt
    refine ⟨g.part, ⟨List.mem_map_of_mem hg, hmem g hg k hk.1 hk.2⟩, ?_⟩
    rintro p ⟨hp, hkp⟩
    obtain ⟨g', hg', rfl⟩ := List.mem_map.1 hp
    exact (belongs_of_mem_groups hg').unique (belongs_of_mem_groups hg) hkp
      (hmem g hg k hk.1 hk.2)

/-- A group has the lines of its part, -/
theorem Group.lines_part {g : Group} {raws : List (List Char)} (h : g ∈ groups 1 raws) :
    g.part.lines raws = g.raws := by
  obtain ⟨before, after, rfl, hline, -⟩ := exists_eq_append_of_mem_groups h
  have hpos := g.length_raws_pos
  have hdrop : g.part.first - 1 = before.length := by
    simp only [part, hline]
    omega
  have htake : g.part.last + 1 - g.part.first = g.raws.length := by
    simp only [part]
    omega
  rw [Part.lines, hdrop, htake, List.drop_left, List.take_left]

/-- and the text of its part. -/
theorem Group.text_part {g : Group} {raws : List (List Char)} (h : g ∈ groups 1 raws) :
    g.part.text raws = g.text := by
  obtain ⟨-, -, -, -, -, -, hproper⟩ := exists_eq_append_of_mem_groups h
  rw [Part.text, lines_part h]
  cases g with
  | single line raw =>
    have hraw : isContinued raw = false := hproper
    simp [Group.raws, hraw]
  | joined line first more =>
    have hfirst : isContinued first = true := hproper first List.mem_cons_self
    simp [Group.raws, hfirst, Group.text]

/-- Something is left of a group when its text is not empty: nothing but spaces would not be
tidy. -/
theorem Group.isBlank_toLogical {g : Group} (h : Tidy g.text) :
    g.toLogical.isBlank = true ↔ g.text = [] := by
  have hblank : g.toLogical.isBlank = true ↔ ∀ c ∈ g.text, c = ' ' := by
    simp [toLogical, LogicalLine.ofIndented, LogicalLine.isBlank]
  rw [hblank]
  refine ⟨fun hspaces ↦ ?_, fun hnil ↦ by simp [hnil]⟩
  rcases List.eq_nil_or_concat g.text with hnil | ⟨s, c, hconcat⟩
  · exact hnil
  · have hends : isBlank c = false := by simpa [endsBlank, hconcat] using h.ends
    obtain rfl : c = ' ' := hspaces c (by simp [hconcat])
    exact absurd hends (by decide)

end Line

end HamlTree
