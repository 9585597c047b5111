import HamlTree.Proofs.ElementGrammar
import HamlTree.Proofs.LineEndings
import HamlTree.Proofs.Patterns

/-!
# Which lines are continued

A raw line is continued when it ends in a blank and a bar, unless the bar is the last one of a block
signature. A signature is a pattern with three repetitions side by side, blanks, other characters
and blanks again, and it may begin anywhere in the line. Yet there is nothing to search for:
parameters have no bar in them, so the first bar of a signature is the last bar of the line but one,
and it is the first bar of a signature exactly when `do` comes before it, with blanks between them
or without (`Line.hasBlockSignature_append_mark`).

So the rule has a closed form (`Line.isContinued_closedForm`), and the search for the pattern, with
all the ways to divide a text between its repetitions, decides the same.
-/

namespace HamlTree

open Text

namespace Text

/-! ### Blanks at the end -/

/-- What is left of a text trimmed at the end is told by the blanks that have been dropped. -/
theorem trimEnd_eq_iff {s t : List Char} :
    trimEnd s = t ↔ ∃ gap, s = t ++ gap ∧ Blanks gap ∧ endsBlank t = false := by
  constructor
  · rintro rfl
    obtain ⟨gap, hsplit, hgap, -⟩ := trimStart_eq_iff.1 (rfl : trimStart s.reverse = _)
    refine ⟨gap.reverse, ?_, fun c hc ↦ hgap c (List.mem_reverse.1 hc), endsBlank_trimEnd s⟩
    have hreverse := congrArg List.reverse hsplit
    rwa [List.reverse_reverse, List.reverse_append] at hreverse
  · rintro ⟨gap, rfl, hgap, hends⟩
    rw [trimEnd_append_blanks t hgap, trimEnd_eq_self hends]

theorem endsBlank_iff {s : List Char} :
    endsBlank s = true ↔ ∃ c ∈ s.getLast?, isBlank c = true := by
  rw [endsBlank, Option.any_eq_true]
  rfl

end Text

namespace Line

/-! ### Block signatures -/

/-- A text is a block signature: the word `do` and a bar, parameters without a bar, a blank and the
final bar. -/
def IsSignature (s : List Char) : Prop :=
  ∃ gap parameters, s = "do".toList ++ (gap ++ mark :: (parameters ++ [mark])) ∧ Blanks gap ∧
    mark ∉ parameters ∧ endsBlank parameters = true

/-- A line without its final bar opens a block: its last bar has the word `do` before it. -/
def OpensBlock (body : List Char) : Prop :=
  ∃ before after, body = before ++ mark :: after ∧ mark ∉ after ∧ "do".toList <:+ trimEnd before

theorem isBlank_mark : isBlank mark = false := by decide

theorem not_mem_of_blanks {s : List Char} (h : Blanks s) : mark ∉ s :=
  fun hmem ↦ Bool.false_ne_true (isBlank_mark.symm.trans (h mark hmem))

theorem closesParameters_iff {s : List Char} :
    closesParameters s = true ↔
      ∃ parameters, s = parameters ++ [mark] ∧ mark ∉ parameters ∧ endsBlank parameters = true := by
  rw [closesParameters, Bool.and_eq_true, beq_iff_eq]
  constructor
  · rintro ⟨hends, hclosing⟩
    refine ⟨s.takeWhile (· != mark), ?_, fun hmem ↦ ?_, hends⟩
    · rw [← hclosing, List.takeWhile_append_dropWhile]
    · simpa using List.mem_takeWhile_imp hmem
  · rintro ⟨parameters, rfl, hmark, hends⟩
    have hinner : ∀ c ∈ parameters, (c != mark) = true :=
      fun c hc ↦ bne_iff_ne.2 fun heq ↦ hmark (heq ▸ hc)
    have hclosing : ∀ c ∈ [mark].head?, (c != mark) = false := by simp
    obtain ⟨htake, hdrop⟩ := Node.takeWhile_piece hinner hclosing
    rw [htake, hdrop]
    exact ⟨hends, rfl⟩

/-- The test for a block signature does what its definition says. -/
theorem isBlockSignature_iff {s : List Char} : isBlockSignature s = true ↔ IsSignature s := by
  constructor
  · intro h
    rw [isBlockSignature.eq_def] at h
    split at h
    · next rest =>
      split at h
      · next parameters hrest =>
        obtain ⟨gap, rfl, hgap, -⟩ := trimStart_eq_iff.1 hrest
        obtain ⟨parameters, rfl, hmark, hends⟩ := closesParameters_iff.1 h
        exact ⟨gap, parameters, rfl, hgap, hmark, hends⟩
      · exact absurd h Bool.false_ne_true
    · exact absurd h Bool.false_ne_true
  · rintro ⟨gap, parameters, rfl, hgap, hmark, hends⟩
    show isBlockSignature ('d' :: 'o' :: (gap ++ mark :: (parameters ++ [mark]))) = true
    rw [isBlockSignature, trimStart_append_cons hgap isBlank_mark]
    exact closesParameters_iff.2 ⟨parameters, rfl, hmark, hends⟩

/-- A line has a block signature when some end of it is one. -/
theorem hasBlockSignature_iff {line : List Char} :
    hasBlockSignature line = true ↔ ∃ s, s <:+ line ∧ IsSignature s := by
  simp only [← isBlockSignature_iff]
  induction line with
  | nil => simp [isBlockSignature]
  | cons c rest ih =>
    rw [hasBlockSignature_cons, Bool.or_eq_true, ih]
    simp only [List.suffix_cons_iff, or_and_right, exists_or, exists_eq_left]

/-- **Only the last bar but one can begin the parameters of a signature.** -/
theorem hasBlockSignature_append_mark {body : List Char} (hends : endsBlank body = true) :
    hasBlockSignature (body ++ [mark]) = true ↔ OpensBlock body := by
  rw [hasBlockSignature_iff]
  constructor
  · rintro ⟨_, ⟨before, hline⟩, gap, parameters, rfl, hgap, hmark, -⟩
    refine ⟨before ++ ("do".toList ++ gap), parameters, ?_, hmark, ?_⟩
    · have htext : body ++ [mark] =
          (before ++ ("do".toList ++ gap) ++ mark :: parameters) ++ [mark] := by
        simp only [← hline, List.append_assoc, List.cons_append]
      exact List.append_cancel_right htext
    · have hword : endsBlank (before ++ "do".toList) = false := by
        rw [endsBlank, List.getLast?_append]
        rfl
      rw [trimEnd_eq_iff.2 ⟨gap, (List.append_assoc ..).symm, hgap, hword⟩]
      exact List.suffix_append _ _
  · rintro ⟨before, after, rfl, hmark, text, htext⟩
    obtain ⟨gap, hbefore, hgap, -⟩ := trimEnd_eq_iff.1 (rfl : trimEnd before = _)
    refine ⟨"do".toList ++ (gap ++ mark :: (after ++ [mark])), ⟨text, ?_⟩,
      gap, after, rfl, hgap, hmark, ?_⟩
    · rw [hbefore, ← htext]
      simp only [List.append_assoc, List.cons_append]
    · -- the blank before the final bar is a parameter, since the bar before it is no blank
      rcases List.eq_nil_or_concat after with rfl | ⟨after, c, rfl⟩
      · simp [endsBlank, isBlank_mark] at hends
      · simpa [endsBlank, List.getLast?_cons] using hends

/-! ### The pattern -/

/-- The pattern of a block signature at the end of a line. -/
def signaturePattern : Pattern :=
  .seq (.literal "do".toList) (.seq .blanks (.seq (.one mark) (.seq .blanks
    (.seq (.star (.char (· != mark))) (.seq (.seq (.char isBlank) .blanks)
      (.seq (.one mark) .textEnd))))))

/-- The pattern matches block signatures at the end of a text. -/
theorem matches_signaturePattern_iff {p q : Place} :
    signaturePattern.Matches p q ↔ ∃ s, IsSignature s ∧ p.Reads s q ∧ q.after = [] := by
  simp only [signaturePattern, Pattern.matches_seq_iff, Pattern.matches_literal_iff,
    Pattern.matches_blanks_iff, Pattern.matches_one_iff, Pattern.matches_char_iff,
    Pattern.matches_star_char_iff, Pattern.matches_textEnd_iff]
  constructor
  · rintro ⟨_, hdo, _, ⟨gap, hgap, hgapped⟩, _, hopen, _, ⟨gap', hgap', hgapped'⟩, _,
      ⟨inner, hinner, hread⟩, _, ⟨_, ⟨c, hc, hblank⟩, last, hlast, hblanks⟩, _, hclose, rfl, hend⟩
    have hblanks' : Blanks (c :: last) := List.forall_mem_cons.2 ⟨hc, hlast⟩
    refine ⟨_, ⟨gap, gap' ++ (inner ++ c :: last), rfl, hgap, ?_, ?_⟩, ?_, hend⟩
    · simp only [List.mem_append, not_or]
      exact ⟨not_mem_of_blanks hgap', fun h ↦ absurd (hinner mark h) (by simp),
        not_mem_of_blanks hblanks'⟩
    · have hd := List.getLast?_eq_some_getLast (List.cons_ne_nil c last)
      refine endsBlank_iff.2 ⟨_, ?_, hblanks' _ (List.getLast_mem (List.cons_ne_nil c last))⟩
      simp [List.getLast?_append, hd]
    · have hall := hdo.trans (hgapped.trans (hopen.trans (hgapped'.trans (hread.trans
        ((hblank.trans hblanks).trans hclose)))))
      simpa using hall
  · rintro ⟨_, ⟨gap, parameters, rfl, hgap, hmark, hends⟩, hreads, hend⟩
    obtain ⟨c, hc, hblank⟩ := endsBlank_iff.1 hends
    obtain ⟨inner, rfl⟩ := List.getLast?_eq_some_iff.1 hc
    obtain ⟨p₁, hdo, hreads⟩ := hreads.exists_between
    obtain ⟨p₂, hgapped, hreads⟩ := hreads.exists_between
    obtain ⟨p₃, hopen, hreads⟩ := Place.Reads.exists_between (s := [mark]) hreads
    obtain ⟨p₄, hinner, hclose⟩ := hreads.exists_between
    obtain ⟨p₅, hinner, hlast⟩ := hinner.exists_between
    exact ⟨p₁, hdo, p₂, ⟨gap, hgap, hgapped⟩, p₃, hopen, p₃, ⟨[], List.forall_mem_nil _, .nil p₃⟩,
      p₅, ⟨inner, fun d hd ↦ bne_iff_ne.2 fun heq ↦ hmark (by simp [← heq, hd]), hinner⟩,
      p₄, ⟨p₄, ⟨c, hblank, hlast⟩, [], List.forall_mem_nil _, .nil p₄⟩, q, hclose, rfl, hend⟩

/-- **A search for the pattern finds the signature.** -/
theorem occursIn_signaturePattern (line : List Char) :
    signaturePattern.occursIn line = hasBlockSignature line := by
  rw [Bool.eq_iff_iff, Pattern.occursIn_iff, hasBlockSignature_iff]
  simp only [matches_signaturePattern_iff]
  constructor
  · rintro ⟨t, p, q, hbefore, s, hs, hreads, hend⟩
    refine ⟨s, ⟨t, ?_⟩, hs⟩
    have hline := hbefore.after
    rw [hreads.after, hend, List.append_nil] at hline
    exact hline.symm
  · rintro ⟨s, ⟨t, rfl⟩, hs⟩
    obtain ⟨p, hbefore, hp⟩ := Place.Reads.exists_of_after (p := ⟨[], t ++ s⟩) rfl
    obtain ⟨q, hreads, hq⟩ := Place.Reads.exists_of_after (hp.trans (List.append_nil s).symm)
    exact ⟨t, p, q, hbefore, s, hs, hreads, hq⟩

/-! ### Continued lines -/

/-- A line is continued when a bar follows a text that ends in a blank and opens no block. -/
theorem isContinued_iff {line : List Char} :
    isContinued line = true ↔
      ∃ body, line = body ++ [mark] ∧ endsBlank body = true ∧ ¬ OpensBlock body := by
  constructor
  · intro h
    simp only [isContinued, Bool.and_eq_true, beq_iff_eq, Bool.not_eq_true'] at h
    obtain ⟨⟨hlast, hends⟩, hnone⟩ := h
    obtain ⟨body, rfl⟩ := List.getLast?_eq_some_iff.1 hlast
    rw [List.dropLast_concat] at hends
    refine ⟨body, rfl, hends, fun hopens ↦ Bool.false_ne_true (hnone.symm.trans ?_)⟩
    exact (hasBlockSignature_append_mark hends).2 hopens
  · rintro ⟨body, rfl, hends, hopens⟩
    have hnone : hasBlockSignature (body ++ [mark]) = false :=
      Bool.eq_false_iff.2 (mt (hasBlockSignature_append_mark hends).1 hopens)
    simp [isContinued, hends, hnone]

/-- **Which lines are continued.** A line is continued when it is a text that ends in a blank with a
bar after it, unless this text has a bar and what is before its last one ends in `do`, or in `do`
and blanks. The block signature that is ruled out in this way is what a search for its pattern
finds. -/
theorem isContinued_closedForm (line : List Char) :
    (isContinued line = true ↔
      ∃ body, line = body ++ ['|'] ∧ (∃ c ∈ body.getLast?, isBlank c = true) ∧
        ¬ ∃ before after, body = before ++ '|' :: after ∧ '|' ∉ after ∧
          "do".toList <:+ trimEnd before) ∧
      hasBlockSignature line = signaturePattern.occursIn line := by
  refine ⟨?_, (occursIn_signaturePattern line).symm⟩
  simp only [← endsBlank_iff]
  exact isContinued_iff

end Line

end HamlTree
