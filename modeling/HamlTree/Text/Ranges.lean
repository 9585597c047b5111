/-!
# Ranges of code points

A class of characters that a standard publishes as a table is held as the list of its inclusive
ranges, in increasing order. The order lets a look-up stop at the first range that starts beyond the
character, so a table is plain data and every question about one character is settled by evaluation.

The tables themselves (`Text.Blank`, `Text.WordChar`, `Text.Printable`, `Text.GraphemeExtend`) say
which property they list; nothing here knows what a range stands for.
-/

namespace HamlTree.Text

/-- Inclusive ranges of code points, in increasing order. -/
abbrev CharRanges := List (Nat × Nat)

/-- Whether a character lies in one of the ranges. The look-up ends at the first range that starts
beyond the character. -/
def CharRanges.has : CharRanges → Char → Bool
  | [], _ => false
  | (lo, hi) :: ranges, c =>
    if c.toNat < lo then false else decide (c.toNat ≤ hi) || has ranges c

@[simp] theorem CharRanges.has_nil (c : Char) : CharRanges.has [] c = false := rfl

theorem CharRanges.has_cons (lo hi : Nat) (ranges : CharRanges) (c : Char) :
    CharRanges.has ((lo, hi) :: ranges) c =
      if c.toNat < lo then false else decide (c.toNat ≤ hi) || ranges.has c := rfl

/-- A character that is in the class lies within one of the listed ranges. -/
theorem CharRanges.exists_of_has {ranges : CharRanges} {c : Char} (h : ranges.has c = true) :
    ∃ r ∈ ranges, r.1 ≤ c.toNat ∧ c.toNat ≤ r.2 := by
  induction ranges with
  | nil => simp at h
  | cons r ranges ih =>
    obtain ⟨lo, hi⟩ := r
    rw [has_cons] at h
    split at h
    · simp at h
    · rcases (Bool.or_eq_true _ _).mp h with hle | hrest
      · exact ⟨(lo, hi), List.mem_cons_self, by simp at hle ⊢; omega⟩
      · obtain ⟨r, hr, hin⟩ := ih hrest
        exact ⟨r, List.mem_cons_of_mem _ hr, hin⟩

end HamlTree.Text
