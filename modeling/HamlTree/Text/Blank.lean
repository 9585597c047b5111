import HamlTree.Text.Ranges

/-!
# Blank characters

White space is the Unicode property `White_Space`: 25 characters, among them the no-break space and
the line separators, but not the zero-width space and not the byte order mark. Trimming works on
lists of characters: `trimStart` drops the leading blanks, `trimEnd` the trailing ones, and `words`
cuts a text into its maximal runs of other characters.

Only blanks are ever dropped, and what is left starts (or ends) with none; the small lemmas below
say so, and nothing else about trimming is used.
-/

namespace HamlTree.Text

/-- The characters with the property `White_Space`. -/
def blankRanges : CharRanges :=
  [(0x9, 0xd), (0x20, 0x20), (0x85, 0x85), (0xa0, 0xa0), (0x1680, 0x1680), (0x2000, 0x200a),
   (0x2028, 0x2029), (0x202f, 0x202f), (0x205f, 0x205f), (0x3000, 0x3000)]

/-- Whether a character is white space. -/
def isBlank (c : Char) : Bool := blankRanges.has c

/-! ### Trimming -/

/-- Drop the leading blanks. -/
def trimStart (s : List Char) : List Char := s.dropWhile isBlank

/-- Drop the trailing blanks. -/
def trimEnd (s : List Char) : List Char := (s.reverse.dropWhile isBlank).reverse

/-- Drop the blanks at both ends. -/
def trim (s : List Char) : List Char := trimEnd (trimStart s)

/-- Whether the last character is a blank. -/
def endsBlank (s : List Char) : Bool := s.getLast?.any isBlank

@[simp] theorem trimStart_nil : trimStart [] = [] := rfl

@[simp] theorem trimEnd_nil : trimEnd [] = [] := rfl

theorem trimStart_cons (c : Char) (s : List Char) :
    trimStart (c :: s) = if isBlank c then trimStart s else c :: s := by
  simp [trimStart, List.dropWhile_cons]

/-- Trimming at the start leaves an end of the text. -/
theorem trimStart_suffix (s : List Char) : trimStart s <:+ s := List.dropWhile_suffix isBlank

/-- Trimming never lengthens a text. -/
theorem length_trimStart_le (s : List Char) : (trimStart s).length ≤ s.length :=
  (trimStart_suffix s).length_le

/-- **What is left of a text trimmed at the start does not begin with a blank.** -/
theorem isBlank_of_trimStart_eq_cons {s rest : List Char} {c : Char}
    (h : trimStart s = c :: rest) : isBlank c = false := by
  induction s with
  | nil => simp at h
  | cons d s ih =>
    rw [trimStart_cons] at h
    split at h
    · exact ih h
    · next hd =>
      obtain ⟨rfl, -⟩ := List.cons.inj h
      simpa using hd

/-- Trimming at the end leaves a beginning of the text. -/
theorem trimEnd_prefix (s : List Char) : trimEnd s <+: s := by
  have h := List.reverse_prefix.mpr (trimStart_suffix s.reverse)
  rwa [List.reverse_reverse] at h

/-- **What is left of a text trimmed at the end does not end with a blank.** -/
theorem endsBlank_trimEnd (s : List Char) : endsBlank (trimEnd s) = false := by
  rw [endsBlank, trimEnd, List.getLast?_reverse]
  rcases hs : s.reverse.dropWhile isBlank with - | ⟨c, rest⟩
  · rfl
  · exact isBlank_of_trimStart_eq_cons hs

/-! ### Words -/

/-- The maximal runs of characters that are not blank. -/
def words (s : List Char) : List (List Char) :=
  match _h : trimStart s with
  | [] => []
  | c :: rest =>
    (c :: rest.takeWhile (!isBlank ·)) :: words (rest.dropWhile (!isBlank ·))
termination_by s.length
decreasing_by
  have h₁ : (c :: rest).length ≤ s.length := _h ▸ length_trimStart_le s
  have h₂ : (rest.dropWhile (!isBlank ·)).length ≤ rest.length :=
    (List.dropWhile_suffix _).length_le
  simp only [List.length_cons] at h₁
  omega

end HamlTree.Text
