import HamlTree.Json.Number

/-!
# Number literals in a text

The longest number literal at the beginning of a text, cut into its sign, its digits, its fraction
and its exponent. There is no plus sign, no leading zero before another digit, and no point or
exponent mark without digits after it: a text that begins so begins with no literal at all.

Each function returns the rest of the text as well, and the lemmas say that it is shorter.
-/

namespace HamlTree.Json

/-- The digits at the beginning of a text. -/
def digits (s : List Char) : List Char := s.takeWhile Char.isDigit

/-- What follows the digits at the beginning of a text. -/
def afterDigits (s : List Char) : List Char := s.dropWhile Char.isDigit

theorem length_afterDigits_le (s : List Char) : (afterDigits s).length ≤ s.length :=
  (List.dropWhile_suffix _).length_le

/-- The digits of a fraction, if the text begins with one, and the rest. -/
def fraction? : List Char → Option (Option (List Char) × List Char)
  | '.' :: rest => if digits rest = [] then none else some (some (digits rest), afterDigits rest)
  | s => some (none, s)

/-- The sign of an exponent, which may be missing, and the rest. -/
def exponentSign : List Char → Bool × List Char
  | '-' :: rest => (true, rest)
  | '+' :: rest => (false, rest)
  | s => (false, s)

/-- The exponent, if the text begins with one, and the rest. -/
def exponent? (s : List Char) : Option (Option (Bool × List Char) × List Char) :=
  match s with
  | [] => some (none, [])
  | c :: rest =>
    if c = 'e' ∨ c = 'E' then
      let (negative, rest) := exponentSign rest
      if digits rest = [] then none else some (some (negative, digits rest), afterDigits rest)
    else
      some (none, c :: rest)

/-- An unsigned number literal at the beginning of a text, and the rest. There is no leading zero
before another digit. -/
def unsigned? (negative : Bool) (s : List Char) : Option (Literal × List Char) :=
  let whole := digits s
  if whole = [] ∨ (whole.head? = some '0' ∧ whole ≠ ['0']) then
    none
  else do
    let (fraction, rest) ← fraction? (afterDigits s)
    let (exponent, rest) ← exponent? rest
    return (⟨negative, whole, fraction, exponent⟩, rest)

/-- The number literal at the beginning of a text, and the rest. -/
def literal? : List Char → Option (Literal × List Char)
  | '-' :: rest => unsigned? true rest
  | s => unsigned? false s

theorem length_of_fraction? {s rest : List Char} {f : Option (List Char)}
    (h : fraction? s = some (f, rest)) : rest.length ≤ s.length := by
  unfold fraction? at h
  split at h
  · next r =>
    split at h
    · simp at h
    · simp only [Option.some.injEq, Prod.mk.injEq] at h
      have := length_afterDigits_le r
      rw [← h.2]
      simp only [List.length_cons]
      omega
  · simp only [Option.some.injEq, Prod.mk.injEq] at h
    exact h.2 ▸ Nat.le_refl _

theorem length_exponentSign_le (s : List Char) : (exponentSign s).2.length ≤ s.length := by
  unfold exponentSign
  split <;> simp

theorem length_of_exponent? {s rest : List Char} {e : Option (Bool × List Char)}
    (h : exponent? s = some (e, rest)) : rest.length ≤ s.length := by
  unfold exponent? at h
  split at h
  · simp only [Option.some.injEq, Prod.mk.injEq] at h
    simp [← h.2]
  · next c r =>
    split at h
    · have h₁ := length_exponentSign_le r
      simp only at h
      split at h
      · simp at h
      · simp only [Option.some.injEq, Prod.mk.injEq] at h
        have h₂ := length_afterDigits_le (exponentSign r).2
        rw [← h.2]
        simp only [List.length_cons]
        omega
    · simp only [Option.some.injEq, Prod.mk.injEq] at h
      simp [← h.2]

theorem length_of_unsigned? {s rest : List Char} {negative : Bool} {l : Literal}
    (h : unsigned? negative s = some (l, rest)) : rest.length < s.length := by
  unfold unsigned? at h
  simp only at h
  split at h
  · simp at h
  · next hwhole =>
    simp only [Option.bind_eq_bind, Option.bind_eq_some_iff, Option.pure_def, Option.some.injEq,
      Prod.mk.injEq, Prod.exists] at h
    obtain ⟨_, mid, hf, _, last, he, _, rfl⟩ := h
    have h₁ := length_of_fraction? hf
    have h₂ := length_of_exponent? he
    have h₃ : (afterDigits s).length < s.length := by
      have hne : digits s ≠ [] := fun h ↦ hwhole (.inl h)
      have hsum : (digits s).length + (afterDigits s).length = s.length := by
        rw [← List.length_append, digits, afterDigits, List.takeWhile_append_dropWhile]
      have := List.length_pos_iff.mpr hne
      omega
    omega

theorem length_of_literal? {s rest : List Char} {l : Literal} (h : literal? s = some (l, rest)) :
    rest.length < s.length := by
  unfold literal? at h
  split at h
  · have := length_of_unsigned? h
    simp only [List.length_cons]
    omega
  · exact length_of_unsigned? h

end HamlTree.Json
