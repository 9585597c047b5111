/-!
# JSON strings

Strings are written with the fewest escapes: the quote, the backslash and the characters below
U+0020 are escaped, five of them with a letter and the others with their code, and all else is raw.
They are read strictly: only the escapes of JSON, a surrogate escape only as one half of a pair, and
no bare control character.
-/

namespace HamlTree.Json

/-! ### Writing -/

/-- One hexadecimal digit, in lower case. -/
def hexDigit (n : Nat) : Char := if n < 10 then Char.ofNat (48 + n) else Char.ofNat (87 + n)

/-- One character inside a string. -/
def escapeChar (c : Char) : List Char :=
  match c with
  | '"' => ['\\', '"']
  | '\\' => ['\\', '\\']
  | '\x08' => ['\\', 'b']
  | '\x0c' => ['\\', 'f']
  | '\n' => ['\\', 'n']
  | '\r' => ['\\', 'r']
  | '\t' => ['\\', 't']
  | c =>
    if c.toNat < 32 then ['\\', 'u', '0', '0', hexDigit (c.toNat / 16), hexDigit (c.toNat % 16)]
    else [c]

/-- A string in quotes. -/
def quoteString (s : String) : List Char := '"' :: s.toList.flatMap escapeChar ++ ['"']

/-! ### Reading -/

/-- The value of a hexadecimal digit. -/
def hexValue? (c : Char) : Option Nat :=
  if c.isDigit then some (c.toNat - 48)
  else if 'a' ≤ c ∧ c ≤ 'f' then some (c.toNat - 87)
  else if 'A' ≤ c ∧ c ≤ 'F' then some (c.toNat - 55)
  else none

/-- Four hexadecimal digits and the rest. -/
def hex4? : List Char → Option (Nat × List Char)
  | a :: b :: c :: d :: rest => do
    let a ← hexValue? a
    let b ← hexValue? b
    let c ← hexValue? c
    let d ← hexValue? d
    return (4096 * a + 256 * b + 16 * c + d, rest)
  | _ => none

/-- The character of an escape with a code, after `\u`, and the rest. A high surrogate needs a low
one behind it, and a low one alone is refused. -/
def unicodeEscape? (s : List Char) : Option (Char × List Char) :=
  match hex4? s with
  | none => none
  | some (code, rest) =>
    if code < 0xd800 ∨ 0xdfff < code then
      some (Char.ofNat code, rest)
    else if code < 0xdc00 then
      match rest with
      | '\\' :: 'u' :: low =>
        match hex4? low with
        | some (code', rest) =>
          if 0xdc00 ≤ code' ∧ code' ≤ 0xdfff then
            some (Char.ofNat (0x10000 + (code - 0xd800) * 0x400 + (code' - 0xdc00)), rest)
          else
            none
        | none => none
      | _ => none
    else
      none

/-- The character that an escape stands for, after the backslash, and the rest. -/
def escape? : List Char → Option (Char × List Char)
  | '"' :: rest => some ('"', rest)
  | '\\' :: rest => some ('\\', rest)
  | '/' :: rest => some ('/', rest)
  | 'b' :: rest => some ('\x08', rest)
  | 'f' :: rest => some ('\x0c', rest)
  | 'n' :: rest => some ('\n', rest)
  | 'r' :: rest => some ('\r', rest)
  | 't' :: rest => some ('\t', rest)
  | 'u' :: rest => unicodeEscape? rest
  | _ => none

theorem length_of_hex4? {s rest : List Char} {n : Nat} (h : hex4? s = some (n, rest)) :
    rest.length < s.length := by
  unfold hex4? at h
  split at h
  · simp only [Option.bind_eq_bind, Option.bind_eq_some_iff, Option.pure_def, Option.some.injEq,
      Prod.mk.injEq] at h
    obtain ⟨_, _, _, _, _, _, _, _, _, rfl⟩ := h
    simp only [List.length_cons]
    omega
  · simp at h

theorem length_of_unicodeEscape? {s rest : List Char} {c : Char}
    (h : unicodeEscape? s = some (c, rest)) : rest.length < s.length := by
  unfold unicodeEscape? at h
  split at h
  · simp at h
  · next code mid hmid =>
    have hlt := length_of_hex4? hmid
    split at h
    · simp only [Option.some.injEq, Prod.mk.injEq] at h
      exact h.2 ▸ hlt
    · split at h
      · split at h
        · next low =>
          split at h
          · next code' final hlow =>
            have hlt' := length_of_hex4? hlow
            split at h
            · simp only [Option.some.injEq, Prod.mk.injEq] at h
              simp only [List.length_cons] at hlt
              rw [← h.2]
              omega
            · simp at h
          · simp at h
        · simp at h
      · simp at h

/-- An escape takes at least one character. -/
theorem length_of_escape? {s rest : List Char} {c : Char} (h : escape? s = some (c, rest)) :
    rest.length < s.length := by
  unfold escape? at h
  split at h
  case h_9 =>
    have := length_of_unicodeEscape? h
    simp only [List.length_cons]
    omega
  case h_10 => simp at h
  all_goals
    simp only [Option.some.injEq, Prod.mk.injEq] at h
    simp [h.2]

/-- The characters of a string up to its closing quote, after those already read (last first), and
the rest. -/
def stringBody? (read s : List Char) : Option (List Char × List Char) :=
  match s with
  | [] => none
  | '"' :: rest => some (read.reverse, rest)
  | '\\' :: rest =>
    match _h : escape? rest with
    | some (c, rest) => stringBody? (c :: read) rest
    | none => none
  | c :: rest => if c.toNat < 32 then none else stringBody? (c :: read) rest
termination_by s.length
decreasing_by
  · have := length_of_escape? _h
    simp only [List.length_cons]
    omega
  · simp

/-- A string takes at least its closing quote. -/
theorem length_of_stringBody? {read s body rest : List Char}
    (h : stringBody? read s = some (body, rest)) : rest.length < s.length := by
  fun_induction stringBody? read s with
  | case1 => simp at h
  | case2 =>
    simp only [Option.some.injEq, Prod.mk.injEq] at h
    simp [h.2]
  | case3 read r c r' hr ih =>
    have := ih h
    have := length_of_escape? hr
    simp only [List.length_cons]
    omega
  | case4 => simp at h
  | case5 => simp at h
  | case6 read c r _ _ _ ih =>
    have := ih h
    simp only [List.length_cons]
    omega

end HamlTree.Json
