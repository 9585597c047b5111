import Mathlib.Data.List.Basic
import HamlTree.Line.Raw
import HamlTree.Text.Quoted

/-!
# Quoted text can be read back

Each character of a quoted text is written as one of three forms: a short escape, a code point in
braces after `\u`, or the character itself (`Text.QuotedAs`). Which form it is can be seen from the
beginning of it, and where it ends as well, so the quoted characters are a prefix code, and no two
texts have the same quoted form (`Text.quote_injective`).
-/

namespace HamlTree.Text

/-! ### Code points in hexadecimal -/

/-- The last digit of a number is its remainder, and the digits before it are those of the
quotient, if there are any. -/
theorem toDigits_sixteen (n : Nat) :
    Nat.toDigits 16 n =
      (if n < 16 then [] else Nat.toDigits 16 (n / 16)) ++ [Nat.digitChar (n % 16)] := by
  by_cases hn : n < 16
  · rw [if_pos hn, Nat.toDigits_of_lt_base hn, Nat.mod_eq_of_lt hn, List.nil_append]
  · have hlast := Nat.mod_lt n (show 0 < 16 by decide)
    rw [if_neg hn, ← Nat.toDigits_of_lt_base hlast,
      Nat.toDigits_append_toDigits (by decide) (by omega) hlast, Nat.div_add_mod]

theorem digitChar_inj : ∀ m < 16, ∀ n < 16, Nat.digitChar m = Nat.digitChar n → m = n := by
  decide

/-- **No two numbers have the same digits.** -/
theorem toDigits_sixteen_injective : Function.Injective (Nat.toDigits 16) := by
  intro m n h
  induction m using Nat.strongRecOn generalizing n with
  | _ m ih =>
    rw [toDigits_sixteen m, toDigits_sixteen n] at h
    obtain ⟨hinit, hlast⟩ := List.append_inj' h rfl
    have hmod := digitChar_inj _ (Nat.mod_lt m (by decide)) _ (Nat.mod_lt n (by decide))
      (List.singleton_inj.1 hlast)
    have hne : ∀ k, Nat.toDigits 16 k ≠ [] := fun k hk ↦ by
      rw [toDigits_sixteen] at hk
      exact List.append_ne_nil_of_right_ne_nil _ (List.cons_ne_nil _ _) hk
    by_cases hm : m < 16
    · by_cases hn : n < 16
      · omega
      · rw [if_pos hm, if_neg hn] at hinit
        exact absurd hinit.symm (hne _)
    · by_cases hn : n < 16
      · rw [if_neg hm, if_pos hn] at hinit
        exact absurd hinit (hne _)
      · rw [if_neg hm, if_neg hn] at hinit
        have hdiv := ih (m / 16) (by omega) hinit
        omega

/-- The digits of a number are digits. -/
theorem exists_of_mem_toDigits {n : Nat} {d : Char} (h : d ∈ Nat.toDigits 16 n) :
    ∃ k < 16, d = Nat.digitChar k := by
  induction n using Nat.strongRecOn with
  | _ n ih =>
    rw [toDigits_sixteen] at h
    rcases List.mem_append.1 h with h | h
    · split at h
      · exact absurd h List.not_mem_nil
      · exact ih (n / 16) (by omega) h
    · exact ⟨n % 16, Nat.mod_lt n (by decide), List.mem_singleton.1 h⟩

theorem hexCode_injective : Function.Injective hexCode :=
  fun _ _ h ↦ Char.toNat_inj.1 (toDigits_sixteen_injective h)

/-- No code point has a closing brace in it, nor a line end. -/
theorem of_mem_hexCode {c d : Char} (h : d ∈ hexCode c) :
    d ≠ '\x7d' ∧ Line.isLineEnd d = false := by
  have hall : ∀ k < 16, Nat.digitChar k ≠ '\x7d' ∧ Line.isLineEnd (Nat.digitChar k) = false := by
    decide
  obtain ⟨k, hk, rfl⟩ := exists_of_mem_toDigits h
  exact hall k hk

/-- So a code point ends at the first closing brace. -/
theorem hexCode_append_inj {c d : Char} {s t : List Char}
    (h : hexCode c ++ '\x7d' :: s = hexCode d ++ '\x7d' :: t) : c = d ∧ s = t := by
  have hcut : ∀ (c : Char) (s : List Char),
      (hexCode c ++ '\x7d' :: s).takeWhile (· != '\x7d') = hexCode c := fun c s ↦ by
    rw [List.takeWhile_append_of_pos fun d hd ↦ bne_iff_ne.2 (of_mem_hexCode hd).1]
    simp
  obtain rfl : c = d := hexCode_injective (by rw [← hcut c s, h, hcut])
  exact ⟨rfl, (List.cons.inj (List.append_cancel_left h)).2⟩

/-! ### One character -/

/-- The characters with a short escape, each with the letter that stands for it. -/
def shortEscapes : List (Char × Char) :=
  [('\x00', '0'), ('\t', 't'), ('\r', 'r'), ('\n', 'n'), ('"', '"'), ('\\', '\\')]

/-- The three forms of a quoted character. A character without a short escape is no backslash, so
the form is seen from the first two characters. -/
inductive QuotedAs (c : Char) : List Char → Prop
  /-- A backslash and a letter. -/
  | short {letter : Char} (hletter : (c, letter) ∈ shortEscapes) : QuotedAs c ['\\', letter]
  /-- A backslash, the letter u, and the code point in braces. -/
  | code : QuotedAs c ('\\' :: 'u' :: '\x7b' :: (hexCode c ++ ['\x7d']))
  /-- The character itself. -/
  | self (hc : ∀ letter, (c, letter) ∉ shortEscapes) : QuotedAs c [c]

theorem quotedAs_quoteChar (c : Char) : QuotedAs c (quoteChar c) := by
  rw [quoteChar.eq_def]
  split
  case h_7 =>
    split
    · exact .code
    · refine .self fun letter hmem ↦ ?_
      simp_all [shortEscapes]
  all_goals exact .short (by decide)

namespace QuotedAs

variable {c d : Char} {u v : List Char}

theorem ne_nil (h : QuotedAs c u) : u ≠ [] := by
  cases h <;> exact List.cons_ne_nil _ _

/-- A line end has a short escape, and nothing else that a character is quoted as has one in it. -/
theorem unbroken (h : QuotedAs c u) : ∀ x ∈ u, Line.isLineEnd x = false := by
  cases h with
  | short hletter =>
    have hletters : ∀ p ∈ shortEscapes, Line.isLineEnd p.2 = false := by decide
    exact List.forall_mem_cons.2 ⟨by decide, List.forall_mem_singleton.2 (hletters _ hletter)⟩
  | code =>
    have hbraces : ∀ x ∈ ['\\', 'u', '\x7b', '\x7d'], Line.isLineEnd x = false :=
      List.forall_iff_forall_mem.1 (by decide)
    intro x hx
    simp only [List.mem_cons, List.mem_append, List.not_mem_nil, or_false] at hx
    rcases hx with rfl | rfl | rfl | hx | rfl
    · exact hbraces _ (by simp)
    · exact hbraces _ (by simp)
    · exact hbraces _ (by simp)
    · exact (of_mem_hexCode hx).2
    · exact hbraces _ (by simp)
  | self hc =>
    intro x hx
    obtain rfl := List.mem_singleton.1 hx
    refine Bool.eq_false_iff.2 fun hend ↦ ?_
    simp only [Line.isLineEnd, Bool.or_eq_true, beq_iff_eq] at hend
    rcases hend with rfl | rfl
    · exact hc 'n' (by decide)
    · exact hc 'r' (by decide)

/-- **Quoted characters are a prefix code**: where one of them ends can be seen from it. -/
theorem append_inj (hc : QuotedAs c u) (hd : QuotedAs d v) {s t : List Char}
    (h : u ++ s = v ++ t) : c = d ∧ s = t := by
  have hletters : ∀ p ∈ shortEscapes, p.2 ≠ 'u' ∧ ∀ q ∈ shortEscapes, p.2 = q.2 → p.1 = q.1 := by
    decide
  have hbackslash : ('\\', '\\') ∈ shortEscapes := by decide
  cases hc with
  | @short letter hletter =>
    cases hd with
    | @short letter' hletter' =>
      obtain ⟨-, h⟩ := List.cons.inj h
      obtain ⟨rfl, rfl⟩ := List.cons.inj h
      exact ⟨(hletters _ hletter).2 _ hletter' rfl, rfl⟩
    | code =>
      obtain ⟨-, h⟩ := List.cons.inj h
      exact absurd (List.cons.inj h).1 (hletters _ hletter).1
    | self hd => exact absurd ((List.cons.inj h).1 ▸ hbackslash) (hd _)
  | code =>
    cases hd with
    | @short letter' hletter' =>
      obtain ⟨-, h⟩ := List.cons.inj h
      exact absurd (List.cons.inj h).1.symm (hletters _ hletter').1
    | code =>
      simp only [List.cons_append, List.append_assoc, List.nil_append, List.cons.injEq,
        true_and] at h
      exact hexCode_append_inj h
    | self hd => exact absurd ((List.cons.inj h).1 ▸ hbackslash) (hd _)
  | self hc =>
    cases hd with
    | short | code => exact absurd ((List.cons.inj h).1 ▸ hbackslash) (hc _)
    | self => exact List.cons.inj h

end QuotedAs

/-! ### Whole texts -/

/-- The characters of a text can be told apart when they are quoted. -/
theorem flatMap_quoteChar_inj {s t : List Char} (h : s.flatMap quoteChar = t.flatMap quoteChar) :
    s = t := by
  have hnil : ∀ {c : Char} {s : List Char}, (c :: s).flatMap quoteChar ≠ [] := fun {c s} hnil ↦
    (quotedAs_quoteChar c).ne_nil (List.append_eq_nil_iff.1 (List.flatMap_cons ▸ hnil)).1
  induction s generalizing t with
  | nil =>
    rcases t with - | ⟨d, t⟩
    · rfl
    · exact absurd h.symm hnil
  | cons c s ih =>
    rcases t with - | ⟨d, t⟩
    · exact absurd h hnil
    · rw [List.flatMap_cons, List.flatMap_cons] at h
      obtain ⟨rfl, hrest⟩ := (quotedAs_quoteChar c).append_inj (quotedAs_quoteChar d) h
      rw [ih hrest]

/-- **No two texts have the same quoted form.** -/
theorem quote_injective : Function.Injective quote := by
  intro s t h
  have hlist := congrArg String.toList h
  rw [toList_quote, toList_quote] at hlist
  obtain ⟨-, hlist⟩ := List.cons.inj hlist
  exact String.toList_inj.1 (flatMap_quoteChar_inj (List.append_cancel_right hlist))

/-- A quoted text is on one line. -/
theorem unbroken_quote (s : String) : ∀ c ∈ (quote s).toList, Line.isLineEnd c = false := by
  intro c hc
  rw [toList_quote] at hc
  have hmark : Line.isLineEnd '"' = false := by decide
  rcases List.mem_append.1 hc with hc | hc
  · rcases List.mem_cons.1 hc with rfl | hc
    · exact hmark
    · obtain ⟨d, -, hc⟩ := List.mem_flatMap.1 hc
      exact (quotedAs_quoteChar d).unbroken c hc
  · obtain rfl := List.mem_singleton.1 hc
    exact hmark

end HamlTree.Text
