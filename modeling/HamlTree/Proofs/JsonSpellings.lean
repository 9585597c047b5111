import Mathlib.Data.List.TakeWhile
import Mathlib.Tactic.SplitIfs
import HamlTree.Proofs.ValueTokens

/-!
# Spellings of JSON

Texts that are read need not be laid out as those that are written here. A character of a string may
stand for itself or be escaped, by a letter or by its code, the digits of which may be of either
case and which is cut into two halves if it has more than four of them; and any blanks may stand
around the tokens. A text that is such a spelling of tokens is cut into these tokens
(`Spells.tokenize`), and numbers aside no other text is (`spells_iff`). So a value without numbers
is read from exactly the spellings of its tokens (`Value.parse?_eq_some_iff`).
-/

namespace HamlTree.Json

/-! ### Spellings -/

/-- A hexadecimal digit, of either case, with its value. -/
def HexDigit (n : Nat) (c : Char) : Prop :=
  "0123456789abcdef".toList[n]? = some c ∨ "0123456789ABCDEF".toList[n]? = some c

/-- Four hexadecimal digits with the code that they are. -/
inductive HexCode : Nat → List Char → Prop
  /-- The digits, the highest first. -/
  | digits {a b c d : Nat} {a' b' c' d' : Char} (ha : HexDigit a a') (hb : HexDigit b b')
      (hc : HexDigit c c') (hd : HexDigit d d') :
      HexCode (4096 * a + 256 * b + 16 * c + d) [a', b', c', d']

/-- The letters of escapes with the characters that they stand for. -/
def escapeLetters : List (Char × Char) :=
  [('"', '"'), ('\\', '\\'), ('/', '/'), ('b', '\x08'), ('f', '\x0c'), ('n', '\n'), ('r', '\r'),
    ('t', '\t')]

/-- The spellings of a character inside a string. -/
inductive SpellsChar (c : Char) : List Char → Prop
  /-- The character itself. -/
  | raw (hquote : c ≠ '"') (hbackslash : c ≠ '\\') (hcontrol : 32 ≤ c.toNat) : SpellsChar c [c]
  /-- A letter. -/
  | letter {letter : Char} (hletter : (letter, c) ∈ escapeLetters) : SpellsChar c ['\\', letter]
  /-- The code of the character. -/
  | code {digits : List Char} (hcode : HexCode c.toNat digits) :
      SpellsChar c ('\\' :: 'u' :: digits)
  /-- Two halves of its code. -/
  | halves {high low : Nat} {digits digits' : List Char} (hhigh : high < 0x400)
      (hlow : low < 0x400) (hsum : c.toNat = 0x10000 + high * 0x400 + low)
      (hcode : HexCode (0xd800 + high) digits)
      (hcode' : HexCode (0xdc00 + low) digits') :
      SpellsChar c ('\\' :: 'u' :: (digits ++ '\\' :: 'u' :: digits'))

/-- The spellings of the characters of a string. -/
inductive SpellsString : List Char → List Char → Prop
  /-- There are no characters. -/
  | nil : SpellsString [] []
  /-- One character comes before the others. -/
  | cons {c : Char} {cs s rest : List Char} (hchar : SpellsChar c s)
      (hrest : SpellsString cs rest) : SpellsString (c :: cs) (s ++ rest)

/-- The spellings of a token, no number being spelled. -/
inductive SpellsToken : Token → List Char → Prop
  /-- All tokens but the strings have one spelling. -/
  | fixed {t : Token} (hstring : ∀ s, t ≠ .string s) (hnumber : ∀ n, t ≠ .number n) :
      SpellsToken t t.text
  /-- A string has quotes around it. -/
  | string {s : String} {body : List Char} (hbody : SpellsString s.toList body) :
      SpellsToken (.string s) ('"' :: body ++ ['"'])

/-- The texts that spell tokens, with any blanks around them. -/
inductive Spells : List Token → List Char → Prop
  /-- There are no more tokens. -/
  | blank {blanks : List Char} (hblanks : ∀ c ∈ blanks, isSpace c = true) : Spells [] blanks
  /-- One token comes before the others. -/
  | token {t : Token} {ts : List Token} {blanks s rest : List Char}
      (hblanks : ∀ c ∈ blanks, isSpace c = true) (htoken : SpellsToken t s)
      (hrest : Spells ts rest) : Spells (t :: ts) (blanks ++ (s ++ rest))

/-! ### Spellings are read -/

/-- A digit is read as its value, -/
theorem HexDigit.hexValue? {n : Nat} {c : Char} (h : HexDigit n c) : hexValue? c = some n := by
  have hall : ∀ n < 16, "0123456789abcdef".toList[n]?.bind Json.hexValue? = some n ∧
      "0123456789ABCDEF".toList[n]?.bind Json.hexValue? = some n := by decide
  rcases h with h | h <;> have hn := (List.getElem?_eq_some_iff.1 h).1
  · have hread := (hall n hn).1
    rwa [h] at hread
  · have hread := (hall n hn).2
    rwa [h] at hread

/-- and four of them are read as their code. -/
theorem HexCode.hex4? {n : Nat} {digits : List Char} (h : HexCode n digits) (rest : List Char) :
    hex4? (digits ++ rest) = some (n, rest) := by
  cases h with
  | digits ha hb hc hd =>
    simp only [List.cons_append, List.nil_append, Json.hex4?, ha.hexValue?, hb.hexValue?,
      hc.hexValue?, hd.hexValue?, Option.bind_eq_bind, Option.bind_some]
    rfl

/-- The code of a character is none of the halves of another one. -/
theorem toNat_lt_or_lt (c : Char) : c.toNat < 0xd800 ∨ 0xdfff < c.toNat :=
  c.valid.imp_right And.left

/-- **A character is read from each of its spellings.** -/
theorem SpellsChar.stringBody? {c : Char} {s : List Char} (h : SpellsChar c s)
    (read rest : List Char) : stringBody? read (s ++ rest) = stringBody? (c :: read) rest := by
  cases h with
  | raw hquote hbackslash hcontrol =>
    exact (WrittenAs.raw hquote hbackslash (Nat.not_lt.2 hcontrol)).stringBody? read rest
  | letter hletter =>
    refine stringBody?_escape ?_ read
    simp only [escapeLetters, List.mem_cons, Prod.mk.injEq, List.not_mem_nil, or_false] at hletter
    rcases hletter with h | h | h | h | h | h | h | h <;> obtain ⟨rfl, rfl⟩ := h <;> rfl
  | code hcode =>
    rw [List.cons_append, List.cons_append]
    refine stringBody?_escape ?_ read
    rw [escape?, unicodeEscape?, hcode.hex4?]
    simp only
    rw [if_pos (toNat_lt_or_lt c), Char.ofNat_toNat]
  | @halves high low digits digits' hhigh hlow hsum hcode hcode' =>
    have hvalue : 0x10000 + (0xd800 + high - 0xd800) * 0x400 + (0xdc00 + low - 0xdc00) =
        c.toNat := by omega
    rw [List.cons_append, List.cons_append]
    refine stringBody?_escape ?_ read
    rw [escape?, List.append_assoc, unicodeEscape?, hcode.hex4?]
    simp only [List.cons_append]
    rw [if_neg (by omega), if_pos (by omega), hcode'.hex4?]
    simp only
    rw [if_pos (by omega), hvalue, Char.ofNat_toNat]

/-- The characters of a string are read from each of their spellings, up to the closing quote. -/
theorem SpellsString.stringBody? {cs s : List Char} (h : SpellsString cs s)
    (read rest : List Char) :
    stringBody? read (s ++ '"' :: rest) = some (read.reverse ++ cs, rest) := by
  induction h generalizing read with
  | nil => rw [List.nil_append, Json.stringBody?, List.append_nil]
  | cons hchar _ ih => simp [hchar.stringBody?, ih]

/-- **A token is read from each of its spellings**, -/
theorem SpellsToken.token? {t : Token} {s : List Char} (h : SpellsToken t s) (rest : List Char) :
    token? (s ++ rest) = some (t, rest) := by
  cases h with
  | fixed _ hnumber => exact token?_text hnumber rest
  | string hbody =>
    rw [List.append_assoc, List.cons_append, List.singleton_append, Json.token?,
      hbody.stringBody?]
    simp

/-- which does not begin with a blank. -/
theorem SpellsToken.exists_eq_cons {t : Token} {s : List Char} (h : SpellsToken t s) :
    ∃ c rest, s = c :: rest ∧ isSpace c = false := by
  cases h with
  | fixed _ hnumber => exact exists_text_eq_cons hnumber
  | string => exact ⟨'"', _, rfl, by decide⟩

/-- **A text is cut into the tokens that it spells.** -/
theorem Spells.tokenize {ts : List Token} {s : List Char} (h : Spells ts s) :
    tokenize s = some ts := by
  induction h with
  | blank hblanks =>
    rw [tokenize_eq, if_pos (List.dropWhile_eq_nil_iff.2 hblanks)]
  | @token t ts blanks s rest hblanks htoken _ ih =>
    obtain ⟨c, s', rfl, hc⟩ := htoken.exists_eq_cons
    have hdrop : (c :: s' ++ rest).dropWhile isSpace = c :: s' ++ rest := by simp [hc]
    rw [tokenize_append_of_space hblanks, tokenize_eq, hdrop, if_neg (by simp), htoken.token?,
      Option.bind_some, ih, Option.map_some]

/-! ### What is read is a spelling -/

instance (n : Nat) (c : Char) : Decidable (HexDigit n c) := inferInstanceAs (Decidable (_ ∨ _))

/-- Only digits have a value. -/
theorem hexDigit_of_hexValue? {n : Nat} {c : Char} (h : hexValue? c = some n) : HexDigit n c := by
  have hall : ∀ k < 103, ∀ n ∈ hexValue? (Char.ofNat k), HexDigit n (Char.ofNat k) := by decide
  have hc : c.toNat < 103 := by
    simp only [hexValue?, Char.isDigit, Char.isValue, Char.reduceVal, ge_iff_le,
      UInt32.le_iff_toNat_le, UInt32.reduceToNat, Char.toNat_val, Bool.and_eq_true,
      decide_eq_true_eq, Char.le_def] at h
    split_ifs at h <;> omega
  have hdigit := hall c.toNat hc n
  rw [Char.ofNat_toNat] at hdigit
  exact hdigit h

/-- A code has four digits. -/
theorem exists_of_hex4? {n : Nat} {s rest : List Char} (h : hex4? s = some (n, rest)) :
    ∃ digits, s = digits ++ rest ∧ HexCode n digits := by
  unfold hex4? at h
  split at h
  · simp only [Option.bind_eq_bind, Option.bind_eq_some_iff, Option.pure_def, Option.some.injEq,
      Prod.mk.injEq] at h
    obtain ⟨a, ha, b, hb, c, hc, d, hd, rfl, rfl⟩ := h
    exact ⟨[_, _, _, _], rfl, .digits (hexDigit_of_hexValue? ha) (hexDigit_of_hexValue? hb)
      (hexDigit_of_hexValue? hc) (hexDigit_of_hexValue? hd)⟩
  · exact absurd h (by simp)

theorem HexDigit.lt {n : Nat} {c : Char} (h : HexDigit n c) : n < 16 := by
  rcases h with h | h <;> exact (List.getElem?_eq_some_iff.1 h).1

theorem HexCode.lt {n : Nat} {digits : List Char} (h : HexCode n digits) : n < 0x10000 := by
  cases h with
  | digits ha hb hc hd =>
    have := ha.lt
    have := hb.lt
    have := hc.lt
    have := hd.lt
    omega

/-- A character has the code that it is made of. -/
theorem toNat_ofNat_of_isValidChar {n : Nat} (h : n.isValidChar) : (Char.ofNat n).toNat = n := by
  rw [Char.ofNat, dif_pos h]
  rfl

/-- The escape that a code or two halves of one are is a spelling of the character. -/
theorem exists_of_unicodeEscape? {c : Char} {s rest : List Char}
    (h : unicodeEscape? s = some (c, rest)) :
    ∃ written, s = written ++ rest ∧ SpellsChar c ('\\' :: 'u' :: written) := by
  unfold unicodeEscape? at h
  split at h
  · exact absurd h (by simp)
  · next code mid hmid =>
    obtain ⟨digits, rfl, hcode⟩ := exists_of_hex4? hmid
    have hlt := hcode.lt
    split at h
    · next hrange =>
      obtain ⟨rfl, rfl⟩ := Prod.mk.inj (Option.some.inj h)
      have hvalid : code.isValidChar := by
        rw [Nat.isValidChar]
        omega
      refine ⟨digits, rfl, .code ?_⟩
      rwa [toNat_ofNat_of_isValidChar hvalid]
    · split at h
      · split at h
        · split at h
          · next code' final hfinal =>
            obtain ⟨digits', rfl, hcode'⟩ := exists_of_hex4? hfinal
            split at h
            · obtain ⟨rfl, rfl⟩ := Prod.mk.inj (Option.some.inj h)
              obtain ⟨high, rfl⟩ := Nat.exists_eq_add_of_le (show 0xd800 ≤ code by omega)
              obtain ⟨low, rfl⟩ := Nat.exists_eq_add_of_le (show 0xdc00 ≤ code' by omega)
              have hvalid : (0x10000 + (0xd800 + high - 0xd800) * 0x400 +
                  (0xdc00 + low - 0xdc00)).isValidChar := by
                rw [Nat.isValidChar]
                omega
              refine ⟨digits ++ '\\' :: 'u' :: digits', by simp,
                .halves (by omega) (by omega) ?_ hcode hcode'⟩
              rw [toNat_ofNat_of_isValidChar hvalid]
              simp only [Nat.add_sub_cancel_left]
            · exact absurd h (by simp)
          · exact absurd h (by simp)
        · exact absurd h (by simp)
      · exact absurd h (by simp)

/-- An escape is a spelling of the character that it stands for. -/
theorem exists_of_escape? {c : Char} {s rest : List Char} (h : escape? s = some (c, rest)) :
    ∃ written, s = written ++ rest ∧ SpellsChar c ('\\' :: written) := by
  unfold escape? at h
  split at h
  case h_9 =>
    obtain ⟨written, rfl, hspells⟩ := exists_of_unicodeEscape? h
    exact ⟨'u' :: written, rfl, hspells⟩
  case h_10 => exact absurd h (by simp)
  all_goals
    obtain ⟨rfl, rfl⟩ := Prod.mk.inj (Option.some.inj h)
    exact ⟨[_], rfl, .letter (by decide)⟩

/-- What is read as the characters of a string is a spelling of them. -/
theorem exists_of_stringBody? {read s body rest : List Char}
    (h : stringBody? read s = some (body, rest)) :
    ∃ cs written, body = read.reverse ++ cs ∧ s = written ++ '"' :: rest ∧
      SpellsString cs written := by
  fun_induction stringBody? read s with
  | case1 => exact absurd h (by simp)
  | case2 read rest' =>
    obtain ⟨rfl, rfl⟩ := Prod.mk.inj (Option.some.inj h)
    exact ⟨[], [], by simp, rfl, .nil⟩
  | case3 read s c rest' hescape ih =>
    obtain ⟨cs, written, rfl, rfl, hcs⟩ := ih h
    obtain ⟨s, rfl, hc⟩ := exists_of_escape? hescape
    exact ⟨c :: cs, '\\' :: s ++ written, by simp, by simp, .cons hc hcs⟩
  | case4 => exact absurd h (by simp)
  | case5 => exact absurd h (by simp)
  | case6 read c s hquote hbackslash hcontrol ih =>
    obtain ⟨cs, written, rfl, rfl, hcs⟩ := ih h
    exact ⟨c :: cs, [c] ++ written, by simp, by simp,
      .cons (.raw hquote hbackslash (Nat.not_lt.1 hcontrol)) hcs⟩

/-- What is read as a token is a spelling of it. -/
theorem exists_of_token? {t : Token} {s rest : List Char} (h : token? s = some (t, rest))
    (hnumber : ∀ n, t ≠ .number n) : ∃ written, s = written ++ rest ∧ SpellsToken t written := by
  unfold token? at h
  split at h
  case h_7 =>
    obtain ⟨⟨body, rest'⟩, hbody, h⟩ := Option.map_eq_some_iff.1 h
    obtain ⟨rfl, rfl⟩ := Prod.mk.inj h
    obtain ⟨cs, written, rfl, rfl, hcs⟩ := exists_of_stringBody? hbody
    exact ⟨'"' :: written ++ ['"'], by simp, .string (by simpa using hcs)⟩
  case h_11 =>
    simp only [Option.bind_eq_bind, Option.bind_eq_some_iff, Option.pure_def, Option.some.injEq,
      Prod.mk.injEq, Prod.exists] at h
    obtain ⟨_, _, _, n, _, rfl, rfl⟩ := h
    exact absurd rfl (hnumber n)
  all_goals
    obtain ⟨rfl, rfl⟩ := Prod.mk.inj (Option.some.inj h)
    exact ⟨_, rfl, .fixed (by simp) hnumber⟩

/-- **A text is a spelling of the tokens that it is cut into**, if there is no number among them. -/
theorem spells_of_tokenize {ts : List Token} {s : List Char} (h : tokenize s = some ts)
    (hnumber : ∀ n, .number n ∉ ts) : Spells ts s := by
  fun_induction tokenize s generalizing ts with
  | case1 s hs =>
    obtain rfl := Option.some.inj h
    exact .blank (List.dropWhile_eq_nil_iff.1 hs)
  | case2 s c s' hs t rest ht ih =>
    obtain ⟨ts, hts, rfl⟩ := Option.map_eq_some_iff.1 h
    obtain ⟨ht', hnumber⟩ := forall_and.1 fun n ↦ not_or.1 (List.mem_cons.not.1 (hnumber n))
    obtain ⟨written, hwritten, htoken⟩ := exists_of_token? ht fun n hn ↦ ht' n hn.symm
    rw [← List.takeWhile_append_dropWhile (p := isSpace) (l := s), hs, hwritten]
    exact .token (fun c hc ↦ List.mem_takeWhile_imp hc) htoken (ih hts hnumber)
  | case3 => exact absurd h (by simp)

/-- No number is spelled. -/
theorem Spells.number_notMem {ts : List Token} {s : List Char} (h : Spells ts s) (n : Number) :
    .number n ∉ ts := by
  induction h with
  | blank => exact List.not_mem_nil
  | token _ htoken _ ih =>
    refine List.not_mem_cons_of_ne_of_not_mem (fun heq ↦ ?_) ih
    subst heq
    cases htoken with
    | fixed _ hnumber => exact hnumber n rfl

/-- **The spellings of tokens are the texts that are cut into them**, numbers aside. -/
theorem spells_iff {ts : List Token} {s : List Char} :
    Spells ts s ↔ tokenize s = some ts ∧ ∀ n, .number n ∉ ts :=
  ⟨fun h ↦ ⟨h.tokenize, h.number_notMem⟩, fun h ↦ spells_of_tokenize h.1 h.2⟩

/-! ### Values and spellings -/

namespace Value

/-- **A value without numbers is read from the spellings of its tokens**, and from no other text. -/
theorem parse?_eq_some_iff {v : Value} (h : ∀ n, .number n ∉ v.tokens) {text : String} :
    parse? text = some v ↔ Spells v.tokens text.toList := by
  rw [parse?, Option.bind_eq_some_iff, spells_iff]
  constructor
  · rintro ⟨ts, hts, hv⟩
    obtain rfl := ofTokens?_eq_some_iff.1 hv
    exact ⟨hts, h⟩
  · rintro ⟨hts, -⟩
    exact ⟨v.tokens, hts, ofTokens?_tokens v⟩

end Value

end HamlTree.Json
