import HamlTree.Json.Reader
import HamlTree.Json.Writer
import HamlTree.Text.Blank

/-!
# JSON texts are read as they are written

Both layouts of a value are sequences of pieces: its tokens, and in the pretty layout blanks between
them. Reading cuts a text of pieces into the tokens among them (`tokenize_pieces`), whatever the
blanks, because no token but a number needs to know what follows it; and the machine with its stack
builds a value from the tokens of that value (`State.run?_tokens`). So a value without numbers is
read back from either layout (`Value.parse?_compact`, `Value.parse?_pretty`).

Taking the blanks away again needs no tokens: it is enough to know where a string begins and where
it ends (`dropLayout`), and what is left of the pretty text is the compact one
(`Value.dropLayout_pretty`).
-/

namespace HamlTree.Json

open Text

/-! ### Characters of a string -/

/-- The forms in which a character is written inside a string. -/
inductive WrittenAs (c : Char) : List Char → Prop
  /-- A backslash, a letter that tells the escape, and digits. -/
  | escape {letter : Char} {digits : List Char}
      (hread : ∀ rest, escape? (letter :: (digits ++ rest)) = some (c, rest))
      (hdigits : ∀ d ∈ digits, d ≠ '"' ∧ d ≠ '\\') : WrittenAs c ('\\' :: letter :: digits)
  /-- The character itself. -/
  | raw (hquote : c ≠ '"') (hbackslash : c ≠ '\\') (hcontrol : ¬ c.toNat < 32) : WrittenAs c [c]

theorem hexValue?_hexDigit : ∀ n < 16, hexValue? (hexDigit n) = some n := by decide

theorem hexDigit_ne : ∀ n < 16, hexDigit n ≠ '"' ∧ hexDigit n ≠ '\\' := by decide

/-- The code of a control character is read back. -/
theorem escape?_control {c : Char} (h : c.toNat < 32) (rest : List Char) :
    escape? ('u' :: '0' :: '0' :: hexDigit (c.toNat / 16) :: hexDigit (c.toNat % 16) :: rest) =
      some (c, rest) := by
  have hhigh := hexValue?_hexDigit (c.toNat / 16) (by omega)
  have hlow := hexValue?_hexDigit (c.toNat % 16) (by omega)
  have hzero : hexValue? '0' = some 0 := by decide
  have hcode : hex4? ('0' :: '0' :: hexDigit (c.toNat / 16) :: hexDigit (c.toNat % 16) :: rest) =
      some (c.toNat, rest) := by
    have hsum : 4096 * 0 + 256 * 0 + 16 * (c.toNat / 16) + c.toNat % 16 = c.toNat := by omega
    simp only [hex4?, hzero, hhigh, hlow, Option.bind_eq_bind, Option.bind_some, hsum]
    rfl
  rw [escape?, unicodeEscape?, hcode]
  simp only
  rw [if_pos (.inl (by omega)), Char.ofNat_toNat]

/-- **A character is written in one of these forms.** -/
theorem writtenAs_escapeChar (c : Char) : WrittenAs c (escapeChar c) := by
  rw [escapeChar.eq_def]
  split
  case h_8 hquote hbackslash _ _ _ _ _ =>
    split
    · next hcontrol =>
      refine .escape (fun rest ↦ escape?_control hcontrol rest) fun d hd ↦ ?_
      simp only [List.mem_cons, List.not_mem_nil, or_false] at hd
      rcases hd with rfl | rfl | rfl | rfl
      · decide
      · decide
      · exact hexDigit_ne _ (by omega)
      · exact hexDigit_ne _ (by omega)
    · next hcontrol => exact .raw hquote hbackslash hcontrol
  all_goals exact .escape (fun _ ↦ rfl) (by simp)

/-- In a string, an escape is read as the character that it stands for. -/
theorem stringBody?_escape {s rest : List Char} {c : Char} (h : escape? s = some (c, rest))
    (read : List Char) : stringBody? read ('\\' :: s) = stringBody? (c :: read) rest := by
  rw [stringBody?]
  split
  · next h' =>
    obtain ⟨rfl, rfl⟩ := Prod.mk.inj (Option.some.inj (h.symm.trans h'))
    rfl
  · next h' => exact absurd (h.symm.trans h') (by simp)

/-- A character is read as it is written. -/
theorem WrittenAs.stringBody? {c : Char} {s : List Char} (h : WrittenAs c s)
    (read rest : List Char) : stringBody? read (s ++ rest) = stringBody? (c :: read) rest := by
  cases h with
  | escape hread => exact stringBody?_escape (hread rest) read
  | raw hquote hbackslash hcontrol =>
    rw [List.singleton_append, stringBody?.eq_def]
    split
    · next h => exact absurd h (by simp)
    · next h => exact absurd (List.cons.inj h).1 hquote
    · next h => exact absurd (List.cons.inj h).1 hbackslash
    · next h =>
      obtain ⟨rfl, rfl⟩ := List.cons.inj h
      rw [if_neg hcontrol]

/-- **The characters of a string are read as they are written**, up to the closing quote. -/
theorem stringBody?_flatMap (read s rest : List Char) :
    stringBody? read (s.flatMap escapeChar ++ '"' :: rest) = some (read.reverse ++ s, rest) := by
  induction s generalizing read with
  | nil =>
    rw [List.flatMap_nil, List.nil_append, stringBody?, List.append_nil]
  | cons c s ih =>
    rw [List.flatMap_cons, List.append_assoc, (writtenAs_escapeChar c).stringBody?, ih]
    simp

/-! ### Tokens and the blanks between them -/

/-- **A token is read as it is written**, if it is no number. -/
theorem token?_text {t : Token} (h : ∀ n, t ≠ .number n) (rest : List Char) :
    token? (t.text ++ rest) = some (t, rest) := by
  match t with
  | .openBrace | .closeBrace | .openBracket | .closeBracket | .colon | .comma | .null
  | .bool true | .bool false => rfl
  | .number n => exact absurd rfl (h n)
  | .string s =>
    have hbody := stringBody?_flatMap [] s.toList rest
    have htext : Token.text (.string s) ++ rest =
        '"' :: (s.toList.flatMap escapeChar ++ '"' :: rest) := by simp [Token.text, quoteString]
    rw [htext, token?, hbody]
    simp

/-- No token begins with a blank. -/
theorem exists_text_eq_cons {t : Token} (h : ∀ n, t ≠ .number n) :
    ∃ c s, t.text = c :: s ∧ isSpace c = false := by
  match t with
  | .openBrace | .closeBrace | .openBracket | .closeBracket | .colon | .comma | .null
  | .bool true | .bool false => exact ⟨_, _, rfl, by decide⟩
  | .number n => exact absurd rfl (h n)
  | .string s => exact ⟨'"', _, rfl, by decide⟩

/-- Cutting a text into tokens begins after the blanks. -/
theorem tokenize_eq (s : List Char) :
    tokenize s =
      if s.dropWhile isSpace = [] then some []
      else (token? (s.dropWhile isSpace)).bind fun p ↦ (tokenize p.2).map (p.1 :: ·) := by
  rw [tokenize]
  split
  · next h => rw [if_pos h]
  · next h =>
    rw [if_neg (by simp [h]), h]
    split
    · next ht => rw [ht, Option.bind_some]
    · next ht => rw [ht, Option.bind_none]

/-- Blanks before a token do not count. -/
theorem tokenize_append_of_space {blanks : List Char} (h : ∀ c ∈ blanks, isSpace c = true)
    (s : List Char) : tokenize (blanks ++ s) = tokenize s := by
  rw [tokenize_eq, List.dropWhile_append_of_pos h, ← tokenize_eq]

/-- The first token is cut off, and the rest is cut in the same way. -/
theorem tokenize_text_append {t : Token} (h : ∀ n, t ≠ .number n) (s : List Char) :
    tokenize (t.text ++ s) = (tokenize s).map (t :: ·) := by
  obtain ⟨c, rest, htext, hc⟩ := exists_text_eq_cons h
  have hdrop : (t.text ++ s).dropWhile isSpace = t.text ++ s := by simp [htext, hc]
  rw [tokenize_eq, hdrop, if_neg (by simp [htext]), token?_text h s, Option.bind_some]

namespace Piece

@[simp] theorem token?_token (t : Token) : (token t).token? = some t := rfl

@[simp] theorem token?_space : space.token? = none := rfl

@[simp] theorem token?_newline (level : Nat) : (newline level).token? = none := rfl

/-- A piece is its token, if it is one. -/
theorem eq_token_of_token? {p : Piece} {t : Token} (h : p.token? = some t) : p = .token t := by
  cases p with
  | token => exact congrArg token (Option.some.inj h)
  | space | newline => exact absurd h (by simp)

/-- The other pieces consist of blanks. -/
theorem isSpace_of_mem_text {p : Piece} (h : p.token? = none) : ∀ c ∈ p.text, isSpace c = true := by
  cases p with
  | token t => exact absurd h (by simp)
  | space => simp [text, isSpace]
  | newline level =>
    intro c hc
    rcases List.mem_cons.1 hc with rfl | hc
    · decide
    · rw [List.eq_of_mem_replicate hc]
      decide

end Piece

/-- **A text of pieces is cut into the tokens among them.** -/
theorem tokenize_pieces {ps : List Piece} (h : ∀ n, .number n ∉ ps.filterMap Piece.token?) :
    tokenize (ps.flatMap Piece.text) = some (ps.filterMap Piece.token?) := by
  induction ps with
  | nil => rw [List.flatMap_nil, List.filterMap_nil, tokenize]; rfl
  | cons p ps ih =>
    rcases htoken : p.token? with - | t
    · rw [List.filterMap_cons_none htoken] at h ⊢
      rw [List.flatMap_cons, tokenize_append_of_space (Piece.isSpace_of_mem_text htoken), ih h]
    · rw [List.filterMap_cons_some htoken] at h ⊢
      have ht : ∀ n, t ≠ .number n := fun n hn ↦ h n (hn ▸ List.mem_cons_self)
      rw [List.flatMap_cons, Piece.eq_token_of_token? htoken, Piece.text, tokenize_text_append ht,
        ih fun n hn ↦ h n (List.mem_cons_of_mem t hn), Option.map_some]

/-! ### Values from their tokens -/

namespace State

/-- The first token of a value does not end an array. -/
theorem firstItem_run? (outer : List Frame) (v : Value) (ts : List Token) :
    (firstItem outer).run? (v.tokens ++ ts) =
      (value (.array [] :: outer)).run? (v.tokens ++ ts) := by
  cases v <;> rfl

mutual

/-- **The tokens of a value are read as that value**, wherever it stands. -/
theorem run?_tokens (outer : List Frame) :
    (v : Value) → (value outer).run? v.tokens = some (complete v outer)
  | .null | .bool _ | .number _ | .string _ => rfl
  | .array [] | .object [] => rfl
  | .array (v :: items) => by
    have hopen : (value outer).run? (Value.array (v :: items)).tokens =
        (firstItem outer).run? (v.tokens ++ (Value.moreItemTokens items ++ [.closeBracket])) := by
      simp [Value.tokens, Value.itemTokens, run?_cons, step?, begin?]
    rw [hopen, firstItem_run?, run?_append, run?_tokens (.array [] :: outer) v, Option.bind_some,
      complete, run?_moreItemTokens]
    rfl
  | .object ((name, v) :: members) => by
    have hopen : (value outer).run? (Value.object ((name, v) :: members)).tokens =
        (value (.object [] name :: outer)).run?
          (v.tokens ++ (Value.moreMemberTokens members ++ [.closeBrace])) := by
      simp [Value.tokens, Value.memberTokens, run?_cons, step?, begin?]
    rw [hopen, run?_append, run?_tokens (.object [] name :: outer) v, Option.bind_some,
      complete, run?_moreMemberTokens]
    rfl

/-- So are the tokens of the items that follow others, -/
theorem run?_moreItemTokens (items : List Value) (outer : List Frame) : (more : List Value) →
    (afterItem items outer).run? (Value.moreItemTokens more ++ [.closeBracket]) =
      some (complete (.array (items.reverse ++ more)) outer)
  | [] => by simp [Value.moreItemTokens, run?_cons, step?]
  | v :: more => by
    have hcomma : (afterItem items outer).run?
          (Value.moreItemTokens (v :: more) ++ [.closeBracket]) =
        (value (.array items :: outer)).run?
          (v.tokens ++ (Value.moreItemTokens more ++ [.closeBracket])) := by
      simp [Value.moreItemTokens, run?_cons, step?]
    rw [hcomma, run?_append, run?_tokens (.array items :: outer) v, Option.bind_some, complete,
      run?_moreItemTokens, List.reverse_cons, List.append_assoc, List.singleton_append]

/-- and those of the members. -/
theorem run?_moreMemberTokens (members : List (String × Value)) (outer : List Frame) :
    (more : List (String × Value)) →
    (afterMember members outer).run? (Value.moreMemberTokens more ++ [.closeBrace]) =
      some (complete (.object (members.reverse ++ more)) outer)
  | [] => by simp [Value.moreMemberTokens, run?_cons, step?]
  | (name, v) :: more => by
    have hcomma : (afterMember members outer).run?
          (Value.moreMemberTokens ((name, v) :: more) ++ [.closeBrace]) =
        (value (.object members name :: outer)).run?
          (v.tokens ++ (Value.moreMemberTokens more ++ [.closeBrace])) := by
      simp [Value.moreMemberTokens, run?_cons, step?]
    rw [hcomma, run?_append, run?_tokens (.object members name :: outer) v, Option.bind_some,
      complete, run?_moreMemberTokens, List.reverse_cons, List.append_assoc,
      List.singleton_append]

end

end State

namespace Value

mutual

/-- The tokens among the pieces of the pretty layout are those of the value. -/
theorem filterMap_pieces (level : Nat) :
    (v : Value) → (v.pieces level).filterMap Piece.token? = v.tokens
  | .null | .bool _ | .number _ | .string _ => rfl
  | .array [] | .object [] => rfl
  | .array (v :: items) => by
    simp [pieces, tokens, itemTokens, List.filterMap_cons, filterMap_pieces (level + 1) v,
      filterMap_morePieces (level + 1) items]
  | .object ((name, v) :: members) => by
    simp [pieces, tokens, memberTokens, List.filterMap_cons, filterMap_pieces (level + 1) v,
      filterMap_moreMemberPieces (level + 1) members]

theorem filterMap_morePieces (level : Nat) :
    (items : List Value) → (morePieces level items).filterMap Piece.token? = moreItemTokens items
  | [] => rfl
  | v :: items => by
    simp [morePieces, moreItemTokens, List.filterMap_cons, filterMap_pieces level v,
      filterMap_morePieces level items]

theorem filterMap_moreMemberPieces (level : Nat) : (members : List (String × Value)) →
    (moreMemberPieces level members).filterMap Piece.token? = moreMemberTokens members
  | [] => rfl
  | (name, v) :: members => by
    simp [moreMemberPieces, moreMemberTokens, List.filterMap_cons, filterMap_pieces level v,
      filterMap_moreMemberPieces level members]

end

/-- A value is what its tokens are. -/
theorem ofTokens?_tokens (v : Value) : ofTokens? v.tokens = some v := by
  rw [ofTokens?, State.run?_tokens]
  rfl

/-- The compact text consists of pieces as well. -/
theorem compact_eq_pieces (v : Value) :
    v.compact = String.ofList ((v.tokens.map Piece.token).flatMap Piece.text) := by
  rw [compact, List.flatMap_map]
  rfl

theorem filterMap_map_token (ts : List Token) :
    (ts.map Piece.token).filterMap Piece.token? = ts := by
  rw [List.filterMap_map]
  exact List.filterMap_some

/-- **A value without numbers is read back from its compact text**, -/
theorem parse?_compact {v : Value} (h : ∀ n, .number n ∉ v.tokens) : parse? v.compact = some v := by
  have htokens := @tokenize_pieces (v.tokens.map Piece.token)
    (by rwa [filterMap_map_token])
  rw [parse?, compact_eq_pieces, String.toList_ofList, htokens, filterMap_map_token]
  exact ofTokens?_tokens v

/-- **and from its pretty text.** -/
theorem parse?_pretty {v : Value} (h : ∀ n, .number n ∉ v.tokens) : parse? v.pretty = some v := by
  have htokens := @tokenize_pieces (v.pieces 0) (by rwa [filterMap_pieces])
  rw [parse?, pretty, String.toList_ofList, htokens, filterMap_pieces]
  exact ofTokens?_tokens v

end Value

/-! ### Blanks outside of strings -/

/-- Where in a text a character stands. -/
inductive Place where
  /-- Outside of strings. -/
  | outside
  /-- In a string. -/
  | inside
  /-- In a string, right after a backslash. -/
  | escaped
deriving DecidableEq

/-- The place after a character. -/
def Place.next (c : Char) : Place → Place
  | outside => if c = '"' then inside else outside
  | inside => if c = '"' then outside else if c = '\\' then escaped else inside
  | escaped => inside

/-- A text without the white space outside of its strings. -/
def dropLayout (place : Place) : List Char → List Char
  | [] => []
  | c :: s =>
    if place = .outside ∧ isBlank c = true then dropLayout place s
    else c :: dropLayout (place.next c) s

/-- Nothing is dropped from what is written of a character. -/
theorem WrittenAs.dropLayout {c : Char} {s : List Char} (h : WrittenAs c s) (rest : List Char) :
    dropLayout .inside (s ++ rest) = s ++ dropLayout .inside rest := by
  cases h with
  | @escape letter digits _ hdigits =>
    have hrest : ∀ ds : List Char, (∀ d ∈ ds, d ≠ '"' ∧ d ≠ '\\') →
        Json.dropLayout .inside (ds ++ rest) = ds ++ Json.dropLayout .inside rest := by
      intro ds hds
      induction ds with
      | nil => rfl
      | cons d ds ih =>
        obtain ⟨hquote, hbackslash⟩ := hds d List.mem_cons_self
        have ih := ih fun x hx ↦ hds x (List.mem_cons_of_mem d hx)
        simp [Json.dropLayout, Place.next, hquote, hbackslash, ih]
    simp [Json.dropLayout, Place.next, hrest digits hdigits]
  | raw hquote hbackslash _ => simp [Json.dropLayout, Place.next, hquote, hbackslash]

/-- Nothing is dropped from a string. -/
theorem dropLayout_quoteString (s : String) (rest : List Char) :
    dropLayout .outside (quoteString s ++ rest) = quoteString s ++ dropLayout .outside rest := by
  have hbody : ∀ cs : List Char, dropLayout .inside (cs.flatMap escapeChar ++ '"' :: rest) =
      cs.flatMap escapeChar ++ '"' :: dropLayout .outside rest := by
    intro cs
    induction cs with
    | nil => simp [dropLayout, Place.next]
    | cons c cs ih =>
      rw [List.flatMap_cons, List.append_assoc, (writtenAs_escapeChar c).dropLayout, ih,
        List.append_assoc]
  have hquote : isBlank '"' = false := by decide
  simp [quoteString, dropLayout, Place.next, hquote, hbody]

/-- Nothing is dropped from a token. -/
theorem dropLayout_text {t : Token} (h : ∀ n, t ≠ .number n) (rest : List Char) :
    dropLayout .outside (t.text ++ rest) = t.text ++ dropLayout .outside rest := by
  match t with
  | .openBrace | .closeBrace | .openBracket | .closeBracket | .colon | .comma | .null
  | .bool true | .bool false => rfl
  | .number n => exact absurd rfl (h n)
  | .string s => exact dropLayout_quoteString s rest

/-- Everything is dropped from blanks. -/
theorem dropLayout_append_of_blank {blanks : List Char} (h : ∀ c ∈ blanks, isSpace c = true)
    (rest : List Char) : dropLayout .outside (blanks ++ rest) = dropLayout .outside rest := by
  induction blanks with
  | nil => rfl
  | cons c blanks ih =>
    have hc : isBlank c = true := by
      have hspace := h c List.mem_cons_self
      simp only [isSpace, Bool.or_eq_true, beq_iff_eq] at hspace
      rcases hspace with ((rfl | rfl) | rfl) | rfl <;> decide
    rw [List.cons_append, dropLayout, if_pos ⟨rfl, hc⟩]
    exact ih fun x hx ↦ h x (List.mem_cons_of_mem c hx)

/-- What is left of pieces is the tokens among them. -/
theorem dropLayout_pieces {ps : List Piece} (h : ∀ n, .number n ∉ ps.filterMap Piece.token?) :
    dropLayout .outside (ps.flatMap Piece.text) =
      (ps.filterMap Piece.token?).flatMap Token.text := by
  induction ps with
  | nil => rfl
  | cons p ps ih =>
    rcases htoken : p.token? with - | t
    · rw [List.filterMap_cons_none htoken] at h ⊢
      rw [List.flatMap_cons, dropLayout_append_of_blank (Piece.isSpace_of_mem_text htoken), ih h]
    · rw [List.filterMap_cons_some htoken] at h ⊢
      have ht : ∀ n, t ≠ .number n := fun n hn ↦ h n (hn ▸ List.mem_cons_self)
      rw [List.flatMap_cons, Piece.eq_token_of_token? htoken, Piece.text, dropLayout_text ht,
        ih fun n hn ↦ h n (List.mem_cons_of_mem t hn), List.flatMap_cons]

/-- **The pretty text without its layout is the compact text.** -/
theorem Value.dropLayout_pretty {v : Value} (h : ∀ n, .number n ∉ v.tokens) :
    String.ofList (dropLayout .outside v.pretty.toList) = v.compact := by
  have hpieces := @dropLayout_pieces (v.pieces 0) (by rwa [filterMap_pieces])
  rw [pretty, String.toList_ofList, hpieces, filterMap_pieces, compact]

end HamlTree.Json
