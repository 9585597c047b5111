import HamlTree.Text.Blank
import HamlTree.Text.WordChar

/-!
# Patterns

A pattern describes a piece of text: a character of some class, one piece after another, one of two
pieces, or a piece any number of times. Two more patterns describe no text but a place, one where a
word begins or ends and one where the text ends. Between which places of a text the piece may lie is
a relation (`Pattern.Matches`), and nothing in it says how such a piece is found.

A matcher finds one by trial. It prefers the first of two alternatives and as many repetitions as
there can be, and when what comes after a piece does not match, it goes back to its last choice
(`Pattern.run?`). It never misses a piece (`Pattern.isSome_run?_iff`). Which piece it finds matters
only where more than one can be followed up; where there is just one, it is the one that is found
(`Pattern.run?_eq_of_unique`). A search tries every place of a text (`Pattern.occursIn_iff`).
-/

namespace HamlTree.Text

/-! ### Words and blanks -/

/-- No blank can be part of a word. -/
theorem isWord_of_isBlank {c : Char} (h : isBlank c = true) : isWord c = false := by
  refine Bool.eq_false_iff.2 fun hword ↦ ?_
  obtain ⟨r, hr, hr₁, hr₂⟩ := CharRanges.exists_of_has h
  obtain ⟨r', hr', hr₁', hr₂'⟩ := CharRanges.exists_of_has hword
  -- the two tables have no code point in common
  have hapart : ∀ r ∈ blankRanges, ∀ r' ∈ wordRanges, r.2 < r'.1 ∨ r'.2 < r.1 := by
    decide +kernel
  have := hapart r hr r' hr'
  omega

/-- No character of a word is a blank. -/
theorem isBlank_of_isWord {c : Char} (h : isWord c = true) : isBlank c = false :=
  Bool.eq_false_iff.2 fun hblank ↦ Bool.false_ne_true ((isWord_of_isBlank hblank).symm.trans h)

/-- A word: some characters, each of which can be part of a word. -/
structure IsWord (s : List Char) : Prop where
  /-- It is not empty. -/
  ne_nil : s ≠ []
  /-- It has no other characters. -/
  chars : ∀ c ∈ s, isWord c = true

/-- A text begins with a character of a word. -/
def StartsWord (s : List Char) : Prop := ∃ c ∈ s.head?, isWord c = true

theorem IsWord.startsWord {s : List Char} (h : IsWord s) (rest : List Char) :
    StartsWord (s ++ rest) := by
  obtain ⟨c, s, rfl⟩ := List.exists_cons_of_ne_nil h.ne_nil
  exact ⟨c, rfl, h.chars c List.mem_cons_self⟩

/-- A text that begins with a word does not begin with a blank. -/
theorem StartsWord.isBlank_head? {s : List Char} (h : StartsWord s) :
    ∀ c ∈ s.head?, isBlank c = false := by
  obtain ⟨d, hd, hword⟩ := h
  intro c hc
  obtain rfl : d = c := Option.some.inj (hd.symm.trans hc)
  exact isBlank_of_isWord hword

/-- A text of blanks, which may be empty. -/
def Blanks (s : List Char) : Prop := ∀ c ∈ s, isBlank c = true

/-- Trimming takes the blanks before a text and nothing else. -/
theorem trimStart_append_cons {gap : List Char} (hgap : Blanks gap) {c : Char}
    (hc : isBlank c = false) (rest : List Char) : trimStart (gap ++ c :: rest) = c :: rest := by
  rw [trimStart, List.dropWhile_append_of_pos hgap,
    List.dropWhile_cons_of_neg (Bool.not_eq_true _ ▸ hc)]

/-! ### Places -/

/-- A place in a text. -/
structure Place where
  /-- The characters before it, the nearest first. -/
  before : List Char
  /-- The characters after it. -/
  after : List Char

namespace Place

/-- The text from one place to a later one. -/
def textTo (p q : Place) : List Char := p.after.take (p.after.length - q.after.length)

/-- Whether a word begins or ends at a place. -/
def isWordEdge (p : Place) : Bool := p.before.head?.any isWord != p.after.head?.any isWord

/-- A text leads from one place to another. -/
structure Reads (p : Place) (s : List Char) (q : Place) : Prop where
  /-- It comes after the first place -/
  after : p.after = s ++ q.after
  /-- and before the second. -/
  before : q.before = s.reverse ++ p.before

namespace Reads

variable {p q r : Place} {s t : List Char}

theorem nil (p : Place) : p.Reads [] p := ⟨rfl, rfl⟩

theorem trans (h : p.Reads s q) (h' : q.Reads t r) : p.Reads (s ++ t) r where
  after := by rw [h.after, h'.after, List.append_assoc]
  before := by rw [h'.before, h.before, List.reverse_append, List.append_assoc]

/-- A text that comes after a place leads to another one. -/
theorem exists_of_after (h : p.after = s ++ t) : ∃ q, p.Reads s q ∧ q.after = t :=
  ⟨⟨s.reverse ++ p.before, t⟩, ⟨h, rfl⟩, rfl⟩

/-- Between two texts there is a place. -/
theorem exists_between (h : p.Reads (s ++ t) r) : ∃ q, p.Reads s q ∧ q.Reads t r := by
  refine ⟨⟨s.reverse ++ p.before, t ++ r.after⟩, ⟨?_, rfl⟩, rfl, ?_⟩
  · rw [h.after, List.append_assoc]
  · rw [h.before, List.reverse_append, List.append_assoc]

/-- The text from one place to another is the one between them. -/
theorem textTo_eq (h : p.Reads s q) : p.textTo q = s := by
  rw [textTo, h.after, List.length_append, Nat.add_sub_cancel, List.take_left]

/-- **Where a text leads is told by what is left.** -/
theorem eq_of_after_eq (h : p.Reads s q) (h' : p.Reads t r) (hafter : q.after = r.after) :
    q = r := by
  have hs : s = t := by
    have htexts := h.after.symm.trans h'.after
    rw [hafter] at htexts
    exact List.append_cancel_right htexts
  obtain ⟨before, after⟩ := q
  obtain ⟨before', after'⟩ := r
  have hbefore := h.before.trans (hs ▸ h'.before.symm)
  simp only at hafter hbefore
  rw [hafter, hbefore]

end Reads

end Place

/-! ### Patterns and what they match -/

/-- A pattern for pieces of text. -/
inductive Pattern where
  /-- The piece is empty. -/
  | empty
  /-- The piece is a character of a class. -/
  | char (p : Char → Bool)
  /-- The piece is empty and lies where a word begins or ends. -/
  | wordEdge
  /-- The piece is empty and lies at the end of the text. -/
  | textEnd
  /-- The piece is one piece after another. -/
  | seq (first second : Pattern)
  /-- The piece is of one of two kinds, preferably of the first. -/
  | either (first second : Pattern)
  /-- The piece is made of any number of pieces, preferably of many. -/
  | star (item : Pattern)

namespace Pattern

/-- The piece of text from one place to another matches a pattern. -/
inductive Matches : Pattern → Place → Place → Prop
  /-- No text is needed. -/
  | empty (p : Place) : Matches .empty p p
  /-- The next character is of the class. -/
  | char {P : Char → Bool} {c : Char} (before after : List Char) (h : P c = true) :
      Matches (.char P) ⟨before, c :: after⟩ ⟨c :: before, after⟩
  /-- A word begins or ends. -/
  | wordEdge {p : Place} (h : p.isWordEdge = true) : Matches .wordEdge p p
  /-- The text ends. -/
  | textEnd (before : List Char) : Matches .textEnd ⟨before, []⟩ ⟨before, []⟩
  /-- The two pieces meet somewhere. -/
  | seq {a b : Pattern} {p q r : Place} (ha : Matches a p q) (hb : Matches b q r) :
      Matches (.seq a b) p r
  /-- The piece is of the first kind. -/
  | first {a : Pattern} {p q : Place} (b : Pattern) (h : Matches a p q) : Matches (.either a b) p q
  /-- The piece is of the second kind. -/
  | second {b : Pattern} {p q : Place} (a : Pattern) (h : Matches b p q) : Matches (.either a b) p q
  /-- There is no piece. -/
  | done (a : Pattern) (p : Place) : Matches (.star a) p p
  /-- There is a piece before others. -/
  | more {a : Pattern} {p q r : Place} (ha : Matches a p q) (hmore : Matches (.star a) q r) :
      Matches (.star a) p r

/-- A piece of text is a text. -/
theorem Matches.exists_reads {a : Pattern} {p q : Place} (h : a.Matches p q) :
    ∃ s, p.Reads s q := by
  induction h with
  | empty p | wordEdge | textEnd | done _ p => exact ⟨[], .nil _⟩
  | @char _ c before after => exact ⟨[c], rfl, rfl⟩
  | seq _ _ iha ihb =>
    obtain ⟨s, hs⟩ := iha
    obtain ⟨t, ht⟩ := ihb
    exact ⟨s ++ t, hs.trans ht⟩
  | first _ _ ih | second _ _ ih => exact ih
  | more _ _ iha ihmore =>
    obtain ⟨s, hs⟩ := iha
    obtain ⟨t, ht⟩ := ihmore
    exact ⟨s ++ t, hs.trans ht⟩

/-- Pieces from the same place that leave the same text are the same. -/
theorem Matches.eq_of_after_eq {a b : Pattern} {p q r : Place} (h : a.Matches p q)
    (h' : b.Matches p r) (hafter : q.after = r.after) : q = r := by
  obtain ⟨s, hs⟩ := h.exists_reads
  obtain ⟨t, ht⟩ := h'.exists_reads
  exact hs.eq_of_after_eq ht hafter

/-- A piece is empty, or less text is left after it. -/
theorem Matches.eq_or_lt {a : Pattern} {p q : Place} (h : a.Matches p q) :
    q = p ∨ q.after.length < p.after.length := by
  obtain ⟨s, hs⟩ := h.exists_reads
  rcases s with - | ⟨c, s⟩
  · exact .inl (hs.eq_of_after_eq (.nil p) hs.after.symm)
  · refine .inr ?_
    rw [hs.after, List.length_append, List.length_cons]
    omega

theorem matches_seq_iff {a b : Pattern} {p r : Place} :
    (seq a b).Matches p r ↔ ∃ q, a.Matches p q ∧ b.Matches q r := by
  constructor
  · rintro (_ | _)
    exact ⟨_, ‹_›, ‹_›⟩
  · rintro ⟨q, ha, hb⟩
    exact .seq ha hb

theorem matches_either_iff {a b : Pattern} {p q : Place} :
    (either a b).Matches p q ↔ a.Matches p q ∨ b.Matches p q := by
  constructor
  · rintro (_ | _)
    · exact .inl ‹_›
    · exact .inr ‹_›
  · rintro (h | h)
    · exact .first b h
    · exact .second a h

theorem matches_empty_iff {p q : Place} : empty.Matches p q ↔ q = p := by
  constructor
  · rintro (_ | _)
    rfl
  · rintro rfl
    exact .empty q

theorem matches_textEnd_iff {p q : Place} : textEnd.Matches p q ↔ q = p ∧ q.after = [] := by
  constructor
  · rintro (_ | _)
    exact ⟨rfl, rfl⟩
  · obtain ⟨before, after⟩ := q
    rintro ⟨rfl, hend⟩
    obtain rfl : after = [] := hend
    exact .textEnd before

theorem matches_char_iff {P : Char → Bool} {p q : Place} :
    (char P).Matches p q ↔ ∃ c, P c = true ∧ p.Reads [c] q := by
  constructor
  · rintro (_ | ⟨before, after, hc⟩)
    exact ⟨_, hc, rfl, rfl⟩
  · obtain ⟨before, after⟩ := p
    obtain ⟨before', after'⟩ := q
    rintro ⟨c, hc, hafter, hbefore⟩
    obtain rfl : after = c :: after' := hafter
    obtain rfl : before' = c :: before := hbefore
    exact .char before after' hc

/-- Any number of characters of a class. -/
theorem matches_star_char_iff {P : Char → Bool} {p q : Place} :
    (star (char P)).Matches p q ↔ ∃ s, (∀ c ∈ s, P c = true) ∧ p.Reads s q := by
  constructor
  · generalize ha : star (char P) = a
    intro h
    induction h with
    | done _ p => exact ⟨[], List.forall_mem_nil _, .nil p⟩
    | more hitem _ _ ih =>
      obtain rfl := Pattern.star.inj ha
      obtain ⟨c, hc, hfirst⟩ := matches_char_iff.1 hitem
      obtain ⟨s, hs, hrest⟩ := ih rfl
      exact ⟨c :: s, List.forall_mem_cons.2 ⟨hc, hs⟩, hfirst.trans hrest⟩
    | empty | char | wordEdge | textEnd | seq | first | second => exact absurd ha (by simp)
  · rintro ⟨s, hs, hreads⟩
    induction s generalizing p with
    | nil =>
      obtain rfl := hreads.eq_of_after_eq (.nil p) hreads.after.symm
      exact .done _ _
    | cons c s ih =>
      obtain ⟨hc, hs⟩ := List.forall_mem_cons.1 hs
      obtain ⟨m, hfirst, hrest⟩ := Place.Reads.exists_between (s := [c]) hreads
      exact .more (matches_char_iff.2 ⟨c, hc, hfirst⟩) (ih hs hrest)

/-! ### Patterns for texts, words and blanks -/

/-- The piece may be missing, but preferably is not. -/
def optional (a : Pattern) : Pattern := either a empty

/-- The piece is blank. -/
def blanks : Pattern := star (char isBlank)

/-- The piece is a word. -/
def word : Pattern := seq (char isWord) (star (char isWord))

/-- The piece is one certain character. -/
def one (c : Char) : Pattern := char (· == c)

/-- The piece is one certain text. -/
def literal : List Char → Pattern
  | [] => empty
  | c :: s => seq (one c) (literal s)

/-- The piece is one of some texts, preferably an early one. -/
def oneOf : List String → Pattern
  | [] => char fun _ ↦ false
  | word :: words => either (literal word.toList) (oneOf words)

theorem matches_optional_iff {a : Pattern} {p q : Place} :
    (optional a).Matches p q ↔ a.Matches p q ∨ q = p := by
  rw [optional, matches_either_iff, matches_empty_iff]

theorem matches_blanks_iff {p q : Place} :
    blanks.Matches p q ↔ ∃ s, Blanks s ∧ p.Reads s q :=
  matches_star_char_iff

theorem matches_word_iff {p q : Place} :
    word.Matches p q ↔ ∃ s, IsWord s ∧ p.Reads s q := by
  simp only [word, matches_seq_iff, matches_char_iff, matches_star_char_iff]
  constructor
  · rintro ⟨m, ⟨c, hc, hfirst⟩, s, hs, hrest⟩
    exact ⟨c :: s, ⟨List.cons_ne_nil c s, List.forall_mem_cons.2 ⟨hc, hs⟩⟩, hfirst.trans hrest⟩
  · rintro ⟨s, ⟨hne, hs⟩, hreads⟩
    obtain ⟨c, s, rfl⟩ := List.exists_cons_of_ne_nil hne
    obtain ⟨hc, hs⟩ := List.forall_mem_cons.1 hs
    obtain ⟨m, hfirst, hrest⟩ := Place.Reads.exists_between (s := [c]) hreads
    exact ⟨m, ⟨c, hc, hfirst⟩, s, hs, hrest⟩

theorem matches_one_iff {c : Char} {p q : Place} : (one c).Matches p q ↔ p.Reads [c] q := by
  rw [one, matches_char_iff]
  simp

theorem matches_literal_iff {s : List Char} {p q : Place} :
    (literal s).Matches p q ↔ p.Reads s q := by
  induction s generalizing p with
  | nil =>
    rw [literal, matches_empty_iff]
    constructor
    · rintro rfl
      exact .nil q
    · exact fun h ↦ h.eq_of_after_eq (.nil p) h.after.symm
  | cons c s ih =>
    simp only [literal, matches_seq_iff, matches_one_iff, ih]
    constructor
    · rintro ⟨m, hfirst, hrest⟩
      exact hfirst.trans hrest
    · exact fun h ↦ Place.Reads.exists_between (s := [c]) h

theorem matches_oneOf_iff {words : List String} {p q : Place} :
    (oneOf words).Matches p q ↔ ∃ word ∈ words, p.Reads word.toList q := by
  induction words with
  | nil =>
    rw [oneOf, matches_char_iff]
    simp
  | cons word words ih =>
    rw [oneOf, matches_either_iff, matches_literal_iff, ih]
    simp

/-! ### Finding a match -/

/-- Take a piece as often as possible and go on from there; where that fails, take one less. A piece
without a character is not taken again. -/
def repeat? {α : Type} (item : (Place → Option α) → Place → Option α) (next : Place → Option α)
    (p : Place) : Option α :=
  (item (fun q ↦ if _h : q.after.length < p.after.length then repeat? item next q else none) p).or
    (next p)
termination_by p.after.length

/-- Find a piece that matches a pattern from a place on, and go on where it ends. The first piece is
taken from which `next` finds something. -/
def run? {α : Type} : Pattern → (Place → Option α) → Place → Option α
  | empty, next, p => next p
  | char P, next, p =>
    match p.after with
    | [] => none
    | c :: after => if P c then next ⟨c :: p.before, after⟩ else none
  | wordEdge, next, p => if p.isWordEdge then next p else none
  | textEnd, next, p => if p.after.isEmpty then next p else none
  | seq a b, next, p => a.run? (b.run? next) p
  | either a b, next, p => (a.run? next p).or (b.run? next p)
  | star a, next, p => repeat? a.run? next p

section Run

variable {α : Type} {a : Pattern} {p q : Place} {next : Place → Option α}

/-- **What is found follows a match.** -/
theorem exists_matches_of_run? {x : α} (h : a.run? next p = some x) :
    ∃ q, a.Matches p q ∧ next q = some x := by
  induction a generalizing next p with
  | empty => exact ⟨p, .empty p, h⟩
  | char P =>
    obtain ⟨before, after⟩ := p
    rw [run?] at h
    split at h
    · exact absurd h (by simp)
    · next c after hafter =>
      obtain rfl : _ = c :: after := hafter
      split at h
      · next hc => exact ⟨_, .char before after hc, h⟩
      · exact absurd h (by simp)
  | wordEdge =>
    rw [run?] at h
    split at h
    · next hedge => exact ⟨p, .wordEdge hedge, h⟩
    · exact absurd h (by simp)
  | textEnd =>
    obtain ⟨before, after⟩ := p
    rw [run?] at h
    split at h
    · next hend =>
      obtain rfl : after = [] := List.isEmpty_iff.1 hend
      exact ⟨_, .textEnd before, h⟩
    · exact absurd h (by simp)
  | seq a b iha ihb =>
    obtain ⟨m, ha, hm⟩ := iha h
    obtain ⟨q, hb, hq⟩ := ihb hm
    exact ⟨q, .seq ha hb, hq⟩
  | either a b iha ihb =>
    rcases Option.or_eq_some_iff.1 h with h | ⟨-, h⟩
    · obtain ⟨q, hq, hx⟩ := iha h
      exact ⟨q, .first b hq, hx⟩
    · obtain ⟨q, hq, hx⟩ := ihb h
      exact ⟨q, .second a hq, hx⟩
  | star a ih =>
    -- each repetition leaves less text
    induction hlength : p.after.length using Nat.strongRecOn generalizing p with
    | _ length ihlength =>
      rw [run?, repeat?] at h
      rcases Option.or_eq_some_iff.1 h with h | ⟨-, h⟩
      · obtain ⟨m, ha, hm⟩ := ih h
        split at hm
        · next hlt =>
          obtain ⟨q, hmore, hq⟩ := ihlength _ (hlength ▸ hlt) hm rfl
          exact ⟨q, .more ha hmore, hq⟩
        · exact absurd hm (by simp)
      · exact ⟨p, .done a p, h⟩

/-- **No match is missed.** -/
theorem Matches.isSome_run? (h : a.Matches p q) (hq : (next q).isSome) :
    (a.run? next p).isSome := by
  induction h generalizing next with
  | empty => exact hq
  | char _ _ hc => simpa [run?, hc] using hq
  | wordEdge hedge => simpa [run?, hedge] using hq
  | textEnd => simpa [run?] using hq
  | seq _ _ iha ihb => exact iha (ihb hq)
  | first _ _ ih =>
    rw [run?, Option.isSome_or, ih hq]
    rfl
  | second _ _ ih =>
    rw [run?, Option.isSome_or, ih hq, Bool.or_true]
  | done =>
    rw [run?, repeat?, Option.isSome_or, hq, Bool.or_true]
  | more ha _ iha ihmore =>
    rcases ha.eq_or_lt with rfl | hlt
    · exact ihmore hq
    · rw [run?, repeat?, Option.isSome_or, iha, Bool.true_or]
      rw [dif_pos hlt]
      exact ihmore hq

/-- **The matcher finds something exactly when a match can be followed up.** -/
theorem isSome_run?_iff : (a.run? next p).isSome ↔ ∃ q, a.Matches p q ∧ (next q).isSome := by
  constructor
  · intro h
    obtain ⟨x, hx⟩ := Option.isSome_iff_exists.1 h
    obtain ⟨q, hq, hx⟩ := exists_matches_of_run? hx
    exact ⟨q, hq, Option.isSome_iff_exists.2 ⟨x, hx⟩⟩
  · rintro ⟨q, hq, hx⟩
    exact hq.isSome_run? hx

/-- Where no match can be followed up, nothing is found. -/
theorem run?_eq_none (h : ∀ q, a.Matches p q → next q = none) : a.run? next p = none := by
  refine Option.not_isSome_iff_eq_none.1 fun hsome ↦ ?_
  obtain ⟨q, hq, hx⟩ := isSome_run?_iff.1 hsome
  rw [h q hq] at hx
  exact Bool.false_ne_true hx

/-- **Where only one match can be followed up, it is the one that is found.** -/
theorem run?_eq_of_unique (hq : a.Matches p q)
    (h : ∀ m, a.Matches p m → (next m).isSome → m = q) : a.run? next p = next q := by
  rcases hnext : next q with - | x
  · refine run?_eq_none fun m hm ↦ Option.not_isSome_iff_eq_none.1 fun hsome ↦ ?_
    obtain rfl := h m hm hsome
    rw [hnext] at hsome
    exact Bool.false_ne_true hsome
  · have hsome : (a.run? next p).isSome := hq.isSome_run? (by rw [hnext]; rfl)
    obtain ⟨y, hy⟩ := Option.isSome_iff_exists.1 hsome
    obtain ⟨m, hm, hmy⟩ := exists_matches_of_run? hy
    obtain rfl := h m hm (by rw [hmy]; rfl)
    rw [hy, ← hmy, hnext]

end Run

/-! ### Searching -/

/-- Whether a piece that matches a pattern begins at a place or at a later one. -/
def occursFrom (a : Pattern) (before : List Char) : List Char → Bool
  | [] => (a.run? some ⟨before, []⟩).isSome
  | c :: after => (a.run? some ⟨before, c :: after⟩).isSome || a.occursFrom (c :: before) after

/-- Whether a text has a piece that matches a pattern. -/
def occursIn (a : Pattern) (s : List Char) : Bool := a.occursFrom [] s

theorem occursFrom_iff {a : Pattern} {before after : List Char} :
    a.occursFrom before after = true ↔
      ∃ s p q, Place.Reads ⟨before, after⟩ s p ∧ a.Matches p q := by
  have hhere : ∀ p : Place, (a.run? some p).isSome = true ↔ ∃ q, a.Matches p q := by
    intro p
    simp [isSome_run?_iff]
  induction after generalizing before with
  | nil =>
    rw [occursFrom, hhere]
    constructor
    · rintro ⟨q, hq⟩
      exact ⟨[], _, q, .nil _, hq⟩
    · rintro ⟨s, p, q, hreads, hq⟩
      obtain ⟨-, hp⟩ := List.append_eq_nil_iff.1 hreads.after.symm
      obtain rfl := hreads.eq_of_after_eq (.nil _) hp
      exact ⟨q, hq⟩
  | cons c after ih =>
    simp only [occursFrom, Bool.or_eq_true, hhere, ih]
    constructor
    · rintro (⟨q, hq⟩ | ⟨s, p, q, hreads, hq⟩)
      · exact ⟨[], _, q, .nil _, hq⟩
      · exact ⟨c :: s, p, q, .trans (s := [c]) ⟨rfl, rfl⟩ hreads, hq⟩
    · rintro ⟨- | ⟨d, s⟩, p, q, hreads, hq⟩
      · obtain rfl := hreads.eq_of_after_eq (.nil _) hreads.after.symm
        exact .inl ⟨q, hq⟩
      · obtain ⟨rfl, hafter⟩ := List.cons.inj hreads.after
        refine .inr ⟨s, p, q, ⟨hafter, ?_⟩, hq⟩
        rw [hreads.before, List.reverse_cons, List.append_assoc]
        rfl

/-- **A search tries every place.** -/
theorem occursIn_iff {a : Pattern} {s : List Char} :
    a.occursIn s = true ↔ ∃ t p q, Place.Reads ⟨[], s⟩ t p ∧ a.Matches p q :=
  occursFrom_iff

end Pattern

end HamlTree.Text
