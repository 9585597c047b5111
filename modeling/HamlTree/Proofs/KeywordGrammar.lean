import HamlTree.Proofs.CarriedOn
import HamlTree.Proofs.ElementGrammar
import HamlTree.Proofs.Patterns

/-!
# The grammar of block keywords

Which keyword a line begins with, in the words of a grammar. The hyphen of the line and the blanks
after it do not count (`Keyword.IsBody`); a keyword has to end where a word ends (`Keyword.Begins`);
a start keyword may also be the value that is assigned to one name or to several
(`Keyword.Assigns`). Mid keywords come first, and among the start keywords an assigned one
(`Keyword.Recognised`).

The same is said by two patterns with alternatives and repetitions, tried one after the other from
the beginning of the line (`Keyword.byPatterns?`). A matcher may divide a line in many ways, into
shorter words or fewer blanks, and whether there is an assignment is a choice as well. But only one
division can be followed up to a keyword, since a keyword can begin neither within a word nor with a
blank. Hence the scan, the patterns and the grammar agree on every line
(`Keyword.find?_recognised`).
-/

namespace HamlTree

open Text

namespace Text

/-! ### Words and blanks -/

/-- The character after a word and blanks is no part of the word. -/
theorem isWord_head?_append {gap : List Char} (hgap : Blanks gap) {c : Char}
    (hc : isWord c = false) (rest : List Char) :
    ∀ d ∈ (gap ++ c :: rest).head?, isWord d = false := by
  rcases gap with - | ⟨d, gap⟩
  · rintro _ ⟨⟩
    exact hc
  · rintro _ ⟨⟩
    exact isWord_of_isBlank (hgap d List.mem_cons_self)

end Text

namespace Keyword

/-! ### The grammar -/

/-- A text is what is left of a line without its hyphen and the blanks after it. -/
structure IsBody (s t : List Char) : Prop where
  /-- The hyphen, if the line has one, and blanks come first. -/
  text : ∃ hyphen gap, s = hyphen ++ (gap ++ t) ∧ Blanks gap ∧
    hyphen = if s.head? = some '-' then ['-'] else []
  /-- No blank is left. -/
  head : ∀ c ∈ t.head?, isBlank c = false

/-- A text begins with a keyword, and a word ends after it. -/
def Begins (word : String) (t : List Char) : Prop :=
  ∃ rest, t = word.toList ++ rest ∧ ∀ c ∈ rest.head?, isWord c = false

/-- A text assigns what stands at its end: names with commas between them, an equals sign and the
value, with blanks or without. -/
inductive Assigns : (t value : List Char) → Prop
  /-- One name, or the last. -/
  | last {name gap gap' : List Char} (value : List Char) (hname : IsWord name) (hgap : Blanks gap)
      (hgap' : Blanks gap') : Assigns (name ++ (gap ++ '=' :: (gap' ++ value))) value
  /-- A name before others. -/
  | more {name gap gap' t value : List Char} (hname : IsWord name) (hgap : Blanks gap)
      (hgap' : Blanks gap') (hmore : Assigns t value) :
      Assigns (name ++ (gap ++ ',' :: (gap' ++ t))) value

/-- A text assigns a keyword or something that begins with it. -/
def AssignsWord (word : String) (t : List Char) : Prop :=
  ∃ value, Assigns t value ∧ Begins word value

/-- What the keyword of a line is, told by the text without hyphen and blanks, where some words are
mid keywords and others are start keywords. -/
structure Recognised (mids starts : List String) (t : List Char) (found : Option Keyword) :
    Prop where
  /-- A mid keyword is found when the text begins with it. -/
  mid : ∀ word, found = some (.mid word) ↔ word ∈ mids ∧ Begins word t
  /-- A start keyword is found when there is no mid keyword and either the text assigns it, or the
  text begins with it and assigns no start keyword. -/
  start : ∀ word, found = some (.start word) ↔
    (∀ other ∈ mids, ¬ Begins other t) ∧ word ∈ starts ∧
      (AssignsWord word t ∨ (∀ other ∈ starts, ¬ AssignsWord other t) ∧ Begins word t)
  /-- No keyword is found when there is none. -/
  none : found = none ↔ (∀ word ∈ mids, ¬ Begins word t) ∧
    ∀ word ∈ starts, ¬ AssignsWord word t ∧ ¬ Begins word t
  /-- A text assigns at most one start keyword. -/
  unique : ∀ word ∈ starts, ∀ other ∈ starts,
    AssignsWord word t → AssignsWord other t → word = other

/-! ### The scan -/

/-- The body of a line is the one that the grammar names. -/
theorem isBody_iff {s t : List Char} : IsBody s t ↔ body s = t := by
  have hcut : ∀ {hyphen rest : List Char}, s = hyphen ++ rest →
      (hyphen = if s.head? = some '-' then ['-'] else []) → body s = trimStart rest := by
    rintro hyphen rest rfl h
    split at h
    · subst h
      rfl
    · next hhead =>
      subst h
      rw [body.eq_def]
      split
      · next h => exact absurd (congrArg List.head? h) hhead
      · rfl
  constructor
  · rintro ⟨⟨hyphen, gap, htext, hgap, hhyphen⟩, hhead⟩
    rw [hcut htext hhyphen]
    exact trimStart_eq_iff.2 ⟨gap, rfl, hgap, hhead⟩
  · have hsplit : ∃ rest, s = (if s.head? = some '-' then ['-'] else []) ++ rest := by
      split
      · next h => exact List.head?_eq_some_iff.1 h
      · exact ⟨s, rfl⟩
    obtain ⟨rest, hrest⟩ := hsplit
    rintro rfl
    rw [hcut hrest rfl]
    obtain ⟨gap, htext, hgap, hhead⟩ := trimStart_eq_iff.1 (rfl : trimStart rest = trimStart rest)
    exact ⟨⟨_, gap, htext ▸ hrest, hgap, rfl⟩, hhead⟩

/-- All keywords are words: -/
theorem isWord_toList {word : String} (h : word ∈ midWords ++ startWords) : IsWord word.toList := by
  have hall : ∀ word ∈ midWords ++ startWords,
      word.toList ≠ [] ∧ word.toList.all isWord = true := by decide +kernel
  exact ⟨(hall word h).1, List.all_eq_true.1 (hall word h).2⟩

/-- the mid keywords -/
theorem isWord_midWords : ∀ word ∈ midWords, IsWord word.toList :=
  fun _ h ↦ isWord_toList (List.mem_append_left _ h)

/-- and the start keywords. -/
theorem isWord_startWords : ∀ word ∈ startWords, IsWord word.toList :=
  fun _ h ↦ isWord_toList (List.mem_append_right _ h)

/-- A word that a text begins with is the longest piece of word characters. -/
theorem Begins.takeWhile_eq {word : String} {t : List Char} (h : Begins word t)
    (hword : IsWord word.toList) : t.takeWhile isWord = word.toList := by
  obtain ⟨rest, rfl, hrest⟩ := h
  exact (Node.takeWhile_piece hword.chars hrest).1

/-- **A text begins with at most one keyword.** -/
theorem Begins.unique {word other : String} {t : List Char} (h : Begins word t)
    (h' : Begins other t) (hword : IsWord word.toList) (hother : IsWord other.toList) :
    word = other :=
  String.toList_inj.1 ((h.takeWhile_eq hword).symm.trans (h'.takeWhile_eq hother))

theorem Begins.startsWord {word : String} {t : List Char} (h : Begins word t)
    (hword : IsWord word.toList) : StartsWord t := by
  obtain ⟨rest, rfl, -⟩ := h
  exact hword.startsWord rest

/-- The scan for a keyword does what the grammar says. -/
theorem leads_iff {word : String} {t : List Char} : leads t word = true ↔ Begins word t := by
  rw [leads, Bool.and_eq_true, List.isPrefixOf_iff_prefix, ← String.length_toList]
  have hend : ∀ rest : List Char, atWordEnd rest = true ↔ ∀ c ∈ rest.head?, isWord c = false := by
    rintro (- | ⟨c, rest⟩) <;> simp
  constructor
  · rintro ⟨⟨rest, rfl⟩, h⟩
    rw [List.drop_left, hend] at h
    exact ⟨rest, rfl, h⟩
  · rintro ⟨rest, rfl, h⟩
    rw [List.drop_left, hend]
    exact ⟨List.prefix_append _ _, h⟩

/-- The keyword that is found in a list of words is the one that the text begins with. -/
theorem find?_leads_eq_some_iff {words : List String} (hwords : ∀ word ∈ words, IsWord word.toList)
    {word : String} {t : List Char} :
    words.find? (leads t) = some word ↔ word ∈ words ∧ Begins word t := by
  constructor
  · intro h
    exact ⟨List.mem_of_find?_eq_some h, leads_iff.1 (List.find?_some h)⟩
  · rintro ⟨hmem, h⟩
    rcases hfound : words.find? (leads t) with - | other
    · exact absurd (leads_iff.2 h) (List.find?_eq_none.1 hfound word hmem)
    · have hother := List.mem_of_find?_eq_some hfound
      rw [h.unique (leads_iff.1 (List.find?_some hfound)) (hwords word hmem) (hwords other hother)]

theorem find?_leads_eq_none_iff {words : List String} {t : List Char} :
    words.find? (leads t) = none ↔ ∀ word ∈ words, ¬ Begins word t := by
  simp only [List.find?_eq_none, leads_iff]

/-- A text that begins with a word is cut after the word and after the blanks that follow it. -/
theorem cut_word {name gap : List Char} (hname : IsWord name) (hgap : Blanks gap) {c : Char}
    (hword : isWord c = false) (hblank : isBlank c = false) (rest : List Char) :
    ((name ++ (gap ++ c :: rest)).takeWhile isWord).isEmpty = false ∧
      trimStart ((name ++ (gap ++ c :: rest)).dropWhile isWord) = c :: rest := by
  obtain ⟨htake, hdrop⟩ :=
    Node.takeWhile_piece hname.chars (isWord_head?_append hgap hword rest)
  rw [htake, hdrop]
  exact ⟨List.isEmpty_eq_false_iff.2 hname.ne_nil, trimStart_append_cons hgap hblank rest⟩

/-- A text that has been cut so begins with a word. -/
theorem exists_word_of_cut {t rest : List Char} (hname : ¬ (t.takeWhile isWord).isEmpty = true)
    (hrest : trimStart (t.dropWhile isWord) = rest) :
    ∃ name gap, t = name ++ (gap ++ rest) ∧ IsWord name ∧ Blanks gap := by
  obtain ⟨gap, hdrop, hgap, -⟩ := trimStart_eq_iff.1 hrest
  refine ⟨t.takeWhile isWord, gap, ?_, ⟨fun hnil ↦ hname (hnil ▸ rfl), ?_⟩, hgap⟩
  · rw [← hdrop, List.takeWhile_append_dropWhile]
  · exact fun c hc ↦ List.mem_takeWhile_imp hc

theorem Assigns.startsWord {t value : List Char} (h : Assigns t value) : StartsWord t := by
  cases h with
  | last _ hname => exact hname.startsWord _
  | more hname => exact hname.startsWord _

/-- **The scan for an assignment does what the grammar says**, and it takes all blanks. -/
theorem assigned?_eq_some_iff {t value : List Char} :
    assigned? t = some value ↔ Assigns t value ∧ ∀ c ∈ value.head?, isBlank c = false := by
  constructor
  · intro h
    fun_induction assigned? t with
    | case1 => exact absurd h (by simp)
    | case2 t hcut rest hrest =>
      obtain ⟨name, gap, rfl, hname, hgap⟩ := exists_word_of_cut hcut hrest
      obtain ⟨gap', rfl, hgap', hhead⟩ := trimStart_eq_iff.1 (Option.some.inj h)
      exact ⟨.last value hname hgap hgap', hhead⟩
    | case3 t hcut rest hrest ih =>
      obtain ⟨name, gap, rfl, hname, hgap⟩ := exists_word_of_cut hcut hrest
      obtain ⟨hmore, hhead⟩ := ih h
      obtain ⟨gap', hrest, hgap', -⟩ := trimStart_eq_iff.1 (rfl : trimStart rest = _)
      rw [hrest]
      exact ⟨.more hname hgap hgap' hmore, hhead⟩
    | case4 => exact absurd h (by simp)
  · rintro ⟨h, hvalue⟩
    induction h with
    | @last name gap gap' value hname hgap hgap' =>
      obtain ⟨htake, hdrop⟩ := cut_word hname hgap (c := '=') (by decide) (by decide)
        (gap' ++ value)
      rw [assigned?, htake, if_neg Bool.false_ne_true]
      split
      · next rest hrest =>
        obtain ⟨-, rfl⟩ := List.cons.inj (hdrop.symm.trans hrest)
        exact congrArg some (trimStart_eq_iff.2 ⟨gap', rfl, hgap', hvalue⟩)
      · next rest hrest => exact absurd (hdrop.symm.trans hrest) (by simp)
      · next hno _ => exact absurd hdrop (hno _)
    | @more name gap gap' t value hname hgap hgap' hmore ih =>
      obtain ⟨htake, hdrop⟩ := cut_word hname hgap (c := ',') (by decide) (by decide) (gap' ++ t)
      have htrim : trimStart (gap' ++ t) = t :=
        trimStart_eq_iff.2 ⟨gap', rfl, hgap', hmore.startsWord.isBlank_head?⟩
      rw [assigned?, htake, if_neg Bool.false_ne_true]
      split
      · next rest hrest => exact absurd (hdrop.symm.trans hrest) (by simp)
      · next rest hrest =>
        obtain ⟨-, rfl⟩ := List.cons.inj (hdrop.symm.trans hrest)
        rw [htrim]
        exact ih hvalue
      · next _ hno => exact absurd hdrop (hno _)

/-- The start keyword that is found as an assigned value. -/
theorem assigned?_bind_eq_some_iff {word : String} {t : List Char} :
    ((assigned? t).bind fun value ↦ startWords.find? (leads value)) = some word ↔
      word ∈ startWords ∧ AssignsWord word t := by
  rw [Option.bind_eq_some_iff]
  simp only [assigned?_eq_some_iff, find?_leads_eq_some_iff isWord_startWords]
  constructor
  · rintro ⟨value, ⟨hassigns, -⟩, hmem, hbegins⟩
    exact ⟨hmem, value, hassigns, hbegins⟩
  · rintro ⟨hmem, value, hassigns, hbegins⟩
    have hstarts := hbegins.startsWord (isWord_startWords word hmem)
    exact ⟨value, ⟨hassigns, hstarts.isBlank_head?⟩, hmem, hbegins⟩

/-- A mid keyword is looked for first, then an assigned start keyword, then any other. -/
theorem find?_eq_or (text : String) :
    find? text = ((midWords.find? (leads (body text.toList))).map mid).or
      ((((assigned? (body text.toList)).bind fun value ↦ startWords.find? (leads value)).or
        (startWords.find? (leads (body text.toList)))).map start) := by
  simp only [find?, Option.orElse_eq_orElse, Option.orElse_eq_or]

/-- **The keyword that is found is the one that the grammar names.** -/
theorem recognised_find? (text : String) :
    Recognised midWords startWords (body text.toList) (find? text) := by
  rw [find?_eq_or]
  generalize body text.toList = t
  have hmid : ∀ word, midWords.find? (leads t) = some word ↔ word ∈ midWords ∧ Begins word t :=
    fun _ ↦ find?_leads_eq_some_iff isWord_midWords
  have hvalue : ∀ word, (assigned? t).bind _ = some word ↔
      word ∈ startWords ∧ AssignsWord word t := fun _ ↦ assigned?_bind_eq_some_iff
  have hstart : ∀ word, startWords.find? (leads t) = some word ↔
      word ∈ startWords ∧ Begins word t := fun _ ↦ find?_leads_eq_some_iff isWord_startWords
  have hnomid : midWords.find? (leads t) = none ↔ ∀ word ∈ midWords, ¬ Begins word t :=
    find?_leads_eq_none_iff
  have hnostart : startWords.find? (leads t) = none ↔ ∀ word ∈ startWords, ¬ Begins word t :=
    find?_leads_eq_none_iff
  generalize midWords.find? (leads t) = found₁ at *
  generalize (assigned? t).bind _ = found₂ at *
  generalize startWords.find? (leads t) = found₃ at *
  have hnovalue : found₂ = none ↔ ∀ word ∈ startWords, ¬ AssignsWord word t := by
    rw [Option.eq_none_iff_forall_ne_some]
    simp only [ne_eq, hvalue, not_and]
  refine ⟨fun word ↦ ?_, fun word ↦ ?_, ?_, fun word h other h' ha ha' ↦ ?_⟩
  · rw [← hmid]
    rcases found₁ with - | found₁ <;> simp
  · have hor : found₂.or found₃ = some word ↔
        word ∈ startWords ∧ (AssignsWord word t ∨ found₂ = none ∧ Begins word t) := by
      rw [Option.or_eq_some_iff, hvalue, hstart, and_or_left, and_left_comm]
    rw [← hnomid, ← hnovalue, ← hor]
    rcases found₁ with - | found₁ <;> simp
  · simp only [Option.or_eq_none_iff, Option.map_eq_none_iff, hnomid, hnovalue, hnostart,
      forall₂_and]
  · have hsame := (hvalue word).2 ⟨h, ha⟩
    exact Option.some.inj (hsame.symm.trans ((hvalue other).2 ⟨h', ha'⟩))

/-! ### The patterns -/

/-- The hyphen of a line, if it has one, and blanks. -/
def leadPattern : Pattern := .seq (.optional (.one '-')) .blanks

/-- A sign, with blanks on both sides or without. -/
def signPattern (sign : Char) : Pattern := .seq .blanks (.seq (.one sign) .blanks)

/-- Names with commas between them and an equals sign. -/
def assignmentPattern : Pattern :=
  .seq .word (.seq (.star (.seq (signPattern ',') .word)) (signPattern '='))

/-- The word that a matcher finds at a place, where a word ends after it. -/
def wordAt? (words : List String) (p : Place) : Option (List Char) :=
  (Pattern.oneOf words).run? (fun q ↦ Pattern.wordEdge.run? (fun _ ↦ some (p.textTo q)) q) p

/-- The word of a list that a matcher finds after the lead of a text. -/
def captured? (lead : Pattern) (words : List String) (text : String) : Option String :=
  (lead.run? (wordAt? words) ⟨[], text.toList⟩).bind fun s ↦ words.find? (·.toList == s)

/-- The keyword that is found by two patterns, the one for mid keywords being tried first. -/
def byPatterns? (text : String) : Option Keyword :=
  ((captured? leadPattern midWords text).map mid).or
    ((captured? (.seq leadPattern (.optional assignmentPattern)) startWords text).map start)

/-- The lead of a line matches a hyphen or none, and blanks. -/
theorem matches_leadPattern_iff {p q : Place} :
    leadPattern.Matches p q ↔ ∃ hyphen gap, (hyphen = ['-'] ∨ hyphen = []) ∧ Blanks gap ∧
      p.Reads (hyphen ++ gap) q := by
  simp only [leadPattern, Pattern.matches_seq_iff, Pattern.matches_optional_iff,
    Pattern.matches_one_iff, Pattern.matches_blanks_iff]
  constructor
  · rintro ⟨m, hhyphen | rfl, gap, hgap, hreads⟩
    · exact ⟨['-'], gap, .inl rfl, hgap, hhyphen.trans hreads⟩
    · exact ⟨[], gap, .inr rfl, hgap, hreads⟩
  · rintro ⟨_, gap, rfl | rfl, hgap, hreads⟩
    · obtain ⟨m, hfirst, hrest⟩ := hreads.exists_between
      exact ⟨m, .inl hfirst, gap, hgap, hrest⟩
    · exact ⟨p, .inr rfl, gap, hgap, hreads⟩

/-- A sign may have blanks before it and after it. -/
theorem matches_signPattern_iff {sign : Char} {p q : Place} :
    (signPattern sign).Matches p q ↔ ∃ gap gap', Blanks gap ∧ Blanks gap' ∧
      p.Reads (gap ++ sign :: gap') q := by
  simp only [signPattern, Pattern.matches_seq_iff, Pattern.matches_blanks_iff,
    Pattern.matches_one_iff]
  constructor
  · rintro ⟨_, ⟨gap, hgap, hbefore⟩, _, hsign, gap', hgap', hafter⟩
    exact ⟨gap, gap', hgap, hgap', hbefore.trans (hsign.trans hafter)⟩
  · rintro ⟨gap, gap', hgap, hgap', hreads⟩
    obtain ⟨m, hbefore, hrest⟩ := hreads.exists_between
    obtain ⟨n, hsign, hafter⟩ := Place.Reads.exists_between (s := [sign]) hrest
    exact ⟨m, ⟨gap, hgap, hbefore⟩, n, hsign, gap', hgap', hafter⟩

/-- What matches the pattern of an assignment assigns what comes after it, -/
theorem assigns_of_matches {p q : Place} (h : assignmentPattern.Matches p q) :
    Assigns p.after q.after := by
  obtain ⟨m, hname, n, hmore, hequals⟩ : ∃ m, Pattern.word.Matches p m ∧
      ∃ n, (Pattern.star (.seq (signPattern ',') .word)).Matches m n ∧
        (signPattern '=').Matches n q := by
    simpa only [assignmentPattern, Pattern.matches_seq_iff] using h
  clear h
  generalize hitems : Pattern.star (.seq (signPattern ',') .word) = items at hmore
  -- after each name there is a comma with another name, or the equals sign
  induction hmore generalizing p with
  | done _ m =>
    obtain ⟨name, hname, hreads⟩ := Pattern.matches_word_iff.1 hname
    obtain ⟨gap, gap', hgap, hgap', hsign⟩ := matches_signPattern_iff.1 hequals
    rw [hreads.after, hsign.after, List.append_assoc, List.cons_append]
    exact .last q.after hname hgap hgap'
  | more hitem _ _ ih =>
    obtain rfl := Pattern.star.inj hitems
    obtain ⟨name, hname, hreads⟩ := Pattern.matches_word_iff.1 hname
    obtain ⟨m', hcomma, hword⟩ := Pattern.matches_seq_iff.1 hitem
    obtain ⟨gap, gap', hgap, hgap', hsign⟩ := matches_signPattern_iff.1 hcomma
    rw [hreads.after, hsign.after, List.append_assoc, List.cons_append]
    exact .more hname hgap hgap' (ih hword hequals rfl)
  | empty | char | wordEdge | textEnd | seq | first | second => exact absurd hitems (by simp)

/-- and every assignment matches it. -/
theorem exists_matches_of_assigns {t value : List Char} (h : Assigns t value) {p : Place}
    (hp : p.after = t) : ∃ q, assignmentPattern.Matches p q ∧ q.after = value := by
  -- a name and a sign after it
  have hpiece : ∀ {p : Place} {name gap gap' t : List Char} {sign : Char}, IsWord name →
      Blanks gap → Blanks gap' → p.after = name ++ (gap ++ sign :: (gap' ++ t)) →
      ∃ m n, Pattern.word.Matches p m ∧ (signPattern sign).Matches m n ∧ n.after = t := by
    intro p name gap gap' t sign hname hgap hgap' hp
    obtain ⟨m, hreads, hm⟩ := Place.Reads.exists_of_after hp
    obtain ⟨n, hsign, hn⟩ := Place.Reads.exists_of_after (s := gap ++ sign :: gap') (t := t)
      (by rw [hm, List.append_assoc, List.cons_append])
    exact ⟨m, n, Pattern.matches_word_iff.2 ⟨name, hname, hreads⟩,
      matches_signPattern_iff.2 ⟨gap, gap', hgap, hgap', hsign⟩, hn⟩
  induction h generalizing p with
  | last value hname hgap hgap' =>
    obtain ⟨m, q, hword, hequals, hq⟩ := hpiece hname hgap hgap' hp
    exact ⟨q, .seq hword (.seq (.done _ m) hequals), hq⟩
  | more hname hgap hgap' _ ih =>
    obtain ⟨m, n, hword, hcomma, hn⟩ := hpiece hname hgap hgap' hp
    obtain ⟨q, hmore, hq⟩ := ih hn
    obtain ⟨k, hnext, hrest⟩ := Pattern.matches_seq_iff.1 hmore
    obtain ⟨l, hitems, hequals⟩ := Pattern.matches_seq_iff.1 hrest
    exact ⟨q, .seq hword (.seq (.more (.seq hcomma hnext) hitems) hequals), hq⟩

/-! ### What the patterns find -/

/-- A word ends where a text that is a word ends, if no character of a word follows. -/
theorem isWordEdge_iff {p q : Place} {s : List Char} (hs : IsWord s) (h : p.Reads s q) :
    q.isWordEdge = true ↔ ∀ c ∈ q.after.head?, isWord c = false := by
  have hlast : q.before.head?.any isWord = true := by
    rw [h.before, List.head?_append, List.head?_reverse, List.getLast?_eq_some_getLast hs.ne_nil]
    exact hs.chars _ (List.getLast_mem hs.ne_nil)
  rw [Place.isWordEdge, hlast]
  rcases q.after.head? with - | c <;> simp

/-- A matcher that has read a word at a place gives it back if a word ends there. -/
theorem run?_wordEdge {p q : Place} {word : String} (hreads : p.Reads word.toList q) :
    Pattern.wordEdge.run? (fun _ ↦ some (p.textTo q)) q =
      if q.isWordEdge then some word.toList else none := by
  rw [Pattern.run?, hreads.textTo_eq]

/-- **A matcher finds the word that the text begins with.** -/
theorem wordAt?_eq {words : List String} (hwords : ∀ word ∈ words, IsWord word.toList)
    (p : Place) : wordAt? words p = (words.find? (leads p.after)).map String.toList := by
  -- the text begins with each word that can be followed up
  have hbegins : ∀ {q word}, word ∈ words → p.Reads word.toList q → q.isWordEdge = true →
      Begins word p.after := fun hmem hreads hedge ↦
    ⟨_, hreads.after, (isWordEdge_iff (hwords _ hmem) hreads).1 hedge⟩
  rcases hfound : words.find? (leads p.after) with - | word
  · refine Pattern.run?_eq_none fun q hq ↦ ?_
    obtain ⟨word, hmem, hreads⟩ := Pattern.matches_oneOf_iff.1 hq
    have hnot := find?_leads_eq_none_iff.1 hfound word hmem
    rw [run?_wordEdge hreads, if_neg fun hedge ↦ hnot (hbegins hmem hreads hedge)]
  · obtain ⟨hmem, hword⟩ := (find?_leads_eq_some_iff hwords).1 hfound
    obtain ⟨rest, htext, hend⟩ := hword
    obtain ⟨q, hreads, rfl⟩ := Place.Reads.exists_of_after htext
    have hmatch : (Pattern.oneOf words).Matches p q :=
      Pattern.matches_oneOf_iff.2 ⟨word, hmem, hreads⟩
    rw [wordAt?, Pattern.run?_eq_of_unique hmatch, run?_wordEdge hreads,
      if_pos ((isWordEdge_iff (hwords word hmem) hreads).2 hend), Option.map_some]
    intro m hm hsome
    obtain ⟨other, hother, hreads'⟩ := Pattern.matches_oneOf_iff.1 hm
    rw [run?_wordEdge hreads'] at hsome
    split at hsome
    · next hedge =>
      obtain rfl := (hbegins hother hreads' hedge).unique ⟨_, htext, hend⟩ (hwords other hother)
        (hwords word hmem)
      exact hreads'.eq_of_after_eq hreads
        (List.append_cancel_left (hreads'.after.symm.trans hreads.after))
    · exact absurd hsome (by simp)

/-- Where a matcher finds a word, there is one. -/
theorem startsWord_of_wordAt? {words : List String} (hwords : ∀ word ∈ words, IsWord word.toList)
    {p : Place} (h : (wordAt? words p).isSome) : StartsWord p.after := by
  rw [wordAt?_eq hwords, Option.isSome_map] at h
  obtain ⟨word, hword⟩ := Option.isSome_iff_exists.1 h
  obtain ⟨hmem, hbegins⟩ := (find?_leads_eq_some_iff hwords).1 hword
  exact hbegins.startsWord (hwords word hmem)

/-- **A line has one lead.** What is found after the lead, and begins with a character of a word, is
found after the hyphen and all blanks. -/
theorem exists_run?_leadPattern {α : Type} {next : Place → Option α}
    (hnext : ∀ p, (next p).isSome → StartsWord p.after) (text : String) :
    ∃ q, q.after = body text.toList ∧ leadPattern.run? next ⟨[], text.toList⟩ = next q := by
  obtain ⟨⟨hyphen, gap, htext, hgap, hhyphen⟩, -⟩ := isBody_iff.2 (rfl : body text.toList = _)
  have hplace : Place.after ⟨[], text.toList⟩ = hyphen ++ gap ++ body text.toList := by
    rw [List.append_assoc]
    exact htext
  obtain ⟨q, hreads, hq⟩ := Place.Reads.exists_of_after hplace
  have hmatch : leadPattern.Matches ⟨[], text.toList⟩ q := by
    refine matches_leadPattern_iff.2 ⟨hyphen, gap, ?_, hgap, hreads⟩
    rw [hhyphen]
    split
    · exact .inl rfl
    · exact .inr rfl
  refine ⟨q, hq, Pattern.run?_eq_of_unique hmatch fun m hm hsome ↦
    hm.eq_of_after_eq hmatch (.trans ?_ hq.symm)⟩
  -- what follows any other lead is the body as well, since it begins with neither hyphen nor blank
  obtain ⟨hyphen', gap', hhyphen', hgap', hreads'⟩ := matches_leadPattern_iff.1 hm
  have hstarts := hnext m hsome
  have htext' : text.toList = hyphen' ++ (gap' ++ m.after) := by
    rw [← List.append_assoc]
    exact hreads'.after
  refine (isBody_iff.1 ⟨⟨hyphen', gap', htext', hgap', ?_⟩, hstarts.isBlank_head?⟩).symm
  rcases hhyphen' with rfl | rfl
  · rw [htext']
    rfl
  · have hhead : text.toList.head? ≠ some '-' := by
      rw [htext', List.nil_append]
      rcases gap' with - | ⟨d, gap'⟩
      · obtain ⟨c, hc, hword⟩ := hstarts
        intro h
        obtain rfl : c = '-' := Option.some.inj (hc.symm.trans h)
        exact absurd hword (by decide)
      · intro h
        obtain rfl : d = '-' := Option.some.inj h
        exact absurd (hgap' _ List.mem_cons_self) (by decide)
    rw [if_neg hhead]

/-- **A matcher finds the start keyword that a text assigns.** -/
theorem run?_assignmentPattern (p : Place) :
    assignmentPattern.run? (wordAt? startWords) p =
      ((assigned? p.after).bind fun value ↦ startWords.find? (leads value)).map
        String.toList := by
  -- what is assigned begins with a word, and so the scan finds the same
  have hscan : ∀ q, assignmentPattern.Matches p q → (wordAt? startWords q).isSome →
      assigned? p.after = some q.after := by
    intro q hq hsome
    exact assigned?_eq_some_iff.2
      ⟨assigns_of_matches hq, (startsWord_of_wordAt? isWord_startWords hsome).isBlank_head?⟩
  rcases hvalue : assigned? p.after with - | value
  · refine Pattern.run?_eq_none fun q hq ↦ Option.not_isSome_iff_eq_none.1 fun hsome ↦ ?_
    exact absurd (hvalue.symm.trans (hscan q hq hsome)) (by simp)
  · obtain ⟨q, hq, rfl⟩ := exists_matches_of_assigns (assigned?_eq_some_iff.1 hvalue).1 rfl
    rw [Pattern.run?_eq_of_unique hq, wordAt?_eq isWord_startWords, Option.bind_some]
    intro m hm hsome
    exact hm.eq_of_after_eq hq (Option.some.inj ((hscan m hm hsome).symm.trans hvalue))

/-- A word of a list is found in it again by its characters. -/
theorem bind_find?_toList {words : List String} {found : Option String}
    (h : ∀ word ∈ found, word ∈ words) :
    ((found.map String.toList).bind fun s ↦ words.find? (·.toList == s)) = found := by
  rcases found with - | word
  · rfl
  · rw [Option.map_some, Option.bind_some]
    rcases hfound : words.find? (·.toList == word.toList) with - | other
    · exact absurd (BEq.rfl) (List.find?_eq_none.1 hfound word (h word rfl))
    · have hsame := List.find?_some hfound
      exact hfound.trans (congrArg some (String.toList_inj.1 (eq_of_beq hsame)))

/-- **The patterns find what the scan finds.** -/
theorem find?_eq_byPatterns? (text : String) : find? text = byPatterns? text := by
  have hmid : captured? leadPattern midWords text =
      midWords.find? (leads (body text.toList)) := by
    obtain ⟨q, hq, hrun⟩ :=
      exists_run?_leadPattern (fun p ↦ startsWord_of_wordAt? isWord_midWords) text
    rw [captured?, hrun, wordAt?_eq isWord_midWords, hq]
    exact bind_find?_toList fun word h ↦ List.mem_of_find?_eq_some h
  have hstart : captured? (.seq leadPattern (.optional assignmentPattern)) startWords text =
      ((assigned? (body text.toList)).bind fun value ↦ startWords.find? (leads value)).or
        (startWords.find? (leads (body text.toList))) := by
    have hnext : ∀ p, ((Pattern.optional assignmentPattern).run? (wordAt? startWords) p).isSome →
        StartsWord p.after := by
      intro p hsome
      obtain ⟨q, hq, hword⟩ := Pattern.isSome_run?_iff.1 hsome
      rcases Pattern.matches_optional_iff.1 hq with hassigns | rfl
      · exact (assigns_of_matches hassigns).startsWord
      · exact startsWord_of_wordAt? isWord_startWords hword
    obtain ⟨q, hq, hrun⟩ := exists_run?_leadPattern hnext text
    rw [captured?, Pattern.run?, hrun, Pattern.optional, Pattern.run?, Pattern.run?,
      run?_assignmentPattern, wordAt?_eq isWord_startWords, hq, ← Option.map_or]
    refine bind_find?_toList fun word h ↦ ?_
    rcases Option.or_eq_some_iff.1 h with h | ⟨-, h⟩
    · exact (assigned?_bind_eq_some_iff.1 h).1
    · exact List.mem_of_find?_eq_some h
  rw [find?_eq_or, byPatterns?, hmid, hstart]

/-- **The keyword of a line.** What the scan finds is what the two patterns find, and it is the
keyword that the grammar names for the text that is left without the hyphen and the blanks after it;
there is only one such text. The line carries on the construct above it exactly when this keyword is
a mid keyword. -/
theorem find?_recognised (text : String) :
    find? text = byPatterns? text ∧
      (∃ t, (∀ t', IsBody text.toList t' ↔ t' = t) ∧
        Recognised ["else", "elsif", "rescue", "ensure", "end", "when"]
          ["if", "begin", "case", "unless"] t (find? text)) ∧
      (continuesBlock text = true ↔ ∃ word, find? text = some (.mid word)) :=
  ⟨find?_eq_byPatterns? text,
    ⟨body text.toList, fun _ ↦ isBody_iff.trans eq_comm, recognised_find? text⟩,
    continuesBlock_iff⟩

example : find? "case = begin" = some (.start "begin") := by decide +kernel

end Keyword

end HamlTree
