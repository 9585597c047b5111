import HamlTree.Proofs.WellFormed

/-!
# The grammar of element lines

An element line is a tag, shorthands, attribute blocks and content, and the grammar says which texts
these may be. A line can be divided in more than one way, and the scanner has no choice: each of its
stages takes as much as it can. So each rule of the grammar also says that nothing is left that an
earlier piece could have had (`MarkerCut`, `TagCut`, `BlocksCut`, `ContentCut`).

The scanner accepts exactly the lines of the grammar, and what is wrong with any other line is told
by the first stage that cannot go on (`Node.ofElement_grammar`). Interiors of attribute blocks are
described by counting their own delimiters, as in `Text.Paired`; a block is never closed when no
beginning of what follows closes more than it opens (`Node.balanced?_eq_none_iff`).
-/

namespace HamlTree

open Text

namespace Text

/-- Trimming at the start cuts a text after its leading blanks. -/
theorem trimStart_eq_iff {s t : List Char} :
    trimStart s = t ↔ ∃ gap, s = gap ++ t ∧ (∀ c ∈ gap, isBlank c = true) ∧
      ∀ c ∈ t.head?, isBlank c = false := by
  constructor
  · rintro rfl
    refine ⟨s.takeWhile isBlank, (List.takeWhile_append_dropWhile).symm,
      fun c hc ↦ List.mem_takeWhile_imp hc, fun c hc ↦ ?_⟩
    obtain ⟨rest, hrest⟩ := List.head?_eq_some_iff.1 hc
    exact isBlank_of_trimStart_eq_cons hrest
  · rintro ⟨gap, rfl, hgap, hhead⟩
    exact (Node.takeWhile_piece hgap hhead).2

end Text

namespace Delimiter

/-- The other kind of attribute block. -/
def other : Delimiter → Delimiter
  | brace => paren
  | paren => brace

@[simp] theorem other_other (d : Delimiter) : d.other.other = d := by cases d <;> rfl

/-- There are no further kinds. -/
theorem eq_or_eq_other (d e : Delimiter) : e = d ∨ e = d.other := by
  cases d <;> cases e <;> simp [other]

end Delimiter

namespace Node

/-! ### The marker -/

/-- A text is its marker and what follows, or it has no marker. -/
def MarkerCut (text s : List Char) : Prop := text = '%' :: s ∨ text.head? ≠ some '%' ∧ text = s

/-- **The marker is dropped as the grammar says.** -/
theorem markerCut_iff {text s : List Char} : MarkerCut text s ↔ dropElementMarker text = s := by
  rw [MarkerCut, dropElementMarker.eq_def]
  split
  · simp
  · next hnone =>
    have hhead : text.head? ≠ some '%' := fun h ↦ by
      obtain ⟨rest, hrest⟩ := List.head?_eq_some_iff.1 h
      exact hnone rest hrest
    refine ⟨fun h ↦ ?_, fun h ↦ .inr ⟨hhead, h⟩⟩
    exact h.elim (fun hmark ↦ absurd hmark (hnone s)) And.right

/-! ### The tag and the shorthands -/

/-- The names of classes, in order and without the empty ones. -/
def classNames (names : List Shorthand) : List (List Char) :=
  (names.filterMap fun
    | .ofClass name => some name
    | .ofId _ => none).filter (· ≠ [])

/-- The names of ids, in order and without the empty ones. -/
def idNames (names : List Shorthand) : List (List Char) :=
  (names.filterMap fun
    | .ofId name => some name
    | .ofClass _ => none).filter (· ≠ [])

theorem filterMap_class? (names : List Shorthand) :
    names.filterMap Shorthand.class? = classNames names := by
  rw [classNames, List.filter_filterMap]
  refine List.filterMap_congr fun x _ ↦ ?_
  rcases x with (- | ⟨c, name⟩) | name <;> rfl

theorem filterMap_id? (names : List Shorthand) :
    names.filterMap Shorthand.id? = idNames names := by
  rw [idNames, List.filter_filterMap]
  refine List.filterMap_congr fun x _ ↦ ?_
  rcases x with name | (- | ⟨c, name⟩) <;> rfl

/-- Shorthands come first, and what follows is none and belongs to none. -/
structure ShorthandsCut (names : List Shorthand) (rest : List Char) : Prop where
  /-- Their names have the characters of names. -/
  name_chars : ∀ x ∈ names, ∀ c ∈ x.name, isNameChar c = true
  /-- Each name is as long as can be. -/
  name_longest : ∀ before x after, names = before ++ x :: after →
    ∀ c ∈ (after.flatMap Shorthand.text ++ rest).head?, isNameChar c = false
  /-- No shorthand is left. -/
  none_left : ∀ c ∈ rest.head?, c ≠ '.' ∧ c ≠ '#'

/-- One shorthand more in front. -/
theorem ShorthandsCut.cons {x : Shorthand} {names : List Shorthand} {rest : List Char}
    (h : ShorthandsCut names rest) (hname : ∀ c ∈ x.name, isNameChar c = true)
    (hend : ∀ c ∈ (names.flatMap Shorthand.text ++ rest).head?, isNameChar c = false) :
    ShorthandsCut (x :: names) rest where
  name_chars := List.forall_mem_cons.2 ⟨hname, h.name_chars⟩
  name_longest before y after heq := by
    rcases before with - | ⟨z, before⟩
    · obtain ⟨rfl, rfl⟩ := List.cons.inj heq
      exact hend
    · exact h.name_longest before y after (List.cons.inj heq).2
  none_left := h.none_left

/-- What is left when the longest piece has been taken does not begin with a further character of
it. -/
theorem head?_dropWhile_eq_false {p : Char → Bool} (s : List Char) :
    ∀ c ∈ (s.dropWhile p).head?, p c = false := by
  intro c hc
  have hnot := List.head?_dropWhile_not p s
  rwa [Option.mem_def.1 hc] at hnot

/-- The shorthands that are read from a text are cut off as the grammar says. -/
theorem shorthandsCut_shorthands (s : List Char) :
    s = (shorthands s).1.flatMap Shorthand.text ++ (shorthands s).2 ∧
      ShorthandsCut (shorthands s).1 (shorthands s).2 := by
  -- the name of a shorthand is taken before the shorthands in what it leaves
  have hstep : ∀ {x : Shorthand} {s : List Char} {names : List Shorthand} {rest : List Char},
      x.name = s.takeWhile isNameChar →
      s.dropWhile isNameChar = names.flatMap Shorthand.text ++ rest ∧ ShorthandsCut names rest →
      s = x.name ++ (names.flatMap Shorthand.text ++ rest) ∧ ShorthandsCut (x :: names) rest := by
    rintro x s names rest hx ⟨htext, hcut⟩
    refine ⟨by rw [← htext, hx, List.takeWhile_append_dropWhile], hcut.cons ?_ ?_⟩
    · exact fun c hc ↦ List.mem_takeWhile_imp (hx ▸ hc)
    · rw [← htext]
      exact head?_dropWhile_eq_false s
  fun_induction shorthands s with
  | case1 s after ih =>
    obtain ⟨htext, hcut⟩ := hstep (x := .ofClass (s.takeWhile isNameChar)) rfl ih
    refine ⟨?_, hcut⟩
    rw [List.flatMap_cons, List.append_assoc, Shorthand.text, List.cons_append]
    exact congrArg _ htext
  | case2 s after ih =>
    obtain ⟨htext, hcut⟩ := hstep (x := .ofId (s.takeWhile isNameChar)) rfl ih
    refine ⟨?_, hcut⟩
    rw [List.flatMap_cons, List.append_assoc, Shorthand.text, List.cons_append]
    exact congrArg _ htext
  | case3 s hclass hid =>
    refine ⟨rfl, by simp, by simp, fun c hc ↦ ?_⟩
    obtain ⟨rest, rfl⟩ := List.head?_eq_some_iff.1 hc
    exact ⟨fun h ↦ hclass rest (h ▸ rfl), fun h ↦ hid rest (h ▸ rfl)⟩

/-- **The shorthands that are read are those of the grammar.** -/
theorem shorthands_eq_iff {s rest : List Char} {names : List Shorthand} :
    shorthands s = (names, rest) ↔
      s = names.flatMap Shorthand.text ++ rest ∧ ShorthandsCut names rest := by
  constructor
  · intro h
    have hcut := shorthandsCut_shorthands s
    rwa [h] at hcut
  · rintro ⟨rfl, h⟩
    rcases List.eq_nil_or_concat names with rfl | ⟨names, x, rfl⟩
    · exact shorthands_of_head (fun hc ↦ (h.none_left _ hc).1 rfl)
        fun hc ↦ (h.none_left _ hc).2 rfl
    · refine shorthands_append h.name_chars fun c hc ↦ ⟨?_, h.none_left c hc⟩
      exact h.name_longest names x [] (by simp) c (by simpa using hc)

/-- A text begins with a tag and shorthands, and what follows belongs to neither. -/
structure TagCut (s tag : List Char) (names : List Shorthand) (rest : List Char) : Prop
    extends ShorthandsCut names rest where
  /-- The tag and the shorthands come first. -/
  text : s = tag ++ (names.flatMap Shorthand.text ++ rest)
  /-- There is a tag, -/
  tag_ne_nil : tag ≠ []
  /-- it has the characters of tags, -/
  tag_chars : ∀ c ∈ tag, isTagChar c = true
  /-- and it is as long as can be. -/
  tag_longest : ∀ c ∈ (names.flatMap Shorthand.text ++ rest).head?, isTagChar c = false

/-- **The tag and the shorthands that are read are those of the grammar.** -/
theorem tagCut_iff {s tag rest : List Char} {names : List Shorthand} :
    TagCut s tag names rest ↔ tag ≠ [] ∧ s.takeWhile isTagChar = tag ∧
      shorthands (s.dropWhile isTagChar) = (names, rest) := by
  constructor
  · rintro ⟨hnames, rfl, hne, hchars, hend⟩
    obtain ⟨htake, hdrop⟩ := takeWhile_piece hchars hend
    rw [htake, hdrop]
    exact ⟨hne, rfl, shorthands_eq_iff.2 ⟨rfl, hnames⟩⟩
  · rintro ⟨hne, rfl, hnames⟩
    obtain ⟨htext, hcut⟩ := shorthands_eq_iff.1 hnames
    refine ⟨hcut, ?_, hne, fun c hc ↦ List.mem_takeWhile_imp hc, ?_⟩
    · rw [← htext, List.takeWhile_append_dropWhile]
    · rw [← htext]
      exact head?_dropWhile_eq_false s

/-! ### Attribute blocks -/

/-- **A block is never closed** when no beginning of what follows closes more than it opens. -/
theorem balanced?_eq_none_iff {d : Delimiter} {depth : Nat} {s : List Char} :
    balanced? d depth [] s = none ↔
      ∀ t, t <+: s → t.count d.closing ≤ depth + t.count d.opening := by
  have hne := opening_ne_closing d
  induction s generalizing depth with
  | nil => simp [balanced?]
  | cons c s ih =>
    rw [balanced?_cons, depthAfter, forall_prefix_cons]
    by_cases hopening : c = d.opening
    · subst hopening
      simp [ih, hne, Nat.add_assoc, Nat.add_comm 1]
    · by_cases hclosing : c = d.closing
      · subst hclosing
        rcases depth with - | depth
        · -- this character ends the block
          have hone : ¬ [d.closing].count d.closing ≤ 0 + [d.closing].count d.opening := by
            simp [hne.symm]
          exact iff_of_false (by simp [hne.symm]) fun h ↦ hone (h.2 [] List.nil_prefix)
        · simp [hne.symm, ih, Nat.add_right_comm depth 1]
      · simp [hopening, hclosing, ih]

/-- The interior of the block of a kind. -/
def AttributeBlocks.interior? (blocks : AttributeBlocks) : Delimiter → Option (List Char)
  | .brace => blocks.braces
  | .paren => blocks.parens

/-- A text begins with at most one attribute block of each kind, in either order, and what follows
is no block of a kind that is still missing. -/
structure BlocksCut (s : List Char) (blocks : AttributeBlocks) (rest : List Char) : Prop where
  /-- The blocks come first. -/
  text : ∃ d, s = blockText d (blocks.interior? d) ++
    (blockText d.other (blocks.interior? d.other) ++ rest)
  /-- Their own delimiters pair up inside them. -/
  paired : ∀ d, ∀ interior ∈ blocks.interior? d, Paired d.opening d.closing interior
  /-- No block is left. -/
  none_left : ∀ d, blocks.interior? d = none → rest.head? ≠ some d.opening

/-- A block of one kind is read as it is written, if there is one, and otherwise nothing is read. -/
theorem attributeBlock_eq_ok_iff {d : Delimiter} {s rest : List Char}
    {block : Option (List Char)} :
    attributeBlock d s = .ok (block, rest) ↔
      s = blockText d block ++ rest ∧ (∀ interior ∈ block, Paired d.opening d.closing interior) ∧
        (block = none → rest.head? ≠ some d.opening) := by
  constructor
  · intro h
    obtain ⟨rfl, hbalanced⟩ := attributeBlock_eq_ok h
    refine ⟨rfl, fun i hi ↦ balanced_iff_paired.1 (hbalanced i hi), ?_⟩
    rintro rfl hhead
    obtain ⟨rest, rfl⟩ := List.head?_eq_some_iff.1 hhead
    rw [blockText, List.nil_append, attributeBlock, if_pos rfl] at h
    split at h <;> simp at h
  · rintro ⟨rfl, hpaired, hnone⟩
    exact attributeBlock_append (fun i hi ↦ balanced_iff_paired.2 (hpaired i hi)) hnone

/-- Anything may follow a block. -/
theorem attributeBlock_blockText {d : Delimiter} {i : List Char}
    (h : Paired d.opening d.closing i) (rest : List Char) :
    attributeBlock d (blockText d (some i) ++ rest) = .ok (some i, rest) :=
  attributeBlock_eq_ok_iff.2 ⟨rfl, fun _ hi ↦ Option.some.inj hi ▸ h, by simp⟩

/-- A block of one kind is at fault when it is opened and never closed. -/
theorem attributeBlock_eq_error_iff {d : Delimiter} {s : List Char} {f : Fault} :
    attributeBlock d s = .error f ↔ f = .unmatched d ∧ ∃ inner, s = d.opening :: inner ∧
      ∀ t, t <+: inner → t.count d.closing ≤ t.count d.opening := by
  have hclosed : ∀ inner, balanced? d 0 [] inner = none ↔
      ∀ t, t <+: inner → t.count d.closing ≤ t.count d.opening := fun inner ↦ by
    simpa using @balanced?_eq_none_iff d 0 inner
  constructor
  · intro h
    refine ⟨attributeBlock_eq_error h, ?_⟩
    rw [attributeBlock.eq_def] at h
    split at h
    · exact absurd h (by simp)
    · next c inner =>
      split at h
      · next hc =>
        split at h
        · exact absurd h (by simp)
        · next hnone => exact ⟨inner, hc ▸ rfl, (hclosed inner).1 hnone⟩
      · exact absurd h (by simp)
  · rintro ⟨rfl, inner, rfl, hinner⟩
    rw [attributeBlock, if_pos rfl, (hclosed inner).2 hinner]

/-- What the attribute blocks of a text are when the one of kind `d` comes first. -/
def AttributeBlocks.ofFirst (first second : Option (List Char)) : Delimiter → AttributeBlocks
  | .brace => ⟨first, second⟩
  | .paren => ⟨second, first⟩

@[simp] theorem AttributeBlocks.interior?_ofFirst (first second : Option (List Char))
    (d : Delimiter) : (AttributeBlocks.ofFirst first second d).interior? d = first := by
  cases d <;> rfl

@[simp] theorem AttributeBlocks.interior?_other_ofFirst (first second : Option (List Char))
    (d : Delimiter) : (AttributeBlocks.ofFirst first second d).interior? d.other = second := by
  cases d <;> rfl

theorem AttributeBlocks.ofFirst_interior? (blocks : AttributeBlocks) (d : Delimiter) :
    ofFirst (blocks.interior? d) (blocks.interior? d.other) d = blocks := by
  cases d <;> rfl

theorem AttributeBlocks.eq_none {blocks : AttributeBlocks} (h : ∀ d, blocks.interior? d = none) :
    blocks = ⟨none, none⟩ := by
  obtain ⟨braces, parens⟩ := blocks
  obtain rfl : braces = none := h .brace
  obtain rfl : parens = none := h .paren
  rfl

/-- A text is read from the block on that it opens. -/
theorem attributeBlocks_of_head {d : Delimiter} {s : List Char} (h : s.head? = some d.opening) :
    attributeBlocks s = (attributeBlock d s).bind fun p ↦
      (attributeBlock d.other p.2).map fun q ↦ (.ofFirst p.1 q.1 d, q.2) := by
  rw [attributeBlocks]
  cases d with
  | brace =>
    rw [if_neg (by rw [h]; decide)]
    rfl
  | paren =>
    have hparen : s.head? = some '(' := h
    rw [if_pos hparen]
    rfl

/-- A text that opens no block has none. -/
theorem attributeBlocks_of_head_ne {s : List Char} (h : ∀ d : Delimiter, s.head? ≠ some d.opening) :
    attributeBlocks s = .ok (⟨none, none⟩, s) := by
  have hnone : ∀ d, attributeBlock d s = .ok (none, s) :=
    fun d ↦ attributeBlock_eq_ok_iff.2 ⟨rfl, by simp, fun _ ↦ h d⟩
  have hparen : s.head? ≠ some '(' := h .paren
  rw [attributeBlocks, if_neg hparen]
  simp only [hnone, bind, Except.bind, pure, Except.pure]

/-- **The attribute blocks that are read are those of the grammar.** -/
theorem attributeBlocks_eq_ok_iff {s rest : List Char} {blocks : AttributeBlocks} :
    attributeBlocks s = .ok (blocks, rest) ↔ BlocksCut s blocks rest := by
  constructor
  · intro h
    by_cases hhead : ∃ d : Delimiter, s.head? = some d.opening
    · obtain ⟨d, hhead⟩ := hhead
      rw [attributeBlocks_of_head hhead] at h
      rcases hfirst : attributeBlock d s with f | ⟨first, mid⟩
      · simp [hfirst, Except.bind] at h
      rcases hsecond : attributeBlock d.other mid with f | ⟨second, rest⟩
      · simp [hfirst, Except.bind, hsecond, Except.map] at h
      simp only [hfirst, Except.bind, hsecond, Except.map] at h
      obtain ⟨rfl, rfl⟩ := Prod.mk.inj (Except.ok.inj h)
      obtain ⟨rfl, hpaired₁, hnone₁⟩ := attributeBlock_eq_ok_iff.1 hfirst
      obtain ⟨rfl, hpaired₂, hnone₂⟩ := attributeBlock_eq_ok_iff.1 hsecond
      refine ⟨⟨d, by simp⟩, fun e ↦ ?_, fun e ↦ ?_⟩
      · rcases d.eq_or_eq_other e with rfl | rfl
        · simpa using hpaired₁
        · simpa using hpaired₂
      · rcases d.eq_or_eq_other e with rfl | rfl
        · -- the first block is there, since the text opens it
          rw [AttributeBlocks.interior?_ofFirst]
          rintro rfl
          exact absurd hhead (hnone₁ rfl)
        · simpa using hnone₂
    · have hnone : ∀ d : Delimiter, s.head? ≠ some d.opening := fun d hd ↦ hhead ⟨d, hd⟩
      rw [attributeBlocks_of_head_ne hnone] at h
      obtain ⟨rfl, rfl⟩ := Prod.mk.inj (Except.ok.inj h)
      refine ⟨⟨.brace, rfl⟩, fun d i hi ↦ ?_, fun d _ ↦ hnone d⟩
      cases d <;> exact absurd hi (by simp [AttributeBlocks.interior?])
  · rintro ⟨⟨d, rfl⟩, hpaired, hleft⟩
    -- from a block that comes first on
    have hread : ∀ e i, blocks.interior? e = some i →
        attributeBlocks (blockText e (some i) ++
          (blockText e.other (blocks.interior? e.other) ++ rest)) = .ok (blocks, rest) := by
      intro e i hi
      have hfirst := attributeBlock_blockText (hpaired e i hi)
        (blockText e.other (blocks.interior? e.other) ++ rest)
      have hsecond := attributeBlock_eq_ok_iff.2 ⟨rfl, hpaired e.other, hleft e.other⟩
      rw [attributeBlocks_of_head rfl, hfirst]
      simp only [Except.bind, hsecond, Except.map]
      rw [← hi, AttributeBlocks.ofFirst_interior?]
    rcases hfirst : blocks.interior? d with - | i
    · rcases hsecond : blocks.interior? d.other with - | j
      · have hnone : ∀ e, blocks.interior? e = none := fun e ↦ by
          rcases d.eq_or_eq_other e with rfl | rfl <;> assumption
        rw [AttributeBlocks.eq_none hnone]
        exact attributeBlocks_of_head_ne fun e ↦ hleft e (hnone e)
      · have hj := hread d.other j hsecond
        rw [Delimiter.other_other, hfirst] at hj
        exact hj
    · exact hread d i hfirst

/-- **The attribute blocks are at fault** when one of them is never closed; a block of the other
kind may have been read before it. -/
theorem attributeBlocks_eq_error_iff {s : List Char} {f : Fault} :
    attributeBlocks s = .error f ↔ ∃ d first inner, f = .unmatched d ∧
      s = blockText d.other first ++ d.opening :: inner ∧
      (∀ interior ∈ first, Paired d.other.opening d.other.closing interior) ∧
      ∀ t, t <+: inner → t.count d.closing ≤ t.count d.opening := by
  constructor
  · intro h
    by_cases hhead : ∃ d : Delimiter, s.head? = some d.opening
    · obtain ⟨d, hhead⟩ := hhead
      rw [attributeBlocks_of_head hhead] at h
      rcases hfirst : attributeBlock d s with f' | ⟨first, mid⟩
      · rw [hfirst] at h
        obtain rfl := Except.error.inj h
        obtain ⟨rfl, inner, rfl, hinner⟩ := attributeBlock_eq_error_iff.1 hfirst
        exact ⟨d, none, inner, rfl, rfl, by simp, hinner⟩
      · rcases hsecond : attributeBlock d.other mid with f' | ⟨second, rest⟩
        · simp only [hfirst, Except.bind, hsecond, Except.map] at h
          obtain rfl := Except.error.inj h
          obtain ⟨rfl, hpaired, -⟩ := attributeBlock_eq_ok_iff.1 hfirst
          obtain ⟨rfl, inner, rfl, hinner⟩ := attributeBlock_eq_error_iff.1 hsecond
          exact ⟨d.other, first, inner, rfl, by simp, by simpa using hpaired, hinner⟩
        · simp [hfirst, Except.bind, hsecond, Except.map] at h
    · have hnone : ∀ d : Delimiter, s.head? ≠ some d.opening := fun d hd ↦ hhead ⟨d, hd⟩
      exact absurd (h.symm.trans (attributeBlocks_of_head_ne hnone)) (by simp)
  · rintro ⟨d, first, inner, rfl, rfl, hpaired, hinner⟩
    have hfault := attributeBlock_eq_error_iff.2 ⟨rfl, inner, rfl, hinner⟩
    rcases first with - | i
    · rw [attributeBlocks_of_head rfl, blockText, List.nil_append, hfault]
      rfl
    · have hfirst := attributeBlock_blockText (hpaired i rfl) (d.opening :: inner)
      rw [attributeBlocks_of_head rfl, hfirst]
      simp only [Except.bind, Delimiter.other_other, hfault, Except.map]

/-! ### The content -/

/-- The content of an element is nothing, code after its marker, or text. It comes after blanks and
begins with none. -/
inductive ContentCut : List Char → Option Node → Prop
  /-- There is no content. -/
  | nothing {gap : List Char} (hgap : ∀ c ∈ gap, isBlank c = true) : ContentCut gap none
  /-- The code of a script whose value is output. -/
  | code {gap blanks code : List Char} (hgap : ∀ c ∈ gap, isBlank c = true)
      (hblanks : ∀ c ∈ blanks, isBlank c = true) (hne : code ≠ [])
      (hcode : ∀ c ∈ code.head?, isBlank c = false) :
      ContentCut (gap ++ '=' :: (blanks ++ code))
        (some (.script .output (String.ofList code) false []))
  /-- A text that does not begin with the marker of code. -/
  | text {gap text : List Char} (hgap : ∀ c ∈ gap, isBlank c = true) (hne : text ≠ [])
      (htext : ∀ c ∈ text.head?, isBlank c = false ∧ c ≠ '=') :
      ContentCut (gap ++ text) (some (.leaf .plainText (String.ofList text)))

/-- **The content that is read is that of the grammar.** -/
theorem inlineContent_eq_ok_iff_cut {s : List Char} {inline : Option Node} :
    inlineContent s = .ok inline ↔ ContentCut s inline := by
  rw [inlineContent_eq_ok_iff]
  constructor
  · rintro (⟨hnil, rfl⟩ | ⟨code, hmark, hne, rfl⟩ | ⟨hne, hmark, rfl⟩)
    · obtain ⟨gap, rfl, hgap, -⟩ := trimStart_eq_iff.1 hnil
      rw [List.append_nil]
      exact .nothing hgap
    · obtain ⟨gap, rfl, hgap, -⟩ := trimStart_eq_iff.1 hmark
      obtain ⟨blanks, htext, hblanks, hcode⟩ := trimStart_eq_iff.1 (Eq.refl (trimStart code))
      have hcut := ContentCut.code hgap hblanks hne hcode
      rwa [← htext] at hcut
    · obtain ⟨gap, htext, hgap, hhead⟩ := trimStart_eq_iff.1 (Eq.refl (trimStart s))
      have hcut := ContentCut.text hgap hne fun c hc ↦ ⟨hhead c hc, fun heq ↦ hmark (heq ▸ hc)⟩
      rwa [← htext] at hcut
  · rintro (hgap | ⟨hgap, hblanks, hne, hcode⟩ | ⟨hgap, hne, htext⟩)
    · exact .inl ⟨trimStart_eq_iff.2 ⟨s, by simp, hgap, by simp⟩, rfl⟩
    · refine .inr (.inl ⟨_, trimStart_eq_iff.2 ⟨_, rfl, hgap, ?_⟩, ?_⟩)
      · simp
        decide
      · rw [trimStart_eq_iff.2 ⟨_, rfl, hblanks, hcode⟩]
        exact ⟨hne, rfl⟩
    · have htrim := trimStart_eq_iff.2 ⟨_, rfl, hgap, fun c hc ↦ (htext c hc).1⟩
      refine .inr (.inr ?_)
      rw [htrim]
      exact ⟨hne, fun hhead ↦ (htext '=' hhead).2 rfl, rfl⟩

/-- The content is at fault when nothing but blanks follows the marker of code. -/
theorem inlineContent_eq_error_iff {s : List Char} {f : Fault} :
    inlineContent s = .error f ↔ f = .emptyCode .output ∧ ∃ gap blanks, s = gap ++ '=' :: blanks ∧
      (∀ c ∈ gap, isBlank c = true) ∧ ∀ c ∈ blanks, isBlank c = true := by
  constructor
  · intro h
    refine ⟨inlineContent_eq_error h, ?_⟩
    rw [inlineContent] at h
    split at h
    · exact absurd h (by simp)
    · next code hmark =>
      rcases hcode : ofScript .output code with e | n
      · obtain ⟨hnil, -⟩ := ofScript_eq_error_iff.1 hcode
        obtain ⟨gap, rfl, hgap, -⟩ := trimStart_eq_iff.1 hmark
        obtain ⟨blanks, rfl, hblanks, -⟩ := trimStart_eq_iff.1 hnil
        exact ⟨gap, blanks ++ [], rfl, hgap, by simpa using hblanks⟩
      · simp [hcode, Except.map] at h
    · exact absurd h (by simp)
  · rintro ⟨rfl, gap, blanks, rfl, hgap, hblanks⟩
    have hmark : trimStart (gap ++ '=' :: blanks) = '=' :: blanks :=
      trimStart_eq_iff.2 ⟨gap, rfl, hgap, by simp; decide⟩
    have hnil : trimStart blanks = [] := trimStart_eq_iff.2 ⟨blanks, by simp, hblanks, by simp⟩
    rw [inlineContent, hmark]
    simp only [ofScript_eq_error_iff.2 ⟨hnil, rfl⟩, Except.map]

/-! ### Whole lines -/

/-- Nothing is taken of a text that does not begin with a character of the piece. -/
theorem takeWhile_eq_nil_iff {p : Char → Bool} {s : List Char} :
    s.takeWhile p = [] ↔ ∀ c ∈ s.head?, p c = false := by
  rcases s with - | ⟨c, s⟩
  · simp
  · by_cases hc : p c = true <;> simp [hc]

/-- An element line is at fault in the first of its stages that cannot go on. -/
theorem ofElement_eq_error_iff {text : List Char} {f : Fault} :
    ofElement text = .error f ↔
      ((dropElementMarker text).takeWhile isTagChar = [] ∧
        f = .invalidElement (String.ofList text)) ∨
      (dropElementMarker text).takeWhile isTagChar ≠ [] ∧
        (attributeBlocks (shorthands ((dropElementMarker text).dropWhile isTagChar)).2 = .error f ∨
          ∃ blocks rest,
            attributeBlocks (shorthands ((dropElementMarker text).dropWhile isTagChar)).2 =
              .ok (blocks, rest) ∧ inlineContent rest = .error f) := by
  rw [ofElement]
  by_cases htag : (dropElementMarker text).takeWhile isTagChar = []
  · simp [htag, eq_comm]
  · rcases hb : attributeBlocks (shorthands ((dropElementMarker text).dropWhile isTagChar)).2
      with e | ⟨blocks, rest⟩
    · simp [htag, hb, bind, Except.bind]
    · rcases hi : inlineContent rest with e | inline
      · simp [htag, hb, hi, bind, Except.bind]
      · simp [htag, hb, hi, bind, Except.bind, pure, Except.pure]

/-- **The grammar of element lines.** A text is accepted exactly when, without its marker, it is a
tag, shorthands, attribute blocks and content, each cut off where the grammar says. The element is
what these pieces say: the classes are the names that are not empty, in order, the id is the last
one that is not empty, and the interiors and the content are kept as they are. Any other text has
the fault of the first piece that is not there: it has no tag, or after the tag and the shorthands,
and perhaps a block of the other kind, a block that is never closed, or after these no code behind
the marker of code. -/
theorem ofElement_grammar (text : List Char) :
    ∃ s, MarkerCut text s ∧
      (∀ n, ofElement text = .ok n ↔ ∃ tag names afterNames blocks afterBlocks inline,
        TagCut s tag names afterNames ∧ BlocksCut afterNames blocks afterBlocks ∧
        ContentCut afterBlocks inline ∧
        n = .element
          { tag := String.ofList tag
            classes := String.ofList ([' '].intercalate (classNames names))
            id := (idNames names).getLast?.map String.ofList
            braceAttributes := (blocks.interior? .brace).map String.ofList
            parenAttributes := (blocks.interior? .paren).map String.ofList } inline []) ∧
      ∀ f, ofElement text = .error f ↔
        (f = .invalidElement (String.ofList text) ∧ ∀ c ∈ s.head?, isTagChar c = false) ∨
        (∃ tag names afterNames d first inner, f = .unmatched d ∧ TagCut s tag names afterNames ∧
          afterNames = blockText d.other first ++ d.opening :: inner ∧
          (∀ interior ∈ first, Paired d.other.opening d.other.closing interior) ∧
          ∀ t, t <+: inner → t.count d.closing ≤ t.count d.opening) ∨
        ∃ tag names afterNames blocks gap blanks, f = .emptyCode .output ∧
          TagCut s tag names afterNames ∧ BlocksCut afterNames blocks (gap ++ '=' :: blanks) ∧
          (∀ c ∈ gap, isBlank c = true) ∧ ∀ c ∈ blanks, isBlank c = true := by
  refine ⟨_, markerCut_iff.2 rfl, fun n ↦ ?_, fun f ↦ ?_⟩
  · rw [ofElement_eq_ok_iff]
    simp only [← filterMap_class?, ← filterMap_id?]
    constructor
    · rintro ⟨htag, blocks, rest, inline, hblocks, hinline, rfl⟩
      exact ⟨_, _, _, blocks, rest, inline, tagCut_iff.2 ⟨htag, rfl, rfl⟩,
        attributeBlocks_eq_ok_iff.1 hblocks, inlineContent_eq_ok_iff_cut.1 hinline, rfl⟩
    · rintro ⟨tag, names, afterNames, blocks, rest, inline, htag, hblocks, hinline, rfl⟩
      obtain ⟨hne, rfl, hnames⟩ := tagCut_iff.1 htag
      rw [hnames]
      exact ⟨hne, blocks, rest, inline, attributeBlocks_eq_ok_iff.2 hblocks,
        inlineContent_eq_ok_iff_cut.2 hinline, rfl⟩
  · rw [ofElement_eq_error_iff, takeWhile_eq_nil_iff]
    refine or_congr and_comm ?_
    constructor
    · rintro ⟨htag, hfault | ⟨blocks, rest, hblocks, hfault⟩⟩
      · obtain ⟨d, first, inner, rfl, htext, hfirst, hinner⟩ :=
          attributeBlocks_eq_error_iff.1 hfault
        exact .inl ⟨_, _, _, d, first, inner, rfl, tagCut_iff.2 ⟨htag, rfl, rfl⟩, htext, hfirst,
          hinner⟩
      · obtain ⟨rfl, gap, blanks, rfl, hgap, hblanks⟩ := inlineContent_eq_error_iff.1 hfault
        exact .inr ⟨_, _, _, blocks, gap, blanks, rfl, tagCut_iff.2 ⟨htag, rfl, rfl⟩,
          attributeBlocks_eq_ok_iff.1 hblocks, hgap, hblanks⟩
    · rintro (⟨tag, names, afterNames, d, first, inner, rfl, htag, htext, hfirst, hinner⟩ |
        ⟨tag, names, afterNames, blocks, gap, blanks, rfl, htag, hblocks, hgap, hblanks⟩)
      · obtain ⟨hne, rfl, hnames⟩ := tagCut_iff.1 htag
        rw [hnames]
        exact ⟨hne, .inl (attributeBlocks_eq_error_iff.2
          ⟨d, first, inner, rfl, htext, hfirst, hinner⟩)⟩
      · obtain ⟨hne, rfl, hnames⟩ := tagCut_iff.1 htag
        rw [hnames]
        exact ⟨hne, .inr ⟨blocks, _, attributeBlocks_eq_ok_iff.2 hblocks,
          inlineContent_eq_error_iff.2 ⟨rfl, gap, blanks, rfl, hgap, hblanks⟩⟩⟩

end Node

end HamlTree
