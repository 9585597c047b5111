import HamlTree.Node.Outline
import HamlTree.Proofs.LineNode
import HamlTree.Proofs.SourceLines

/-!
# The pieces of an element line

Each stage of the element scanner takes a piece of the line, and each piece can be written down
again: the tag, the shorthands (`Shorthand.text`) and the attribute blocks (`blockText`). For every
stage two facts are proved here. What it takes is of a certain form — names are not empty and made
of name characters (`IsName`), the interior of a block is balanced (`Balanced`) — and a piece of
this form is taken again in full, as long as what comes after it cannot be taken for a part of it.
-/

namespace HamlTree

open Text

namespace Text

/-! ### Words -/

/-- A word is cut off where a blank follows, or nothing. -/
theorem words_append {word : List Char} (hne : word ≠ []) (hword : ∀ c ∈ word, isBlank c = false)
    {rest : List Char} (hrest : ∀ c ∈ rest.head?, isBlank c = true) :
    words (word ++ rest) = word :: words rest := by
  rcases word with - | ⟨c, word⟩
  · exact absurd rfl hne
  · have hc : isBlank c = false := hword c List.mem_cons_self
    have hnot : ∀ x ∈ word, (!isBlank x) = true := fun x hx ↦ by
      simp [hword x (List.mem_cons_of_mem c hx)]
    have hstop : rest.takeWhile (!isBlank ·) = [] ∧ rest.dropWhile (!isBlank ·) = rest := by
      rcases rest with - | ⟨d, rest⟩
      · exact ⟨rfl, rfl⟩
      · simp [hrest d rfl]
    have htrim : trimStart (c :: word ++ rest) = c :: (word ++ rest) := by
      rw [List.cons_append, trimStart_cons, hc]
      rfl
    rw [words]
    split
    · next h => exact absurd (htrim.symm.trans h) (by simp)
    · next h =>
      obtain ⟨rfl, rfl⟩ := List.cons.inj (htrim.symm.trans h)
      rw [List.takeWhile_append_of_pos hnot, List.dropWhile_append_of_pos hnot, hstop.1, hstop.2,
        List.append_nil]

/-- Words do not depend on the blanks before them. -/
theorem words_cons_of_blank {c : Char} (hc : isBlank c = true) (s : List Char) :
    words (c :: s) = words s := by
  have htrim : trimStart (c :: s) = trimStart s := by rw [trimStart_cons, hc]; rfl
  rw [words, words]
  split <;> split <;> simp_all

/-- **Words that are put together with spaces are the words of the result.** -/
theorem words_intercalate {names : List (List Char)}
    (h : ∀ name ∈ names, name ≠ [] ∧ ∀ c ∈ name, isBlank c = false) :
    words ([' '].intercalate names) = names := by
  induction names with
  | nil => simp [words]
  | cons name names ih =>
    obtain ⟨hne, hname⟩ := h name List.mem_cons_self
    rcases names with - | ⟨other, names⟩
    · have hnil : ∀ c ∈ ([] : List Char).head?, isBlank c = true := by simp
      have hwords := words_append hne hname hnil
      rw [List.intercalate_singleton, ← List.append_nil name, hwords]
      simp [words]
    · rw [List.intercalate_cons_cons, List.append_assoc, List.singleton_append,
        words_append hne hname (by simp; decide), words_cons_of_blank (by decide),
        ih fun x hx ↦ h x (List.mem_cons_of_mem name hx)]

end Text

namespace Line

/-- Every line end is a blank. -/
theorem isBlank_of_isLineEnd {c : Char} (h : isLineEnd c = true) : isBlank c = true := by
  simp only [isLineEnd, Bool.or_eq_true, beq_iff_eq] at h
  rcases h with rfl | rfl <;> decide

/-- A text without blanks is tidy. -/
theorem Tidy.of_not_blank {s : List Char} (h : ∀ c ∈ s, isBlank c = false) : Tidy s where
  unbroken c hc := by
    refine Bool.eq_false_iff.2 fun hend ↦ ?_
    exact Bool.false_ne_true ((h c hc).symm.trans (isBlank_of_isLineEnd hend))
  ends := by
    rcases List.eq_nil_or_concat s with rfl | ⟨s, c, rfl⟩
    · rfl
    · simpa [endsBlank] using h c (by simp)

end Line

namespace Node

/-! ### Tags and names -/

/-- Letters and digits lie between the digit zero and the letter z. -/
theorem range_of_isAlphanum {c : Char} (h : c.isAlphanum = true) :
    0x30 ≤ c.toNat ∧ c.toNat ≤ 0x7a := by
  have hdef : c.isAlphanum = ((decide ('A'.val ≤ c.val ∧ c.val ≤ 'Z'.val) ||
      (decide ('a'.val ≤ c.val) && decide (c.val ≤ 'z'.val))) ||
        (decide ('0'.val ≤ c.val) && decide (c.val ≤ '9'.val))) := rfl
  rw [hdef] at h
  simp only [Bool.or_eq_true, Bool.and_eq_true, decide_eq_true_eq, UInt32.le_iff_toNat_le] at h
  rcases h with (h | h) | h
  · exact ⟨Nat.le_trans (by decide) h.1, Nat.le_trans h.2 (by decide)⟩
  · exact ⟨Nat.le_trans (by decide) h.1, Nat.le_trans h.2 (by decide)⟩
  · exact ⟨Nat.le_trans (by decide) h.1, Nat.le_trans h.2 (by decide)⟩

/-- No character of a tag is a blank. -/
theorem isBlank_of_isTagChar {c : Char} (h : isTagChar c = true) : isBlank c = false := by
  have hrange : (0x30 ≤ c.toNat ∧ c.toNat ≤ 0x7a) ∨ c = '-' := by
    simp only [isTagChar, Bool.or_eq_true, beq_iff_eq] at h
    rcases h with ((h | rfl) | rfl) | rfl
    · exact .inl (range_of_isAlphanum h)
    · exact .inr rfl
    · decide
    · decide
  rcases hrange with ⟨hlow, hhigh⟩ | rfl
  · refine Bool.eq_false_iff.2 fun hblank ↦ ?_
    obtain ⟨r, hr, hr₁, hr₂⟩ := CharRanges.exists_of_has hblank
    -- no range of blanks meets the stretch from the digits to the letters
    have hout : ∀ r ∈ blankRanges, r.2 < 0x30 ∨ 0x7a < r.1 := by decide
    have := hout r hr
    omega
  · decide

/-- The characters of a name can stand in a tag. -/
theorem isTagChar_of_isNameChar {c : Char} (h : isNameChar c = true) : isTagChar c = true := by
  simp only [isNameChar, isTagChar, Bool.or_eq_true] at h ⊢
  rcases h with (h | h) | h
  · exact .inl (.inl (.inl h))
  · exact .inl (.inl (.inr h))
  · exact .inr h

/-- A name of a class or an id. -/
structure IsName (name : List Char) : Prop where
  /-- It is not empty. -/
  ne_nil : name ≠ []
  /-- It has no other characters than names can have. -/
  chars : ∀ c ∈ name, isNameChar c = true

theorem IsName.not_blank {name : List Char} (h : IsName name) : ∀ c ∈ name, isBlank c = false :=
  fun c hc ↦ isBlank_of_isTagChar (isTagChar_of_isNameChar (h.chars c hc))

/-- The longest piece of a text whose characters pass a test is all of a piece that does, when the
rest does not begin with such a character. -/
theorem takeWhile_piece {α : Type} {p : α → Bool} {piece : List α}
    (hpiece : ∀ c ∈ piece, p c = true) {rest : List α} (hrest : ∀ c ∈ rest.head?, p c = false) :
    (piece ++ rest).takeWhile p = piece ∧ (piece ++ rest).dropWhile p = rest := by
  rw [List.takeWhile_append_of_pos hpiece, List.dropWhile_append_of_pos hpiece]
  rcases rest with - | ⟨c, rest⟩
  · simp
  · have hc : p c = false := hrest c rfl
    simp [hc]

namespace Shorthand

/-- The name of a shorthand, which may be empty. -/
def name : Shorthand → List Char
  | ofClass name => name
  | ofId name => name

/-- A shorthand as it is written. -/
def text : Shorthand → List Char
  | ofClass name => '.' :: name
  | ofId name => '#' :: name

theorem isName_of_class? {x : Shorthand} (hx : ∀ c ∈ x.name, isNameChar c = true)
    {name : List Char} (h : x.class? = some name) : IsName name := by
  rcases x with (- | ⟨c, name⟩) | name
  · simp [class?] at h
  · obtain rfl := Option.some.inj h
    exact ⟨by simp, hx⟩
  · simp [class?] at h

theorem isName_of_id? {x : Shorthand} (hx : ∀ c ∈ x.name, isNameChar c = true)
    {name : List Char} (h : x.id? = some name) : IsName name := by
  rcases x with name | (- | ⟨c, name⟩)
  · simp [id?] at h
  · simp [id?] at h
  · obtain rfl := Option.some.inj h
    exact ⟨by simp, hx⟩

end Shorthand

/-- Shorthands have the characters of names, and what comes after them is an end of the text. -/
theorem chars_of_shorthands (s : List Char) :
    (∀ x ∈ (shorthands s).1, ∀ c ∈ x.name, isNameChar c = true) ∧ (shorthands s).2 <:+ s := by
  fun_induction shorthands s with
  | case1 rest after ih | case2 rest after ih =>
    refine ⟨fun x hx ↦ ?_, ?_⟩
    · rcases List.mem_cons.1 hx with rfl | hx
      · exact fun c hc ↦ List.mem_takeWhile_imp hc
      · exact ih.1 x hx
    · exact ih.2.trans ((List.dropWhile_suffix _).trans (List.suffix_cons _ _))
  | case3 s => simp

/-- **Shorthands are read as they are written.** -/
theorem shorthands_append {names : List Shorthand}
    (hnames : ∀ x ∈ names, ∀ c ∈ x.name, isNameChar c = true) {rest : List Char}
    (hrest : ∀ c ∈ rest.head?, isNameChar c = false ∧ c ≠ '.' ∧ c ≠ '#') :
    shorthands (names.flatMap Shorthand.text ++ rest) = (names, rest) := by
  induction names with
  | nil =>
    rw [List.flatMap_nil, List.nil_append]
    refine shorthands_of_head (fun h ↦ ?_) fun h ↦ ?_
    · exact (hrest _ h).2.1 rfl
    · exact (hrest _ h).2.2 rfl
  | cons x names ih =>
    have ih := ih fun y hy ↦ hnames y (List.mem_cons_of_mem x hy)
    have hhead : ∀ c ∈ (names.flatMap Shorthand.text ++ rest).head?, isNameChar c = false := by
      rcases names with - | ⟨y | y, names⟩
      · exact fun c hc ↦ (hrest c hc).1
      · simp [Shorthand.text]
        decide
      · simp [Shorthand.text]
        decide
    -- so the name is taken in full, and the rest is left to the next step
    obtain ⟨htake, hdrop⟩ := takeWhile_piece (hnames x List.mem_cons_self) hhead
    rw [List.flatMap_cons, List.append_assoc]
    cases x with
    | ofClass name =>
      rw [Shorthand.name] at htake hdrop
      rw [Shorthand.text, List.cons_append, shorthands_class, htake, hdrop, ih]
    | ofId name =>
      rw [Shorthand.name] at htake hdrop
      rw [Shorthand.text, List.cons_append, shorthands_id, htake, hdrop, ih]

/-! ### Attribute blocks -/

/-- The interior of an attribute block: the first delimiter that closes more than has been opened is
the one after the interior. -/
def Balanced (d : Delimiter) (interior : List Char) : Prop :=
  ∀ rest, balanced? d 0 [] (interior ++ d.closing :: rest) = some (interior, rest)

/-- An attribute block as it is written, if there is one. -/
def blockText (d : Delimiter) : Option (List Char) → List Char
  | none => []
  | some interior => d.opening :: (interior ++ [d.closing])

/-- The depth after one more character of a block, or none when the block has ended. -/
def depthAfter (d : Delimiter) (depth : Nat) (c : Char) : Option Nat :=
  if c = d.opening then some (depth + 1)
  else if c = d.closing then if depth = 0 then none else some (depth - 1)
  else some depth

theorem balanced?_cons (d : Delimiter) (depth : Nat) (c : Char) (s : List Char) :
    balanced? d depth [] (c :: s) =
      match depthAfter d depth c with
      | none => some ([], s)
      | some depth => (balanced? d depth [] s).map fun p ↦ (c :: p.1, p.2) := by
  rw [balanced?.eq_def, depthAfter]
  simp only
  split
  · exact balanced?_eq_map d _ [c] s
  · split
    · rcases depth with - | depth
      · rfl
      · exact balanced?_eq_map d _ [c] s
    · exact balanced?_eq_map d _ [c] s

/-- **Where a block ends does not depend on what comes after it.** -/
theorem balanced?_eq_some {d : Delimiter} {depth : Nat} {s interior rest : List Char}
    (h : balanced? d depth [] s = some (interior, rest)) :
    s = interior ++ d.closing :: rest ∧ ∀ rest',
      balanced? d depth [] (interior ++ d.closing :: rest') = some (interior, rest') := by
  induction s generalizing depth interior with
  | nil => simp [balanced?] at h
  | cons c s ih =>
    rw [balanced?_cons] at h
    rcases hdepth : depthAfter d depth c with - | depth'
    · -- this character ends the block
      rw [hdepth] at h
      obtain ⟨rfl, rfl⟩ := Prod.mk.inj (Option.some.inj h)
      obtain rfl : c = d.closing := by
        rw [depthAfter] at hdepth
        split at hdepth
        · simp at hdepth
        · split at hdepth
          · assumption
          · simp at hdepth
      refine ⟨rfl, fun rest' ↦ ?_⟩
      rw [List.nil_append, balanced?_cons, hdepth]
    · rw [hdepth] at h
      obtain ⟨⟨interior', rest₁⟩, hrest, heq⟩ := Option.map_eq_some_iff.1 h
      obtain ⟨rfl, rfl⟩ := Prod.mk.inj heq
      obtain ⟨rfl, hall⟩ := ih hrest
      refine ⟨rfl, fun rest' ↦ ?_⟩
      rw [List.cons_append, balanced?_cons, hdepth]
      simp only [hall rest', Option.map_some]

/-- A block that was read is balanced, and it is a part of the text. -/
theorem attributeBlock_eq_ok {d : Delimiter} {s rest : List Char} {block : Option (List Char)}
    (h : attributeBlock d s = .ok (block, rest)) :
    s = blockText d block ++ rest ∧ ∀ interior ∈ block, Balanced d interior := by
  rw [attributeBlock.eq_def] at h
  split at h
  · obtain ⟨rfl, rfl⟩ := Prod.mk.inj (Except.ok.inj h)
    exact ⟨rfl, by simp⟩
  · next c s =>
    split at h
    · next hc =>
      split at h
      · next interior rest' hinterior =>
        obtain ⟨rfl, rfl⟩ := Prod.mk.inj (Except.ok.inj h)
        obtain ⟨rfl, hall⟩ := balanced?_eq_some hinterior
        refine ⟨by simp [blockText, hc], fun x hx ↦ ?_⟩
        obtain rfl := Option.some.inj hx
        exact hall
      · exact absurd h (by simp)
    · obtain ⟨rfl, rfl⟩ := Prod.mk.inj (Except.ok.inj h)
      exact ⟨rfl, by simp⟩

/-- **A balanced block is read as it is written.** Without a block, nothing that could open one may
follow. -/
theorem attributeBlock_append {d : Delimiter} {block : Option (List Char)}
    (hblock : ∀ interior ∈ block, Balanced d interior) {rest : List Char}
    (hrest : block = none → rest.head? ≠ some d.opening) :
    attributeBlock d (blockText d block ++ rest) = .ok (block, rest) := by
  rcases block with - | interior
  · rw [blockText, List.nil_append, attributeBlock.eq_def]
    rcases rest with - | ⟨c, rest⟩
    · rfl
    · have hc : c ≠ d.opening := fun hc ↦ hrest rfl (by simp [hc])
      simp [hc]
  · rw [blockText, List.cons_append, List.append_assoc, List.singleton_append, attributeBlock]
    rw [if_pos rfl, hblock interior rfl rest]

/-- What is inside a block is a part of the block. -/
theorem infix_blockText {d : Delimiter} {block : Option (List Char)} {interior : List Char}
    (h : interior ∈ block) : interior <:+: blockText d block := by
  obtain rfl := h
  exact ⟨[d.opening], [d.closing], rfl⟩

/-- Blocks that were read are balanced, and what comes after them is an end of the text. -/
theorem attributeBlocks_eq_ok {s rest : List Char} {blocks : AttributeBlocks}
    (h : attributeBlocks s = .ok (blocks, rest)) :
    (∀ interior ∈ blocks.braces, Balanced .brace interior ∧ interior <:+: s) ∧
      (∀ interior ∈ blocks.parens, Balanced .paren interior ∧ interior <:+: s) ∧ rest <:+ s := by
  -- two blocks of any kinds, one after the other
  have htwo : ∀ {d d' : Delimiter} {x y : Option (List Char)} {mid : List Char},
      attributeBlock d s = .ok (x, mid) → attributeBlock d' mid = .ok (y, rest) →
      (∀ interior ∈ x, Balanced d interior ∧ interior <:+: s) ∧
        (∀ interior ∈ y, Balanced d' interior ∧ interior <:+: s) ∧ rest <:+ s := by
    intro d d' x y mid hx hy
    obtain ⟨rfl, hfirst⟩ := attributeBlock_eq_ok hx
    obtain ⟨rfl, hsecond⟩ := attributeBlock_eq_ok hy
    refine ⟨fun i hi ↦ ⟨hfirst i hi, ?_⟩, fun i hi ↦ ⟨hsecond i hi, ?_⟩, ?_⟩
    · exact (infix_blockText hi).trans (List.prefix_append _ _).isInfix
    · exact (infix_blockText hi).trans
        ((List.prefix_append _ _).isInfix.trans (List.suffix_append _ _).isInfix)
    · exact (List.suffix_append _ _).trans (List.suffix_append _ _)
  rcases attributeBlocks_cases s with
    ⟨_, _, _, -, hs⟩ | ⟨_, _, mid, _, hx, hy, hs⟩ | ⟨_, _, mid, _, hx, hy, hs⟩
  · exact absurd (h.symm.trans hs) (by simp)
  · obtain ⟨rfl, rfl⟩ := Prod.mk.inj (Except.ok.inj (h.symm.trans hs))
    obtain ⟨hparens, hbraces, hrest⟩ := htwo hx hy
    exact ⟨hbraces, hparens, hrest⟩
  · obtain ⟨rfl, rfl⟩ := Prod.mk.inj (Except.ok.inj (h.symm.trans hs))
    exact htwo hx hy

/-- **Balanced blocks are read as they are written**, the one in braces first. -/
theorem attributeBlocks_append {braces parens : Option (List Char)}
    (hbraces : ∀ interior ∈ braces, Balanced .brace interior)
    (hparens : ∀ interior ∈ parens, Balanced .paren interior) {rest : List Char}
    (hrest : ∀ c ∈ rest.head?, c ≠ '{' ∧ c ≠ '(') :
    attributeBlocks (blockText .brace braces ++ (blockText .paren parens ++ rest)) =
      .ok (⟨braces, parens⟩, rest) := by
  have hbrace : rest.head? ≠ some Delimiter.brace.opening := fun h ↦ (hrest _ h).1 rfl
  have hparen : rest.head? ≠ some Delimiter.paren.opening := fun h ↦ (hrest _ h).2 rfl
  have hsecond := attributeBlock_append hparens fun _ ↦ hparen
  rw [attributeBlocks]
  split
  · next hhead =>
    -- only without a block in braces can the text begin with a parenthesis
    obtain rfl : braces = none := by
      rcases braces with - | interior
      · rfl
      · exact absurd (Option.some.inj hhead) (by decide)
    rw [show blockText .brace none = [] from rfl, List.nil_append, hsecond]
    have hnone := attributeBlock_append hbraces fun _ ↦ hbrace
    rw [show blockText .brace none = [] from rfl, List.nil_append] at hnone
    simp only [bind, Except.bind, hnone, pure, Except.pure]
  · have hfirst : attributeBlock .brace
        (blockText .brace braces ++ (blockText .paren parens ++ rest)) =
          .ok (braces, blockText .paren parens ++ rest) := by
      refine attributeBlock_append hbraces fun _ ↦ ?_
      rcases parens with - | interior
      · exact hbrace
      · simp [blockText, Delimiter.opening]
    simp only [hfirst, bind, Except.bind, hsecond, pure, Except.pure]

end Node

end HamlTree
