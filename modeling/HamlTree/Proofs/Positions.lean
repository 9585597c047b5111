import HamlTree.Proofs.ElementGrammar
import HamlTree.Proofs.Scans

/-!
# Element lines by positions

Each stage of the element scanner hands on what it leaves of a line. A scanner can keep the line as
it is instead, with a position that moves on character by character: a piece is what lies between
two positions, and how deep the scanner is in a block is a count that goes up and down. Such a
scanner could break off (`Scan`), and none of its stages checks that it does not. The end of a block
is one less than the position behind it, say, and it is not before the interior begins because the
block was opened there, and one is taken from the depth only inside the block.

From any position of a line each stage ends as the reading of what is left there, at the position
where the rest of that reading begins (`Scan.AtRest`). So the scanner never breaks off, and it ends
as the reading of the whole line (`Scan.follows_element`).
-/

namespace HamlTree

open Text Node

/-! ### One shorthand, one block -/

namespace Node

/-- The kind of shorthand that a character introduces. -/
def Shorthand.introducedBy? : Char → Option (List Char → Shorthand)
  | '.' => some .ofClass
  | '#' => some .ofId
  | _ => none

theorem shorthands_of_introducedBy? {c : Char} {kind : List Char → Shorthand}
    (h : Shorthand.introducedBy? c = some kind) (rest : List Char) :
    shorthands (c :: rest) =
      (kind (rest.takeWhile isNameChar) :: (shorthands (rest.dropWhile isNameChar)).1,
        (shorthands (rest.dropWhile isNameChar)).2) := by
  rw [Shorthand.introducedBy?.eq_def] at h
  split at h
  · obtain rfl := Option.some.inj h
    exact shorthands_class rest
  · obtain rfl := Option.some.inj h
    exact shorthands_id rest
  · exact absurd h (by simp)

theorem shorthands_of_not_introduced {s : List Char}
    (h : s.head?.bind Shorthand.introducedBy? = none) : shorthands s = ([], s) := by
  refine shorthands_of_head (fun hc ↦ ?_) fun hc ↦ ?_
  · rw [hc] at h
    exact absurd h (by simp [Shorthand.introducedBy?])
  · rw [hc] at h
    exact absurd h (by simp [Shorthand.introducedBy?])

namespace AttributeBlocks

/-- The kind of block that a character opens, if there is none of this kind. -/
def opened? (blocks : AttributeBlocks) (c : Char) : Option Delimiter :=
  if c = '{' ∧ blocks.braces = none then some .brace
  else if c = '(' ∧ blocks.parens = none then some .paren
  else none

/-- The blocks with one more. -/
def put (blocks : AttributeBlocks) (d : Delimiter) (interior : List Char) : AttributeBlocks :=
  match d with
  | .brace => { blocks with braces := some interior }
  | .paren => { blocks with parens := some interior }

/-- How many kinds of block there are none of. -/
def missing (blocks : AttributeBlocks) : Nat :=
  blocks.braces.elim 1 (fun _ ↦ 0) + blocks.parens.elim 1 (fun _ ↦ 0)

/-- A kind of block is opened by its own delimiter. -/
theorem opened?_eq_some_iff {blocks : AttributeBlocks} {c : Char} {d : Delimiter} :
    blocks.opened? c = some d ↔ c = d.opening ∧ blocks.interior? d = none := by
  have hne : '(' ≠ '{' := by decide
  obtain ⟨braces, parens⟩ := blocks
  cases d <;> simp only [opened?, interior?, Delimiter.opening] <;> grind

@[simp] theorem interior?_put (blocks : AttributeBlocks) (d : Delimiter) (interior : List Char) :
    (blocks.put d interior).interior? d = some interior := by
  cases d <;> rfl

@[simp] theorem interior?_other_put (blocks : AttributeBlocks) (d : Delimiter)
    (interior : List Char) :
    (blocks.put d interior).interior? d.other = blocks.interior? d.other := by
  cases d <;> rfl

theorem put_other_eq {blocks : AttributeBlocks} {d : Delimiter} {i : List Char}
    (h : blocks.interior? d = some i) (j : List Char) :
    blocks.put d.other j = .ofFirst (some i) (some j) d := by
  have hd := interior?_other_put blocks d.other j
  rw [Delimiter.other_other, h] at hd
  rw [← hd, ← interior?_put blocks d.other j, ofFirst_interior?]

/-- One kind less is missing. -/
theorem missing_put_lt {blocks : AttributeBlocks} {d : Delimiter} (h : blocks.interior? d = none)
    (interior : List Char) : (blocks.put d interior).missing < blocks.missing := by
  obtain ⟨braces, parens⟩ := blocks
  cases d with
  | brace =>
    obtain rfl : braces = none := h
    simp [put, missing]
  | paren =>
    obtain rfl : parens = none := h
    simp [put, missing]

end AttributeBlocks

/-- From inside an attribute block at some depth below it: the interior, after what has been read of
it, and the rest. -/
def blockRest (d : Delimiter) (depth : Nat) (read s : List Char) :
    Except Fault (List Char × List Char) :=
  (balanced? d depth read s).elim (.error (.unmatched d)) .ok

theorem map_attributeBlock_opening {β : Type} (d : Delimiter) (s : List Char)
    (f : Option (List Char) × List Char → β) :
    (attributeBlock d (d.opening :: s)).map f =
      (blockRest d 0 [] s).bind fun p ↦ .ok (f (some p.1, p.2)) := by
  rw [attributeBlock, if_pos rfl, blockRest]
  cases balanced? d 0 [] s <;> rfl

theorem bind_attributeBlock_opening {β : Type} (d : Delimiter) (s : List Char)
    (f : Option (List Char) × List Char → Except Fault β) :
    (attributeBlock d (d.opening :: s)).bind f =
      (blockRest d 0 [] s).bind fun p ↦ f (some p.1, p.2) := by
  rw [attributeBlock, if_pos rfl, blockRest]
  cases balanced? d 0 [] s <;> rfl

theorem attributeBlock_of_head_ne {d : Delimiter} {s : List Char} (h : s.head? ≠ some d.opening) :
    attributeBlock d s = .ok (none, s) :=
  attributeBlock_eq_ok_iff.2 ⟨rfl, by simp, fun _ ↦ h⟩

section blockRest

variable {d : Delimiter} (depth : Nat) (read s : List Char)

theorem blockRest_nil : blockRest d depth read [] = .error (.unmatched d) := rfl

theorem blockRest_opening :
    blockRest d depth read (d.opening :: s) = blockRest d (depth + 1) (d.opening :: read) s := by
  simp [blockRest, balanced?]

/-- At depth zero the block ends. -/
theorem blockRest_closing_zero :
    blockRest d 0 read (d.closing :: s) = .ok (read.reverse, s) := by
  simp [blockRest, balanced?, (opening_ne_closing d).symm]

theorem blockRest_closing_succ :
    blockRest d (depth + 1) read (d.closing :: s) = blockRest d depth (d.closing :: read) s := by
  simp [blockRest, balanced?, (opening_ne_closing d).symm]

theorem blockRest_of_ne {c : Char} (hopening : c ≠ d.opening) (hclosing : c ≠ d.closing) :
    blockRest d depth read (c :: s) = blockRest d depth (c :: read) s := by
  simp [blockRest, balanced?, hopening, hclosing]

end blockRest

end Node

namespace Scan

variable {text : List Char} {line : Nat}

/-! ### The stages of the scanner -/

/-- The shorthands at a position. -/
def shorthands (text : List Char) (pos : Nat) : Scan text.length (List Shorthand × Nat) :=
  match _h : text[pos]?.bind Shorthand.introducedBy? with
  | none => pure ([], pos)
  | some kind => do
    moveTo (next text pos)
    (takeWhile text isNameChar (next text pos)).andThen fun name _hname ↦ do
      let (names, stop) ← shorthands text name.2
      return (kind name.1 :: names, stop)
termination_by text.length - pos
decreasing_by
  obtain ⟨c, hc, -⟩ := Option.bind_eq_some_iff.1 _h
  have hnext := sub_next_lt hc
  have hstop := le_of_takeWhile _hname
  omega

/-- From inside an attribute block that has been opened at a position, at some depth: the interior
of the block and the position behind it. -/
def interior (text : List Char) (line : Nat) (d : Delimiter) (start depth pos : Nat) :
    Scan text.length (List Char × Nat) :=
  match _h : text[pos]? with
  | none => fail ⟨.unmatched d, line⟩
  | some c => do
    moveTo (next text pos)
    if c = d.opening then do
      let depth ← more depth
      interior text line d start depth (next text pos)
    else if c = d.closing then do
      let depth ← less depth
      if depth = 0 then do
        let stop ← less (next text pos)
        let taken ← piece text (start + 1) stop
        return (taken, next text pos)
      else
        interior text line d start depth (next text pos)
    else
      interior text line d start depth (next text pos)
termination_by text.length - pos
decreasing_by all_goals exact sub_next_lt _h

/-- The attribute block at a position. -/
def block (text : List Char) (line : Nat) (d : Delimiter) (pos : Nat) :
    Scan text.length (List Char × Nat) :=
  interior text line d pos 0 pos

/-- The attribute blocks at a position, after those that have been read before it. -/
def blocks (text : List Char) (line : Nat) (read : AttributeBlocks) (pos : Nat) :
    Scan text.length (AttributeBlocks × Nat) :=
  match _h : text[pos]?.bind read.opened? with
  | none => pure (read, pos)
  | some d => do
    let (taken, stop) ← block text line d pos
    blocks text line (read.put d taken) stop
termination_by read.missing
decreasing_by
  obtain ⟨c, -, hd⟩ := Option.bind_eq_some_iff.1 _h
  exact AttributeBlocks.missing_put_lt (AttributeBlocks.opened?_eq_some_iff.1 hd).2 _

/-- The position behind the marker of an element line, if there is one. -/
def marker (text : List Char) : Scan text.length Nat :=
  if text[0]? = some '%' then do
    moveTo (next text 0)
    return next text 0
  else
    return 0

/-- Read an element line. -/
def element (text : List Char) (line : Nat) : Scan text.length Node := do
  moveTo 0
  let start ← marker text
  let (tag, pos) ← takeWhile text isTagChar start
  if tag.isEmpty then
    fail ⟨.invalidElement (String.ofList text), line⟩
  else do
    let (names, pos) ← shorthands text pos
    let (blocks, pos) ← blocks text line ⟨none, none⟩ pos
    let rest ← piece text pos text.length
    let inline ← ofReading line (inlineContent rest)
    return .element (declaration tag names blocks) inline []

/-! ### The stages end as the readings do -/

/-- **Shorthands are read as the reading reads them.** -/
theorem gives_shorthands {pos : Nat} (hpos : pos ≤ text.length) :
    ∃ stop ≤ text.length, text.drop stop = (Node.shorthands (text.drop pos)).2 ∧
      (shorthands text pos).Gives ((Node.shorthands (text.drop pos)).1, stop) := by
  fun_induction shorthands text pos with
  | case1 pos hnone =>
    rw [← List.head?_drop] at hnone
    rw [shorthands_of_not_introduced hnone]
    exact ⟨pos, hpos, rfl, gives_pure _⟩
  | case2 pos kind hkind ih =>
    obtain ⟨c, hc, hkind⟩ := Option.bind_eq_some_iff.1 hkind
    have hlt : pos < text.length := (List.getElem?_eq_some_iff.1 hc).1
    rw [next_of_getElem? hc] at ih ⊢
    obtain ⟨mid, hmid, hrest, hname⟩ := gives_takeWhile isNameChar hlt
    obtain ⟨stop, hstop, hafter, hnames⟩ := ih _ hname hmid
    rw [hrest] at hafter hnames
    rw [drop_of_getElem? hc, shorthands_of_introducedBy? hkind]
    refine ⟨stop, hstop, hafter, (gives_moveTo hlt).bind ?_⟩
    show (Scan.andThen _ _).result? = _
    rw [hname.result?_andThen]
    exact hnames.bind (gives_pure _)

/-- **Inside an attribute block the scan ends as the reading of what is left of it.** The scan
counts the block itself in its depth, and the reading does not. The block is opened before the
position, and the depth is at most the number of characters before it, so that no count, and no end
of the interior, goes below zero or beyond the text. -/
theorem follows_interior (line : Nat) (d : Delimiter) {start depth pos : Nat} (hstart : start < pos)
    (hdepth : depth + 1 ≤ pos) (hpos : pos ≤ text.length) :
    Follows line (AtRest text) (interior text line d start (depth + 1) pos)
      (blockRest d depth ((text.take pos).drop (start + 1)).reverse (text.drop pos)) := by
  generalize hk : depth + 1 = k at hdepth ⊢
  fun_induction interior text line d start k pos generalizing depth with
  | case1 k pos hend =>
    rw [List.drop_eq_nil_of_le (List.getElem?_eq_none_iff.1 hend), blockRest_nil]
    exact .fails rfl
  | case2 k pos c hc ihChanged ih =>
    subst hk
    have hlt : pos < text.length := (List.getElem?_eq_some_iff.1 hc).1
    have hread : ((text.take (pos + 1)).drop (start + 1)).reverse =
        c :: ((text.take pos).drop (start + 1)).reverse := by
      rw [drop_take_succ hstart hc, List.reverse_concat]
    simp only [next_of_getElem? hc, hread] at ihChanged ih ⊢
    refine .bind_left (gives_moveTo hlt) ?_
    rw [drop_of_getElem? hc]
    by_cases hopening : c = d.opening
    · subst hopening
      rw [if_pos rfl, blockRest_opening]
      refine .bind_left (gives_more (by omega)) ?_
      exact ihChanged _ (by omega) hlt rfl (by omega)
    rw [if_neg hopening]
    by_cases hclosing : c = d.closing
    · subst hclosing
      rw [if_pos rfl]
      refine .bind_left (gives_less (by omega)) ?_
      rcases depth with - | depth
      · rw [if_pos rfl, blockRest_closing_zero, List.reverse_reverse]
        refine .bind_left (gives_less (by omega)) ?_
        refine .bind_left (gives_piece (by omega) (by omega)) ?_
        exact .gives (gives_pure _) ⟨rfl, hlt, rfl⟩
      · rw [if_neg (by omega), blockRest_closing_succ]
        exact ihChanged _ (by omega) hlt rfl (by omega)
    · rw [if_neg hclosing, blockRest_of_ne _ _ _ hopening hclosing]
      exact ih (by omega) hlt rfl (by omega)

/-- **An attribute block is read as the reading reads it.** -/
theorem follows_block (line : Nat) {d : Delimiter} {pos : Nat} (h : text[pos]? = some d.opening) :
    Follows line (AtRest text) (block text line d pos)
      (blockRest d 0 [] (text.drop (pos + 1))) := by
  have hlt : pos < text.length := (List.getElem?_eq_some_iff.1 h).1
  have hread : (text.take (pos + 1)).drop (pos + 1) = [] :=
    List.drop_eq_nil_of_le (List.length_take_le _ _)
  have hinside := follows_interior line d (Nat.lt_succ_self pos) (Nat.le_add_left 1 pos) hlt
  rw [hread] at hinside
  rw [block, interior]
  split
  · next hnone => exact absurd (h.symm.trans hnone) (by simp)
  · next c hc =>
    obtain rfl : d.opening = c := Option.some.inj (h.symm.trans hc)
    rw [next_of_getElem? hc, if_pos rfl]
    exact .bind_left (gives_moveTo hlt) (.bind_left (gives_more (by omega)) hinside)

/-! ### Whole lines -/

/-- Where no missing kind of block is opened, no more blocks are read. -/
theorem gives_blocks {read : AttributeBlocks} {pos : Nat}
    (h : ∀ d, read.interior? d = none → text[pos]? ≠ some d.opening) :
    (blocks text line read pos).Gives (read, pos) := by
  rw [blocks]
  split
  · exact gives_pure _
  · next d hsome =>
    obtain ⟨c, hc, hd⟩ := Option.bind_eq_some_iff.1 hsome
    obtain ⟨rfl, hnone⟩ := AttributeBlocks.opened?_eq_some_iff.1 hd
    exact absurd hc (h d hnone)

/-- Where a missing kind of block is opened, its block is read, and then the other blocks are. -/
theorem follows_blocks {read : AttributeBlocks} {d : Delimiter} {pos : Nat}
    {e : List Char × List Char → Except Fault (AttributeBlocks × List Char)}
    (h : text[pos]? = some d.opening) (hnone : read.interior? d = none)
    (hmore : ∀ taken stop, stop ≤ text.length →
      Follows line (AtRest text) (blocks text line (read.put d taken) stop)
        (e (taken, text.drop stop))) :
    Follows line (AtRest text) (blocks text line read pos)
      ((blockRest d 0 [] (text.drop (pos + 1))).bind e) := by
  have hopened : text[pos]?.bind read.opened? = some d := by
    rw [h]
    exact AttributeBlocks.opened?_eq_some_iff.2 ⟨rfl, hnone⟩
  rw [blocks]
  split
  · next hend => exact absurd (hopened.symm.trans hend) (by simp)
  · next d' hd' =>
    obtain rfl : d = d' := Option.some.inj (hopened.symm.trans hd')
    refine (follows_block line h).bind ?_
    rintro ⟨taken, stop⟩ ⟨_, _⟩ ⟨rfl, hstop, rfl⟩
    exact hmore taken stop hstop

/-- After a block of one kind, one of the other kind is read. -/
theorem follows_blocks_other {read : AttributeBlocks} {d : Delimiter} {i : List Char}
    (hread : read.interior? d = some i) (hnone : read.interior? d.other = none) {pos : Nat}
    (hpos : pos ≤ text.length) :
    Follows line (AtRest text) (blocks text line read pos)
      ((attributeBlock d.other (text.drop pos)).map fun q ↦ (.ofFirst (some i) q.1 d, q.2)) := by
  by_cases h : text[pos]? = some d.other.opening
  · rw [drop_of_getElem? h, map_attributeBlock_opening]
    refine follows_blocks h hnone fun taken stop hstop ↦ ?_
    have hblocks := AttributeBlocks.put_other_eq hread taken
    refine .gives (gives_blocks fun e he ↦ ?_) ⟨hblocks, hstop, rfl⟩
    rcases d.eq_or_eq_other e with rfl | rfl
    · rw [hblocks, AttributeBlocks.interior?_ofFirst] at he
      exact absurd he (by simp)
    · rw [AttributeBlocks.interior?_put] at he
      exact absurd he (by simp)
  · have hhead : (text.drop pos).head? ≠ some d.other.opening := by rwa [List.head?_drop]
    rw [attributeBlock_of_head_ne hhead]
    refine .gives (gives_blocks fun e he ↦ ?_) ⟨?_, hpos, rfl⟩
    · rcases d.eq_or_eq_other e with rfl | rfl
      · exact absurd (hread.symm.trans he) (by simp)
      · exact h
    · show read = .ofFirst (some i) none d
      rw [← hread, ← hnone, AttributeBlocks.ofFirst_interior?]

/-- **The attribute blocks are read as the reading reads them.** -/
theorem follows_attributeBlocks (line : Nat) {pos : Nat} (hpos : pos ≤ text.length) :
    Follows line (AtRest text) (blocks text line ⟨none, none⟩ pos)
      (attributeBlocks (text.drop pos)) := by
  have hnone : ∀ d, AttributeBlocks.interior? ⟨none, none⟩ d = none := by rintro (- | -) <;> rfl
  by_cases h : ∃ d : Delimiter, text[pos]? = some d.opening
  · obtain ⟨d, h⟩ := h
    have hhead : (text.drop pos).head? = some d.opening := by rw [List.head?_drop, h]
    rw [attributeBlocks_of_head hhead, drop_of_getElem? h, bind_attributeBlock_opening]
    refine follows_blocks h (hnone d) fun taken stop hstop ↦ ?_
    refine follows_blocks_other (AttributeBlocks.interior?_put _ d taken) ?_ hstop
    rw [AttributeBlocks.interior?_other_put, hnone]
  · have hhead : ∀ d : Delimiter, (text.drop pos).head? ≠ some d.opening := fun d hd ↦
      h ⟨d, by rwa [List.head?_drop] at hd⟩
    rw [attributeBlocks_of_head_ne hhead]
    exact .gives (gives_blocks fun d _ hd ↦ h ⟨d, hd⟩) ⟨rfl, hpos, rfl⟩

/-- The scanner begins behind the marker. -/
theorem gives_marker (text : List Char) :
    ∃ start ≤ text.length, text.drop start = dropElementMarker text ∧
      (marker text).Gives start := by
  rw [marker]
  split
  · next h =>
    have hlt : 0 < text.length := (List.getElem?_eq_some_iff.1 h).1
    obtain ⟨rest, rfl⟩ := List.head?_eq_some_iff.1 (List.head?_eq_getElem?.trans h)
    rw [next_of_getElem? h]
    exact ⟨1, hlt, rfl, (gives_moveTo hlt).bind (gives_pure _)⟩
  · next h =>
    refine ⟨0, Nat.zero_le _, ?_, gives_pure _⟩
    rw [dropElementMarker.eq_def]
    split
    · exact absurd rfl h
    · rfl

/-- **The scanner ends as the reading of the line.** -/
theorem follows_element (text : List Char) (line : Nat) :
    Follows line Eq (element text line) (ofElement text) := by
  obtain ⟨start, hstart, hmarker, hstartGives⟩ := gives_marker text
  obtain ⟨pos, hpos, hrest, htag⟩ := gives_takeWhile isTagChar hstart
  refine .bind_left (gives_moveTo (Nat.zero_le _)) (.bind_left hstartGives (.bind_left htag ?_))
  simp only [hmarker] at hrest ⊢
  rw [ofElement]
  by_cases hempty : ((dropElementMarker text).takeWhile isTagChar).isEmpty = true
  · simp only [hempty, if_true]
    exact .fails rfl
  · simp only [hempty]
    obtain ⟨stop, hstop, hafter, hnames⟩ := gives_shorthands hpos
    rw [hrest] at hafter hnames
    refine .bind_left hnames ?_
    have hblocks := follows_attributeBlocks line hstop
    rw [hafter] at hblocks
    refine hblocks.bind ?_
    rintro ⟨blocks, stop⟩ ⟨_, _⟩ ⟨rfl, hstop, rfl⟩
    refine .bind_left (gives_piece hstop le_rfl) ?_
    rw [List.take_length]
    refine (follows_ofReading line _).bind ?_
    rintro inline _ rfl
    exact .gives (gives_pure _) rfl

end Scan

end HamlTree
