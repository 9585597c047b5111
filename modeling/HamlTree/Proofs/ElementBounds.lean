import Mathlib.Data.List.Infix
import HamlTree.Proofs.Positions

/-!
# The bounds of the element scanner

The scanner of element lines follows the reading of the whole line, so it never breaks off, and all
its positions, pieces and counts are in bounds (`Scan.element_inBounds`).

What it reads of an attribute block can be told by counting alone. From where the block is opened,
it is the shortest beginning of the line that is not empty and has as many closing as opening
characters of its kind (`FirstEven`). There is no block exactly when every beginning that is not
empty has more opening than closing ones. One or the other is always so (`Scan.block_cases`).
-/

namespace HamlTree

open Text Node

/-! ### As many closing as opening characters -/

/-- The shortest beginning of a text that is not empty and in which the delimiters of a kind are
equal in number. -/
structure FirstEven (d : Delimiter) (s t : List Char) : Prop where
  /-- It is a beginning of the text, -/
  begins : t <+: s
  /-- it is not empty, -/
  ne_nil : t ≠ []
  /-- it closes as much as it opens, -/
  even : t.count d.opening = t.count d.closing
  /-- and no shorter one does. -/
  shortest : ∀ u, u <+: s → u ≠ [] → u.count d.opening = u.count d.closing → t.length ≤ u.length

/-- There is one such beginning only. -/
theorem FirstEven.unique {d : Delimiter} {s t u : List Char} (ht : FirstEven d s t)
    (hu : FirstEven d s u) : t = u := by
  have htu : t.length ≤ u.length := ht.shortest u hu.begins hu.ne_nil hu.even
  have hut : u.length ≤ t.length := hu.shortest t ht.begins ht.ne_nil ht.even
  exact (List.prefix_of_prefix_length_le ht.begins hu.begins htu).eq_of_length_le hut

/-- What follows an opening character nowhere closes more than it opens exactly when, with that
character, it always opens more than it closes. -/
theorem forall_prefix_opening_cons {d : Delimiter} {s : List Char} :
    (∀ t, t <+: d.opening :: s → t ≠ [] → t.count d.closing < t.count d.opening) ↔
      ∀ t, t <+: s → t.count d.closing ≤ t.count d.opening := by
  have hcons : ∀ t : List Char,
      (d.opening :: t).count d.closing < (d.opening :: t).count d.opening ↔
        t.count d.closing ≤ t.count d.opening := fun t ↦ by
    rw [List.count_cons_self, List.count_cons_of_ne (opening_ne_closing d), Nat.lt_succ_iff]
  rw [forall_prefix_cons, and_iff_right fun h ↦ absurd rfl h]
  exact forall₂_congr fun t _ ↦ (forall_prop_of_true (List.cons_ne_nil _ t)).trans (hcons t)

/-- **A block is the first even beginning** of a text that begins with it. -/
theorem firstEven_blockText {d : Delimiter} {i : List Char} (h : Paired d.opening d.closing i)
    (rest : List Char) :
    FirstEven d (blockText d (some i) ++ rest) (blockText d (some i)) where
  begins := List.prefix_append _ _
  ne_nil := List.cons_ne_nil _ _
  even := by
    have hne := opening_ne_closing d
    simp [blockText, hne, hne.symm, h.eq]
  shortest u hu hnil heven := by
    by_contra hshort
    have hinside : d.opening :: i <+: blockText d (some i) ++ rest :=
      ⟨d.closing :: rest, by simp [blockText]⟩
    have hle : u.length ≤ (d.opening :: i).length := by
      simp only [blockText, List.length_cons, List.length_append, List.length_nil] at hshort ⊢
      omega
    have hprefix : u <+: d.opening :: i := List.prefix_of_prefix_length_le hu hinside hle
    have hlt := forall_prefix_opening_cons.2 h.le u hprefix hnil
    exact absurd heven hlt.ne'

namespace Scan

variable {text : List Char} {line pos : Nat} {d : Delimiter}

/-! ### Blocks -/

/-- **An attribute block is scanned to the first even beginning**, and it is unmatched when there is
always more opened than closed. -/
theorem block_cases (line : Nat) (h : text[pos]? = some d.opening) :
    (∃ i, FirstEven d (text.drop pos) (blockText d (some i)) ∧
        (block text line d pos).Gives (i, pos + (blockText d (some i)).length)) ∨
      (∀ t, t <+: text.drop pos → t ≠ [] → t.count d.closing < t.count d.opening) ∧
        (block text line d pos).Fails ⟨.unmatched d, line⟩ := by
  have hlt : pos < text.length := (List.getElem?_eq_some_iff.1 h).1
  have hfollows := follows_block line h
  rw [blockRest] at hfollows
  rw [drop_of_getElem? h]
  rcases hread : balanced? d 0 [] (text.drop (pos + 1)) with - | ⟨i, rest⟩
  · rw [hread] at hfollows
    refine .inr ⟨forall_prefix_opening_cons.2 fun t ht ↦ ?_, hfollows.fails_of_error⟩
    simpa using balanced?_eq_none_iff.1 hread t ht
  · rw [hread] at hfollows
    obtain ⟨⟨j, stop⟩, hgives, hrests⟩ := hfollows.exists_gives
    obtain rfl : i = j := hrests.value_eq.symm
    have hstop : stop ≤ text.length := hrests.le_length
    have hrest : text.drop stop = rest := hrests.drop_eq
    obtain ⟨hcut, hbalanced⟩ := balanced?_eq_some hread
    have htext : d.opening :: text.drop (pos + 1) = blockText d (some i) ++ rest := by
      rw [hcut, blockText, List.cons_append, List.append_assoc, List.singleton_append]
    rw [htext]
    refine .inl ⟨i, firstEven_blockText (balanced_iff_paired.1 hbalanced) rest, ?_⟩
    -- what is left is as long as the text behind the block
    have hlength : text.length - pos = (blockText d (some i)).length + (text.length - stop) := by
      rw [← List.length_drop, drop_of_getElem? h, htext, List.length_append, ← hrest,
        List.length_drop]
    obtain rfl : stop = pos + (blockText d (some i)).length := by omega
    exact hgives

/-! ### The whole scanner -/

/-- **The scanner of element lines stays in bounds**, and it ends as the reading of the line. From
wherever an attribute block is opened, its scan of the block stays in bounds, ends with the interior
of the first even beginning, behind it, and fails with an unmatched delimiter exactly when every
beginning that is not empty opens more than it closes. -/
theorem element_inBounds (text : List Char) (line : Nat) :
    (∀ a ∈ (element text line).accesses, a.InBounds text.length) ∧
      (element text line).result? = some ((ofElement text).mapError (⟨·, line⟩)) ∧
      ∀ d pos, text[pos]? = some d.opening →
        (∀ a ∈ (block text line d pos).accesses, a.InBounds text.length) ∧
        (∀ t, FirstEven d (text.drop pos) t ↔ ∃ i, t = blockText d (some i) ∧
          (block text line d pos).result? = some (.ok (i, pos + t.length))) ∧
        ((block text line d pos).result? = some (.error ⟨.unmatched d, line⟩) ↔
          ∀ t, t <+: text.drop pos → t ≠ [] → t.count d.closing < t.count d.opening) := by
  have hresult := (follows_element text line).result?_eq
  refine ⟨inBounds_of_result? hresult, hresult, fun d pos hopened ↦ ?_⟩
  obtain ⟨i, hfirst, hgives⟩ | ⟨hopen, hfails⟩ := block_cases line hopened
  · refine ⟨inBounds_of_result? hgives, fun t ↦ ⟨fun ht ↦ ?_, ?_⟩, ?_⟩
    · obtain rfl := ht.unique hfirst
      exact ⟨i, rfl, hgives⟩
    · rintro ⟨j, rfl, hj⟩
      obtain ⟨rfl, -⟩ := Prod.mk.inj (hgives.unique hj)
      exact hfirst
    · refine iff_of_false (fun h ↦ ?_) fun h ↦ ?_
      · exact absurd (hgives.symm.trans h) (by simp)
      · exact absurd hfirst.even (h _ hfirst.begins hfirst.ne_nil).ne'
  · refine ⟨inBounds_of_result? hfails, fun t ↦ iff_of_false (fun ht ↦ ?_) ?_, ?_⟩
    · exact absurd ht.even (hopen t ht.begins ht.ne_nil).ne'
    · rintro ⟨i, -, h⟩
      exact absurd (hfails.symm.trans h) (by simp)
    · exact iff_of_true hfails hopen

/-- Adjacent blocks, the first of them empty, an opening delimiter of another kind in the second,
and a block behind it that is never closed. -/
theorem element_inBounds_adjacent :
    let text := "%p\x7b\x7d(a(\x7b))(".toList
    (block text 1 .paren 4).result? = some (.ok ("a(\x7b)".toList, 10)) ∧
      (block text 1 .paren 10).result? = some (.error ⟨.unmatched .paren, 1⟩) := by
  intro text
  obtain ⟨-, -, hblock⟩ := element_inBounds text 1
  constructor
  · have hfirst : FirstEven .paren (text.drop 4) "(a(\x7b))".toList :=
      { begins := by decide
        ne_nil := by decide
        even := by decide
        shortest := by
          simp only [← List.mem_inits]
          decide }
    obtain ⟨i, hi, hresult⟩ := ((hblock .paren 4 rfl).2.1 _).1 hfirst
    obtain rfl : "a(\x7b)".toList = i := List.append_cancel_right (List.tail_eq_of_cons_eq hi)
    exact hresult
  · refine (hblock .paren 10 rfl).2.2.2 ?_
    simp only [← List.mem_inits]
    decide

end Scan

end HamlTree
