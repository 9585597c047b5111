import HamlTree.Proofs.Reading

/-!
# Which sources are accepted, and what is wrong with the others

A source is accepted exactly when each of its lines fits after those before it, and exactly when its
lines nest; the two descriptions agree (`Nests.allFit`), and nesting leaves no choice
(`Nests.unique`). So `parse_eq_ok_iff` says which template a source has without mentioning a draft.

A source that is not accepted has a first line that does not fit, and the parse ends with the error
of this line. `parse_first_fault` spells out which of the faults it is.
-/

namespace HamlTree

namespace Nests

variable {next : String} {width : Nat} {lines : List LogicalLine} {trees : List Node}

/-! ### Nesting lines fit -/

/-- **Lines that nest fit**, wherever a line at their width is well indented. -/
theorem allFit (h : Nests next width lines trees) {earlier : List LogicalLine}
    (hstart : ∀ l, l.indent = width → WellIndented earlier l) : AllFit earlier lines := by
  induction h generalizing earlier with
  | nil => trivial
  | @cons next width deeper l inner outer n children siblings hindent hnode hblock hinner houter
      ihinner ihouter =>
    refine ⟨⟨hstart l hindent, n, hnode⟩, (allFit_append _ _ _).2 ⟨?_, ihouter ?_⟩⟩
    · by_cases hne : inner = []
      · subst hne
        trivial
      · obtain ⟨hlt, hopen⟩ := hblock hne
        exact ihinner fun x hx ↦ .inl ⟨by omega, n, hnode, hopen⟩
    · -- a line at the width of the block looks back over the inner lines to `l`
      intro x hx
      have hskip : ∀ y ∈ inner.reverse, width < y.indent := by
        intro y hy
        have hy := List.mem_reverse.1 hy
        exact Nat.lt_of_lt_of_le (hblock (List.ne_nil_of_mem hy)).1 (hinner.le_indent y hy)
      have hlast : (inner.reverse ++ l :: earlier).find? (·.indent ≤ x.indent) = some l := by
        have hnone : inner.reverse.find? (·.indent ≤ x.indent) = none := by
          simpa [hx] using hskip
        rw [List.find?_append, hnone]
        simp [hindent, hx]
      rcases hreverse : inner.reverse with - | ⟨last, before⟩
      · rw [hreverse] at hlast
        exact .inr ⟨by omega, l, hlast, by omega⟩
      · rw [hreverse] at hlast hskip
        have hdeeper := hskip last List.mem_cons_self
        exact .inr ⟨by omega, l, hlast, by omega⟩

/-! ### Nesting leaves no choice -/

/-- The block under a line is the run of deeper lines after it. -/
theorem takeWhile_eq {deeper : Nat} {inner outer : List LogicalLine} {children siblings : List Node}
    {next' : String} (hlt : inner ≠ [] → width < deeper)
    (hinner : Nests next' deeper inner children) (houter : Nests next width outer siblings) :
    (inner ++ outer).takeWhile (fun l ↦ decide (width < l.indent)) = inner := by
  have hall : ∀ l ∈ inner, decide (width < l.indent) = true := by
    intro l hl
    have hdeeper := hinner.le_indent l hl
    have hwidth := hlt (List.ne_nil_of_mem hl)
    exact decide_eq_true (by omega)
  rw [List.takeWhile_append_of_pos hall]
  cases houter with
  | nil => simp
  | cons hindent => simp [hindent]

/-- **Lines nest in one way only.** -/
theorem unique (h : Nests next width lines trees) :
    ∀ {width' : Nat} {trees' : List Node}, Nests next width' lines trees' → trees = trees' := by
  induction h with
  | nil =>
    intro width' trees' h'
    cases h'
    rfl
  | @cons next width deeper l inner outer n children siblings hindent hnode hblock hinner houter
      ihinner ihouter =>
    intro width' trees' h'
    generalize hlines : l :: (inner ++ outer) = lines at h'
    cases h' with
    | nil => exact absurd hlines (by simp)
    | @cons _ _ deeper' l' inner' outer' n' children' siblings' hindent' hnode' hblock' hinner'
        houter' =>
      obtain ⟨rfl, hrest⟩ := List.cons.inj hlines
      obtain rfl : width = width' := hindent.symm.trans hindent'
      -- both derivations cut the lines where the deeper ones end
      have hinner_eq : inner = inner' := by
        rw [← takeWhile_eq (fun h ↦ (hblock h).1) hinner houter, hrest,
          takeWhile_eq (fun h ↦ (hblock' h).1) hinner' houter']
      subst hinner_eq
      obtain rfl := List.append_cancel_left hrest
      obtain rfl := Except.ok.inj (hnode.symm.trans hnode')
      rw [ihinner hinner', ihouter houter']

end Nests

/-- **A source is accepted exactly when its lines nest**, and its template is what they nest
into. -/
theorem parse_eq_ok_iff {source : String} {t : Template} :
    parse source = .ok t ↔ Nests "" 0 (logicalLines source) t.nodes := by
  rcases parse_cases source with ⟨-, t', ht', hnests⟩ | ⟨before, l, after, e, hlines, -, herror, he⟩
  · constructor
    · intro ht
      obtain rfl := Except.ok.inj (ht'.symm.trans ht)
      exact hnests
    · intro h
      obtain ⟨nodes⟩ := t
      obtain ⟨nodes'⟩ := t'
      obtain rfl := h.unique hnests
      exact ht'
  · refine ⟨fun ht ↦ absurd (he.symm.trans ht) (by simp), fun h ↦ absurd ?_ herror.not_fits⟩
    have hall : AllFit [] (logicalLines source) := h.allFit fun l hl ↦ hl
    rw [hlines, allFit_append] at hall
    simpa using hall.2.1

/-- Two lines that do not fit, each after lines that all do, are the same line. -/
theorem AllFit.eq_of_append {before before' after after' : List LogicalLine} {l l' : LogicalLine}
    (h : AllFit [] before) (h' : AllFit [] before') (hl : ¬ Fits before.reverse l)
    (hl' : ¬ Fits before'.reverse l') (heq : before ++ l :: after = before' ++ l' :: after') :
    before = before' ∧ l = l' ∧ after = after' := by
  -- a longer run of fitting lines would go past a line that does not fit
  have hlonger : ∀ {xs ys : List LogicalLine} {x y : LogicalLine}, AllFit [] (xs ++ y :: ys) →
      ¬ Fits xs.reverse x → x ≠ y := by
    rintro xs ys x _ hall hx rfl
    rw [allFit_append, List.append_nil] at hall
    exact hx hall.2.1
  rcases List.append_eq_append_iff.1 heq with ⟨xs, rfl, hrest⟩ | ⟨xs, rfl, hrest⟩
  · rcases xs with - | ⟨x, xs⟩
    · obtain ⟨rfl, rfl⟩ := List.cons.inj hrest
      exact ⟨(List.append_nil _).symm, rfl, rfl⟩
    · exact absurd (List.cons.inj hrest).1 (hlonger h' hl)
  · rcases xs with - | ⟨x, xs⟩
    · obtain ⟨rfl, rfl⟩ := List.cons.inj hrest
      exact ⟨List.append_nil _, rfl, rfl⟩
    · exact absurd (List.cons.inj hrest).1 (hlonger h hl')

/-- **A source is refused exactly when some line does not fit**, and its error is that of the first
such line. -/
theorem parse_eq_error_iff {source : String} {e : ParseError} :
    parse source = .error e ↔ ∃ before l after, logicalLines source = before ++ l :: after ∧
      AllFit [] before ∧ LineError before.reverse l e := by
  rcases parse_cases source with ⟨hall, t, ht, -⟩ | ⟨before, l, after, e', hlines, hall, herror, he⟩
  · refine ⟨fun he ↦ absurd (ht.symm.trans he) (by simp), ?_⟩
    rintro ⟨before, l, after, hlines, -, herror⟩
    rw [hlines, allFit_append, List.append_nil] at hall
    exact absurd hall.2.1 herror.not_fits
  · constructor
    · intro h
      obtain rfl := Except.error.inj (he.symm.trans h)
      exact ⟨before, l, after, hlines, hall, herror⟩
    · rintro ⟨before', l', after', hlines', hall', herror'⟩
      obtain ⟨rfl, rfl, -⟩ := hall.eq_of_append hall' herror.not_fits herror'.not_fits
        (hlines.symm.trans hlines')
      rw [he, herror.unique herror']

end HamlTree
