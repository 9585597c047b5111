import HamlTree.Proofs.LinesAtFault

/-!
# Dedenting in steps

A line may return to an outer width at once, or other lines may have returned part of the way before
it. Some of the levels that it would have closed are closed already then, their nodes are flagged
and back in their places, and the lines before it may even have been at fault. Nothing of this can
be seen afterwards. Levels are closed one by one from the innermost on, and what becomes of a level
depends on the text of the line and not on its width, so closing levels down to a width and then
down to a smaller one is closing them down to the smaller one (`Stacks.closeDeeper?_trans`).

This holds of the width to which a line returns and of the end of the input, where all levels are
closed for a text that carries on nothing (`stacks_closeInSteps`).
-/

namespace HamlTree

namespace Stacks

variable {s s' between : Stacks} {v w : Nat} {text text' : String}

/-! ### Closing levels in steps -/

/-- What is closed depends on the text only in whether it carries on a construct. -/
theorem closeDeeper?_congr (h : continuesBlock text = continuesBlock text') :
    s.closeDeeper? w text = s.closeDeeper? w text' := by
  fun_induction closeDeeper? s w text with
  | case1 s hdeeper hnone =>
    rw [closeDeeper?, dif_pos hdeeper]
    split
    · rfl
    · next hsome => exact absurd (hnone.symm.trans (h ▸ hsome)) (by simp)
  | case2 s hdeeper closed hclose ih => rw [ih, closeDeeper?_of_lt hdeeper (h ▸ hclose)]
  | case3 s hle => exact (closeDeeper?_of_le text' (Nat.le_of_not_lt hle)).symm

/-- A line that is not too deep closes the levels deeper than itself, if there are any. -/
theorem moveTo?_of_le {l : LogicalLine} (h : l.indent ≤ s.width) :
    s.moveTo? l = (s.closeDeeper? l.indent l.text).map fun closed ↦
      (closed, if closed.width = l.indent then none else some (.inconsistentIndent l.indent)) := by
  rw [moveTo?, if_neg (Nat.not_lt.2 h)]
  by_cases hback : l.indent < s.width
  · rw [if_pos hback]
  · have heq : s.width = l.indent := Nat.le_antisymm (Nat.le_of_not_lt hback) h
    rw [if_neg hback, closeDeeper?_of_le l.text heq.le, Option.map_some, if_pos heq]

/-- Such a line leads where closing the deeper levels leads, at fault or not. -/
theorem closeDeeper?_of_moveTo? {l : LogicalLine} {fault? : Option Fault} (hle : l.indent ≤ s.width)
    (h : s.moveTo? l = some (s', fault?)) : s.closeDeeper? l.indent l.text = some s' := by
  rw [moveTo?_of_le hle] at h
  obtain ⟨closed, hclosed, hmove⟩ := Option.map_eq_some_iff.1 h
  rw [hclosed, (Prod.mk.inj hmove).1]

/-- A level that is not deeper than a width stays open when those that are deeper are closed. -/
theorem le_width_of_closeDeeper? (hsorted : s.widths.Pairwise (· > ·)) (hv : v ∈ s.widths)
    (hvw : v ≤ w) (h : s.closeDeeper? w text = some s') : v ≤ s'.width := by
  have hwidths := widths_of_closeDeeper? hsorted h
  refine le_width_of_mem (hwidths ▸ hsorted.filter _) v ?_
  rw [hwidths]
  exact List.mem_filter.2 ⟨hv, decide_eq_true hvw⟩

/-- **A line returns to an open width**, without a fault. -/
theorem moveTo?_of_mem (hsorted : s.widths.Pairwise (· > ·)) (hv : v ∈ s.widths)
    (h : s.closeDeeper? v text = some s') (line : Nat) :
    s.moveTo? ⟨text, v, line⟩ = some (s', none) := by
  have hwidth : s'.width = v := Nat.le_antisymm (width_le_of_closeDeeper? h)
    (le_width_of_closeDeeper? hsorted hv (Nat.le_refl v) h)
  rw [moveTo?_of_le (le_width_of_mem hsorted v hv), h, Option.map_some, if_pos hwidth]

/-- **A line in between makes no difference** for one with the same text that returns to an open
width. -/
theorem moveTo?_moveTo? {fault? : Option Fault} {line : Nat} (hsorted : s.widths.Pairwise (· > ·))
    (hv : v ∈ s.widths) (hvw : v ≤ w) (hw : w < s.width)
    (hbetween : s.moveTo? ⟨text, w, line⟩ = some (between, fault?)) (line' : Nat) :
    between.moveTo? ⟨text, v, line'⟩ = s.moveTo? ⟨text, v, line'⟩ := by
  have hclosed := closeDeeper?_of_moveTo? hw.le hbetween
  rw [moveTo?_of_le (le_width_of_closeDeeper? hsorted hv hvw hclosed),
    moveTo?_of_le (le_width_of_mem hsorted v hv), closeDeeper?_trans hvw hclosed]

/-! ### Closing all levels -/

/-- The template that is left when all levels are closed. -/
def finish? (s : Stacks) : Option Template := s.closeAll?.map fun closed ↦ ⟨closed.top⟩

/-- **Closing all levels a second time changes nothing.** -/
theorem closeAll?_closeAll? (h : s.closeAll? = some s') : s'.closeAll? = some s' :=
  closeDeeper?_of_le "" (width_le_of_closeDeeper? h)

/-- So it leaves the template that would have been left without it. -/
theorem finish?_of_closeAll? (h : s.closeAll? = some s') : s'.finish? = s.finish? := by
  rw [finish?, finish?, closeAll?_closeAll? h, h]

/-- **Closing some levels before all makes no difference**, if they are closed for a text that
carries on nothing. -/
theorem closeAll?_of_closeDeeper? (htext : continuesBlock text = false)
    (h : s.closeDeeper? w text = some s') : s'.closeAll? = s.closeAll? := by
  have hsame : ∀ s : Stacks, s.closeAll? = s.closeDeeper? 0 text := fun s ↦
    closeDeeper?_congr (continuesBlock_empty.trans htext.symm)
  rw [hsame, hsame, closeDeeper?_trans (Nat.zero_le w) h]

/-! ### The stacks and a draft -/

/-- A line leads the stacks and a draft, with the same fault or none. -/
structure Leads (s : Stacks) (d : Draft) (l : LogicalLine) (s' : Stacks) (d' : Draft)
    (fault? : Option Fault) : Prop where
  /-- Where it leads the stacks, -/
  ofStacks : s.moveTo? l = some (s', fault?)
  /-- where it leads the draft, -/
  ofDraft : (d.moveTo l).draft = d'
  /-- and its fault. -/
  fault : (d.moveTo l).fault? = fault?

namespace Agrees

variable {d : Draft}

/-- A line leads the stacks and a draft from one state to one state. -/
theorem leads (h : Agrees s d) (l : LogicalLine) :
    ∃ s', Leads s d l s' (d.moveTo l).draft (d.moveTo l).fault? ∧
      Agrees s' (d.moveTo l).draft := by
  obtain ⟨s', hs', hagrees⟩ := h.moveTo? l
  exact ⟨s', ⟨hs', rfl, rfl⟩, hagrees⟩

/-- Stacks that lead to the same state as others, and a draft with them. -/
theorem leads_of_moveTo? {d' : Draft} {l : LogicalLine} {fault? : Option Fault} (h : Agrees s d)
    (h' : Agrees s' d') (hmove : s.moveTo? l = some (s', fault?)) : Leads s d l s' d' fault? := by
  obtain ⟨s'', hs'', hagrees⟩ := h.moveTo? l
  obtain ⟨rfl, hfault⟩ := Prod.mk.inj (Option.some.inj (hmove.symm.trans hs''))
  exact ⟨hmove, hagrees.unique h', hfault.symm⟩

/-- **Both end with the same template.** -/
theorem finish? (h : Agrees s d) (hincreasing : d.Increasing) : s.finish? = some d.toTemplate := by
  obtain ⟨closed, hclosed, hagrees⟩ := h.closeDeeper? 0 ""
  have hnodes := hagrees.nodes
  rw [show (d.closeDeeper 0 "").blocks = [] from hincreasing.blocks_closeAll] at hnodes
  rw [Stacks.finish?, closeAll?, hclosed, Option.map_some, hnodes.top_eq]
  rfl

end Agrees

/-- It makes no difference to the stacks, nor to a draft in the same state, in how many steps levels
are closed. -/
structure ClosesInSteps (s : Stacks) (d : Draft) : Prop where
  /-- They are in the same state. -/
  agrees : Agrees s d
  /-- A line returns to an open width without a fault, and a line with the same text that stands in
  between may have come before it, at fault or not. -/
  moveTo : ∀ v ∈ d.widths, ∀ w, v ≤ w → w < d.width → ∀ text line line' line'',
    ∃ between dBetween fault? s' d', Leads s d ⟨text, w, line⟩ between dBetween fault? ∧
      Leads between dBetween ⟨text, v, line'⟩ s' d' none ∧
      Leads s d ⟨text, v, line''⟩ s' d' none
  /-- All levels may be closed a second time, also before the template is finished. -/
  closeAll : d.closeAll.closeAll = d.closeAll ∧ d.closeAll.toTemplate = d.toTemplate ∧
    ∃ s', s.closeAll? = some s' ∧ s'.closeAll? = some s' ∧
      s.finish? = some d.toTemplate ∧ s'.finish? = some d.toTemplate
  /-- A line that returns, at fault or not, may have come before all levels are closed, if its text
  carries on nothing. -/
  closeAll_moveTo : ∀ v < d.width, ∀ text line, continuesBlock text = false →
    ∃ s' d' fault?, Leads s d ⟨text, v, line⟩ s' d' fault? ∧
      s'.closeAll? = s.closeAll? ∧ d'.closeAll = d.closeAll

end Stacks

/-- **Levels may be closed in steps or at once.** In every reachable state a line returns to an open
width, and it leaves the same state when a line with its text has returned part of the way before
it, even if that line was at fault. Closing all levels leaves the same state when all of them are
closed already, and when some are, for a text that carries on nothing. -/
theorem stacks_closeInSteps (steps : List Draft.Step) :
    ∃ s, Stacks.after? {} steps = some s ∧ Stacks.ClosesInSteps s (Draft.after {} steps) := by
  have hincreasing := Draft.increasing_after steps
  obtain ⟨s, hs, hagrees⟩ := Stacks.Agrees.empty.after? steps
  generalize Draft.after {} steps = d at hincreasing hagrees ⊢
  have hsorted : s.widths.Pairwise (· > ·) := by
    rw [← List.pairwise_reverse, hagrees.widths]
    exact hincreasing
  obtain ⟨s₀, hs₀, hagrees₀⟩ := hagrees.closeDeeper? 0 ""
  refine ⟨s, hs, hagrees, ?_, ?_, ?_⟩
  · intro v hv w hvw hw text line line' line''
    have hopen : v ∈ s.widths := by rwa [← List.mem_reverse, hagrees.widths]
    obtain ⟨between, hbetween, hagrees'⟩ := hagrees.leads ⟨text, w, line⟩
    obtain ⟨s', hs', hclosed⟩ := hagrees.closeDeeper? v text
    have honce := Stacks.moveTo?_of_mem hsorted hopen hs'
    have hsteps := Stacks.moveTo?_moveTo? hsorted hopen hvw (hagrees.width_eq ▸ hw)
      hbetween.ofStacks line'
    exact ⟨between, _, _, s', _, hbetween,
      hagrees'.leads_of_moveTo? hclosed (hsteps.trans (honce line')),
      hagrees.leads_of_moveTo? hclosed (honce line'')⟩
  · have htwice := Stacks.closeAll?_closeAll? hs₀
    obtain ⟨s₁, hs₁, hagrees₁⟩ := hagrees₀.closeDeeper? 0 ""
    obtain rfl := Option.some.inj (hs₁.symm.trans htwice)
    have hidem : d.closeAll.closeAll = d.closeAll := hagrees₁.unique hagrees₀
    have hfinish := hagrees.finish? hincreasing
    refine ⟨hidem, ?_, s₁, hs₀, htwice, hfinish, ?_⟩
    · rw [Draft.toTemplate, hidem, Draft.toTemplate]
    · rw [Stacks.finish?_of_closeAll? hs₀, hfinish]
  · intro v hv text line htext
    obtain ⟨s', hlead, hagrees'⟩ := hagrees.leads ⟨text, v, line⟩
    have hv : v ≤ s.width := hagrees.width_eq ▸ hv.le
    have hsame := Stacks.closeAll?_of_closeDeeper? htext
      (Stacks.closeDeeper?_of_moveTo? hv hlead.ofStacks)
    obtain ⟨s₁, hs₁, hagrees₁⟩ := hagrees'.closeDeeper? 0 ""
    obtain rfl := Option.some.inj (hs₁.symm.trans (hsame.trans hs₀))
    exact ⟨s', _, _, hlead, hsame, hagrees₁.unique hagrees₀⟩

/-- A line that carries on a construct returns to the top after another one that stands between two
widths and is at fault: both constructs are carried on, as by the second line alone. -/
theorem stacks_closeInSteps_else :
    ∃ s between s' dBetween, Stacks.after? {} [.add (.script .silent "if a" false []),
        .moveTo ⟨"- if b", 4, 2⟩, .add (.script .silent "if b" false []),
        .moveTo ⟨"c", 8, 3⟩, .add (.leaf .plainText "c")] = some s ∧
      Stacks.Leads s
        ⟨[⟨8, .script .silent "if b", []⟩, ⟨4, .script .silent "if a", []⟩],
          [.leaf .plainText "c"], 2⟩ ⟨"- else", 2, 4⟩ between dBetween
        (some (.inconsistentIndent 2)) ∧
      Stacks.Leads between dBetween ⟨"- else", 0, 5⟩ s'
        ⟨[], [.script .silent "if a" true
          [.script .silent "if b" true [.leaf .plainText "c"]]], 2⟩ none ∧
      Stacks.Leads s
        ⟨[⟨8, .script .silent "if b", []⟩, ⟨4, .script .silent "if a", []⟩],
          [.leaf .plainText "c"], 2⟩ ⟨"- else", 0, 5⟩ s'
        ⟨[], [.script .silent "if a" true
          [.script .silent "if b" true [.leaf .plainText "c"]]], 2⟩ none := by
  obtain ⟨s, hs, hcloses⟩ := stacks_closeInSteps [.add (.script .silent "if a" false []),
    .moveTo ⟨"- if b", 4, 2⟩, .add (.script .silent "if b" false []),
    .moveTo ⟨"c", 8, 3⟩, .add (.leaf .plainText "c")]
  obtain ⟨between, dBetween, fault?, s', d', hbetween, hsteps, honce⟩ :=
    hcloses.moveTo 0 (by decide) 2 (by decide) (by decide +kernel) "- else" 4 5 5
  have hfault : fault? = some (.inconsistentIndent 2) :=
    hbetween.fault.symm.trans (by decide +kernel)
  have hdraft : d' = ⟨[], [.script .silent "if a" true
      [.script .silent "if b" true [.leaf .plainText "c"]]], 2⟩ :=
    honce.ofDraft.symm.trans (by decide +kernel)
  subst hfault hdraft
  exact ⟨s, between, s', dBetween, hs, hbetween, hsteps, honce⟩

end HamlTree
