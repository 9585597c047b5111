import HamlTree.Proofs.Reading
import HamlTree.Proofs.ReportReading
import HamlTree.Proofs.Steps

/-!
# The report of a run

While lines are placed, a reader of the report and the draft have the same blocks open, each under
the same line (`OpenUnder`). A line either opens one block under the line before it or closes those
that are deeper; the end of the source closes all. Whenever a script is closed, the lines reported
so far end with its block and with the line that closes it, if there is one (`EndsBlock`), and the
keyword check before it is about the text of that line.

So the report of any run has the form that `Tells` describes, also when the run ends with a fault
(`Reads.tells_placeAll`), and the blocks opened in it are the places where the indentation grows
(`Draft.opened_placeAll`).
-/

namespace HamlTree

/-! ### Blocks under lines -/

/-- No open block is deeper than the innermost. -/
theorem Around.le_width {blocks : List OpenBlock} {width : Nat} {earlier : List LogicalLine}
    (h : Around blocks width earlier) : ∀ block ∈ blocks, block.width ≤ width := by
  induction h with
  | top => simp
  | block _ _ _ hdeeper _ _ ih =>
    exact List.forall_mem_cons.2
      ⟨Nat.le_refl _, fun x hx ↦ Nat.le_trans (ih x hx) (Nat.le_of_lt hdeeper)⟩

/-- Every open block is indented. -/
theorem Around.width_pos {blocks : List OpenBlock} {width : Nat} {earlier : List LogicalLine}
    (h : Around blocks width earlier) : ∀ block ∈ blocks, 0 < block.width := by
  induction h with
  | top => simp
  | block _ _ _ hdeeper _ _ ih =>
    exact List.forall_mem_cons.2 ⟨Nat.lt_of_le_of_lt (Nat.zero_le _) hdeeper, ih⟩

/-- A block is open, after these lines, under the line with the given number: that line stands
further left, and all lines after it belong to the block. -/
inductive OpenUnder : List LogicalLine → OpenBlock → Nat × Node.Kind → Prop
  /-- The lines before the owner of the block, its line, and the lines of the block. -/
  | intro {before inner : List LogicalLine} {o : LogicalLine} {n : Node} {block : OpenBlock}
      (hnode : o.toNode.result = .ok n) (hkind : n.kind = block.owner.kind)
      (hleft : o.indent < block.width) (hne : inner ≠ [])
      (hinner : ∀ x ∈ inner, block.width ≤ x.indent) :
      OpenUnder (before ++ o :: inner) block (before.length, block.owner.kind)

/-- The lines of a source reported so far end with the block under a script, and with the line that
closes the block, if there is one. The text is that of this line, and empty at the end of the
source; the flag says whether it carries the construct on. -/
inductive EndsBlock (lines : List LogicalLine) :
    (reported : List LogicalLine) → Nat → ScriptMode → String → Bool → Prop
  /-- The lines before the script, its line, the lines of the block, and the lines after it. -/
  | intro {before inner after : List LogicalLine} {o : LogicalLine} {n : Node} {mode : ScriptMode}
      {width : Nat} (hlines : lines = before ++ o :: (inner ++ after))
      (hnode : o.toNode.result = .ok n) (hkind : n.kind = .script mode) (hleft : o.indent < width)
      (hne : inner ≠ []) (hinner : ∀ x ∈ inner, width ≤ x.indent)
      (hafter : ∀ x ∈ after.head?, x.indent < width) :
      EndsBlock lines (before ++ o :: inner ++ after.take 1) before.length mode
        (closingText "" after) (continuesBlock (closingText "" after))

namespace OpenUnder

variable {lines : List LogicalLine} {block : OpenBlock} {p : Nat × Node.Kind}

/-- The kind that is named is that of the owner. -/
theorem kind_eq (h : OpenUnder lines block p) : p.2 = block.owner.kind := by
  cases h
  rfl

/-- A line at the width of the block or further right belongs to it. -/
theorem append (h : OpenUnder lines block p) {l : LogicalLine} (hl : block.width ≤ l.indent) :
    OpenUnder (lines ++ [l]) block p := by
  cases h with
  | @intro before inner o n _ hnode hkind hleft hne hinner =>
    rw [List.append_assoc, List.cons_append]
    refine .intro hnode hkind hleft (by simp) fun x hx ↦ ?_
    rcases List.mem_append.1 hx with hx | hx
    · exact hinner x hx
    · rwa [List.mem_singleton.1 hx]

/-- A line belongs to all open blocks when it belongs to each. -/
theorem forall₂_append {l : LogicalLine} {blocks : List OpenBlock} {opened : List (Nat × Node.Kind)}
    (hle : ∀ block ∈ blocks, block.width ≤ l.indent)
    (h : List.Forall₂ (OpenUnder lines) blocks opened) :
    List.Forall₂ (OpenUnder (lines ++ [l])) blocks opened :=
  ((List.forall₂_and_left _ _).2 ⟨hle, h⟩).imp fun _ _ h ↦ h.2.append h.1

/-- A line further left closes the block. -/
theorem endsBlock {i : Nat} {mode : ScriptMode} (h : OpenUnder lines block (i, .script mode))
    {after : List LogicalLine} (hafter : ∀ x ∈ after.head?, x.indent < block.width) :
    EndsBlock (lines ++ after) (lines ++ after.take 1) i mode (closingText "" after)
      (continuesBlock (closingText "" after)) := by
  generalize hp : (i, Node.Kind.script mode) = p at h
  cases h with
  | @intro before inner o n _ hnode hkind hleft hne hinner =>
    obtain ⟨rfl, hmode⟩ := Prod.mk.inj hp
    exact .intro (by simp) hnode (hkind.trans hmode.symm) hleft hne hinner hafter

/-- The closing of a block is told, for a script after its keyword check. -/
theorem tells (h : OpenUnder lines block p) (opened : List (Nat × Node.Kind)) (width : Nat)
    {after : List LogicalLine} (hafter : ∀ x ∈ after.head?, x.indent < block.width) :
    Tells (EndsBlock (lines ++ after)) ⟨lines ++ after.take 1, p :: opened⟩
      (block.closingEvents width (closingText "" after)) ⟨lines ++ after.take 1, opened⟩ := by
  obtain ⟨i, kind⟩ := p
  obtain rfl : kind = block.owner.kind := h.kind_eq
  obtain ⟨_, _ | _, _⟩ := block
  · exact .element (.nil _)
  · exact .script (h.endsBlock hafter) (.nil _)

end OpenUnder

/-! ### Closing blocks -/

namespace Draft

/-- A draft that is not deeper than a width reports no closing. -/
theorem closingEvents_of_le {d : Draft} {width : Nat} (text : String) (h : d.width ≤ width) :
    d.closingEvents width text = [] := by
  rcases d with ⟨- | ⟨block, blocks⟩, collected, opened⟩
  · rfl
  · have hblock : ¬ width < block.width := Nat.not_lt.2 h
    simp [closingEvents, deeper, hblock]

/-- Otherwise it reports that of its innermost block first. -/
theorem closingEvents_of_lt {block : OpenBlock} {blocks : List OpenBlock} {collected : List Node}
    {opened width : Nat} (text : String) (h : width < block.width) (collected' : List Node) :
    closingEvents ⟨block :: blocks, collected, opened⟩ width text =
      block.closingEvents width text ++ closingEvents ⟨blocks, collected', opened⟩ width text := by
  simp [closingEvents, deeper, h]

/-- **The closing of all blocks deeper than a width is told**, whether a line causes it or the end
of the source. -/
theorem tells_closing (d : Draft) {lines : List LogicalLine} {opened : List (Nat × Node.Kind)}
    (after : List LogicalLine) (width : Nat)
    (h : List.Forall₂ (OpenUnder lines) d.blocks opened)
    (hafter : ∀ x ∈ after.head?, x.indent ≤ width) :
    ∃ opened', Tells (EndsBlock (lines ++ after)) ⟨lines ++ after.take 1, opened⟩
        (d.closingEvents width (closingText "" after)) ⟨lines ++ after.take 1, opened'⟩ ∧
      List.Forall₂ (OpenUnder lines) (d.closeDeeper width (closingText "" after)).blocks
        opened' := by
  obtain ⟨blocks, collected, number⟩ := d
  -- a closed block changes the collected nodes, which are reported nowhere
  induction blocks generalizing collected opened with
  | nil => exact ⟨opened, .nil _, h⟩
  | cons block blocks ih =>
    by_cases hdeeper : width < block.width
    · cases h with
      | cons hblock hblocks =>
        obtain ⟨opened', htells, hclosed⟩ := ih
          (block.close (continuesBlock (closingText "" after)) collected) hblocks
        refine ⟨opened', ?_, ?_⟩
        · rw [closingEvents_of_lt _ hdeeper]
          refine (hblock.tells _ width fun x hx ↦ ?_).append htells
          exact Nat.lt_of_le_of_lt (hafter x hx) hdeeper
        · rwa [closeDeeper_of_lt _ hdeeper]
    · have hle : Draft.width ⟨block :: blocks, collected, number⟩ ≤ width :=
        Nat.le_of_not_lt hdeeper
      rw [closingEvents_of_le _ hle, closeDeeper_of_le _ hle]
      exact ⟨opened, .nil _, h⟩

end Draft

/-! ### Placing lines -/

namespace Reads

variable {lines : List LogicalLine} {d : Draft}

/-- All open blocks are indented. -/
theorem width_pos (h : Reads lines d) : ∀ block ∈ d.blocks, 0 < block.width := by
  cases h with
  | nil => simp
  | add h _ => exact h.around.width_pos

/-- After a move the line belongs to all blocks that are open. -/
theorem le_indent_moveTo (h : Reads lines d) {l : LogicalLine}
    (hnone : (d.moveTo l).fault? = none) :
    ∀ block ∈ (d.moveTo l).draft.blocks, block.width ≤ l.indent := by
  rcases h.moveTo l with ⟨-, -, earlier, level, -, hstands⟩ | ⟨f, hfault, -⟩
  · exact hstands.around.le_width
  · exact absurd (hnone.symm.trans hfault) (by simp)

/-- A new block is open under the line before its first. -/
theorem openUnder (h : Reads lines d) {l : LogicalLine} (hdeeper : d.width < l.indent) {node : Node}
    {before children : List Node} {owner : Owner} (hcollected : d.collected = node :: before)
    (hreopen : node.reopen? = some (owner, children)) :
    OpenUnder (lines ++ [l]) ⟨l.indent, owner, before⟩ ((lines ++ [l]).length - 2, owner.kind) := by
  cases h with
  | nil => exact absurd hcollected (by simp)
  | @add earlier level last n d hstands hnode =>
    obtain ⟨rfl, rfl⟩ := List.cons.inj hcollected
    obtain ⟨flag, rfl⟩ := Node.eq_close_of_reopen? hreopen
    have hnumber : (earlier ++ level ++ [last] ++ [l]).length - 2 = (earlier ++ level).length := by
      rw [List.length_append, List.length_append]
      rfl
    have hleft : last.indent < l.indent := hstands.width_eq ▸ hdeeper
    rw [hnumber, List.append_assoc]
    exact .intro hnode (Owner.kind_close ..) hleft (List.cons_ne_nil l []) (by simp)

/-- **A move is told**, and where it succeeds the blocks that are open are those of the draft. -/
theorem tells_moveTo (h : Reads lines d) (l : LogicalLine) (more : List LogicalLine)
    {opened : List (Nat × Node.Kind)} (hopened : List.Forall₂ (OpenUnder lines) d.blocks opened) :
    ∃ opened', Tells (EndsBlock (lines ++ l :: more)) ⟨lines ++ [l], opened⟩ (d.moveTo l).events
        ⟨lines ++ [l], opened'⟩ ∧
      ((d.moveTo l).fault? = none →
        List.Forall₂ (OpenUnder (lines ++ [l])) (d.moveTo l).draft.blocks opened') := by
  have hle := h.le_indent_moveTo (l := l)
  rcases d.moveTo_cases l with ⟨hdeeper, hcase⟩ | ⟨-, hmove⟩
  · rcases hcase with ⟨-, hmove⟩ | ⟨_, _, -, -, hmove⟩ |
      ⟨node, before, owner, children, hcollected, hreopen, hmove⟩
    · rw [hmove]
      exact ⟨opened, .nil _, by simp⟩
    · rw [hmove]
      exact ⟨opened, .nil _, by simp⟩
    · -- the new block is under the last line, and the line belongs to those around it as well
      rw [hmove] at hle ⊢
      have hblocks := OpenUnder.forall₂_append (List.forall_mem_cons.1 (hle rfl)).2 hopened
      exact ⟨_, .indent (.nil _), fun _ ↦ .cons (h.openUnder hdeeper hcollected hreopen) hblocks⟩
  · rw [hmove] at hle ⊢
    obtain ⟨opened', htells, hclosed⟩ := d.tells_closing (l :: more) l.indent hopened (by simp)
    exact ⟨opened', htells, fun hnone ↦ OpenUnder.forall₂_append (hle hnone) hclosed⟩

end Reads

/-- What is reported about a node says nothing of lines and blocks. -/
theorem LogicalLine.isAside_of_mem_events {l : LogicalLine} {e : Event} (h : e ∈ l.toNode.events) :
    e.isAside = true ∧ e.level = .trace := by
  rw [toNode] at h
  split at h
  · next n _ =>
    cases n with
    | element =>
      obtain rfl := List.mem_singleton.1 h
      exact ⟨rfl, rfl⟩
    | script | leaf => simp [Node.events] at h
  · simp at h

namespace Draft

/-! ### The report of a line -/

/-- The report of a line names it and tells the move; where that succeeds, the node comes last. -/
theorem events_place (d : Draft) (l : LogicalLine) :
    (d.place l).events = .line l :: ((d.moveTo l).events ++
      if (d.moveTo l).fault? = none then l.toNode.events else []) := by
  have hreport : (d.place l).events = .line l :: (d.seek l >>= fun d ↦ l.toNode >>= fun n ↦
      pure (d.add n)).events := Traced.events_bind_ok _ (Traced.result_report _)
  rw [hreport, List.cons.injEq]
  refine ⟨rfl, ?_⟩
  rw [seek]
  rcases hfault : (d.moveTo l).fault? with - | fault
  · rw [Traced.events_bind_ok _ rfl, if_pos rfl]
    rcases hnode : l.toNode.result with e | n
    · rw [Traced.events_bind_error _ hnode]
    · rw [Traced.events_bind_ok _ hnode, Traced.events_pure, List.append_nil]
  · rw [Traced.events_bind_error _ rfl, if_neg (Option.some_ne_none fault), List.append_nil]

/-- What is reported last about a line says nothing of lines and blocks. -/
theorem isAside_of_mem_place {d : Draft} {l : LogicalLine} {e : Event}
    (h : e ∈ if (d.moveTo l).fault? = none then l.toNode.events else []) :
    e.isAside = true ∧ e.level = .trace := by
  split at h
  · exact LogicalLine.isAside_of_mem_events h
  · simp at h

/-- After a fault nothing more is reported. -/
theorem events_placeAll_cons (d : Draft) (l : LogicalLine) (lines : List LogicalLine) :
    (d.placeAll (l :: lines)).events = (d.place l).events ++
      match (d.place l).result with
      | .ok d => (d.placeAll lines).events
      | .error _ => [] := by
  rw [placeAll]
  rcases h : (d.place l).result with e | d'
  · rw [Traced.events_bind_error _ h, List.append_nil]
  · rw [Traced.events_bind_ok _ h]

/-- A line that was placed has moved without a fault. -/
theorem place_eq_ok {d d' : Draft} {l : LogicalLine} (h : (d.place l).result = .ok d') :
    (d.moveTo l).fault? = none ∧ ∃ n, l.toNode.result = .ok n ∧ d' = (d.moveTo l).draft.add n := by
  rw [result_place] at h
  rcases hfault : (d.moveTo l).fault? with - | fault
  · rw [hfault] at h
    rcases hnode : l.toNode.result with e | n
    · simp [hnode, Except.map] at h
    · rw [hnode] at h
      exact ⟨rfl, n, rfl, (Except.ok.inj h).symm⟩
  · rw [hfault] at h
    simp at h

/-! ### Opened blocks -/

/-- How often a width in a list is greater than the one before it; the first is compared with a
width before the list. -/
def rises (previous : Nat) (widths : List Nat) : Nat :=
  ((previous :: widths).zip widths).countP fun p ↦ decide (p.1 < p.2)

theorem rises_cons (previous width : Nat) (widths : List Nat) :
    rises previous (width :: widths) =
      (if previous < width then 1 else 0) + rises width widths := by
  rw [rises, List.zip_cons_cons, List.countP_cons, rises, Nat.add_comm]
  simp

/-- A closing is a detail, and opens nothing. -/
theorem of_mem_closingEvents {d : Draft} {width : Nat} {text : String} {e : Event}
    (h : e ∈ d.closingEvents width text) : e.isIndent = false ∧ e.level = .trace := by
  obtain ⟨⟨_, _ | _, _⟩, -, h⟩ := List.mem_flatMap.1 h
  · obtain rfl := List.mem_singleton.1 h
    exact ⟨rfl, rfl⟩
  · rcases List.mem_cons.1 h with rfl | h
    · exact ⟨rfl, rfl⟩
    · obtain rfl := List.mem_singleton.1 h
      exact ⟨rfl, rfl⟩

/-- A move is a detail. -/
theorem level_of_mem_moveTo {d : Draft} {l : LogicalLine} {e : Event}
    (h : e ∈ (d.moveTo l).events) : e.level = .trace := by
  rcases d.moveTo_cases l with ⟨-, hcase⟩ | ⟨-, hmove⟩
  · rcases hcase with ⟨-, hmove⟩ | ⟨_, _, -, -, hmove⟩ | ⟨_, _, _, _, -, -, hmove⟩
    · simp [hmove] at h
    · simp [hmove] at h
    · rw [hmove] at h
      obtain rfl := List.mem_singleton.1 h
      rfl
  · rw [hmove] at h
    exact (of_mem_closingEvents h).2

/-- A move reports one opened block if it leads deeper, and otherwise none. -/
theorem countP_moveTo {d : Draft} {l : LogicalLine} (h : (d.moveTo l).fault? = none) :
    (d.moveTo l).events.countP Event.isIndent = (if d.width < l.indent then 1 else 0) ∧
      (d.moveTo l).draft.opened = d.opened + if d.width < l.indent then 1 else 0 := by
  rcases d.moveTo_cases l with ⟨hdeeper, hcase⟩ | ⟨hback, hmove⟩
  · rcases hcase with ⟨-, hmove⟩ | ⟨_, _, -, -, hmove⟩ | ⟨_, _, _, _, -, -, hmove⟩
    · simp [hmove] at h
    · simp [hmove] at h
    · rw [hmove, if_pos hdeeper]
      exact ⟨rfl, rfl⟩
  · rw [hmove, if_neg (Nat.not_lt.2 hback)]
    exact ⟨List.countP_eq_zero.2 fun e he ↦ by simp [(of_mem_closingEvents he).1], rfl⟩

end Draft

/-! ### The report of a run -/

namespace Reads

variable {lines : List LogicalLine} {d : Draft}

/-- A line is told. -/
theorem tells_place (h : Reads lines d) (l : LogicalLine) (more : List LogicalLine)
    {opened : List (Nat × Node.Kind)} (hopened : List.Forall₂ (OpenUnder lines) d.blocks opened) :
    ∃ opened', Tells (EndsBlock (lines ++ l :: more)) ⟨lines, opened⟩ (d.place l).events
        ⟨lines ++ [l], opened'⟩ ∧
      ∀ d', (d.place l).result = .ok d' →
        List.Forall₂ (OpenUnder (lines ++ [l])) d'.blocks opened' := by
  obtain ⟨opened', hmove, hblocks⟩ := h.tells_moveTo l more hopened
  refine ⟨opened', ?_, fun d' hd' ↦ ?_⟩
  · rw [Draft.events_place]
    exact .line (hmove.append (.of_isAside _ fun e he ↦ (Draft.isAside_of_mem_place he).1))
  · obtain ⟨hnone, n, -, rfl⟩ := Draft.place_eq_ok hd'
    exact hblocks hnone

/-- **A run is told**, and when it succeeds the blocks that are open are those of the draft. -/
theorem tells_placeAll (h : Reads lines d) (more : List LogicalLine)
    {opened : List (Nat × Node.Kind)} (hopened : List.Forall₂ (OpenUnder lines) d.blocks opened) :
    ∃ r, Tells (EndsBlock (lines ++ more)) ⟨lines, opened⟩ (d.placeAll more).events r ∧
      ∀ d', (d.placeAll more).result = .ok d' →
        r.lines = lines ++ more ∧ List.Forall₂ (OpenUnder (lines ++ more)) d'.blocks r.blocks := by
  -- what the lines have in common is their source, so the condition on the checks stays the same
  induction more generalizing lines d opened with
  | nil =>
    refine ⟨⟨lines, opened⟩, .nil _, fun d' hd' ↦ ?_⟩
    obtain rfl := Except.ok.inj hd'
    exact ⟨(List.append_nil _).symm, by rwa [List.append_nil]⟩
  | cons l more ih =>
    obtain ⟨opened', hplace, hblocks⟩ := h.tells_place l more hopened
    rw [Draft.events_placeAll_cons, Draft.result_placeAll_cons]
    rcases h.place l with ⟨-, d', hd', hreads⟩ | ⟨e, he, -⟩
    · obtain ⟨r, hrun, hr⟩ := ih hreads (hblocks d' hd')
      rw [List.append_cons] at hplace ⊢
      rw [hd']
      exact ⟨r, hplace.append hrun, hr⟩
    · rw [he, List.append_nil]
      exact ⟨_, hplace, nofun⟩

end Reads

namespace Draft

/-- All that is reported about lines are details. -/
theorem level_of_mem_placeAll {d : Draft} {lines : List LogicalLine} {e : Event}
    (h : e ∈ (d.placeAll lines).events) : e.level = .trace := by
  induction lines generalizing d with
  | nil => simp [placeAll] at h
  | cons l lines ih =>
    rw [events_placeAll_cons, events_place] at h
    rcases List.mem_append.1 h with h | h
    · rcases List.mem_cons.1 h with rfl | h
      · rfl
      · rcases List.mem_append.1 h with h | h
        · exact level_of_mem_moveTo h
        · exact (isAside_of_mem_place h).2
    · split at h
      · exact ih h
      · simp at h

/-- A line that is placed opens a block if it stands further right than the draft, and then reports
it. -/
theorem opened_place {d d' : Draft} {l : LogicalLine} (h : (d.place l).result = .ok d') :
    d'.width = l.indent ∧
      (d.place l).events.countP Event.isIndent = (if d.width < l.indent then 1 else 0) ∧
      d'.opened = d.opened + if d.width < l.indent then 1 else 0 := by
  obtain ⟨hnone, n, -, rfl⟩ := place_eq_ok h
  obtain ⟨hcount, hopened⟩ := countP_moveTo hnone
  refine ⟨width_moveTo hnone, ?_, hopened⟩
  have hline : ¬ Event.isIndent (.line l) := Bool.false_ne_true
  have hasides : (if (d.moveTo l).fault? = none then l.toNode.events else []).countP
      Event.isIndent = 0 := List.countP_eq_zero.2 fun e he ↦ by
    simp [Event.isIndent_of_isAside (isAside_of_mem_place he).1]
  rw [events_place, List.countP_cons_of_neg hline, List.countP_append, hcount, hasides,
    Nat.add_zero]

/-- **The blocks opened in a run are reported**, and they are the places where the indentation
grows. -/
theorem opened_placeAll {d d' : Draft} {lines : List LogicalLine}
    (h : (d.placeAll lines).result = .ok d') :
    d'.opened = d.opened + rises d.width (lines.map (·.indent)) ∧
      (d.placeAll lines).events.countP Event.isIndent =
        rises d.width (lines.map (·.indent)) := by
  induction lines generalizing d with
  | nil =>
    obtain rfl := Except.ok.inj h
    exact ⟨rfl, rfl⟩
  | cons l lines ih =>
    rw [result_placeAll_cons] at h
    rcases hplace : (d.place l).result with e | mid
    · simp [hplace, Except.bind] at h
    · rw [hplace] at h
      obtain ⟨hwidth, hcount, hopened⟩ := opened_place hplace
      obtain ⟨hrest, hreports⟩ := ih h
      rw [hwidth] at hrest hreports
      rw [List.map_cons, rises_cons, ← Nat.add_assoc, ← hopened, events_placeAll_cons,
        List.countP_append, hcount, hplace]
      exact ⟨hrest, congrArg _ hreports⟩

end Draft

end HamlTree
