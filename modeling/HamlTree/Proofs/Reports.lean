import HamlTree.Proofs.CarriedOn
import HamlTree.Proofs.ReportRuns

/-!
# Reports of whole parses

What a run has told is now read off the tree that comes out of it. A keyword check is made while its
script is still open, long before the tree is known; still it agrees with the finished node, about
the place where its block ends and about its flag (`EndsBlock.checksNode`).

The report of a parse that succeeds is a faithful account of the tree (`ReportsTree`), and the
report of a parse that fails breaks off: it closes nothing that it has not opened, and does not
announce an end (`trace_faithful`).
-/

namespace HamlTree

/-! ### The checks and the tree -/

/-- A keyword check that is made when these lines of a source have been reported is about the node
with the given number, a script of this mode. The last line reported is the first after the tree of
the node, or the last of all if the tree ends with the source. The check names the text of that
line, which is empty at the end of the source, and the flag is that of the node. -/
def ChecksNode (lines : List LogicalLine) (t : Template) (reported : List LogicalLine) (i : Nat)
    (mode : ScriptMode) (text : String) (mid : Bool) : Prop :=
  ∃ n, t.inOrder[i]? = some n ∧ n.kind = .script mode ∧
    reported = lines.take (i + n.weight + 1) ∧
    text = closingText "" (lines.drop (i + n.weight)) ∧ mid = n.midBlock

/-- The lines under a node begin at one width and do not go back to the left of it. -/
theorem Spans.exists_width {next : String} {lines : List LogicalLine} {i : Nat} {n : Node}
    (h : Spans next lines i n) :
    ∃ (before inner after : List LogicalLine) (l : LogicalLine),
      lines = before ++ l :: (inner ++ after) ∧ i = before.length ∧
      n.weight = inner.length + 1 ∧ (∀ x ∈ after.head?, x.indent ≤ l.indent) ∧
      ∀ x ∈ inner, ∀ y ∈ inner.head?, y.indent ≤ x.indent := by
  cases h with
  | @intro before inner after l n children deeper hnode hblock hinner hafter =>
    have hchildren := hinner.children_enclose hnode (fun h ↦ (hblock h).2)
      (continuesBlock (closingText next after))
    refine ⟨before, inner, after, l, rfl, rfl, ?_, hafter, fun x hx y hy ↦ ?_⟩
    · rw [Node.weight_eq, hchildren, hinner.weights_eq]
    · rcases inner with - | ⟨z, inner⟩
      · simp at hx
      · obtain rfl := Option.some.inj hy
        rw [hinner.indent_head]
        exact hinner.le_indent x hx

/-- **The lines of a block that was closed are those of the finished tree.** -/
theorem Spans.weight_eq_of_block {next : String} {before inner after : List LogicalLine}
    {o : LogicalLine} {n : Node} {width : Nat}
    (h : Spans next (before ++ o :: (inner ++ after)) before.length n) (hleft : o.indent < width)
    (hne : inner ≠ []) (hinner : ∀ x ∈ inner, width ≤ x.indent)
    (hafter : ∀ x ∈ after.head?, x.indent < width) : n.weight = inner.length + 1 := by
  obtain ⟨before', inner', after', l, hlines, hlength, hweight, hnext, hwidth⟩ := h.exists_width
  obtain ⟨rfl, htail⟩ := List.append_inj hlines hlength
  obtain ⟨rfl, hrest⟩ := List.cons.inj htail
  rw [hweight]
  rcases List.append_eq_append_iff.1 hrest with ⟨xs, rfl, rfl⟩ | ⟨xs, rfl, rfl⟩
  · -- a line of the tree that is not in the block would stand left of it
    rcases xs with - | ⟨x, xs⟩
    · rw [List.append_nil]
    · obtain ⟨y, inner, rfl⟩ := List.exists_cons_of_ne_nil hne
      have hx := hafter x (by simp)
      have hy := hinner y List.mem_cons_self
      have hle := hwidth x (by simp) y (by simp)
      omega
  · -- a line of the block that is not in the tree would not stand right of the script
    rcases xs with - | ⟨x, xs⟩
    · rw [List.append_nil]
    · have hx := hinner x (by simp)
      have hle := hnext x (by simp)
      omega

/-- Each line has its node in the finished tree. -/
theorem Nests.exists_node {next : String} {width : Nat} {lines : List LogicalLine}
    {trees : List Node} (h : Nests next width lines trees) {i : Nat} {l : LogicalLine}
    (hl : lines[i]? = some l) :
    ∃ n, (documentOrder trees)[i]? = some n ∧ l.toNode.result = .ok n.bare := by
  obtain ⟨hlength, hnodes⟩ := List.forall₂_iff_get.1 h.forall₂_documentOrder
  obtain ⟨hi, rfl⟩ := List.getElem?_eq_some_iff.1 hl
  have hi' : i < (documentOrder trees).length := hlength ▸ hi
  exact ⟨_, List.getElem?_eq_getElem hi', hnodes i hi hi'⟩

/-- **A keyword check agrees with the finished tree.** -/
theorem EndsBlock.checksNode {lines reported : List LogicalLine} {t : Template} {i : Nat}
    {mode : ScriptMode} {text : String} {mid : Bool} (h : EndsBlock lines reported i mode text mid)
    (hnests : Nests "" 0 lines t.nodes) : ChecksNode lines t reported i mode text mid := by
  cases h with
  | @intro before inner after o m _ width hlines hnode hkind hleft hne hinner hafter =>
    subst hlines
    obtain ⟨n, hn, hbare⟩ := hnests.exists_node (i := before.length) (l := o) (by simp)
    obtain rfl := Except.ok.inj (hnode.symm.trans hbare)
    rw [Node.kind_bare] at hkind
    have hspans := hnests.spans hn
    have hweight := hspans.weight_eq_of_block hleft hne hinner hafter
    have hlines : before ++ o :: (inner ++ after) = before ++ o :: inner ++ after := by simp
    have hlength : before.length + n.weight = (before ++ o :: inner).length := by simp [hweight]
    have hdrop : (before ++ o :: (inner ++ after)).drop (before.length + n.weight) = after := by
      rw [hlines, hlength, List.drop_left]
    have hchildren : n.children ≠ [] := by
      intro hnil
      rw [Node.weight_eq, hnil, Node.weights] at hweight
      exact hne (List.eq_nil_of_length_eq_zero (by omega))
    refine ⟨n, hn, hkind, ?_, ?_, ?_⟩
    · rw [hlines, hlength, List.take_length_add_append]
    · rw [hdrop]
    · rw [Bool.eq_iff_iff, hspans.midBlock_iff, hdrop]
      exact ⟨fun h ↦ ⟨⟨_, hkind⟩, hchildren, h⟩, fun h ↦ h.2.2⟩

/-! ### The report of a parse -/

/-- What is reported before the first line. -/
theorem isAside_of_mem_groupEvents {groups : List Line.Group} {e : Event}
    (h : e ∈ Line.Group.events groups) : e.isAside = true ∧ e.level = .trace := by
  induction groups with
  | nil => simp [Line.Group.events] at h
  | cons group groups ih =>
    cases group with
    | single => exact ih h
    | joined =>
      rcases List.mem_cons.1 h with rfl | h
      · exact ⟨rfl, rfl⟩
      · exact ih h

/-- The report of a parse begins with the joined lines and with the number of lines, tells the run,
and if that succeeds, the closing of all blocks and the end. -/
theorem events_trace (source : String) :
    (trace source).events = Line.Group.events (lineGroups source) ++
      Event.started (logicalLines source).length ::
        ((Draft.placeAll {} (logicalLines source)).events ++
          match (Draft.placeAll {} (logicalLines source)).result with
          | .ok d => d.closingEvents 0 "" ++ [Event.finished d.toTemplate.size d.opened]
          | .error _ => []) := by
  rw [trace, Traced.events_bind_ok _ (Traced.result_report _), Traced.events_report,
    Traced.events_bind_ok _ (Traced.result_report _), Traced.events_report, Draft.ofLines,
    filter_logicalLines, List.singleton_append]
  rcases hrun : (Draft.placeAll {} (logicalLines source)).result with e | d
  · rw [Traced.events_bind_error _ hrun, List.append_nil]
  · rw [Traced.events_bind_ok _ hrun]
    rfl

/-- A parse that succeeds ends with a draft whose template it returns. -/
theorem parse_eq_ok_iff_placeAll {source : String} {t : Template} :
    parse source = .ok t ↔
      ∃ d, (Draft.placeAll {} (logicalLines source)).result = .ok d ∧ d.toTemplate = t := by
  rw [parse_eq]
  rcases (Draft.placeAll {} (logicalLines source)).result with e | d <;> simp [Except.map]

/-- At the end of the source all blocks are closed, and that is told. -/
theorem Reads.tells_closeAll {lines : List LogicalLine} {d : Draft} (h : Reads lines d)
    {opened : List (Nat × Node.Kind)} (hopened : List.Forall₂ (OpenUnder lines) d.blocks opened) :
    Tells (EndsBlock lines) ⟨lines, opened⟩ (d.closingEvents 0 "") ⟨lines, []⟩ := by
  obtain ⟨opened', htells, hclosed⟩ := d.tells_closing [] 0 hopened (by simp)
  have hblocks : (d.closeDeeper 0 "").blocks = [] :=
    List.dropWhile_eq_nil_iff.2 fun block hblock ↦ decide_eq_true (h.width_pos block hblock)
  rw [closingText_nil, hblocks, List.forall₂_nil_left_iff] at hclosed
  subst hclosed
  simpa using htells

/-- **The report of any parse can be read**, and after a parse that succeeds all lines have been
reported and no block is open. -/
theorem tells_trace (source : String) :
    ∃ r, Tells (EndsBlock (logicalLines source)) {} (trace source).events r ∧
      ∀ t, parse source = .ok t → r = ⟨logicalLines source, []⟩ := by
  obtain ⟨r, hrun, hr⟩ := Reads.nil.tells_placeAll (logicalLines source) .nil
  have hstart : Tells (EndsBlock (logicalLines source)) {}
      (Line.Group.events (lineGroups source)) {} :=
    .of_isAside _ fun _ he ↦ (isAside_of_mem_groupEvents he).1
  rw [events_trace]
  rcases Reads.nil.placeAll (logicalLines source) with
    ⟨-, d, hd, hreads⟩ | ⟨_, _, _, e, -, -, -, he⟩
  · obtain ⟨hlines, hopened⟩ := hr d hd
    obtain ⟨lines, opened⟩ := r
    obtain rfl : lines = logicalLines source := hlines
    have hend : Tells (EndsBlock (logicalLines source)) ⟨logicalLines source, []⟩
        [.finished d.toTemplate.size d.opened] ⟨logicalLines source, []⟩ := .aside rfl (.nil _)
    have hclosing := (hreads.tells_closeAll hopened).append hend
    rw [hd]
    exact ⟨_, hstart.append (.aside rfl (hrun.append hclosing)), fun _ _ ↦ rfl⟩
  · rw [he, List.append_nil]
    refine ⟨r, hstart.append (.aside rfl hrun), fun t ht ↦ ?_⟩
    obtain ⟨d, hd, -⟩ := parse_eq_ok_iff_placeAll.1 ht
    exact absurd (he.symm.trans hd) (by simp)

/-- The end of a parse is announced only when it succeeds. -/
theorem finished_notMem_trace {source : String} {e : ParseError} (h : parse source = .error e)
    (nodes blocks : Nat) : .finished nodes blocks ∉ (trace source).events := by
  intro hmem
  rw [parse_eq] at h
  rw [events_trace] at hmem
  rcases hrun : (Draft.placeAll {} (logicalLines source)).result with e' | d
  · rw [hrun, List.append_nil, List.mem_append, List.mem_cons] at hmem
    rcases hmem with hmem | hmem | hmem
    · exact absurd (isAside_of_mem_groupEvents hmem).2 nofun
    · exact absurd hmem (by simp)
    · exact absurd (Draft.level_of_mem_placeAll hmem) nofun
  · simp [hrun, Except.map] at h

/-- The blocks that are reported open are the places where the indentation grows. -/
theorem countP_isIndent_trace {source : String} {d : Draft}
    (hd : (Draft.placeAll {} (logicalLines source)).result = .ok d) :
    (trace source).events.countP Event.isIndent =
      Draft.rises 0 ((logicalLines source).map (·.indent)) := by
  have hgroups : (Line.Group.events (lineGroups source)).countP Event.isIndent = 0 :=
    List.countP_eq_zero.2 fun e he ↦ by
      simp [Event.isIndent_of_isAside (isAside_of_mem_groupEvents he).1]
  have hclosing : (d.closingEvents 0 "").countP Event.isIndent = 0 :=
    List.countP_eq_zero.2 fun e he ↦ by simp [(Draft.of_mem_closingEvents he).1]
  have hstart : ¬ Event.isIndent (.started (logicalLines source).length) := Bool.false_ne_true
  have hend : ¬ Event.isIndent (.finished d.toTemplate.size d.opened) := Bool.false_ne_true
  rw [events_trace, hd]
  simp only [List.countP_append, List.countP_cons_of_neg hstart, List.countP_cons_of_neg hend,
    List.countP_nil, hgroups, hclosing, (Draft.opened_placeAll hd).2, Draft.width_empty,
    Nat.zero_add, Nat.add_zero]

/-- A report is a faithful account of the parse of these lines into a template. -/
structure ReportsTree (lines : List LogicalLine) (t : Template) (log : List Event) : Prop where
  /-- It names the lines one after the other. Every closing is that of the innermost open block and
  names the kind that was named when the block was opened, and in the end no block is open. -/
  bracketed : Reader.readAll? {} log = some ⟨lines, []⟩
  /-- Right before the closing of a script stands a keyword check. The script is then the innermost
  open block, and the check agrees with its node in the tree. -/
  checked : ∀ before after width mode, log = before ++ Event.dedent width (.script mode) :: after →
    ∃ before' text mid reported i blocks, before = before' ++ [Event.keywordCheck text mid] ∧
      Reader.readAll? {} before = some ⟨reported, (i, .script mode) :: blocks⟩ ∧
      ChecksNode lines t reported i mode text mid
  /-- No keyword check stands anywhere else. -/
  only_there : ∀ before after text mid, log = before ++ Event.keywordCheck text mid :: after →
    ∃ width mode rest, after = Event.dedent width (.script mode) :: rest
  /-- All but two events are details. The first of the two announces as many lines as there are,
  and as many nodes are counted by the second, which is the last event. It also counts the blocks
  that were reported open, which is how often a line stands further right than the line before it,
  or than the margin if it is the first. -/
  counted : ∃ (first middle : List Event) (blocks : Nat),
    log = first ++ Event.started t.size :: (middle ++ [Event.finished t.size blocks]) ∧
      (∀ e ∈ first ++ middle, e.level = .trace) ∧ t.size = lines.length ∧
      blocks = log.countP Event.isIndent ∧ blocks = Draft.rises 0 (lines.map (·.indent))

/-- **The counts of a report are right.** -/
theorem counts_trace {source : String} {t : Template} (h : parse source = .ok t) :
    ∃ (first middle : List Event) (blocks : Nat),
      (trace source).events =
          first ++ Event.started t.size :: (middle ++ [Event.finished t.size blocks]) ∧
        (∀ e ∈ first ++ middle, e.level = .trace) ∧ t.size = (logicalLines source).length ∧
        blocks = (trace source).events.countP Event.isIndent ∧
        blocks = Draft.rises 0 ((logicalLines source).map (·.indent)) := by
  have hsize : t.size = (logicalLines source).length := by
    rw [Template.size, Template.inOrder, length_documentOrder, (parse_eq_ok_iff.1 h).weights_eq]
  obtain ⟨d, hd, rfl⟩ := parse_eq_ok_iff_placeAll.1 h
  have hopened : d.opened = Draft.rises 0 ((logicalLines source).map (·.indent)) := by
    rw [(Draft.opened_placeAll hd).1, Draft.width_empty]
    exact Nat.zero_add _
  refine ⟨Line.Group.events (lineGroups source),
    (Draft.placeAll {} (logicalLines source)).events ++ d.closingEvents 0 "", d.opened, ?_,
    fun e he ↦ ?_, hsize, ?_, hopened⟩
  · rw [events_trace, hd, ← hsize, List.append_assoc]
  · rcases List.mem_append.1 he with he | he
    · exact (isAside_of_mem_groupEvents he).2
    · rcases List.mem_append.1 he with he | he
      · exact Draft.level_of_mem_placeAll he
      · exact (Draft.of_mem_closingEvents he).2
  · rw [hopened, countP_isIndent_trace hd]

/-- The `else` is examined when it closes the block under the `if`. -/
example : (trace "- if a\n  b\n- else").events =
    [.started 3, .line ⟨"- if a", 0, 1⟩, .line ⟨"b", 2, 2⟩, .indent 2 (.script .silent) 2,
      .line ⟨"- else", 0, 3⟩, .keywordCheck "- else" true, .dedent 0 (.script .silent),
      .finished 3 1] := by
  decide +kernel

end HamlTree
