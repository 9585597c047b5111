import HamlTree.Proofs.LineSequences

/-!
# One source after another

What becomes of a source when another one follows it on the next line. The lines of the first are
read as before, so its error stays its error. The lines of the second begin at the left margin,
where all blocks of the first are closed; nothing that is left of them can be seen from there
(`LineError.append_earlier`). So the templates follow one another, and an error of the second is the
same, further down.

Only one thing reaches back: the first line of the second source closes the blocks that the first
has left open, and decides their flags (`carryOnLast`). These are the blocks under the last
top-level node, under its last child, and so on.
-/

namespace HamlTree

/-! ### The flags of the last blocks -/

mutual

/-- The node when a line comes after all of it: if it is a script with a block, its flag is decided
by that line, and so are those of the last nodes in the block. -/
def Node.carryOn (midBlock : Bool) : Node → Node
  | .element declaration inline children =>
    .element declaration inline (carryOnLast midBlock children)
  | .script mode code flag children =>
    .script mode code (if children.isEmpty then flag else midBlock) (carryOnLast midBlock children)
  | .leaf kind text => .leaf kind text

/-- The nodes when a line comes after all of them: it decides about the last of them. -/
def carryOnLast (midBlock : Bool) : List Node → List Node
  | [] => []
  | [n] => [n.carryOn midBlock]
  | n :: m :: ns => n :: carryOnLast midBlock (m :: ns)

end

@[simp] theorem carryOnLast_nil (midBlock : Bool) : carryOnLast midBlock [] = [] := by
  rw [carryOnLast]

theorem carryOnLast_singleton (midBlock : Bool) (n : Node) :
    carryOnLast midBlock [n] = [n.carryOn midBlock] := by
  rw [carryOnLast]

/-- Only the last of several nodes is concerned. -/
theorem carryOnLast_cons (midBlock : Bool) (n : Node) {ns : List Node} (h : ns ≠ []) :
    carryOnLast midBlock (n :: ns) = n :: carryOnLast midBlock ns := by
  obtain ⟨m, ns, rfl⟩ := List.exists_cons_of_ne_nil h
  rw [carryOnLast]

/-- There are as many nodes as before. -/
theorem carryOnLast_eq_nil_iff (midBlock : Bool) (ns : List Node) :
    carryOnLast midBlock ns = [] ↔ ns = [] := by
  rcases ns with - | ⟨n, - | ⟨m, ns⟩⟩ <;> simp [carryOnLast]

/-- A bare node with a block under it has its flag decided, and the block has its last flags
decided. -/
theorem Node.carryOn_enclose {n : Node} (hbare : n.bare = n) (flag midBlock : Bool)
    {children : List Node} (hopen : children ≠ [] → n.children?.isSome) :
    (n.enclose flag children).carryOn midBlock =
      n.enclose midBlock (carryOnLast midBlock children) := by
  rcases children with - | ⟨child, children⟩
  · rw [carryOnLast_nil, enclose_nil, enclose_nil, ← hbare]
    cases n <;> simp [bare, modifyChildren, modifyMidBlock, carryOn]
  · have hopen := hopen (List.cons_ne_nil child children)
    obtain ⟨first, rest, hcons⟩ := List.exists_cons_of_ne_nil
      ((carryOnLast_eq_nil_iff midBlock (child :: children)).not.2 (List.cons_ne_nil _ _))
    rw [hcons]
    cases n with
    | element => simp [enclose, modifyChildren, modifyMidBlock, carryOn, hcons]
    | script => simp [enclose, modifyChildren, modifyMidBlock, carryOn, hcons]
    | leaf => simp [children?] at hopen

/-- **Another line after a block decides the last flags in it**, and nothing else. -/
theorem Nests.carryOn {next : String} {width : Nat} {lines : List LogicalLine} {trees : List Node}
    (h : Nests next width lines trees) (next' : String) :
    Nests next' width lines (carryOnLast (continuesBlock next') trees) := by
  induction h generalizing next' with
  | nil =>
    rw [carryOnLast_nil]
    exact .nil _ _
  | @cons next width deeper l inner outer n children siblings hindent hnode hblock hinner houter
      ihinner ihouter =>
    rcases outer with - | ⟨after, outer⟩
    · -- the line comes right after the block
      obtain rfl := houter.eq_nil_iff.1 rfl
      rw [carryOnLast_singleton, Node.carryOn_enclose (LogicalLine.bare_of_toNode hnode) _ _
        fun hne ↦ (hblock fun hnil ↦ hne (hinner.eq_nil_iff.1 hnil)).2]
      exact .cons hindent hnode hblock (ihinner next') (.nil _ _)
    · rw [carryOnLast_cons _ _ fun hnil ↦ absurd (houter.eq_nil_iff.2 hnil) (by simp)]
      exact .cons hindent hnode hblock hinner (ihouter next')

/-- The template when a line comes after it, if one does. -/
def Template.before (t : Template) : Option LogicalLine → Template
  | none => t
  | some l => ⟨carryOnLast (continuesBlock l.text) t.nodes⟩

/-! ### Lines before a whole source -/

section Earlier

variable {earlier : List LogicalLine} {l : LogicalLine}

/-- A line that looks back does not look further than a line at the left margin. -/
theorem find?_append_earlier (hmargin : ∃ x ∈ earlier, x.indent = 0) (older : List LogicalLine)
    (width : Nat) : (earlier ++ older).find? (·.indent ≤ width) =
      earlier.find? (·.indent ≤ width) := by
  obtain ⟨x, hx, hzero⟩ := hmargin
  have hfound : (earlier.find? (·.indent ≤ width)).isSome := by
    rw [List.find?_isSome]
    exact ⟨x, hx, by simp [hzero]⟩
  obtain ⟨k, hk⟩ := Option.isSome_iff_exists.1 hfound
  rw [List.find?_append, hk, Option.some_or]

/-- A line that is well indented after such lines is so whatever came before them. -/
theorem WellIndented.append_earlier (hmargin : ∃ x ∈ earlier, x.indent = 0)
    (older : List LogicalLine) (h : WellIndented earlier l) :
    WellIndented (earlier ++ older) l := by
  rcases earlier with - | ⟨last, before⟩
  · simp at hmargin
  · rcases h with hdeeper | ⟨hback, k, hk, hsame⟩
    · exact .inl hdeeper
    · exact .inr ⟨hback, k, (find?_append_earlier hmargin older l.indent).trans hk, hsame⟩

/-- **Behind a line at the left margin, older lines have no say** in what is wrong with a line. -/
theorem LineError.append_earlier (hmargin : ∃ x ∈ earlier, x.indent = 0)
    (older : List LogicalLine) {e : ParseError} (h : LineError earlier l e) :
    LineError (earlier ++ older) l e := by
  cases h with
  | text hindent hnode => exact .text (hindent.append_earlier hmargin older) hnode
  | indentation hfault =>
    refine .indentation ?_
    cases hfault with
    | start => simp at hmargin
    | nesting hdeeper hnode hleaf => exact .nesting hdeeper hnode hleaf
    | dedent hback hlast hother =>
      exact .dedent hback ((find?_append_earlier hmargin older l.indent).trans hlast) hother

/-- Nor have they in whether lines fit. -/
theorem AllFit.append_earlier (hmargin : ∃ x ∈ earlier, x.indent = 0) (older : List LogicalLine)
    {lines : List LogicalLine} (h : AllFit earlier lines) : AllFit (earlier ++ older) lines := by
  induction lines generalizing earlier with
  | nil => trivial
  | cons l lines ih =>
    obtain ⟨⟨hindent, hnode⟩, hlines⟩ := h
    obtain ⟨x, hx, hzero⟩ := hmargin
    exact ⟨⟨hindent.append_earlier ⟨x, hx, hzero⟩ older, hnode⟩,
      ih ⟨x, List.mem_cons_of_mem l hx, hzero⟩ hlines⟩

/-- After any lines that fit, a line at the left margin is well indented. -/
theorem AllFit.wellIndented_margin {lines : List LogicalLine} (h : AllFit [] lines)
    (hzero : l.indent = 0) : WellIndented lines.reverse l := by
  rcases lines with - | ⟨first, lines⟩
  · exact hzero
  · have hfirst : first.indent = 0 := h.1.1
    obtain ⟨last, before, hreverse⟩ := List.exists_cons_of_ne_nil
      (List.reverse_ne_nil_iff.2 (List.cons_ne_nil first lines))
    have hfound : ((first :: lines).reverse.find? (·.indent ≤ l.indent)).isSome := by
      rw [List.find?_isSome]
      exact ⟨first, by simp, by simp [hfirst]⟩
    obtain ⟨k, hk⟩ := Option.isSome_iff_exists.1 hfound
    have hle : k.indent ≤ l.indent := by simpa using List.find?_some hk
    rw [hreverse] at hk ⊢
    exact .inr ⟨by omega, k, hk, by omega⟩

/-- **The first line at fault stays the first one**, when lines that all fit come before the source
and it begins at the left margin. -/
theorem LineError.append_before {older before : List LogicalLine} {e : ParseError}
    (holder : AllFit [] older) (hbefore : AllFit [] before) (h : LineError before.reverse l e)
    (hmargin : ∀ x ∈ (before ++ [l]).head?, x.indent = 0) :
    AllFit [] (older ++ before) ∧ LineError (older ++ before).reverse l e := by
  rw [allFit_append, List.append_nil, List.reverse_append]
  rcases before with - | ⟨first, before⟩
  · have hzero : l.indent = 0 := hmargin l rfl
    refine ⟨⟨holder, trivial⟩, ?_⟩
    cases h with
    | text _ hnode => exact .text (holder.wellIndented_margin hzero) hnode
    | indentation hfault =>
      cases hfault with
      | start hpos => omega
  · have hzero : first.indent = 0 := hmargin first rfl
    obtain ⟨⟨-, hfirst⟩, hrest⟩ := hbefore
    refine ⟨⟨holder, ⟨holder.wellIndented_margin hzero, hfirst⟩, ?_⟩, ?_⟩
    · exact AllFit.append_earlier ⟨first, List.mem_cons_self, hzero⟩ older.reverse hrest
    · exact h.append_earlier ⟨first, by simp, hzero⟩ older.reverse

end Earlier

/-! ### Parsing two sources as one -/

section Sources

variable {s t : String} {r : Template} {e : ParseError}
  (hlast : s.toList.getLast? ≠ some '\r')
  (hseam : Line.Seam (Line.rawLines s) (Line.rawLines t))

include hlast hseam

/-- The error of a source is not changed by what follows. -/
theorem parse_append_of_error (h : parse s = .error e) : parse (s ++ "\n" ++ t) = .error e := by
  obtain ⟨before, x, after, hs, hall, herror⟩ := parse_eq_error_iff.1 h
  have hlines := logicalLines_append hlast hseam
  rw [hs, List.append_assoc, List.cons_append] at hlines
  exact parse_eq_error_iff.2 ⟨before, x, _, hlines, hall, herror⟩

/-- The templates of two sources follow one another. -/
theorem parse_append_of_ok {r' : Template} (h : parse s = .ok r) (h' : parse t = .ok r') :
    parse (s ++ "\n" ++ t) = .ok ⟨(r.before (logicalLines t).head?).nodes ++ r'.nodes⟩ := by
  have h := parse_eq_ok_iff.1 h
  have h' := (parse_eq_ok_iff.1 h').relocate (· + (Line.rawLines s).length) strictMono_id
  rw [parse_eq_ok_iff, logicalLines_append hlast hseam]
  rcases ht : logicalLines t with - | ⟨l, rest⟩
  · rw [ht] at h'
    have hnil : r'.nodes = [] := h'.eq_nil_iff.1 rfl
    simpa [Template.before, hnil] using h
  · rw [ht, List.map_cons] at h'
    exact Nests.append (l := l.relocate id (· + (Line.rawLines s).length)) (h.carryOn l.text) h'

/-- After an accepted source, the error of a source at the left margin is the same, further down. -/
theorem parse_append_of_ok_error {l : LogicalLine} (h : parse s = .ok r)
    (hl : (logicalLines t).head? = some l) (hzero : l.indent = 0) (he : parse t = .error e) :
    parse (s ++ "\n" ++ t) = .error ⟨e.fault, e.line + (Line.rawLines s).length⟩ := by
  obtain ⟨before, x, after, ht, hbefore, herror⟩ := parse_eq_error_iff.1 he
  -- the second source begins at the left margin, and so it does where its lines stand in both
  have hmargin : ∀ y ∈ ((before ++ [x]).map
      (·.relocate id (· + (Line.rawLines s).length))).head?, y.indent = 0 := by
    rw [ht] at hl
    rcases before with - | ⟨first, before⟩
    · obtain rfl : x = l := by simpa using hl
      simpa [LogicalLine.relocate] using hzero
    · obtain rfl : first = l := by simpa using hl
      simpa [LogicalLine.relocate] using hzero
  have hall : AllFit [] (logicalLines s) := (parse_eq_ok_iff.1 h).allFit fun x hx ↦ hx
  have herror := herror.relocate (· + (Line.rawLines s).length) strictMono_id rfl
  rw [List.map_reverse, ParseError.relocate, Fault.relocate_id] at herror
  obtain ⟨hall, herror⟩ := herror.append_before hall (hbefore.relocate _ strictMono_id rfl)
    (by simpa using hmargin)
  have hlines := logicalLines_append hlast hseam
  rw [ht, List.map_append, List.map_cons, ← List.append_assoc] at hlines
  exact parse_eq_error_iff.2 ⟨_, _, _, hlines, hall, herror⟩

/-- **One source after another.** Let a line feed be all that stands between two sources, the first
of which does not end in a carriage return, and let no run of continued lines go on from one to the
other. An error of the first is the error of both. If both are accepted, their templates follow one
another, where the first line of the second source decides the flags of the blocks that are open
before it. If the first is accepted and the second, which begins at the left margin, is not, its
error is that of both, further down by the raw lines of the first. -/
theorem parse_append :
    (∀ e, parse s = .error e → parse (s ++ "\n" ++ t) = .error e) ∧
    (∀ r r', parse s = .ok r → parse t = .ok r' →
      parse (s ++ "\n" ++ t) = .ok ⟨(r.before (logicalLines t).head?).nodes ++ r'.nodes⟩) ∧
    ∀ r l e, parse s = .ok r → (logicalLines t).head? = some l → l.indent = 0 →
      parse t = .error e →
        parse (s ++ "\n" ++ t) = .error ⟨e.fault, e.line + (Line.rawLines s).length⟩ :=
  ⟨fun _ h ↦ parse_append_of_error hlast hseam h,
    fun _ _ h h' ↦ parse_append_of_ok hlast hseam h h',
    fun _ _ _ h hl hzero he ↦ parse_append_of_ok_error hlast hseam h hl hzero he⟩

end Sources

/-- The second source begins with an `else`: it carries on the `if` of the first source, and the
script in it as well, but not the script before that one. -/
theorem parse_append_else :
    parse ("- if a\n  - if b\n    c\n  = d do\n    e |\n" ++ "\n" ++ "- else\n  f") =
      .ok ⟨[.script .silent "if a" true [.script .silent "if b" false [.leaf .plainText "c"],
          .script .output "d do" true [.leaf .plainText "e"]],
        .script .silent "else" false [.leaf .plainText "f"]]⟩ := by
  have h : parse "- if a\n  - if b\n    c\n  = d do\n    e |\n" =
      .ok ⟨[.script .silent "if a" false [.script .silent "if b" false [.leaf .plainText "c"],
        .script .output "d do" false [.leaf .plainText "e"]]]⟩ := by decide +kernel
  have h' : parse "- else\n  f" = .ok ⟨[.script .silent "else" false [.leaf .plainText "f"]]⟩ := by
    decide +kernel
  have hlines : logicalLines "- else\n  f" = [⟨"- else", 0, 1⟩, ⟨"f", 2, 2⟩] := by decide +kernel
  have happend := (parse_append (by decide +kernel) (by decide +kernel)).2.1 _ _ h h'
  rw [happend, hlines]
  decide +kernel

end HamlTree
