import Mathlib.Data.List.Induction
import HamlTree.Proofs.LineNode

/-!
# Well indented lines

Whether a line is well indented depends on the lines before it and on nothing else: the first line
may not be indented, a line may be deeper than the one before it when that one can have children,
and any other line has to return to the width of an earlier line, namely of the last one that is not
deeper. The lines before a line are always given **the latest first**, as the rule looks back.

A line *fits* when it is well indented and its text stands for a node; a sequence of lines fits when
each does after those before it. What is wrong with a line that does not fit is settled here as
well: a fault of the indentation comes before any fault of the text (`LineError`).
-/

namespace HamlTree

/-- A line is well indented after these lines, the latest first. -/
def WellIndented : (earlier : List LogicalLine) → LogicalLine → Prop
  | [], l => l.indent = 0
  | last :: before, l =>
    (last.indent < l.indent ∧ ∃ n, last.toNode.result = .ok n ∧ n.children?.isSome) ∨
      (l.indent ≤ last.indent ∧
        ∃ k, (last :: before).find? (·.indent ≤ l.indent) = some k ∧ k.indent = l.indent)

/-- What is wrong with the indentation of a line after these lines, the latest first. -/
inductive IndentFault : (earlier : List LogicalLine) → LogicalLine → Fault → Prop
  /-- The first line is indented. -/
  | start {l : LogicalLine} (hindent : 0 < l.indent) : IndentFault [] l .indentAtStart
  /-- The line is deeper than one that cannot have children. -/
  | nesting {last l : LogicalLine} {before : List LogicalLine} {n : Node}
      (hdeeper : last.indent < l.indent) (hnode : last.toNode.result = .ok n)
      (hleaf : n.children? = none) : IndentFault (last :: before) l (.illegalNesting n.kind)
  /-- The last earlier line that is not deeper stands at another width. -/
  | dedent {last l k : LogicalLine} {before : List LogicalLine} (hback : l.indent < last.indent)
      (hlast : (last :: before).find? (·.indent ≤ l.indent) = some k)
      (hother : k.indent ≠ l.indent) :
      IndentFault (last :: before) l (.inconsistentIndent l.indent)

/-- A line with such a fault is not well indented. -/
theorem IndentFault.not_wellIndented {earlier : List LogicalLine} {l : LogicalLine} {f : Fault}
    (h : IndentFault earlier l f) : ¬ WellIndented earlier l := by
  cases h with
  | start hindent => exact Nat.ne_of_gt hindent
  | nesting hdeeper hnode hleaf =>
    rintro (⟨-, m, hm, hopen⟩ | ⟨hback, -⟩)
    · obtain rfl := Except.ok.inj (hnode.symm.trans hm)
      simp [hleaf] at hopen
    · omega
  | dedent hback hlast hother =>
    rintro (⟨hdeeper, -⟩ | ⟨-, k, hk, hsame⟩)
    · omega
    · obtain rfl := Option.some.inj (hlast.symm.trans hk)
      exact hother hsame

/-- The two faults of an unexpected width have different texts. -/
theorem message_indentAtStart_ne (width : Nat) :
    "Indenting at the beginning of the document is illegal" ≠
      s!"Inconsistent indentation: {width} spaces do not match any outer level" := by
  intro h
  have hchars : "Indenting at the beginning of the document is illegal".toList =
      ("Inconsistent indentation: " ++ toString width ++
        " spaces do not match any outer level").toList := congrArg String.toList h
  rw [String.toList_append, String.toList_append] at hchars
  simp at hchars

/-- A line fits after these lines, the latest first: it is well indented and stands for a node. -/
def Fits (earlier : List LogicalLine) (l : LogicalLine) : Prop :=
  WellIndented earlier l ∧ ∃ n, l.toNode.result = .ok n

/-- What is wrong with a line that does not fit after these lines, the latest first. The indentation
is examined before the text. -/
inductive LineError : (earlier : List LogicalLine) → LogicalLine → ParseError → Prop
  /-- The line is badly indented. -/
  | indentation {earlier : List LogicalLine} {l : LogicalLine} {f : Fault}
      (hfault : IndentFault earlier l f) : LineError earlier l ⟨f, l.line⟩
  /-- The line is well indented, and its text has a fault. -/
  | text {earlier : List LogicalLine} {l : LogicalLine} {e : ParseError}
      (hindent : WellIndented earlier l) (hnode : l.toNode.result = .error e) :
      LineError earlier l e

/-- A line at fault does not fit. -/
theorem LineError.not_fits {earlier : List LogicalLine} {l : LogicalLine} {e : ParseError}
    (h : LineError earlier l e) : ¬ Fits earlier l := by
  rintro ⟨hindent, n, hn⟩
  cases h with
  | indentation hfault => exact hfault.not_wellIndented hindent
  | text _ hnode => exact absurd (hn.symm.trans hnode) (by simp)

/-- A line has at most one fault of its indentation, -/
theorem IndentFault.unique {earlier : List LogicalLine} {l : LogicalLine} {f f' : Fault}
    (h : IndentFault earlier l f) (h' : IndentFault earlier l f') : f = f' := by
  cases h with
  | start =>
    cases h'
    rfl
  | nesting hdeeper hnode =>
    cases h' with
    | nesting _ hnode' =>
      obtain rfl := Except.ok.inj (hnode.symm.trans hnode')
      rfl
    | dedent hback => omega
  | dedent hback =>
    cases h' with
    | nesting hdeeper => omega
    | dedent => rfl

/-- and so it has at most one error. -/
theorem LineError.unique {earlier : List LogicalLine} {l : LogicalLine} {e e' : ParseError}
    (h : LineError earlier l e) (h' : LineError earlier l e') : e = e' := by
  cases h with
  | indentation hfault =>
    cases h' with
    | indentation hfault' => rw [hfault.unique hfault']
    | text hindent => exact absurd hindent hfault.not_wellIndented
  | text hindent hnode =>
    cases h' with
    | indentation hfault' => exact absurd hindent hfault'.not_wellIndented
    | text _ hnode' => exact Except.error.inj (hnode.symm.trans hnode')

/-- What the error of a line says. With a bad indentation it is that of an indented first line, that
of a line nested under a leaf, whose kind the text names, or that of a line whose width no earlier
line meets; otherwise it is the error of the text. -/
structure Explains (earlier : List LogicalLine) (l : LogicalLine) (e : ParseError) : Prop where
  /-- The error is about this line. -/
  line : e.line = l.line
  /-- With a good indentation the text is at fault, and no indentation is blamed. -/
  text : WellIndented earlier l → l.toNode.result = .error e ∧
    e.fault.category ≠ .unexpectedIndentLevel ∧ e.fault.category ≠ .illegalNesting
  /-- The beginning of the document is blamed on the first line and on no other. -/
  start : ¬ WellIndented earlier l →
    (e.fault.category = .unexpectedIndentLevel ∧
      e.fault.message = "Indenting at the beginning of the document is illegal" ↔ earlier = [])
  /-- Nesting is blamed when the line is deeper than a leaf, -/
  nesting : ¬ WellIndented earlier l →
    (e.fault.category = .illegalNesting ↔ ∃ last n, earlier.head? = some last ∧
      last.indent < l.indent ∧ last.toNode.result = .ok n ∧ n.children? = none)
  /-- and the leaf is then named by its kind. -/
  kind : e.fault.category = .illegalNesting → ∀ last n, earlier.head? = some last →
    last.toNode.result = .ok n →
      e.fault.message = s!"Illegal nesting: nesting within {n.kind.name} is illegal"
  /-- The width is blamed when the line goes back and the last earlier line that is not deeper
  stands elsewhere. -/
  dedent : ¬ WellIndented earlier l →
    (e.fault.category = .unexpectedIndentLevel ∧ e.fault.message =
        s!"Inconsistent indentation: {l.indent} spaces do not match any outer level" ↔
      ∃ last k, earlier.head? = some last ∧ l.indent < last.indent ∧
        earlier.find? (·.indent ≤ l.indent) = some k ∧ k.indent ≠ l.indent)

/-- **The error of a line says what is wrong with it.** -/
theorem LineError.explains {earlier : List LogicalLine} {l : LogicalLine} {e : ParseError}
    (h : LineError earlier l e) : Explains earlier l e := by
  cases h with
  | indentation hfault =>
    have hbad := hfault.not_wellIndented
    cases hfault with
    | start hindent =>
      refine ⟨rfl, fun h ↦ absurd h hbad, fun _ ↦ ⟨fun _ ↦ rfl, fun _ ↦ ⟨rfl, rfl⟩⟩,
        by simp [Fault.category], by simp [Fault.category],
        fun _ ↦ ⟨fun h ↦ absurd h.2 (message_indentAtStart_ne l.indent), ?_⟩⟩
      rintro ⟨_, _, hlast, -⟩
      exact absurd hlast (by simp)
    | @nesting last _ before n hdeeper hnode hleaf =>
      refine ⟨rfl, fun h ↦ absurd h hbad, by simp [Fault.category],
        fun _ ↦ ⟨fun _ ↦ ⟨last, n, rfl, hdeeper, hnode, hleaf⟩, fun _ ↦ rfl⟩, ?_,
        fun _ ↦ ⟨by simp [Fault.category], ?_⟩⟩
      · rintro - last' n' hlast hnode'
        obtain rfl : last = last' := Option.some.inj hlast
        obtain rfl := Except.ok.inj (hnode.symm.trans hnode')
        rfl
      · rintro ⟨last', -, hlast, hback, -⟩
        obtain rfl : last = last' := Option.some.inj hlast
        omega
    | @dedent last _ k before hback hlast hother =>
      refine ⟨rfl, fun h ↦ absurd h hbad,
        fun _ ↦ ⟨fun h ↦ absurd h.2.symm (message_indentAtStart_ne l.indent),
          fun h ↦ absurd h (by simp)⟩,
        fun _ ↦ ⟨by simp [Fault.category], ?_⟩, by simp [Fault.category],
        fun _ ↦ ⟨fun _ ↦ ⟨last, k, rfl, hback, hlast, hother⟩, fun _ ↦ ⟨rfl, rfl⟩⟩⟩
      rintro ⟨last', -, hhead, hdeeper, -⟩
      obtain rfl : last = last' := Option.some.inj hhead
      omega
  | text hindent hnode =>
    obtain ⟨hfault, hline⟩ := LogicalLine.toNode_eq_error_iff.1 hnode
    have hcategory := Node.category_of_ofText hfault
    exact ⟨hline, fun _ ↦ ⟨hnode, hcategory⟩, fun h ↦ absurd hindent h, fun h ↦ absurd hindent h,
      fun h ↦ absurd h hcategory.2, fun h ↦ absurd hindent h⟩

/-- Lines fit one after the other, after those of `earlier`, the latest of these first. -/
def AllFit (earlier : List LogicalLine) : List LogicalLine → Prop
  | [] => True
  | l :: lines => Fits earlier l ∧ AllFit (l :: earlier) lines

@[simp] theorem allFit_nil (earlier : List LogicalLine) : AllFit earlier [] := trivial

@[simp] theorem allFit_cons (earlier : List LogicalLine) (l : LogicalLine)
    (lines : List LogicalLine) :
    AllFit earlier (l :: lines) ↔ Fits earlier l ∧ AllFit (l :: earlier) lines := Iff.rfl

/-- The lines of two sequences fit when those of the first do, and those of the second do after
them. -/
theorem allFit_append (earlier lines more : List LogicalLine) :
    AllFit earlier (lines ++ more) ↔
      AllFit earlier lines ∧ AllFit (lines.reverse ++ earlier) more := by
  induction lines generalizing earlier with
  | nil => simp
  | cons l lines ih => simp [ih, and_assoc]

/-- The line with number `i`, counted from 0, fits after those before it. -/
def FitsAt (lines : List LogicalLine) (i : Nat) : Prop :=
  ∃ h : i < lines.length, Fits (lines.take i).reverse lines[i]

/-- The lines after a line have no say in whether it fits. -/
theorem fitsAt_append_left {lines : List LogicalLine} {i : Nat} (h : i < lines.length)
    (more : List LogicalLine) : FitsAt (lines ++ more) i ↔ FitsAt lines i := by
  have htake : (lines ++ more).take i = lines.take i :=
    List.take_append_of_le_length (Nat.le_of_lt h)
  simp only [FitsAt, htake, List.getElem_append_left h, h, List.length_append, exists_true_left,
    Nat.lt_add_right more.length h]

/-- The line after a sequence fits when it does after all lines of the sequence. -/
theorem fitsAt_length (lines : List LogicalLine) (l : LogicalLine) (more : List LogicalLine) :
    FitsAt (lines ++ l :: more) lines.length ↔ Fits lines.reverse l := by
  simp [FitsAt]

/-- **Lines fit exactly when each of them fits after those before it.** -/
theorem allFit_iff (lines : List LogicalLine) :
    AllFit [] lines ↔ ∀ i < lines.length, FitsAt lines i := by
  induction lines using List.reverseRecOn with
  | nil => simp
  | append_singleton lines l ih =>
    rw [allFit_append, ih, List.append_nil, allFit_cons]
    constructor
    · rintro ⟨hlines, hl, -⟩ i hi
      rcases Nat.lt_or_eq_of_le (Nat.le_of_lt_succ (by simpa using hi)) with hlt | rfl
      · exact (fitsAt_append_left hlt [l]).2 (hlines i hlt)
      · exact (fitsAt_length lines l []).2 hl
    · intro h
      refine ⟨fun i hi ↦ (fitsAt_append_left hi [l]).1 (h i (by simp; omega)), ?_, trivial⟩
      exact (fitsAt_length lines l []).1 (h lines.length (by simp))

end HamlTree
