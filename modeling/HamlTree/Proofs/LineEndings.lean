import Mathlib.Data.List.Chain
import HamlTree.Proofs.LineSequences

/-!
# Line ends, and blanks before them

The same lines can be written in many ways: blanks may follow each of them, and each but the last is
ended by a line feed, by a carriage return, or by the two together (`Line.Writing`). One combination
has to be left out. A carriage return and a line feed that meet are one line end, so an empty line
between them would be lost.

All other writings of the same lines have the same raw lines (`Line.Writing.rawLines_source`), and
then nothing that is made of them can differ.
-/

namespace HamlTree

namespace Text

/-- Blanks after a text are trimmed away. -/
theorem trimEnd_append_blanks (s : List Char) {blanks : List Char}
    (h : ∀ c ∈ blanks, isBlank c = true) : trimEnd (s ++ blanks) = trimEnd s := by
  rw [trimEnd, trimEnd, List.reverse_append,
    List.dropWhile_append_of_pos fun c hc ↦ h c (List.mem_reverse.1 hc)]

end Text

namespace Line

open Text

/-! ### Ways to write lines -/

/-- What can end a line. -/
inductive Ending where
  /-- A line feed. -/
  | lineFeed
  /-- A carriage return. -/
  | carriageReturn
  /-- A carriage return and a line feed. -/
  | both
deriving DecidableEq

/-- The characters of a line end. -/
def Ending.chars : Ending → List Char
  | lineFeed => ['\n']
  | carriageReturn => ['\r']
  | both => ['\r', '\n']

/-- A line as it is written: there may be blanks after its text, and no line end in it. -/
structure WrittenLine where
  /-- The text of the line. -/
  text : List Char
  /-- The blanks after it. -/
  blanks : List Char
  /-- No line ends in the text, -/
  unbroken : ∀ c ∈ text, isLineEnd c = false
  /-- nor in the blanks. -/
  blank : ∀ c ∈ blanks, isBlank c = true ∧ isLineEnd c = false

/-- All that stands on a line. -/
def WrittenLine.chars (l : WrittenLine) : List Char := l.text ++ l.blanks

/-- A line that is ended. -/
structure EndedLine extends WrittenLine where
  /-- What ends it. -/
  ending : Ending

/-- A way to write lines. -/
structure Writing where
  /-- All lines but the last. -/
  ended : List EndedLine
  /-- The last line, which nothing ends. -/
  last : WrittenLine
  /-- No carriage return is followed by an empty line and a line feed. -/
  apart : ended.IsChain fun l next ↦
    ¬ (l.ending = .carriageReturn ∧ next.chars = [] ∧ next.ending = .lineFeed)

namespace Writing

/-- The texts of the lines. -/
def lines (w : Writing) : List (List Char) := w.ended.map (·.text) ++ [w.last.text]

/-- The source that is written. -/
def source (w : Writing) : String :=
  .ofList (w.ended.flatMap (fun l ↦ l.chars ++ l.ending.chars) ++ w.last.chars)

end Writing

/-! ### What is read back -/

/-- A line has no line end in it. -/
theorem WrittenLine.unbroken_chars (l : WrittenLine) : ∀ c ∈ l.chars, isLineEnd c = false :=
  List.forall_mem_append.2 ⟨l.unbroken, fun c hc ↦ (l.blank c hc).2⟩

/-- The blanks after a line are no part of the raw line. -/
theorem WrittenLine.trimEnd_chars (l : WrittenLine) : trimEnd l.chars = trimEnd l.text :=
  trimEnd_append_blanks l.text fun c hc ↦ (l.blank c hc).1

/-- No line feed is where a line could begin. -/
theorem WrittenLine.head?_chars_append (l : WrittenLine) {rest : List Char}
    (h : l.chars = [] → rest.head? ≠ some '\n') : (l.chars ++ rest).head? ≠ some '\n' := by
  rcases hchars : l.chars with - | ⟨c, chars⟩
  · exact h hchars
  · have hc := l.unbroken_chars c (hchars ▸ List.mem_cons_self)
    rintro heq
    obtain rfl : c = '\n' := by simpa using heq
    exact absurd hc (by decide)

/-- **A line ends where it is ended**, whatever lines come next. -/
theorem Ending.endsLine (ending : Ending) {rest : List Char}
    (h : ending = .carriageReturn → rest.head? ≠ some '\n') : EndsLine ending.chars rest := by
  cases ending with
  | lineFeed => exact .inl rfl
  | carriageReturn => exact .inr (.inr ⟨rfl, h rfl⟩)
  | both => exact .inr (.inl rfl)

/-- **The lines that are read are those that were written.** -/
theorem splitLines_written {ended : List EndedLine} (last : WrittenLine)
    (hapart : ended.IsChain fun l next ↦
      ¬ (l.ending = .carriageReturn ∧ next.chars = [] ∧ next.ending = .lineFeed)) :
    splitLines (ended.flatMap (fun l ↦ l.chars ++ l.ending.chars) ++ last.chars) =
      ended.map (·.chars) ++ [last.chars] := by
  induction ended with
  | nil => exact splitLines_of_unbroken last.unbroken_chars
  | cons l ended ih =>
    -- where `l` ends with a carriage return, the next line does not begin with a line feed
    have hrest : l.ending = .carriageReturn →
        (ended.flatMap (fun l ↦ l.chars ++ l.ending.chars) ++ last.chars).head? ≠ some '\n' := by
      intro hreturn
      rcases ended with - | ⟨next, ended⟩
      · rw [← List.append_nil last.chars]
        exact last.head?_chars_append fun _ ↦ by simp
      · have hnext := hapart.rel
        rw [List.flatMap_cons, List.append_assoc, List.append_assoc]
        refine next.head?_chars_append fun hempty ↦ ?_
        rcases hending : next.ending with - | - | -
        · exact absurd ⟨hreturn, hempty, hending⟩ hnext
        · simp [Ending.chars]
        · simp [Ending.chars]
    rw [List.flatMap_cons, List.append_assoc, List.append_assoc,
      splitLines_append_ending l.unbroken_chars (l.ending.endsLine hrest), ih hapart.tail]
    rfl

/-- **The raw lines of a source are the lines that were written**, without blanks at their ends. -/
theorem Writing.rawLines_source (w : Writing) : rawLines w.source = w.lines.map trimEnd := by
  rw [rawLines, source, String.toList_ofList, splitLines_written w.last w.apart, lines,
    List.map_append, List.map_append, List.map_map, List.map_map, List.map_singleton,
    List.map_singleton, WrittenLine.trimEnd_chars]
  congr 1
  exact List.map_congr_left fun l _ ↦ l.trimEnd_chars

end Line

/-- **It does not matter how lines are written.** Two writings of the same lines — with any blanks
at the ends of the lines, and any line ends between them that stay apart — have the same logical
lines, and so they have the same template or the same error. -/
theorem parse_writing_eq {w w' : Line.Writing} (h : w.lines = w'.lines) :
    logicalLines w.source = logicalLines w'.source ∧ parse w.source = parse w'.source := by
  have hlines : logicalLines w.source = logicalLines w'.source := by
    rw [logicalLines, logicalLines, lineGroups, lineGroups, w.rawLines_source, w'.rawLines_source,
      h]
  exact ⟨hlines, by rw [parse_eq, parse_eq, hlines]⟩

/-- A line separator and a next line character are blanks and end no line; the run of two lines is
still one, and the empty line between the carriage returns is still counted. -/
theorem parse_writing_mixed :
    logicalLines "- if a\n  b |\n   c |\n\n- else" =
        logicalLines "- if a\t\r\n  b | \r   c |\u2028\n\r- else\u0085 " ∧
      parse "- if a\n  b |\n   c |\n\n- else" =
        parse "- if a\t\r\n  b | \r   c |\u2028\n\r- else\u0085 " := by
  let plain : Line.Writing :=
    { ended := [
        ⟨⟨"- if a".toList, [], by simp [Line.isLineEnd], by simp⟩, .lineFeed⟩,
        ⟨⟨"  b |".toList, [], by simp [Line.isLineEnd], by simp⟩, .lineFeed⟩,
        ⟨⟨"   c |".toList, [], by simp [Line.isLineEnd], by simp⟩, .lineFeed⟩,
        ⟨⟨[], [], by simp, by simp⟩, .lineFeed⟩]
      last := ⟨"- else".toList, [], by simp [Line.isLineEnd], by simp⟩
      apart := by decide }
  let mixed : Line.Writing :=
    { ended := [
        ⟨⟨"- if a".toList, ['\t'], by simp [Line.isLineEnd],
          List.forall_mem_singleton.2 (by decide)⟩, .both⟩,
        ⟨⟨"  b |".toList, [' '], by simp [Line.isLineEnd],
          List.forall_mem_singleton.2 (by decide)⟩, .carriageReturn⟩,
        ⟨⟨"   c |".toList, ['\u2028'], by simp [Line.isLineEnd],
          List.forall_mem_singleton.2 (by decide)⟩, .lineFeed⟩,
        ⟨⟨[], [], by simp, by simp⟩, .carriageReturn⟩]
      last := ⟨"- else".toList, ['\u0085', ' '], by simp [Line.isLineEnd],
        List.forall_mem_cons.2 ⟨by decide, List.forall_mem_singleton.2 (by decide)⟩⟩
      apart := by decide }
  have hplain : plain.source = "- if a\n  b |\n   c |\n\n- else" := by decide +kernel
  have hmixed : mixed.source =
      "- if a\t\r\n  b | \r   c |\u2028\n\r- else\u0085 " := by decide +kernel
  rw [← hplain, ← hmixed]
  exact parse_writing_eq (w := plain) rfl

end HamlTree
