import Mathlib.Data.List.Basic
import HamlTree.Parsing

/-!
# Reading a report

The events of a parse, read from the first to the last. A reader keeps the lines that have been
reported and a stack of the blocks that are open, and cannot go on when a block is reported closed
that is not the innermost one (`Reader.read?`). So a report that is read to its end is well
bracketed, and no beginning of it closes more blocks than it opens
(`Reader.countP_isDedent_le`).

`Tells` is the grammar of such reports. It also says where a keyword check stands, right before a
script is closed and nowhere else, and leaves open what has to be true of it.
-/

namespace HamlTree

namespace Event

/-- Whether a block is opened. -/
def isIndent : Event → Bool
  | indent _ _ _ => true
  | _ => false

/-- Whether a block is closed. -/
def isDedent : Event → Bool
  | dedent _ _ => true
  | _ => false

/-- Whether an event says nothing about lines and blocks. -/
def isAside : Event → Bool
  | line _ => false
  | indent _ _ _ => false
  | keywordCheck _ _ => false
  | dedent _ _ => false
  | _ => true

theorem isIndent_of_isAside {e : Event} (h : e.isAside = true) : e.isIndent = false := by
  cases e with
  | indent => exact absurd h Bool.false_ne_true
  | _ => rfl

end Event

/-- What a reader of a report keeps in mind. -/
structure Reader where
  /-- The lines reported so far. -/
  lines : List LogicalLine := []
  /-- The blocks that are open, innermost first: the number of the line that the block is under,
  counted from 0, and the kind that was named when the block was opened. -/
  blocks : List (Nat × Node.Kind) := []
deriving DecidableEq

namespace Reader

/-- Read an event. When a block is opened, the last line is the first in it, and the line before
that is the one it is under. A block that is closed has to be the innermost one, and of the kind
that is named. -/
def read? : Reader → Event → Option Reader
  | r, .line l => some { r with lines := r.lines ++ [l] }
  | r, .indent _ kind _ => some { r with blocks := (r.lines.length - 2, kind) :: r.blocks }
  | ⟨_, []⟩, .dedent _ _ => none
  | ⟨lines, (_, kind) :: blocks⟩, .dedent _ kind' =>
    if kind' = kind then some ⟨lines, blocks⟩ else none
  | r, _ => some r

/-- The innermost block can be closed. -/
theorem read?_dedent (lines : List LogicalLine) (blocks : List (Nat × Node.Kind)) (i width : Nat)
    (kind : Node.Kind) :
    read? ⟨lines, (i, kind) :: blocks⟩ (.dedent width kind) = some ⟨lines, blocks⟩ :=
  if_pos rfl

/-- Read events one after the other. -/
def readAll? (r : Reader) (log : List Event) : Option Reader := log.foldlM read? r

@[simp] theorem readAll?_nil (r : Reader) : r.readAll? [] = some r := rfl

@[simp] theorem readAll?_cons (r : Reader) (e : Event) (log : List Event) :
    r.readAll? (e :: log) = (r.read? e).bind (readAll? · log) := rfl

theorem readAll?_append (r : Reader) (log more : List Event) :
    r.readAll? (log ++ more) = (r.readAll? log).bind (readAll? · more) :=
  List.foldlM_append

/-- An event opens a block, closes one, or leaves their number as it is. -/
theorem length_read? {r r' : Reader} {e : Event} (h : r.read? e = some r') :
    r'.blocks.length + [e].countP Event.isDedent = r.blocks.length + [e].countP Event.isIndent := by
  obtain ⟨lines, blocks⟩ := r
  cases e with
  | dedent width kind =>
    rcases blocks with - | ⟨⟨i, kind'⟩, blocks⟩
    · simp [read?] at h
    · simp only [read?, Option.ite_none_right_eq_some, Option.some.injEq] at h
      obtain ⟨-, rfl⟩ := h
      simp [Event.isDedent, Event.isIndent]
  | _ =>
    obtain rfl := Option.some.inj h
    simp [Event.isDedent, Event.isIndent]

/-- The blocks that are open are those that were opened and not closed. -/
theorem length_readAll? {r r' : Reader} {log : List Event} (h : r.readAll? log = some r') :
    r'.blocks.length + log.countP Event.isDedent =
      r.blocks.length + log.countP Event.isIndent := by
  induction log generalizing r with
  | nil =>
    obtain rfl := Option.some.inj h
    simp
  | cons e log ih =>
    rw [readAll?_cons] at h
    obtain ⟨mid, hmid, h⟩ := Option.bind_eq_some_iff.1 h
    have hstep := length_read? hmid
    have hrest := ih h
    rw [← List.singleton_append, List.countP_append, List.countP_append]
    omega

/-- **No beginning of a report that can be read closes more blocks than it opens.** -/
theorem countP_isDedent_le {r : Reader} {log : List Event} (h : readAll? {} log = some r) :
    ∀ start, start <+: log → start.countP Event.isDedent ≤ start.countP Event.isIndent := by
  rintro start ⟨rest, rfl⟩
  rw [readAll?_append] at h
  obtain ⟨mid, hmid, -⟩ := Option.bind_eq_some_iff.1 h
  have hlength := length_readAll? hmid
  simp only [List.length_nil, Nat.zero_add] at hlength
  omega

end Reader

/-! ### The grammar of reports -/

/-- A report takes a reader from one state to another, and every keyword check in it meets a
condition. The condition sees the lines reported so far, the number of the line that the script
stands on, its mode, and what the check says. -/
inductive Tells (P : List LogicalLine → Nat → ScriptMode → String → Bool → Prop) :
    Reader → List Event → Reader → Prop
  /-- Nothing is reported. -/
  | nil (r : Reader) : Tells P r [] r
  /-- Something else is reported. -/
  | aside {r r' : Reader} {e : Event} {log : List Event} (he : e.isAside = true)
      (h : Tells P r log r') : Tells P r (e :: log) r'
  /-- A line is reported. -/
  | line {lines : List LogicalLine} {blocks : List (Nat × Node.Kind)} {r' : Reader}
      {l : LogicalLine} {log : List Event} (h : Tells P ⟨lines ++ [l], blocks⟩ log r') :
      Tells P ⟨lines, blocks⟩ (.line l :: log) r'
  /-- A block is opened. -/
  | indent {lines : List LogicalLine} {blocks : List (Nat × Node.Kind)} {r' : Reader}
      {width number : Nat} {kind : Node.Kind} {log : List Event}
      (h : Tells P ⟨lines, (lines.length - 2, kind) :: blocks⟩ log r') :
      Tells P ⟨lines, blocks⟩ (.indent width kind number :: log) r'
  /-- The block under an element is closed. -/
  | element {lines : List LogicalLine} {blocks : List (Nat × Node.Kind)} {r' : Reader}
      {i width : Nat} {log : List Event} (h : Tells P ⟨lines, blocks⟩ log r') :
      Tells P ⟨lines, (i, .element) :: blocks⟩ (.dedent width .element :: log) r'
  /-- The block under a script is closed, after a keyword check. -/
  | script {lines : List LogicalLine} {blocks : List (Nat × Node.Kind)} {r' : Reader}
      {i width : Nat} {mode : ScriptMode} {text : String} {mid : Bool} {log : List Event}
      (hcheck : P lines i mode text mid) (h : Tells P ⟨lines, blocks⟩ log r') :
      Tells P ⟨lines, (i, .script mode) :: blocks⟩
        (.keywordCheck text mid :: .dedent width (.script mode) :: log) r'

namespace Tells

variable {P : List LogicalLine → Nat → ScriptMode → String → Bool → Prop} {r r' r'' : Reader}
  {log more : List Event}

/-- Reports follow one another. -/
theorem append (h : Tells P r log r') (hmore : Tells P r' more r'') :
    Tells P r (log ++ more) r'' := by
  induction h with
  | nil => exact hmore
  | aside he _ ih => exact .aside he (ih hmore)
  | line _ ih => exact .line (ih hmore)
  | indent _ ih => exact .indent (ih hmore)
  | element _ ih => exact .element (ih hmore)
  | script hcheck _ ih => exact .script hcheck (ih hmore)

/-- A condition that follows may take the place of another. -/
theorem mono {Q : List LogicalLine → Nat → ScriptMode → String → Bool → Prop}
    (hPQ : ∀ {lines i mode text mid}, P lines i mode text mid → Q lines i mode text mid)
    (h : Tells P r log r') : Tells Q r log r' := by
  induction h with
  | nil r => exact .nil r
  | aside he _ ih => exact .aside he ih
  | line _ ih => exact .line ih
  | indent _ ih => exact .indent ih
  | element _ ih => exact .element ih
  | script hcheck _ ih => exact .script (hPQ hcheck) ih

/-- A report without lines and blocks leaves a reader as he was. -/
theorem of_isAside (r : Reader) (h : ∀ e ∈ log, e.isAside = true) : Tells P r log r := by
  induction log with
  | nil => exact .nil r
  | cons e log ih =>
    exact .aside (h e List.mem_cons_self) (ih fun x hx ↦ h x (List.mem_cons_of_mem e hx))

/-- An aside does not change what a reader keeps in mind. -/
theorem read?_of_isAside {e : Event} (he : e.isAside = true) (r : Reader) :
    r.read? e = some r := by
  cases e with
  | line | indent | keywordCheck | dedent => exact absurd he Bool.false_ne_true
  | _ => rfl

/-- **A report of this form can be read to its end.** -/
theorem readAll? (h : Tells P r log r') : r.readAll? log = some r' := by
  induction h with
  | nil => rfl
  | aside he _ ih => rw [Reader.readAll?_cons, read?_of_isAside he, Option.bind_some, ih]
  | line _ ih | indent _ ih => exact ih
  | element _ ih | script _ _ ih => simpa [Reader.read?] using ih

/-- What stands before the closing of a script: a keyword check that meets the condition, with the
script as the innermost block. -/
def Checked (P : List LogicalLine → Nat → ScriptMode → String → Bool → Prop) (r : Reader)
    (before : List Event) (mode : ScriptMode) : Prop :=
  ∃ before' text mid lines i blocks, before = before' ++ [.keywordCheck text mid] ∧
    r.readAll? before = some ⟨lines, (i, .script mode) :: blocks⟩ ∧ P lines i mode text mid

/-- One event more may come first. -/
theorem Checked.cons {e : Event} {mode : ScriptMode} (hread : r.read? e = some r')
    (h : Checked P r' log mode) : Checked P r (e :: log) mode := by
  obtain ⟨before', text, mid, lines, i, blocks, rfl, hall, hcheck⟩ := h
  refine ⟨e :: before', text, mid, lines, i, blocks, rfl, ?_, hcheck⟩
  rw [Reader.readAll?_cons, hread, Option.bind_some, hall]

/-- **Before a script is closed stands a keyword check**, which meets the condition. -/
theorem checked (h : Tells P r log r') {before after : List Event} {width : Nat}
    {mode : ScriptMode} (hlog : log = before ++ .dedent width (.script mode) :: after) :
    Checked P r before mode := by
  induction h generalizing before with
  | nil => simp at hlog
  | aside he _ ih =>
    rcases List.cons_eq_append_iff.1 hlog with ⟨-, h⟩ | ⟨before, rfl, rfl⟩
    · rw [← (List.cons.inj h).1] at he
      exact absurd he (by simp [Event.isAside])
    · exact (ih rfl).cons (read?_of_isAside he _)
  | line _ ih | indent _ ih =>
    rcases List.cons_eq_append_iff.1 hlog with ⟨-, h⟩ | ⟨before, rfl, rfl⟩
    · simp at h
    · exact (ih rfl).cons rfl
  | element _ ih =>
    rcases List.cons_eq_append_iff.1 hlog with ⟨-, h⟩ | ⟨before, rfl, rfl⟩
    · simp at h
    · exact (ih rfl).cons (Reader.read?_dedent ..)
  | @script lines blocks _ i _ _ text mid _ hcheck _ ih =>
    rcases List.cons_eq_append_iff.1 hlog with ⟨-, h⟩ | ⟨before, rfl, hrest⟩
    · simp at h
    · rcases List.cons_eq_append_iff.1 hrest with ⟨rfl, h⟩ | ⟨before, rfl, rfl⟩
      · -- it is the script that is closed here
        obtain ⟨⟨-, rfl⟩, -⟩ : (_ ∧ mode = _) ∧ _ := by simpa using h
        exact ⟨[], text, mid, lines, i, blocks, rfl, rfl, hcheck⟩
      · exact ((ih rfl).cons (Reader.read?_dedent ..)).cons rfl

/-- **A keyword check stands nowhere else.** -/
theorem only_there (h : Tells P r log r') {before after : List Event} {text : String} {mid : Bool}
    (hlog : log = before ++ .keywordCheck text mid :: after) :
    ∃ width mode rest, after = .dedent width (.script mode) :: rest := by
  induction h generalizing before with
  | nil => simp at hlog
  | aside he _ ih =>
    rcases List.cons_eq_append_iff.1 hlog with ⟨-, h⟩ | ⟨before, rfl, rfl⟩
    · rw [← (List.cons.inj h).1] at he
      exact absurd he (by simp [Event.isAside])
    · exact ih rfl
  | line _ ih | indent _ ih | element _ ih =>
    rcases List.cons_eq_append_iff.1 hlog with ⟨-, h⟩ | ⟨before, rfl, rfl⟩
    · simp at h
    · exact ih rfl
  | @script _ _ _ _ width mode _ _ log _ _ ih =>
    rcases List.cons_eq_append_iff.1 hlog with ⟨-, h⟩ | ⟨before, rfl, hrest⟩
    · exact ⟨width, mode, log, (List.cons.inj h).2⟩
    · rcases List.cons_eq_append_iff.1 hrest with ⟨-, h⟩ | ⟨before, rfl, rfl⟩
      · simp at h
      · exact ih rfl

end Tells

end HamlTree
