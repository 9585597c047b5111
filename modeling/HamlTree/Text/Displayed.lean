/-!
# Displayed text

A text that is written to a terminal may hold characters that are orders to it: control characters,
and control sequences, which open with the escape character and run up to their final character.
`displayed` is the text without them, so that a report stays readable wherever it is kept.

Tabs, line breaks, form feeds and carriage returns are shown. They are shown even in the middle of
a sequence that is not a string, and interrupt it: what follows is shown as well, until another
control character takes the sequence up again or a character beyond ASCII ends it.
-/

namespace HamlTree.Text

/-- A control sequence that has been opened, by what may follow. -/
inductive ControlSequence where
  /-- Nothing but the escape character has been read. -/
  | escape
  /-- The escape character and intermediate characters have been read. -/
  | intermediate
  /-- A function with parameters is spelled, which ends at a letter or a similar sign. -/
  | function
  /-- An operating system command is spelled, which ends at the bell. -/
  | command
  /-- A device control string has been opened. -/
  | device
  /-- The parameters of a device control string are spelled. -/
  | deviceParameters
  /-- Intermediate characters of a device control string are spelled. -/
  | deviceIntermediate
  /-- The text of a string is spelled, which ends at the string terminator. -/
  | string
deriving DecidableEq

/-- Where the display of a text stands. -/
inductive Display where
  /-- Outside all sequences. -/
  | plain
  /-- Inside a sequence. -/
  | inside (sequence : ControlSequence)
  /-- Behind spacing that interrupted a sequence. -/
  | interrupted (sequence : ControlSequence)
deriving DecidableEq

/-- Whether a control character moves on to the text that follows it. -/
def isSpacing (c : Char) : Bool := c = '\t' || c = '\n' || c = '\x0c' || c = '\r'

/-- Whether a character is shown outside a sequence: those beyond ASCII, the printing ones of
ASCII, and spacing. -/
def isShown (c : Char) : Bool :=
  (0x20 ≤ c.toNat && c.toNat ≠ 0x7f) || isSpacing c

/-- Whether a character ends a string. The terminator is a single byte, 9C, and is looked for in
the bytes of the text, so each character that is encoded with this byte ends a string. -/
def endsString (c : Char) : Bool := (String.utf8EncodeChar c).contains 0x9c

namespace ControlSequence

/-- Whether spacing may interrupt a sequence. -/
def admitsSpacing : ControlSequence → Bool
  | escape | intermediate | function => true
  | _ => false

/-- What becomes of a sequence at a character that belongs to it. -/
def next (s : ControlSequence) (c : Char) : Display :=
  let n := c.toNat
  match s with
  | escape =>
    if n < 0x20 || 0x7f ≤ n then .inside escape
    else if n < 0x30 then .inside intermediate
    else match c with
      | '[' => .inside function
      | ']' => .inside command
      | 'P' => .inside device
      | 'X' | '^' | '_' => .inside string
      | _ => .plain
  | intermediate => if 0x30 ≤ n && n < 0x7f then .plain else .inside intermediate
  | function => if 0x40 ≤ n && n < 0x7f then .plain else .inside function
  | command => if c = '\x07' then .plain else .inside command
  | device =>
    if n < 0x20 || 0x7f ≤ n then .inside device
    else if n < 0x30 then .inside deviceIntermediate
    else if n < 0x40 then .inside deviceParameters
    else .inside string
  | deviceParameters =>
    if n < 0x20 || 0x7f ≤ n then .inside deviceParameters
    else if n < 0x30 then .inside deviceIntermediate
    else if n < 0x3c then .inside deviceParameters
    else .inside string
  | deviceIntermediate =>
    if n < 0x30 || 0x7f ≤ n then .inside deviceIntermediate else .inside string
  | string => if endsString c then .plain else .inside string

end ControlSequence

namespace Display

/-- Whether a character is shown. -/
def shows : Display → Char → Bool
  | inside s, c => s.admitsSpacing && isSpacing c
  | _, c => isShown c

/-- Where the display stands after a character. The escape character opens a sequence and the two
cancelling characters close one, wherever they stand. -/
def next (d : Display) (c : Char) : Display :=
  if c = '\x1b' then .inside .escape
  else if c = '\x18' || c = '\x1a' then .plain
  else match d with
    | plain => .plain
    | inside s => if d.shows c then .interrupted s else s.next c
    | interrupted s =>
      if !d.shows c then s.next c
      else if c.toNat < 0x80 then .interrupted s
      else .plain

/-- The characters of a text that are shown, from where the display stands. -/
def shown : Display → List Char → List Char
  | _, [] => []
  | d, c :: cs => if d.shows c then c :: shown (d.next c) cs else shown (d.next c) cs

@[simp] theorem shown_nil (d : Display) : d.shown [] = [] := rfl

theorem shown_cons (d : Display) (c : Char) (cs : List Char) :
    d.shown (c :: cs) = if d.shows c then c :: (d.next c).shown cs else (d.next c).shown cs := rfl

/-- Nothing is added to a text and nothing changes its place. -/
theorem shown_sublist (d : Display) (cs : List Char) : (d.shown cs).Sublist cs := by
  induction cs generalizing d with
  | nil => exact List.Sublist.refl _
  | cons c cs ih =>
    rw [shown_cons]
    split
    · exact (ih _).cons_cons c
    · exact (ih _).cons c

end Display

/-- The text that is shown of a text. -/
def displayed (s : String) : String := String.ofList (Display.plain.shown s.toList)

/-- A character that is shown outside a sequence opens none. -/
theorem next_plain_of_isShown {c : Char} (h : isShown c = true) : Display.plain.next c = .plain := by
  have hc : c ≠ '\x1b' := by
    rintro rfl
    exact absurd h (by decide)
  rw [Display.next, if_neg hc]
  split <;> rfl

/-- A text without control characters, spacing apart, is shown as it is. -/
theorem displayed_eq_self {s : String} (h : ∀ c ∈ s.toList, isShown c = true) : displayed s = s := by
  suffices hs : Display.plain.shown s.toList = s.toList by
    rw [displayed, hs, String.ofList_toList]
  generalize s.toList = cs at h
  induction cs with
  | nil => rfl
  | cons c cs ih =>
    have hc : Display.plain.shows c = true := h c List.mem_cons_self
    rw [Display.shown_cons, if_pos hc, next_plain_of_isShown (h c List.mem_cons_self),
      ih fun a ha ↦ h a (List.mem_cons_of_mem c ha)]

end HamlTree.Text
