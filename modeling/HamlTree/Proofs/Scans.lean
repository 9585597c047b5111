import HamlTree.Fault

/-!
# Scans that can break off

A scanner that keeps a text as it is, with a position in it, relies on a good deal. A position must
not lie behind the end of the text, a piece must not end before it begins or reach beyond the end,
and a count must not be zero when one is to be taken away. A `Scan` records whatever it relies on,
in order, and at the first thing that there is not it breaks off without a result
(`Scan.isSome_iff`). So that it has a result says that all its accesses are in bounds.

Besides breaking off, a scan can end with a value or with an error, as a reading can that has no
positions at all. A scan whose steps end as those of a reading ends as the reading
(`Scan.Follows.bind`).
-/

namespace HamlTree

/-! ### Accesses -/

/-- What a scanner of a text relies on. -/
inductive Access where
  /-- A position, between two characters or at an end of the text. -/
  | position (pos : Nat)
  /-- The piece of the text between two positions. -/
  | piece (start stop : Nat)
  /-- One more than a count of characters. -/
  | more (count : Nat)
  /-- One less than a count of characters. -/
  | less (count : Nat)

/-- Whether there is such a thing, for a text of some length. A count of characters is at most the
length, and at least zero. -/
def Access.InBounds (length : Nat) : Access → Prop
  | position pos => pos ≤ length
  | piece start stop => start ≤ stop ∧ stop ≤ length
  | more count => count + 1 ≤ length
  | less count => 1 ≤ count

instance (length : Nat) : (a : Access) → Decidable (a.InBounds length)
  | .position pos => inferInstanceAs (Decidable (pos ≤ length))
  | .piece start stop => inferInstanceAs (Decidable (start ≤ stop ∧ stop ≤ length))
  | .more count => inferInstanceAs (Decidable (count + 1 ≤ length))
  | .less count => inferInstanceAs (Decidable (1 ≤ count))

/-- A scan of a text of some length. -/
structure Scan (length : Nat) (α : Type) where
  /-- What it accesses, in order. -/
  accesses : List Access
  /-- The value or the error that it ends with, if it does not break off. -/
  result? : Option (Except ParseError α)
  /-- It breaks off at an access that is out of bounds, and nowhere else. -/
  isSome_iff : result?.isSome ↔ ∀ a ∈ accesses, a.InBounds length

namespace Scan

variable {length : Nat} {α β γ δ : Type}

/-- The scan ends with this value. -/
def Gives (x : Scan length α) (a : α) : Prop := x.result? = some (.ok a)

/-- The scan ends with this error. -/
def Fails (x : Scan length α) (e : ParseError) : Prop := x.result? = some (.error e)

/-- End with an error. -/
def fail (e : ParseError) : Scan length α := ⟨[], some (.error e), by simp⟩

/-- Access something, and break off if it is out of bounds. -/
def access (a : Access) : Scan length Unit :=
  ⟨[a], if a.InBounds length then some (.ok ()) else none, by split <;> simpa⟩

/-- Go on with the value that a scan ends with. -/
def andThen (x : Scan length α) (f : (a : α) → x.Gives a → Scan length β) : Scan length β :=
  match h : x.result? with
  | none => ⟨x.accesses, none, by simpa [h] using x.isSome_iff⟩
  | some (.error e) => ⟨x.accesses, some (.error e), by simpa [h] using x.isSome_iff⟩
  | some (.ok a) =>
    ⟨x.accesses ++ (f a h).accesses, (f a h).result?, by
      have hx : ∀ a ∈ x.accesses, a.InBounds length := x.isSome_iff.1 (by rw [h]; rfl)
      rw [(f a h).isSome_iff, List.forall_mem_append]
      exact (and_iff_right hx).symm⟩

instance : Monad (Scan length) where
  pure a := ⟨[], some (.ok a), by simp⟩
  bind x f := x.andThen fun a _ ↦ f a

theorem Gives.result?_andThen {x : Scan length α} {a : α} (h : x.Gives a)
    (f : (a : α) → x.Gives a → Scan length β) : (x.andThen f).result? = (f a h).result? := by
  rw [andThen]
  split
  · next hnone => exact absurd (h.symm.trans hnone) (by simp)
  · next herror => exact absurd (h.symm.trans herror) (by simp)
  · next hok =>
    obtain rfl := Except.ok.inj (Option.some.inj (h.symm.trans hok))
    rfl

/-- A scan goes on after a value only. -/
theorem result?_bind (x : Scan length α) (f : α → Scan length β) :
    (x >>= f).result? = x.result?.bind fun
      | .ok a => (f a).result?
      | .error e => some (.error e) := by
  show (x.andThen _).result? = _
  rw [andThen]
  split
  · next h => simp [h]
  · next h => simp [h]
  · next h => simp [h]

/-- A scan that has ended is in bounds throughout. -/
theorem inBounds_of_result? {x : Scan length α} {r : Except ParseError α} (h : x.result? = some r) :
    ∀ a ∈ x.accesses, a.InBounds length :=
  x.isSome_iff.1 (Option.isSome_of_eq_some h)

/-- A scan ends with one value only. -/
theorem Gives.unique {x : Scan length α} {a a' : α} (h : x.Gives a) (h' : x.Gives a') : a = a' :=
  Except.ok.inj (Option.some.inj (h.symm.trans h'))

theorem Gives.result?_bind {x : Scan length α} {a : α} (h : x.Gives a) (f : α → Scan length β) :
    (x >>= f).result? = (f a).result? := by
  rw [Scan.result?_bind, h]
  rfl

theorem Gives.bind {x : Scan length α} {a : α} {f : α → Scan length β} {b : β} (h : x.Gives a)
    (hb : (f a).Gives b) : (x >>= f).Gives b :=
  (h.result?_bind f).trans hb

theorem Fails.bind {x : Scan length α} {e : ParseError} (h : x.Fails e) (f : α → Scan length β) :
    (x >>= f).Fails e := by
  rw [Fails, Scan.result?_bind, h]
  rfl

/-- A scan that ends with a value has had one to go on with. -/
theorem exists_of_gives_bind {x : Scan length α} {f : α → Scan length β} {b : β}
    (h : (x >>= f).Gives b) : ∃ a, x.Gives a ∧ (f a).Gives b := by
  rw [Gives, Scan.result?_bind] at h
  obtain ⟨a | a, hx, h⟩ := Option.bind_eq_some_iff.1 h
  · exact absurd h (by simp)
  · exact ⟨a, hx, h⟩

theorem gives_pure (a : α) : (pure a : Scan length α).Gives a := rfl

/-- What is in bounds can be accessed. -/
theorem gives_access {a : Access} (h : a.InBounds length) :
    (access a : Scan length Unit).Gives () :=
  if_pos h

variable {text : List Char} {line : Nat}

/-! ### Moving, taking and counting -/

/-- The position after another one, if there is a character between them. -/
def next (text : List Char) (pos : Nat) : Nat := if pos < text.length then pos + 1 else pos

/-- Move to a position. -/
def moveTo (pos : Nat) : Scan length Unit := access (.position pos)

/-- The piece of a text between two positions. -/
def piece (text : List Char) (start stop : Nat) : Scan text.length (List Char) := do
  access (.piece start stop)
  return (text.take stop).drop start

/-- One more than a count. -/
def more (count : Nat) : Scan length Nat := do
  access (.more count)
  return count + 1

/-- One less than a count. -/
def less (count : Nat) : Scan length Nat := do
  access (.less count)
  return count - 1

/-- A character that is there is moved over. -/
theorem next_of_getElem? {pos : Nat} {c : Char} (h : text[pos]? = some c) :
    next text pos = pos + 1 := by
  rw [next, if_pos (List.getElem?_eq_some_iff.1 h).1]

/-- There is less of the text behind a character than before it. -/
theorem sub_next_lt {pos : Nat} {c : Char} (h : text[pos]? = some c) :
    text.length - next text pos < text.length - pos := by
  have hpos : pos < text.length := (List.getElem?_eq_some_iff.1 h).1
  rw [next_of_getElem? h]
  omega

theorem gives_moveTo {pos : Nat} (h : pos ≤ length) : (moveTo pos : Scan length Unit).Gives () :=
  gives_access h

/-- A piece between two positions that are in bounds and in order can be taken. -/
theorem gives_piece {start stop : Nat} (horder : start ≤ stop) (hstop : stop ≤ text.length) :
    (piece text start stop).Gives ((text.take stop).drop start) :=
  Gives.bind (gives_access ⟨horder, hstop⟩) (gives_pure _)

/-- A count that is lower than the length can be raised. -/
theorem gives_more {count : Nat} (h : count + 1 ≤ length) :
    (more count : Scan length Nat).Gives (count + 1) :=
  Gives.bind (gives_access h) (gives_pure _)

/-- A count that is not zero can be lowered. -/
theorem gives_less {count : Nat} (h : 1 ≤ count) :
    (less count : Scan length Nat).Gives (count - 1) :=
  Gives.bind (gives_access h) (gives_pure _)

/-! ### What is left at a position -/

/-- What is left at the position of a character. -/
theorem drop_of_getElem? {pos : Nat} {c : Char} (h : text[pos]? = some c) :
    text.drop pos = c :: text.drop (pos + 1) := by
  rw [List.drop_eq_getElem?_toList_append, h]
  rfl

/-- One character more of a piece. -/
theorem drop_take_succ {start pos : Nat} {c : Char} (hstart : start ≤ pos)
    (hc : text[pos]? = some c) :
    (text.take (pos + 1)).drop start = (text.take pos).drop start ++ [c] := by
  have hpos : pos < text.length := (List.getElem?_eq_some_iff.1 hc).1
  have hle : start ≤ (text.take pos).length := by
    rw [List.length_take]
    omega
  rw [List.take_add_one, hc, List.drop_append_of_le_length hle]
  rfl

/-! ### Pieces by their characters -/

/-- Move on over characters that pass a test. -/
def skipWhile (text : List Char) (p : Char → Bool) (pos : Nat) : Scan text.length Nat :=
  match _h : text[pos]? with
  | none => pure pos
  | some c =>
    if p c then do
      moveTo (next text pos)
      skipWhile text p (next text pos)
    else
      pure pos
termination_by text.length - pos
decreasing_by exact sub_next_lt _h

/-- Take the longest piece whose characters pass a test. -/
def takeWhile (text : List Char) (p : Char → Bool) (pos : Nat) :
    Scan text.length (List Char × Nat) := do
  let stop ← skipWhile text p pos
  let taken ← piece text pos stop
  return (taken, stop)

/-- Moving on ends behind the longest piece whose characters pass the test. -/
theorem gives_skipWhile (p : Char → Bool) (pos : Nat) :
    (skipWhile text p pos).Gives (pos + ((text.drop pos).takeWhile p).length) := by
  fun_induction skipWhile text p pos with
  | case1 pos hend =>
    rw [List.drop_eq_nil_of_le (List.getElem?_eq_none_iff.1 hend)]
    exact gives_pure pos
  | case2 pos c hc hp ih =>
    have hlt : pos < text.length := (List.getElem?_eq_some_iff.1 hc).1
    rw [next_of_getElem? hc] at ih ⊢
    refine (gives_moveTo hlt).bind ?_
    rw [drop_of_getElem? hc, List.takeWhile_cons_of_pos hp, List.length_cons, ← Nat.add_assoc,
      Nat.add_right_comm]
    exact ih
  | case3 pos c hc hp =>
    rw [drop_of_getElem? hc, List.takeWhile_cons_of_neg hp]
    exact gives_pure pos

/-- No piece ends before it begins. -/
theorem le_of_takeWhile {p : Char → Bool} {pos : Nat} {taken : List Char × Nat}
    (h : (takeWhile text p pos).Gives taken) : pos ≤ taken.2 := by
  obtain ⟨stop, hstop, h⟩ := exists_of_gives_bind h
  obtain ⟨piece, -, h⟩ := exists_of_gives_bind h
  obtain rfl := h.unique (gives_pure _)
  obtain rfl := hstop.unique (gives_skipWhile p pos)
  show pos ≤ pos + _
  exact Nat.le_add_right _ _

/-- **A piece is taken as the reading takes it.** -/
theorem gives_takeWhile (p : Char → Bool) {pos : Nat} (hpos : pos ≤ text.length) :
    ∃ stop ≤ text.length, text.drop stop = (text.drop pos).dropWhile p ∧
      (takeWhile text p pos).Gives ((text.drop pos).takeWhile p, stop) := by
  have hskip := @gives_skipWhile text p pos
  generalize htaken : (text.drop pos).takeWhile p = taken at hskip ⊢
  have hcut : text.drop pos = taken ++ (text.drop pos).dropWhile p :=
    htaken ▸ List.takeWhile_append_dropWhile.symm
  have hlength : pos + taken.length ≤ text.length := by
    have h : taken.length ≤ (text.drop pos).length := htaken ▸ (List.takeWhile_prefix p).length_le
    rw [List.length_drop] at h
    omega
  refine ⟨pos + taken.length, hlength, ?_, ?_⟩
  · have hdrop := congrArg (List.drop taken.length) hcut
    rwa [List.drop_drop, List.drop_left] at hdrop
  · have hpiece := gives_piece (Nat.le_add_right pos taken.length) hlength
    rw [List.drop_take, Nat.add_sub_cancel_left, hcut, List.take_left] at hpiece
    exact hskip.bind (hpiece.bind (gives_pure _))

/-! ### Scans and readings -/

/-- End as a reading does, which says nothing about the line. -/
def ofReading (line : Nat) : Except Fault α → Scan length α
  | .ok a => ⟨[], some (.ok a), by simp⟩
  | .error f => fail ⟨f, line⟩

/-- A scan ends as a reading does, with a value that goes with its value, or with the same fault. -/
inductive Follows (line : Nat) (R : α → β → Prop) (x : Scan length α) : Except Fault β → Prop
  /-- Both end with a value. -/
  | gives {a : α} {b : β} (hx : x.Gives a) (hr : R a b) : Follows line R x (.ok b)
  /-- Both end with a fault. -/
  | fails {f : Fault} (hx : x.Fails ⟨f, line⟩) : Follows line R x (.error f)

/-- A value at a position goes with the same value and what is left of the text there. -/
structure AtRest (text : List Char) (p : α × Nat) (q : α × List Char) : Prop where
  /-- The value is the same, -/
  value_eq : p.1 = q.1
  /-- the position is one of the text, -/
  le_length : p.2 ≤ text.length
  /-- and what is left begins there. -/
  drop_eq : text.drop p.2 = q.2

/-- After a reading with a value. -/
theorem Follows.exists_gives {R : α → β → Prop} {x : Scan length α} {b : β}
    (h : Follows line R x (.ok b)) : ∃ a, x.Gives a ∧ R a b := by
  obtain @⟨a, _, hx, hr⟩ := h
  exact ⟨a, hx, hr⟩

/-- After a reading with a fault. -/
theorem Follows.fails_of_error {R : α → β → Prop} {x : Scan length α} {f : Fault}
    (h : Follows line R x (.error f)) : x.Fails ⟨f, line⟩ := by
  obtain - | hx := h
  exact hx

/-- A scan with the values of a reading has its results. -/
theorem Follows.result?_eq {x : Scan length α} {e : Except Fault α} (h : Follows line Eq x e) :
    x.result? = some (e.mapError (⟨·, line⟩)) := by
  rcases e with f | a
  · exact h.fails_of_error
  · obtain ⟨_, hx, rfl⟩ := h.exists_gives
    exact hx

/-- After a step that no step of the reading goes with. -/
theorem Follows.bind_left {R : β → γ → Prop} {x : Scan length α} {a : α} {f : α → Scan length β}
    {e : Except Fault γ} (hx : x.Gives a) (h : Follows line R (f a) e) :
    Follows line R (x >>= f) e := by
  cases h with
  | gives hy hr => exact .gives (hx.bind hy) hr
  | fails hy => exact .fails ((hx.result?_bind f).trans hy)

/-- **Scans that follow readings follow them one after the other.** -/
theorem Follows.bind {R : α → β → Prop} {S : γ → δ → Prop} {x : Scan length α}
    {e : Except Fault β} {f : α → Scan length γ} {g : β → Except Fault δ}
    (h : Follows line R x e) (hf : ∀ a b, R a b → Follows line S (f a) (g b)) :
    Follows line S (x >>= f) (e.bind g) := by
  cases h with
  | gives hx hr => exact (hf _ _ hr).bind_left hx
  | fails hx => exact .fails (hx.bind f)

theorem follows_ofReading (line : Nat) (e : Except Fault α) :
    Follows line Eq (ofReading line e : Scan length α) e := by
  cases e with
  | error f => exact .fails rfl
  | ok a => exact .gives rfl rfl

end Scan

end HamlTree
