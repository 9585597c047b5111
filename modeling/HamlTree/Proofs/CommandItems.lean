import HamlTree.CommandLine.Invocation

/-!
# The items of a command line

Read from left to right, a command line is a sequence of *items*: flags, options with their values,
and words (`CommandLine.items`). No scope plays a part in that, and the first word is the command.

A scope takes up the items that stand in it, each in its turn. What a scope knows is what it has
taken up and nothing else (`Scope.Takes`): a flag is set when it is among the items, the options are
those among them, and the path is their word. An accepted command line has one scope before its
command and one after it (`Understands`), so what it asks for can be told from its items: the words
are the name of the command and the path, and each flag counts where it may stand.
-/

namespace HamlTree

section Steps

variable {ε α β : Type}

/-- Two steps have a result when the first has one and the second has one after it. -/
theorem bind_eq_ok_iff {x : Except ε α} {f : α → Except ε β} {b : β} :
    x >>= f = .ok b ↔ ∃ a, x = .ok a ∧ f a = .ok b := by
  rcases x with e | a
  · simp [bind, Except.bind]
  · simp [bind, Except.bind]

theorem map_eq_ok_iff {x : Except ε α} {f : α → β} {b : β} :
    x.map f = .ok b ↔ ∃ a, x = .ok a ∧ f a = b := by
  rcases x with e | a
  · simp [Except.map]
  · simp [Except.map]

end Steps

namespace CommandLine

/-- The name of a command. -/
def Command.name : Command → String
  | check => "check"
  | tree _ => "tree"

/-! ### The items of a command line -/

/-- A part of a command line. -/
inductive Item where
  /-- A flag by its name. -/
  | flag (name : String)
  /-- An option with its value. -/
  | option (value : String)
  /-- A command or a path. -/
  | word (text : String)
deriving DecidableEq

/-- The name of the flag that a letter stands for. -/
def flagName : Char → String
  | 'v' => "verbose"
  | 'h' => "help"
  | 'V' => "version"
  | c => String.singleton c

/-- The items that letters after one hyphen stand for, and whether the last of them is an option
whose value is still to come. What follows the letter of an option is its value. -/
def letterItems : List Char → List Item × Bool
  | [] => ([], false)
  | 'o' :: letters =>
    match Scope.attached? letters with
    | none => ([], true)
    | some value => ([.option value], false)
  | c :: letters => (.flag (flagName c) :: (letterItems letters).1, (letterItems letters).2)

/-- The items of arguments, where the first of them may be the value of an option before it. -/
def items (awaited : Bool) : List String → List Item
  | [] => []
  | text :: rest =>
    match Argument.ofText text with
    | .escape => rest.map .word
    | .long name value? =>
      if String.ofList name = "option" then
        match value? with
        | none => items true rest
        | some value => .option value :: items false rest
      else .flag (String.ofList name) :: items false rest
    | .short letters => (letterItems letters).1 ++ items (letterItems letters).2 rest
    | .plain => (if awaited then .option text else .word text) :: items false rest

/-- The value of an option. -/
def Item.value? : Item → Option String
  | option value => some value
  | _ => none

/-- Whether an item is a word. -/
def Item.isWord : Item → Bool
  | word _ => true
  | _ => false

/-- Whether an item may stand in a scope. Words only stand after the command, and `--json` only
after `tree`. -/
def Item.StandsIn (place : Place) : Item → Prop
  | flag name => name = "json" → place = .tree
  | option _ => True
  | word _ => place ≠ .outer

/-- The words among items. -/
def words (its : List Item) : List Item := its.filter Item.isWord

@[simp] theorem words_append (its more : List Item) :
    words (its ++ more) = words its ++ words more :=
  List.filter_append ..

/-- Before the command there are no words. -/
theorem words_eq_nil {its : List Item} (h : ∀ it ∈ its, it.StandsIn .outer) : words its = [] := by
  refine List.filter_eq_nil_iff.2 fun it hit ↦ ?_
  have hstands := h it hit
  cases it with
  | flag | option => exact Bool.false_ne_true
  | word => exact absurd rfl hstands

/-- The items before the first word of a command line, which is the command. -/
def beforeCommand (args : List String) : List Item := (items false args).takeWhile (!·.isWord)

/-- The items after the command. -/
def afterCommand (args : List String) : List Item := ((items false args).dropWhile (!·.isWord)).tail

/-- The command is where the first word is. -/
theorem eq_beforeCommand_and_eq_afterCommand {args : List String} {its more : List Item}
    {command : String} (h : items false args = its ++ .word command :: more)
    (hwords : words its = []) : beforeCommand args = its ∧ afterCommand args = more := by
  have hnot : ∀ it ∈ its, (!it.isWord) = true := fun it hit ↦ by
    simpa using List.filter_eq_nil_iff.1 hwords it hit
  rw [beforeCommand, afterCommand, h, List.takeWhile_append_of_pos hnot,
    List.dropWhile_append_of_pos hnot]
  exact ⟨List.append_nil its, rfl⟩

/-! ### What a scope takes up -/

namespace Scope

/-- The item that the option still to be examined will be, once its value is known. -/
def pendingItems (s : Scope) : List Item :=
  match s.pending with
  | .value text => [.option text]
  | _ => []

/-- The word that has been taken as the path. -/
def pathWords (s : Scope) : List Item := s.path?.toList.map .word

/-- The items that arguments are to a scope. -/
def upcoming (s : Scope) (args : List String) : List Item :=
  if s.escaped then args.map .word else items (s.pending = .awaited) args

/-- A scope becomes another by taking up items. -/
structure Takes (s : Scope) (its : List Item) (s' : Scope) : Prop where
  /-- The options among them, and the one that was pending before, have been examined in order or
  are pending now. -/
  options : s.options.map Except.ok ++ ((s.pendingItems ++ its).filterMap Item.value?).map pairOf =
    s'.options.map Except.ok ++ (s'.pendingItems.filterMap Item.value?).map pairOf
  /-- The flag `-v` was set before or is among them. -/
  verbose : s'.verbose = true ↔ s.verbose = true ∨ .flag "verbose" ∈ its
  /-- The flag `--json` was set before or is among them. -/
  json : s'.json = true ↔ s.json = true ∨ .flag "json" ∈ its
  /-- The words among them have become the path. -/
  path : s'.pathWords = s.pathWords ++ words its

namespace Takes

variable {s s' s'' : Scope} {its more : List Item}

theorem refl (s : Scope) : s.Takes [] s where
  options := by rw [List.append_nil]
  verbose := by simp
  json := by simp
  path := (List.append_nil _).symm

theorem trans (h : s.Takes its s') (h' : s'.Takes more s'') : s.Takes (its ++ more) s'' where
  options := by
    rw [← h'.options, ← List.append_assoc, List.filterMap_append, List.map_append,
      ← List.append_assoc, h.options, List.filterMap_append, List.map_append, List.append_assoc]
  verbose := by rw [h'.verbose, h.verbose, List.mem_append, or_assoc]
  json := by rw [h'.json, h.json, List.mem_append, or_assoc]
  path := by rw [h'.path, h.path, words_append, List.append_assoc]

end Takes

theorem takes_verbose (s : Scope) : s.Takes [.flag "verbose"] { s with verbose := true } where
  options := by simp [pendingItems, Item.value?]
  verbose := by simp
  json := by simp
  path := by simp [pathWords, words, Item.isWord]

theorem takes_json (s : Scope) : s.Takes [.flag "json"] { s with json := true } where
  options := by simp [pendingItems, Item.value?]
  verbose := by simp
  json := by simp
  path := by simp [pathWords, words, Item.isWord]

/-- A path is taken where there was none. -/
theorem takes_path {s : Scope} (h : s.pathWords = []) (text : String) :
    s.Takes [.word text] { s with path? := some text } where
  options := by simp [pendingItems, Item.value?]
  verbose := by simp
  json := by simp
  path := by
    rw [h]
    rfl

/-- An option is taken up in its turn. -/
theorem takes_option {s : Scope} (h : s.pending = .nothing) {text : String}
    {pair : String × String} (hpair : pairOf text = .ok pair) :
    s.Takes [.option text] { s with options := s.options ++ [pair] } where
  options := by simp [pendingItems, h, Item.value?, hpair]
  verbose := by simp
  json := by simp
  path := by simp [pathWords, words, Item.isWord]

/-- A value is examined later, but it is known now that it is one. -/
theorem takes_value {s : Scope} (h : s.pending = .awaited) (text : String) :
    s.Takes [.option text] { s with pending := .value text } where
  options := by simp [pendingItems, h]
  verbose := by simp
  json := by simp
  path := by simp [pathWords, words, Item.isWord]

/-- What an argument without an escape leaves behind: it has been taken up, and either the value of
an option is awaited or nothing is pending. -/
structure Adds (place : Place) (s : Scope) (its : List Item) (awaited : Bool) (s' : Scope) :
    Prop where
  /-- The items have been taken up. -/
  takes : s.Takes its s'
  /-- They may stand in the scope. -/
  stands : ∀ it ∈ its, it.StandsIn place
  /-- What comes next is seen from what is pending. -/
  pending : s'.pending = if awaited then .awaited else .nothing
  /-- Options can still follow when they could before. -/
  escaped : s'.escaped = s.escaped

variable {place : Place} {s s' : Scope}

/-- The next argument is read accordingly. -/
theorem Adds.upcoming {its : List Item} {awaited : Bool} (h : Adds place s its awaited s')
    (hescaped : s.escaped = false) (rest : List String) :
    s'.upcoming rest = items awaited rest := by
  rw [Scope.upcoming, h.escaped, hescaped, h.pending]
  cases awaited <;> rfl

/-- Settling takes up nothing new and leaves nothing pending. -/
theorem settle_eq_ok (h : s.settle = .ok s') : Adds place s [] false s' := by
  rw [settle] at h
  split at h
  · next hnothing =>
    obtain rfl := Except.ok.inj h
    exact ⟨.refl s, List.forall_mem_nil _, hnothing, rfl⟩
  · exact absurd h (by simp)
  · next text hvalue =>
    obtain ⟨pair, hpair, rfl⟩ := map_eq_ok_iff.1 h
    refine ⟨⟨?_, by simp, by simp, (List.append_nil _).symm⟩, List.forall_mem_nil _, rfl, rfl⟩
    simp [pendingItems, hvalue, Item.value?, hpair]

/-- After settling, one more item is taken up that leaves nothing pending. -/
theorem Adds.of_settled {s₁ : Scope} {it : Item} (h : Adds place s [] false s₁)
    (htakes : s₁.Takes [it] s') (hstands : it.StandsIn place) (hpending : s'.pending = s₁.pending)
    (hescaped : s'.escaped = s₁.escaped) : Adds place s [it] false s' :=
  ⟨h.takes.trans htakes, List.forall_mem_singleton.2 hstands, hpending.trans h.pending,
    hescaped.trans h.escaped⟩

theorem addVerbose_eq_ok (h : s.addVerbose = .ok s') :
    Adds place s [.flag "verbose"] false s' := by
  obtain ⟨s₁, hsettle, h⟩ := bind_eq_ok_iff.1 h
  split at h
  · exact absurd h (by simp)
  · obtain rfl := Except.ok.inj h
    have hstands : (Item.flag "verbose").StandsIn place := fun hjson ↦ absurd hjson (by decide)
    exact (settle_eq_ok hsettle).of_settled s₁.takes_verbose hstands rfl rfl

theorem addJson_eq_ok (h : s.addJson = .ok s') : Adds .tree s [.flag "json"] false s' := by
  obtain ⟨s₁, hsettle, h⟩ := bind_eq_ok_iff.1 h
  split at h
  · exact absurd h (by simp)
  · obtain rfl := Except.ok.inj h
    exact (settle_eq_ok hsettle).of_settled s₁.takes_json (fun _ ↦ rfl) rfl rfl

theorem addPath_eq_ok {text : String} (h : s.addPath place text = .ok s') :
    Adds place s [.word text] false s' := by
  rw [addPath] at h
  split at h
  · exact absurd h (by simp)
  · next hplace =>
    obtain ⟨houter, hnone⟩ := not_or.1 hplace
    obtain ⟨s₁, hsettle, h⟩ := bind_eq_ok_iff.1 h
    obtain rfl := Except.ok.inj h
    have hadds : Adds place s [] false s₁ := settle_eq_ok hsettle
    have hpath : s₁.pathWords = [] := by
      rw [hadds.takes.path, pathWords, Option.not_isSome_iff_eq_none.1 hnone]
      rfl
    exact hadds.of_settled (takes_path hpath text) houter rfl rfl

/-- An option takes up its value, or awaits it. -/
theorem addOption_eq_ok {attached? : Option String} (h : s.addOption attached? = .ok s') :
    Adds place s (attached?.toList.map .option) attached?.isNone s' := by
  obtain ⟨s₁, hsettle, h⟩ := bind_eq_ok_iff.1 h
  have hadds : Adds place s [] false s₁ := settle_eq_ok hsettle
  rcases attached? with - | text
  · obtain rfl := Except.ok.inj h
    have htakes : s₁.Takes [] { s₁ with pending := .awaited } :=
      { Takes.refl s₁ with options := by simp [pendingItems, hadds.pending] }
    exact ⟨hadds.takes.trans htakes, List.forall_mem_nil _, rfl, hadds.escaped⟩
  · obtain ⟨pair, hpair, rfl⟩ := map_eq_ok_iff.1 h
    exact hadds.of_settled (takes_option hadds.pending hpair) trivial rfl rfl

/-- A request for an explanation is never accepted. -/
theorem askHelp_ne_ok : s.askHelp place ≠ .ok s' := by
  intro h
  obtain ⟨s₁, -, h⟩ := bind_eq_ok_iff.1 h
  exact absurd h (by simp)

theorem askVersion_ne_ok : s.askVersion place ≠ .ok s' := by
  intro h
  rw [askVersion] at h
  split at h
  · obtain ⟨s₁, -, h⟩ := bind_eq_ok_iff.1 h
    exact absurd h (by simp)
  · exact absurd h (by simp)

/-- Letters after one hyphen are taken up from the first to the last. -/
theorem addShort_eq_ok {letters : List Char} (hstart : letters = [] → s.pending = .nothing)
    (h : s.addShort place letters = .ok s') :
    Adds place s (letterItems letters).1 (letterItems letters).2 s' := by
  induction letters generalizing s with
  | nil =>
    obtain rfl := Except.ok.inj h
    exact ⟨.refl s, List.forall_mem_nil _, hstart rfl, rfl⟩
  | cons c letters ih =>
    rw [addShort.eq_def] at h
    dsimp only at h
    split at h
    · obtain ⟨s₁, hverbose, h⟩ := bind_eq_ok_iff.1 h
      have hfirst : Adds place s [.flag "verbose"] false s₁ := addVerbose_eq_ok hverbose
      have hrest := ih (fun _ ↦ hfirst.pending) h
      exact ⟨hfirst.takes.trans hrest.takes,
        List.forall_mem_append.2 ⟨hfirst.stands, hrest.stands⟩, hrest.pending,
        hrest.escaped.trans hfirst.escaped⟩
    · have hoption : Adds place s _ _ s' := addOption_eq_ok h
      have hitems : letterItems ('o' :: letters) =
          ((attached? letters).toList.map .option, (attached? letters).isNone) := by
        rw [letterItems]
        rcases attached? letters with - | value <;> rfl
      rwa [hitems]
    · exact absurd h askVersion_ne_ok
    · exact absurd h askHelp_ne_ok
    · exact absurd h (by simp)

/-- An argument with two hyphens is an option or a flag. -/
theorem addLong_eq_ok {name : List Char} {value? : Option String}
    (h : s.addLong place name value? = .ok s') :
    (String.ofList name = "option" ∧ Adds place s (value?.toList.map .option) value?.isNone s') ∨
      (String.ofList name ≠ "option" ∧ Adds place s [.flag (String.ofList name)] false s') := by
  rw [addLong.eq_def] at h
  split at h
  · next hname => exact .inl ⟨hname, addOption_eq_ok h⟩
  · next hname =>
    rw [hname]
    exact .inr ⟨by decide, addVerbose_eq_ok h⟩
  · exact absurd h askVersion_ne_ok
  · exact absurd h askHelp_ne_ok
  · next hname =>
    split at h
    · next hplace =>
      rw [hname, hplace]
      exact .inr ⟨by decide, addJson_eq_ok h⟩
    · exact absurd h (by simp)
  · exact absurd h (by simp)

/-- Letters follow the hyphen of an argument with one hyphen. -/
theorem ne_nil_of_ofText_eq_short {text : String} {letters : List Char}
    (h : Argument.ofText text = .short letters) : letters ≠ [] := by
  rw [Argument.ofText] at h
  split at h
  · exact absurd h (by simp)
  · exact absurd h (by simp)
  · obtain rfl := Argument.short.inj h
    exact List.cons_ne_nil _ _
  · exact absurd h (by simp)

/-- So an argument is taken up as certain items when that is how it is read before any others. -/
theorem Adds.exists_upcoming {text : String} {its : List Item} {awaited : Bool}
    (h : Adds place s its awaited s') (hescaped : s.escaped = false)
    (hitems : ∀ rest, items (s.pending = .awaited) (text :: rest) = its ++ items awaited rest) :
    ∃ its, s.Takes its s' ∧ (∀ it ∈ its, it.StandsIn place) ∧
      ∀ rest, s.upcoming (text :: rest) = its ++ s'.upcoming rest := by
  refine ⟨its, h.takes, h.stands, fun rest ↦ ?_⟩
  rw [h.upcoming hescaped, Scope.upcoming, hescaped, if_neg Bool.false_ne_true]
  exact hitems rest

/-- **One argument of a scope is taken up as the items that it is**, whatever follows it, and they
may stand there. -/
theorem add_eq_ok {text : String} (h : s.add place text = .ok s') :
    ∃ its, s.Takes its s' ∧ (∀ it ∈ its, it.StandsIn place) ∧
      ∀ rest, s.upcoming (text :: rest) = its ++ s'.upcoming rest := by
  rw [add] at h
  split at h
  · next hescaped =>
    have hadds := addPath_eq_ok h
    refine ⟨_, hadds.takes, hadds.stands, fun rest ↦ ?_⟩
    rw [upcoming, upcoming, hadds.escaped, if_pos hescaped, if_pos hescaped]
    rfl
  · next hescaped =>
    have hescaped : s.escaped = false := by simpa using hescaped
    split at h
    · next harg =>
      obtain rfl := Except.ok.inj h
      refine ⟨[], { Takes.refl s with }, List.forall_mem_nil _, fun rest ↦ ?_⟩
      rw [upcoming, hescaped, if_neg Bool.false_ne_true, items, harg]
      rfl
    · next name value? harg =>
      rcases addLong_eq_ok h with ⟨hname, hadds⟩ | ⟨hname, hadds⟩
      · refine hadds.exists_upcoming hescaped fun rest ↦ ?_
        rcases value? with - | value <;> simp [items, harg, hname]
      · refine hadds.exists_upcoming hescaped fun rest ↦ ?_
        simp [items, harg, hname]
    · next letters harg =>
      have hadds := addShort_eq_ok (fun hnil ↦ absurd hnil (ne_nil_of_ofText_eq_short harg)) h
      exact hadds.exists_upcoming hescaped fun rest ↦ by rw [items, harg]
    · next harg =>
      split at h
      · next hawaited =>
        obtain rfl := Except.ok.inj h
        refine ⟨_, takes_value hawaited text, List.forall_mem_singleton.2 trivial, fun rest ↦ ?_⟩
        simp [upcoming, items, harg, hescaped, hawaited]
      · next hawaited =>
        refine (addPath_eq_ok h).exists_upcoming hescaped fun rest ↦ ?_
        simp [items, harg, hawaited]

/-- **All arguments of a scope are taken up.** -/
theorem addAll_eq_ok {args : List String} (h : s.addAll place args = .ok s') :
    s.Takes (s.upcoming args) s' ∧ (∀ it ∈ s.upcoming args, it.StandsIn place) ∧
      s'.pending = .nothing := by
  induction args generalizing s with
  | nil =>
    have hadds : Adds place s [] false s' := settle_eq_ok h
    have hnil : s.upcoming [] = [] := by cases hs : s.escaped <;> simp [upcoming, items, hs]
    rw [hnil]
    exact ⟨hadds.takes, hadds.stands, hadds.pending⟩
  | cons text rest ih =>
    obtain ⟨s₁, hadd, h⟩ := bind_eq_ok_iff.1 h
    obtain ⟨its, htakes, hstands, hupcoming⟩ := add_eq_ok hadd
    obtain ⟨hrest, hmore, hpending⟩ := ih h
    rw [hupcoming]
    exact ⟨htakes.trans hrest, List.forall_mem_append.2 ⟨hstands, hmore⟩, hpending⟩

/-- An argument that opens a scope is a word, and no value is awaited there. -/
theorem upcoming_of_opens? {text : String} (h : s.opens? text = some place) (rest : List String) :
    s.upcoming (text :: rest) = .word text :: items false rest := by
  rw [opens?] at h
  split at h
  · exact absurd h (by simp)
  · next hadmits =>
    obtain ⟨hescaped, hpending⟩ : s.escaped = false ∧ s.pending ≠ .awaited := by
      simpa [admitsCommand] using hadmits
    have harg : Argument.ofText text = .plain := by
      split at h
      · next htext => exact htext ▸ rfl
      · split at h
        · next htext => exact htext ▸ rfl
        · exact absurd h (by simp)
    rw [upcoming, hescaped, decide_eq_false hpending, items, harg]
    rfl

/-- The argument that opens a scope names the command. -/
theorem eq_name_of_opens? {inner : Scope} {text : String} {command : Command}
    (hopens : s.opens? text = some place) (hcommand : inner.command? place = some command) :
    text = command.name := by
  rw [opens?] at hopens
  split at hopens
  · exact absurd hopens (by simp)
  · split at hopens
    · next htext =>
      obtain rfl := Option.some.inj hopens
      obtain rfl := Option.some.inj hcommand
      exact htext
    · split at hopens
      · next htext =>
        obtain rfl := Option.some.inj hopens
        obtain rfl := Option.some.inj hcommand
        exact htext
      · exact absurd hopens (by simp)

end Scope

/-! ### The two scopes of a command line -/

/-- What two scopes say together. -/
structure Invocation.IsOf (i : Invocation) (place : Place) (outer inner : Scope) : Prop where
  /-- The command is that of the inner scope. -/
  command : inner.command? place = some i.command
  /-- So is the path. -/
  path : inner.path? = some i.path
  /-- The flag `-v` counts in both. -/
  verbose : i.verbose = (outer.verbose || inner.verbose)
  /-- Options of the inner scope replace those of the outer one. -/
  options : i.options = if inner.options.isEmpty then outer.options else inner.options

theorem ofScopes_eq_ok {place : Place} {outer inner : Scope} {i : Invocation}
    (h : Invocation.ofScopes place outer inner = .ok i) : i.IsOf place outer inner := by
  rw [Invocation.ofScopes] at h
  split at h
  · next hcommand hpath =>
    obtain rfl := Except.ok.inj h
    exact ⟨hcommand, hpath, rfl, rfl⟩
  · exact absurd h (by simp)

/-- A scope takes up the items before a command, another one those after it, and the two say what
the invocation is. -/
structure Understands (outer : Scope) (before after : List Item) (place : Place)
    (outer' inner : Scope) (i : Invocation) : Prop where
  /-- The items before the command are taken up, -/
  before_takes : outer.Takes before outer'
  /-- they may stand there, -/
  before_stands : ∀ it ∈ before, it.StandsIn .outer
  /-- and no option is pending at the end. -/
  before_pending : outer'.pending = .nothing
  /-- The items after the command are taken up, -/
  after_takes : Scope.Takes {} after inner
  /-- they may stand there, -/
  after_stands : ∀ it ∈ after, it.StandsIn place
  /-- and no option is pending at the end. -/
  after_pending : inner.pending = .nothing
  /-- The invocation is what both scopes say. -/
  isOf : i.IsOf place outer' inner

/-- **An accepted command line has a command**, with one scope before it and one after it. -/
theorem exists_understands_of_ofArgsFrom {outer : Scope} {args : List String} {i : Invocation}
    (h : Invocation.ofArgsFrom outer args = .ok i) :
    ∃ before after place outer' inner,
      outer.upcoming args = before ++ .word i.command.name :: after ∧
      Understands outer before after place outer' inner i := by
  induction args generalizing outer with
  | nil =>
    obtain ⟨_, -, h⟩ := bind_eq_ok_iff.1 h
    exact absurd h (by simp)
  | cons text rest ih =>
    rw [Invocation.ofArgsFrom] at h
    split at h
    · split at h
      · exact absurd h (by simp)
      · obtain ⟨outer₁, hadd, h⟩ := bind_eq_ok_iff.1 h
        obtain ⟨its, htakes, hstands, hupcoming⟩ := Scope.add_eq_ok hadd
        obtain ⟨before, after, place, outer', inner, hargs, hunderstands⟩ := ih h
        refine ⟨its ++ before, after, place, outer', inner, ?_,
          { hunderstands with
            before_takes := htakes.trans hunderstands.before_takes
            before_stands := List.forall_mem_append.2 ⟨hstands, hunderstands.before_stands⟩ }⟩
        rw [hupcoming, hargs, List.append_assoc]
    · next place hopens =>
      obtain ⟨inner, hinner, h⟩ := bind_eq_ok_iff.1 h
      split at h
      · exact absurd h (by simp)
      · obtain ⟨outer', hsettle, h⟩ := bind_eq_ok_iff.1 h
        have hadds : Scope.Adds .outer outer [] false outer' := Scope.settle_eq_ok hsettle
        obtain ⟨htakes, hstands, hpending⟩ := Scope.addAll_eq_ok hinner
        have hisOf := ofScopes_eq_ok h
        refine ⟨[], items false rest, place, outer', inner, ?_, hadds.takes, hadds.stands,
          hadds.pending, htakes, hstands, hpending, hisOf⟩
        rw [Scope.upcoming_of_opens? hopens, Scope.eq_name_of_opens? hopens hisOf.command,
          List.nil_append]

/-- The first word of an accepted command line is the command. -/
theorem understands_of_ofArgs {args : List String} {i : Invocation}
    (h : Invocation.ofArgs args = .ok i) :
    items false args = beforeCommand args ++ .word i.command.name :: afterCommand args ∧
      ∃ place outer inner,
        Understands {} (beforeCommand args) (afterCommand args) place outer inner i := by
  obtain ⟨before, after, place, outer, inner, hargs, hunderstands⟩ :=
    exists_understands_of_ofArgsFrom h
  have hitems : items false args = before ++ .word i.command.name :: after := hargs
  obtain ⟨rfl, rfl⟩ :=
    eq_beforeCommand_and_eq_afterCommand hitems (words_eq_nil hunderstands.before_stands)
  exact ⟨hitems, place, outer, inner, hunderstands⟩

/-! ### Words and flags -/

section Accepted

variable {args : List String} {i : Invocation}

/-- **The words of an accepted command line are the name of its command and its path.** -/
theorem words_of_ofArgs (h : Invocation.ofArgs args = .ok i) :
    words (items false args) = [.word i.command.name, .word i.path] := by
  obtain ⟨hitems, place, outer, inner, hunderstands⟩ := understands_of_ofArgs h
  have hafter : words (afterCommand args) = [.word i.path] := by
    have hpath := hunderstands.after_takes.path
    rw [Scope.pathWords, hunderstands.isOf.path] at hpath
    exact hpath.symm
  rw [hitems, words_append, words_eq_nil hunderstands.before_stands, List.nil_append, words,
    List.filter_cons_of_pos rfl, ← words, hafter]

/-- **The flag `-v` counts wherever it stands.** -/
theorem verbose_iff_of_ofArgs (h : Invocation.ofArgs args = .ok i) :
    i.verbose = true ↔ .flag "verbose" ∈ items false args := by
  obtain ⟨hitems, place, outer, inner, hunderstands⟩ := understands_of_ofArgs h
  rw [hunderstands.isOf.verbose, Bool.or_eq_true, hunderstands.before_takes.verbose,
    hunderstands.after_takes.verbose, hitems]
  simp

/-- **The flag `--json` counts after `tree`**, and stands nowhere else. -/
theorem json_iff_of_ofArgs (h : Invocation.ofArgs args = .ok i) :
    i.command = .tree true ↔ .flag "json" ∈ afterCommand args := by
  obtain ⟨-, place, outer, inner, hunderstands⟩ := understands_of_ofArgs h
  have hcommand := hunderstands.isOf.command
  have hjson : inner.json = true ↔ .flag "json" ∈ afterCommand args := by
    simpa using hunderstands.after_takes.json
  cases place with
  | outer => exact absurd hcommand nofun
  | check =>
    obtain hcheck : .check = i.command := Option.some.inj hcommand
    rw [← hcheck]
    exact iff_of_false nofun fun hflag ↦ absurd (hunderstands.after_stands _ hflag rfl) nofun
  | tree =>
    obtain htree : .tree inner.json = i.command := Option.some.inj hcommand
    rw [← htree, ← hjson]
    simp

end Accepted

end CommandLine

end HamlTree
