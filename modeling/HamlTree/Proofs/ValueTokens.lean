import HamlTree.Proofs.JsonTexts

/-!
# A value is made of its own tokens

The machine that makes a value of tokens keeps all of them: each of its states tells which tokens
have led to it (`State.consumed`), a step adds the token that it takes (`State.step?_consumed`), and
so a run adds all of its tokens. At the end the state is the value. So tokens that make a value are
the tokens of that value (`Value.ofTokens?_eq_some_iff`).
-/

namespace HamlTree.Json

/-- A comma after items or members, if there are some. -/
def comma {α : Type} : List α → List Token
  | [] => []
  | _ => [.comma]

theorem comma_of_ne_nil {α : Type} {items : List α} (h : items ≠ []) : comma items = [.comma] := by
  cases items with
  | nil => exact absurd rfl h
  | cons => rfl

@[simp] theorem comma_reverse {α : Type} (items : List α) : comma items.reverse = comma items := by
  rcases items.eq_nil_or_concat with rfl | ⟨items, v, rfl⟩
  · rfl
  · simp [comma_of_ne_nil]

namespace Value

/-- A comma stands before the last item, if it is not the only one, -/
theorem itemTokens_concat (items : List Value) (v : Value) :
    itemTokens (items ++ [v]) = itemTokens items ++ comma items ++ v.tokens := by
  have hmore : ∀ more : List Value,
      moreItemTokens (more ++ [v]) = moreItemTokens more ++ .comma :: v.tokens := by
    intro more
    induction more with
    | nil => simp [moreItemTokens]
    | cons w more ih => simp [moreItemTokens, ih]
  cases items with
  | nil => simp [itemTokens, moreItemTokens, comma]
  | cons w items => simp [itemTokens, hmore, comma]

/-- and before the last member. -/
theorem memberTokens_concat (members : List (String × Value)) (name : String) (v : Value) :
    memberTokens (members ++ [(name, v)]) =
      memberTokens members ++ comma members ++ .string name :: .colon :: v.tokens := by
  have hmore : ∀ more : List (String × Value), moreMemberTokens (more ++ [(name, v)]) =
      moreMemberTokens more ++ .comma :: .string name :: .colon :: v.tokens := by
    intro more
    induction more with
    | nil => simp [moreMemberTokens]
    | cons m more ih => simp [moreMemberTokens, ih]
  cases members with
  | nil => simp [memberTokens, moreMemberTokens, comma]
  | cons m members => simp [memberTokens, hmore, comma]

end Value

/-- The tokens of a container up to the value that it waits for. -/
def Frame.tokens : Frame → List Token
  | array items => .openBracket :: (Value.itemTokens items.reverse ++ comma items)
  | object members name =>
    .openBrace :: (Value.memberTokens members.reverse ++ comma members ++ [.string name, .colon])

/-- The tokens of all containers up to the value that the innermost one waits for. -/
def openTokens (outer : List Frame) : List Token := outer.reverse.flatMap Frame.tokens

@[simp] theorem openTokens_nil : openTokens [] = [] := rfl

@[simp] theorem openTokens_cons (f : Frame) (outer : List Frame) :
    openTokens (f :: outer) = openTokens outer ++ f.tokens := by
  simp [openTokens]

namespace State

/-- The tokens that were read on the way to a state. -/
def consumed : State → List Token
  | value outer => openTokens outer
  | firstItem outer => openTokens outer ++ [.openBracket]
  | firstName outer => openTokens outer ++ [.openBrace]
  | nextName members outer =>
    openTokens outer ++ .openBrace :: (Value.memberTokens members.reverse ++ comma members)
  | colon members name outer =>
    openTokens outer ++
      .openBrace :: (Value.memberTokens members.reverse ++ comma members ++ [.string name])
  | afterItem items outer => openTokens outer ++ .openBracket :: Value.itemTokens items.reverse
  | afterMember members outer =>
    openTokens outer ++ .openBrace :: Value.memberTokens members.reverse
  | done v => v.tokens

/-- A state that comes after an item or a member has one. -/
def Filled : State → Prop
  | afterItem items _ => items ≠ []
  | afterMember members _ => members ≠ []
  | _ => True

/-- A complete value adds its tokens, -/
theorem complete_consumed (v : Value) (outer : List Frame) :
    (complete v outer).Filled ∧ (complete v outer).consumed = openTokens outer ++ v.tokens := by
  match outer with
  | [] => exact ⟨trivial, rfl⟩
  | .array items :: outer =>
    refine ⟨List.cons_ne_nil v items, ?_⟩
    simp [complete, consumed, Frame.tokens, Value.itemTokens_concat]
  | .object members name :: outer =>
    refine ⟨List.cons_ne_nil (name, v) members, ?_⟩
    simp [complete, consumed, Frame.tokens, Value.memberTokens_concat]

/-- and a token adds itself where a value begins -/
theorem begin?_consumed {outer : List Frame} {t : Token} {s : State}
    (h : begin? outer t = some s) : s.Filled ∧ s.consumed = openTokens outer ++ [t] := by
  cases t with
  | null | bool | number | string =>
    obtain rfl := Option.some.inj h
    exact complete_consumed _ outer
  | openBracket | openBrace =>
    obtain rfl := Option.some.inj h
    exact ⟨trivial, rfl⟩
  | closeBrace | closeBracket | colon | comma => exact absurd h (by simp [begin?])

/-- **as everywhere else.** -/
theorem step?_consumed {s s' : State} {t : Token} (hs : s.Filled) (h : s.step? t = some s') :
    s'.Filled ∧ s'.consumed = s.consumed ++ [t] := by
  unfold step? at h
  split at h
  · exact begin?_consumed h
  · obtain rfl := Option.some.inj h
    simpa [consumed, Value.tokens, Value.itemTokens] using complete_consumed (.array []) _
  · simpa [consumed, Frame.tokens, Value.itemTokens, Json.comma] using begin?_consumed h
  · obtain rfl := Option.some.inj h
    simpa [consumed, Value.tokens, Value.memberTokens] using complete_consumed (.object []) _
  · obtain rfl := Option.some.inj h
    exact ⟨trivial, by simp [consumed, Value.memberTokens, Json.comma]⟩
  · obtain rfl := Option.some.inj h
    exact ⟨trivial, by simp [consumed]⟩
  · obtain rfl := Option.some.inj h
    exact ⟨trivial, by simp [consumed, Frame.tokens]⟩
  · obtain rfl := Option.some.inj h
    exact ⟨trivial, by simp [consumed, Frame.tokens, comma_of_ne_nil hs]⟩
  · next items outer =>
    obtain rfl := Option.some.inj h
    simpa [consumed, Value.tokens] using complete_consumed (.array items.reverse) outer
  · obtain rfl := Option.some.inj h
    exact ⟨trivial, by simp [consumed, comma_of_ne_nil hs]⟩
  · next members outer =>
    obtain rfl := Option.some.inj h
    simpa [consumed, Value.tokens] using complete_consumed (.object members.reverse) outer
  · exact absurd h (by simp)

/-- **A machine keeps all tokens that it reads.** -/
theorem run?_consumed {s s' : State} {ts : List Token} (hs : s.Filled) (h : s.run? ts = some s') :
    s'.consumed = s.consumed ++ ts := by
  induction ts generalizing s with
  | nil =>
    obtain rfl := Option.some.inj h
    rw [List.append_nil]
  | cons t ts ih =>
    obtain ⟨mid, hmid, h⟩ := Option.bind_eq_some_iff.1 h
    obtain ⟨hfilled, hconsumed⟩ := step?_consumed hs hmid
    rw [ih hfilled h, hconsumed, List.append_assoc, List.singleton_append]

end State

namespace Value

/-- **A value is made of its own tokens only.** -/
theorem ofTokens?_eq_some_iff {ts : List Token} {v : Value} :
    ofTokens? ts = some v ↔ ts = v.tokens := by
  refine ⟨fun h ↦ ?_, fun h ↦ h ▸ ofTokens?_tokens v⟩
  unfold ofTokens? at h
  split at h
  · next w hrun =>
    obtain rfl := Option.some.inj h
    exact (State.run?_consumed (s := .value []) trivial hrun).symm
  · exact absurd h (by simp)

end Value

end HamlTree.Json
