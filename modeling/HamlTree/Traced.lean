import HamlTree.Event
import HamlTree.Fault

/-!
# Traced computations

A computation that may end in a parse error and reports events on the way. The events come first and
stay: an error ends the computation, but what was reported before it is kept. Forgetting the events
(`Traced.result`) turns a sequence of traced steps into the same sequence of plain ones, which is
how the parse itself is told apart from its report.
-/

namespace HamlTree

/-- A result or an error, with the events reported before it. -/
structure Traced (α : Type) where
  /-- The events, in order. -/
  events : List Event
  /-- How the computation ended. -/
  result : Except ParseError α

namespace Traced

/-- End well without an event. -/
def done {α : Type} (a : α) : Traced α := ⟨[], .ok a⟩

/-- Go on with the result, after the events reported so far. -/
def andThen {α β : Type} (x : Traced α) (f : α → Traced β) : Traced β :=
  match x.result with
  | .ok a => ⟨x.events ++ (f a).events, (f a).result⟩
  | .error e => ⟨x.events, .error e⟩

/-- Report events. -/
def report (events : List Event) : Traced Unit := ⟨events, .ok ()⟩

instance : Monad Traced where
  pure := done
  bind := andThen

@[simp] theorem events_pure {α : Type} (a : α) : (pure a : Traced α).events = [] := rfl

@[simp] theorem result_pure {α : Type} (a : α) : (pure a : Traced α).result = .ok a := rfl

/-- **Forgetting the events of a sequence gives the sequence of the results.** -/
@[simp] theorem result_bind {α β : Type} (x : Traced α) (f : α → Traced β) :
    (x >>= f).result = x.result >>= fun a ↦ (f a).result := by
  show (andThen x f).result = _
  unfold andThen
  cases x.result <;> rfl

theorem events_bind_ok {α β : Type} {x : Traced α} {a : α} (f : α → Traced β)
    (h : x.result = .ok a) : (x >>= f).events = x.events ++ (f a).events := by
  show (andThen x f).events = _
  simp [andThen, h]

theorem events_bind_error {α β : Type} {x : Traced α} {e : ParseError} (f : α → Traced β)
    (h : x.result = .error e) : (x >>= f).events = x.events := by
  show (andThen x f).events = _
  simp [andThen, h]

@[simp] theorem events_report (events : List Event) : (report events).events = events := rfl

@[simp] theorem result_report (events : List Event) : (report events).result = .ok () := rfl

end Traced

end HamlTree
